import SwiftBite.Data.Schema
import Mathlib.Data.Rat.Floor
import Mathlib.Data.List.Sort

/-! # What the services share besides the tables

The clock, the sequences, the source of UUIDs, and the presence sets in Redis; the errors
the services throw; the configuration; and the answers of the core service and of the
payment provider, which a call receives as data.
-/

set_option autoImplicit false

namespace SwiftBite

open Store

/-! ## Errors -/

inductive ErrorDetails where
  | none
  | transition (source target : OrderStatus)
  | deliveryTransition (source target : DeliveryStatus)
  | shortfalls (details : List (ℕ × ℕ × ℤ))
  deriving DecidableEq, Repr

/-- What a service throws. -/
inductive Err where
  /-- A failed statement, Redis command or connection. -/
  | infrastructure
  | app (message : String) (statusCode : ℕ) (details : ErrorDetails)
  deriving DecidableEq, Repr

namespace Err

def appError (message : String) (statusCode : ℕ) : Err := .app message statusCode .none

/-- `(err as Error).message` -/
def message : Err → String
  | .infrastructure => "infrastructure"
  | .app message _ _ => message

def OrderNotFoundError := appError "OrderNotFound" 404
def BranchNotAcceptingOrdersError := appError "BranchNotAcceptingOrders" 409
def CancellationWindowExpiredError := appError "CancellationWindowExpired" 409
def AddressNotOwnedError := appError "User not authorised" 403
def UnAuthorizedError := appError "User not authorized" 403
def OrderNotReadyError := appError "OrderNotReady" 409
def OrderAlreadyHasActiveDeliveryError := appError "OrderAlreadyHasActiveDelivery" 409
def NoEligibleAgentsError := appError "NoEligibleAgents" 409
def MaxReassignmentAttemptsReachedError := appError "MaxReassignmentAttemptsReached" 409
def DeliveryNotFoundError := appError "DeliveryNotFound" 404
def NoActiveDeliveryError := appError "NoActiveDeliveryForOrder" 409
def AgentInActiveDeliveryError := appError "AgentInActiveDelivery" 409
def NotOnlineError := appError "NotOnline" 409
def InsufficientBalanceError := appError "InsufficientBalance" 409
def OrderNotPendingPaymentError := appError "OrderNotPendingPayment" 409
def InvalidSignatureError := appError "InvalidSignature" 401
def PaymentNotFoundError := appError "PaymentNotFound" 404
def PaymentAlreadyRefundedError := appError "Payment is already fully refunded" 409
def PaymentNotRefundableError := appError "Payment is not in a refundable state" 409

def outOfStockError (details : List (ℕ × ℕ × ℤ)) : Err :=
  .app "OutOfStock" 409 (.shortfalls details)

def invalidStatusTransitionError (source target : OrderStatus) : Err :=
  .app "InvalidStatusTransition" 409 (.transition source target)

def invalidDeliveryTransitionError (source target : DeliveryStatus) : Err :=
  .app "InvalidStatusTransition" 409 (.deliveryTransition source target)

end Err

/-! ## Configuration and answers from outside -/

structure Point where
  lat : ℤ
  lng : ℤ
  deriving DecidableEq, Repr

/-- `env`, and how Redis and PostGIS measure distances; agents at one distance come in the
order of `rank`. -/
structure Config where
  radiusMeters : ℚ
  maxReassignmentAttempts : ℕ
  agentShareRate : ℚ
  geoDistance : Point → Point → ℚ
  stDistance : Point → Point → ℚ
  rank : ℕ → ℕ

structure CoreBranch where
  id : ℕ
  restaurantId : ℕ
  restaurantOwnerId : ℕ
  restaurantActive : Bool
  acceptOrders : Bool
  deliveryFee : ℤ
  commissionBps : ℚ
  currency : String
  lat : ℤ
  lng : ℤ

structure CoreBranchProduct where
  productId : ℕ
  name : String
  imageUrl : Option String
  price : ℤ
  stock : ℤ
  isAvailable : Bool

structure CoreCustomerAddress where
  userId : ℕ
  lat : ℤ
  lng : ℤ
  addressText : String

/-- What `paymentProvider.createSession` returns. -/
structure CreatedSession where
  providerSessionId : String
  redirectUrl : String

/-- The answers that one call gets from the core service and the payment provider. -/
structure Core where
  getBranch : ℕ → Except Err CoreBranch
  getBranchProducts : ℕ → List ℕ → Except Err (List CoreBranchProduct)
  getCustomerAddress : ℕ → Except Err CoreCustomerAddress
  getAgent : ℕ → Except Err Unit
  reserveStock : ℕ → List (ℕ × ℕ) → Except Err Unit
  getPermissions : String → Except Err (List String)
  createSession : ℕ → ℤ → String → Except Err CreatedSession
  /-- The transaction id in the provider's answer to a refund, if it has one. -/
  refund : Option String → ℤ → String → Except Err (Option String)

/-! ## Shared state -/

structure AgentMeta where
  lastSeenAt : Option ℕ
  online : Option Bool

/-- The presence keys of the region in Redis. -/
structure Presence where
  geo : List (ℕ × Point)
  busy : List ℕ
  hashes : List (ℕ × AgentMeta)

structure Shared where
  now : ℕ
  seq : TableName → ℕ
  uuids : ℕ
  presence : Presence

instance : Host Shared Err := ⟨Shared.now, .infrastructure⟩

abbrev Service (α : Type) : Type 1 := Prog (K := RowKey) RowOf Shared Err α

/-- A point in time as JavaScript has it: whole milliseconds, here in microseconds. -/
def toMillis (time : ℕ) : ℕ := time / 1000 * 1000

/-- `new Date().toISOString()` -/
def nowIso : Service ℕ := .sure fun x => (toMillis x.now, x)

def uuidv4 : Service ℕ := .sure fun x => (x.uuids, { x with uuids := x.uuids + 1 })

/-- `nextval` of the table's id sequence. -/
def nextval (t : TableName) : Service ℕ :=
  .sure fun x => (x.seq t, { x with seq := Function.update x.seq t (x.seq t + 1) })

/-- Waiting. -/
def sleep (duration : ℕ) : Service Unit := .sure fun x => ((), { x with now := x.now + duration })

/-- `if (condition) throw err` -/
def throwIf (condition : Prop) [Decidable condition] (err : Err) : Service Unit :=
  if condition then throw err else pure ()

section

variable {α : Type} {condition : Prop} [Decidable condition] {err : Err} {next : Unit → Service α}

theorem throwIf_bind (holds : condition) : (throwIf condition err >>= next) = throw err := by
  rw [throwIf, if_pos holds]
  rfl

theorem throwIf_bind_of_not (fails : ¬ condition) : (throwIf condition err >>= next) = next () := by
  rw [throwIf, if_neg fails]
  rfl

end

/-- `action().catch(() => fallback)` -/
def orElse {α : Type} (action : Service α) (fallback : α) : Service α :=
  action.tryCatch fun _ => pure fallback

/-! ## Presence in Redis -/

namespace Presence

def updateMeta (p : Presence) (agentId : ℕ) (f : AgentMeta → AgentMeta) : Presence :=
  { p with
    hashes := (agentId, f ((p.hashes.lookup agentId).getD ⟨none, none⟩)) ::
      p.hashes.filter fun entry => entry.1 ≠ agentId }

def geoadd (p : Presence) (agentId : ℕ) (point : Point) : Presence :=
  { p with geo := (agentId, point) :: p.geo.filter fun entry => entry.1 ≠ agentId }

def zrem (p : Presence) (agentId : ℕ) : Presence :=
  { p with geo := p.geo.filter fun entry => entry.1 ≠ agentId }

def sadd (p : Presence) (agentId : ℕ) : Presence :=
  if agentId ∈ p.busy then p else { p with busy := agentId :: p.busy }

def srem (p : Presence) (agentId : ℕ) : Presence := { p with busy := p.busy.filter (· ≠ agentId) }

end Presence

/-- One Redis command. -/
def redis (f : Presence → Presence) : Service Unit :=
  .act fun x => (.ok (), { x with presence := f x.presence })

def setAgentOnline (agentId : ℕ) (point : Point) : Service Unit := do
  redis (·.geoadd agentId point)
  let lastSeenAt ← nowIso
  redis (·.updateMeta agentId fun _ => ⟨some lastSeenAt, some true⟩)
  redis (·.srem agentId)

def setAgentOffline (agentId : ℕ) : Service Unit := do
  redis (·.zrem agentId)
  redis (·.srem agentId)
  redis (·.updateMeta agentId fun old => { old with online := some false })

def pingAgent (agentId : ℕ) (point : Point) : Service Unit := do
  redis (·.geoadd agentId point)
  let lastSeenAt ← nowIso
  redis (·.updateMeta agentId fun old => { old with lastSeenAt := some lastSeenAt })

def markAgentBusy (agentId : ℕ) : Service Unit := redis (·.sadd agentId)

def markAgentFree (agentId : ℕ) : Service Unit := redis (·.srem agentId)

structure CandidateAgent where
  agentId : ℕ
  distanceMeters : ℚ
  deriving DecidableEq

/-- Nearest first; agents at the same distance in the order of `rank`. -/
def Config.nearer (env : Config) (a b : CandidateAgent) : Prop :=
  a.distanceMeters < b.distanceMeters ∨
    (a.distanceMeters = b.distanceMeters ∧ env.rank a.agentId ≤ env.rank b.agentId)

instance (env : Config) : DecidableRel env.nearer := fun _ _ => inferInstanceAs (Decidable (_ ∨ _))

/-- `GEOSEARCH .. BYRADIUS .. ASC COUNT n WITHDIST` -/
def Config.geosearch (env : Config) (geo : List (ℕ × Point)) (centre : Point)
    (count : ℕ) : List CandidateAgent :=
  (((geo.map fun entry => ⟨entry.1, env.geoDistance centre entry.2⟩).filter fun candidate =>
    candidate.distanceMeters ≤ env.radiusMeters).insertionSort env.nearer).take count

/-- `for (const [agentIdStr, distStr] of raw)` -/
def collectFree (busy : List ℕ) (limit : ℕ) :
    List CandidateAgent → List CandidateAgent → List CandidateAgent
  | [], candidates => candidates
  | next :: raw, candidates =>
    if next.agentId ∈ busy then collectFree busy limit raw candidates
    else
      let candidates := candidates ++ [next]
      if candidates.length ≥ limit then candidates else collectFree busy limit raw candidates

def findNearbyOnlineAgents (env : Config) (centre : Point) (limit : ℕ) :
    Service (List CandidateAgent) := do
  let busy ← .act fun x => (.ok x.presence.busy, x)
  let raw ← .act fun x => (.ok (env.geosearch x.presence.geo centre (limit + busy.length)), x)
  pure (collectFree busy limit raw [])

end SwiftBite
