import SwiftBite.Verified.Footprints

/-! # Conditions on runs -/

set_option autoImplicit false

namespace SwiftBite.Verified

open Store

/-- The region's calls run this code. -/
abbrev code (env : Config) : Operation → Service Reply := Operation.run env

abbrev ServiceCall := Call (K := RowKey) RowOf Shared Err Operation Reply

/-- The call after an action. -/
def afterwards (call : ServiceCall)
    (out : Outcome (K := RowKey) RowOf Shared Err Reply) : ServiceCall :=
  ⟨call.op, out.prog, out.loc⟩

/-- Every update of an order or of a delivery finds the row in the status in which the call
saw it last. -/
def Fresh (l : Local RowOf RowKey) (db : Database) (ws : List SqlWrite) : Prop :=
  ∀ w ∈ ws, match w with
    | .update .orders k _ => ∀ row shown : Order, (db .orders).get k = some row →
        l.lastSeen TableName.orders k = some shown → shown.status = row.status
    | .update .deliveries k _ => ∀ row shown : Delivery, (db .deliveries).get k = some row →
        l.lastSeen TableName.deliveries k = some shown → shown.status = row.status
    | _ => True

theorem lastSeen_order (txn : Option (Txn RowOf RowKey)) (order : Order)
    (seen : List (Sigma RowOf)) :
    (⟨txn, ⟨TableName.orders, order⟩ :: seen⟩ : Local RowOf RowKey).lastSeen TableName.orders
      (RowKey.id order.id) =
      some order :=
  Local.lastSeen_cons_self txn TableName.orders order seen

theorem lastSeen_delivery (txn : Option (Txn RowOf RowKey)) (delivery : Delivery)
    (seen : List (Sigma RowOf)) :
    (⟨txn, ⟨TableName.deliveries, delivery⟩ :: seen⟩ : Local RowOf RowKey).lastSeen
      TableName.deliveries
      (RowKey.id delivery.id) = some delivery :=
  Local.lastSeen_cons_self txn TableName.deliveries delivery seen

/-- The event is no stale update. -/
def FreshEvent (p : Region) : Event Operation → Prop
  | .step i choice =>
    ∀ call out, p.calls[i]? = some call → call.prog.next choice call.loc p.db p.side = some out →
      Fresh call.loc (p.db.applyAll call.loc.writes) out.acquired
  | _ => True

/-- The event's statement meets a condition on the call, the rows it would read and the writes. -/
def Abides (allow : Local RowOf RowKey → Database → List SqlWrite → Prop)
    (p : Region) : Event Operation → Prop
  | .step i choice =>
    ∀ call out, p.calls[i]? = some call → call.prog.next choice call.loc p.db p.side = some out →
      allow call.loc (p.db.applyAll call.loc.writes) out.acquired
  | _ => True

/-- Calls start only for operations of a kind. -/
def Serves (kind : Operation → Prop) : Event Operation → Prop
  | .spawn op => kind op
  | _ => True

theorem Serves.mono {kind kind' : Operation → Prop} (weaker : ∀ op, kind op → kind' op)
    {e : Event Operation} (serves : Serves kind e) : Serves kind' e := by
  cases e with
  | spawn op => exact weaker op serves
  | step i choice => trivial
  | crash i => trivial

/-- No call fails and no process dies. -/
def Faultless : Event Operation → Prop
  | .step _ choice => choice ≠ .fault
  | .crash _ => False
  | _ => True

instance (kind : Operation → Prop) [DecidablePred kind] : DecidablePred (Serves kind)
  | .spawn op => inferInstanceAs (Decidable (kind op))
  | .step _ _ => inferInstanceAs (Decidable True)
  | .crash _ => inferInstanceAs (Decidable True)

instance : DecidablePred Faultless
  | .spawn _ => inferInstanceAs (Decidable True)
  | .step _ choice => inferInstanceAs (Decidable (choice ≠ .fault))
  | .crash _ => inferInstanceAs (Decidable False)

/-! ## Checking the conditions -/

/-- A relation between what two lookups find. -/
instance decidableFound {α β : Type*} (first : Option α) (second : α → Option β)
    (related : α → β → Prop) [∀ a b, Decidable (related a b)] :
    Decidable (∀ a b, first = some a → second a = some b → related a b) :=
  decidable_of_iff (∀ a ∈ first, ∀ b ∈ second a, related a b)
    ⟨fun holds a b isA isB => holds a isA b isB, fun holds a isA b isB => holds a b isA isB⟩

instance (l : Local RowOf RowKey) (db : Database) (ws : List SqlWrite) :
    Decidable (Fresh l db ws) :=
  @List.decidableBAll _ _ (fun
    | .update .orders k _ =>
      decidableFound ((db .orders).get k) (fun _ => l.lastSeen TableName.orders k) _
    | .update .deliveries k _ =>
      decidableFound ((db .deliveries).get k) (fun _ => l.lastSeen TableName.deliveries k) _
    | .update .orderItems .. | .update .transactions .. | .update .paymentSessions ..
    | .update .paymentWebhookEvents ..
    | .update .agentEarnings .. | .update .restaurantBalances .. | .update .agentPresence ..
    | .update .eventsOutbox ..
    | .insert .. | .lock .. => inferInstanceAs (Decidable True)) ws

instance (allow : Local RowOf RowKey → Database → List SqlWrite → Prop)
    [∀ l db ws, Decidable (allow l db ws)] (p : Region) : DecidablePred (Abides allow p)
  | .step i choice =>
    decidableFound p.calls[i]? (fun call => call.prog.next choice call.loc p.db p.side) _
  | .spawn _ | .crash _ => inferInstanceAs (Decidable True)

instance (p : Region) : DecidablePred (FreshEvent p)
  | .step i choice => inferInstanceAs (Decidable (Abides Fresh p (.step i choice)))
  | .spawn _ | .crash _ => inferInstanceAs (Decidable True)

/-- Calls of a kind, each of which starts and moves on while no other is under way, without
faults. -/
def Consecutive (kind : Operation → Prop) (p : Region) : Event Operation → Prop
  | .spawn op => p.Idle = true ∧ kind op
  | .step i choice => choice ≠ .fault ∧ ∀ j < p.calls.length, j ≠ i → p.live j = none
  | .crash _ => False

instance (kind : Operation → Prop) [DecidablePred kind] (p : Region) :
    DecidablePred (Consecutive kind p)
  | .spawn op => inferInstanceAs (Decidable (p.Idle = true ∧ kind op))
  | .step i choice =>
    inferInstanceAs (Decidable (choice ≠ .fault ∧ ∀ j < p.calls.length, j ≠ i → p.live j = none))
  | .crash _ => inferInstanceAs (Decidable False)

theorem Consecutive.serves {kind : Operation → Prop} {p : Region} {e : Event Operation}
    (alone : Consecutive kind p e) : Serves kind e := by
  cases e with
  | spawn op => exact alone.2
  | step i choice => trivial
  | crash i => trivial

/-- Only the call itself is under way. -/
theorem Consecutive.eq_of_live {kind : Operation → Prop} {p : Region} {i j : ℕ} {choice : Choice}
    {op : Operation} (alone : Consecutive kind p (.step i choice))
    (running : p.live j = some op) : j = i := by
  by_contra other
  obtain ⟨call, found, _, _⟩ := Pool.live_eq_some running
  cases (alone.2 j (List.getElem?_eq_some_iff.1 found).1 other).symm.trans running

/-- The order, as it is committed. -/
abbrev orderOf (db : Database) (id : ℕ) : Option Order := (db .orders).get (RowKey.id id)

abbrev deliveryOf (db : Database) (id : ℕ) : Option Delivery := (db .deliveries).get (RowKey.id id)

/-- Every order of the first state is in the second, and its row is related. -/
def OrdersMove (related : Order → Order → Prop) (db db' : Database) : Prop :=
  ∀ id row, orderOf db id = some row → ∃ row', orderOf db' id = some row' ∧ related row row'

theorem OrdersMove.same {related : Order → Order → Prop} (refl : ∀ row, related row row)
    {db db' : Database} (same : db' .orders = db .orders) : OrdersMove related db db' := by
  intro id row found
  exact ⟨row, by rw [orderOf, same]; exact found, refl row⟩

/-- One order is rewritten, and nothing else happens to the orders. -/
theorem OrdersMove.modify {related : Order → Order → Prop} (refl : ∀ row, related row row)
    {db db' : Database} {id : ℕ} {f : Order → Order}
    (changed : db' .orders = (db .orders).modify (RowKey.id id) f)
    (identity : ∀ row, key (f row) = key row ∧ uniques (f row) = uniques row)
    (moves : ∀ row, orderOf db id = some row → related row (f row)) :
    OrdersMove related db db' := by
  intro id' row found
  have looked : orderOf db' id' = some (Table.rewrite (RowKey.id id) f row) := by
    rw [orderOf, changed, Table.get_modify]
    have := found
    simp only [orderOf] at this
    rw [this]
    rfl
  refine ⟨_, looked, ?_⟩
  by_cases same : id' = id
  · subst same
    rw [Table.rewrite_of_eq (Table.get_key found),
      Table.keepIdentity_eq (identity row).1 (identity row).2]
    exact moves row found
  · rw [Table.rewrite_of_ne (by rw [Table.get_key found]; simpa using same)]
    exact refl row

theorem Order.identity_withStatus (status : OrderStatus) (updatedAt : ℕ) (stamp : Option ℕ)
    (row : Order) :
    key (Order.withStatus status updatedAt stamp row) = key row ∧
      uniques (Order.withStatus status updatedAt stamp row) = uniques row := by
  cases status <;> exact ⟨rfl, rfl⟩

@[simp] theorem Order.status_withStatus (status : OrderStatus) (updatedAt : ℕ) (stamp : Option ℕ)
    (row : Order) : (Order.withStatus status updatedAt stamp row).status = status :=
  rfl

/-! ## A small region

One branch, one customer, and a core service that answers every request; the values that
the runs below start from.
-/

namespace Sample

def env : Config where
  radiusMeters := 5000
  maxReassignmentAttempts := 3
  agentShareRate := 4 / 5
  geoDistance _ _ := 10
  stDistance _ _ := 10
  rank agentId := agentId

def branch : CoreBranch where
  id := 6
  restaurantId := 5
  restaurantOwnerId := 9
  restaurantActive := true
  acceptOrders := true
  deliveryFee := 100
  commissionBps := 1000
  currency := "EGP"
  lat := 0
  lng := 0

def core : Core where
  getBranch _ := .ok branch
  getBranchProducts _ _ := .ok [⟨1, "tea", none, 500, 10, true⟩]
  getCustomerAddress _ := .ok ⟨7, 0, 0, "1 Nile Street"⟩
  getAgent _ := .ok ()
  reserveStock _ _ := .ok ()
  getPermissions _ := .ok ["orders:accept", "orders:update", "orders:cancel"]
  createSession publicId _ _ := .ok ⟨"session " ++ toString publicId, "https://checkout"⟩
  refund _ _ _ := .ok none

def shared : Shared where
  now := 1000000
  seq _ := 10
  uuids := 500
  presence := ⟨[], [], []⟩

def order (status : OrderStatus) : Order where
  id := 1
  publicId := 100
  restaurantId := 5
  branchId := 6
  customerId := 7
  customerAddressId := 8
  deliveryLat := 0
  deliveryLng := 0
  deliveryAddressTextSnapshot := "1 Nile Street"
  status := status
  subtotal := 1000
  deliveryFee := 100
  serviceFee := 0
  total := 1100
  commission := 0
  currency := "EGP"
  paymentMethod := .cod
  deliveryAgentId := none
  createdAt := 0
  updatedAt := 0
  acceptedAt := none
  rejectedAt := none
  readyAt := none
  assignedAt := none
  pickedAt := none
  deliveredAt := none
  cancelledAt := none

/-- A database with one order. -/
def db (status : OrderStatus) : Database :=
  Database.empty.apply (.insert TableName.orders (order status) : SqlWrite)

def delivery (status : DeliveryStatus) : Delivery where
  id := 1
  orderId := 1
  agentId := 2
  status := status
  pickupLat := 0
  pickupLng := 0
  dropoffLat := 0
  dropoffLng := 0
  distanceMeters := none
  earningAmount := none
  currency := "EGP"
  assignedAt := 0
  acceptedAt := none
  rejectedAt := none
  pickedAt := none
  deliveredAt := none
  reassignedAt := none
  reassignedFrom := none

/-- The order, and one delivery of it. -/
def dbOnTheWay (status : OrderStatus) (deliveryStatus : DeliveryStatus) : Database :=
  (db status).apply (.insert TableName.deliveries (delivery deliveryStatus) : SqlWrite)

/-- An order that waits for its payment. -/
def onlineOrder : Order := { order .pendingPayment with paymentMethod := .online }

def session (status : PaymentSessionStatus) : PaymentSession where
  id := 1
  orderId := 1
  providerId := 1
  providerSessionId := "session 100"
  redirectUrl := "https://checkout"
  amount := 1100
  currency := "EGP"
  status := status
  createdAt := 0
  updatedAt := 0

/-- The order, and one payment session of it. -/
def dbPaying (status : PaymentSessionStatus) : Database :=
  (Database.empty.apply (.insert TableName.orders onlineOrder : SqlWrite)).apply
    (.insert TableName.paymentSessions (session status) : SqlWrite)

/-- The charge of the order. -/
def charge : Transaction where
  id := 1
  orderId := some 1
  transactionType := .charge
  method := .online
  providerId := some 1
  providerReferenceId := some "a"
  status := .succeeded
  amount := 1100
  currency := "EGP"
  srcAccId := some 7
  dstAccId := none
  isRefunded := false
  refundedPaymentId := none
  idempotencyKey := some (.charge "a")
  createdAt := 0
  updatedAt := 0

/-- The order, and its charge. -/
def dbCharged : Database :=
  (Database.empty.apply (.insert TableName.orders { onlineOrder with
    status := .placed } : SqlWrite)).apply
    (.insert TableName.transactions charge : SqlWrite)

/-- A `pay` event for the order. -/
def payEvent (status transactionId : String) : WebhookPayload :=
  ⟨some "pay", some status, .uuid 100, some transactionId, none⟩

def owner : RequestActor :=
  { userId := 9, role := .restaurantUser, restaurantId := some 5, restaurantRole := some "owner" }

def admin : RequestActor :=
  { userId := 1, role := .systemAdmin, restaurantId := none, restaurantRole := none }

/-- Agent 2 is at the branch. -/
def nearby : Shared := { shared with presence := ⟨[(2, ⟨0, 0⟩)], [], []⟩ }

/-- The next action of call `i`, without a fault. -/
def act (i : ℕ) : Event Operation := .step i (.pick 0)

/-- Agent 3 is given the order and rejects it, and it goes to agent 2. -/
def assignedAndHandedOn : List (Event Operation) × List (Event Operation) :=
  (.spawn (.assign core 100 (some 3)) :: List.replicate 11 (act 0),
    .spawn (.updateDeliveryStatus core 10 3 .rejected) :: List.replicate 18 (act 1))

end Sample

theorem ok_of_toOption {α : Type} {result : Except Err α} {answer : α}
    (isAnswer : result.toOption = some answer) : result = .ok answer := by
  cases result with
  | error err => cases isAnswer
  | ok answer' =>
    cases isAnswer
    rfl

/-- The status of an order in a state of the region. -/
def statusOf (id : ℕ) (p : Region) : Option OrderStatus := (orderOf p.db id).map Order.status

end SwiftBite.Verified
