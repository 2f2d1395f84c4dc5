import SwiftBite.Verified.Alone

/-! # The delivery side, one call at a time

Each call that runs alone, cut down to what it commits and what it does to the presence
keys.
-/

set_option autoImplicit false

namespace SwiftBite.Verified

open Store Prog Statement AssignmentService DeliveryService OrderService

section

variable {m : Database → Database → Prop} {seen : List (Sigma RowOf)} {db : Database} {x : Shared}
  {env : Config}
  {core : Core} {Q : Database → Shared → Prop}

/-! ## Assignments -/

/-- The order may be assigned: nobody is on the way for it. -/
structure Unassigned (db : Database) (order : Order) : Prop where
  found : orderOf db order.id = some order
  ready : order.status = .ready
  inactive : ∀ d ∈ (db .deliveries).rows, Delivery.orderId d = order.id → d.status.active = false

theorem inactive_of_filter {orderId : ℕ}
    (none : (db .deliveries).rows.filter
      (fun row : Delivery => row.orderId = orderId && row.status.active) = []) :
    ∀ d ∈ (db .deliveries).rows, Delivery.orderId d = orderId → d.status.active = false := by
  intro d member ofOrder
  have passed := List.filter_eq_nil_iff.1 none d member
  simpa [ofOrder] using passed

theorem solo_orNoEligibleAgents {delivery : Option Delivery} {l : Local RowOf RowKey}
    (holds : Q db x) : (orNoEligibleAgents core delivery).solo (.calm m) (fun _ _ => Q) l db x := by
  cases delivery with
  | none => exact holds
  | some delivery =>
    refine solo_do (solo_ofExcept ?_)
    cases core.getAgent delivery.agentId <;> exact holds

/-- What follows a search does not depend on whom it has found. -/
theorem solo_orNobody {prog : Service (Option Delivery)}
    (ends : prog.solo (.calm m) (fun _ _ => Q) ⟨none, seen⟩ db x) :
    (prog >>= orNoEligibleAgents core).solo (.calm m) (fun _ _ => Q) ⟨none, seen⟩ db x := by
  refine solo_do (solo_mono ?_ ends)
  intro result l db' x' holds
  cases result with
  | error err => exact holds
  | ok delivery => exact solo_orNoEligibleAgents holds

theorem solo_assign {orderPublicId : ℕ} {agentId : Option ℕ} (stops : ∀ x', Ticks x x' → Q db x')
    (books : ∀ order, Unassigned db order → MayBook m order.id Q db x) :
    (DeliveryService.assign env core orderPublicId agentId).solo (.calm m) (fun _ _ => Q)
      ⟨none, seen⟩ db x := by
  have nothing := stops x (.refl x)
  refine solo_do (solo_selectFirst (fun order member seen₁ => ?_) fun _ _ => nothing)
  refine solo_do (solo_throwIf (fun isReady =>
    solo_do (solo_selectFirst (fun active _ seen₂ => ?_) fun none seen₂ => ?_)) fun _ => nothing)
  · exact solo_do (solo_throwIf (fun idle => absurd rfl idle) fun _ => nothing)
  · have unassigned : Unassigned db order :=
      ⟨Table.get_of_mem (List.mem_filter.1 member).1, of_not_not isReady, inactive_of_filter none⟩
    refine solo_do (solo_throwIf (fun _ => solo_do (solo_ofExcept ?_)) fun busy => nomatch busy)
    cases core.getBranch order.branchId with
    | error err => exact nothing
    | ok branch =>
      refine solo_orNobody ?_
      unfold assignOrder
      split
      next agentId _ => exact solo_map (solo_assignManual (books order unassigned) stops)
      next => exact solo_tryAssign (books order unassigned) fun _ => stops

theorem solo_tryAutoAssign {orderId : ℕ} (stops : ∀ x', Ticks x x' → Q db x')
    (books : ∀ order, Unassigned db order → MayBook m order.id Q db x) :
    (DeliveryService.tryAutoAssign env core orderId).solo (.calm m) (fun _ _ => Q)
      ⟨none, seen⟩ db x := by
  have nothing := stops x (.refl x)
  refine solo_do (solo_selectByKey (fun order found seen₁ => ?_) fun _ _ => nothing)
  show Prog.solo _ (if order.status ≠ .ready then _ else _) _ _ _ _
  split
  next => exact nothing
  next isReady =>
    refine solo_do (solo_selectFirst (fun active _ seen₂ => nothing) fun none seen₂ => ?_)
    have unassigned : Unassigned db order :=
      ⟨Table.get_of_mem (Table.get_mem found), of_not_not isReady, inactive_of_filter none⟩
    refine solo_do (solo_ofExcept ?_)
    cases core.getBranch order.branchId with
    | error err => exact nothing
    | ok branch => exact solo_returning (solo_tryAssign (books order unassigned) fun _ => stops)

/-! ## Reassignments -/

/-- The number of deliveries in a chain of reassignments, unless the walk runs out of rows. -/
def chainFrom (db : Database) : ℕ → ℕ → ℕ → Option ℕ
  | 0, _, _ => none
  | bound + 1, currentId, count =>
    match ((deliveryOf db currentId).map Delivery.reassignedFrom).join with
    | none => some count
    | some previous => chainFrom db bound previous (count + 1)

def chainLength (db : Database) (deliveryId : ℕ) : Option ℕ :=
  chainFrom db ((db .deliveries).rows.length + 1) deliveryId 1

theorem solo_reassignmentChainLoop {t : Terms RowOf} {bound currentId count : ℕ}
    {Q : Except Err ℕ → Local RowOf RowKey → Database → Shared → Prop}
    (next : ∀ n seen', chainFrom db bound currentId count = some n → Q (.ok n) ⟨none, seen'⟩ db x)
    (fails : t.faulty → ∀ seen', Q (.error .infrastructure) ⟨none, seen'⟩ db x) :
    (reassignmentChainLoop .pool bound currentId count).solo t Q ⟨none, seen⟩ db x := by
  induction bound generalizing currentId count seen with
  | zero =>
    refine ⟨fun effect impossible => (nomatch impossible), fun may => ?_⟩
    rcases may with impossible | faulty | ⟨isTrx, _⟩
    · cases impossible
    · exact fails faulty seen
    · cases isTrx
  | succ bound inductionHypothesis =>
    refine solo_do (solo_query (fun seen₁ => ?_) fun faulty => fails faulty seen)
    simp only [chainFrom] at next
    show Prog.solo _ (match ((deliveryOf db currentId).map Delivery.reassignedFrom).join with
      | none => _
      | some previous => _) _ _ _ _
    cases previous : ((deliveryOf db currentId).map Delivery.reassignedFrom).join with
    | none =>
      rw [previous] at next
      exact next count seen₁ rfl
    | some id =>
      rw [previous] at next
      exact inductionHypothesis next

theorem solo_countReassignmentChain {t : Terms RowOf} {deliveryId : ℕ}
    {Q : Except Err ℕ → Local RowOf RowKey → Database → Shared → Prop}
    (next : ∀ n seen', chainLength db deliveryId = some n → Q (.ok n) ⟨none, seen'⟩ db x)
    (fails : t.faulty → ∀ seen', Q (.error .infrastructure) ⟨none, seen'⟩ db x) :
    (countReassignmentChain .pool deliveryId).solo t Q ⟨none, seen⟩ db x :=
  solo_do (solo_query (fun _ => solo_reassignmentChainLoop next fails) fun faulty =>
    fails faulty seen)

/-- The branch answers, and somebody can take the order over. -/
def Findable (env : Config) (core : Core) (db : Database) (x : Shared) (order : Order)
    (previous : ℕ) : Prop :=
  ∃ branch, core.getBranch order.branchId = .ok branch ∧ Assignable db x order.id (some previous) ∧
    OnePosition x.presence ∧ Eligible env db x branch.point

/-- A call that looks for somebody to take an order over, and whose end must satisfy `Q`. -/
structure MayReassign (m : Database → Database → Prop) (env : Config) (core : Core) (order : Order)
    (previous : ℕ) (Q : Database → Shared → Prop) (db : Database) (x : Shared) : Prop where
  books : MayBook m order.id Q db x
  stops : ¬Findable env core db x order previous → ∀ x', Ticks x x' → Q db x'

theorem MayReassign.search {order : Order} {previous : ℕ} {branch : CoreBranch}
    (may : MayReassign m env core order previous Q db x)
    (answered : core.getBranch order.branchId = .ok branch) :
    (tryAssign env order.assignmentContext branch.point (some previous)).solo (.calm m)
      (fun _ _ => Q) ⟨none, seen⟩ db x :=
  solo_tryAssign may.books fun missing =>
    may.stops fun ⟨branch', answered', assignable, distinct, eligible⟩ => by
    cases answered.symm.trans answered'
    exact missing assignable distinct eligible

theorem MayReassign.unanswered {order : Order} {previous : ℕ} {err : Err}
    (may : MayReassign m env core order previous Q db x)
    (answered : core.getBranch order.branchId = .error err) : Q db x := by
  refine may.stops ?_ x (.refl x)
  rintro ⟨branch, isBranch, _⟩
  cases answered.symm.trans isBranch

theorem solo_updateDeliveryStatus {id : ℕ} {status : DeliveryStatus}
    {Q : Except Err (Option Delivery) → Local RowOf RowKey → Database → Shared → Prop}
    (there : (deliveryOf db id).isSome = true)
    (found : ∀ stamp, (Terms.calm m).Moved db (db.apply (.update TableName.deliveries (RowKey.id id)
      (Delivery.withStatus status stamp))) ∧ ∀ result seen', Q (.ok result) ⟨none, seen'⟩
      (db.apply (.update TableName.deliveries (RowKey.id id) (Delivery.withStatus status stamp)))
      x) :
    (updateDeliveryStatus .pool id status).solo (.calm m) Q ⟨none, seen⟩ db x := by
  refine solo_do (solo_deliveryStampTime fun stamp =>
    solo_updateByKey (fun row _ => ?_) fun absent => ?_)
  · exact ⟨(found stamp).1, (found stamp).2 _⟩
  · exact absurd absent (Option.isSome_iff_ne_none.1 there)

/-- A delivery under way, and its order. -/
structure UnderWay (db : Database) (order : Order) (active : Delivery) : Prop where
  isOrder : orderOf db order.id = some order
  isDelivery : deliveryOf db active.id = some active
  ofOrder : active.orderId = order.id
  active : active.status.active = true

theorem solo_reassign {orderPublicId : ℕ} (stops : Q db x)
    (gives : ∀ order active n stamp, order.publicId = orderPublicId → UnderWay db order active →
      chainLength db active.id = some n → n < env.maxReassignmentAttempts →
      (Terms.calm m).Moved db (db.apply (.update TableName.deliveries (RowKey.id active.id)
      (Delivery.withStatus .reassigned stamp))) ∧ MayReassign m env core order active.id Q (db.apply
      (.update TableName.deliveries (RowKey.id active.id) (Delivery.withStatus .reassigned stamp)))
      { x with presence := x.presence.srem active.agentId }) :
    (DeliveryService.reassign env core orderPublicId).solo (.calm m) (fun _ _ => Q)
      ⟨none, seen⟩ db x := by
  refine solo_do (solo_selectFirst (fun order member seen₁ => ?_) fun _ _ => stops)
  obtain ⟨isOrder, isPublic⟩ := List.mem_filter.1 member
  refine solo_do (solo_selectFirst (fun active among seen₂ => ?_) fun _ _ => stops)
  obtain ⟨isDelivery, matches'⟩ := List.mem_filter.1 among
  simp only [Bool.and_eq_true, decide_eq_true_eq] at matches' isPublic
  have underWay : UnderWay db order active :=
    ⟨Table.get_of_mem isOrder, Table.get_of_mem isDelivery, matches'.1, matches'.2⟩
  refine solo_do (solo_countReassignmentChain (fun n seen₃ chain => ?_) fun faulty => faulty.elim)
  refine solo_do (solo_throwIf (fun few => solo_do ?_) fun _ => stops)
  refine solo_updateDeliveryStatus (Option.isSome_iff_exists.2 ⟨active, underWay.isDelivery⟩)
    fun stamp => ?_
  obtain ⟨moved, may⟩ := gives order active n stamp isPublic underWay chain (Nat.lt_of_not_ge few)
  refine ⟨moved, fun _ seen₄ => solo_do (solo_orElse_redis (solo_do (solo_ofExcept ?_)))⟩
  cases answered : core.getBranch order.branchId with
  | error err => exact may.unanswered answered
  | ok branch => exact solo_orNobody (may.search answered)

/-- `tryReassignAfterRejection`, once the agent is free. -/
theorem solo_tryReassignAfterRejection {rejected : Delivery}
    (stops : (∃ n, chainLength db rejected.id = some n ∧ env.maxReassignmentAttempts ≤ n) ∨
      orderOf db rejected.orderId = none → Q db x)
    (gives : ∀ order, orderOf db rejected.orderId = some order →
      MayReassign m env core order rejected.id Q db x) :
    (tryReassignAfterRejection env core rejected).solo (.calm m) (fun _ _ => Q)
      ⟨none, seen⟩ db x := by
  refine solo_do (solo_countReassignmentChain (fun n seen₁ chain => ?_) fun faulty => faulty.elim)
  show Prog.solo _ (if n ≥ env.maxReassignmentAttempts then _ else _) _ _ _ _
  split
  next many => exact stops (.inl ⟨n, chain, many⟩)
  next =>
    refine solo_do (solo_selectByKey (fun order found seen₂ => ?_) fun absent _ =>
      stops (.inr absent))
    refine solo_do (solo_ofExcept ?_)
    cases answered : core.getBranch order.branchId with
    | error err => exact (gives order found).unanswered answered
    | ok branch => exact solo_returning ((gives order found).search answered)

/-! ## The agent's requests -/

theorem solo_applySystemStatusChange {id : ℕ} {status : OrderStatus}
    (found : ∀ row updatedAt stamp, orderOf db id = some row →
      (Terms.calm m).Moved db (db.apply (.update TableName.orders
      (RowKey.id id) (Order.withStatus status updatedAt stamp))) ∧ Q (db.apply
      (.update TableName.orders (RowKey.id id) (Order.withStatus status updatedAt stamp))) x)
    (absent : orderOf db id = none → Q db x) :
    (applySystemStatusChange .pool id status).solo (.calm m) (fun _ _ => Q) ⟨none, seen⟩ db x := by
  refine solo_do (solo_do (solo_nowIso (solo_do
    (solo_orderStampTime fun stamp => solo_updateByKey (fun row isRow => ?_) fun none _ => ?_))))
  · obtain ⟨moved, ends⟩ := found row (toMillis x.now) stamp isRow
    exact ⟨moved, fun _ => ends⟩
  · exact absent none

/-- A settlement, and the agent free again. -/
theorem solo_settleDelivery {delivery : Delivery}
    (there : (deliveryOf db delivery.id).isSome = true) (stops : ∀ x', Ticks x x' → Q db x')
    (settles : ∀ order branch db', orderOf db delivery.orderId = some order →
      Settled order branch delivery (commissionOf order branch)
      (agentEarningOf env branch) (· = db) db db' → (Terms.calm m).Moved db db' ∧ ∀ x', Later x x' →
      x'.presence = x.presence.srem delivery.agentId → Q db' x') :
    (settleDelivery env core delivery).solo (.calm m) (fun _ _ => Q) ⟨none, seen⟩ db x := by
  refine solo_do (solo_selectByKey (fun order found seen₁ => ?_) fun _ _ => stops x (.refl x))
  have isOrder : RowKey.id order.id = RowKey.id delivery.orderId := Table.get_key found
  refine solo_do (solo_ofExcept ?_)
  cases core.getBranch order.branchId with
  | error err => exact stops x (.refl x)
  | ok branch =>
    refine solo_do (solo_transaction_atomic (b := anyWrite Ticks) Ticks.refl Ticks.trans
      (quiet_settle _ _ _ _ _) (fun began => ?_)
      fun _ _ x' ticks => stops x' ticks)
    refine atomic_settle (fun before since => ?_) (fun before since => ?_)
      (fun result total seen' row before f settled _ _ _ _ => ?_)
      fun _ _ _ impossible => nomatch impossible
    · rw [since]
      exact there
    · rw [since, orderOf, isOrder]
      exact Option.isSome_iff_exists.2 ⟨order, found⟩
    · rintro value isValue
      cases isValue
      obtain ⟨moved, ends⟩ := settles order branch _ found settled
      refine ⟨moved, fun seen₂ x₁ ticks =>
        solo_do (solo_orElse_redis (ends _ (ticks.toLater.trans (later_presence _ _)) ?_))⟩
      show x₁.presence.srem delivery.agentId = x.presence.srem delivery.agentId
      rw [ticks.presence]

/-- A request of the agent. -/
theorem solo_deliveryUpdateStatus {deliveryId actorUserId : ℕ} {target : DeliveryStatus}
    (stops : Q db x)
    (settles : ∀ delivery, deliveryOf db delivery.id = some delivery → delivery.status = .picked →
      ∀ seen', (settleDelivery env core delivery).solo (.calm m) (fun _ _ => Q) ⟨none, seen'⟩ db x)
    (changes : ∀ delivery stamp, delivery.id = deliveryId →
      deliveryOf db delivery.id = some delivery → delivery.agentId = actorUserId →
      delivery.status.transitions.contains target = true → target ≠ .delivered →
      (Terms.calm m).Moved db (db.apply (.update TableName.deliveries (RowKey.id delivery.id)
        (Delivery.withStatus target stamp))) ∧
      ∀ seen', (afterStatus env core delivery target).solo (.calm m) (fun _ _ => Q) ⟨none, seen'⟩
        (db.apply (.update TableName.deliveries (RowKey.id delivery.id)
          (Delivery.withStatus target stamp))) x) :
    (DeliveryService.updateStatus env core deliveryId actorUserId target).solo (.calm m)
      (fun _ _ => Q) ⟨none, seen⟩ db x := by
  refine solo_do (solo_selectByKey (fun delivery found seen₁ => ?_) fun _ _ => stops)
  have sameId : delivery.id = deliveryId := RowKey.id.inj (Table.get_key found)
  subst sameId
  refine solo_do (solo_throwIf
    (fun isAgent => solo_do (solo_throwIf (fun isLegal => ?_) fun _ => stops)) fun _ => stops)
  rw [Bool.not_eq_false] at isLegal
  split
  next isDelivered =>
    subst isDelivered
    have isPicked : delivery.status = .picked := by
      revert isLegal
      cases delivery.status <;> decide
    exact settles delivery found isPicked seen₁
  next notDelivered =>
    refine solo_do (solo_updateDeliveryStatus (Option.isSome_iff_exists.2 ⟨delivery, found⟩)
      fun stamp => ?_)
    obtain ⟨moved, follows⟩ :=
      changes delivery stamp rfl found (of_not_not isAgent) isLegal notDelivered
    refine ⟨moved, fun _ seen₂ =>
      solo_do (solo_selectByKey (fun _ _ seen₃ => ?_) fun _ seen₃ => ?_)⟩
    · exact solo_returning (follows seen₃)
    · exact solo_returning (follows seen₃)

end

end SwiftBite.Verified
