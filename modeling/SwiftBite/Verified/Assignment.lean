import SwiftBite.Store.Atomic
import SwiftBite.Verified.Runs

/-! # The assignment transaction

What `createAssignment` commits, for any protocol: a new delivery under a free id, and the
order set to `assigned`.  A protocol is left with the obligation for that one commit.
-/

set_option autoImplicit false

namespace SwiftBite.Verified

open Store Protocol Statement AssignmentService

/-- The delivery that an assignment inserts. -/
def assignedDelivery (order : AssignmentOrderContext) (branch : Point) (agentId : ℕ)
    (distanceMeters : Option ℚ) (reassignedFrom : Option ℕ) (id now : ℕ) : Delivery :=
  CreateDeliveryInput.row
    { orderId := order.id, agentId, pickupLat := branch.lat, pickupLng := branch.lng,
      dropoffLat := order.deliveryLat, dropoffLng := order.deliveryLng, distanceMeters,
      currency := order.currency, reassignedFrom } id now

/-- The writes of an assignment. -/
def assignmentWrites (delivery : Delivery) (assignedAt updatedAt : ℕ) : List SqlWrite :=
  [.insert TableName.deliveries delivery,
    .update TableName.orders (RowKey.id delivery.orderId)
      (Order.withAgent delivery.agentId assignedAt updatedAt)]

section Writes

variable (db : Database) (delivery : Delivery) (assignedAt updatedAt : ℕ)

@[simp] theorem assignmentWrites_deliveries :
    db.applyAll (assignmentWrites delivery assignedAt updatedAt) .deliveries =
      (db .deliveries).insert delivery := by
  simp [assignmentWrites, Db.apply]

@[simp] theorem assignmentWrites_orders :
    db.applyAll (assignmentWrites delivery assignedAt updatedAt) .orders =
      (db .orders).modify (RowKey.id delivery.orderId)
        (Order.withAgent delivery.agentId assignedAt updatedAt) := by
  simp [assignmentWrites, Db.apply]

theorem assignmentWrites_other {t : TableName} (notDeliveries : t ≠ .deliveries)
    (notOrders : t ≠ .orders) :
    db.applyAll (assignmentWrites delivery assignedAt updatedAt) t = db t := by
  refine Db.applyAll_other ?_ db
  simp [assignmentWrites, Write.table, notDeliveries.symm, notOrders.symm]

end Writes

section

variable {Γ : Type} {P : Protocol (K := RowKey) RowOf Shared Err Operation Reply Γ} {i : ℕ}
  {op : Operation}
  {s : Sit RowOf Shared Operation Γ}

/-- What is known when an assignment commits. -/
structure Assigning (P : Protocol (K := RowKey) RowOf Shared Err Operation Reply Γ)
    (seen : List (Sigma RowOf)) (db : Database) (delivery : Delivery) (row : Order) : Prop where
  free : (db .deliveries).conflicts delivery = false
  order : orderOf db delivery.orderId = some row
  status : delivery.status = .assigned
  /-- The run may make the update of the order. -/
  allowed : ∃ (began : ℕ) (before : Database) (f : Order → Order),
    orderOf before delivery.orderId = some row ∧
    P.allow ⟨some ⟨began, [.insert TableName.deliveries delivery]⟩,
      ⟨TableName.deliveries, delivery⟩ :: seen⟩ before
      [.update TableName.orders (RowKey.id delivery.orderId) f]

theorem wp_createAssignment (lawful : P.Lawful) (free : P.Free i op Later)
    {order : AssignmentOrderContext} {branch : Point} {agentId : ℕ} {distanceMeters : Option ℚ}
    {reassignedFrom : Option ℕ}
    {Q : Except Err Delivery → Local RowOf RowKey → Sit RowOf Shared Operation Γ → Prop}
    {seen : List (Sigma RowOf)}
    (there : ∀ s', P.Env i op ⟨none, []⟩ s s' → (orderOf s'.db order.id).isSome = true)
    (commits : ∀ delivery assignedAt updatedAt row s' seen', P.Env i op ⟨none, []⟩ s s' →
      P.Alongside i op s' → delivery.orderId = order.id →
      Assigning P seen s'.db delivery row → P.After i op s' ⟨none, seen'⟩ (s'.db.applyAll
      (assignmentWrites delivery assignedAt updatedAt)) s'.side (Q (.ok delivery) ⟨none, seen'⟩))
    (fails : ∀ err seen' s', P.Env i op ⟨none, []⟩ s s' → Q (.error err) ⟨none, seen'⟩ s') :
    P.wp i op (createAssignment order branch agentId distanceMeters reassignedFrom) Q
      ⟨none, seen⟩ s := by
  refine wp_do (wp_transaction_atomic (b := anything) lawful free ?_ ?_ fails)
  · exact quiet_book _ _ _ (fun _ _ => trivial) fun _ _ => trivial
  intro s₁ began env₁ beside
  have throws : ∀ (l : Local RowOf RowKey) (err : Err) (value : Delivery),
      (Except.error err : Except Err Delivery) = .ok value → P.After i op s₁ ⟨none, l.seen⟩
        (s₁.db.applyAll l.writes) s₁.side (P.bindPost i op (fun delivery => do
          orElse (markAgentBusy agentId) ()
          pure delivery) Q (.ok value) ⟨none, l.seen⟩) := fun _ _ _ impossible => nomatch impossible
  refine .bind (.bind (.sure (fun x => ?_) (throws _ _)))
  refine .insert (fun now before since _ isFree => ?_) (throws _ _)
  refine .bind (.bind (.sure (fun x' => ?_) (throws _ _)))
  refine .bind (.sure (fun x'' => ?_) (throws _ _))
  -- The insertion of the delivery leaves the orders as they are.
  have orders : ∀ (db : Database) (d : Delivery),
      (db.applyAll ([] ++ [(.insert TableName.deliveries d : SqlWrite)])) .orders = db .orders := by
    intro db d
    exact Db.applyAll_other (by simp [Write.table]) db
  refine .updateByKey (fun before row since found' found allowed => ?_)
    (fun before since absent => ?_) (throws _ _)
  · rintro value isValue
    cases isValue
    rw [orders] at found found'
    have known : Assigning P seen s₁.db
        (assignedDelivery order branch agentId distanceMeters reassignedFrom
        (x.seq .deliveries) now) row := by
      refine ⟨isFree, found, rfl, _, _, _, ?_, allowed⟩
      rw [orderOf, orders]
      exact found'
    have committed := fun seen' =>
      commits _ (toMillis x'.now) (toMillis x''.now) row s₁ seen' env₁ beside rfl known
    obtain ⟨ghost, inv, guar, rest⟩ := committed _
    refine ⟨ghost, inv, guar, fun s₂ env₂ => wp_do ?_⟩
    refine wp_orElse lawful free (quiet_redis _) env₂.inv env₂.self fun _ s₃ env₃ => ?_
    exact rest s₃ (env₂.trans lawful env₃)
  · obtain ⟨m, isBefore, env₂, _⟩ := since.since
    have row := there m env₂
    rw [orders] at absent
    rw [orderOf, isBefore, absent] at row
    cases row

/-- A call that may assign the order, and whose end must satisfy `Q`. -/
structure MayAssign (P : Protocol (K := RowKey) RowOf Shared Err Operation Reply Γ) (i : ℕ)
    (op : Operation) (seen : List (Sigma RowOf)) (orderId : ℕ)
    (Q : Sit RowOf Shared Operation Γ → Prop) (s : Sit RowOf Shared Operation Γ) : Prop where
  there : ∀ s', P.Env i op ⟨none, []⟩ s s' → (orderOf s'.db orderId).isSome = true
  commits : ∀ delivery assignedAt updatedAt row s', P.Env i op ⟨none, []⟩ s s' →
    P.Alongside i op s' →
    delivery.orderId = orderId → Assigning P seen s'.db delivery row →
    P.After i op s' ⟨none, []⟩
      (s'.db.applyAll (assignmentWrites delivery assignedAt updatedAt)) s'.side Q
  stops : ∀ s', P.Env i op ⟨none, []⟩ s s' → Q s'

theorem MayAssign.later (lawful : P.Lawful) {seen : List (Sigma RowOf)} {orderId : ℕ}
    {Q : Sit RowOf Shared Operation Γ → Prop} (may : MayAssign P i op seen orderId Q s)
    {s' : Sit RowOf Shared Operation Γ} (env : P.Env i op ⟨none, []⟩ s s') :
    MayAssign P i op seen orderId Q s' where
  there s'' env' := may.there s'' (env.trans lawful env')
  commits delivery assignedAt updatedAt row s'' env' :=
    may.commits delivery assignedAt updatedAt row s'' (env.trans lawful env')
  stops s'' env' := may.stops s'' (env.trans lawful env')

/-! ## The ways to an assignment -/

section Ways

variable {env : Config} {order : AssignmentOrderContext} {branch : Point}
  {reassignedFrom : Option ℕ}
  {seen : List (Sigma RowOf)} {Q : Sit RowOf Shared Operation Γ → Prop}

theorem wp_createAssignment_may (lawful : P.Lawful) (free : P.Free i op Later) {agentId : ℕ}
    {distanceMeters : Option ℚ} (may : MayAssign P i op seen order.id Q s) :
    P.wp i op (createAssignment order branch agentId distanceMeters reassignedFrom)
      (fun _ _ s' => Q s') ⟨none, seen⟩ s := by
  refine wp_createAssignment lawful free may.there ?_ fun _ _ s' env => may.stops s' env
  intro delivery assignedAt updatedAt row s' seen' env beside isOrder assigning
  exact (may.commits delivery assignedAt updatedAt row s' env beside isOrder assigning).released
    seen'

theorem wp_tryAssign (lawful : P.Lawful) (free : P.Free i op Later) (holds : P.inv s)
    (self : s.live i = some op) (may : MayAssign P i op seen order.id Q s) :
    P.wp i op (tryAssign env order branch reassignedFrom) (fun _ _ s' => Q s') ⟨none, seen⟩ s := by
  refine wp_do (wp_idle lawful free (quiet_findCandidates .pool env branch) holds self
    fun result s₁ env₁ => ?_)
  have may₁ := may.later lawful (env₁.released [])
  cases result with
  | error err => exact may.stops s₁ (env₁.released [])
  | ok candidates =>
    cases candidates with
    | nil => exact may.stops s₁ (env₁.released [])
    | cons best rest => exact wp_map (wp_createAssignment_may lawful free may₁)

theorem wp_assignManual (lawful : P.Lawful) (free : P.Free i op Later) {agentId : ℕ}
    (holds : P.inv s) (may : MayAssign P i op seen order.id Q s) :
    P.wp i op (assignManual order branch agentId reassignedFrom) (fun _ _ s' => Q s')
      ⟨none, seen⟩ s := by
  refine wp_do (wp_do (wp_selectFirst lawful (fun isTrx => nomatch isTrx) holds ?_ ?_ ?_))
  · intro _ active _ s₁ env₁
    exact wp_do (wp_throwIf (fun idle => absurd rfl idle) fun _ => may.stops s₁ (env₁.released []))
  · intro _ s₁ env₁
    refine wp_do (wp_throwIf (fun _ => ?_) fun busy => nomatch busy)
    exact wp_createAssignment_may lawful free (may.later lawful (env₁.released []))
  · exact fun _ s' env' => may.stops s' (env'.released [])

theorem wp_orNoEligibleAgents {core : Core} {delivery : Option Delivery} {l : Local RowOf RowKey}
    (holds : Q s) :
    P.wp i op (DeliveryService.orNoEligibleAgents core delivery) (fun _ _ s' => Q s') l s := by
  cases delivery with
  | none => exact holds
  | some delivery =>
    refine wp_do (wp_ofExcept ?_)
    cases core.getAgent delivery.agentId with
    | error err => exact holds
    | ok _ => exact holds

theorem wp_assignOrder (lawful : P.Lawful) (free : P.Free i op Later) {order : Order}
    {branch : CoreBranch} {agentId : Option ℕ} (holds : P.inv s) (self : s.live i = some op)
    (may : MayAssign P i op seen order.id Q s) :
    P.wp i op (DeliveryService.assignOrder env order branch agentId) (fun _ _ s' => Q s')
      ⟨none, seen⟩ s := by
  unfold DeliveryService.assignOrder
  split
  next agentId _ => exact wp_map (wp_assignManual lawful free holds may)
  next => exact wp_tryAssign lawful free holds self may

/-- An assignment at the request of an operator. -/
theorem wp_assign (lawful : P.Lawful) (free : P.Free i op Later) {core : Core} {orderPublicId : ℕ}
    {agentId : Option ℕ} (holds : P.inv s) (stops : ∀ s', P.Env i op ⟨none, []⟩ s s' → Q s')
    (may : ∀ order, order.publicId = orderPublicId → orderOf s.db order.id = some order →
      order.status = .ready → MayAssign P i op [⟨TableName.orders, order⟩] order.id Q s) :
    P.wp i op (DeliveryService.assign env core orderPublicId agentId)
      (fun _ _ s' => Q s') .start s := by
  refine wp_do (wp_selectFirst lawful (fun isTrx => nomatch isTrx) holds ?_ ?_
    fun _ s' env => stops s' env)
  swap
  · exact fun _ s' env => stops s' env
  intro _ order member s₁ env₁
  have read : orderOf s.db order.id = some order := Table.get_of_mem (List.mem_filter.1 member).1
  have isPublic : order.publicId = orderPublicId := of_decide_eq_true (List.mem_filter.1 member).2
  have until₁ := env₁.released []
  refine wp_do (wp_throwIf (fun isReady => wp_do ?_) fun _ => stops s₁ until₁)
  refine wp_selectFirst lawful (fun isTrx => nomatch isTrx) env₁.inv (fun _ active _ s₂ env₂ => ?_)
    (fun _ s₂ env₂ => ?_) ?_
  · exact wp_do (wp_throwIf (fun idle => absurd rfl idle) fun _ =>
      stops s₂ (until₁.trans lawful (env₂.released [])))
  · have until₂ := until₁.trans lawful (env₂.released [])
    refine wp_do (wp_throwIf (fun _ => wp_do (wp_ofExcept ?_)) fun busy => nomatch busy)
    cases core.getBranch order.branchId with
    | error err => exact stops s₂ until₂
    | ok coreBranch =>
      have may₂ := (may order isPublic read (of_not_not isReady)).later lawful until₂
      refine wp_do (wp_mono ?_ (wp_assignOrder lawful free env₂.inv env₂.self may₂))
      intro result l s₃ ends
      cases result with
      | error err => exact ends
      | ok delivery => exact wp_orNoEligibleAgents ends
  · exact fun _ s' env => stops s' (until₁.trans lawful (env.released []))

theorem wp_tryAutoAssign (lawful : P.Lawful) (free : P.Free i op Later) {core : Core} {orderId : ℕ}
    (holds : P.inv s) (stops : ∀ s', P.Env i op ⟨none, []⟩ s s' → Q s')
    (may : ∀ order, order.id = orderId → orderOf s.db order.id = some order →
      order.status = .ready → MayAssign P i op [⟨TableName.orders, order⟩] order.id Q s) :
    P.wp i op (DeliveryService.tryAutoAssign env core orderId) (fun _ _ s' => Q s') .start s := by
  refine wp_do (wp_selectByKey lawful (fun isTrx => nomatch isTrx) holds ?_ ?_
    fun _ s' env => stops s' env)
  swap
  · exact fun _ s' env => stops s' env
  intro _ order isOrder s₁ env₁
  have read : orderOf s.db order.id = some order := Table.get_of_mem (Table.get_mem isOrder)
  have sameId : order.id = orderId := RowKey.id.inj (Table.get_key isOrder)
  have until₁ := env₁.released []
  show P.wp i op (if order.status ≠ .ready then _ else _) _ _ s₁
  split
  next => exact stops s₁ until₁
  next isReady =>
    refine wp_do (wp_selectFirst lawful (fun isTrx => nomatch isTrx) env₁.inv
      (fun _ active _ s₂ env₂ => ?_)
      (fun _ s₂ env₂ => ?_) ?_)
    · exact stops s₂ (until₁.trans lawful (env₂.released []))
    · have until₂ := until₁.trans lawful (env₂.released [])
      refine wp_do (wp_ofExcept ?_)
      cases core.getBranch order.branchId with
      | error err => exact stops s₂ until₂
      | ok coreBranch =>
        have may₂ := (may order sameId read (of_not_not isReady)).later lawful until₂
        refine wp_do (wp_mono ?_ (wp_tryAssign lawful free env₂.inv env₂.self may₂))
        intro result l s₃ ends
        cases result with
        | error err => exact ends
        | ok delivery => exact ends
    · exact fun _ s' env => stops s' (until₁.trans lawful (env.released []))

end Ways

end

end SwiftBite.Verified
