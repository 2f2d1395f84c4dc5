import SwiftBite.Verified.Lifecycle

/-! # The life of an order, call by call

Each call, run alone from a consistent state, changes statuses only as an order may and ends
in a consistent state.  Two changes are odd: a reassignment of an order that is picked
already, and a capture for an order that is cancelled.
-/

set_option autoImplicit false

namespace SwiftBite.Verified

open Store Prog Statement DeliveryService Board

/-- Every change of status in one action is one that an order may undergo. -/
abbrev Turns (odd : OrderStatus → OrderStatus → Prop) : Database → Database → Prop :=
  fun db db' => (boardOf db).Changes odd (boardOf db')

abbrev Coheres : Database → Shared → Prop := fun db _ => Consistent db

section

variable {odd : OrderStatus → OrderStatus → Prop} {db db' : Database} {x : Shared} {env : Config}
  {core : Core}
  {seen : List (Sigma RowOf)}

/-! ## Deliveries -/

theorem Consistent.mayBook (consistent : Consistent db) {orderId : ℕ} {status : OrderStatus}
    (found : (boardOf db).orders orderId = some status)
    (paid : status ≠ .pendingPayment ∧ status ≠ .cancelled) (goes : Goes odd status .assigned)
    (idle : (boardOf db).Idle orderId) : MayBook (Turns odd) orderId Coheres db x := by
  intro delivery assignedAt updatedAt booked
  have isBoard : boardOf (db.applyAll (assignmentWrites delivery assignedAt updatedAt)) =
      (boardOf db).book delivery.id (jobOf delivery) := boardOf_booked booked.free
  have ofOrder : (jobOf delivery).orderId = orderId := booked.ofOrder
  subst ofOrder
  have changes : (boardOf db).Changes odd
      ((boardOf db).setOrder (jobOf delivery).orderId .assigned) :=
    changes_setOrder fun source isSource => by
      cases found.symm.trans isSource
      exact goes
  refine ⟨.inr ?_, fun x' _ _ _ => ⟨?_, ?_⟩⟩
  · show (boardOf db).Changes odd _
    rw [isBoard]
    exact changes
  · rw [isBoard]
    exact consistent.sound.book idle (by rw [found]; simp) booked.status
  · refine consistent.checkout.setOrder
      (assignmentWrites_other _ _ _ _ (by decide) (by decide)) (by rw [isBoard, orders_book]) ?_
    rw [found]
    rintro (isPending | isCancelled)
    · exact absurd (Option.some.inj isPending) paid.1
    · exact absurd (Option.some.inj isCancelled) paid.2

theorem Consistent.mayBook_ready (consistent : Consistent db) {order : Order}
    (unassigned : Unassigned db order) : MayBook (Turns odd) order.id Coheres db x := by
  have source := orders_of_get unassigned.found
  rw [unassigned.ready] at source
  exact consistent.mayBook source (by decide) (.inr (.inl (by decide)))
    (consistent.sound.idle_of_status source (by decide))

/-- The order of a delivery under way has the status that the delivery needs. -/
theorem Consistent.needs_of_underWay (consistent : Consistent db) {order : Order} {d : Delivery}
    (underWay : UnderWay db order d) : needs d.status = some order.status := by
  have isOrder := orders_of_get underWay.isOrder
  have isJob := jobs_of_get underWay.isDelivery
  have agrees : ∀ status, needs d.status = some status → order.status = status := by
    intro status isNeeded
    have given := consistent.sound.agrees d.id (jobOf d) status isJob isNeeded
    rw [show (jobOf d).orderId = order.id from underWay.ofOrder, isOrder] at given
    exact Option.some.inj given
  rcases needs_of_active underWay.active with isNeeded | isNeeded
  · rw [agrees _ isNeeded, isNeeded]
  · rw [agrees _ isNeeded, isNeeded]

theorem Consistent.giveUp (consistent : Consistent db) (id : ℕ) {status : DeliveryStatus}
    (stamp : Option ℕ) (isOver : needs status = none) :
    Consistent (db.apply
      (.update TableName.deliveries (RowKey.id id) (Delivery.withStatus status stamp))) := by
  have isBoard := boardOf_updateDelivery db id status stamp
  refine ⟨isBoard ▸ consistent.sound.giveUp id isOver,
    consistent.checkout.kept (Db.apply_update_ne db _ _ (by decide)) fun _ unpaid => ?_⟩
  rw [isBoard, orders_setJob]
  exact unpaid

theorem turns_updateDelivery (db : Database) (id : ℕ) (status : DeliveryStatus) (stamp : Option ℕ) :
    (Terms.calm (Turns odd)).Moved db
      (db.apply (.update TableName.deliveries (RowKey.id id) (Delivery.withStatus status stamp))) :=
  .inr (.of_orders (by rw [boardOf_updateDelivery, orders_setJob]))

/-- The order whose delivery has been given up may get another. -/
theorem Consistent.mayReassign (consistent : Consistent db) {order : Order} {d : Delivery}
    (underWay : UnderWay db order d) {status : DeliveryStatus} (stamp : Option ℕ)
    (isOver : needs status = none) (goes : Goes odd order.status .assigned) (x : Shared) :
    MayReassign (Turns odd) env core order d.id Coheres
      (db.apply (.update TableName.deliveries (RowKey.id d.id) (Delivery.withStatus status stamp)))
        x := by
  have givenUp := consistent.giveUp d.id stamp isOver
  have isBoard := boardOf_updateDelivery db d.id status stamp
  have needed := consistent.needs_of_underWay underWay
  have found : (boardOf (db.apply (.update TableName.deliveries (RowKey.id d.id)
      (Delivery.withStatus status stamp)))).orders order.id =
      some order.status := by
    rw [isBoard, orders_setJob]
    exact orders_of_get underWay.isOrder
  refine ⟨givenUp.mayBook found ?_ goes ?_, fun _ _ _ => givenUp⟩
  · rcases needs_of_delivered needed with isStatus | isStatus | isStatus <;>
      rw [isStatus] <;> decide
  · rw [isBoard, ← underWay.ofOrder]
    exact consistent.sound.idle_of_givenUp (jobs_of_get underWay.isDelivery) underWay.active isOver

theorem Consistent.solo_reassign (consistent : Consistent db) {orderPublicId : ℕ}
    (lawful : ∀ order active, order.publicId = orderPublicId → UnderWay db order active →
      active.status = .picked → odd .picked .assigned) :
    (reassign env core orderPublicId).solo (.calm (Turns odd)) (fun _ _ => Coheres)
      ⟨none, seen⟩ db x := by
  refine Verified.solo_reassign consistent fun order active n stamp isPublic underWay _ _ =>
    ⟨turns_updateDelivery _ _ _ _, ?_⟩
  refine consistent.mayReassign underWay stamp rfl ?_ _
  have needed := consistent.needs_of_underWay underWay
  cases isStatus : active.status with
  | picked =>
    rw [isStatus] at needed
    rw [← Option.some.inj needed]
    exact .inr (.inr (.inr (lawful order active isPublic underWay isStatus)))
  | assigned | accepted =>
    rw [isStatus] at needed
    exact .inl (Option.some.inj needed).symm
  | rejected | delivered | cancelled | reassigned =>
    have active' := underWay.active
    rw [isStatus] at active'
    cases active'

theorem Consistent.solo_settleDelivery (consistent : Consistent db) {d : Delivery}
    (found : deliveryOf db d.id = some d) (isPicked : d.status = .picked) :
    (settleDelivery env core d).solo (.calm (Turns odd)) (fun _ _ => Coheres)
      ⟨none, seen⟩ db x := by
  refine Verified.solo_settleDelivery (Option.isSome_iff_exists.2 ⟨d, found⟩)
    (fun _ _ => consistent) fun order branch db' isOrder settled => ?_
  have isBoard := boardOf_settled settled
  have sameId : order.id = d.orderId := RowKey.id.inj (Table.get_key isOrder)
  have isJob := jobs_of_get found
  have source : (boardOf db).orders order.id = some .picked := by
    rw [sameId]
    exact consistent.sound.agrees d.id (jobOf d) _ isJob (by rw [jobOf, isPicked]; rfl)
  refine ⟨.inr ?_, fun _ _ _ => ⟨?_, ?_⟩⟩
  · show (boardOf db).Changes odd _
    rw [isBoard]
    refine changes_setOrder fun status isStatus => ?_
    cases source.symm.trans isStatus
    exact .inr (.inl (by decide))
  · rw [isBoard, sameId]
    exact consistent.sound.follow isJob (by rw [jobOf, isPicked]; rfl) rfl
  · refine consistent.checkout.setOrder (settled.others _ (by decide)) (by rw [isBoard]; rfl) ?_
    rw [source]
    rintro (impossible | impossible) <;> cases impossible

/-! ## The agent's requests -/

/-- The order follows the delivery that its agent has picked up. -/
theorem Consistent.solo_afterPicked (consistent : Consistent db) {d : Delivery}
    (found : deliveryOf db d.id = some d) (isAccepted : d.status = .accepted) (stamp : Option ℕ) :
    (afterStatus env core d .picked).solo (.calm (Turns odd)) (fun _ _ => Coheres) ⟨none, seen⟩
      (db.apply (.update TableName.deliveries (RowKey.id d.id) (Delivery.withStatus .picked stamp)))
        x := by
  have isJob := jobs_of_get found
  have source : (boardOf db).orders d.orderId = some .assigned :=
    consistent.sound.agrees d.id (jobOf d) _ isJob (by rw [jobOf, isAccepted]; rfl)
  have isMiddle := boardOf_updateDelivery db d.id .picked stamp
  refine solo_returning
    (solo_applySystemStatusChange (fun row updatedAt stamp' _ => ?_) fun absent => ?_)
  · have isBoard := boardOf_updateOrder
      (db.apply (.update TableName.deliveries (RowKey.id d.id) (Delivery.withStatus .picked stamp)))
      d.orderId .picked updatedAt stamp'
    rw [isMiddle] at isBoard
    refine ⟨.inr ?_, ⟨?_, ?_⟩⟩
    · show (boardOf _).Changes odd (boardOf _)
      rw [isBoard, isMiddle]
      refine changes_setOrder fun status isStatus => ?_
      cases source.symm.trans isStatus
      exact .inr (.inl (by decide))
    · rw [isBoard]
      exact consistent.sound.follow isJob (by rw [jobOf, isAccepted]; rfl) rfl
    · refine consistent.checkout.setOrder ?_ (by rw [isBoard]; rfl) ?_
      · rw [Db.apply_update_ne _ _ _ (by decide), Db.apply_update_ne _ _ _ (by decide)]
      · rw [source]
        rintro (impossible | impossible) <;> cases impossible
  · rw [orderOf, Db.apply_update_ne _ _ _ (by decide)] at absent
    cases source.symm.trans (orders_none_iff.2 absent)

theorem Consistent.solo_deliveryUpdateStatus (consistent : Consistent db)
    (deliveryId actorUserId : ℕ) (target : DeliveryStatus) :
    (DeliveryService.updateStatus env core deliveryId actorUserId target).solo (.calm (Turns odd))
      (fun _ _ => Coheres) ⟨none, seen⟩ db x := by
  refine Verified.solo_deliveryUpdateStatus consistent
    (fun d found isPicked seen' => consistent.solo_settleDelivery found isPicked)
    fun d stamp _ found _ isLegal _ => ⟨turns_updateDelivery _ _ _ _, fun seen' => ?_⟩
  -- What the machine of the deliveries allows.
  have step : (d.status = .assigned ∧ (target = .accepted ∨ target = .rejected)) ∨
      (d.status = .accepted ∧ target = .picked) ∨
      target = .delivered := by
    revert isLegal
    cases d.status <;> cases target <;> decide
  rcases step with ⟨isAssigned, rfl | rfl⟩ | ⟨isAccepted, rfl⟩ | rfl
  · have isBoard := boardOf_updateDelivery db d.id .accepted stamp
    have accepted : ((boardOf db).setJob d.id .accepted).Sound :=
      consistent.sound.accept fun job isJob => by
      cases (jobs_of_get found).symm.trans isJob
      exact isAssigned
    refine (⟨isBoard ▸ accepted, consistent.checkout.kept (Db.apply_update_ne db _ _ (by decide))
      fun _ unpaid => ?_⟩ : Consistent _)
    rw [isBoard, orders_setJob]
    exact unpaid
  · have sameOrders : orderOf (db.apply (.update TableName.deliveries (RowKey.id d.id)
        (Delivery.withStatus .rejected stamp))) d.orderId =
        orderOf db d.orderId := by
      rw [orderOf, Db.apply_update_ne db _ _ (by decide)]
    refine solo_do (solo_orElse_redis (solo_tryReassignAfterRejection
      (fun _ => consistent.giveUp d.id stamp rfl) fun order isOrder => ?_))
    rw [sameOrders] at isOrder
    have sameId : order.id = d.orderId := RowKey.id.inj (Table.get_key isOrder)
    have underWay : UnderWay db order d :=
      ⟨sameId ▸ isOrder, found, sameId.symm, by rw [isAssigned]; rfl⟩
    have needed := consistent.needs_of_underWay underWay
    rw [isAssigned] at needed
    exact consistent.mayReassign underWay stamp rfl (.inl (Option.some.inj needed).symm) _
  · exact consistent.solo_afterPicked found isAccepted stamp
  · contradiction

/-! ## Status requests -/

theorem unpaid_of_allowed {listed : OrderActor} {source target : OrderStatus}
    (isAllowed : source.allows target listed = true) (unpaid : Unpaid (some source)) :
    Unpaid (some target) := by
  rcases unpaid with isStatus | isStatus <;> cases isStatus <;> revert isAllowed <;>
    cases listed <;> cases target <;> simp [Unpaid] <;> decide

theorem Consistent.solo_updateOrderStatus (consistent : Consistent db) (publicId : ℕ)
    (target : OrderStatus) (actor : RequestActor) :
    (OrderService.updateStatus core publicId target actor).solo (.calm (Turns odd))
      (fun _ _ => Coheres) ⟨none, seen⟩ db x := by
  refine Verified.solo_updateOrderStatus (fun _ _ => consistent)
    fun order listed db' isOrder isActor isAllowed written => ?_
  have isBoard := boardOf_written written
  have source := orders_of_get isOrder
  have sessions : db' .paymentSessions = db .paymentSessions :=
    written.others _ (by decide) (by decide)
  have checkout : Checkout db' :=
    consistent.checkout.setOrder sessions (by rw [isBoard]) fun unpaid =>
    unpaid_of_allowed isAllowed (source ▸ unpaid)
  refine ⟨.inr ?_, fun x' seen' _ => solo_releaseDelivery (fun notRelease => ?_)
    fun _ wasAssigned db'' released => ⟨.inr ?_, fun _ _ => ?_⟩⟩
  · show (boardOf db).Changes odd _
    rw [isBoard]
    refine changes_setOrder fun status isStatus => ?_
    cases source.symm.trans isStatus
    exact .inr (.inl (OrderStatus.edge_of_allows isAllowed))
  · rcases source_of_request isActor isAllowed with ⟨wasAssigned, isCancelled⟩ | unneeded
    · exact absurd ⟨isCancelled, wasAssigned⟩ notRelease
    · exact ⟨isBoard ▸ consistent.sound.setOrder (consistent.sound.idle_of_status source unneeded)
        target, checkout⟩
  · exact .of_orders (by rw [boardOf_released released, orders_release])
  · have isReleased := boardOf_released released
    refine ⟨?_, checkout.kept (released.others _ (by decide)) fun _ unpaid => ?_⟩
    · rw [isReleased, isBoard]
      exact consistent.sound.cancel source (by rw [wasAssigned]; decide) target
    · rw [isReleased, orders_release]
      exact unpaid

/-! ## Presence -/

theorem Consistent.of_presence (consistent : Consistent db) {agentId : ℕ}
    (changed : PresenceChanged agentId db db') : Consistent db' :=
  consistent.congr (board_of_presence changed) (changed.others _ (by decide))

theorem turns_presence {agentId : ℕ} (changed : PresenceChanged agentId db db') :
    (Terms.calm (Turns odd)).Moved db db' :=
  .inr (.of_orders (by rw [board_of_presence changed]))

/-- An agent who goes offline gives up no delivery that is picked. -/
theorem Consistent.solo_offline (consistent : Consistent db) (agentId : ℕ) :
    (PresenceService.offline env core agentId).solo (.calm (Turns odd)) (fun _ _ => Coheres)
      ⟨none, seen⟩ db x := by
  refine Verified.solo_offline (fun _ => consistent) fun db' presence left _ =>
    ⟨turns_presence left.toPresenceChanged, fun active ofAgent _ => ?_⟩
  have gone := consistent.of_presence left.toPresenceChanged
  refine ⟨fun _ _ _ => gone, fun _ => gone, fun d isActive order seen' isOrder =>
    gone.solo_reassign fun order' active' isPublic underWay isPicked => ?_⟩
  obtain ⟨isDelivery, _, isUnderWay, notPicked⟩ := ofAgent d isActive
  have sameEntry : UniqueKey.orderPublicId order'.publicId ∈ uniques order := by
    rw [isPublic]
    exact List.mem_singleton_self _
  have sameOrder : order' = order :=
    Table.eq_of_unique (Table.get_mem underWay.isOrder) (Table.get_mem isOrder)
      (List.mem_singleton_self (UniqueKey.orderPublicId order'.publicId)) sameEntry
  have sameId : order.id = d.orderId := RowKey.id.inj (Table.get_key isOrder)
  have isDelivery' : deliveryOf db' d.id = some d := by
    rw [deliveryOf, left.others _ (by decide)]
    exact isDelivery
  have ofSameOrder : active'.orderId = d.orderId := by rw [underWay.ofOrder, sameOrder, sameId]
  have same : active'.id = d.id := gone.sound.oneForEach _ _ _ _ (jobs_of_get underWay.isDelivery)
    (jobs_of_get isDelivery') ofSameOrder
    underWay.active isUnderWay
  have isSame := underWay.isDelivery
  rw [same] at isSame
  cases isDelivery'.symm.trans isSame
  exact absurd isPicked notPicked

end

end SwiftBite.Verified
