import SwiftBite.Verified.Board

/-! # Assigned orders somebody is bringing

A delivery is given up before anybody is found to take it over.  Run one after another, the
calls leave no assigned order without a delivery as long as each search that follows finds a
successor.
-/

set_option autoImplicit false

namespace SwiftBite.Verified

/-! ## Attended orders -/

namespace Board

/-- Somebody is to pick the order up. -/
def Attended (b : Board) (orderId : ℕ) : Prop :=
  ∃ id job, b.jobs id = some job ∧ job.orderId = orderId ∧
  (job.status = .assigned ∨ job.status = .accepted)

/-- Every assigned order is attended, but for the ones that are let off. -/
def Covered (b : Board) (but : ℕ → Prop) : Prop :=
  ∀ orderId, ¬but orderId → b.orders orderId = some .assigned → b.Attended orderId

variable {b : Board} {but : ℕ → Prop}

theorem Covered.close (covered : b.Covered but)
    (handled : ∀ orderId, but orderId → b.orders orderId = some .assigned → b.Attended orderId) :
    b.Covered fun _ => False := by
  intro orderId _ isAssigned
  by_cases among : but orderId
  · exact handled orderId among isAssigned
  · exact covered orderId among isAssigned

theorem Covered.setOrder (covered : b.Covered but) {id : ℕ} {status : OrderStatus}
    (leaves : status ≠ .assigned) :
    (b.setOrder id status).Covered fun orderId => but orderId ∧ orderId ≠ id := by
  intro orderId outside isAssigned
  rw [orders_setOrder] at isAssigned
  split at isAssigned
  next =>
    obtain ⟨_, _, isStatus⟩ := Option.map_eq_some_iff.1 isAssigned
    exact absurd isStatus leaves
  next other => exact covered orderId (fun among => outside ⟨among, other⟩) isAssigned

theorem Covered.setJob (covered : b.Covered but) {id : ℕ} {job : Job} (found : b.jobs id = some job)
    (status : DeliveryStatus) :
    (b.setJob id status).Covered fun orderId => but orderId ∨ orderId = job.orderId := by
  intro orderId outside isAssigned
  obtain ⟨id', job', isJob', sameOrder, waiting⟩ :=
    covered orderId (fun among => outside (.inl among)) isAssigned
  have other : id' ≠ id := by
    rintro rfl
    cases found.symm.trans isJob'
    exact outside (.inr sameOrder.symm)
  exact ⟨id', job', by rw [jobs_setJob, if_neg other, isJob'], sameOrder, waiting⟩

/-- A job goes on waiting. -/
theorem Covered.accept (covered : b.Covered but) (id : ℕ) :
    (b.setJob id .accepted).Covered but := by
  intro orderId outside isAssigned
  obtain ⟨id', job', isJob', sameOrder, waiting⟩ := covered orderId outside isAssigned
  by_cases same : id' = id
  · exact ⟨id', { job' with
      status := .accepted }, by rw [jobs_setJob, if_pos same, isJob']; rfl, sameOrder, .inr rfl⟩
  · exact ⟨id', job', by rw [jobs_setJob, if_neg same, isJob'], sameOrder, waiting⟩

theorem Covered.release (covered : b.Covered but) (released : ℕ) :
    (b.release released).Covered fun orderId => but orderId ∨ orderId = released := by
  intro orderId outside isAssigned
  obtain ⟨id, job, isJob, sameOrder, waiting⟩ :=
    covered orderId (fun among => outside (.inl among)) isAssigned
  have other : ¬(job.orderId = released ∧ job.status.active = true) := fun isMatch =>
    outside (.inr (sameOrder.symm.trans isMatch.1))
  exact ⟨id, job, by simp [Board.release, isJob, other], sameOrder, waiting⟩

theorem Covered.book (covered : b.Covered but) {id : ℕ} {job : Job} (fresh : b.jobs id = none)
    (isAssigned : job.status = .assigned) :
    (b.book id job).Covered fun orderId => but orderId ∧ orderId ≠ job.orderId := by
  intro orderId outside wasAssigned
  by_cases same : orderId = job.orderId
  · exact ⟨id, job, by rw [jobs_book, if_pos rfl], same.symm, .inl isAssigned⟩
  · rw [orders_book, orders_setOrder, if_neg same] at wasAssigned
    obtain ⟨id', job', isJob', sameOrder, waiting⟩ :=
      covered orderId (fun among => outside ⟨among, same⟩) wasAssigned
    have other : id' ≠ id := by
      rintro rfl
      cases fresh.symm.trans isJob'
    exact ⟨id', job', by rw [jobs_book, if_neg other, isJob'], sameOrder, waiting⟩

end Board

namespace Stranded

open Store Prog Statement Verified DeliveryService

/-- Every assigned order has a delivery that somebody is to pick up. -/
def NoneStranded (db : Database) : Prop :=
  ∀ order ∈ (db .orders).rows, Order.status order = .assigned →
    ∃ d ∈ (db .deliveries).rows, d.orderId = order.id ∧
    (d.status = .assigned ∨ d.status = .accepted)

/-! ## Successors -/

/-- The branch answers, and somebody other than the agent who leaves can take the order over:
somebody nearby whom nobody else keeps busy. -/
def Successor (env : Config) (core : Core) (db : Database) (x : Shared) (leaver : Option ℕ)
    (order : Order) (given : Delivery) : Prop :=
  ∃ branch, core.getBranch order.branchId = .ok branch ∧
    ((∃ entry ∈ x.presence.geo, some entry.1 ≠ leaver ∧
      env.geoDistance branch.point entry.2 ≤ env.radiusMeters ∧
        (entry.1 ∈ x.presence.busy → entry.1 = given.agentId)) ∨
      ∃ ap ∈ (db .agentPresence).rows, some (AgentPresence.agentId ap) ≠ leaver ∧
      ap.isOnline = true ∧ x.now < ap.lastSeenAt + 90000000 ∧
        (∃ lat lng, ap.lastLat = some lat ∧ ap.lastLng = some lng ∧
          env.stDistance branch.point ⟨lat, lng⟩ ≤ env.radiusMeters) ∧
        ∀ d ∈ (db .deliveries).rows, Delivery.agentId d = ap.agentId → d.id ≠ given.id →
        d.status.active = false)

/-- Whenever the order's delivery is given up for another, there is a successor. -/
def Replaceable (env : Config) (core : Core) (db : Database) (x : Shared) (leaver : Option ℕ)
    (orderPublicId : ℕ) : Prop :=
  ∀ order active n, order.publicId = orderPublicId → UnderWay db order active →
  order.status = .assigned →
    chainLength db active.id = some n → n < env.maxReassignmentAttempts →
    Successor env core db x leaver order active

/-- A delivery of an assigned order is given up only where there is a successor; a rejection
only where there may be another attempt as well. -/
def Handover (env : Config) (db : Database) (x : Shared) : Operation → Prop
  | .reassign core orderPublicId => Replaceable env core db x none orderPublicId
  | .offline core agentId =>
    ∀ d order, UnderWay db order d → d.agentId = agentId → d.status ≠ .picked →
      Replaceable env core db x (some agentId) order.publicId
  | .updateDeliveryStatus core deliveryId actorUserId .rejected =>
    ∀ d order, d.id = deliveryId → d.agentId = actorUserId →
      d.status = .assigned → UnderWay db order d → order.status = .assigned →
      (∀ n, chainLength db d.id = some n → n < env.maxReassignmentAttempts) ∧
      Successor env core db x none order d
  | _ => True

/-! ## What the calls keep -/

/-- The ids to come are free, and Redis has one position for each agent. -/
structure Standing (db : Database) (x : Shared) : Prop where
  fresh : FreshIds db x
  onePosition : OnePosition x.presence

/-- All is well, but for orders whose delivery has been given up. -/
structure Waiting (but : ℕ → Prop) (db : Database) (x : Shared) : Prop extends Standing db x where
  covered : (boardOf db).Covered but

abbrev Kept : Database → Shared → Prop := Waiting fun _ => False

abbrev Anything : Database → Database → Prop := fun _ _ => True

section

variable {db db' : Database} {x x' : Shared} {but : ℕ → Prop} {env : Config} {core : Core}
  {seen : List (Sigma RowOf)}

theorem freshIds_iff :
    FreshIds db x ↔ ∀ id job, (boardOf db).jobs id = some job → id < x.seq .deliveries := by
  constructor
  · intro fresh id job found
    obtain ⟨d, isDelivery, _⟩ := get_of_jobs found
    have isId : d.id = id := RowKey.id.inj (Table.get_key isDelivery)
    exact isId ▸ fresh d (Table.get_mem isDelivery)
  · intro fresh d member
    exact fresh d.id (jobOf d) (jobs_of_get (Table.get_of_mem member))

theorem noneStranded_of_covered (covered : (boardOf db).Covered fun _ => False) :
    NoneStranded db := by
  intro order member isAssigned
  have isOrder := orders_of_get (Table.get_of_mem member)
  rw [isAssigned] at isOrder
  obtain ⟨id, job, found, sameOrder, waiting⟩ := covered order.id id isOrder
  obtain ⟨d, isDelivery, rfl⟩ := get_of_jobs found
  exact ⟨d, Table.get_mem isDelivery, sameOrder, waiting⟩

namespace Waiting

/-- No delivery is new. -/
theorem kept (waiting : Waiting but db x) {but' : ℕ → Prop} (covered : (boardOf db').Covered but')
    (old : ∀ id job', (boardOf db').jobs id = some job' → ∃ job, (boardOf db).jobs id = some job)
    (seq : x.seq .deliveries ≤ x'.seq .deliveries)
    (geo : OnePosition x'.presence) : Waiting but' db' x' := by
  refine ⟨⟨freshIds_iff.2 fun id job' found => ?_, geo⟩, covered⟩
  obtain ⟨job, isJob⟩ := old id job' found
  exact (freshIds_iff.1 waiting.fresh id job isJob).trans_le seq

theorem ticks (waiting : Waiting but db x) (ticks : Ticks x x') : Waiting but db x' :=
  waiting.kept waiting.covered (fun _ job' found => ⟨job', found⟩) (ticks.toLater.seq _)
    (ticks.presence ▸ waiting.onePosition)

theorem setOrder (waiting : Waiting but db x) {id : ℕ} {status : OrderStatus}
    (isBoard : boardOf db' = (boardOf db).setOrder id status) (leaves : status ≠ .assigned) :
    Waiting (fun orderId => but orderId ∧ orderId ≠ id) db' x :=
  waiting.kept (isBoard ▸ waiting.covered.setOrder leaves)
    (fun _ job' found => ⟨job', by rwa [isBoard] at found⟩) le_rfl waiting.onePosition

theorem setJob (waiting : Waiting but db x) {d : Delivery} (found : deliveryOf db d.id = some d)
    {status : DeliveryStatus} (isBoard : boardOf db' = (boardOf db).setJob d.id status) :
    Waiting (fun orderId => but orderId ∨ orderId = d.orderId) db' x := by
  refine waiting.kept (isBoard ▸ waiting.covered.setJob (jobs_of_get found) status)
    (fun id job' isJob' => ?_) le_rfl waiting.onePosition
  rw [isBoard] at isJob'
  obtain ⟨job, isJob, _⟩ := Board.job_of_setJob isJob'
  exact ⟨job, isJob⟩

theorem release (waiting : Waiting but db x) {orderId : ℕ} (released : Released orderId db db') :
    Waiting (fun other => but other ∨ other = orderId) db' x := by
  have isBoard := boardOf_released released
  refine waiting.kept (isBoard ▸ waiting.covered.release orderId) (fun id job' isJob' => ?_) le_rfl
    waiting.onePosition
  rw [isBoard] at isJob'
  obtain ⟨job, isJob, _⟩ := Board.job_of_release isJob'
  exact ⟨job, isJob⟩

theorem withPresence (waiting : Waiting but db x) (presence : Presence)
    (geo : OnePosition presence) : Waiting but db { x with presence } :=
  waiting.kept waiting.covered (fun _ job' found => ⟨job', found⟩) le_rfl geo

/-- The orders let off are not assigned any more. -/
theorem close (waiting : Waiting but db x)
    (handled : ∀ orderId, but orderId → (boardOf db).orders orderId = some .assigned →
      (boardOf db).Attended orderId) : Kept db x :=
  ⟨waiting.toStanding, waiting.covered.close handled⟩

theorem mono (waiting : Waiting but db x) {but' : ℕ → Prop}
    (wider : ∀ orderId, but orderId → but' orderId) : Waiting but' db x :=
  ⟨waiting.toStanding, fun orderId outside => waiting.covered orderId fun among =>
    outside (wider orderId among)⟩

/-- An assignment attends to the order again. -/
theorem mayBook {orderId : ℕ} (waiting : Waiting (· = orderId) db x) :
    MayBook Anything orderId Kept db x := by
  intro delivery assignedAt updatedAt booked
  refine ⟨.inr trivial, fun x' later isPresence isNext => ?_⟩
  have isBoard : boardOf (db.applyAll (assignmentWrites delivery assignedAt updatedAt)) =
      (boardOf db).book delivery.id (jobOf delivery) := boardOf_booked booked.free
  have vacant : (boardOf db).jobs delivery.id = none := by
    simp only [boardOf, Option.map_eq_none_iff]
    exact Table.get_eq_none_of_free booked.free
  have covered : ((boardOf db).book delivery.id (jobOf delivery)).Covered _ :=
    waiting.covered.book vacant booked.status
  rw [← isBoard] at covered
  refine ⟨⟨freshIds_iff.2 fun id job found => ?_, ?_⟩, covered.close fun other among => ?_⟩
  · rw [isBoard, Board.jobs_book] at found
    split at found
    next isNew => exact isNew ▸ isNext
    next => exact (freshIds_iff.1 waiting.fresh id job found).trans_le (later.seq _)
  · rw [OnePosition, isPresence, geo_sadd]
    exact waiting.onePosition
  · exact absurd (among.1.trans booked.ofOrder.symm) among.2

/-- An order that is not assigned any more needs no delivery. -/
theorem close_unless {order : Order} (waiting : Waiting (· = order.id) db x)
    (found : orderOf db order.id = some order) (leaves : order.status ≠ .assigned) : Kept db x := by
  refine waiting.close fun orderId isOrder isAssigned => ?_
  subst isOrder
  rw [orders_of_get found] at isAssigned
  exact absurd (Option.some.inj isAssigned) leaves

theorem mayReassign {order : Order} {previous : ℕ} (waiting : Waiting (· = order.id) db x)
    (found : orderOf db order.id = some order) (previously : (deliveryOf db previous).isSome = true)
    (finds : order.status = .assigned →
      ∃ branch, core.getBranch order.branchId = .ok branch ∧ Eligible env db x branch.point) :
    MayReassign Anything env core order previous Kept db x := by
  refine ⟨waiting.mayBook,
    fun nobody x' ticks => (waiting.ticks ticks).close_unless found fun isAssigned => nobody ?_⟩
  obtain ⟨branch, answered, eligible⟩ := finds isAssigned
  refine ⟨branch, answered, ⟨waiting.fresh, Option.isSome_iff_exists.2 ⟨order, found⟩,
    fun id isPrevious => ?_⟩, waiting.onePosition, eligible⟩
  cases isPrevious
  exact previously

end Waiting

/-! ## Giving a delivery up -/

theorem chainFrom_congr {db' : Database}
    (same : ∀ id, (deliveryOf db' id).map Delivery.reassignedFrom =
      (deliveryOf db id).map Delivery.reassignedFrom) (bound currentId count : ℕ) :
    chainFrom db' bound currentId count = chainFrom db bound currentId count := by
  induction bound generalizing currentId count with
  | zero => rfl
  | succ bound inductionHypothesis =>
    simp only [chainFrom, same]
    split
    next => rfl
    next => exact inductionHypothesis _ _

/-- A delivery's status does not count for the chain of its reassignments. -/
theorem chainLength_withStatus (db : Database) (rowId : ℕ) (status : DeliveryStatus)
    (stamp : Option ℕ) (deliveryId : ℕ) :
    chainLength (db.apply (.update TableName.deliveries (RowKey.id rowId)
      (Delivery.withStatus status stamp))) deliveryId =
      chainLength db deliveryId := by
  have rows : ((db.apply (.update TableName.deliveries (RowKey.id rowId)
      (Delivery.withStatus status stamp))) .deliveries).rows.length =
      (db .deliveries).rows.length := by
    rw [Db.apply_update_self]
    exact List.length_map _
  rw [chainLength, rows, chainLength]
  refine chainFrom_congr (fun id' => ?_) _ _ _
  rw [deliveryOf, Db.apply_update_self,
    map_get_modify (g := id) (Delivery.identity_withStatus status stamp)
    fun _ => by cases status <;> rfl]
  simp only [Option.map_id, id, ite_self]

/-- The agent who gives the delivery up is free again, and so are the others. -/
theorem eligible_of_successor {order : Order} {d : Delivery} {status : DeliveryStatus}
    {stamp : Option ℕ} (ends : status.active = false)
    (successor : Successor env core db x none order d) :
    ∃ branch, core.getBranch order.branchId = .ok branch ∧
      Eligible env (db.apply
        (.update TableName.deliveries (RowKey.id d.id) (Delivery.withStatus status stamp)))
        { x with presence := x.presence.srem d.agentId } branch.point := by
  obtain ⟨branch, answered,
    ⟨entry, member, _, near, onlyGiven⟩ | ⟨ap, member, _, online, lately, near, idle⟩⟩ := successor
  · refine ⟨branch, answered, .inl ⟨entry, member, near, fun isBusy => ?_⟩⟩
    obtain ⟨wasBusy, other⟩ := mem_busy_srem.1 isBusy
    exact other (onlyGiven wasBusy)
  · refine ⟨branch, answered, .inr ⟨ap, ?_, online, lately, near, ?_⟩⟩
    · rw [Db.apply_update_ne db _ _ (by decide)]
      exact member
    · rw [freeOf_iff, boardOf_updateDelivery]
      rintro ⟨id, job', found, sameAgent, active⟩
      obtain ⟨job, isJob, _, agent, isStatus⟩ := Board.job_of_setJob found
      obtain ⟨d', isDelivery, rfl⟩ := get_of_jobs isJob
      have isId : d'.id = id := RowKey.id.inj (Table.get_key isDelivery)
      by_cases isGiven : id = d.id
      · rw [if_pos isGiven] at isStatus
        rw [isStatus, ends] at active
        cases active
      · rw [if_neg isGiven] at isStatus
        have inactive :=
          idle d' (Table.get_mem isDelivery) (agent.symm.trans sameAgent) (isId ▸ isGiven)
        rw [isStatus, show (jobOf d').status = d'.status from rfl, inactive] at active
        cases active

/-- The state in which a successor is looked for. -/
theorem waiting_of_givenUp (kept : Kept db x) {order : Order} {d : Delivery}
    (underWay : UnderWay db order d) (status : DeliveryStatus) (stamp : Option ℕ) :
    Waiting (· = order.id)
      (db.apply (.update TableName.deliveries (RowKey.id d.id) (Delivery.withStatus status stamp)))
      { x with presence := x.presence.srem d.agentId } := by
  have waiting :=
    (kept.setJob underWay.isDelivery (boardOf_updateDelivery db d.id status stamp)).withPresence
    (x.presence.srem d.agentId) kept.onePosition
  exact waiting.mono fun orderId either => (either.resolve_left id).trans underWay.ofOrder

theorem mayReassign_of_givenUp (kept : Kept db x) {order : Order} {d : Delivery}
    (underWay : UnderWay db order d) {status : DeliveryStatus} (ends : status.active = false)
    (stamp : Option ℕ)
    (successor : order.status = .assigned → Successor env core db x none order d) :
    MayReassign Anything env core order d.id Kept
      (db.apply (.update TableName.deliveries (RowKey.id d.id) (Delivery.withStatus status stamp)))
      { x with presence := x.presence.srem d.agentId } := by
  refine (waiting_of_givenUp kept underWay status stamp).mayReassign ?_ ?_ fun isAssigned =>
    eligible_of_successor ends (successor isAssigned)
  · rw [orderOf, Db.apply_update_ne db _ _ (by decide)]
    exact underWay.isOrder
  · rw [deliveryOf, Db.apply_update_self, Table.get_modify, Option.isSome_map]
    exact Option.isSome_iff_exists.2 ⟨d, underWay.isDelivery⟩

theorem Kept.solo_reassign (kept : Kept db x) {orderPublicId : ℕ}
    (replaceable : Replaceable env core db x none orderPublicId) :
    (reassign env core orderPublicId).solo (.calm Anything) (fun _ _ => Kept) ⟨none, seen⟩ db x :=
  Verified.solo_reassign kept fun order active n stamp isPublic underWay chain few =>
    ⟨.inr trivial, mayReassign_of_givenUp kept underWay rfl stamp fun isAssigned =>
      replaceable order active n isPublic underWay isAssigned chain few⟩

/-! ## The calls -/

theorem underWay_of {d : Delivery} {order : Order} (found : deliveryOf db d.id = some d)
    (active : d.status.active = true)
    (isOrder : orderOf db d.orderId = some order) : UnderWay db order d := by
  have sameId : order.id = d.orderId := RowKey.id.inj (Table.get_key isOrder)
  exact ⟨sameId ▸ isOrder, found, sameId.symm, active⟩

/-- The order that was let off is not there, or not assigned. -/
theorem Waiting.close_of_status {orderId : ℕ} (waiting : Waiting (· = orderId) db x)
    (leaves : ∀ order, orderOf db orderId = some order → order.status ≠ .assigned) : Kept db x := by
  refine waiting.close fun other isOrder isAssigned => ?_
  subst isOrder
  obtain ⟨order, found, isStatus⟩ := get_of_orders isAssigned
  exact absurd isStatus (leaves order found)

theorem Kept.solo_settleDelivery (kept : Kept db x) {d : Delivery}
    (found : deliveryOf db d.id = some d) :
    (settleDelivery env core d).solo (.calm Anything) (fun _ _ => Kept) ⟨none, seen⟩ db x := by
  refine Verified.solo_settleDelivery (Option.isSome_iff_exists.2 ⟨d, found⟩)
    (fun _ ticks => kept.ticks ticks)
    fun order branch db' isOrder settled => ⟨.inr trivial, fun x' later isPresence => ?_⟩
  have sameId : order.id = d.orderId := RowKey.id.inj (Table.get_key isOrder)
  have isBoard := boardOf_settled settled
  have covered : (((boardOf db).setJob d.id .delivered).setOrder order.id .delivered).Covered _ :=
    (kept.covered.setJob (jobs_of_get found) .delivered).setOrder (by decide)
  rw [← isBoard] at covered
  refine Waiting.kept kept (fun orderId _ => covered orderId fun among => ?_)
    (fun id job' isJob' => ?_) (later.seq _) ?_
  · exact among.2 ((among.1.resolve_left (fun impossible => impossible)).trans sameId.symm)
  · rw [isBoard, Board.jobs_setOrder] at isJob'
    obtain ⟨job, isJob, _⟩ := Board.job_of_setJob isJob'
    exact ⟨job, isJob⟩
  · rw [OnePosition, isPresence]
    exact kept.onePosition

theorem Kept.solo_afterPicked (kept : Kept db x) {d : Delivery}
    (found : deliveryOf db d.id = some d) (stamp : Option ℕ) :
    (afterStatus env core d .picked).solo (.calm Anything) (fun _ _ => Kept) ⟨none, seen⟩
      (db.apply (.update TableName.deliveries (RowKey.id d.id) (Delivery.withStatus .picked stamp)))
        x := by
  have waiting := kept.setJob found (boardOf_updateDelivery db d.id .picked stamp)
  have onlyIts : ∀ orderId, False ∨ orderId = d.orderId → orderId = d.orderId :=
    fun _ either => either.resolve_left id
  refine solo_returning (solo_applySystemStatusChange
    (fun row updatedAt stamp' _ => ⟨.inr trivial, ?_⟩) fun absent => ?_)
  · have picked := (waiting.mono onlyIts).setOrder
      (boardOf_updateOrder _ d.orderId .picked updatedAt stamp') (by decide)
    exact picked.mono fun orderId among => among.2 among.1
  · refine (waiting.mono onlyIts).close_of_status fun order isOrder => ?_
    cases absent.symm.trans isOrder

theorem Kept.solo_afterRejected (kept : Kept db x) {d : Delivery}
    (found : deliveryOf db d.id = some d) (active : d.status.active = true) (stamp : Option ℕ)
    (finds : ∀ order, UnderWay db order d → order.status = .assigned →
      (∀ n, chainLength db d.id = some n → n < env.maxReassignmentAttempts) ∧
      Successor env core db x none order d) :
    (afterStatus env core d .rejected).solo (.calm Anything) (fun _ _ => Kept) ⟨none, seen⟩
      (db.apply (.update TableName.deliveries (RowKey.id d.id)
        (Delivery.withStatus .rejected stamp))) x := by
  have sameOrders : orderOf (db.apply (.update TableName.deliveries (RowKey.id d.id)
      (Delivery.withStatus .rejected stamp))) d.orderId =
      orderOf db d.orderId := by
    rw [orderOf, Db.apply_update_ne db _ _ (by decide)]
  refine solo_do (solo_orElse_redis
    (solo_tryReassignAfterRejection (fun ends => ?_) fun order isOrder => ?_))
  · rw [sameOrders] at ends
    have waiting :=
      (kept.setJob found (boardOf_updateDelivery db d.id .rejected stamp)).withPresence
      (x.presence.srem d.agentId) kept.onePosition
    refine (waiting.mono fun _ either => either.resolve_left id).close_of_status
      fun order isOrder isAssigned => ?_
    rw [sameOrders] at isOrder
    rcases ends with ⟨n, chain, many⟩ | absent
    · rw [chainLength_withStatus] at chain
      have few := (finds order (underWay_of found active isOrder) isAssigned).1 n chain
      omega
    · cases absent.symm.trans isOrder
  · rw [sameOrders] at isOrder
    have underWay := underWay_of found active isOrder
    exact mayReassign_of_givenUp kept underWay rfl stamp fun isAssigned =>
      (finds order underWay isAssigned).2

theorem Kept.solo_deliveryUpdateStatus (kept : Kept db x) {deliveryId actorUserId : ℕ}
    {target : DeliveryStatus}
    (handover : Handover env db x (.updateDeliveryStatus core deliveryId actorUserId target)) :
    (DeliveryService.updateStatus env core deliveryId actorUserId target).solo (.calm Anything)
      (fun _ _ => Kept) ⟨none, seen⟩ db x := by
  refine Verified.solo_deliveryUpdateStatus kept
    (fun d found _ seen' => kept.solo_settleDelivery found)
    fun d stamp isId found isAgent isLegal _ => ⟨.inr trivial, fun seen' => ?_⟩
  have step : (d.status = .assigned ∧ (target = .accepted ∨ target = .rejected)) ∨
      target = .picked ∨ target = .delivered := by
    revert isLegal
    cases d.status <;> cases target <;> decide
  rcases step with ⟨isAssigned, rfl | rfl⟩ | rfl | rfl
  · -- The delivery goes on waiting, with its agent's consent.
    have isBoard := boardOf_updateDelivery db d.id .accepted stamp
    refine Waiting.kept kept (isBoard ▸ kept.covered.accept d.id) (fun id job' isJob' => ?_) le_rfl
      kept.onePosition
    rw [isBoard] at isJob'
    obtain ⟨job, isJob, _⟩ := Board.job_of_setJob isJob'
    exact ⟨job, isJob⟩
  · exact kept.solo_afterRejected found (by rw [isAssigned]; rfl) stamp fun order underWay =>
      handover d order isId isAgent isAssigned underWay
  · exact kept.solo_afterPicked found stamp
  · contradiction

theorem Kept.solo_updateOrderStatus (kept : Kept db x) (publicId : ℕ) (target : OrderStatus)
    (actor : RequestActor) :
    (OrderService.updateStatus core publicId target actor).solo (.calm Anything) (fun _ _ => Kept)
      ⟨none, seen⟩ db x := by
  refine Verified.solo_updateOrderStatus (fun _ ticks => kept.ticks ticks)
    fun order listed db' found isActor isAllowed written =>
    ⟨.inr trivial, fun x' seen' ticks => ?_⟩
  have leaves := (target_of_request isActor isAllowed).1
  have moved := (Waiting.setOrder kept (boardOf_written written) leaves).ticks ticks
  refine solo_releaseDelivery (fun _ => moved.mono fun _ among => among.1)
    fun isCancelled wasAssigned db'' released => ⟨.inr trivial, ?_⟩
  rintro presence freed
  have isBoard := boardOf_written written
  have waiting := moved.release released
  have geo : OnePosition presence := by
    rcases freed with rfl | ⟨d, _, _, _, rfl⟩
    · exact moved.onePosition
    · exact moved.onePosition
  refine (waiting.withPresence presence geo).close fun orderId among isAssigned => ?_
  have isOrder : orderId = order.id := among.resolve_left fun outside => outside.1
  rw [boardOf_released released, Board.orders_release, isBoard, Board.orders_setOrder,
    if_pos isOrder] at isAssigned
  obtain ⟨_, _, isStatus⟩ := Option.map_eq_some_iff.1 isAssigned
  exact absurd isStatus leaves

/-! ### Presence -/

theorem Waiting.of_presence (waiting : Waiting but db x) {agentId : ℕ}
    (changed : PresenceChanged agentId db db') {presence : Presence} (geo : OnePosition presence) :
    Waiting but db' { x with presence } := by
  have isBoard := board_of_presence changed
  exact waiting.kept (isBoard ▸ waiting.covered)
    (fun _ job' found => ⟨job', isBoard ▸ found⟩) le_rfl geo

theorem onePosition_geoadd {presence presence' : Presence} {agentId : ℕ} {point : Point}
    (one : OnePosition presence)
    (isGeo : presence'.geo =
      (agentId, point) :: presence.geo.filter fun entry => entry.1 ≠ agentId) :
    OnePosition presence' := by
  rw [OnePosition, isGeo, List.map_cons, List.nodup_cons, mem_agents_filter]
  exact ⟨fun among => among.2 rfl, one.sublist (List.filter_sublist.map _)⟩

theorem Kept.solo_online (kept : Kept db x) (agentId : ℕ) (point : Point) :
    (PresenceService.online agentId point).solo (.calm Anything) (fun _ _ => Kept)
      ⟨none, seen⟩ db x :=
  Verified.solo_online kept fun db' presence changed went => by
    obtain ⟨point', isGeo⟩ := went.geo
    exact ⟨.inr trivial,
      Waiting.of_presence kept changed (onePosition_geoadd kept.onePosition isGeo)⟩

theorem Kept.solo_ping (kept : Kept db x) (agentId : ℕ) (point : Point) :
    (PresenceService.ping agentId point).solo (.calm Anything) (fun _ _ => Kept)
      ⟨none, seen⟩ db x :=
  Verified.solo_ping kept fun _ _ _ isGeo _ =>
    ⟨.inr trivial, Waiting.of_presence kept (presenceChanged_update db agentId _)
      (onePosition_geoadd kept.onePosition isGeo)⟩

theorem chainLength_congr (same : db' .deliveries = db .deliveries) (deliveryId : ℕ) :
    chainLength db' deliveryId = chainLength db deliveryId := by
  rw [chainLength, same]
  exact chainFrom_congr (fun id => by rw [deliveryOf, same]) _ _ _

theorem underWay_congr (orders : db' .orders = db .orders)
    (deliveries : db' .deliveries = db .deliveries) {order : Order} {d : Delivery}
    (underWay : UnderWay db' order d) : UnderWay db order d := by
  obtain ⟨isOrder, isDelivery, ofOrder, active⟩ := underWay
  rw [orderOf, orders] at isOrder
  rw [deliveryOf, deliveries] at isDelivery
  exact ⟨isOrder, isDelivery, ofOrder, active⟩

/-- A successor other than the agent who leaves is still there once the agent has left. -/
theorem successor_of_left {agentId : ℕ} {presence : Presence} (left : LeftOffline agentId db db')
    (went : WentOffline agentId x.presence presence) {order : Order} {d : Delivery}
    (successor : Successor env core db x (some agentId) order d) :
    Successor env core db' { x with presence } none order d := by
  obtain ⟨branch, answered, ⟨entry, member, other, near, onlyGiven⟩ | ⟨ap, member, other, online,
    lately, near, idle⟩⟩ := successor
  · have different : entry.1 ≠ agentId := fun same => other (congrArg some same)
    refine ⟨branch, answered, .inl ⟨entry, ?_, by simp, near, fun isBusy => onlyGiven ?_⟩⟩
    · rw [went.geo]
      exact List.mem_filter.2 ⟨member, decide_eq_true different⟩
    · rw [went.busy] at isBusy
      exact (List.mem_filter.1 isBusy).1
  · have different : ap.agentId ≠ agentId := fun same => other (congrArg some same)
    refine ⟨branch, answered, .inr ⟨ap, ?_, by simp, online, lately, near, ?_⟩⟩
    · have found : presenceOf db' ap.agentId = some ap := by
        rw [left.rows _ different]
        exact Table.get_of_mem member
      exact Table.get_mem found
    · rw [left.others _ (by decide)]
      exact idle

theorem Kept.solo_offline (kept : Kept db x) {agentId : ℕ}
    (handover : Handover env db x (.offline core agentId)) :
    (PresenceService.offline env core agentId).solo (.calm Anything) (fun _ _ => Kept)
      ⟨none, seen⟩ db x := by
  refine Verified.solo_offline (fun _ => kept) fun db' presence left went =>
    ⟨.inr trivial, fun active ofAgent _ => ?_⟩
  have orders : db' .orders = db .orders := left.others _ (by decide)
  have deliveries : db' .deliveries = db .deliveries := left.others _ (by decide)
  have gone : Kept db' { x with presence } := by
    refine Waiting.of_presence kept left.toPresenceChanged ?_
    rw [OnePosition, went.geo]
    exact kept.onePosition.sublist (List.filter_sublist.map _)
  refine ⟨fun _ _ _ => gone, fun _ => gone, fun d isActive order seen' isOrder =>
    gone.solo_reassign ?_⟩
  obtain ⟨isDelivery, isAgent, isUnderWay, notPicked⟩ := ofAgent d isActive
  rw [orderOf, orders] at isOrder
  intro order' active' n isPublic underWay isAssigned chain few
  rw [chainLength_congr deliveries] at chain
  exact successor_of_left left went (handover d order (underWay_of isDelivery isUnderWay isOrder)
    isAgent notPicked order' active' n isPublic
    (underWay_congr orders deliveries underWay) isAssigned chain few)

theorem settles (env : Config) :
    Pool.Settles (.calm Anything) Kept (fun op db x => Dispatches op ∧ Handover env db x op)
      (code env) := by
  rintro op db x kept ⟨dispatches, handover⟩
  cases op with
  | placeOrder core customerId data => exact dispatches.elim
  | updateOrderStatus core publicId target actor =>
    exact solo_map (kept.solo_updateOrderStatus publicId target actor)
  | initPayment core orderPublicId customerId => exact dispatches.elim
  | refund core paymentId amount reason => exact dispatches.elim
  | webhook payload signature signatureValid => exact dispatches.elim
  | assign core orderPublicId agentId =>
    exact solo_returning (solo_assign (fun _ ticks => kept.ticks ticks) fun order _ =>
      (kept.mono fun _ => False.elim).mayBook)
  | tryAutoAssign core orderId =>
    exact solo_returning (solo_tryAutoAssign (fun _ ticks => kept.ticks ticks) fun order _ =>
      (kept.mono fun _ => False.elim).mayBook)
  | reassign core orderPublicId => exact solo_returning (kept.solo_reassign handover)
  | updateDeliveryStatus core deliveryId actorUserId target =>
    exact solo_map (kept.solo_deliveryUpdateStatus handover)
  | online agentId point => exact solo_returning (kept.solo_online agentId point)
  | offline core agentId => exact solo_returning (kept.solo_offline handover)
  | ping agentId point => exact solo_returning (kept.solo_ping agentId point)
  | recordPayout restaurantId amount currency idempotencyKey => exact dispatches.elim
  | sleep duration => exact solo_returning (solo_sure (kept.ticks ⟨later_sleep x duration, rfl⟩))

end

/-! ## Runs -/

/-- No order is stranded once the calls have ended, in any run from a state. -/
def NeverStranded (env : Config) (allowed : Region → Event Operation → Prop)
    (start : Region) : Prop :=
  ∀ p, Pool.Reach (code env) allowed start p → p.Idle = true → NoneStranded p.db

theorem standing_of_no_deliveries {db : Database} {x : Shared} (none : (db .deliveries).rows = [])
    (nobody : x.presence.geo = []) : Standing db x := by
  refine ⟨fun d member => ?_, ?_⟩
  · rw [none] at member
    cases member
  · simp [OnePosition, nobody]

theorem noneStranded_of_unassigned {db : Database}
    (none : ∀ order ∈ (db .orders).rows, Order.status order ≠ .assigned) : NoneStranded db :=
  fun order member isAssigned => absurd isAssigned (none order member)

/-- Requests to assign an order, which give nothing up. -/
def Assigns : Operation → Prop
  | .assign .. => True
  | _ => False

instance : DecidablePred Assigns
  | .assign .. => inferInstanceAs (Decidable True)
  | .placeOrder .. | .updateOrderStatus .. | .initPayment .. | .refund .. | .webhook ..
  | .tryAutoAssign .. | .reassign ..
  | .updateDeliveryStatus .. | .online .. | .offline .. | .ping .. | .recordPayout .. | .sleep .. =>
    inferInstanceAs (Decidable False)

/-- Dispatching, where what is given up is handed over. -/
abbrev HandsOver (env : Config) : Region → Event Operation → Prop :=
  OneByOne fun op db x => Dispatches op ∧ Handover env db x op

theorem handsOver_of_assigns {env : Config} {p : Region} {e : Event Operation}
    (checked : OneByOne (fun op _ _ => Assigns op) p e) : HandsOver env p e := by
  cases e with
  | spawn op =>
    obtain ⟨idle, assigns⟩ := checked
    cases op with
    | assign core orderPublicId agentId => exact ⟨idle, trivial, trivial⟩
    | _ => exact assigns.elim
  | step i choice => exact checked
  | crash i => exact checked

/-- Agent 3 may reject what the agent has been given: agent 2 is there. -/
theorem handover_of_nearby {p : Region} {deliveryId agentId : ℕ}
    (geo : p.side.presence.geo = [(2, ⟨0, 0⟩)]) (busy : p.side.presence.busy = [3])
    (few : chainLength p.db deliveryId = some 1) :
    Handover Sample.env p.db p.side
      (.updateDeliveryStatus Sample.core deliveryId agentId .rejected) := by
  intro d order isId _ _ _ _
  refine ⟨fun n isLength => ?_, Sample.branch, rfl,
    .inl ⟨(2, ⟨0, 0⟩), by simp [geo], by simp, ?_, fun isBusy => ?_⟩⟩
  · rw [isId, few] at isLength
    cases isLength
    decide
  · norm_num [Sample.env]
  · simp [busy] at isBusy

def rejection : Operation := .updateDeliveryStatus Sample.core 10 3 .rejected

/-- The region when the call has started. -/
def rejecting (p : Region) : Region :=
  ⟨p.db, p.side, p.calls ++ [⟨rejection, code Sample.env rejection, .start⟩]⟩

/-- The only agent rejects the order. -/
def assignedAndRejected : List (Event Operation) :=
  .spawn (.assign Sample.core 100 (some 2)) :: List.replicate 11 (Sample.act 0) ++
  .spawn (.updateDeliveryStatus Sample.core 10 2 .rejected) :: List.replicate 11 (Sample.act 1)

end Stranded

end SwiftBite.Verified
