import SwiftBite.Verified.Lifecycle
import SwiftBite.Verified.OneActive

/-! # Agents marked busy

The search for an agent passes over whoever is marked busy, so that a mark without a delivery
keeps its agent out of work.  Run one after another, the calls leave no such mark: an order
has at most one delivery under way, and the call that ends it takes its agent's mark away.
-/

set_option autoImplicit false

namespace SwiftBite.Verified

open Store Prog Statement DeliveryService

namespace Board

variable {b : Board} {orderId agentId : ℕ}

/-- An order whose job under way has ended is served by nobody. -/
theorem OneForEach.unserved {b' : Board} {id : ℕ} {job : Job} (oneForEach : b.OneForEach)
    (fewer : b'.Fewer b) (found : b.jobs id = some job) (active : job.status.active = true)
    (ended : ∀ job', b'.jobs id = some job' → job'.status.active = false) :
    b'.Unserved job.orderId := by
  intro id' job' found' ofOrder
  by_contra isActive
  rw [Bool.not_eq_false] at isActive
  obtain ⟨old, isOld, wasActive, sameOrder, _⟩ := fewer id' job' found' isActive
  have same : id' = id :=
    oneForEach id' id old job isOld found (sameOrder.symm.trans ofOrder) wasActive active
  rw [same] at found'
  exact Bool.false_ne_true ((ended job' found').symm.trans isActive)

/-! ### Who stays on the way -/

theorem Serving.setJob {id : ℕ} {status : DeliveryStatus} (serving : b.Serving agentId)
    (stays : status.active = true ∨ ∀ job, b.jobs id = some job → job.agentId ≠ agentId) :
    (b.setJob id status).Serving agentId := by
  obtain ⟨id', job, found, ofAgent, active⟩ := serving
  by_cases same : id' = id
  · subst same
    refine ⟨id', { job with status }, by rw [jobs_setJob, if_pos rfl, found]; rfl, ofAgent, ?_⟩
    exact stays.resolve_right fun other => other job found ofAgent
  · exact ⟨id', job, by rw [jobs_setJob, if_neg same, found], ofAgent, active⟩

theorem Serving.of_jobs {b' : Board} (serving : b.Serving agentId)
    (jobs : b'.jobs = b.jobs) : b'.Serving agentId := by
  rwa [Serving, jobs]

theorem Serving.book {id : ℕ} {job : Job} (serving : b.Serving agentId) (free : b.jobs id = none) :
    (b.book id job).Serving agentId := by
  obtain ⟨id', job', found, ofAgent, active⟩ := serving
  have other : id' ≠ id := by
    rintro rfl
    cases free.symm.trans found
  exact ⟨id', job', by rw [jobs_book, if_neg other, found], ofAgent, active⟩

theorem Serving.release (serving : b.Serving agentId)
    (stays : ∀ id job, b.jobs id = some job → job.orderId = orderId → job.status.active = true →
      job.agentId ≠ agentId) : (b.release orderId).Serving agentId := by
  obtain ⟨id, job, found, ofAgent, active⟩ := serving
  have other : ¬(job.orderId = orderId ∧ job.status.active = true) :=
    fun ⟨ofOrder, isActive⟩ => stays id job found ofOrder isActive ofAgent
  exact ⟨id, job,
    by simp only [Board.release, found, Option.map_some, if_neg other], ofAgent, active⟩

end Board

namespace BusyAgents

/-- Every agent marked busy has a delivery under way.  The id 0 is nobody's. -/
def NoPhantoms (db : Database) (presence : Presence) : Prop :=
  ∀ agentId ∈ presence.busy, agentId ≠ 0 →
  ∃ d ∈ (db .deliveries).rows, Delivery.agentId d = agentId ∧ d.status.active = true

/-- The marks agree with the deliveries, of which each order has one under way at most. -/
structure Marked (db : Database) (x : Shared) : Prop where
  oneForEach : (boardOf db).OneForEach
  serving : ∀ agentId ∈ x.presence.busy, agentId ≠ 0 → (boardOf db).Serving agentId

/-- Any commit. -/
abbrev Any : Database → Database → Prop := fun _ _ => True

section

variable {db db' : Database} {x x' : Shared} {env : Config} {core : Core}
  {seen : List (Sigma RowOf)}

theorem Marked.noPhantoms (marked : Marked db x) : NoPhantoms db x.presence := by
  intro agentId isBusy isAgent
  obtain ⟨id, job, found, rfl, active⟩ := marked.serving agentId isBusy isAgent
  obtain ⟨d, isDelivery, rfl⟩ := get_of_jobs found
  exact ⟨d, Table.get_mem isDelivery, rfl, active⟩

namespace Marked

/-- No mark is new, and whoever keeps one stays on the way. -/
theorem kept (marked : Marked db x) (fewer : (boardOf db').Fewer (boardOf db))
    (stays : ∀ agentId ∈ x'.presence.busy, agentId ≠ 0 → agentId ∈ x.presence.busy ∧
      ((boardOf db).Serving agentId → (boardOf db').Serving agentId)) : Marked db' x' := by
  refine ⟨marked.oneForEach.fewer fewer, fun agentId isBusy isAgent => ?_⟩
  obtain ⟨wasBusy, still⟩ := stays agentId isBusy isAgent
  exact still (marked.serving agentId wasBusy isAgent)

theorem congr (marked : Marked db x) (jobs : (boardOf db').jobs = (boardOf db).jobs)
    (busy : ∀ agentId ∈ x'.presence.busy, agentId ∈ x.presence.busy) : Marked db' x' :=
  marked.kept (.of_jobs jobs) fun agentId isBusy _ =>
    ⟨busy agentId isBusy, fun serving => serving.of_jobs jobs⟩

theorem ticks (marked : Marked db x) (ticks : Ticks x x') : Marked db x' :=
  marked.congr rfl fun agentId isBusy => by rwa [ticks.presence] at isBusy

/-- A job is given another status, and unless it is still under way its agent's mark is gone. -/
theorem setJob (marked : Marked db x) {d : Delivery} (found : deliveryOf db d.id = some d)
    (active : d.status.active = true) {status : DeliveryStatus}
    (jobs : (boardOf db').jobs = ((boardOf db).setJob d.id status).jobs)
    (busy : ∀ agentId ∈ x'.presence.busy, agentId ∈ x.presence.busy ∧
      (status.active = true ∨ agentId ≠ d.agentId)) : Marked db' x' := by
  have fewer : ((boardOf db).setJob d.id status).Fewer (boardOf db) :=
    Board.fewer_setJob fun job isJob _ => by
    cases (jobs_of_get found).symm.trans isJob
    exact active
  refine marked.kept ((Board.Fewer.of_jobs jobs).trans fewer) fun agentId isBusy _ => ?_
  obtain ⟨wasBusy, goes⟩ := busy agentId isBusy
  refine ⟨wasBusy,
    fun serving => (serving.setJob (goes.imp_right fun other job isJob => ?_)).of_jobs jobs⟩
  cases (jobs_of_get found).symm.trans isJob
  exact other.symm

/-- Calls that leave the deliveries and the marks alone. -/
theorem solo_elsewhere {β : Type} (marked : Marked db x) {prog : Service β}
    (harmless : prog.Harmless ⟨fun w => w.table ≠ .deliveries, fun _ => True, Ticks⟩) :
    prog.solo (.calm Any) (fun _ _ => Marked) .start db x := by
  refine solo_harmless (fun db x ws others holds => ⟨.inr trivial, ?_⟩)
    (fun db x x' ticks holds => holds.ticks ticks) harmless
    (fun w none => absurd none List.not_mem_nil) marked
  have deliveries : db.applyAll ws .deliveries = db .deliveries := Db.applyAll_other others db
  have jobs : (boardOf (db.applyAll ws)).jobs = (boardOf db).jobs := by
    simp only [boardOf, deliveryOf, deliveries]
  exact holds.congr jobs fun _ isBusy => isBusy

end Marked

/-! ## Assignments -/

theorem Marked.mayBook (marked : Marked db x) {orderId : ℕ}
    (unserved : (boardOf db).Unserved orderId) : MayBook Any orderId Marked db x := by
  intro delivery assignedAt updatedAt booked
  have isBoard : boardOf (db.applyAll (assignmentWrites delivery assignedAt updatedAt)) =
      (boardOf db).book delivery.id (jobOf delivery) := boardOf_booked booked.free
  have free : (boardOf db).jobs delivery.id = none :=
    Option.map_eq_none_iff.2 (Table.get_eq_none_of_free booked.free)
  refine ⟨.inr trivial, fun x' _ isPresence _ => ⟨?_, fun agentId isBusy isAgent => ?_⟩⟩
  · rw [isBoard]
    have ofOrder : (jobOf delivery).orderId = orderId := booked.ofOrder
    refine marked.oneForEach.book ?_
    rw [ofOrder]
    exact unserved
  · rw [isPresence, mem_busy_sadd] at isBusy
    rw [isBoard]
    rcases isBusy with rfl | wasBusy
    · refine ⟨delivery.id, jobOf delivery, by rw [Board.jobs_book, if_pos rfl], rfl, ?_⟩
      rw [show (jobOf delivery).status = .assigned from booked.status]
      rfl
    · exact (marked.serving agentId wasBusy isAgent).book free

theorem unserved_of_inactive {orderId : ℕ}
    (inactive : ∀ d ∈ (db .deliveries).rows, Delivery.orderId d = orderId →
      d.status.active = false) :
    (boardOf db).Unserved orderId := by
  intro id job found ofOrder
  obtain ⟨d, isDelivery, rfl⟩ := get_of_jobs found
  exact inactive d (Table.get_mem isDelivery) ofOrder

/-- The delivery under way for an order is given up, and its agent's mark is gone. -/
theorem Marked.givenUp (marked : Marked db x) {d : Delivery} (found : deliveryOf db d.id = some d)
    (active : d.status.active = true) (status : DeliveryStatus) (stamp : Option ℕ)
    (ends : status.active = false) :
    Marked
      (db.apply (.update TableName.deliveries (RowKey.id d.id) (Delivery.withStatus status stamp)))
      { x with presence := x.presence.srem d.agentId } ∧
    (boardOf (db.apply (.update TableName.deliveries (RowKey.id d.id)
      (Delivery.withStatus status stamp)))).Unserved d.orderId := by
  have isBoard := boardOf_updateDelivery db d.id status stamp
  have fewer : ((boardOf db).setJob d.id status).Fewer (boardOf db) :=
    Board.fewer_setJob fun _ _ isActive => absurd (ends.symm.trans isActive) Bool.false_ne_true
  refine ⟨marked.setJob found active (by rw [isBoard]) fun agentId isBusy => ?_, ?_⟩
  · have isLeft := mem_busy_srem.1 isBusy
    exact ⟨isLeft.1, .inr isLeft.2⟩
  · rw [isBoard]
    refine marked.oneForEach.unserved fewer (jobs_of_get found) active fun job' isJob' => ?_
    obtain ⟨_, _, _, _, isStatus⟩ := Board.job_of_setJob isJob'
    rw [isStatus, if_pos rfl]
    exact ends

theorem Marked.solo_reassign (marked : Marked db x) (orderPublicId : ℕ) :
    (reassign env core orderPublicId).solo (.calm Any) (fun _ _ => Marked) ⟨none, seen⟩ db x := by
  refine Verified.solo_reassign marked fun order active n stamp _ underWay _ _ => ⟨.inr trivial, ?_⟩
  obtain ⟨givenUp, unserved⟩ :=
    marked.givenUp underWay.isDelivery underWay.active .reassigned stamp rfl
  rw [underWay.ofOrder] at unserved
  exact ⟨givenUp.mayBook unserved, fun _ _ ticks => givenUp.ticks ticks⟩

/-! ## The agent's requests -/

theorem Marked.solo_settleDelivery (marked : Marked db x) {d : Delivery}
    (found : deliveryOf db d.id = some d) (isPicked : d.status = .picked) :
    (settleDelivery env core d).solo (.calm Any) (fun _ _ => Marked) ⟨none, seen⟩ db x := by
  refine Verified.solo_settleDelivery (Option.isSome_iff_exists.2 ⟨d, found⟩)
    (fun _ ticks => marked.ticks ticks)
    fun order branch db' _ settled => ⟨.inr trivial, fun x' _ isPresence => ?_⟩
  refine marked.setJob
    found (by rw [isPicked]; rfl) (by rw [boardOf_settled settled, Board.jobs_setOrder])
    fun agentId isBusy => ?_
  rw [isPresence, mem_busy_srem] at isBusy
  exact ⟨isBusy.1, .inr isBusy.2⟩

theorem Marked.solo_deliveryUpdateStatus (marked : Marked db x) (deliveryId actorUserId : ℕ)
    (target : DeliveryStatus) :
    (DeliveryService.updateStatus env core deliveryId actorUserId target).solo (.calm Any)
      (fun _ _ => Marked) ⟨none, seen⟩ db x := by
  refine Verified.solo_deliveryUpdateStatus marked
    (fun d found isPicked seen' => marked.solo_settleDelivery found isPicked)
    fun d stamp _ found _ isLegal notDelivered => ⟨.inr trivial, fun seen' => ?_⟩
  have step : d.status.active = true ∧
      (target = .accepted ∨ target = .picked ∨ target = .rejected) := by
    revert isLegal notDelivered
    cases d.status <;> cases target <;> decide
  obtain ⟨active, goes⟩ := step
  have onward : target.active = true →
      Marked (db.apply
        (.update TableName.deliveries (RowKey.id d.id) (Delivery.withStatus target stamp))) x :=
        fun isActive =>
    marked.setJob found active (by rw [boardOf_updateDelivery]) fun _ isBusy =>
      ⟨isBusy, .inl isActive⟩
  rcases goes with rfl | rfl | rfl
  · exact onward rfl
  · refine solo_returning (solo_applySystemStatusChange
      (fun row updatedAt stamp' _ => ⟨.inr trivial, ?_⟩) fun _ => onward rfl)
    exact (onward rfl).congr (by rw [boardOf_updateOrder, Board.jobs_setOrder])
      fun _ isBusy => isBusy
  · obtain ⟨givenUp, unserved⟩ := marked.givenUp found active .rejected stamp rfl
    refine solo_do (solo_orElse_redis
      (solo_tryReassignAfterRejection (fun _ => givenUp) fun order isOrder => ?_))
    have sameId : order.id = d.orderId := RowKey.id.inj (Table.get_key isOrder)
    rw [← sameId] at unserved
    exact ⟨givenUp.mayBook unserved, fun _ _ ticks => givenUp.ticks ticks⟩

/-! ## Cancellations -/

theorem Marked.solo_updateOrderStatus (marked : Marked db x) (publicId : ℕ) (target : OrderStatus)
    (actor : RequestActor) :
    (OrderService.updateStatus core publicId target actor).solo (.calm Any) (fun _ _ => Marked)
      ⟨none, seen⟩ db x := by
  refine Verified.solo_updateOrderStatus (fun _ ticks => marked.ticks ticks)
    fun order listed db' _ _ _ written => ?_
  refine ⟨.inr trivial, fun x' seen' ticks => ?_⟩
  have moved : Marked db' x' := (marked.congr (by rw [boardOf_written written, Board.jobs_setOrder])
    fun _ isBusy => isBusy).ticks ticks
  refine solo_releaseDelivery_of (fun _ => moved) fun _ _ db'' released =>
    ⟨.inr trivial, fun presence unmarked => ?_⟩
  have isBoard := boardOf_released released
  refine moved.kept (isBoard ▸ Board.fewer_release order.id) fun agentId isBusy isAgent => ?_
  rw [isBoard]
  -- The one who was on the way for the order has no mark any more.
  cases unmarked with
  | nobody idle same =>
    subst same
    refine ⟨isBusy, fun serving => serving.release fun id job found ofOrder active => ?_⟩
    exact absurd
      active (by rw [unserved_of_inactive idle id job found ofOrder]; exact Bool.false_ne_true)
  | unnamed d member ofOrder active isZero same =>
    subst same
    refine ⟨isBusy, fun serving => serving.release fun id job found ofOrder' active' => ?_⟩
    have isJob := jobs_of_get (Table.get_of_mem member)
    have sameId := moved.oneForEach id d.id job (jobOf d) found isJob
      (ofOrder'.trans ofOrder.symm) active' active
    subst sameId
    cases isJob.symm.trans found
    rw [show (jobOf d).agentId = 0 from isZero]
    exact isAgent.symm
  | freed d member ofOrder active isPresence =>
    subst isPresence
    obtain ⟨wasBusy, other⟩ := mem_busy_srem.1 isBusy
    refine ⟨wasBusy, fun serving => serving.release fun id job found ofOrder' active' => ?_⟩
    have isJob := jobs_of_get (Table.get_of_mem member)
    have sameId := moved.oneForEach id d.id job (jobOf d) found isJob
      (ofOrder'.trans ofOrder.symm) active' active
    subst sameId
    cases isJob.symm.trans found
    exact other.symm

/-! ## Presence -/

theorem Marked.solo_offline (marked : Marked db x) (agentId : ℕ) :
    (PresenceService.offline env core agentId).solo (.calm Any) (fun _ _ => Marked)
      ⟨none, seen⟩ db x := by
  refine Verified.solo_offline (fun _ => marked) fun db' presence left went => ⟨.inr trivial, ?_⟩
  have gone : Marked db' { x with presence } :=
    marked.congr (by rw [board_of_presence left.toPresenceChanged]) fun other isBusy => by
    rw [went.busy] at isBusy
    exact (List.mem_filter.1 isBusy).1
  exact fun active _ _ =>
    ⟨fun _ _ _ => gone, fun _ => gone, fun _ _ order seen' _ => gone.solo_reassign order.publicId⟩

theorem settles (env : Config) :
    Pool.Settles (.calm Any) Marked (fun _ _ _ => True) (code env) := by
  intro op db x marked _
  -- Operations that write no delivery leave the board as it is.
  have apart : ∀ {t : TableName} {ts : List TableName}, t ∈ ts → TableName.deliveries ∉ ts →
      t ≠ .deliveries :=
    fun among absent same => absent (same ▸ among)
  cases op with
  | placeOrder core customerId data =>
    exact solo_returning (marked.solo_elsewhere
      (harmless_placeOrder core customerId data fun w among => apart among (by decide)))
  | initPayment core orderPublicId customerId =>
    exact solo_map (marked.solo_elsewhere
      (harmless_init core orderPublicId customerId fun _ => nofun))
  | refund core paymentId amount reason =>
    exact solo_map (marked.solo_elsewhere
      (harmless_refund core paymentId amount reason fun w isLedger => by simp [isLedger]))
  | webhook payload signature signatureValid =>
    exact solo_returning (marked.solo_elsewhere
      (harmless_process payload signature signatureValid (fun _ _ _ _ => nofun)
      fun w among => apart among (by decide)))
  | recordPayout restaurantId amount currency idempotencyKey =>
    exact solo_map (marked.solo_elsewhere
      (harmless_recordPayout restaurantId amount currency idempotencyKey
      fun w among => apart among (by decide)))
  | updateOrderStatus core publicId target actor =>
    exact solo_map (marked.solo_updateOrderStatus publicId target actor)
  | assign core orderPublicId agentId =>
    exact solo_returning (solo_assign (fun _ ticks => marked.ticks ticks) fun order unassigned =>
      marked.mayBook (unserved_of_inactive unassigned.inactive))
  | tryAutoAssign core orderId =>
    exact solo_returning
      (solo_tryAutoAssign (fun _ ticks => marked.ticks ticks) fun order unassigned =>
      marked.mayBook (unserved_of_inactive unassigned.inactive))
  | reassign core orderPublicId => exact solo_returning (marked.solo_reassign orderPublicId)
  | updateDeliveryStatus core deliveryId actorUserId target =>
    exact solo_map (marked.solo_deliveryUpdateStatus deliveryId actorUserId target)
  | online agentId point =>
    refine solo_returning (solo_online marked fun db' presence changed went => ⟨.inr trivial, ?_⟩)
    -- Who goes online loses the mark, and the others keep it.
    refine marked.congr (by rw [board_of_presence changed]) fun other isBusy => ?_
    rw [went.busy] at isBusy
    exact (List.mem_filter.1 isBusy).1
  | offline core agentId => exact solo_returning (marked.solo_offline agentId)
  | ping agentId point =>
    refine solo_returning (solo_ping marked fun now presence _ _ sameBusy => ⟨.inr trivial, ?_⟩)
    exact marked.congr (by rw [board_of_presence (presenceChanged_update _ _ _)])
      fun other isBusy => sameBusy ▸ isBusy
  | sleep duration => exact solo_returning (solo_sure (marked.ticks ⟨later_sleep x duration, rfl⟩))

end

/-! ## Runs -/

/-- The rows and the marks agree as the board does. -/
theorem Marked.of_rows {db : Database} {x : Shared} (oneActive : OneActive.AtMostOneActive db)
    (noPhantoms : NoPhantoms db x.presence) : Marked db x where
  oneForEach id id' job job' found found' sameOrder active active' := by
    obtain ⟨a, isA, rfl⟩ := get_of_jobs found
    obtain ⟨b, isB, rfl⟩ := get_of_jobs found'
    have same := oneActive a (Table.get_mem isA) b (Table.get_mem isB) sameOrder active active'
    subst same
    exact RowKey.id.inj ((Table.get_key isA).symm.trans (Table.get_key isB))
  serving agentId isBusy isAgent := by
    obtain ⟨d, member, ofAgent, active⟩ := noPhantoms agentId isBusy isAgent
    exact ⟨d.id, jobOf d, jobs_of_get (Table.get_of_mem member), ofAgent, active⟩

/-- Between two calls the marks agree with the deliveries, whatever the calls. -/
theorem marked_of_reach {env : Config} {db : Database} {x : Shared} (start : Marked db x)
    {p : Region} (reached : Pool.Reach (code env) (OneByOne fun _ _ _ => True) (Pool.quiet db x) p)
    (idle : p.Idle = true) : Marked p.db p.side :=
  (Pool.between_of_reach (settles env) (Pool.Between.idle rfl start) reached).rests_of_idle idle

/-- Between two calls every agent marked busy has a delivery under way, whatever the calls. -/
theorem busy_agents_are_on_the_way (env : Config) (db : Database) (x : Shared)
    (oneActive : OneActive.AtMostOneActive db) (noPhantoms : NoPhantoms db x.presence) (p : Region)
    (reached : Pool.Reach (code env) (OneByOne fun _ _ _ => True) (Pool.quiet db x) p)
    (idle : p.Idle = true) : NoPhantoms p.db p.side.presence :=
  (marked_of_reach (.of_rows oneActive noPhantoms) reached idle).noPhantoms

/-- Agent 2 is assigned the order that is ready. -/
def assigned : List (Event Operation) :=
  .spawn (.assign Sample.core 100 (some 2)) :: List.replicate 11 (Sample.act 0)

theorem assigned_agent_is_on_the_way :
    ∃ p : Region, p.side.presence.busy = [2] ∧ NoPhantoms p.db p.side.presence := by
  have ran :
      (Pool.play (code Sample.env) (fun p e => decide (OneByOne (fun _ _ _ => True) p e)) assigned
      (Pool.quiet (Sample.db .ready) Sample.shared)).map (fun p => (p.side.presence.busy, p.Idle)) =
      some ([2], true) := by decide +kernel
  obtain ⟨p, played, facts⟩ := Option.map_eq_some_iff.1 ran
  simp only [Prod.mk.injEq] at facts
  refine ⟨p, facts.1, busy_agents_are_on_the_way Sample.env (Sample.db .ready) Sample.shared ?_ ?_ p
    (Pool.reach_of_play (fun _ _ => of_decide_eq_true) played) facts.2⟩
  · exact fun _ none => absurd none List.not_mem_nil
  · exact fun _ none => absurd none List.not_mem_nil

end BusyAgents

end SwiftBite.Verified
