import SwiftBite.Verified.Board

/-! # Agents with one delivery at a time

The automatic search believes the busy set, and only the deliveries table says who is on the
way.  Run one after another, the calls keep the two together as long as nobody goes online
with a delivery under way.
-/

set_option autoImplicit false

namespace SwiftBite.Verified.DoubleBooking

open Store Prog Statement Verified DeliveryService

/-- No agent has two deliveries under way. -/
def NoDoubleBooking (db : Database) : Prop :=
  ∀ a ∈ (db .deliveries).rows, ∀ b ∈ (db .deliveries).rows, a.agentId = b.agentId →
  a.status.active = true →
    b.status.active = true → a = b

/-- The search for an agent passes the agent over. -/
def Tracked (db : Database) (presence : Presence) (agentId : ℕ) : Prop :=
  agentId ∈ presence.busy ∨ (agentId ∉ presence.geo.map Prod.fst ∧ ¬Online db agentId)

/-- The busy set knows the agents who have a delivery under way, or nobody finds them. -/
structure Matched (db : Database) (x : Shared) : Prop where
  oneEach : (boardOf db).OneEach
  tracked : ∀ agentId, (boardOf db).Serving agentId → Tracked db x.presence agentId

/-! ## What keeps the stores together -/

section

variable {db db' : Database} {x x' : Shared} {agentId : ℕ} {presence : Presence}

theorem noDoubleBooking_of_oneEach (oneEach : (boardOf db).OneEach) : NoDoubleBooking db := by
  intro a inA b inB sameAgent activeA activeB
  have foundA := jobs_of_get (Table.get_of_mem inA)
  have foundB := jobs_of_get (Table.get_of_mem inB)
  have sameId : a.id = b.id :=
    oneEach a.id b.id (jobOf a) (jobOf b) foundA foundB sameAgent activeA activeB
  exact Table.eq_of_key inA inB (congrArg RowKey.id sameId)

theorem Tracked.of_tables (same : db' .agentPresence = db .agentPresence)
    (tracked : Tracked db presence agentId) : Tracked db' presence agentId := by
  simp only [Tracked, Online, presenceOf, same]
  exact tracked

theorem Tracked.of_geo {presence' : Presence} (geo : presence'.geo = presence.geo)
    (busy : agentId ∈ presence.busy → agentId ∈ presence'.busy)
    (tracked : Tracked db presence agentId) : Tracked db presence' agentId := by
  rw [Tracked, geo]
  exact tracked.imp_left busy

namespace Matched

theorem kept (matched : Matched db x) (fewer : (boardOf db').Fewer (boardOf db))
    (tracked : ∀ agentId, (boardOf db').Serving agentId → Tracked db x.presence agentId →
      Tracked db' x'.presence agentId) : Matched db' x' :=
  ⟨matched.oneEach.fewer fewer, fun agentId serving =>
    tracked agentId serving (matched.tracked agentId (serving.of_fewer fewer))⟩

theorem ticks (matched : Matched db x) (ticks : Ticks x x') : Matched db x' := by
  refine ⟨matched.oneEach, fun agentId serving => ?_⟩
  rw [ticks.presence]
  exact matched.tracked agentId serving

/-- Deliveries end, and the presence keys stay. -/
theorem tables (matched : Matched db x) (fewer : (boardOf db').Fewer (boardOf db))
    (same : db' .agentPresence = db .agentPresence) : Matched db' x :=
  matched.kept fewer fun _ _ tracked => tracked.of_tables same

/-- A delivery has ended, and its agent is marked free. -/
theorem freed (matched : Matched db x) (fewer : (boardOf db').Fewer (boardOf db))
    (same : db' .agentPresence = db .agentPresence) {id : ℕ} {job : Job}
    (found : (boardOf db).jobs id = some job) (active : job.status.active = true)
    (ended : ∀ job', (boardOf db').jobs id = some job' → job'.status.active = false)
    (isPresence : x'.presence = x.presence.srem job.agentId) : Matched db' x' := by
  have idle := matched.oneEach.idle fewer found active ended
  refine matched.kept fewer fun agentId serving tracked => ?_
  have other : agentId ≠ job.agentId := fun isAgent => idle (isAgent ▸ serving)
  rw [isPresence]
  refine Tracked.of_geo ?_ (fun isBusy => mem_busy_srem.2 ⟨isBusy, other⟩) (tracked.of_tables same)
  rfl

/-- Nobody whom the search finds has a delivery under way. -/
theorem not_serving (matched : Matched db x)
    (found : Nearby x.presence agentId ∨ FreeOf db agentId) : ¬(boardOf db).Serving agentId := by
  rcases found with ⟨located, notBusy⟩ | free
  · intro serving
    rcases matched.tracked agentId serving with isBusy | ⟨absent, _⟩
    · exact notBusy isBusy
    · exact absent located
  · exact freeOf_iff.1 free

end Matched

end

/-! ## Each call -/

/-- After every commit each agent has at most one delivery under way. -/
abbrev Commits : Database → Database → Prop := fun _ db' => (boardOf db').OneEach

/-- Whoever goes online has no delivery under way. -/
def EntersFree (db : Database) : Operation → Prop
  | .online agentId _ => FreeOf db agentId
  | _ => True

instance (db : Database) : DecidablePred (EntersFree db)
  | .online agentId _ => inferInstanceAs (Decidable (FreeOf db agentId))
  | .placeOrder .. | .updateOrderStatus .. | .initPayment .. | .refund .. | .webhook .. | .assign ..
  | .tryAutoAssign .. |
    .reassign .. | .updateDeliveryStatus .. | .offline .. | .ping .. | .recordPayout .. | .sleep
      .. => inferInstanceAs (Decidable True)

section

variable {db db' : Database} {x : Shared} {env : Config} {core : Core} {seen : List (Sigma RowOf)}

theorem Matched.mayBook (matched : Matched db x) (orderId : ℕ) :
    MayBook Commits orderId Matched db x := by
  intro delivery assignedAt updatedAt booked
  have idle := matched.not_serving booked.agent
  have isBoard : boardOf (db.applyAll (assignmentWrites delivery assignedAt updatedAt)) =
      (boardOf db).book delivery.id (jobOf delivery) := boardOf_booked booked.free
  have oneEach :
      (boardOf (db.applyAll (assignmentWrites delivery assignedAt updatedAt))).OneEach := by
    rw [isBoard]
    exact matched.oneEach.book idle
  refine ⟨.inr oneEach, fun x' _ isPresence _ => ⟨oneEach, fun agentId serving => ?_⟩⟩
  rw [isPresence]
  rw [isBoard] at serving
  rcases Board.serving_book serving with already | isAgent
  · have same : db.applyAll (assignmentWrites delivery assignedAt updatedAt) .agentPresence =
        db .agentPresence :=
      Db.applyAll_other (by simp [assignmentWrites, Write.table]) db
    exact ((matched.tracked agentId already).of_tables same).of_geo geo_sadd fun isBusy =>
      mem_busy_sadd.2 (.inr isBusy)
  · exact .inl (mem_busy_sadd.2 (.inl isAgent))

theorem Matched.mayReassign {order : Order} {previous : ℕ} (matched : Matched db x) :
    MayReassign Commits env core order previous Matched db x :=
  ⟨matched.mayBook order.id, fun _ _ ticks => matched.ticks ticks⟩

/-- The delivery's status after a step that ends it, or goes on with it. -/
theorem Matched.stepped (matched : Matched db x) {d : Delivery}
    (found : deliveryOf db d.id = some d) (status : DeliveryStatus) (stamp : Option ℕ)
    (already : status.active = true → d.status.active = true) :
    Matched (db.apply
      (.update TableName.deliveries (RowKey.id d.id) (Delivery.withStatus status stamp))) x := by
  refine matched.tables ?_ (Db.apply_update_ne db _ _ (by decide))
  rw [boardOf_updateDelivery]
  refine Board.fewer_setJob fun job isJob isActive => ?_
  cases (jobs_of_get found).symm.trans isJob
  exact already isActive

/-- The delivery is given up, and its agent is marked free. -/
theorem Matched.ended (matched : Matched db x) {d : Delivery} (found : deliveryOf db d.id = some d)
    (active : d.status.active = true) (status : DeliveryStatus) (stamp : Option ℕ)
    (ends : status.active = false) :
    Matched
      (db.apply (.update TableName.deliveries (RowKey.id d.id) (Delivery.withStatus status stamp)))
      { x with presence := x.presence.srem d.agentId } := by
  have isBoard := boardOf_updateDelivery db d.id status stamp
  have fewer : ((boardOf db).setJob d.id status).Fewer (boardOf db) :=
    Board.fewer_setJob fun _ _ isActive => absurd (ends.symm.trans isActive) Bool.false_ne_true
  refine matched.freed (isBoard ▸ fewer) (Db.apply_update_ne db _ _ (by decide))
    (jobs_of_get found) active (fun job' isJob' => ?_) rfl
  rw [isBoard] at isJob'
  obtain ⟨_, _, _, _, isStatus⟩ := Board.job_of_setJob isJob'
  rw [isStatus, if_pos rfl]
  exact ends

theorem Matched.solo_reassign (matched : Matched db x) (orderPublicId : ℕ) :
    (reassign env core orderPublicId).solo (.calm Commits) (fun _ _ => Matched)
      ⟨none, seen⟩ db x := by
  refine Verified.solo_reassign matched fun order active n stamp _ underWay _ _ => ?_
  have ended := matched.ended underWay.isDelivery underWay.active .reassigned stamp rfl
  exact ⟨.inr ended.oneEach, ended.mayReassign⟩

theorem Matched.solo_settleDelivery (matched : Matched db x) {d : Delivery}
    (found : deliveryOf db d.id = some d) (isPicked : d.status = .picked) :
    (settleDelivery env core d).solo (.calm Commits) (fun _ _ => Matched) ⟨none, seen⟩ db x := by
  refine Verified.solo_settleDelivery (Option.isSome_iff_exists.2 ⟨d, found⟩)
    (fun _ ticks => matched.ticks ticks)
    fun order branch db' _ settled => ?_
  have isBoard := boardOf_settled settled
  have fewer : (((boardOf db).setJob d.id .delivered).setOrder order.id .delivered).Fewer
      (boardOf db) :=
    (Board.fewer_setOrder _ _).trans (Board.fewer_setJob fun _ _ isActive => nomatch isActive)
  rw [← isBoard] at fewer
  refine ⟨.inr (matched.oneEach.fewer fewer), fun x' _ isPresence => ?_⟩
  refine matched.freed fewer (settled.others _ (by decide))
    (jobs_of_get found) (by rw [jobOf, isPicked]; rfl) (fun job' isJob' => ?_)
    isPresence
  rw [isBoard, Board.jobs_setOrder] at isJob'
  obtain ⟨_, _, _, _, isStatus⟩ := Board.job_of_setJob isJob'
  rw [isStatus, if_pos rfl]
  rfl

/-- A request of the agent moves the delivery on, or ends it. -/
theorem Matched.solo_deliveryUpdateStatus (matched : Matched db x) (deliveryId actorUserId : ℕ)
    (target : DeliveryStatus) :
    (DeliveryService.updateStatus env core deliveryId actorUserId target).solo (.calm Commits)
      (fun _ _ => Matched) ⟨none, seen⟩ db x := by
  refine Verified.solo_deliveryUpdateStatus matched
    (fun d found isPicked seen' => matched.solo_settleDelivery found isPicked)
    fun d stamp _ found _ isLegal _ => ?_
  have staysUnderWay : target.active = true → d.status.active = true := by
    revert isLegal
    cases d.status <;> cases target <;> decide
  have stepped := matched.stepped found target stamp staysUnderWay
  refine ⟨.inr stepped.oneEach, fun seen' => ?_⟩
  unfold afterStatus
  split
  next =>
    refine solo_returning
      (solo_applySystemStatusChange (fun row updatedAt stamp' _ => ?_) fun _ => stepped)
    have picked := stepped.tables (x := x)
      (boardOf_updateOrder _ d.orderId .picked updatedAt stamp' ▸ Board.fewer_setOrder _ _)
      (Db.apply_update_ne _ _ _ (by decide))
    exact ⟨.inr picked.oneEach, picked⟩
  next =>
    split
    next isRejected =>
      subst isRejected
      have active : d.status.active = true := by
        revert isLegal
        cases d.status <;> decide
      have ended := matched.ended found active .rejected stamp rfl
      exact solo_do (solo_orElse_redis (solo_tryReassignAfterRejection (fun _ => ended) fun _ _ =>
        ended.mayReassign))
    next => exact stepped

theorem Matched.solo_updateOrderStatus (matched : Matched db x) (publicId : ℕ)
    (target : OrderStatus) (actor : RequestActor) :
    (OrderService.updateStatus core publicId target actor).solo (.calm Commits) (fun _ _ => Matched)
      ⟨none, seen⟩ db x := by
  refine Verified.solo_updateOrderStatus (fun _ ticks => matched.ticks ticks)
    fun order listed db' _ _ _ written => ?_
  have moved : Matched db' x :=
    matched.tables (boardOf_written written ▸ Board.fewer_setOrder _ _)
      (written.others _ (by decide) (by decide))
  refine ⟨.inr moved.oneEach, fun x' seen' ticks => ?_⟩
  have waits := moved.ticks ticks
  refine solo_releaseDelivery (fun _ => waits) fun _ _ db'' released => ?_
  have fewer : (boardOf db'').Fewer (boardOf db') :=
    boardOf_released released ▸ Board.fewer_release _
  have same : db'' .agentPresence = db' .agentPresence := released.others _ (by decide)
  refine ⟨.inr (waits.oneEach.fewer fewer), fun presence freed => ?_⟩
  rcases freed with rfl | ⟨d, member, isOrder, active, rfl⟩
  · exact waits.tables fewer same
  · refine waits.freed fewer same (jobs_of_get (Table.get_of_mem member)) active
      (fun job' isJob' => ?_) rfl
    rw [boardOf_released released] at isJob'
    obtain ⟨job, isJob, _, _, isStatus⟩ := Board.job_of_release isJob'
    cases (jobs_of_get (Table.get_of_mem member)).symm.trans isJob
    rw [isStatus, if_pos ⟨isOrder, active⟩]
    rfl

/-! ### Presence -/

theorem Tracked.of_changed {agentId other : ℕ} {presence : Presence}
    (changed : PresenceChanged agentId db db') (different : other ≠ agentId)
    (tracked : Tracked db presence other) : Tracked db' presence other := by
  simp only [Tracked, Online, changed.rows other different]
  exact tracked

theorem Matched.solo_online (matched : Matched db x) {agentId : ℕ} (free : FreeOf db agentId)
    (point : Point) :
    (PresenceService.online agentId point).solo (.calm Commits) (fun _ _ => Matched)
      ⟨none, seen⟩ db x := by
  refine Verified.solo_online matched fun db' presence changed went => ?_
  have isBoard := board_of_presence changed
  have entered : Matched db' { x with presence } := by
    refine matched.kept (.of_jobs (by rw [isBoard])) fun other serving tracked => ?_
    rw [isBoard] at serving
    have different : other ≠ agentId := fun same => freeOf_iff.1 free (same ▸ serving)
    obtain ⟨point', isGeo⟩ := went.geo
    rcases tracked.of_changed changed different with isBusy | ⟨absent, offline⟩
    · exact .inl (by simp [went.busy, isBusy, different])
    · refine .inr ⟨fun located => absent ?_, offline⟩
      rw [isGeo, List.map_cons, List.mem_cons, mem_agents_filter] at located
      exact (located.resolve_left different).1
  exact ⟨.inr entered.oneEach, entered⟩

theorem Matched.solo_ping (matched : Matched db x) (agentId : ℕ) (point : Point) :
    (PresenceService.ping agentId point).solo (.calm Commits) (fun _ _ => Matched)
      ⟨none, seen⟩ db x := by
  refine Verified.solo_ping matched fun now presence isOnline isGeo isBusy => ?_
  have changed := presenceChanged_update db agentId (AgentPresence.move point now)
  have isBoard := board_of_presence changed
  have pinged : Matched (db.apply
      (.update TableName.agentPresence (RowKey.id agentId) (AgentPresence.move point now)))
      { x with presence } := by
    refine matched.kept (.of_jobs (by rw [isBoard])) fun other serving tracked => ?_
    by_cases same : other = agentId
    · -- Only an agent who is online pings, and such an agent is tracked by the busy set.
      subst same
      rcases tracked with marked | ⟨_, offline⟩
      · exact .inl (isBusy ▸ marked)
      · exact absurd isOnline offline
    · rcases tracked.of_changed changed same with marked | ⟨absent, offline⟩
      · exact .inl (isBusy ▸ marked)
      · refine .inr ⟨fun located => absent ?_, offline⟩
        rw [isGeo, List.map_cons, List.mem_cons, mem_agents_filter] at located
        exact (located.resolve_left same).1
  exact ⟨.inr pinged.oneEach, pinged⟩

theorem Matched.solo_offline (matched : Matched db x) (agentId : ℕ) :
    (PresenceService.offline env core agentId).solo (.calm Commits) (fun _ _ => Matched)
      ⟨none, seen⟩ db x := by
  refine Verified.solo_offline (fun _ => matched) fun db' presence left went => ?_
  have isBoard := board_of_presence left.toPresenceChanged
  have gone : Matched db' { x with presence } := by
    refine matched.kept (.of_jobs (by rw [isBoard])) fun other _ tracked => ?_
    have geo : other ∈ presence.geo.map Prod.fst →
        other ∈ x.presence.geo.map Prod.fst ∧ other ≠ agentId := by
      rw [went.geo]
      exact mem_agents_filter.1
    by_cases same : other = agentId
    · subst same
      exact .inr ⟨fun located => (geo located).2 rfl, left.offline⟩
    · rcases tracked.of_changed left.toPresenceChanged same with marked | ⟨absent, offline⟩
      · exact .inl (by simp [went.busy, marked, same])
      · exact .inr ⟨fun located => absent (geo located).1, offline⟩
  exact ⟨.inr gone.oneEach,
    fun active _ _ => ⟨fun _ _ _ => gone, fun _ => gone, fun _ _ order seen' _ =>
    gone.solo_reassign order.publicId⟩⟩

theorem settles (env : Config) :
    Pool.Settles (.calm Commits) Matched (fun op db _ => Dispatches op ∧ EntersFree db op)
      (code env) := by
  rintro op db x matched ⟨dispatches, enters⟩
  cases op with
  | placeOrder core customerId data => exact dispatches.elim
  | updateOrderStatus core publicId target actor =>
    exact solo_map (matched.solo_updateOrderStatus publicId target actor)
  | initPayment core orderPublicId customerId => exact dispatches.elim
  | refund core paymentId amount reason => exact dispatches.elim
  | webhook payload signature signatureValid => exact dispatches.elim
  | assign core orderPublicId agentId =>
    exact solo_returning (solo_assign (fun _ ticks => matched.ticks ticks) fun order _ =>
      matched.mayBook order.id)
  | tryAutoAssign core orderId =>
    exact solo_returning (solo_tryAutoAssign (fun _ ticks => matched.ticks ticks) fun order _ =>
      matched.mayBook order.id)
  | reassign core orderPublicId => exact solo_returning (matched.solo_reassign orderPublicId)
  | updateDeliveryStatus core deliveryId actorUserId target =>
    exact solo_map (matched.solo_deliveryUpdateStatus deliveryId actorUserId target)
  | online agentId point => exact solo_returning (matched.solo_online enters point)
  | offline core agentId => exact solo_returning (matched.solo_offline agentId)
  | ping agentId point => exact solo_returning (matched.solo_ping agentId point)
  | recordPayout restaurantId amount currency idempotencyKey => exact dispatches.elim
  | sleep duration => exact solo_returning (solo_sure (matched.ticks ⟨later_sleep x duration, rfl⟩))

end

/-! ## Runs -/

/-- No agent ever has two deliveries under way, in any run from a state. -/
def AlwaysOneEach (env : Config) (allowed : Region → Event Operation → Prop)
    (start : Region) : Prop :=
  ∀ p, Pool.Reach (code env) allowed start p → NoDoubleBooking p.db

theorem agents_have_one_delivery_unless_one_goes_online_on_the_way (env : Config) (db : Database)
    (x : Shared) (matched : Matched db x) :
    AlwaysOneEach env (OneByOne fun op db _ => Dispatches op ∧ EntersFree db op)
      (Pool.quiet db x) := by
  intro p reached
  have begins : Pool.Between (.calm Commits) Matched (Pool.quiet db x : Region) := .idle rfl matched
  exact noDoubleBooking_of_oneEach
    (Pool.always_of_reach (A := fun db => (boardOf db).OneEach) (settles env)
    (fun _ _ oneEach => oneEach) begins matched.oneEach reached)

/-- Two orders wait for an agent, and agent 2 is the only one nearby. -/
def twoReady : Database :=
  (Sample.db .ready).apply (.insert TableName.orders { Sample.order .ready with
    id := 2, publicId := 101 } : SqlWrite)

def oneNearby : Shared := { Sample.shared with presence := ⟨[(2, ⟨0, 0⟩)], [], []⟩ }

theorem matched_of_no_deliveries {db : Database} {x : Shared}
    (none : (db .deliveries).rows = []) : Matched db x := by
  have noJob : ∀ id job, (boardOf db).jobs id ≠ some job := by
    intro id job found
    obtain ⟨d, isDelivery, _⟩ := get_of_jobs found
    have member := Table.get_mem isDelivery
    rw [none] at member
    cases member
  exact ⟨fun id _ job _ found => absurd found (noJob id job),
    fun _ ⟨id, job, found, _⟩ => absurd found (noJob id job)⟩

/-- The agent is given the first order, and nobody is found for the second. -/
def bothDispatched : List (Event Operation) :=
  .spawn (.tryAutoAssign Sample.core 1) :: List.replicate 12 (Sample.act 0) ++
  .spawn (.tryAutoAssign Sample.core 2) :: List.replicate 5 (Sample.act 1)

theorem agent_nearby_has_one_delivery :
    ∃ p, Pool.Reach (code Sample.env) (OneByOne fun op db _ => Dispatches op ∧ EntersFree db op)
      (Pool.quiet twoReady oneNearby) p ∧
      p.Idle = true ∧ (p.db .deliveries).rows.map
        (fun row : Delivery => (row.orderId, row.agentId, row.status)) = [(1, 2, .assigned)] ∧
      NoDoubleBooking p.db := by
  have played : (Pool.play (code Sample.env)
      (fun p e => decide (OneByOne (fun op db _ => Dispatches op ∧ EntersFree db op) p e))
      bothDispatched (Pool.quiet twoReady oneNearby)).map
        (fun p => (p.Idle, (p.db .deliveries).rows.map fun row : Delivery =>
        (row.orderId, row.agentId, row.status))) =
      some (true, [(1, 2, .assigned)]) := by decide +kernel
  obtain ⟨p, isRun, isEnd⟩ := Option.map_eq_some_iff.1 played
  simp only [Prod.mk.injEq] at isEnd
  have reached : Pool.Reach (code Sample.env) (OneByOne fun op db _ => Dispatches op ∧
      EntersFree db op) (Pool.quiet twoReady oneNearby) p :=
    Pool.reach_of_play (fun _ _ => of_decide_eq_true) isRun
  exact ⟨p, reached, isEnd.1, isEnd.2,
    agents_have_one_delivery_unless_one_goes_online_on_the_way Sample.env twoReady oneNearby
      (matched_of_no_deliveries rfl) p reached⟩

/-! ### An agent who goes online on the way -/

/-- The agent goes online with the first order on the way, and the second is assigned to the same
agent. -/
def onlineOnTheWay : List (Event Operation) :=
  .spawn (.tryAutoAssign Sample.core 1) :: List.replicate 12 (Sample.act 0) ++
  .spawn (.online 2 ⟨0, 0⟩) :: List.replicate 6 (Sample.act 1) ++
  .spawn (.tryAutoAssign Sample.core 2) :: List.replicate 12 (Sample.act 2)

theorem agent_online_on_the_way_is_booked_twice :
    Matched twoReady oneNearby ∧ ¬ AlwaysOneEach Sample.env (OneByOne fun op _ _ => Dispatches op)
      (Pool.quiet twoReady oneNearby) := by
  refine ⟨matched_of_no_deliveries rfl, fun always => ?_⟩
  have two : (Pool.play (code Sample.env)
      (fun p e => decide (OneByOne (fun op _ _ => Dispatches op) p e)) onlineOnTheWay
      (Pool.quiet twoReady oneNearby)).map (fun p =>
        (p.db .deliveries).rows.map fun row : Delivery => (row.id, row.agentId, row.status)) =
      some [(10, 2, .assigned), (11, 2, .assigned)] := by decide +kernel
  obtain ⟨p, played, isTwo⟩ := Option.map_eq_some_iff.1 two
  have one := always p (Pool.reach_of_play (fun _ _ => of_decide_eq_true) played)
  obtain ⟨a, rest, isRows, isTen, isRest⟩ := List.map_eq_cons_iff.1 isTwo
  obtain ⟨b, _, rfl, isEleven, _⟩ := List.map_eq_cons_iff.1 isRest
  simp only [Prod.mk.injEq] at isTen isEleven
  have same := one a (by simp [isRows]) b (by simp [isRows]) (by rw [isTen.2.1, isEleven.2.1])
    (by rw [isTen.2.2]; rfl) (by rw [isEleven.2.2]; rfl)
  rw [same, isEleven.1] at isTen
  cases isTen.1

end SwiftBite.Verified.DoubleBooking
