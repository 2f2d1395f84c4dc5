import SwiftBite.Verified.DoubleBooking

/-! # Candidates from Redis and from PostgreSQL

An assignment asks Redis for agents nearby, and PostgreSQL only when Redis has nobody.  The
two are fed by the same calls: run one after another, these keep the positions in Redis equal
to those of the agents who are online.  But only PostgreSQL asks when an agent was heard of
last.
-/

set_option autoImplicit false

namespace SwiftBite.Verified.RedisScan

open Store Prog Statement Verified DeliveryService

/-- A call, made while no other is under way, returns a value of this kind. -/
def Returns {α : Type} (call : Service α) (p : Region) (kind : α → Prop) : Prop :=
  call.solo (.calm fun _ _ => False) (fun result _ _ _ => ∃ value, result = .ok value ∧ kind value)
    .start p.db p.side

/-- Whomever Redis finds PostgreSQL finds too, given enough room in its answer. -/
def Refines (env : Config) (p : Region) : Prop :=
  ∀ centre limit, Returns (findNearbyOnlineAgents env centre limit) p fun agents =>
    ∀ c ∈ agents, ∃ room, Returns (findCandidateAgents .pool env centre room) p fun candidates =>
      c ∈ candidates

/-- Every agent with a position in Redis and no busy mark was heard of in the last 90 seconds. -/
def Heard (p : Region) : Prop :=
  ∀ entry ∈ p.side.presence.geo, entry.1 ∉ p.side.presence.busy →
  ∀ ap, presenceOf p.db entry.1 = some ap →
    p.side.now < ap.lastSeenAt + 90000000

/-- The positions in Redis are those of agents who are online. -/
def Located (db : Database) (x : Shared) : Prop :=
  ∀ entry ∈ x.presence.geo, ∃ ap, presenceOf db entry.1 = some ap ∧ ap.isOnline = true ∧
  ap.lastLat = some entry.2.lat ∧
    ap.lastLng = some entry.2.lng

/-! ## The positions -/

section

variable {db db' : Database} {x x' : Shared} {env : Config} {core : Core}
  {seen : List (Sigma RowOf)}

namespace Located

theorem kept (located : Located db x) (same : db' .agentPresence = db .agentPresence)
    (geo : x'.presence.geo = x.presence.geo) : Located db' x' := by
  intro entry member
  rw [geo] at member
  obtain ⟨ap, found, rest⟩ := located entry member
  exact ⟨ap, by rw [presenceOf, same]; exact found, rest⟩

theorem ticks (located : Located db x) (ticks : Ticks x x') : Located db x' :=
  located.kept rfl (by rw [ticks.presence])

/-- The agent's own row has changed, and the agent's position is the one in the row. -/
theorem placed (located : Located db x) {agentId : ℕ} {point : Point}
    (changed : PresenceChanged agentId db db') {presence : Presence}
    (isGeo : presence.geo = (agentId, point) :: x.presence.geo.filter fun entry =>
      entry.1 ≠ agentId) {ap : AgentPresence} (found : presenceOf db' agentId = some ap)
    (online : ap.isOnline = true) (lat : ap.lastLat = some point.lat)
    (lng : ap.lastLng = some point.lng) : Located db' { x with presence } := by
  intro entry member
  rw [isGeo, List.mem_cons, List.mem_filter] at member
  rcases member with rfl | ⟨member, other⟩
  · exact ⟨ap, found, online, lat, lng⟩
  · rw [changed.rows entry.1 (by simpa using other)]
    exact located entry member

theorem mayBook (located : Located db x) (orderId : ℕ) :
    MayBook (fun _ _ => True) orderId Located db x := by
  intro delivery assignedAt updatedAt _
  refine ⟨.inr trivial, fun x' _ isPresence _ => located.kept ?_ (by rw [isPresence, geo_sadd])⟩
  exact Db.applyAll_other (by simp [assignmentWrites, Write.table]) db

theorem mayReassign (located : Located db x) {order : Order} {previous : ℕ} :
    MayReassign (fun _ _ => True) env core order previous Located db x :=
  ⟨located.mayBook order.id, fun _ _ ticks => located.ticks ticks⟩

theorem solo_reassign (located : Located db x) (orderPublicId : ℕ) :
    (reassign env core orderPublicId).solo (.calm fun _ _ => True) (fun _ _ => Located)
      ⟨none, seen⟩ db x := by
  refine Verified.solo_reassign located fun order active n stamp _ _ _ _ => ⟨.inr trivial, ?_⟩
  have given : Located (db.apply
      (.update TableName.deliveries (RowKey.id active.id) (Delivery.withStatus .reassigned stamp)))
      { x with presence := x.presence.srem active.agentId } :=
        located.kept (Db.apply_update_ne db _ _ (by decide)) rfl
  exact given.mayReassign

theorem solo_settleDelivery (located : Located db x) {d : Delivery}
    (found : deliveryOf db d.id = some d) :
    (settleDelivery env core d).solo (.calm fun _ _ => True) (fun _ _ => Located)
      ⟨none, seen⟩ db x := by
  refine Verified.solo_settleDelivery (Option.isSome_iff_exists.2 ⟨d, found⟩)
    (fun _ ticks => located.ticks ticks)
    fun order branch db' _ settled => ⟨.inr trivial, fun x' _ isPresence => ?_⟩
  exact located.kept (settled.others _ (by decide)) (by rw [isPresence]; rfl)

theorem solo_deliveryUpdateStatus (located : Located db x) (deliveryId actorUserId : ℕ)
    (target : DeliveryStatus) :
    (DeliveryService.updateStatus env core deliveryId actorUserId target).solo
      (.calm fun _ _ => True) (fun _ _ => Located)
      ⟨none, seen⟩ db x := by
  refine Verified.solo_deliveryUpdateStatus located
    (fun d found _ seen' => located.solo_settleDelivery found)
    fun d stamp _ found _ _ _ => ⟨.inr trivial, fun seen' => ?_⟩
  have stepped : Located (db.apply
      (.update TableName.deliveries (RowKey.id d.id) (Delivery.withStatus target stamp))) x :=
    located.kept (Db.apply_update_ne db _ _ (by decide)) rfl
  unfold afterStatus
  split
  next =>
    refine solo_returning (solo_applySystemStatusChange
      (fun row updatedAt stamp' _ => ⟨.inr trivial, ?_⟩) fun _ => stepped)
    exact stepped.kept (Db.apply_update_ne _ _ _ (by decide)) rfl
  next =>
    split
    next =>
      have freed : Located (db.apply
          (.update TableName.deliveries (RowKey.id d.id) (Delivery.withStatus target stamp)))
          { x with presence := x.presence.srem d.agentId } := stepped.kept rfl rfl
      exact solo_do (solo_orElse_redis (solo_tryReassignAfterRejection (fun _ => freed) fun _ _ =>
        freed.mayReassign))
    next => exact stepped

theorem solo_updateOrderStatus (located : Located db x) (publicId : ℕ) (target : OrderStatus)
    (actor : RequestActor) :
    (OrderService.updateStatus core publicId target actor).solo (.calm fun _ _ => True)
      (fun _ _ => Located) ⟨none, seen⟩ db x := by
  refine Verified.solo_updateOrderStatus (fun _ ticks => located.ticks ticks)
    fun order listed db' _ _ _ written => ?_
  refine ⟨.inr trivial, fun x' seen' ticks => ?_⟩
  have moved : Located db' x' :=
    (located.ticks ticks).kept (written.others _ (by decide) (by decide)) rfl
  refine solo_releaseDelivery (fun _ => moved) fun _ _ db'' released =>
    ⟨.inr trivial, fun presence freed => ?_⟩
  refine moved.kept (released.others _ (by decide)) ?_
  rcases freed with rfl | ⟨d, _, _, _, rfl⟩ <;> rfl

theorem solo_online (located : Located db x) (agentId : ℕ) (point : Point) :
    (PresenceService.online agentId point).solo (.calm fun _ _ => True) (fun _ _ => Located)
      ⟨none, seen⟩ db x := by
  refine Verified.solo_online_at located fun db' presence came isGeo _ => ⟨.inr trivial, ?_⟩
  obtain ⟨ap, found, online, lat, lng⟩ := came.row
  exact located.placed came.toPresenceChanged isGeo found online lat lng

theorem solo_ping (located : Located db x) (agentId : ℕ) (point : Point) :
    (PresenceService.ping agentId point).solo (.calm fun _ _ => True) (fun _ _ => Located)
      ⟨none, seen⟩ db x := by
  refine Verified.solo_ping located fun now presence isOnline isGeo _ => ⟨.inr trivial, ?_⟩
  obtain ⟨row, found, online⟩ := isOnline
  have moved : presenceOf (db.apply (.update TableName.agentPresence (RowKey.id agentId)
      (AgentPresence.move point now))) agentId =
      some (AgentPresence.move point now row) := by
    rw [presenceOf, Db.apply_update_self]
    exact Table.get_modify_self found rfl rfl
  exact located.placed (presenceChanged_update _ _ _) isGeo moved online rfl rfl

theorem solo_offline (located : Located db x) (agentId : ℕ) :
    (PresenceService.offline env core agentId).solo (.calm fun _ _ => True) (fun _ _ => Located)
      ⟨none, seen⟩ db x := by
  refine Verified.solo_offline (fun _ => located) fun db' presence left went => ?_
  have gone : Located db' { x with presence } := by
    intro entry member
    rw [went.geo, List.mem_filter] at member
    rw [left.rows entry.1 (by simpa using member.2)]
    exact located entry member.1
  exact ⟨.inr trivial, fun active _ _ =>
    ⟨fun _ _ _ => gone, fun _ => gone, fun _ _ order seen' _ => gone.solo_reassign order.publicId⟩⟩

end Located

theorem located_settles (env : Config) :
    Pool.Settles (.calm fun _ _ => True) Located
      (fun op db _ => Dispatches op ∧ DoubleBooking.EntersFree db op) (code env) := by
  rintro op db x located ⟨dispatches, _⟩
  cases op with
  | placeOrder core customerId data => exact dispatches.elim
  | updateOrderStatus core publicId target actor =>
    exact solo_map (located.solo_updateOrderStatus publicId target actor)
  | initPayment core orderPublicId customerId => exact dispatches.elim
  | refund core paymentId amount reason => exact dispatches.elim
  | webhook payload signature signatureValid => exact dispatches.elim
  | assign core orderPublicId agentId =>
    exact solo_returning (solo_assign (fun _ ticks => located.ticks ticks) fun order _ =>
      located.mayBook order.id)
  | tryAutoAssign core orderId =>
    exact solo_returning (solo_tryAutoAssign (fun _ ticks => located.ticks ticks) fun order _ =>
      located.mayBook order.id)
  | reassign core orderPublicId => exact solo_returning (located.solo_reassign orderPublicId)
  | updateDeliveryStatus core deliveryId actorUserId target =>
    exact solo_map (located.solo_deliveryUpdateStatus deliveryId actorUserId target)
  | online agentId point => exact solo_returning (located.solo_online agentId point)
  | offline core agentId => exact solo_returning (located.solo_offline agentId)
  | ping agentId point => exact solo_returning (located.solo_ping agentId point)
  | recordPayout restaurantId amount currency idempotencyKey => exact dispatches.elim
  | sleep duration => exact solo_returning (solo_sure (located.ticks ⟨later_sleep x duration, rfl⟩))

end

/-! ## What the two searches find -/

section

variable {env : Config} {db : Database} {x : Shared}

/-- Room for everybody among the answers. -/
theorem mem_collectFree_of_free {busy : List ℕ} {limit : ℕ} {raw candidates : List CandidateAgent}
    {c : CandidateAgent} (room : candidates.length + raw.length ≤ limit)
    (among : c ∈ candidates ∨ (c ∈ raw ∧ c.agentId ∉ busy)) :
    c ∈ collectFree busy limit raw candidates := by
  induction raw generalizing candidates with
  | nil => exact among.resolve_right fun inRest => absurd inRest.1 List.not_mem_nil
  | cons next raw inductionHypothesis =>
    simp only [List.length_cons] at room
    simp only [collectFree]
    split
    next isBusy =>
      refine inductionHypothesis (by omega) (among.imp_right fun waiting => ⟨?_, waiting.2⟩)
      rcases List.mem_cons.1 waiting.1 with rfl | later
      · exact absurd isBusy waiting.2
      · exact later
    next =>
      have onward : c ∈ candidates ++ [next] ∨ (c ∈ raw ∧ c.agentId ∉ busy) := by
        rcases among with old | ⟨member, free⟩
        · exact .inl (List.mem_append_left _ old)
        · rcases List.mem_cons.1 member with rfl | later
          · exact .inl (by simp)
          · exact .inr ⟨later, free⟩
      split
      next full =>
        -- The last answer fills the list.
        simp only [List.length_append, List.length_singleton] at full
        have last : raw = [] := List.length_eq_zero_iff.1 (by omega)
        subst last
        exact onward.resolve_right fun inRest => absurd inRest.1 List.not_mem_nil
      next =>
        exact inductionHypothesis (by simp only [List.length_append, List.length_singleton]; omega)
          onward

/-- Everybody within the radius who is not busy is found, given enough room. -/
theorem found_of_geo {geo : List (ℕ × Point)} {busy : List ℕ} {centre point : Point} {agentId : ℕ}
    (placed : (agentId, point) ∈ geo) (near : env.geoDistance centre point ≤ env.radiusMeters)
    (free : agentId ∉ busy) :
    ⟨agentId, env.geoDistance centre point⟩ ∈
      collectFree busy geo.length (env.geosearch geo centre (geo.length + busy.length)) [] := by
  let all : List CandidateAgent :=
    (geo.map fun entry => ⟨entry.1, env.geoDistance centre entry.2⟩).filter
    fun candidate => candidate.distanceMeters ≤ env.radiusMeters
  have few : (all.insertionSort env.nearer).length ≤ geo.length := by
    rw [List.length_insertionSort]
    exact (List.length_filter_le _ _).trans (by simp)
  have isAll : env.geosearch geo centre (geo.length + busy.length) = all.insertionSort env.nearer :=
    List.take_of_length_le (few.trans (Nat.le_add_right _ _))
  rw [isAll]
  refine mem_collectFree_of_free (by simpa using few) (.inr ⟨?_, free⟩)
  rw [List.mem_insertionSort, List.mem_filter]
  exact ⟨List.mem_map_of_mem placed, by simpa using near⟩

theorem geo_of_found {geo : List (ℕ × Point)} {busy : List ℕ} {centre : Point} {limit count : ℕ}
    {c : CandidateAgent} (found : c ∈ collectFree busy limit (env.geosearch geo centre count) []) :
    ∃ entry ∈ geo, c = ⟨entry.1, env.geoDistance centre entry.2⟩ ∧
    c.distanceMeters ≤ env.radiusMeters ∧ entry.1 ∉ busy := by
  rcases mem_collectFree found with impossible | ⟨among, free⟩
  · cases impossible
  · have located := List.mem_of_mem_take among
    rw [List.mem_insertionSort, List.mem_filter, List.mem_map] at located
    obtain ⟨⟨entry, member, rfl⟩, near⟩ := located
    exact ⟨entry, member, rfl, by simpa using near, free⟩

/-- Everybody whom PostgreSQL could name, before they are sorted. -/
def scanned (env : Config) (db : Database) (now : ℕ) (pickup : Point) : List CandidateAgent :=
  (((db .agentPresence).rows.filter fun ap : AgentPresence =>
    ap.isOnline && decide (now < ap.lastSeenAt + 90000000)).filterMap
    fun ap : AgentPresence =>
      match ap.lastLat, ap.lastLng with
      | some lat, some lng => some (⟨ap.agentId, env.stDistance pickup ⟨lat, lng⟩⟩ : CandidateAgent)
      | _, _ =>
        none).filter fun candidate => decide (candidate.distanceMeters ≤ env.radiusMeters) &&
        !(db .deliveries).rows.any fun d : Delivery =>
          d.agentId = candidate.agentId && d.status.active

/-- The conditions of the query. -/
theorem mem_scanned {now : ℕ} {pickup : Point} {c : CandidateAgent} :
    c ∈ scanned env db now pickup ↔
      (∃ ap ∈ (db .agentPresence).rows, AgentPresence.isOnline ap = true ∧
        now < ap.lastSeenAt + 90000000 ∧
        ∃ lat lng, ap.lastLat = some lat ∧ ap.lastLng = some lng ∧
        c = ⟨ap.agentId, env.stDistance pickup ⟨lat, lng⟩⟩) ∧
      c.distanceMeters ≤ env.radiusMeters ∧ FreeOf db c.agentId := by
  have free : (!(db .deliveries).rows.any fun d : Delivery =>
      d.agentId = c.agentId && d.status.active) = true ↔ FreeOf db c.agentId := by
    simp [FreeOf]
  rw [scanned, List.mem_filter, Bool.and_eq_true, free, decide_eq_true_eq, List.mem_filterMap]
  constructor
  · rintro ⟨⟨ap, member, isCandidate⟩, conditions⟩
    simp only [List.mem_filter, Bool.and_eq_true, decide_eq_true_eq] at member
    split at isCandidate
    next lat lng isLat isLng =>
      exact ⟨⟨ap, member.1, member.2.1, member.2.2, lat, lng, isLat, isLng,
        (Option.some.inj isCandidate).symm⟩, conditions⟩
    next => cases isCandidate
  · rintro ⟨⟨ap, member, online, lately, lat, lng, isLat, isLng, rfl⟩, conditions⟩
    refine ⟨⟨ap, List.mem_filter.2 ⟨member, by simp [online, lately]⟩, ?_⟩, conditions⟩
    simp only [isLat, isLng]

end

section

variable {env : Config} {p : Region} {centre : Point}

theorem returns_findCandidateAgents {room : ℕ} {kind : List CandidateAgent → Prop} :
    Returns (findCandidateAgents .pool env centre room) p kind ↔
      kind (((scanned env p.db p.side.now centre).insertionSort env.nearer).take room) := by
  constructor
  · intro returns
    obtain ⟨_, candidates, isCandidates, holds⟩ := returns.1 _ List.mem_cons_self
    cases isCandidates
    exact holds
  · exact fun holds => solo_select fun _ => ⟨_, rfl, holds⟩

theorem returns_findNearbyOnlineAgents {limit : ℕ} {kind : List CandidateAgent → Prop} :
    Returns (findNearbyOnlineAgents env centre limit) p kind ↔
      kind (collectFree p.side.presence.busy limit
        (env.geosearch p.side.presence.geo centre (limit + p.side.presence.busy.length)) []) := by
  constructor
  · rintro ⟨⟨⟨agents, isAgents, holds⟩, _⟩, _⟩
    cases isAgents
    exact holds
  · exact fun holds => solo_findNearbyOnlineAgents ⟨_, rfl, holds⟩

/-- Redis names only whom PostgreSQL could name. -/
theorem refines_iff :
    Refines env p ↔ ∀ centre limit, ∀ c ∈ collectFree p.side.presence.busy limit
    (env.geosearch p.side.presence.geo centre (limit + p.side.presence.busy.length)) [],
      c ∈ scanned env p.db p.side.now centre := by
  simp only [Refines, returns_findCandidateAgents, returns_findNearbyOnlineAgents]
  refine forall_congr' fun centre => forall_congr' fun limit => forall_congr' fun c =>
    imp_congr_right fun _ => ⟨?_, fun among => ?_⟩
  · exact fun ⟨_, taken⟩ => (List.mem_insertionSort _).1 (List.mem_of_mem_take taken)
  · have sorted := (List.mem_insertionSort env.nearer).2 among
    exact ⟨_, by rw [List.take_length]; exact sorted⟩

end

/-! ## Runs -/

/-- The stores agree on the deliveries under way and on the positions. -/
def Agreed (db : Database) (x : Shared) : Prop := DoubleBooking.Matched db x ∧ Located db x

/-- Both stores measure alike, and nobody is outside the radius of the own position. -/
structure OneMetric (env : Config) : Prop where
  same : env.stDistance = env.geoDistance
  near : ∀ point, env.geoDistance point point ≤ env.radiusMeters

theorem heard_of_refines {env : Config} (metric : OneMetric env) {p : Region}
    (refines : Refines env p) : Heard p := by
  intro entry placed free ap isRow
  have found := refines_iff.1 refines entry.2 _ _ (found_of_geo placed (metric.near entry.2) free)
  obtain ⟨⟨ap', member, _, lately, lat, lng, _, _, isCandidate⟩, _⟩ := mem_scanned.1 found
  have sameId : entry.1 = ap'.agentId := congrArg CandidateAgent.agentId isCandidate
  have isRow' := Table.get_of_mem member
  rw [show (key ap' : RowKey) = RowKey.id entry.1 from congrArg RowKey.id sameId.symm] at isRow'
  cases isRow.symm.trans isRow'
  exact lately

theorem refines_of_heard {env : Config} (metric : OneMetric env) {p : Region}
    (agreed : Agreed p.db p.side) (heard : Heard p) : Refines env p := by
  refine refines_iff.2 fun centre limit c found => ?_
  obtain ⟨entry, placed, rfl, near, free⟩ := geo_of_found found
  obtain ⟨ap, isRow, online, lat, lng⟩ := agreed.2 entry placed
  have sameId : ap.agentId = entry.1 := RowKey.id.inj (Table.get_key isRow)
  have nearby : Nearby p.side.presence entry.1 := ⟨List.mem_map_of_mem placed, free⟩
  refine mem_scanned.2 ⟨⟨ap, Table.get_mem isRow, online, heard entry placed free ap isRow, _, _,
    lat, lng, ?_⟩, near, ?_⟩
  · rw [sameId, metric.same]
  · exact freeOf_iff.2 (agreed.1.not_serving (.inl nearby))

/-- In every state of a run between two calls, Redis finds nobody whom PostgreSQL would not find. -/
def AlwaysRefines (env : Config) (allowed : Region → Event Operation → Prop)
    (start : Region) : Prop :=
  ∀ p, Pool.Reach (code env) allowed start p → p.Idle = true → Refines env p

/-- Unless somebody goes online on the way, the two searches agree exactly while everybody is heard
of. -/
theorem redis_refines_exactly_while_agents_are_heard (env : Config) (metric : OneMetric env)
    (db : Database) (x : Shared) (agreed : Agreed db x) (p : Region)
    (reached : Pool.Reach (code env)
      (OneByOne fun op db _ => Dispatches op ∧ DoubleBooking.EntersFree db op) (Pool.quiet db x) p)
    (idle : p.Idle = true) : Refines env p ↔ Heard p := by
  have begins : Pool.Between (.calm DoubleBooking.Commits) Agreed (Pool.quiet db x : Region) :=
    .idle rfl agreed
  have between :=
    Pool.between_of_reach ((DoubleBooking.settles env).and (located_settles env)) begins reached
  exact ⟨heard_of_refines metric, refines_of_heard metric (between.rests_of_idle idle)⟩

theorem agreed_of_nobody {db : Database} {x : Shared} (none : (db .deliveries).rows = [])
    (nobody : x.presence.geo = []) : Agreed db x := by
  refine ⟨DoubleBooking.matched_of_no_deliveries none, fun entry placed => ?_⟩
  rw [nobody] at placed
  cases placed

theorem sample_metric : OneMetric Sample.env := ⟨rfl, fun _ => show (10 : ℚ) ≤ 5000 by decide⟩

/-- Agent 2 goes online, and moves after a minute.  Another minute passes. -/
def heardAgent : List (Event Operation) :=
  .spawn (.online 2 ⟨0, 0⟩) :: List.replicate 6 (Sample.act 0) ++
    [.spawn (.sleep 60000000), Sample.act 1] ++
    .spawn (.ping 2 ⟨1, 0⟩) :: List.replicate 7 (Sample.act 2) ++
      [.spawn (.sleep 60000000), Sample.act 3]

/-- The agent is found in both stores, at the last position. -/
theorem heard_agent_is_found :
    ∃ p,
    Pool.Reach (code Sample.env) (OneByOne fun op db _ => Dispatches op ∧
      DoubleBooking.EntersFree db op)
        (Pool.quiet Database.empty Sample.shared) p ∧
      Returns (findNearbyOnlineAgents Sample.env ⟨0, 0⟩ 5) p
        (· = [⟨2, Sample.env.geoDistance ⟨0, 0⟩ ⟨1, 0⟩⟩]) ∧ Refines Sample.env p := by
  have ran : (Pool.play (code Sample.env)
      (fun p e => decide
      (OneByOne (fun op db _ => Dispatches op ∧ DoubleBooking.EntersFree db op) p e)) heardAgent
      (Pool.quiet Database.empty Sample.shared)).map
      (fun p => (p.side.presence.geo, p.side.presence.busy, p.side.now,
        (presenceOf p.db 2).map AgentPresence.lastSeenAt, p.Idle)) =
          some ([(2, ⟨1, 0⟩)], [], 121000000, some 61000000, true) := by
    decide +kernel
  obtain ⟨p, played, facts⟩ := Option.map_eq_some_iff.1 ran
  simp only [Prod.mk.injEq] at facts
  obtain ⟨geo, busy, now, seen, idle⟩ := facts
  have reached := Pool.reach_of_play (fun _ _ => of_decide_eq_true) played
  have heard : Heard p := by
    intro entry placed _ ap isRow
    rw [geo] at placed
    cases List.mem_singleton.1 placed
    rw [isRow] at seen
    have lastSeen : ap.lastSeenAt = 61000000 := Option.some.inj seen
    omega
  refine ⟨p, reached, ?_, ?_⟩
  · rw [returns_findNearbyOnlineAgents, geo, busy]
    decide +kernel
  · exact (redis_refines_exactly_while_agents_are_heard Sample.env sample_metric
      Database.empty Sample.shared
      (agreed_of_nobody rfl rfl) p reached idle).2 heard

/-! ## An agent who has fallen silent -/

/-- Agent 2 goes online and is not heard of for 90 seconds. -/
def silentAgent : List (Event Operation) :=
  .spawn (.online 2 ⟨0, 0⟩) :: List.replicate 6 (Sample.act 0) ++
    [.spawn (.sleep 90000000), Sample.act 1]

theorem redis_finds_a_silent_agent :
    OneMetric Sample.env ∧ Agreed Database.empty Sample.shared ∧
      ¬ AlwaysRefines Sample.env (OneByOne fun op _ _ => Dispatches op)
        (Pool.quiet Database.empty Sample.shared) := by
  refine ⟨sample_metric, agreed_of_nobody rfl rfl, fun always => ?_⟩
  have ran : (Pool.play (code Sample.env)
      (fun p e => decide (OneByOne (fun op _ _ => Dispatches op) p e)) silentAgent
      (Pool.quiet Database.empty Sample.shared)).map
      (fun p => (p.side.presence.geo, p.side.presence.busy, p.side.now,
        (presenceOf p.db 2).map AgentPresence.lastSeenAt, p.Idle)) =
          some ([(2, ⟨0, 0⟩)], [], 91000000, some 1000000, true) := by
    decide +kernel
  obtain ⟨p, played, facts⟩ := Option.map_eq_some_iff.1 ran
  simp only [Prod.mk.injEq] at facts
  obtain ⟨geo, busy, now, seen, idle⟩ := facts
  have heard := heard_of_refines sample_metric
    (always p (Pool.reach_of_play (fun _ _ => of_decide_eq_true) played) idle)
  obtain ⟨ap, isRow, isTime⟩ := Option.map_eq_some_iff.1 seen
  have placed : (2, ⟨0, 0⟩) ∈ p.side.presence.geo := by
    rw [geo]
    exact List.mem_cons_self
  have notBusy : 2 ∉ p.side.presence.busy := by
    rw [busy]
    exact List.not_mem_nil
  have lately := heard (2, ⟨0, 0⟩) placed notBusy ap isRow
  omega

end SwiftBite.Verified.RedisScan
