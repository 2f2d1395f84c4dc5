import SwiftBite.Store.Added
import SwiftBite.Store.Follow
import SwiftBite.Verified.Offline
import SwiftBite.Verified.Overfetch
import SwiftBite.Verified.Stranded
import SwiftBite.Verified.ToldStatuses

/-! # Agents who lose a delivery

The agent from whom a delivery is taken is marked free just before the search for a successor,
and nothing keeps that agent out of the search.  So the delivery goes to somebody else only
where somebody else comes first.
-/

set_option autoImplicit false

namespace SwiftBite.Verified.PassedOver

open Store Prog Statement AssignmentService DeliveryService

/-- A delivery that replaces one of some agent is given to another agent. -/
def GoesToAnother (db db' : Database) : Prop :=
  ∀ row : Delivery, (db .deliveries).Added (db' .deliveries) row → ∀ previous ∈ row.reassignedFrom,
    ∀ given, deliveryOf db previous = some given → row.agentId ≠ given.agentId

/-! ## Who comes first -/

/-- Whom Redis knows within the radius and not to be busy. -/
def InRedis (env : Config) (presence : Presence) (centre : Point) (c : CandidateAgent) : Prop :=
  (∃ entry ∈ presence.geo, c = ⟨entry.1, env.geoDistance centre entry.2⟩) ∧
  c.distanceMeters ≤ env.radiusMeters ∧ c.agentId ∉ presence.busy

/-- Whom PostgreSQL knows within the radius, online, seen lately and idle. -/
def InPostgres (env : Config) (db : Database) (now : ℕ) (centre : Point) (idle : ℕ → Prop)
    (c : CandidateAgent) : Prop :=
  (∃ ap ∈ (db .agentPresence).rows, AgentPresence.isOnline ap = true ∧
    now < ap.lastSeenAt + 90000000 ∧
    ∃ lat lng, ap.lastLat = some lat ∧ ap.lastLng = some lng ∧
    c = ⟨ap.agentId, env.stDistance centre ⟨lat, lng⟩⟩) ∧
  c.distanceMeters ≤ env.radiusMeters ∧ idle c.agentId

/-- The agent has no delivery under way but, perhaps, this one. -/
def FreeBut (db : Database) (deliveryId agentId : ℕ) : Prop :=
  ∀ d ∈ (db .deliveries).rows, Delivery.agentId d = agentId → d.id ≠ deliveryId →
  d.status.active = false

/-- Wherever the agent is a candidate, another agent comes first. -/
def Outranked (env : Config) (candidate : CandidateAgent → Prop) (agentId : ℕ) : Prop :=
  ∀ c, candidate c → c.agentId = agentId →
  ∃ other, candidate other ∧ other.agentId ≠ agentId ∧ ¬ env.nearer c other

/-- In both sources another agent comes first, once the delivery is given up and its agent marked
free. -/
structure OthersFirst (env : Config) (db : Database) (x : Shared) (centre : Point)
    (given : Delivery) : Prop where
  redis : Outranked env (InRedis env (x.presence.srem given.agentId) centre) given.agentId
  postgres : Outranked env (InPostgres env db x.now centre (FreeBut db given.id)) given.agentId

/-- Whenever the call comes to look for a successor, another agent comes first. -/
def LooksElsewhere (env : Config) : Operation → Database → Shared → Prop
  | .reassign core orderPublicId, db, x =>
    ∀ order given n branch, order.publicId = orderPublicId → UnderWay db order given →
      chainLength db given.id = some n → n < env.maxReassignmentAttempts →
      core.getBranch order.branchId = .ok branch →
      OthersFirst env db x branch.point given
  | .updateDeliveryStatus core deliveryId actorUserId .rejected, db, x =>
    ∀ given order n branch, deliveryOf db deliveryId = some given →
      given.agentId = actorUserId → given.status = .assigned → chainLength db deliveryId = some n →
      n < env.maxReassignmentAttempts →
      orderOf db given.orderId = some order → core.getBranch order.branchId = .ok branch →
      OthersFirst env db x branch.point given
  | _, _, _ => True

/-- The calls that replace a delivery. -/
def Replaces : Operation → Prop
  | .reassign .. | .updateDeliveryStatus _ _ _ .rejected => True
  | _ => False

section

variable {env : Config} {candidate candidate' : CandidateAgent → Prop} {agentId : ℕ}
  {centre : Point} {db : Database} {x : Shared}

theorem Outranked.congr (passed : Outranked env candidate agentId)
    (fewer : ∀ c, c.agentId = agentId → candidate' c → candidate c)
    (others : ∀ c, c.agentId ≠ agentId → candidate c → candidate' c) :
    Outranked env candidate' agentId := by
  intro c isCandidate isAgent
  obtain ⟨other, isOther, different, before⟩ := passed c (fewer c isAgent isCandidate) isAgent
  exact ⟨other, others other different isOther, different, before⟩

/-- The agent's own mark counts for nobody else. -/
theorem Outranked.marked {presence : Presence}
    (passed : Outranked env (InRedis env (presence.srem agentId) centre) agentId) :
    Outranked env (InRedis env presence centre) agentId := by
  refine passed.congr (fun c isAgent ⟨entry, near, free⟩ => ⟨entry, near, ?_⟩)
    fun c different ⟨entry, near, free⟩ => ⟨entry, near, ?_⟩
  · rw [mem_busy_srem]
    exact fun busy => free busy.1
  · rw [mem_busy_srem] at free
    exact fun busy => free ⟨busy, different⟩

/-- Nobody passes over an agent who is not there. -/
theorem outranked_of_absent (absent : ∀ c, candidate c → c.agentId ≠ agentId) :
    Outranked env candidate agentId :=
  fun c isCandidate isAgent => absurd isAgent (absent c isCandidate)

theorem outranked_in_redis {presence : Presence} (away : agentId ∉ presence.geo.map Prod.fst) :
    Outranked env (InRedis env presence centre) agentId := by
  refine outranked_of_absent fun c ⟨⟨entry, member, isEntry⟩, _⟩ isAgent => away ?_
  rw [← isAgent, isEntry]
  exact List.mem_map_of_mem member

theorem outranked_in_postgres (offline : ¬ Online db agentId) {now : ℕ} {idle : ℕ → Prop} :
    Outranked env (InPostgres env db now centre idle) agentId := by
  refine outranked_of_absent
    fun c ⟨⟨ap, member, online, _, _, _, _, _, isRow⟩, _⟩ isAgent => offline ?_
  rw [isRow] at isAgent
  exact ⟨ap, isAgent ▸ Table.get_of_mem member, online⟩

/-! ## The search -/

instance : Std.Total env.nearer where
  total a b := by
    unfold Config.nearer
    rcases lt_trichotomy a.distanceMeters b.distanceMeters with less | same | more
    · exact .inl (.inl less)
    · rcases Nat.le_total (env.rank a.agentId) (env.rank b.agentId) with lower | higher
      · exact .inl (.inr ⟨same, lower⟩)
      · exact .inr (.inr ⟨same.symm, higher⟩)
    · exact .inr (.inl more)

instance : IsTrans CandidateAgent env.nearer where
  trans a b c first second := by
    unfold Config.nearer at *
    rcases first with less | ⟨same, lower⟩
    · rcases second with less' | ⟨same', _⟩
      · exact .inl (less.trans less')
      · exact .inl (same' ▸ less)
    · rcases second with less' | ⟨same', lower'⟩
      · exact .inl (same ▸ less')
      · exact .inr ⟨same.trans same', lower.trans lower'⟩

theorem nearer_self (c : CandidateAgent) : env.nearer c c := .inr ⟨rfl, le_rfl⟩

/-- The first of the agents that Redis answers. -/
theorem first_in_redis {presence : Presence} {best : CandidateAgent} {limit : ℕ}
    {rest : List CandidateAgent} (positive : 0 < limit)
    (found : collectFree presence.busy limit
      (env.geosearch presence.geo centre (limit + presence.busy.length)) [] = best :: rest) :
    InRedis env presence centre best ∧ ∀ other, InRedis env presence centre other →
    env.nearer best other := by
  have inRedis : ∀ c, InRedis env presence centre c ↔
      c ∈ Overfetch.inReach env presence.geo centre ∧ c.agentId ∉ presence.busy := by
    intro c
    simp only [Overfetch.inReach, List.mem_insertionSort, List.mem_filter, List.mem_map,
      decide_eq_true_eq, InRedis, and_assoc,
      @eq_comm CandidateAgent]
  have first : (Overfetch.inReach env presence.geo centre).find?
      (fun c => c.agentId ∉ presence.busy) = some best := by
    rw [Overfetch.collectFree_eq
      (show ([] : List CandidateAgent).length < limit from positive)] at found
    have head := congrArg List.head? found
    simp only [List.nil_append, List.length_nil, Nat.sub_zero, List.head?_take, positive.ne',
      if_false, List.head?_cons] at head
    exact find_of_head_take head
  refine ⟨(inRedis best).2 ⟨List.mem_of_find?_eq_some first, by simpa using List.find?_some first⟩,
    fun other isOther => ?_⟩
  obtain ⟨member, free⟩ := (inRedis other).1 isOther
  rcases precedes_of_find (List.pairwise_insertionSort env.nearer _) first
    member (by simpa using free) with rfl | precedes
  · exact nearer_self _
  · exact precedes

variable {seen : List (Sigma RowOf)} {faulty : Prop}

/-- The first of the agents that PostgreSQL answers. -/
theorem solo_findCandidateAgents {limit : ℕ} (positive : 0 < limit)
    {Q : Except Err (List CandidateAgent) → Local RowOf RowKey → Database → Shared → Prop}
    (next : ∀ candidates seen',
      (∀ best rest, candidates = best :: rest → InPostgres env db x.now centre (FreeOf db) best ∧
      ∀ other, InPostgres env db x.now centre (FreeOf db) other → env.nearer best other) →
      Q (.ok candidates) ⟨none, seen'⟩ db x)
    (fails : faulty → ∀ seen', Q (.error .infrastructure) ⟨none, seen'⟩ db x) :
    (findCandidateAgents .pool env centre limit).solo (anyhow faulty) Q ⟨none, seen⟩ db x := by
  refine solo_query (fun seen' => next _ seen' fun best rest found => ?_) fun faulty =>
    fails faulty seen
  have head := congrArg List.head? found
  simp only [List.head?_take, positive.ne', if_false, List.head?_cons] at head
  have isSorted : ((RedisScan.scanned env db x.now centre).insertionSort env.nearer).head? =
      some best := head
  refine ⟨RedisScan.mem_scanned.1 ((List.mem_insertionSort _).1 (List.mem_of_head? isSorted)),
    fun other isOther => ?_⟩
  have isFirst : ((RedisScan.scanned env db x.now centre).insertionSort env.nearer).find?
      (fun _ => true) = some best := by
    cases sorted : (RedisScan.scanned env db x.now centre).insertionSort env.nearer with
    | nil => simp [sorted] at isSorted
    | cons first rest => simpa [sorted] using isSorted
  have among := (List.mem_insertionSort env.nearer).2 (RedisScan.mem_scanned.2 isOther)
  rcases precedes_of_find (List.pairwise_insertionSort env.nearer _) isFirst among rfl
    with rfl | precedes
  · exact nearer_self _
  · exact precedes

/-- Whoever the search finds first, it is not the agent. -/
theorem solo_findCandidates (redis : Outranked env (InRedis env x.presence centre) agentId)
    (postgres : Outranked env (InPostgres env db x.now centre (FreeOf db)) agentId)
    {Q : Except Err (List CandidateAgent) → Local RowOf RowKey → Database → Shared → Prop}
    (next : ∀ candidates seen', (∀ best rest, candidates = best :: rest → best.agentId ≠ agentId) →
      Q (.ok candidates) ⟨none, seen'⟩ db x)
    (fails : faulty → ∀ seen', Q (.error .infrastructure) ⟨none, seen'⟩ db x) :
    (findCandidates .pool env centre).solo (anyhow faulty) Q ⟨none, seen⟩ db x := by
  -- who is before everybody else is not passed over
  have first : ∀ {candidate : CandidateAgent → Prop} {best : CandidateAgent},
      Outranked env candidate agentId →
      (candidate best ∧ ∀ other, candidate other → env.nearer best other) →
      best.agentId ≠ agentId := by
    rintro candidate best passed ⟨isCandidate, before⟩ isAgent
    obtain ⟨other, isOther, _, notBefore⟩ := passed best isCandidate isAgent
    exact notBefore (before other isOther)
  have scan : (findCandidateAgents .pool env centre CANDIDATE_LIMIT).solo (anyhow faulty) Q
      ⟨none, seen⟩ db x :=
    solo_findCandidateAgents (by decide)
      (fun candidates seen' isFirst => next candidates seen' fun best rest found =>
      first postgres (isFirst best rest found)) fails
  refine solo_do (solo_tryCatch
    (solo_do (solo_command (solo_do (solo_command ?_ fun _ => ?_)) fun _ => ?_)))
  · simp only [soloBind]
    show Prog.solo _ (if _ then _ else _) _ _ _ _
    split
    next => exact scan
    next some =>
      refine next _ seen fun best rest found => ?_
      exact first redis (first_in_redis (show 0 < CANDIDATE_LIMIT by decide) found)
  · exact scan
  · exact scan

/-! ## The new delivery -/

/-- What the insertion of this agent's delivery keeps, and every write elsewhere. -/
structure Keeps (agentId : ℕ) (reassignedFrom : Option ℕ) (Q : Database → Prop) : Prop where
  inserts : ∀ db (delivery : Delivery), delivery.agentId = agentId →
    delivery.reassignedFrom = reassignedFrom → Q db →
    Q (db.apply (.insert TableName.deliveries delivery))
  others : ∀ db (w : SqlWrite), w.table ≠ .deliveries → Q db → Q (db.apply w)

theorem solo_createAssignment {order : AssignmentOrderContext} {reassignedFrom : Option ℕ}
    {distanceMeters : Option ℚ} {Q : Database → Prop} (keeps : Keeps agentId reassignedFrom Q)
    (holds : Q db) :
    (createAssignment order centre agentId distanceMeters reassignedFrom).solo (anyhow faulty)
      (fun _ _ db' _ => Q db') ⟨none, seen⟩ db x := by
  have harmless : (createAssignment order centre agentId distanceMeters reassignedFrom).Harmless
      ⟨fun w => ∀ db, Q db → Q (db.apply w), fun _ => True, Later⟩ := by
    refine (Prog.Harmless.transaction (Prog.Quiet.harmless ?_)).bind fun delivery =>
      Prog.Harmless.bind ?_ fun _ => trivial
    · refine quiet_book _ _ _ (fun id now db => keeps.inserts db _ ?_ ?_) fun k f db =>
        keeps.others db _ (by simp [Write.table])
      · rfl
      · rfl
    · exact (quiet_orElse (quiet_redis _)).harmless
  refine solo_harmless (fun db x ws writes holds => ⟨.inr trivial, ?_⟩) (fun _ _ _ _ => id) harmless
    (fun w none => absurd none List.not_mem_nil) holds
  induction ws generalizing db with
  | nil => exact holds
  | cons w ws inductionHypothesis =>
    exact inductionHypothesis (db.apply w) (fun w' later =>
      writes w' (List.mem_cons_of_mem _ later)) (writes w List.mem_cons_self db holds)

/-- A search that passes the agent over. -/
theorem solo_tryAssign (redis : Outranked env (InRedis env x.presence centre) agentId)
    (postgres : Outranked env (InPostgres env db x.now centre (FreeOf db)) agentId)
    {order : AssignmentOrderContext} {reassignedFrom : Option ℕ} {Q : Database → Prop}
    (keeps : ∀ other, other ≠ agentId → Keeps other reassignedFrom Q) (holds : Q db) :
    (tryAssign env order centre reassignedFrom).solo (anyhow faulty) (fun _ _ db' _ => Q db')
      ⟨none, seen⟩ db x := by
  refine solo_do (solo_findCandidates redis postgres (fun candidates seen' isElse => ?_)
    fun _ _ => holds)
  cases candidates with
  | nil => exact holds
  | cons best rest =>
    exact solo_map (solo_createAssignment (keeps best.agentId (isElse best rest rfl)) holds)

variable {db₀ : Database} {given : Delivery}

theorem goesToAnother_update (k : RowKey) (f : Delivery → Delivery) :
    GoesToAnother db (db.apply (.update TableName.deliveries k f)) := by
  intro row added
  rw [Db.apply_update_self] at added
  exact absurd added Table.not_added_modify

/-- A successor who is another agent. -/
theorem keeps_goesToAnother (found : deliveryOf db₀ given.id = some given) {other : ℕ}
    (different : other ≠ given.agentId) : Keeps other (some given.id) (GoesToAnother db₀) where
  inserts db delivery isAgent isPrevious apart := by
    intro row added previous previously given' found'
    rw [Db.apply_insert_self] at added
    rcases Table.added_insert added with old | rfl
    · exact apart row old previous previously given' found'
    · cases isPrevious.symm.trans previously
      cases found.symm.trans found'
      rwa [isAgent]
  others db w elsewhere apart := by
    intro row added
    rw [Db.apply_other db elsewhere] at added
    exact apart row added

/-! ## The calls -/

/-- The delivery is given up. -/
abbrev givenUp (db : Database) (given : Delivery) (status : DeliveryStatus)
    (stamp : Option ℕ) : Database :=
  db.apply (.update TableName.deliveries (RowKey.id given.id) (Delivery.withStatus status stamp))

/-- The scan sees the delivery given up. -/
theorem freeOf_givenUp {status : DeliveryStatus} (inactive : status.active = false)
    (stamp : Option ℕ) :
    FreeOf (givenUp db given status stamp) agentId ↔ FreeBut db given.id agentId := by
  have rows : ∀ d : Delivery, (∃ old ∈ (db .deliveries).rows,
      Table.rewrite (RowKey.id given.id) (Delivery.withStatus status stamp) old = d) ↔
      d ∈ (givenUp db given status stamp .deliveries).rows := by
    intro d
    rw [show givenUp db given status stamp .deliveries = _ from Db.apply_update_self ..,
      Table.mem_modify]
  constructor
  · intro free d member ofAgent other
    refine free d
      ((rows d).1 ⟨d, member, Table.rewrite_of_ne fun same => other (RowKey.id.inj same)⟩) ofAgent
  · intro free d member ofAgent
    obtain ⟨old, among, rfl⟩ := (rows d).2 member
    by_cases same : old.id = given.id
    · rw [Table.rewrite_of_eq (show key old = _ from congrArg RowKey.id same),
        Table.keepIdentity_eq (Delivery.identity_withStatus _ _ _).1
        (Delivery.identity_withStatus _ _ _).2]
      exact inactive
    · rw [Table.rewrite_of_ne fun sameKey => same (RowKey.id.inj sameKey)] at ofAgent ⊢
      exact free old among ofAgent same

theorem OthersFirst.search {status : DeliveryStatus} {stamp : Option ℕ}
    (first : OthersFirst env db x centre given) (inactive : status.active = false)
    (found : deliveryOf db given.id = some given) {x' : Shared} (sameTime : x'.now = x.now)
    (freed : x'.presence = x.presence ∨ x'.presence = x.presence.srem given.agentId)
    {order : AssignmentOrderContext} :
    (tryAssign env order centre (some given.id)).solo freely (fun _ _ db' _ => GoesToAnother db db')
      ⟨none, seen⟩ (givenUp db given status stamp) x' := by
  refine solo_tryAssign ?_ ?_ (fun other different => keeps_goesToAnother found different)
    (goesToAnother_update _ _)
  · rcases freed with same | removed
    · rw [same]
      exact first.redis.marked
    · rw [removed]
      exact first.redis
  · have idle : FreeOf (givenUp db given status stamp) = FreeBut db given.id :=
      funext fun _ => propext (freeOf_givenUp inactive stamp)
    rw [idle, sameTime]
    unfold InPostgres
    have presence : givenUp db given status stamp .agentPresence = db .agentPresence :=
      Db.apply_update_ne db _ _ (by decide)
    rw [presence]
    exact first.postgres

/-- The command may fail. -/
theorem solo_markAgentFree {agentId : ℕ}
    {Q : Except Err Unit → Local RowOf RowKey → Database → Shared → Prop} {l : Local RowOf RowKey}
    (next : ∀ x', x'.now = x.now →
      (x'.presence = x.presence ∨ x'.presence = x.presence.srem agentId) → Q (.ok ()) l db x') :
    (orElse (markAgentFree agentId) ()).solo freely Q l db x :=
  solo_tryCatch (solo_command (next _ rfl (.inr rfl)) fun _ => next x rfl (.inl rfl))

theorem solo_updateDeliveryStatus {status : DeliveryStatus}
    (found : deliveryOf db given.id = some given)
    {Q : Except Err (Option Delivery) → Local RowOf RowKey → Database → Shared → Prop}
    (next : ∀ result stamp seen', Q (.ok result) ⟨none, seen'⟩ (givenUp db given status stamp) x)
    (fails : Q (.error .infrastructure) ⟨none, seen⟩ db x) :
    (updateDeliveryStatus .pool given.id status).solo freely Q ⟨none, seen⟩ db x := by
  have updates : ∀ stamp, (Prog.exec .pool
      (updateByKey TableName.deliveries (RowKey.id given.id) (Delivery.withStatus status stamp)) :
      Service _).solo freely Q ⟨none, seen⟩ db x := by
    intro stamp
    refine solo_pool (fun effect member => ⟨.inr trivial, fun seen' => ?_⟩) fails
    unfold updateByKey at member
    rw [show (db .deliveries).get (RowKey.id given.id) = some given from found] at member
    cases List.mem_singleton.1 member
    exact next _ stamp seen'
  refine solo_do ?_
  unfold DeliveryStatus.stampTime
  split
  · exact solo_map (solo_sure (updates _))
  · exact updates none

theorem solo_reassign {core : Core} {orderPublicId : ℕ}
    (first : LooksElsewhere env (.reassign core orderPublicId) db x) :
    (reassign env core orderPublicId).solo freely (fun _ _ db' _ => GoesToAnother db db')
      ⟨none, seen⟩ db x := by
  have unchanged : GoesToAnother db db := fun row added => absurd added Table.not_added_self
  refine solo_do (solo_pool (fun effect member => ⟨.inr trivial, fun seen₁ => ?_⟩) unchanged)
  obtain ⟨_, isEffect⟩ | ⟨order, among, isEffect⟩ := selectFirst_cases member <;> cases isEffect
  · exact unchanged
  obtain ⟨isOrder, isPublic⟩ := List.mem_filter.1 among
  refine solo_do (solo_pool (fun effect member => ⟨.inr trivial, fun seen₂ => ?_⟩) unchanged)
  obtain ⟨_, isEffect⟩ | ⟨active, among, isEffect⟩ := selectFirst_cases member <;> cases isEffect
  · exact unchanged
  obtain ⟨isDelivery, matches'⟩ := List.mem_filter.1 among
  simp only [Bool.and_eq_true, decide_eq_true_eq] at matches' isPublic
  have underWay : UnderWay db order active :=
    ⟨Table.get_of_mem isOrder, Table.get_of_mem isDelivery, matches'.1, matches'.2⟩
  refine solo_do (solo_countReassignmentChain (fun n seen₃ chain => ?_) fun _ _ => unchanged)
  refine solo_do (solo_throwIf (fun few => solo_do ?_) fun _ => unchanged)
  refine solo_updateDeliveryStatus underWay.isDelivery
    (fun _ stamp seen₄ => solo_do (solo_markAgentFree fun x' sameTime freed => ?_)) unchanged
  refine solo_do (solo_ofExcept ?_)
  cases answered : core.getBranch order.branchId with
  | error err => exact goesToAnother_update _ _
  | ok branch =>
    -- The call comes to its search for a successor.
    have othersFirst :=
      first order active n branch isPublic underWay chain (Nat.lt_of_not_ge few) answered
    refine solo_do (solo_mono ?_ (othersFirst.search rfl underWay.isDelivery sameTime freed))
    intro result l db' x'' apart
    cases result with
    | error err => exact apart
    | ok delivery =>
      cases delivery with
      | none => exact apart
      | some delivery =>
        refine solo_do (solo_ofExcept ?_)
        cases core.getAgent delivery.agentId <;> exact apart

theorem solo_reject {core : Core} {deliveryId actorUserId : ℕ}
    (first :
      LooksElsewhere env (.updateDeliveryStatus core deliveryId actorUserId .rejected) db x) :
    (updateStatus env core deliveryId actorUserId .rejected).solo freely
      (fun _ _ db' _ => GoesToAnother db db') ⟨none, seen⟩ db x := by
  have unchanged : GoesToAnother db db := fun row added => absurd added Table.not_added_self
  refine solo_do (solo_find (fun given found seen₁ => ?_) (fun _ _ => unchanged) fun _ => unchanged)
  have sameId : given.id = deliveryId := RowKey.id.inj (Table.get_key found)
  subst sameId
  refine solo_do (solo_throwIf (fun isAgent =>
    solo_do (solo_throwIf (fun isLegal => ?_) fun _ => unchanged)) fun _ => unchanged)
  -- Only an assigned delivery may be rejected.
  have isAssigned : given.status = .assigned := by
    revert isLegal
    cases given.status <;> decide
  refine solo_do (solo_updateDeliveryStatus found (fun _ stamp seen₂ => ?_) unchanged)
  have given' : GoesToAnother db (givenUp db given .rejected stamp) := goesToAnother_update _ _
  refine solo_do (solo_lookup (fun seen₃ => ?_) fun _ => given')
  refine solo_returning (solo_do (solo_markAgentFree fun x' sameTime freed => ?_))
  refine solo_do (solo_countReassignmentChain (fun n seen₄ chain => ?_) fun _ _ => given')
  rw [Stranded.chainLength_withStatus] at chain
  show Prog.solo _ (if n ≥ env.maxReassignmentAttempts then _ else _) _ _ _ _
  split
  next => exact given'
  next few =>
    refine solo_do (solo_find (fun order readOrder seen₅ => ?_) (fun _ _ => given') fun _ => given')
    have orders : givenUp db given .rejected stamp .orders = db .orders :=
      Db.apply_update_ne db _ _ (by decide)
    rw [orders] at readOrder
    refine solo_do (solo_ofExcept ?_)
    cases answered : core.getBranch order.branchId with
    | error err => exact given'
    | ok branch =>
      -- The call comes to its search for a successor.
      have othersFirst := first given order n branch found (of_not_not isAgent) isAssigned chain
        (Nat.lt_of_not_ge few) readOrder answered
      exact solo_returning (othersFirst.search rfl found sameTime freed)

end

/-! ## Runs -/

/-- In whatever state a run has led to, a call that meets the condition and replaces a delivery
gives it to another agent, whichever of its actions fail. -/
def AlwaysAnother (env : Config) (condition : Operation → Database → Shared → Prop)
    (start : Region) : Prop :=
  ∀ p, Pool.Reach (code env) (fun _ _ => True) start p → ∀ op, Replaces op →
  condition op p.db p.side →
    ∀ choices ending, (code env op).follow choices .start p.db p.side = some ending →
    GoesToAnother p.db ending.db

/-- One agent is online, and is given the order. -/
def givenToTheOnlyAgent : List (Event Operation) :=
  ToldStatuses.madeReady ++ .spawn (.online 2 ⟨0, 0⟩) :: List.replicate 6 (Sample.act 4) ++
    .spawn (.assign Sample.core 500 none) :: List.replicate 12 (Sample.act 5)

end SwiftBite.Verified.PassedOver
