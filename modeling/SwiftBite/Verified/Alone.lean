import SwiftBite.Store.SerialRules
import SwiftBite.Verified.DeliverySteps

/-! # Assignments of calls that run alone

What the search for an agent finds and what an assignment commits, when nothing fails and no
other call is under way: here the presence keys are followed as well as the tables.
-/

set_option autoImplicit false

namespace SwiftBite.Verified

open Store Prog Statement AssignmentService

section

variable {m : Database → Database → Prop} {seen : List (Sigma RowOf)} {l : Local RowOf RowKey}
  {db : Database}
  {x : Shared} {β : Type}

/-! ## Shared state -/

theorem solo_nowIso {Q : Except Err ℕ → Local RowOf RowKey → Database → Shared → Prop}
    (next : Q (.ok (toMillis x.now)) l db x) : nowIso.solo (.calm m) Q l db x :=
  solo_sure next

theorem solo_nextval {t : TableName}
    {Q : Except Err ℕ → Local RowOf RowKey → Database → Shared → Prop}
    (next : Q (.ok (x.seq t)) l db { x with seq := Function.update x.seq t (x.seq t + 1) }) :
    (nextval t).solo (.calm m) Q l db x :=
  solo_sure next

theorem solo_redis {f : Presence → Presence}
    {Q : Except Err Unit → Local RowOf RowKey → Database → Shared → Prop}
    (next : Q (.ok ()) l db { x with presence := f x.presence }) :
    (redis f).solo (.calm m) Q l db x :=
  solo_act next

theorem solo_orElse_redis {f : Presence → Presence}
    {Q : Except Err Unit → Local RowOf RowKey → Database → Shared → Prop}
    (next : Q (.ok ()) l db { x with presence := f x.presence }) :
    (orElse (redis f) ()).solo (.calm m) Q l db x :=
  solo_tryCatch (solo_redis next)

theorem solo_throwIf {t : Terms RowOf} {condition : Prop} [Decidable condition] {err : Err}
    {Q : Except Err Unit → Local RowOf RowKey → Database → Shared → Prop}
    (passes : ¬condition → Q (.ok ()) l db x) (throws : condition → Q (.error err) l db x) :
    (throwIf condition err).solo t Q l db x := by
  unfold throwIf
  split
  next fails => exact throws fails
  next holds => exact passes holds

theorem solo_deliveryStampTime {status : DeliveryStatus}
    {Q : Except Err (Option ℕ) → Local RowOf RowKey → Database → Shared → Prop}
    (next : ∀ stamp, Q (.ok stamp) l db x) : status.stampTime.solo (.calm m) Q l db x := by
  unfold DeliveryStatus.stampTime
  split
  · exact solo_map (solo_nowIso (next _))
  · exact next none

theorem solo_orderStampTime {status : OrderStatus}
    {Q : Except Err (Option ℕ) → Local RowOf RowKey → Database → Shared → Prop}
    (next : ∀ stamp, Q (.ok stamp) l db x) : status.stampTime.solo (.calm m) Q l db x := by
  unfold OrderStatus.stampTime
  split
  · exact solo_map (solo_nowIso (next _))
  · exact next none

/-- A program that neither writes nor touches the presence keys. -/
theorem solo_ticking {prog : Service β}
    {Q : Except Err β → Local RowOf RowKey → Database → Shared → Prop}
    (quiet : prog.Quiet ⟨fun _ => False, fun _ => True, Ticks⟩)
    (next : ∀ result seen' x', Ticks x x' → Q result ⟨none, seen'⟩ db x') :
    prog.solo (.calm m) Q ⟨none, seen⟩ db x := by
  refine solo_quiet Ticks.refl Ticks.trans quiet fun result ws rows x' none ticks => ?_
  rw [List.eq_nil_iff_forall_not_mem.2 none]
  exact next result _ x' ticks

/-! ## The search for an agent -/

/-- The agent has no delivery under way. -/
def FreeOf (db : Database) (agentId : ℕ) : Prop :=
  ∀ d ∈ (db .deliveries).rows, Delivery.agentId d = agentId → d.status.active = false

instance (db : Database) (agentId : ℕ) : Decidable (FreeOf db agentId) :=
  inferInstanceAs (Decidable (∀ d ∈ (db .deliveries).rows, Delivery.agentId d = agentId →
    d.status.active = false))

/-- Redis knows where the agent is, and not that the agent is busy. -/
def Nearby (presence : Presence) (agentId : ℕ) : Prop :=
  agentId ∈ presence.geo.map Prod.fst ∧ agentId ∉ presence.busy

/-- Redis has somebody within the radius who is not busy. -/
def Reaches (env : Config) (presence : Presence) (branch : Point) : Prop :=
  ∃ entry ∈ presence.geo, env.geoDistance branch entry.2 ≤ env.radiusMeters ∧
  entry.1 ∉ presence.busy

/-- PostgreSQL has somebody within the radius who is online, was seen lately and is free. -/
def Scans (env : Config) (db : Database) (now : ℕ) (branch : Point) : Prop :=
  ∃ ap ∈ (db .agentPresence).rows, AgentPresence.isOnline ap = true ∧
  now < ap.lastSeenAt + 90000000 ∧
    (∃ lat lng, ap.lastLat = some lat ∧ ap.lastLng = some lng ∧
      env.stDistance branch ⟨lat, lng⟩ ≤ env.radiusMeters) ∧
    FreeOf db ap.agentId

def Eligible (env : Config) (db : Database) (x : Shared) (branch : Point) : Prop :=
  Reaches env x.presence branch ∨ Scans env db x.now branch

theorem mem_collectFree {busy : List ℕ} {limit : ℕ} {raw candidates : List CandidateAgent}
    {c : CandidateAgent} (member : c ∈ collectFree busy limit raw candidates) :
    c ∈ candidates ∨ (c ∈ raw ∧ c.agentId ∉ busy) := by
  induction raw generalizing candidates with
  | nil => exact .inl member
  | cons next raw inductionHypothesis =>
    simp only [collectFree] at member
    split at member
    next =>
      exact (inductionHypothesis member).imp_right fun ⟨among, free⟩ =>
        ⟨List.mem_cons_of_mem _ among, free⟩
    next isFree =>
      have extended : c ∈ candidates ++ [next] →
          c ∈ candidates ∨ (c ∈ next :: raw ∧ c.agentId ∉ busy) := by
        intro among
        rcases List.mem_append.1 among with old | new
        · exact .inl old
        · cases List.mem_singleton.1 new
          exact .inr ⟨List.mem_cons_self, isFree⟩
      split at member
      next => exact extended member
      next =>
        rcases inductionHypothesis member with old | ⟨among, free⟩
        · exact extended old
        · exact .inr ⟨List.mem_cons_of_mem _ among, free⟩

theorem length_collectFree (busy : List ℕ) (limit : ℕ) (raw candidates : List CandidateAgent) :
    candidates.length ≤ (collectFree busy limit raw candidates).length := by
  induction raw generalizing candidates with
  | nil => exact le_rfl
  | cons next raw inductionHypothesis =>
    simp only [collectFree]
    split
    next => exact inductionHypothesis candidates
    next =>
      have longer : candidates.length ≤ (candidates ++ [next]).length := by simp
      split
      next => exact longer
      next => exact longer.trans (inductionHypothesis _)

/-- A free agent among the answers is found. -/
theorem collectFree_ne_nil {busy : List ℕ} {limit : ℕ} {raw candidates : List CandidateAgent}
    {c : CandidateAgent} (among : c ∈ raw) (free : c.agentId ∉ busy) :
    collectFree busy limit raw candidates ≠ [] := by
  induction raw generalizing candidates with
  | nil => cases among
  | cons next raw inductionHypothesis =>
    simp only [collectFree]
    split
    next isBusy =>
      rcases List.mem_cons.1 among with rfl | later
      · exact absurd isBusy free
      · exact inductionHypothesis later
    next =>
      split
      next => simp
      next =>
        intro empty
        have longer := length_collectFree busy limit raw (candidates ++ [next])
        rw [empty] at longer
        simp at longer

/-- Redis keeps one position for each agent. -/
def OnePosition (presence : Presence) : Prop := (presence.geo.map Prod.fst).Nodup

/-- As many answers as there are busy agents and one more contain somebody who is free. -/
theorem exists_free {busy : List ℕ} {agents : List ℕ} (distinct : agents.Nodup)
    (more : busy.length < agents.length) : ∃ agent ∈ agents, agent ∉ busy := by
  by_contra none
  push Not at none
  have fewer := (List.subperm_of_subset distinct none).length_le
  omega

theorem nearby_of_found {env : Config} {presence : Presence} {branch : Point} {limit : ℕ}
    {c : CandidateAgent}
    (found : c ∈ collectFree presence.busy limit
      (env.geosearch presence.geo branch (limit + presence.busy.length)) []) :
    Nearby presence c.agentId := by
  rcases mem_collectFree found with impossible | ⟨among, free⟩
  · cases impossible
  · refine ⟨?_, free⟩
    have located := List.mem_of_mem_take among
    rw [List.mem_insertionSort, List.mem_filter, List.mem_map] at located
    obtain ⟨⟨entry, member, rfl⟩, _⟩ := located
    exact List.mem_map_of_mem member

theorem found_of_reaches {env : Config} {presence : Presence} {branch : Point} {limit : ℕ}
    (positive : 0 < limit) (distinct : OnePosition presence)
    (reaches : Reaches env presence branch) :
    collectFree presence.busy limit
      (env.geosearch presence.geo branch (limit + presence.busy.length)) [] ≠ [] := by
  obtain ⟨entry, member, near, free⟩ := reaches
  let all : List CandidateAgent :=
    (presence.geo.map fun entry => ⟨entry.1, env.geoDistance branch entry.2⟩).filter
    fun candidate => candidate.distanceMeters ≤ env.radiusMeters
  let sorted := all.insertionSort env.nearer
  have isAll : env.geosearch presence.geo branch (limit + presence.busy.length) =
      sorted.take (limit + presence.busy.length) := rfl
  rw [isAll]
  by_cases fits : sorted.length ≤ limit + presence.busy.length
  · -- Everybody within the radius is among the answers.
    rw [List.take_of_length_le fits]
    have among : (⟨entry.1, env.geoDistance branch entry.2⟩ : CandidateAgent) ∈ sorted := by
      rw [List.mem_insertionSort, List.mem_filter]
      exact ⟨List.mem_map_of_mem member, by simpa using near⟩
    exact collectFree_ne_nil among free
  · -- There are more answers than busy agents.
    have agents : (all.map CandidateAgent.agentId).Nodup := by
      refine List.Nodup.sublist (List.filter_sublist.map _) ?_
      simpa [OnePosition, Function.comp_def] using distinct
    have same : (sorted.map CandidateAgent.agentId).Nodup :=
      ((List.perm_insertionSort env.nearer all).map CandidateAgent.agentId).nodup_iff.2 agents
    have taken : ((sorted.take (limit + presence.busy.length)).map CandidateAgent.agentId).Nodup :=
      same.sublist ((List.take_sublist _ _).map _)
    have more : presence.busy.length <
        ((sorted.take (limit + presence.busy.length)).map CandidateAgent.agentId).length := by
      simp only [List.length_map, List.length_take]
      omega
    obtain ⟨agent, isTaken, isFree⟩ := exists_free taken more
    obtain ⟨c, among, rfl⟩ := List.mem_map.1 isTaken
    exact collectFree_ne_nil among isFree

theorem solo_findNearbyOnlineAgents {env : Config} {centre : Point} {limit : ℕ}
    {Q : Except Err (List CandidateAgent) → Local RowOf RowKey → Database → Shared → Prop}
    (next : Q (.ok (collectFree x.presence.busy limit
      (env.geosearch x.presence.geo centre (limit + x.presence.busy.length)) [])) l db x) :
    (findNearbyOnlineAgents env centre limit).solo (.calm m) Q l db x :=
  solo_do (solo_act (solo_do (solo_act next)))

theorem solo_findCandidateAgents {env : Config} {pickup : Point} {limit : ℕ} (positive : 0 < limit)
    {Q : Except Err (List CandidateAgent) → Local RowOf RowKey → Database → Shared → Prop}
    (next : ∀ candidates seen', (∀ c ∈ candidates, FreeOf db (CandidateAgent.agentId c)) →
      (Scans env db x.now pickup → candidates ≠ []) → Q (.ok candidates) ⟨none, seen'⟩ db x) :
    (findCandidateAgents .pool env pickup limit).solo (.calm m) Q ⟨none, seen⟩ db x := by
  refine solo_select fun seen' => next _ seen' (fun c found => ?_) fun scans => ?_
  · have located := List.mem_of_mem_take found
    rw [List.mem_insertionSort, List.mem_filter] at located
    have free := (Bool.and_eq_true_iff.1 located.2).2
    intro d member ofAgent
    simp only [Bool.not_eq_true', List.any_eq_false, Bool.and_eq_true, decide_eq_true_eq, not_and,
      Bool.not_eq_true] at free
    exact free d member ofAgent
  · obtain ⟨ap, member, online, lately, ⟨lat, lng, isLat, isLng, near⟩, free⟩ := scans
    intro empty
    rw [List.take_eq_nil_iff] at empty
    rcases empty with isZero | empty
    · omega
    · have located : (⟨ap.agentId, env.stDistance pickup ⟨lat, lng⟩⟩ : CandidateAgent) ∈
          ([] : List CandidateAgent) := by
        rw [← empty, List.mem_insertionSort, List.mem_filter, List.mem_filterMap]
        have isHeard := Bool.and_eq_true_iff.2 ⟨online, decide_eq_true lately⟩
        refine ⟨⟨ap, List.mem_filter.2 ⟨member, isHeard⟩, by rw [isLat, isLng]⟩, ?_⟩
        simp only [Bool.and_eq_true, decide_eq_true_eq, Bool.not_eq_true', List.any_eq_false,
          not_and, Bool.not_eq_true]
        exact ⟨near, fun d among ofAgent => free d among ofAgent⟩
      cases located

theorem solo_findCandidates {env : Config} {branch : Point}
    {Q : Except Err (List CandidateAgent) → Local RowOf RowKey → Database → Shared → Prop}
    (next : ∀ candidates seen', (∀ c ∈ candidates, Nearby x.presence (CandidateAgent.agentId c) ∨
      FreeOf db (CandidateAgent.agentId c)) → (OnePosition x.presence → Eligible env db x branch →
      candidates ≠ []) → Q (.ok candidates) ⟨none, seen'⟩ db x) :
    (findCandidates .pool env branch).solo (.calm m) Q ⟨none, seen⟩ db x := by
  refine solo_do (solo_tryCatch (solo_findNearbyOnlineAgents ?_))
  simp only [soloCatch, soloBind]
  split
  next none =>
    refine solo_findCandidateAgents (by decide) fun candidates seen' free some =>
      next candidates seen' (fun c found => .inr (free c found)) ?_
    intro distinct eligible
    rcases eligible with reaches | scans
    · exact absurd none (found_of_reaches (by decide) distinct reaches)
    · exact some scans
  next some => exact next _ seen (fun c found => .inl (nearby_of_found found)) fun _ _ => some

/-! ## The assignment -/

/-- The ids that the sequence has still to give are free. -/
def FreshIds (db : Database) (x : Shared) : Prop :=
  ∀ d ∈ (db .deliveries).rows, Delivery.id d < x.seq .deliveries

theorem FreshIds.free {delivery : Delivery} (fresh : FreshIds db x)
    (isNext : delivery.id = x.seq .deliveries) : (db .deliveries).conflicts delivery = false := by
  refine Table.conflicts_eq_false.2 fun d member => ?_
  have less : Delivery.id d < delivery.id := isNext ▸ fresh d member
  have other : key d ≠ key delivery := fun same => less.ne (RowKey.id.inj same)
  simp only [Table.clashes, other, decide_false, Bool.false_or]
  rfl

/-- A delivery that is about to be inserted. -/
structure Booked (db : Database) (presence : Presence) (orderId : ℕ)
    (delivery : Delivery) : Prop where
  ofOrder : delivery.orderId = orderId
  status : delivery.status = .assigned
  free : (db .deliveries).conflicts delivery = false
  there : (orderOf db orderId).isSome = true
  agent : Nearby presence delivery.agentId ∨ FreeOf db delivery.agentId

/-- A call that may assign the order, and whose end must satisfy `Q`. -/
def MayBook (m : Database → Database → Prop) (orderId : ℕ) (Q : Database → Shared → Prop)
    (db : Database) (x : Shared) : Prop :=
  ∀ delivery assignedAt updatedAt, Booked db x.presence orderId delivery →
    (Terms.calm m).Moved db (db.applyAll (assignmentWrites delivery assignedAt updatedAt)) ∧
    ∀ x', Later x x' → x'.presence = x.presence.sadd delivery.agentId →
    delivery.id < x'.seq .deliveries →
      Q (db.applyAll (assignmentWrites delivery assignedAt updatedAt)) x'

/-- The tables have what an assignment refers to. -/
structure Assignable (db : Database) (x : Shared) (orderId : ℕ)
    (reassignedFrom : Option ℕ) : Prop where
  fresh : FreshIds db x
  order : (orderOf db orderId).isSome = true
  previous : ∀ id ∈ reassignedFrom, (deliveryOf db id).isSome = true

theorem solo_createAssignment {order : AssignmentOrderContext} {branch : Point} {agentId : ℕ}
    {distanceMeters : Option ℚ} {reassignedFrom : Option ℕ} {Q : Database → Shared → Prop}
    (books : MayBook m order.id Q db x) (agent : Nearby x.presence agentId ∨ FreeOf db agentId)
    (fails : ¬Assignable db x order.id reassignedFrom → ∀ x', Ticks x x' → Q db x') :
    (createAssignment order branch agentId distanceMeters reassignedFrom).solo (.calm m)
      (fun _ _ => Q) ⟨none, seen⟩ db x := by
  have ticks : Ticks x { x with
      seq := Function.update x.seq .deliveries (x.seq .deliveries + 1) } :=
    ⟨later_nextval .deliveries x, rfl⟩
  refine solo_do (solo_transaction (solo_do
    (solo_do (solo_nextval (solo_insert_trx (fun free refers seen₁ => ?_) fun taken => ?_)))))
  · refine solo_do (solo_do (solo_nowIso
      (solo_do (solo_nowIso (solo_updateByKey_trx (fun row found seen₂ => ?_) fun absent => ?_)))))
    · -- The commit, and the agent marked busy.
      have there : (orderOf db order.id).isSome = true := by
        simp only [referencesHold, List.all_cons, Bool.and_eq_true] at refers
        exact refers.1
      have booked := books (assignedDelivery order branch agentId distanceMeters reassignedFrom
        (x.seq .deliveries) (Host.now x))
        (toMillis x.now) (toMillis x.now) ⟨rfl, rfl, free, there, agent⟩
      refine ⟨booked.1, solo_do (solo_orElse_redis ?_)⟩
      refine booked.2 _ (ticks.toLater.trans (later_presence _ _)) rfl ?_
      show x.seq .deliveries < Function.update x.seq .deliveries (x.seq .deliveries + 1) .deliveries
      simp
    · simp only [referencesHold, List.all_cons, Bool.and_eq_true] at refers
      have orders : (db.applyAll ([] ++ [(.insert TableName.deliveries
            (assignedDelivery order branch agentId distanceMeters reassignedFrom
              (x.seq .deliveries) (Host.now x)) : SqlWrite)])) .orders = db .orders :=
        Db.applyAll_other (by simp [Write.table]) db
      have missing : (db .orders).get (RowKey.id order.id) = none := by
        rw [← orders]
        exact absent
      rw [Db.applyAll_nil, missing] at refers
      cases refers.1
  · refine fails (fun assignable => ?_) _ ticks
    rcases taken with conflict | missing
    · have free := FreshIds.free assignable.fresh
        (show (assignedDelivery order branch agentId distanceMeters reassignedFrom
        (x.seq .deliveries) (Host.now x)).id = _ from rfl)
      rw [Db.applyAll_nil] at conflict
      exact Bool.false_ne_true (free.symm.trans conflict)
    · have refers : referencesHold db ((TableName.orders, RowKey.id order.id) ::
          reassignedFrom.toList.map fun previous =>
            (TableName.deliveries, RowKey.id previous)) = true := by
        simp only [referencesHold, List.all_cons, Bool.and_eq_true, List.all_map, List.all_eq_true]
        exact ⟨assignable.order, fun id member => assignable.previous id (by simpa using member)⟩
      exact Bool.false_ne_true (missing.symm.trans refers)

/-- What holds when nobody was assigned. -/
def MayStop (env : Config) (orderId : ℕ) (branch : Point) (reassignedFrom : Option ℕ)
    (Q : Database → Shared → Prop) (db : Database) (x : Shared) : Prop :=
  (Assignable db x orderId reassignedFrom → OnePosition x.presence → ¬Eligible env db x branch) →
  ∀ x', Ticks x x' → Q db x'

theorem solo_tryAssign {env : Config} {order : AssignmentOrderContext} {branch : Point}
    {reassignedFrom : Option ℕ} {Q : Database → Shared → Prop} (books : MayBook m order.id Q db x)
    (stops : MayStop env order.id branch reassignedFrom Q db x) :
    (tryAssign env order branch reassignedFrom).solo (.calm m) (fun _ _ => Q)
      ⟨none, seen⟩ db x := by
  refine solo_do (solo_findCandidates fun candidates seen' agents some => ?_)
  cases candidates with
  | nil => exact stops (fun _ distinct eligible => some distinct eligible rfl) x (.refl x)
  | cons best rest =>
    refine solo_map (solo_createAssignment books (agents best List.mem_cons_self) fun missing =>
      stops fun assignable => ?_)
    exact absurd assignable missing

theorem solo_assignManual {order : AssignmentOrderContext} {branch : Point} {agentId : ℕ}
    {reassignedFrom : Option ℕ} {Q : Database → Shared → Prop} (books : MayBook m order.id Q db x)
    (stops : ∀ x', Ticks x x' → Q db x') :
    (assignManual order branch agentId reassignedFrom).solo (.calm m) (fun _ _ => Q)
      ⟨none, seen⟩ db x := by
  refine solo_do (solo_do (solo_selectFirst (fun active _ seen' => ?_) fun none seen' => ?_))
  · exact solo_do (solo_throwIf (fun idle => absurd rfl idle) fun _ => stops x (.refl x))
  · have free : FreeOf db agentId := by
      intro d member ofAgent
      have passed := List.filter_eq_nil_iff.1 none d member
      simpa [ofAgent] using passed
    exact solo_do (solo_throwIf (fun _ => solo_createAssignment books (.inr free) fun _ => stops)
      fun busy => nomatch busy)

end

/-! ## Calls that may fail

A call that runs alone but any statement of which may fail: what is verified under
interference holds of it when nobody interferes.
-/

section

/-- The terms on which a call may write anything, and perhaps fail. -/
abbrev anyhow (faulty : Prop) : Terms RowOf := ⟨fun _ _ => True, faulty⟩

/-- The terms on which any statement of a call may fail. -/
abbrev freely : Terms RowOf := anyhow True

/-- A call that runs alone, on these terms. -/
abbrev undisturbed : Protocol (K := RowKey) RowOf Shared Err Operation Reply Unit :=
  Protocol.alone (fun _ _ => True) (fun _ _ => True) Eq Later True

theorem undisturbed_lawful : undisturbed.Lawful :=
  Protocol.alone_lawful (fun _ => rfl) Eq.trans Later.refl Later.trans

theorem undisturbed_free (op : Operation) : undisturbed.Free 0 op Later :=
  Protocol.alone_free (fun _ => rfl) (fun _ _ _ _ => id) 0 op

theorem solo_of_undisturbed {β : Type} {prog : Service β} {Q : Except Err β → Database → Prop}
    {db : Database} {x : Shared}
    (holds : ∀ s : Sit RowOf Shared Operation Unit, s.db = db →
      undisturbed.wp 0 (.sleep 0) prog (fun result _ s => Q result s.db) .start s) :
    prog.solo freely (fun result _ db _ => Q result db) .start db x := by
  let situation : Sit RowOf Shared Operation Unit :=
    ⟨⟨db, x, ()⟩, fun j => if j = 0 then some (.sleep 0) else none⟩
  have only : Protocol.Only 0 (.sleep 0) situation := ⟨rfl, fun j other => if_neg other⟩
  refine solo_mono ?_
    (Protocol.solo_of_wp (fun _ => rfl) Later.refl (holds situation rfl) only trivial)
  rintro result l db' x' ⟨_, s', rfl, _, ends⟩
  exact ends

end

end SwiftBite.Verified
