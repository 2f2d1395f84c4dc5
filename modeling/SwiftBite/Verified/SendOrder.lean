import SwiftBite.Verified.DrainedOnce

/-! # The order in which events are sent

A drain claims by `created_at`, passes over what another drain has locked, and goes on after a
publish that failed.  An event created later stays behind as long as the earlier one is neither
passed over nor failed before it.
-/

set_option autoImplicit false

namespace SwiftBite.Verified.SendOrder

open Store OutboxDrain DrainSteps DrainedOnce

variable {batchSize d a b : ℕ} {s s' : State}

/-! ## Pairs in lists -/

theorem pair_sublist_of_sublist {l l' : List ℕ} (sub : l'.Sublist l) (distinct : l.Nodup)
    (pair : [a, b].Sublist l) (first : a ∈ l') (second : b ∈ l') : [a, b].Sublist l' := by
  induction sub with
  | slnil => cases first
  | cons x sub inductionHypothesis =>
    obtain ⟨absent, distinct⟩ := List.nodup_cons.1 distinct
    have notHere : a ≠ x := by
      rintro rfl
      exact absent (sub.subset first)
    exact inductionHypothesis distinct
      ((List.cons_sublist_cons'.1 pair).resolve_right fun same => notHere same.1) first second
  | cons_cons x sub inductionHypothesis =>
    obtain ⟨absent, distinct⟩ := List.nodup_cons.1 distinct
    by_cases here : a = x
    · subst here
      have later : b ∈ _ := List.singleton_sublist.1 (List.cons_sublist_cons.1 pair)
      have notHere : b ≠ a := by
        rintro rfl
        exact absent later
      exact List.cons_sublist_cons.2
        (List.singleton_sublist.2 ((List.mem_cons.1 second).resolve_left notHere))
    · have later := (List.cons_sublist_cons'.1 pair).resolve_right fun same => here same.1
      have notHere : b ≠ x := by
        rintro rfl
        exact absent (later.subset (List.mem_cons_of_mem _ List.mem_cons_self))
      exact (inductionHypothesis distinct later ((List.mem_cons.1 first).resolve_left here)
        ((List.mem_cons.1 second).resolve_left notHere)).cons x

/-- What comes after `a` in a pair stands behind it. -/
theorem mem_of_pair {l r : List ℕ} (distinct : (l ++ a :: r).Nodup)
    (pair : [a, b].Sublist (l ++ a :: r)) : b ∈ r := by
  induction l with
  | nil => exact List.singleton_sublist.1 (List.cons_sublist_cons.1 pair)
  | cons x l inductionHypothesis =>
    obtain ⟨absent, distinct⟩ := List.nodup_cons.1 distinct
    have other : a ≠ x := by
      rintro rfl
      exact absent (List.mem_append_right _ List.mem_cons_self)
    exact inductionHypothesis distinct
      ((List.cons_sublist_cons'.1 pair).resolve_right fun same => other same.1)

/-- In a sorted list the smaller of two elements comes first. -/
theorem pair_sublist_of_sorted {events : List OutboxEvent} {x y : OutboxEvent}
    (sorted : events.Pairwise fun a b => a.createdAt ≤ b.createdAt) (first : x ∈ events)
    (second : y ∈ events) (earlier : x.createdAt < y.createdAt) : [x, y].Sublist events := by
  induction sorted with
  | nil => cases first
  | @cons z events least _ inductionHypothesis =>
    obtain rfl | firstLater := List.mem_cons.1 first
    · have other : y ≠ x := by
        rintro rfl
        omega
      exact List.cons_sublist_cons.2
        (List.singleton_sublist.2 ((List.mem_cons.1 second).resolve_left other))
    · have other : y ≠ z := by
        rintro rfl
        have := least x firstLater
        omega
      exact (inductionHypothesis firstLater ((List.mem_cons.1 second).resolve_left other)).cons z

/-! ## Which event was inserted first -/

def times (table : Table OutboxEvent) : List (ℕ × ℕ) :=
  table.rows.map fun row => (row.id, row.createdAt)

/-- `a` was inserted before `b`, by a transaction that began earlier. -/
def InsertedBefore (table : Table OutboxEvent) (a b : ℕ) : Prop :=
  ∃ ta tb, ta < tb ∧ [(a, ta), (b, tb)].Sublist (times table)

theorem times_modify {f : OutboxEvent → OutboxEvent}
    (kept : ∀ row, (f row).id = row.id ∧ (f row).createdAt = row.createdAt)
    (table : Table OutboxEvent) (key : RowKey) : times (table.modify key f) = times table := by
  simp only [times, Table.modify, List.map_map]
  exact List.map_congr_left fun row _ =>
    Table.rewrite_congr (g := fun row : OutboxEvent => (row.id, row.createdAt))
      (fun row => by rw [(kept row).1, (kept row).2]) row

theorem times_writes (table : Table OutboxEvent) (writes : List Write) :
    times (writes.foldl Write.apply table) = times table := by
  induction writes generalizing table with
  | nil => rfl
  | cons write writes inductionHypothesis =>
    rw [List.foldl_cons, inductionHypothesis]
    cases write with
    | failed id error => exact times_modify (f := failedRow error) (fun _ => ⟨rfl, rfl⟩) table _
    | dispatched marked now =>
      simp only [Write.apply]
      induction marked generalizing table with
      | nil => rfl
      | cons id marked inductionHypothesis =>
        rw [List.foldl_cons, inductionHypothesis]
        exact times_modify (f := dispatchedRow now) (fun _ => ⟨rfl, rfl⟩) table _

theorem times_insertAll {now : ℕ} {inputs : List (ℕ × OutboxEventInput)}
    {table table' : Table OutboxEvent} (inserted : insertAll now inputs table = some table') :
    ∃ more, times table' = times table ++ more := by
  induction inputs generalizing table with
  | nil =>
    cases inserted
    exact ⟨[], (List.append_nil _).symm⟩
  | cons input inputs inductionHypothesis =>
    simp only [insertAll, Option.ite_none_left_eq_some, Bool.not_eq_true] at inserted
    obtain ⟨free, inserted⟩ := inserted
    obtain ⟨more, same⟩ := inductionHypothesis inserted
    refine ⟨(input.1, now) :: more, ?_⟩
    rw [same, times, times, Table.rows_insert free]
    simp [OutboxEventInput.row]

theorem nodup_times (table : Table OutboxEvent) : ((times table).map Prod.fst).Nodup := by
  simp only [times, List.map_map, Function.comp_def, List.Nodup, List.pairwise_map]
  exact table.distinct.imp fun apart same => apart.1 (congrArg RowKey.id same)

/-- An event is not inserted in front of those that are there. -/
theorem insertedBefore_of_insertAll {now : ℕ} {inputs : List (ℕ × OutboxEventInput)}
    {table table' : Table OutboxEvent} (inserted : insertAll now inputs table = some table')
    (before : InsertedBefore table' a b) (there : b ∈ (times table).map Prod.fst) :
    InsertedBefore table a b := by
  obtain ⟨ta, tb, earlier, pair⟩ := before
  obtain ⟨more, same⟩ := times_insertAll inserted
  have distinct := nodup_times table'
  rw [same] at pair distinct
  refine ⟨ta, tb, earlier, ?_⟩
  obtain ⟨l₁, l₂, split, sub₁, sub₂⟩ := List.sublist_append_iff.1 pair
  -- `b` is among the old rows, so none of the pair is among the new ones
  have old : (b, tb) ∉ l₂ := by
    intro mem
    rw [List.map_append, List.nodup_append] at distinct
    exact distinct.2.2 b there b (List.mem_map_of_mem (f := Prod.fst) (sub₂.subset mem)) rfl
  cases l₂ with
  | nil =>
    rw [List.append_nil] at split
    rwa [split]
  | cons x l₂ =>
    have last : (b, tb) ∈ x :: l₂ := by
      have ends := congrArg List.getLast? split
      rw [List.getLast?_append_of_ne_nil _ (by simp)] at ends
      exact List.mem_of_getLast? (by simpa using ends.symm)
    exact absurd last old

/-! ## The events that a drain has yet to publish -/

/-- What a drain has yet to publish, in the order in which it will. -/
def ahead (w : Drain) : List OutboxEvent :=
  match w.stage with
  | .claiming candidates => w.batch ++ candidates
  | .publishing rest _ | .failing _ _ rest => rest
  | _ => []

def sentIds (s : State) : List ℕ := s.published.map fun p => p.event.id

/-- The first publish of `a` that resolves comes before the first of `b`. -/
def SentBefore (s : State) (a b : ℕ) : Prop :=
  b ∈ sentIds s → (sentIds s).idxOf a < (sentIds s).idxOf b

/-- While event `a` is unpublished, no drain that has `b` among its later candidates passes over `a`
because of another drain's lock, and no publish of `a` fails in a drain that has `b` left to
publish. -/
def NotOvertaken (a b : ℕ) (s : State) : Event → Prop
  | .drain d .lockNext =>
    ∀ candidate rest, (s.drain d).stage = .claiming (candidate :: rest) → candidate.id = a →
      a ∉ sentIds s →
      (s.locks a).isSome = true → b ∉ ids rest
  | .drain d (.reject _) =>
    ∀ event rest accepted, (s.drain d).stage = .publishing (event :: rest) accepted → event.id = a →
      a ∉ sentIds s → b ∉ ids rest
  | _ => True

structure Ordered (a b : ℕ) (s : State) : Prop where
  ahead (d : ℕ) : b ∈ ids (ahead (s.drain d)) →
  a ∈ sentIds s ∨ [a, b].Sublist (ids (ahead (s.drain d)))
  sent : SentBefore s a b

theorem ahead_subset_held (w : Drain) : ahead w ⊆ held w := by
  obtain ⟨stage, _, _, _⟩ := w
  cases stage <;> simp [ahead, held]

theorem nodup_ahead (tracked : Tracked s) (d : ℕ) : (ids (ahead (s.drain d))).Nodup := by
  have consistent := tracked.consistent d
  cases stage : (s.drain d).stage <;> simp only [Consistent, stage] at consistent <;>
    simp only [ahead, stage]
  case claiming candidates => exact consistent.1
  case publishing rest accepted => exact (List.nodup_append.1 consistent.1).2.1
  case failing event error rest => exact (List.nodup_append.1 consistent.1).2.1
  all_goals exact List.nodup_nil

theorem mem_times_of_known {table : Table OutboxEvent} {event : OutboxEvent}
    (known : Known table event) : event.id ∈ (times table).map Prod.fst := by
  obtain ⟨row, found, _⟩ := Option.map_eq_some_iff.1 known
  have same : row.id = event.id := RowKey.id.inj (Table.get_key found)
  rw [← same]
  exact List.mem_map_of_mem (f := Prod.fst) (List.mem_map_of_mem (Table.get_mem found))

/-- Nobody has read or published an event that is not in the table. -/
theorem ordered_of_absent (tracked : Tracked s)
    (absent : b ∉ (times s.table).map Prod.fst) : Ordered a b s where
  ahead d mem := by
    obtain ⟨event, there, rfl⟩ := List.mem_map.1 mem
    exact absurd (mem_times_of_known (tracked.known d event (ahead_subset_held _ there))) absent
  sent mem := by
    obtain ⟨p, there, rfl⟩ := List.mem_map.1 mem
    exact absurd (mem_times_of_known (tracked.sent p there).2.2) absent

/-- A drain drops some of what it had ahead, but does not drop `a` in front of `b`. -/
theorem ordered_of_fewer {w : Drain} (tracked : Tracked s) (ordered : Ordered a b s)
    (drain : s'.drain = Function.update s.drain d w) (published : s'.published = s.published)
    (fewer : (ids (ahead w)).Sublist (ids (ahead (s.drain d))))
    (keeps : a ∉ sentIds s → b ∈ ids (ahead w) → a ∈ ids (ahead (s.drain d)) → a ∈ ids (ahead w)) :
    Ordered a b s' := by
  have sameIds : sentIds s' = sentIds s := congrArg (List.map _) published
  refine ⟨fun d' mem => ?_, ?_⟩
  · rw [sameIds]
    by_cases here : d' = d
    · rw [here, drain, drain_update_self] at mem ⊢
      by_cases isSent : a ∈ sentIds s
      · exact .inl isSent
      · have pair := (ordered.ahead d (fewer.subset mem)).resolve_left isSent
        have first := keeps isSent mem (pair.subset List.mem_cons_self)
        exact .inr (pair_sublist_of_sublist fewer (nodup_ahead tracked d) pair first mem)
    · rw [drain, drain_update_of_ne here] at mem ⊢
      exact ordered.ahead d' mem
  · rw [SentBefore, sameIds]
    exact ordered.sent

/-- The snapshot has the rows in the order of `created_at`, so `a` in front of `b`. -/
theorem ordered_claim {candidates : List OutboxEvent} (tracked : Tracked s)
    (ordered : Ordered a b s) (before : InsertedBefore s.table a b)
    (idle : (s.drain d).stage = .idle) (all : candidates.Perm (undispatched s.table))
    (sorted : candidates.Pairwise fun a b => a.createdAt ≤ b.createdAt) :
    Ordered a b (s.moved d (.claiming candidates)) := by
  have consistent := tracked.consistent d
  simp only [Consistent, idle] at consistent
  obtain ⟨ta, tb, earlier, pair⟩ := before
  obtain ⟨x, xThere, xSame⟩ := List.mem_map.1 (pair.subset List.mem_cons_self)
  obtain ⟨rfl, rfl⟩ := Prod.mk.inj xSame
  obtain ⟨y, yThere, ySame⟩ :=
    List.mem_map.1 (pair.subset (List.mem_cons_of_mem _ List.mem_cons_self))
  obtain ⟨rfl, rfl⟩ := Prod.mk.inj ySame
  refine ⟨fun d' mem => ?_, ordered.sent⟩
  by_cases here : d' = d
  · subst here
    simp only [State.moved, State.withDrain, Function.update_self, ahead, consistent.1,
      List.nil_append] at mem ⊢
    by_cases isUndispatched : x.dispatchedAt = none
    · obtain ⟨y', yCandidate, same⟩ := List.mem_map.1 mem
      have yRow := (undispatched_of_candidate (all.subset yCandidate)).1
      obtain rfl : y' = y := Table.eq_of_key yRow yThere (congrArg RowKey.id same)
      have xCandidate : x ∈ candidates :=
        all.mem_iff.2 (List.mem_filter.2 ⟨xThere, by simp [isUndispatched]⟩)
      exact .inr ((pair_sublist_of_sorted sorted xCandidate yCandidate earlier).map OutboxEvent.id)
    · obtain ⟨time, since⟩ := Option.ne_none_iff_exists'.1 isUndispatched
      have found : s.table.get (.id x.id) = some x := Table.get_of_mem xThere
      obtain ⟨p, published, same⟩ :=
        tracked.origin x.id ⟨time, by rw [dispatchedAt, found, Option.map_some, since]⟩
      exact .inl (List.mem_map.2 ⟨p, published, same⟩)
  · simp only [State.moved, State.withDrain, drain_update_of_ne here] at mem ⊢
    exact ordered.ahead d' mem

/-- The `SELECT` skips a row that is not `a`, or behind which `b` does not stand. -/
theorem ordered_skip {candidate : OutboxEvent} {rest : List OutboxEvent} (tracked : Tracked s)
    (ordered : Ordered a b s) (claiming : (s.drain d).stage = .claiming (candidate :: rest))
    (allowed : candidate.id = a → a ∉ sentIds s → b ∉ ids rest) :
    Ordered a b (s.moved d (.claiming rest)) := by
  have old : ids (ahead (s.drain d)) = ids (s.drain d).batch ++ candidate.id :: ids rest := by
    simp [ahead, claiming, ids]
  have now : ids (ahead { s.drain d with stage := .claiming rest }) =
      ids (s.drain d).batch ++ ids rest := by simp [ahead, ids]
  have distinct := nodup_ahead tracked d
  have fewer : (ids (s.drain d).batch ++ ids rest).Sublist
      (ids (s.drain d).batch ++ candidate.id :: ids rest) := by simp
  rw [old] at distinct
  refine ordered_of_fewer (w := { s.drain d with
    stage := .claiming rest }) tracked ordered rfl rfl ?_ ?_
  · rwa [old, now]
  · intro unsent mem first
    rw [now] at mem
    have pair := (ordered.ahead d (by rw [old]; exact fewer.subset mem)).resolve_left unsent
    rw [old] at pair first
    rw [now]
    by_cases same : candidate.id = a
    · subst same
      exact absurd (mem_of_pair distinct pair) (allowed rfl unsent)
    · rw [List.mem_append, List.mem_cons] at first
      exact List.mem_append.2 (first.imp_right fun first => first.resolve_left (Ne.symm same))

theorem ordered_look {candidate : OutboxEvent} {rest : List OutboxEvent} (tracked : Tracked s)
    (ordered : Ordered a b s) (claiming : (s.drain d).stage = .claiming (candidate :: rest))
    (condition : NotOvertaken a b s (.drain d .lockNext)) :
    Ordered a b (s.look d candidate rest) := by
  have known : Known s.table candidate := tracked.known d candidate (by simp [held, claiming])
  unfold State.look
  split
  next isLocked =>
    exact ordered_skip tracked ordered claiming fun same unsent =>
      condition candidate rest claiming same unsent (same ▸ isLocked)
  next =>
    split
    next absent =>
      rw [Known, absent] at known
      cases known
    next row found =>
      split
      next isDispatched =>
        -- it was published, or it would not be dispatched
        refine ordered_skip tracked ordered claiming fun same unsent => ?_
        obtain ⟨time, since⟩ := Option.isSome_iff_exists.1 isDispatched
        obtain ⟨p, published, isIt⟩ :=
          tracked.origin candidate.id ⟨time, by rw [dispatchedAt, found, Option.map_some, since]⟩
        exact absurd (List.mem_map.2 ⟨p, published, isIt.trans same⟩) unsent
      next =>
        have sameId : row.id = candidate.id := RowKey.id.inj (Table.get_key found)
        have sameAhead : ids (ahead { s.drain d with
            stage := .claiming rest, batch := (s.drain d).batch ++ [row] }) =
            ids (ahead (s.drain d)) := by
          simp [ahead, claiming, ids, sameId]
        exact ordered_of_fewer tracked ordered rfl rfl (by rw [sameAhead]) fun _ _ first =>
          by rwa [sameAhead]

theorem ordered_claimed {candidates : List OutboxEvent} (tracked : Tracked s)
    (ordered : Ordered a b s) (claiming : (s.drain d).stage = .claiming candidates) :
    Ordered a b (s.moved d (.publishing (s.drain d).batch false)) := by
  have old : ids (ahead (s.drain d)) = ids (s.drain d).batch ++ ids candidates := by
    simp [ahead, claiming, ids]
  have now : ids (ahead { s.drain d with stage := .publishing (s.drain d).batch false }) =
      ids (s.drain d).batch := by simp [ahead]
  have distinct := nodup_ahead tracked d
  rw [old] at distinct
  refine ordered_of_fewer (w := { s.drain d with stage := .publishing (s.drain d).batch false })
    tracked ordered rfl rfl ?_ ?_
  · rw [old, now]
    exact List.sublist_append_left _ _
  · intro unsent mem first
    rw [now] at mem ⊢
    have pair :=
      (ordered.ahead d (by rw [old]; exact List.mem_append_left _ mem)).resolve_left unsent
    rw [old] at pair first
    -- were `a` behind the batch, `b` would be too
    refine (List.mem_append.1 first).resolve_right fun behind => ?_
    obtain ⟨l, r, split⟩ := List.append_of_mem behind
    rw [split, ← List.append_assoc] at pair distinct
    have later : b ∈ r := mem_of_pair distinct pair
    exact (List.nodup_append.1 (List.append_assoc .. ▸ distinct)).2.2 b mem b
      (List.mem_append_right _ (List.mem_cons_of_mem _ later)) rfl

theorem ordered_resolve {event : OutboxEvent} {rest : List OutboxEvent} (tracked : Tracked s)
    (ordered : Ordered a b s) (publishing : (s.drain d).stage = .publishing (event :: rest) true) :
    Ordered a b
      { s.withDrain d
          { s.drain d with
            stage := .publishing rest false,
            dispatchedIds := (s.drain d).dispatchedIds ++ [event.id] } with
        published := s.published ++ [⟨d, event⟩] } := by
  have old : ids (ahead (s.drain d)) = event.id :: ids rest := by simp [ahead, publishing, ids]
  have distinct := nodup_ahead tracked d
  have own := ordered.ahead d
  rw [old] at distinct own
  set s' : State :=
    { s.withDrain d
        { s.drain d with
          stage := .publishing rest false,
          dispatchedIds := (s.drain d).dispatchedIds ++ [event.id] } with
      published := s.published ++ [⟨d, event⟩] } with isNext
  have sentNow : sentIds s' = sentIds s ++ [event.id] := by simp [sentIds, isNext]
  refine ⟨fun d' mem => ?_, fun mem => ?_⟩
  · rw [sentNow]
    -- Of this drain the first event ahead has gone; the others are as they were.
    by_cases here : d' = d
    · have now : ids (ahead (s'.drain d')) = ids rest := by
        simp [isNext, State.withDrain, here, ahead]
      rw [now] at mem ⊢
      obtain isSent | pair := own (List.mem_cons_of_mem _ mem)
      · exact .inl (List.mem_append_left _ isSent)
      · obtain pair | ⟨same, _⟩ := List.cons_sublist_cons'.1 pair
        · exact .inr pair
        · exact .inl (List.mem_append_right _ (List.mem_singleton.2 same))
    · have now : s'.drain d' = s.drain d' := drain_update_of_ne here
      rw [now] at mem ⊢
      exact (ordered.ahead d' mem).imp_left (List.mem_append_left _)
  · rw [sentNow] at mem ⊢
    by_cases already : b ∈ sentIds s
    · have before := ordered.sent already
      have isSent : a ∈ sentIds s :=
        List.idxOf_lt_length_iff.1 (before.trans (List.idxOf_lt_length_iff.2 already))
      rwa [List.idxOf_append_of_mem isSent, List.idxOf_append_of_mem already]
    · -- The second event goes just now: the first has gone, or it would still be ahead.
      obtain rfl : b = event.id :=
        List.mem_singleton.1 ((List.mem_append.1 mem).resolve_left already)
      have isSent : a ∈ sentIds s := by
        refine (own List.mem_cons_self).resolve_right fun pair => ?_
        obtain ⟨absent, _⟩ := List.nodup_cons.1 distinct
        obtain pair | ⟨_, pair⟩ := List.cons_sublist_cons'.1 pair
        · exact absent (pair.subset (List.mem_cons_of_mem _ List.mem_cons_self))
        · exact absent (List.singleton_sublist.1 pair)
      rw [List.idxOf_append_of_mem isSent, List.idxOf_append_of_notMem already]
      have := List.idxOf_lt_length_iff.2 isSent
      omega

theorem ordered_reject {event : OutboxEvent} {rest : List OutboxEvent} {accepted : Bool}
    {error : String} (tracked : Tracked s) (ordered : Ordered a b s)
    (publishing : (s.drain d).stage = .publishing (event :: rest) accepted)
    (condition : NotOvertaken a b s (.drain d (.reject error))) :
    Ordered a b (s.moved d (.failing event error rest)) := by
  have old : ids (ahead (s.drain d)) = event.id :: ids rest := by simp [ahead, publishing, ids]
  have now : ids (ahead { s.drain d with stage := .failing event error rest }) =
      ids rest := by simp [ahead]
  refine ordered_of_fewer (w := { s.drain d with stage := .failing event error rest }) tracked
    ordered rfl rfl ?_ ?_
  · rw [old, now]
    exact List.sublist_cons_self ..
  · intro unsent mem first
    rw [now] at mem ⊢
    rw [old] at first
    refine (List.mem_cons.1 first).resolve_left fun same => ?_
    exact condition event rest accepted publishing same.symm unsent mem

/-- A step after which the drain has nothing more to publish, or the same as before. -/
theorem ordered_of_same {w : Drain} (tracked : Tracked s) (ordered : Ordered a b s)
    (drain : s'.drain = Function.update s.drain d w) (published : s'.published = s.published)
    (same : ahead w = [] ∨ ahead w = ahead (s.drain d)) : Ordered a b s' := by
  obtain none | same := same
  · refine ordered_of_fewer tracked ordered drain published ?_ fun _ impossible => ?_
    · rw [none]
      exact List.nil_sublist _
    · rw [none] at impossible
      cases impossible
  · exact ordered_of_fewer tracked ordered drain published (by rw [same])
      fun _ _ first => by rwa [same]

theorem ahead_of_ended {w : Drain} (ended : w.stage.live = false) : ahead w = [] := by
  obtain ⟨stage, _, _, _⟩ := w
  cases stage <;> first | rfl | cases ended

theorem ordered_act {action : Action} (tracked : Tracked s) (ordered : Ordered a b s)
    (before : InsertedBefore s.table a b) (condition : NotOvertaken a b s (.drain d action))
    (moves : act batchSize s d action = some s') : Ordered a b s' := by
  cases step_of_act moves with
  | claim idle all sorted => exact ordered_claim tracked ordered before idle all sorted
  | lockNext claiming _ => exact ordered_look tracked ordered claiming condition
  | claimed claiming _ => exact ordered_claimed tracked ordered claiming
  | accept publishing =>
    exact ordered_of_same tracked ordered rfl rfl (.inr (by simp [ahead, publishing]))
  | resolve publishing => exact ordered_resolve tracked ordered publishing
  | reject publishing => exact ordered_reject tracked ordered publishing condition
  | markFailed failing =>
    exact ordered_of_same tracked ordered rfl rfl (.inr (by simp [ahead, failing]))
  | markDispatched publishing => exact ordered_of_same tracked ordered rfl rfl (.inl rfl)
  | commit committing => exact ordered_of_same tracked ordered rfl rfl (.inl rfl)
  | commitLost committing => exact ordered_of_same tracked ordered rfl rfl (.inl rfl)
  | stop live broken =>
    exact ordered_of_same tracked ordered rfl rfl (.inl (ahead_of_ended (live_of_broken broken)))

/-- The drains do not change what was inserted before what. -/
theorem times_act {action : Action} (moves : act batchSize s d action = some s') :
    times s'.table = times s.table := by
  cases step_of_act moves with
  | lockNext =>
    unfold State.look
    split
    next => rfl
    next =>
      split
      next => rfl
      next =>
        split
        next => rfl
        next => rfl
  | commit | commitLost => exact times_writes ..
  | _ => rfl

theorem ordered_next {e : Event} (tracked : Tracked s)
    (ordered : InsertedBefore s.table a b → Ordered a b s) (condition : NotOvertaken a b s e)
    (moves : next batchSize s e = some s')
    (before : InsertedBefore s'.table a b) : Ordered a b s' := by
  cases e with
  | insert now inputs =>
    obtain ⟨table, inserted, rfl⟩ := Option.map_eq_some_iff.1 moves
    have ordered : Ordered a b s := by
      by_cases there : b ∈ (times s.table).map Prod.fst
      · exact ordered (insertedBefore_of_insertAll inserted before there)
      · exact ordered_of_absent tracked there
    exact ⟨ordered.ahead, ordered.sent⟩
  | drain d action =>
    have before : InsertedBefore s.table a b := by rwa [InsertedBefore, times_act moves] at before
    exact ordered_act tracked (ordered before) before condition moves

/-! ## Events are sent in order -/

/-- For any two events, of one aggregate or not. -/
theorem events_are_sent_in_order (batchSize : ℕ) (s : State) (e₁ e₂ : OutboxEvent)
    (reached : Reach batchSize (NotOvertaken e₁.id e₂.id) s)
    (inserted : [e₁, e₂].Sublist s.table.rows) (earlier : e₁.createdAt < e₂.createdAt) :
    SentBefore s e₁.id e₂.id := by
  have before : InsertedBefore s.table e₁.id e₂.id :=
    ⟨_, _, earlier, inserted.map fun row : OutboxEvent => (row.id, row.createdAt)⟩
  have ordered : InsertedBefore s.table e₁.id e₂.id → Ordered e₁.id e₂.id s := by
    clear inserted before
    induction reached with
    | refl =>
      rintro ⟨_, _, _, impossible⟩
      cases impossible
    | step reached condition moves ordered =>
      exact ordered_next (tracked_of_reach reached) ordered condition moves
  exact (ordered before).sent

/-! ## Two events of one order -/

def first (now : ℕ) : OutboxEvent := (statusChanged 1 .placed 100).row 1 now

def second (now : ℕ) : OutboxEvent := (statusChanged 1 .accepted 101).row 2 now

def insertFirst (now : ℕ) : Event := .insert now [(1, statusChanged 1 .placed 100)]

def insertSecond (now : ℕ) : Event := .insert now [(2, statusChanged 1 .accepted 101)]

def drains (d : ℕ) (actions : List Action) : List Event := actions.map (.drain d)

theorem later_event_is_sent_later :
    ∃ s, Reach 10 (NotOvertaken 1 2) s ∧ sentIds s = [1, 2] ∧ SentBefore s 1 2 := by
  have inserted : Reach 10 (NotOvertaken 1 2) _ :=
    .step (e := insertSecond 6) (.step (e := insertFirst 5) .refl trivial rfl) trivial rfl
  have claiming : Reach 10 (NotOvertaken 1 2) _ :=
    .step (e := .drain 0 (.claim [first 5, second 6])) inserted trivial rfl
  have locked : Reach 10 (NotOvertaken 1 2) _ := .step (e := .drain 0 .lockNext) claiming
    (fun _ _ _ _ _ impossible => by cases impossible) rfl
  have claimed : Reach 10 (NotOvertaken 1 2) _ :=
    .step (e := .drain 0 .claimed) (.step (e := .drain 0 .lockNext) locked
    (fun _ _ last _ _ _ => by cases last; simp [ids]) rfl) trivial rfl
  have published : Reach 10 (NotOvertaken 1 2) _ := .step (e := .drain 0 .resolve)
    (.step (e := .drain 0 .accept) claimed trivial rfl) trivial rfl
  have both : Reach 10 (NotOvertaken 1 2) _ := .step (e := .drain 0 .resolve)
    (.step (e := .drain 0 .accept) published trivial rfl) trivial rfl
  exact ⟨_, both, rfl,
    events_are_sent_in_order 10 _ (first 5) (second 6) both (List.Sublist.refl _) (by decide)⟩

/-- A publish fails; a drain passes over what another one has locked; the two are created by one
transaction; the second is created by a transaction that began first. -/
def outOfOrder : List (List Event) :=
  [[insertFirst 5, insertSecond 6] ++ drains 0 [.claim [first 5, second 6], .lockNext,
    .lockNext, .claimed,
    .reject "channel closed", .markFailed, .accept, .resolve],
    [insertFirst 5] ++ drains 0 [.claim [first 5], .lockNext] ++ [insertSecond 6] ++
      drains 1 [.claim [first 5, second 6], .lockNext, .lockNext, .claimed, .accept, .resolve],
    [.insert 5 [(1, statusChanged 1 .placed 100), (2, statusChanged 1 .accepted 101)]] ++
      drains 0 [.claim [second 5, first 5], .lockNext, .lockNext, .claimed, .accept, .resolve],
    [insertFirst 6, insertSecond 5] ++ drains 0 [.claim [second 5, first 6], .lockNext, .lockNext,
      .claimed, .accept, .resolve]]

/-- Of two events of one aggregate, the history sends the later one first. -/
def SendsLaterFirst (history : List Event) : Prop :=
  ∃ s e₁ e₂, Reach 10 (fun _ _ => True) s ∧
  Machine.play (next 10) (fun _ _ => true) history .start = some s ∧ [e₁, e₂].Sublist s.table.rows ∧
    (e₁.aggregateType = e₂.aggregateType ∧ e₁.aggregateId = e₂.aggregateId) ∧
    ¬ SentBefore s e₁.id e₂.id

theorem later_event_is_sent_first : outOfOrder.Forall SendsLaterFirst := by
  rw [List.forall_iff_forall_mem]
  have ends : ∀ history ∈ outOfOrder,
      (Machine.play (next 10) (fun _ _ => true) history .start).any (fun s =>
      decide (s.table.rows.map (fun row => (row.id, row.aggregateType, row.aggregateId)) =
        [(1, "order", 1), (2, "order", 1)]) &&
        decide (sentIds s = [2])) = true := by decide +kernel
  intro history member
  obtain ⟨s, played, isEnd⟩ := (Option.any_eq_true _ _).1 (ends history member)
  simp only [Bool.and_eq_true, decide_eq_true_eq] at isEnd
  obtain ⟨rows, sent⟩ := isEnd
  obtain ⟨e₁, rest, isRows, isFirst, restRows⟩ := List.map_eq_cons_iff.1 rows
  obtain ⟨e₂, none, isRest, isSecond, noneLeft⟩ := List.map_eq_cons_iff.1 restRows
  obtain rfl := List.map_eq_nil_iff.1 noneLeft
  simp only [Prod.mk.injEq] at isFirst isSecond
  refine ⟨s, e₁, e₂, Machine.reach_of_play (fun _ _ _ => trivial) played, played,
    by rw [isRows, isRest], ?_, fun sentBefore => ?_⟩
  · exact ⟨isFirst.2.1.trans isSecond.2.1.symm, isFirst.2.2.trans isSecond.2.2.symm⟩
  · rw [SentBefore, isFirst.1, isSecond.1, sent] at sentBefore
    exact absurd (sentBefore (by decide)) (by decide)

end SwiftBite.Verified.SendOrder
