import SwiftBite.Verified.DrainSteps

/-! # The outbox drain loses nothing and does not double-send

A live drain has its batch locked, and no other drain claims a locked row.  What a drain has
published it marks in the transaction that holds the locks, so an event comes back only when
that transaction did not commit.
-/

set_option autoImplicit false

namespace SwiftBite.Verified.DrainedOnce

open Store OutboxDrain DrainSteps

variable {batchSize d : ℕ} {s s' : State}

/-! ## What holds in every state -/

def ids (events : List OutboxEvent) : List ℕ := events.map OutboxEvent.id

/-- What a drain has done and what it has to do, at each stage. -/
def Consistent (w : Drain) : Prop :=
  match w.stage with
  | .idle => w.batch = [] ∧ w.dispatchedIds = [] ∧ w.writes = []
  | .claiming candidates =>
    (ids (w.batch ++ candidates)).Nodup ∧ w.dispatchedIds = [] ∧ w.writes = []
  | .publishing rest _ | .failing _ _ rest =>
    (w.dispatchedIds ++ ids rest).Nodup ∧ w.dispatchedIds ++ ids rest ⊆ ids w.batch ∧
    w.writes.flatMap marked = []
  | .committing => w.dispatchedIds ⊆ ids w.batch ∧ w.writes.flatMap marked = w.dispatchedIds
  | .committed | .rolledBack | .crashed => True

/-- The rows that a drain has read, and may publish. -/
def held (w : Drain) : List OutboxEvent :=
  match w.stage with
  | .claiming candidates => w.batch ++ candidates
  | .publishing rest _ | .failing _ _ rest => w.batch ++ rest
  | _ => w.batch

structure Tracked (s : State) : Prop where
  consistent (d : ℕ) : Consistent (s.drain d)
  locked (d : ℕ) : (s.drain d).stage.live = true →
    ∀ x ∈ ids (s.drain d).batch, s.locks x = some d ∧ Undispatched s.table x
  known (d : ℕ) : ∀ event ∈ held (s.drain d), Known s.table event
  inFlight (d : ℕ) (event : OutboxEvent) (rest : List OutboxEvent) :
    (s.drain d).stage = .publishing (event :: rest) true → message event ∈ s.broker
  sent : ∀ p ∈ s.published, p.event.id ∈ (s.drain p.drain).dispatchedIds ∧
    message p.event ∈ s.broker ∧ Known s.table p.event
  logged (d : ℕ) : ∀ x ∈ (s.drain d).dispatchedIds, ∃ p ∈ s.published, p.event.id = x
  finished (d : ℕ) : (s.drain d).stage = .committed →
    ∀ x ∈ (s.drain d).dispatchedIds, Dispatched s.table x
  origin (x : ℕ) : Dispatched s.table x → ∃ p ∈ s.published, p.event.id = x
  once : s.published.Pairwise fun p q => p.event.id = q.event.id →
    (s.drain p.drain).stage.broken = true

theorem tracked_start : Tracked .start where
  consistent _ := ⟨rfl, rfl, rfl⟩
  locked _ live := by cases live
  known _ _ impossible := by cases impossible
  inFlight _ _ _ impossible := by cases impossible
  sent _ impossible := by cases impossible
  logged _ _ impossible := by cases impossible
  finished _ impossible := by cases impossible
  origin x dispatched := by
    obtain ⟨_, impossible⟩ := dispatched
    cases impossible
  once := .nil

theorem known_of_known {table table' : Table OutboxEvent}
    (rows : ∀ key row, table.get key = some row → table'.get key = some row) {event : OutboxEvent}
    (known : Known table event) : Known table' event := by
  obtain ⟨row, found, same⟩ := Option.map_eq_some_iff.1 known
  rw [Known, rows _ row found, Option.map_some, same]

theorem tracked_insert {now : ℕ} {inputs : List (ℕ × OutboxEventInput)} {table : Table OutboxEvent}
    (tracked : Tracked s) (inserted : insertAll now inputs s.table = some table) :
    Tracked { s with table := table } := by
  obtain ⟨rows, times⟩ := get_insertAll inserted
  have keep : ∀ {x : ℕ} {time : Option ℕ}, dispatchedAt s.table x = some time →
      dispatchedAt table x = some time := by
    intro x time since
    obtain ⟨row, found, same⟩ := Option.map_eq_some_iff.1 since
    rw [dispatchedAt, rows _ row found, Option.map_some, same]
  exact {
    consistent := tracked.consistent
    locked := fun d live x mem => (tracked.locked d live x mem).imp_right keep
    known := fun d event mem => known_of_known rows (tracked.known d event mem)
    inFlight := tracked.inFlight
    sent := fun p mem => (tracked.sent p mem).imp_right fun sent =>
      sent.imp_right (known_of_known rows)
    logged := tracked.logged
    finished := fun d committed x mem => (tracked.finished d committed x mem).imp fun _ => keep
    origin := fun x dispatched => tracked.origin x (times x dispatched)
    once := tracked.once }

/-! ## A drain takes a step -/

@[simp] theorem drain_update_self (w : Drain) : (Function.update s.drain d w) d = w :=
  Function.update_self ..

theorem drain_update_of_ne {d' : ℕ} {w : Drain} (other : d' ≠ d) :
    (Function.update s.drain d w) d' = s.drain d' :=
  Function.update_of_ne other ..

/-- A drain goes on without publishing and without changing the table. -/
theorem tracked_of_quiet {w : Drain} (tracked : Tracked s)
    (drain : s'.drain = Function.update s.drain d w) (table : s'.table = s.table)
    (published : s'.published = s.published) (broker : s.broker ⊆ s'.broker)
    (locks : ∀ d' x, d' ≠ d → s.locks x = some d' → s'.locks x = some d')
    (same : w.dispatchedIds = (s.drain d).dispatchedIds)
    (unbroken : (s.drain d).stage.broken = false) (unfinished : w.stage ≠ .committed)
    (consistent : Consistent w)
    (locked : w.stage.live = true → ∀ x ∈ ids w.batch, s'.locks x = some d ∧ Undispatched s.table x)
    (known : ∀ event ∈ held w, Known s.table event)
    (inFlight : ∀ event rest, w.stage = .publishing (event :: rest) true →
      message event ∈ s'.broker) : Tracked s' := by
  have own : s'.drain d = w := by rw [drain, drain_update_self]
  have others : ∀ d', d' ≠ d → s'.drain d' = s.drain d' :=
    fun d' other => by rw [drain, drain_update_of_ne other]
  have dispatchedIds : ∀ d', (s'.drain d').dispatchedIds = (s.drain d').dispatchedIds := by
    intro d'
    by_cases here : d' = d
    · rw [here, own, same]
    · rw [others d' here]
  -- Of the other drains only the locks and the broker change, and these keep what is theirs.
  constructor
  case consistent =>
    intro d'
    by_cases here : d' = d
    · rwa [here, own]
    · rw [others d' here]
      exact tracked.consistent d'
  case locked =>
    intro d' live x mem
    rw [table]
    by_cases here : d' = d
    · subst here
      rw [own] at live mem
      exact locked live x mem
    · rw [others d' here] at live mem
      exact (tracked.locked d' live x mem).imp_left (locks d' x here)
  case known =>
    intro d' event mem
    rw [table]
    by_cases here : d' = d
    · rw [here, own] at mem
      exact known event mem
    · rw [others d' here] at mem
      exact tracked.known d' event mem
  case inFlight =>
    intro d' event rest publishing
    by_cases here : d' = d
    · rw [here, own] at publishing
      exact inFlight event rest publishing
    · rw [others d' here] at publishing
      exact broker (tracked.inFlight d' event rest publishing)
  case sent =>
    intro p mem
    rw [published] at mem
    rw [dispatchedIds, table]
    exact (tracked.sent p mem).imp_right fun sent => sent.imp_left fun taken => broker taken
  case logged =>
    intro d' x mem
    rw [dispatchedIds] at mem
    rw [published]
    exact tracked.logged d' x mem
  case finished =>
    intro d' committed x mem
    by_cases here : d' = d
    · rw [here, own] at committed
      exact absurd committed unfinished
    · rw [others d' here] at committed mem
      rw [table]
      exact tracked.finished d' committed x mem
  case origin =>
    intro x dispatched
    rw [table] at dispatched
    rw [published]
    exact tracked.origin x dispatched
  case once =>
    rw [published]
    refine tracked.once.imp fun {p q} broken event => ?_
    by_cases here : p.drain = d
    · -- This drain has not been broken off.
      have impossible := broken event
      rw [here, unbroken] at impossible
      cases impossible
    · rw [others _ here]
      exact broken event

theorem undispatched_of_candidate {table : Table OutboxEvent} {event : OutboxEvent}
    (mem : event ∈ undispatched table) : event ∈ table.rows ∧ Undispatched table event.id := by
  simp only [OutboxDrain.undispatched, List.mem_filter, Option.isNone_iff_eq_none] at mem
  have found : table.get (.id event.id) = some event := Table.get_of_mem mem.1
  exact ⟨mem.1, by rw [Undispatched, dispatchedAt, found, Option.map_some, mem.2]⟩

theorem nodup_undispatched (table : Table OutboxEvent) : (ids (undispatched table)).Nodup := by
  have keys : (ids table.rows).Nodup := by
    rw [ids, List.Nodup, List.pairwise_map]
    exact table.distinct.imp fun apart same => apart.1 (congrArg RowKey.id same)
  exact keys.sublist (List.filter_sublist.map _)

theorem tracked_claim {candidates : List OutboxEvent} (tracked : Tracked s)
    (idle : (s.drain d).stage = .idle) (all : candidates.Perm (undispatched s.table)) :
    Tracked (s.moved d (.claiming candidates)) := by
  have consistent := tracked.consistent d
  simp only [Consistent, idle] at consistent
  obtain ⟨noBatch, noIds, noWrites⟩ := consistent
  refine tracked_of_quiet tracked rfl rfl rfl (fun _ => id)
    (fun _ _ _ => id) rfl (by simp [idle, Stage.broken])
    (by simp) ?_ ?_ ?_ (by simp)
  · have distinct : (ids candidates).Nodup := (all.map _).nodup_iff.2 (nodup_undispatched s.table)
    simpa [Consistent, noBatch, noIds, noWrites] using distinct
  · simp [noBatch, ids]
  · intro event mem
    simp only [held, noBatch, List.nil_append] at mem
    exact known_of_get (Table.get_of_mem (undispatched_of_candidate (all.subset mem)).1)

/-- The `SELECT` skips a row. -/
theorem tracked_skip {candidate : OutboxEvent} {rest : List OutboxEvent} (tracked : Tracked s)
    (claiming : (s.drain d).stage = .claiming (candidate :: rest)) :
    Tracked (s.moved d (.claiming rest)) := by
  have consistent := tracked.consistent d
  have locked := tracked.locked d (by simp [claiming, Stage.live])
  have known := tracked.known d
  simp only [Consistent, claiming] at consistent
  simp only [held, claiming] at known
  have fewer : ((s.drain d).batch ++ rest).Sublist
      ((s.drain d).batch ++ candidate :: rest) := by simp
  refine tracked_of_quiet tracked rfl rfl rfl (fun _ => id)
    (fun _ _ _ => id) rfl (by simp [claiming, Stage.broken])
    (by simp) ?_ (fun _ => locked) ?_ (by simp)
  · exact ⟨consistent.1.sublist (fewer.map _), consistent.2⟩
  · exact fun event mem => known event (fewer.subset mem)

theorem tracked_lock {candidate row : OutboxEvent} {rest : List OutboxEvent} (tracked : Tracked s)
    (claiming : (s.drain d).stage = .claiming (candidate :: rest))
    (free : s.locks candidate.id = none) (found : s.table.get (.id candidate.id) = some row)
    (undispatched : row.dispatchedAt = none) :
    Tracked
      { s.withDrain d
          { s.drain d with stage := .claiming rest, batch := (s.drain d).batch ++ [row] } with
        locks := Function.update s.locks candidate.id (some d) } := by
  have consistent := tracked.consistent d
  have locked := tracked.locked d (by simp [claiming, Stage.live])
  have known := tracked.known d
  simp only [Consistent, claiming] at consistent
  simp only [held, claiming] at known
  have sameId : row.id = candidate.id := RowKey.id.inj (Table.get_key found)
  -- `SKIP LOCKED` takes a row that no other drain holds.
  have notLocked : ∀ d' x, s.locks x = some d' → x ≠ candidate.id := by
    rintro d' x isLocked rfl
    rw [free] at isLocked
    cases isLocked
  refine tracked_of_quiet tracked rfl rfl rfl (fun _ => id)
    (fun d' x _ isLocked => ?_) rfl (by simp [claiming, Stage.broken])
    (by simp) ?_ (fun _ x mem => ?_) ?_ (by simp)
  · exact (Function.update_of_ne (notLocked d' x isLocked) ..).trans isLocked
  · have distinct := consistent.1
    simp only [Consistent, ids, List.append_assoc, List.map_append, List.map_cons,
      List.singleton_append, sameId] at distinct ⊢
    exact ⟨distinct, consistent.2⟩
  · simp only [ids, List.map_append, List.map_cons, List.map_nil, List.mem_append,
      List.mem_singleton] at mem
    obtain mem | rfl := mem
    · obtain ⟨isLocked, isUndispatched⟩ := locked x mem
      exact ⟨(Function.update_of_ne (notLocked d x isLocked) ..).trans isLocked, isUndispatched⟩
    · rw [sameId]
      exact ⟨Function.update_self ..,
        by rw [Undispatched, dispatchedAt, found, Option.map_some, undispatched]⟩
  · intro event mem
    simp only [held, List.append_assoc, List.mem_append, List.singleton_append,
      List.mem_cons] at mem
    obtain mem | rfl | mem := mem
    · exact known event (List.mem_append_left _ mem)
    · exact known_of_get found
    · exact known event (List.mem_append_right _ (List.mem_cons_of_mem _ mem))

theorem tracked_look {candidate : OutboxEvent} {rest : List OutboxEvent} (tracked : Tracked s)
    (claiming : (s.drain d).stage = .claiming (candidate :: rest)) :
    Tracked (s.look d candidate rest) := by
  unfold State.look
  split
  next => exact tracked_skip tracked claiming
  next free =>
    split
    next => exact tracked_skip tracked claiming
    next row found =>
      split
      next => exact tracked_skip tracked claiming
      next undispatched =>
        exact tracked_lock tracked claiming (by simpa using free)
          found (by simpa using undispatched)

theorem tracked_claimed {candidates : List OutboxEvent} (tracked : Tracked s)
    (claiming : (s.drain d).stage = .claiming candidates) :
    Tracked (s.moved d (.publishing (s.drain d).batch false)) := by
  have consistent := tracked.consistent d
  have locked := tracked.locked d (by simp [claiming, Stage.live])
  have known := tracked.known d
  simp only [Consistent, claiming] at consistent
  simp only [held, claiming] at known
  refine tracked_of_quiet tracked rfl rfl rfl (fun _ => id)
    (fun _ _ _ => id) rfl (by simp [claiming, Stage.broken])
    (by simp) ?_ (fun _ => locked) ?_ (by simp)
  · have distinct : (ids (s.drain d).batch).Nodup :=
      consistent.1.sublist ((List.sublist_append_left _ _).map _)
    simpa [Consistent, consistent.2] using distinct
  · intro event mem
    simp only [held, List.mem_append, or_self] at mem
    exact known event (List.mem_append_left _ mem)

theorem tracked_accept {event : OutboxEvent} {rest : List OutboxEvent} {accepted : Bool}
    (tracked : Tracked s) (publishing : (s.drain d).stage = .publishing (event :: rest) accepted) :
    Tracked { s.moved d (.publishing (event :: rest) true) with
      broker := s.broker ++ [message event] } := by
  have consistent := tracked.consistent d
  have locked := tracked.locked d (by simp [publishing, Stage.live])
  have known := tracked.known d
  simp only [Consistent, publishing] at consistent
  simp only [held, publishing] at known
  refine tracked_of_quiet tracked rfl rfl rfl (List.subset_append_left _ _) (fun _ _ _ => id) rfl
    (by simp [publishing, Stage.broken]) (by simp) consistent (fun _ => locked) known ?_
  intro event' rest' same
  cases same
  exact List.mem_append_right _ (List.mem_singleton.2 rfl)

theorem tracked_reject {event : OutboxEvent} {rest : List OutboxEvent} {accepted : Bool}
    {error : String} (tracked : Tracked s)
    (publishing : (s.drain d).stage = .publishing (event :: rest) accepted) :
    Tracked (s.moved d (.failing event error rest)) := by
  have consistent := tracked.consistent d
  have locked := tracked.locked d (by simp [publishing, Stage.live])
  have known := tracked.known d
  simp only [Consistent, publishing] at consistent
  simp only [held, publishing] at known
  have fewer : ((s.drain d).dispatchedIds ++ ids rest).Sublist
      ((s.drain d).dispatchedIds ++ ids (event :: rest)) := by simp [ids]
  refine tracked_of_quiet tracked rfl rfl rfl (fun _ => id)
    (fun _ _ _ => id) rfl (by simp [publishing, Stage.broken])
    (by simp) ?_ (fun _ => locked) ?_ (by simp)
  · exact ⟨consistent.1.sublist fewer, fun _ mem => consistent.2.1 (fewer.subset mem),
      consistent.2.2⟩
  · intro other mem
    simp only [held, List.mem_append] at mem
    exact known other (List.mem_append.2 (mem.imp_right (List.mem_cons_of_mem _)))

theorem tracked_markFailed {event : OutboxEvent} {error : String} {rest : List OutboxEvent}
    (tracked : Tracked s) (failing : (s.drain d).stage = .failing event error rest) :
    Tracked (s.withDrain d
      { s.drain d with
        stage := .publishing rest false,
        writes := (s.drain d).writes ++ [.failed event.id error] }) := by
  have consistent := tracked.consistent d
  have locked := tracked.locked d (by simp [failing, Stage.live])
  have known := tracked.known d
  simp only [Consistent, failing] at consistent
  simp only [held, failing] at known
  refine tracked_of_quiet tracked rfl rfl rfl (fun _ => id)
    (fun _ _ _ => id) rfl (by simp [failing, Stage.broken])
    (by simp) ?_ (fun _ => locked) known (by simp)
  simpa [Consistent, marked] using consistent

theorem tracked_markDispatched {accepted : Bool} {now : ℕ} (tracked : Tracked s)
    (publishing : (s.drain d).stage = .publishing [] accepted) :
    Tracked (s.withDrain d
      { s.drain d with
        stage := .committing,
        writes := (s.drain d).writes ++ [.dispatched (s.drain d).dispatchedIds now] }) := by
  have consistent := tracked.consistent d
  have locked := tracked.locked d (by simp [publishing, Stage.live])
  have known := tracked.known d
  simp only [Consistent, publishing, ids, List.map_nil, List.append_nil] at consistent
  simp only [held, publishing, List.append_nil] at known
  refine tracked_of_quiet tracked rfl rfl rfl (fun _ => id)
    (fun _ _ _ => id) rfl (by simp [publishing, Stage.broken])
    (by simp) ?_ (fun _ => locked) known (by simp)
  simpa [Consistent, marked, ids, consistent.2.2] using consistent.2.1

theorem locks_ended {stage : Stage} {d' x : ℕ} (other : d' ≠ d) (isLocked : s.locks x = some d') :
    (s.ended d stage).locks x = some d' := by
  simp [State.ended, isLocked, other]

theorem broken_of_live {stage : Stage} (live : stage.live = true) : stage.broken = false := by
  cases stage <;> first | rfl | cases live

theorem live_of_broken {stage : Stage} (broken : stage.broken = true) : stage.live = false := by
  cases stage <;> first | rfl | cases broken

theorem consistent_of_broken {w : Drain} (broken : w.stage.broken = true) : Consistent w := by
  obtain ⟨stage, _, _, _⟩ := w
  cases stage <;> trivial

theorem batch_subset_held (w : Drain) : w.batch ⊆ held w := by
  unfold held
  split <;> simp

theorem held_of_ended {w : Drain} (ended : w.stage.live = false) : held w = w.batch := by
  obtain ⟨stage, _, _, _⟩ := w
  cases stage <;> first | rfl | cases ended

theorem tracked_stop {stage : Stage} (tracked : Tracked s) (live : (s.drain d).stage.live = true)
    (broken : stage.broken = true) : Tracked (s.ended d stage) := by
  have ended : stage.live = false := live_of_broken broken
  refine tracked_of_quiet tracked rfl rfl rfl (fun _ => id) (fun d' x other => locks_ended other)
    rfl (broken_of_live live) ?_
    (consistent_of_broken broken) (fun stillLive => ?_) ?_ (fun event rest publishing => ?_)
  · rintro rfl
    cases broken
  · rw [ended] at stillLive
    cases stillLive
  · rw [held_of_ended ended]
    exact fun event mem => tracked.known d event (batch_subset_held _ mem)
  · rw [show stage = .publishing (event :: rest) true from publishing] at ended
    cases ended

/-- The rows that a drain still has to publish are locked, so no other drain that has published
them has committed, nor is it still at work. -/
theorem broken_of_sent {event : OutboxEvent} {p : Publish} (tracked : Tracked s)
    (live : (s.drain d).stage.live = true) (mem : event.id ∈ ids (s.drain d).batch)
    (unsent : event.id ∉ (s.drain d).dispatchedIds) (sent : p ∈ s.published)
    (same : p.event.id = event.id) : (s.drain p.drain).stage.broken = true := by
  have there := (tracked.sent p sent).1
  rw [same] at there
  obtain ⟨isLocked, isUndispatched⟩ := tracked.locked d live _ mem
  have other : p.drain ≠ d := by
    rintro rfl
    exact unsent there
  have consistent := tracked.consistent p.drain
  have locked := tracked.locked p.drain
  have finished := tracked.finished p.drain
  -- a live drain would hold the lock
  have notLive : (s.drain p.drain).stage.live = true → event.id ∉ ids (s.drain p.drain).batch := by
    intro live' mem'
    have impossible := (locked live' _ mem').1
    rw [isLocked] at impossible
    exact other (Option.some.inj impossible).symm
  cases stage : (s.drain p.drain).stage with
  | idle =>
    simp only [Consistent, stage] at consistent
    rw [consistent.2.1] at there
    cases there
  | claiming candidates =>
    simp only [Consistent, stage] at consistent
    rw [consistent.2.1] at there
    cases there
  | publishing rest accepted =>
    simp only [Consistent, stage] at consistent
    exact absurd (consistent.2.1 (List.mem_append_left _ there))
      (notLive (by simp [stage, Stage.live]))
  | failing event' error rest =>
    simp only [Consistent, stage] at consistent
    exact absurd (consistent.2.1 (List.mem_append_left _ there))
      (notLive (by simp [stage, Stage.live]))
  | committing =>
    simp only [Consistent, stage] at consistent
    exact absurd (consistent.1 there) (notLive (by simp [stage, Stage.live]))
  | committed => exact absurd (finished stage _ there) (not_dispatched isUndispatched)
  | rolledBack | crashed => rfl

theorem tracked_resolve {event : OutboxEvent} {rest : List OutboxEvent} (tracked : Tracked s)
    (publishing : (s.drain d).stage = .publishing (event :: rest) true) :
    Tracked
      { s.withDrain d
          { s.drain d with
            stage := .publishing rest false,
            dispatchedIds := (s.drain d).dispatchedIds ++ [event.id] } with
        published := s.published ++ [⟨d, event⟩] } := by
  have consistent := tracked.consistent d
  have live : (s.drain d).stage.live = true := by simp [publishing, Stage.live]
  have locked := tracked.locked d live
  have known := tracked.known d
  have taken := tracked.inFlight d event rest publishing
  simp only [Consistent, publishing] at consistent
  simp only [held, publishing] at known
  obtain ⟨distinct, inBatch, noMarks⟩ := consistent
  -- The ids of a batch are distinct, so this event has not been resolved before.
  have unsent : event.id ∉ (s.drain d).dispatchedIds := fun mem =>
    (List.nodup_append.1 distinct).2.2 _ mem _ List.mem_cons_self rfl
  have eventInBatch : event.id ∈ ids (s.drain d).batch :=
    inBatch (List.mem_append_right _ List.mem_cons_self)
  set s' : State :=
    { s.withDrain d
        { s.drain d with
          stage := .publishing rest false,
          dispatchedIds := (s.drain d).dispatchedIds ++ [event.id] } with
      published := s.published ++ [⟨d, event⟩] } with isNext
  have own : s'.drain d =
      { s.drain d with
        stage := .publishing rest false,
        dispatchedIds := (s.drain d).dispatchedIds ++ [event.id] } :=
    Function.update_self ..
  have others : ∀ d', d' ≠ d → s'.drain d' = s.drain d' := fun d' other => drain_update_of_ne other
  have more : ∀ d', (s.drain d').dispatchedIds ⊆ (s'.drain d').dispatchedIds := by
    intro d'
    by_cases here : d' = d
    · rw [here, own]
      exact List.subset_append_left _ _
    · rw [others d' here]
      exact fun _ => id
  constructor
  case consistent =>
    intro d'
    by_cases here : d' = d
    · rw [here, own]
      simpa [Consistent, ids, noMarks] using And.intro distinct inBatch
    · rw [others d' here]
      exact tracked.consistent d'
  case locked =>
    intro d' live' x mem
    by_cases here : d' = d
    · subst here
      rw [own] at mem
      exact locked x mem
    · rw [others d' here] at live' mem
      exact tracked.locked d' live' x mem
  case known =>
    intro d' event' mem
    by_cases here : d' = d
    · rw [here, own] at mem
      simp only [held, List.mem_append] at mem
      exact known event' (List.mem_append.2 (mem.imp_right (List.mem_cons_of_mem _)))
    · rw [others d' here] at mem
      exact tracked.known d' event' mem
  case inFlight =>
    intro d' event' rest' publishing'
    by_cases here : d' = d
    · rw [here, own] at publishing'
      cases publishing'
    · rw [others d' here] at publishing'
      exact tracked.inFlight d' event' rest' publishing'
  case sent =>
    intro p mem
    -- The new publication is the event in flight, which its drain has just logged.
    obtain mem | rfl := (List.mem_append.1 mem).imp_right List.mem_singleton.1
    · exact (tracked.sent p mem).imp_left fun there => more _ there
    · refine ⟨?_, taken, known event (List.mem_append_right _ List.mem_cons_self)⟩
      rw [own]
      exact List.mem_append_right _ (List.mem_singleton.2 rfl)
  case logged =>
    intro d' x mem
    by_cases here : d' = d
    · rw [here, own] at mem
      obtain mem | rfl := (List.mem_append.1 mem).imp_right List.mem_singleton.1
      · exact (tracked.logged d x mem).imp fun _ => And.imp_left (List.mem_append_left _)
      · exact ⟨⟨d, event⟩, List.mem_append_right _ (List.mem_singleton.2 rfl), rfl⟩
    · rw [others d' here] at mem
      exact (tracked.logged d' x mem).imp fun _ => And.imp_left (List.mem_append_left _)
  case finished =>
    intro d' committed x mem
    by_cases here : d' = d
    · rw [here, own] at committed
      cases committed
    · rw [others d' here] at committed mem
      exact tracked.finished d' committed x mem
  case origin =>
    exact fun x dispatched => (tracked.origin x dispatched).imp fun _ =>
      And.imp_left (List.mem_append_left _)
  case once =>
    have stillBroken : ∀ p : Publish, (s.drain p.drain).stage.broken = true →
        (s'.drain p.drain).stage.broken = true := by
      intro p broken
      by_cases here : p.drain = d
      · rw [here, publishing] at broken
        cases broken
      · rwa [others _ here]
    refine List.pairwise_append.2 ⟨tracked.once.imp fun broken same => stillBroken _ (broken same),
      List.pairwise_singleton _ _, ?_⟩
    intro p mem q isLast same
    rw [List.mem_singleton.1 isLast] at same
    exact stillBroken p (broken_of_sent tracked live eventInBatch unsent mem same)

/-- The writes of a drain take effect, whether or not the drain is told. -/
theorem tracked_applied {stage : Stage} (tracked : Tracked s)
    (committing : (s.drain d).stage = .committing) (ended : stage.live = false)
    (consistent : Consistent { s.drain d with stage := stage }) :
    Tracked ((s.applied d).ended d stage) := by
  have live : (s.drain d).stage.live = true := by simp [committing, Stage.live]
  have marks := tracked.consistent d
  have locked := tracked.locked d live
  simp only [Consistent, committing] at marks
  obtain ⟨inBatch, marks⟩ := marks
  set s' := (s.applied d).ended d stage with isNext
  have own : s'.drain d = { s.drain d with stage := stage } := Function.update_self ..
  have others : ∀ d', d' ≠ d → s'.drain d' = s.drain d' := fun d' other => drain_update_of_ne other
  have dispatchedIds : ∀ d', (s'.drain d').dispatchedIds = (s.drain d').dispatchedIds := by
    intro d'
    by_cases here : d' = d
    · rw [here, own]
    · rw [others d' here]
  have kept : ∀ {event : OutboxEvent}, Known s.table event → Known s'.table event := known_writes
  have stays : ∀ {x : ℕ}, Dispatched s.table x → Dispatched s'.table x := dispatched_of_writes
  have unmarked : ∀ {x : ℕ}, x ∉ (s.drain d).dispatchedIds →
      dispatchedAt s'.table x = dispatchedAt s.table x := by
    intro x notMine
    exact dispatchedAt_writes (by rwa [marks])
  have mine : ∀ x ∈ (s.drain d).dispatchedIds, Dispatched s'.table x := fun x mem =>
    dispatched_of_marked (locked x (inBatch mem)).2 (by rwa [marks])
  constructor
  case consistent =>
    intro d'
    by_cases here : d' = d
    · rwa [here, own]
    · rw [others d' here]
      exact tracked.consistent d'
  case locked =>
    intro d' live' x mem
    by_cases here : d' = d
    · rw [here, own, ended] at live'
      cases live'
    · rw [others d' here] at live' mem
      obtain ⟨isLocked, isUndispatched⟩ := tracked.locked d' live' x mem
      -- The row is locked by the other drain, so this one has not marked it.
      have notMine : x ∉ (s.drain d).dispatchedIds := by
        intro mine
        have impossible := (locked x (inBatch mine)).1
        rw [isLocked] at impossible
        exact here (Option.some.inj impossible)
      exact ⟨locks_ended (s := s.applied d) here isLocked, (unmarked notMine).trans isUndispatched⟩
  case known =>
    intro d' event mem
    by_cases here : d' = d
    · rw [here, own, held_of_ended ended] at mem
      exact kept (tracked.known d event (batch_subset_held _ mem))
    · rw [others d' here] at mem
      exact kept (tracked.known d' event mem)
  case inFlight =>
    intro d' event rest publishing
    by_cases here : d' = d
    · rw [here, own] at publishing
      rw [show stage = .publishing (event :: rest) true from publishing] at ended
      cases ended
    · rw [others d' here] at publishing
      exact tracked.inFlight d' event rest publishing
  case sent =>
    intro p mem
    rw [dispatchedIds]
    exact (tracked.sent p mem).imp_right fun sent => sent.imp_right kept
  case logged =>
    intro d' x mem
    rw [dispatchedIds] at mem
    exact tracked.logged d' x mem
  case finished =>
    intro d' committed x mem
    rw [dispatchedIds] at mem
    by_cases here : d' = d
    · rw [here] at mem
      exact mine x mem
    · rw [others d' here] at committed
      exact stays (tracked.finished d' committed x mem)
  case origin =>
    intro x dispatched
    -- A mark is one of this transaction or was there before.
    by_cases isMine : x ∈ (s.drain d).dispatchedIds
    · exact tracked.logged d x isMine
    · obtain ⟨time, since⟩ := dispatched
      exact tracked.origin x ⟨time, (unmarked isMine).symm.trans since⟩
  case once =>
    refine tracked.once.imp fun {p q} broken same => ?_
    -- This drain commits, so none of its publications has been broken off.
    by_cases here : p.drain = d
    · have impossible := broken same
      rw [here, committing] at impossible
      cases impossible
    · rw [others _ here]
      exact broken same

theorem tracked_act {action : Action} (tracked : Tracked s)
    (moves : act batchSize s d action = some s') : Tracked s' := by
  cases step_of_act moves with
  | claim idle all _ => exact tracked_claim tracked idle all
  | lockNext claiming _ => exact tracked_look tracked claiming
  | claimed claiming _ => exact tracked_claimed tracked claiming
  | accept publishing => exact tracked_accept tracked publishing
  | resolve publishing => exact tracked_resolve tracked publishing
  | reject publishing => exact tracked_reject tracked publishing
  | markFailed failing => exact tracked_markFailed tracked failing
  | markDispatched publishing => exact tracked_markDispatched tracked publishing
  | commit committing => exact tracked_applied tracked committing rfl trivial
  | commitLost committing => exact tracked_applied tracked committing rfl trivial
  | stop live broken => exact tracked_stop tracked live broken

theorem tracked_next {e : Event} (tracked : Tracked s)
    (moves : next batchSize s e = some s') : Tracked s' := by
  cases e with
  | insert now inputs =>
    obtain ⟨table, inserted, rfl⟩ := Option.map_eq_some_iff.1 moves
    exact tracked_insert tracked inserted
  | drain d action => exact tracked_act tracked moves

theorem tracked_of_reach {condition : State → Event → Prop}
    (reached : Reach batchSize condition s) : Tracked s := by
  induction reached with
  | refl => exact tracked_start
  | step _ _ moves tracked => exact tracked_next tracked moves

/-! ## Nothing is lost, nothing is sent twice -/

/-- Each event of the outbox is undispatched, or was published: the broker has taken its message. -/
def NothingLost (s : State) : Prop :=
  ∀ row ∈ s.table.rows, row.dispatchedAt = none ∨
    ∃ p ∈ s.published, p.event.id = row.id ∧ message p.event = message row ∧ message row ∈ s.broker

/-- Of the drains that have published an event, all but the last ended in a crash or a rollback. -/
def NotSentTwice (s : State) : Prop :=
  s.published.Pairwise fun p q => p.event.id = q.event.id → (s.drain p.drain).stage.broken = true

theorem drain_loses_nothing_and_does_not_double_send (batchSize : ℕ) (s : State)
    (reached : Reach batchSize (fun _ _ => True) s) : NothingLost s ∧ NotSentTwice s := by
  have tracked := tracked_of_reach reached
  refine ⟨fun row mem => ?_, tracked.once⟩
  have found : s.table.get (.id row.id) = some row := Table.get_of_mem mem
  cases since : row.dispatchedAt with
  | none => exact .inl rfl
  | some time =>
    obtain ⟨p, published, same⟩ :=
      tracked.origin row.id ⟨time, by rw [dispatchedAt, found, Option.map_some, since]⟩
    obtain ⟨_, taken, known⟩ := tracked.sent p published
    have sameMessage : message row = message p.event := by
      rw [Known, same, found, Option.map_some] at known
      exact Option.some.inj known
    exact .inr ⟨p, published, same, sameMessage.symm, sameMessage ▸ taken⟩

/-! ## A drain that crashes before its commit -/

def statusChanged (orderId : ℕ) (status : OrderStatus) (eventId : ℕ) : OutboxEventInput where
  aggregateType := "order"
  aggregateId := orderId
  eventType := "order.status_changed"
  eventId := eventId
  payload := .orderStatusChanged 7 1 2 status 3 3 "EGP"

/-- A drain claims one event and publishes it. -/
def sends (d : ℕ) (event : OutboxEvent) : List Event :=
  [.claim [event], .lockNext, .claimed, .accept, .resolve].map (.drain d)

def crashed : List Event :=
  [.insert 5 [(1, statusChanged 1 .accepted 100)]] ++
    sends 0 ((statusChanged 1 .accepted 100).row 1 5) ++ [.drain 0 .crash] ++
    sends 1 ((statusChanged 1 .accepted 100).row 1 5) ++
      [.drain 1 (.markDispatched 6), .drain 1 .commit]

theorem event_of_a_crashed_drain_is_sent_again :
    ∃ s, Reach 10 (fun _ _ => True) s ∧
    s.published.map (fun p => (p.drain, p.event.id)) = [(0, 1), (1, 1)] ∧ NothingLost s ∧
    NotSentTwice s := by
  have ends : (Machine.play (next 10) (fun _ _ => true) crashed .start).any
      (fun s => decide (s.published.map (fun p => (p.drain, p.event.id)) = [(0, 1), (1, 1)])) =
      true := by decide +kernel
  obtain ⟨s, played, isEnd⟩ := (Option.any_eq_true _ _).1 ends
  have reached := Machine.reach_of_play (fun _ _ _ => trivial) played
  exact ⟨s, reached,
    by simpa using isEnd, drain_loses_nothing_and_does_not_double_send 10 s reached⟩

end SwiftBite.Verified.DrainedOnce
