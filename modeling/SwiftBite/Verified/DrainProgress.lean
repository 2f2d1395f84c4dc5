import SwiftBite.Store.Backlog
import SwiftBite.Store.Machine
import SwiftBite.Verified.SendOrder

/-! # How far the drains get

Drains that do not overlap serve the outbox in batches of its oldest events.  An event that the
broker rejects is marked failed and stays undispatched, so it stands in the way of every later
event in all batches to come: fewer of them than a batch slow the outbox down, a batch of them
stops it.
-/

set_option autoImplicit false

namespace SwiftBite.Verified.DrainProgress

open Store OutboxDrain DrainSteps DrainedOnce SendOrder

variable {batchSize d : ℕ} {rejects : ℕ → Bool} {late : ℕ × ℕ → Prop} {s s' : State}
  {queue : List (ℕ × ℕ)}

/-! ## The events that wait -/

/-- An event, and when it was created. -/
def entry (event : OutboxEvent) : ℕ × ℕ := (event.id, event.createdAt)

def waiting (table : Table OutboxEvent) : List (ℕ × ℕ) := (undispatched table).map entry

theorem nodup_waiting (table : Table OutboxEvent) : ((waiting table).map Prod.fst).Nodup := by
  rw [waiting, List.map_map]
  exact nodup_undispatched table

theorem exists_of_waiting {table : Table OutboxEvent} {e : ℕ × ℕ} (member : e ∈ waiting table) :
    ∃ row, table.get (.id e.1) = some row ∧ row.dispatchedAt = none ∧ entry row = e := by
  obtain ⟨row, isRow, rfl⟩ := List.mem_map.1 member
  obtain ⟨inTable, isOpen⟩ := List.mem_filter.1 isRow
  exact ⟨row, Table.get_of_mem inTable, by simpa using isOpen, rfl⟩

theorem undispatched_of_waiting {table : Table OutboxEvent} {e : ℕ × ℕ}
    (member : e ∈ waiting table) : Undispatched table e.1 := by
  obtain ⟨row, found, isOpen, _⟩ := exists_of_waiting member
  rw [Undispatched, dispatchedAt, found, Option.map_some, isOpen]

/-- An event of the table that does not wait was dispatched. -/
theorem dispatched_of_not_waiting {table : Table OutboxEvent} {e : ℕ × ℕ} (there : e ∈ times table)
    (gone : e ∉ waiting table) : Dispatched table e.1 := by
  obtain ⟨row, member, rfl⟩ := List.mem_map.1 there
  have found : table.get (.id row.id) = some row := Table.get_of_mem member
  cases since : row.dispatchedAt with
  | none => exact absurd (List.mem_map_of_mem (List.mem_filter.2 ⟨member, by simp [since]⟩)) gone
  | some time => exact ⟨time, by rw [dispatchedAt, found, Option.map_some, since]⟩

/-- A change of rows that keeps what they are and dispatches some of them. -/
theorem filter_of_changed (rows : List OutboxEvent) {change : OutboxEvent → OutboxEvent}
    (stays : ℕ × ℕ → Bool) (same : ∀ row, entry (change row) = entry row)
    (dispatches : ∀ row, (change row).dispatchedAt.isNone =
      (row.dispatchedAt.isNone && stays (entry row))) :
    ((rows.map change).filter fun row => row.dispatchedAt.isNone).map entry =
      ((rows.filter fun row => row.dispatchedAt.isNone).map entry).filter stays := by
  induction rows with
  | nil => rfl
  | cons row rows inductionHypothesis =>
    rw [List.map_cons, List.filter_cons, dispatches, List.filter_cons]
    cases isOpen : row.dispatchedAt.isNone
    · simpa using inductionHypothesis
    · cases isStays : stays (entry row) <;> simp [isStays, same, inductionHypothesis]

theorem waiting_failed (table : Table OutboxEvent) (i : ℕ) (error : String) :
    waiting ((Write.failed i error).apply table) = waiting table := by
  have kept := filter_of_changed table.rows (fun _ => true)
    (Table.rewrite_congr (k := .id i) (f := failedRow error) fun _ => rfl)
    fun row => by
      rw [Bool.and_true]
      exact Table.rewrite_congr (f := failedRow error)
        (g := fun row : OutboxEvent => row.dispatchedAt.isNone) (fun _ => rfl) row
  exact kept.trans (List.filter_eq_self.2 fun _ _ => rfl)

theorem waiting_dispatched (table : Table OutboxEvent) (ids : List ℕ) (now : ℕ) :
    waiting ((Write.dispatched ids now).apply table) = (waiting table).filter fun e =>
      !decide (e.1 ∈ ids) := by
  simp only [Write.apply]
  induction ids generalizing table with
  | nil => exact (List.filter_eq_self.2 fun _ _ => by simp).symm
  | cons i ids inductionHypothesis =>
    have one : waiting (table.modify (.id i) (dispatchedRow now)) = (waiting table).filter fun e =>
        !decide (e.1 = i) :=
      filter_of_changed table.rows _ (Table.rewrite_congr fun _ => rfl) fun row => by
        by_cases here : row.id = i
        · subst here
          have changed : Table.keepIdentity row (dispatchedRow now row) = dispatchedRow now row :=
            Table.keepIdentity_eq rfl rfl
          rw [Table.rewrite_of_eq (show Store.key row = RowKey.id row.id from rfl), changed]
          simp [dispatchedRow, entry]
        · have other : Store.key row ≠ RowKey.id i := fun same => here (RowKey.id.inj same)
          rw [Table.rewrite_of_ne other]
          simp [entry, here]
    rw [List.foldl_cons, inductionHypothesis, one, List.filter_filter]
    exact List.filter_congr fun e _ => by simp [Bool.and_comm]

theorem waiting_writes (table : Table OutboxEvent) (writes : List Write) :
    waiting (writes.foldl Write.apply table) = (waiting table).filter fun e =>
      !decide (e.1 ∈ writes.flatMap marked) := by
  induction writes generalizing table with
  | nil => exact (List.filter_eq_self.2 fun _ _ => by simp).symm
  | cons write writes inductionHypothesis =>
    rw [List.foldl_cons, inductionHypothesis]
    cases write with
    | failed i error => rw [waiting_failed]; rfl
    | dispatched ids now =>
      rw [waiting_dispatched, List.filter_filter]
      exact List.filter_congr fun e _ => by simp [marked, Bool.and_comm]

theorem waiting_insertAll {now : ℕ} {inputs : List (ℕ × OutboxEventInput)}
    {table table' : Table OutboxEvent} (inserted : insertAll now inputs table = some table') :
    ∃ more, waiting table' = waiting table ++ more ∧ ∀ e ∈ more, e.2 = now ∧
    e.1 ∉ (times table).map Prod.fst := by
  induction inputs generalizing table with
  | nil =>
    cases inserted
    exact ⟨[], (List.append_nil _).symm, fun e impossible => by cases impossible⟩
  | cons input inputs inductionHypothesis =>
    simp only [insertAll, Option.ite_none_left_eq_some, Bool.not_eq_true] at inserted
    obtain ⟨free, inserted⟩ := inserted
    obtain ⟨more, same, fresh⟩ := inductionHypothesis inserted
    have rows := Table.rows_insert free
    have first : waiting (table.insert (input.2.row input.1 now)) =
        waiting table ++ [(input.1, now)] := by
      rw [waiting, undispatched, rows, List.filter_append, List.map_append]
      rfl
    have grown : times (table.insert (input.2.row input.1 now)) =
        times table ++ [(input.1, now)] := by
      rw [times, rows, List.map_append]
      rfl
    refine ⟨(input.1, now) :: more, by rw [same, first, List.append_assoc]; rfl, fun e member => ?_⟩
    rcases List.mem_cons.1 member with rfl | later
    · have distinct := nodup_times (table.insert (input.2.row input.1 now))
      rw [grown, List.map_append, List.nodup_append] at distinct
      exact ⟨rfl, fun there => distinct.2.2 _ there _ List.mem_cons_self rfl⟩
    · obtain ⟨isNow, absent⟩ := fresh e later
      rw [grown, List.map_append, List.mem_append, not_or] at absent
      exact ⟨isNow, absent.1⟩

/-! ## Locks -/

/-- Who has a row locked is under way with it. -/
def Owned (s : State) : Prop :=
  ∀ x d, s.locks x = some d → (s.drain d).stage.live = true ∧ x ∈ ids (s.drain d).batch

theorem owned_of_goes {w : Drain} (owned : Owned s) (drain : s'.drain = Function.update s.drain d w)
    (others : ∀ x d', d' ≠ d → s'.locks x = some d' → s.locks x = some d')
    (own : ∀ x, s'.locks x = some d → w.stage.live = true ∧ x ∈ ids w.batch) : Owned s' := by
  intro x d' locked
  by_cases here : d' = d
  · subst here
    rw [drain, drain_update_self]
    exact own x locked
  · rw [drain, drain_update_of_ne here]
    exact owned x d' (others x d' here locked)

theorem owned_of_same {w : Drain} (owned : Owned s) (drain : s'.drain = Function.update s.drain d w)
    (locks : s'.locks = s.locks) (live : w.stage.live = true)
    (batch : w.batch = (s.drain d).batch) : Owned s' := by
  refine owned_of_goes owned drain (fun x d' _ locked => by rwa [← locks])
    fun x locked => ⟨live, ?_⟩
  rw [batch]
  exact (owned x d (by rwa [← locks])).2

theorem locks_of_ended {stage : Stage} {x d' : ℕ} (locked : (s.ended d stage).locks x = some d') :
    d' ≠ d ∧ s.locks x = some d' := by
  simp only [State.ended] at locked
  split at locked
  next => cases locked
  next other =>
    refine ⟨?_, locked⟩
    rintro rfl
    exact other locked

theorem owned_ended {stage : Stage} (owned : Owned s) : Owned (s.ended d stage) :=
  owned_of_goes owned rfl (fun _ _ _ locked => (locks_of_ended locked).2) fun _ locked =>
    absurd rfl (locks_of_ended locked).1

/-- The `SELECT` passes over a row or locks it. -/
theorem look_cases (candidate : OutboxEvent) (rest : List OutboxEvent) :
    s.look d candidate rest = s.moved d (.claiming rest) ∨
    ∃ row, row.id = candidate.id ∧ s.look d candidate rest =
      { s.withDrain d { s.drain d with
        stage := .claiming rest, batch := (s.drain d).batch ++ [row] } with
        locks := Function.update s.locks candidate.id (some d) } := by
  unfold State.look
  split
  next => exact .inl rfl
  next =>
    split
    next => exact .inl rfl
    next row found =>
      split
      next => exact .inl rfl
      next => exact .inr ⟨row, RowKey.id.inj (Table.get_key found), rfl⟩

theorem owned_look {candidate : OutboxEvent} {rest : List OutboxEvent} (owned : Owned s) :
    Owned (s.look d candidate rest) := by
  obtain passes | ⟨row, sameId, locks⟩ := look_cases (s := s) (d := d) candidate rest
  · rw [passes]
    exact owned_of_same owned rfl rfl rfl rfl
  · rw [locks]
    refine owned_of_goes owned rfl (fun x d' other locked => ?_) fun x locked => ⟨rfl, ?_⟩
    · by_cases here : x = candidate.id
      · subst here
        simp only [Function.update_self, Option.some.injEq] at locked
        exact absurd locked.symm other
      · simpa [State.withDrain, here] using locked
    · rw [ids, List.map_append, List.mem_append]
      by_cases here : x = candidate.id
      · exact .inr (by simp [here, sameId])
      · exact .inl (owned x d (by simpa [State.withDrain, here] using locked)).2

theorem owned_next {e : Event} (owned : Owned s)
    (moves : next batchSize s e = some s') : Owned s' := by
  cases e with
  | insert now inputs =>
    obtain ⟨table, inserted, rfl⟩ := Option.map_eq_some_iff.1 moves
    exact owned
  | drain d action =>
    cases step_of_act moves with
    | lockNext => exact owned_look owned
    | commit | commitLost => exact owned_ended (s := s.applied d) owned
    | stop => exact owned_ended owned
    | _ => exact owned_of_same owned rfl rfl rfl rfl

theorem owned_of_reach {condition : State → Event → Prop}
    (reached : Reach batchSize condition s) : Owned s := by
  induction reached with
  | refl => exact fun _ _ impossible => by cases impossible
  | step _ _ moves owned => exact owned_next owned moves

/-! ## Drains that do not overlap -/

/-- A publish resolves when the broker does not reject the event, and only then. -/
def answers (rejects : ℕ → Bool) (action : Action) (stage : Stage) : Bool :=
  match action, stage with
  | .resolve, .publishing (event :: _) _ => !rejects event.id
  | .reject _, .publishing (event :: _) _ => rejects event.id
  | _, _ => true

/-- No other drain is under way, and the broker rejects the same events at all times. -/
def Orderly (rejects : ℕ → Bool) (s : State) : Event → Prop
  | .insert _ _ => True
  | .drain d action =>
    (∀ d', (s.drain d').stage.live = true → d' = d) ∧
      answers rejects action (s.drain d).stage = true

/-- What the drain of a batch marks as dispatched. -/
def kept (rejects : ℕ → Bool) (entries : List (ℕ × ℕ)) : List ℕ :=
  (entries.filter fun e => !rejects e.1).map Prod.fst

/-- Of its batch, a drain has `left` to do. -/
def Handled (rejects : ℕ → Bool) (batch : List (ℕ × ℕ)) (w : Drain) (left : List (ℕ × ℕ)) : Prop :=
  ∃ done, done ++ left = batch ∧ w.dispatchedIds = kept rejects done ∧ w.writes.flatMap marked = []

/-- How far a drain is that has the whole queue to itself. -/
def Onward (rejects : ℕ → Bool) (batchSize : ℕ) (queue : List (ℕ × ℕ)) (w : Drain) : Prop :=
  match w.stage with
  | .claiming candidates =>
    w.batch.map entry ++ candidates.map entry = queue ∧ w.batch.length ≤ batchSize ∧
      w.dispatchedIds = [] ∧
      w.writes = []
  | .publishing rest _ => Handled rejects (queue.take batchSize) w (rest.map entry)
  | .failing event _ rest =>
    rejects event.id = true ∧
      Handled rejects (queue.take batchSize) w (entry event :: rest.map entry)
  | .committing => w.writes.flatMap marked = kept rejects (queue.take batchSize)
  | _ => True

/-- The queue of a drain is what waited at its snapshot, the oldest first; the others came since. -/
structure Queued (late : ℕ × ℕ → Prop) (table : Table OutboxEvent)
    (queue : List (ℕ × ℕ)) : Prop where
  sorted : queue.Pairwise fun a b => a.2 ≤ b.2
  all : ∃ before more, waiting table = before ++ more ∧ queue.Perm before ∧ ∀ e ∈ more, late e

structure Solo (rejects : ℕ → Bool) (batchSize : ℕ) (late : ℕ × ℕ → Prop) (s : State) : Prop where
  alone (d d' : ℕ) : (s.drain d).stage.live = true → (s.drain d').stage.live = true → d = d'
  onward (d : ℕ) : (s.drain d).stage.live = true →
    ∃ queue, Queued late s.table queue ∧ Onward rejects batchSize queue (s.drain d)

theorem solo_of_quiet (quiet : ∀ d, (s.drain d).stage.live = false) :
    Solo rejects batchSize late s where
  alone d _ live := absurd live (by simp [quiet d])
  onward d live := absurd live (by simp [quiet d])

theorem Queued.subperm {table : Table OutboxEvent} (queued : Queued late table queue) :
    queue.Subperm (waiting table) := by
  obtain ⟨before, more, split, same, _⟩ := queued.all
  rw [split]
  exact same.subperm.trans (List.sublist_append_left before more).subperm

theorem Queued.mem {table : Table OutboxEvent} {e : ℕ × ℕ} (queued : Queued late table queue)
    (member : e ∈ waiting table) (early : ¬ late e) : e ∈ queue := by
  obtain ⟨before, more, split, same, new⟩ := queued.all
  rw [split] at member
  exact same.mem_iff.2 ((List.mem_append.1 member).resolve_right fun isNew => early (new e isNew))

theorem Queued.nodup {table : Table OutboxEvent} (queued : Queued late table queue) :
    (queue.map Prod.fst).Nodup := by
  obtain ⟨before, more, split, same, _⟩ := queued.all
  have distinct := nodup_waiting table
  rw [split, List.map_append] at distinct
  exact (same.map Prod.fst).nodup_iff.2 (List.nodup_append.1 distinct).1

theorem Queued.more {table table' : Table OutboxEvent} {added : List (ℕ × ℕ)}
    (queued : Queued late table queue) (grown : waiting table' = waiting table ++ added)
    (new : ∀ e ∈ added, late e) : Queued late table' queue := by
  obtain ⟨before, more, split, same, late⟩ := queued.all
  refine ⟨queued.sorted, before, more ++ added,
    by rw [grown, split, List.append_assoc], same, fun e member => ?_⟩
  exact (List.mem_append.1 member).elim (late e) (new e)

/-- The only drain under way goes on. -/
theorem solo_of_goes {w : Drain} (alone : ∀ d', (s.drain d').stage.live = true → d' = d)
    (drain : s'.drain = Function.update s.drain d w)
    (onward : w.stage.live = true →
      ∃ queue, Queued late s'.table queue ∧ Onward rejects batchSize queue w) :
    Solo rejects batchSize late s' := by
  have isHere : ∀ d', (s'.drain d').stage.live = true → d' = d := by
    intro d' live
    by_contra other
    rw [drain, drain_update_of_ne other] at live
    exact other (alone d' live)
  refine ⟨fun d₁ d₂ live₁ live₂ => (isHere d₁ live₁).trans (isHere d₂ live₂).symm,
    fun d' live => ?_⟩
  obtain rfl := isHere d' live
  rw [drain, drain_update_self] at live ⊢
  exact onward live

theorem kept_append (a b : List (ℕ × ℕ)) :
    kept rejects (a ++ b) = kept rejects a ++ kept rejects b := by
  rw [kept, List.filter_append, List.map_append]
  rfl

/-- The row that the `SELECT` looks at is there, and nobody else has it. -/
theorem look_of_solo {candidate : OutboxEvent} {rest : List OutboxEvent} (owned : Owned s)
    (alone : ∀ d', (s.drain d').stage.live = true → d' = d)
    (claiming : (s.drain d).stage = .claiming (candidate :: rest))
    (queued : Queued late s.table queue) (onward : Onward rejects batchSize queue (s.drain d)) :
    ∃ row, entry row = entry candidate ∧ s.look d candidate rest =
      { s.withDrain d { s.drain d with
        stage := .claiming rest, batch := (s.drain d).batch ++ [row] } with
        locks := Function.update s.locks candidate.id (some d) } := by
  simp only [Onward, claiming] at onward
  obtain ⟨split, _⟩ := onward
  have member : entry candidate ∈ queue := by simp [← split]
  have distinct := queued.nodup
  rw [← split, List.map_append, List.nodup_append] at distinct
  -- A lock would be this drain's own, and the queue has the event once.
  have free : s.locks candidate.id = none := by
    rw [Option.eq_none_iff_forall_ne_some]
    intro d' locked
    obtain ⟨live, inBatch⟩ := owned candidate.id d' locked
    obtain rfl := alone d' live
    obtain ⟨row, isRow, sameId⟩ := List.mem_map.1 inBatch
    have first : candidate.id ∈ ((s.drain d').batch.map entry).map Prod.fst := by
      rw [← sameId]
      exact List.mem_map_of_mem (f := Prod.fst) (List.mem_map_of_mem isRow)
    exact distinct.2.2 _ first candidate.id (by simp [entry]) rfl
  obtain ⟨row, found, isOpen, same⟩ := exists_of_waiting (queued.subperm.subset member)
  have there : s.table.get (.id candidate.id) = some row := found
  exact ⟨row, same, by simp [State.look, free, there, isOpen]⟩

theorem solo_act {action : Action} (tracked : Tracked s) (owned : Owned s)
    (solo : Solo rejects batchSize late s) (orderly : Orderly rejects s (.drain d action))
    (moves : act batchSize s d action = some s') : Solo rejects batchSize late s' := by
  obtain ⟨alone, answered⟩ := orderly
  have going : ∀ {stage : Stage}, (s.drain d).stage = stage → stage.live = true →
      ∃ queue, Queued late s.table queue ∧ Onward rejects batchSize queue (s.drain d) :=
    fun at' live => solo.onward d (at' ▸ live)
  cases step_of_act moves with
  | @claim candidates idle all sorted =>
    have consistent := tracked.consistent d
    simp only [Consistent, idle] at consistent
    obtain ⟨noBatch, noIds, noWrites⟩ := consistent
    refine solo_of_goes alone rfl fun _ =>
      ⟨candidates.map entry, ⟨?_, waiting s.table, [], ?_, all.map entry, ?_⟩, ?_⟩
    · exact List.pairwise_map.2 sorted
    · exact (List.append_nil _).symm
    · exact fun _ impossible => by cases impossible
    · simp [Onward, noBatch, noIds, noWrites]
  | @lockNext candidate rest claiming room =>
    obtain ⟨queue, queued, onward⟩ := going claiming rfl
    obtain ⟨row, same, looks⟩ := look_of_solo owned alone claiming queued onward
    rw [looks]
    simp only [Onward, claiming] at onward
    obtain ⟨split, _, noIds, noWrites⟩ := onward
    refine solo_of_goes alone rfl fun _ => ⟨queue, queued, ?_, ?_, noIds, noWrites⟩
    · rw [List.map_append, List.append_assoc, ← split]
      simp [same]
    · rw [List.length_append]
      exact room
  | @claimed candidates claiming full =>
    obtain ⟨queue, queued, onward⟩ := going claiming rfl
    simp only [Onward, claiming] at onward
    obtain ⟨split, short, noIds, noWrites⟩ := onward
    refine solo_of_goes alone rfl fun _ => ⟨queue, queued, [], ?_, noIds, by simp [noWrites]⟩
    -- The `SELECT` ends with the queue or with the batch.
    rcases full with rfl | long
    · rw [← split, List.map_nil, List.append_nil, List.take_of_length_le (by simpa using short)]
      rfl
    · have exact' : ((s.drain d).batch.map entry).length = batchSize := by
        rw [List.length_map]
        exact le_antisymm short long
      rw [← split, List.take_left' exact']
      rfl
  | accept publishing =>
    obtain ⟨queue, queued, onward⟩ := going publishing rfl
    simp only [Onward, publishing] at onward
    exact solo_of_goes alone rfl fun _ => ⟨queue, queued, onward⟩
  | @resolve event rest publishing =>
    obtain ⟨queue, queued, onward⟩ := going publishing rfl
    simp only [Onward, publishing] at onward
    obtain ⟨done, split, isKept, noWrites⟩ := onward
    have accepted : rejects event.id = false := by simpa [answers, publishing] using answered
    refine solo_of_goes alone rfl fun _ => ⟨queue, queued, done ++ [entry event], ?_, ?_, noWrites⟩
    · rw [← split, List.append_assoc]
      rfl
    · rw [kept_append, ← isKept]
      simp [kept, entry, accepted]
  | @reject event rest accepted error publishing =>
    obtain ⟨queue, queued, onward⟩ := going publishing rfl
    simp only [Onward, publishing] at onward
    have rejected : rejects event.id = true := by simpa [answers, publishing] using answered
    exact solo_of_goes alone rfl fun _ => ⟨queue, queued, rejected, onward⟩
  | @markFailed event error rest failing =>
    obtain ⟨queue, queued, onward⟩ := going failing rfl
    simp only [Onward, failing] at onward
    obtain ⟨rejected, done, split, isKept, noWrites⟩ := onward
    refine solo_of_goes alone rfl fun _ => ⟨queue, queued, done ++ [entry event], ?_, ?_, ?_⟩
    · rw [← split, List.append_assoc]
      rfl
    · rw [kept_append, ← isKept]
      simp [kept, entry, rejected]
    · rw [List.flatMap_append, noWrites]
      rfl
  | markDispatched publishing =>
    obtain ⟨queue, queued, onward⟩ := going publishing rfl
    simp only [Onward, publishing] at onward
    obtain ⟨done, split, isKept, noWrites⟩ := onward
    rw [List.map_nil, List.append_nil] at split
    refine solo_of_goes alone rfl fun _ => ⟨queue, queued, ?_⟩
    rw [Onward, List.flatMap_append, noWrites, ← split, ← isKept]
    simp [marked]
  | commit | commitLost => exact solo_of_goes (d := d) alone rfl fun live => by cases live
  | stop _ broken =>
    exact solo_of_goes alone rfl fun live => absurd live (by simp [live_of_broken broken])

/-! ## What a step does to the events that wait -/

/-- What a drain with this queue takes off the outbox when it commits. -/
def serves (rejects : ℕ → Bool) (batchSize : ℕ) (queue : List (ℕ × ℕ)) (e : ℕ × ℕ) : Bool :=
  decide (e.1 ∈ kept rejects (queue.take batchSize))

theorem serves_of_taken {e : ℕ × ℕ} (taken : e ∈ queue.take batchSize)
    (accepted : rejects e.1 = false) : serves rejects batchSize queue e = true :=
  decide_eq_true (List.mem_map_of_mem (List.mem_filter.2 ⟨taken, by simp [accepted]⟩))

theorem not_serves_of_rejected {e : ℕ × ℕ} (rejected : rejects e.1 = true) :
    serves rejects batchSize queue e = false := by
  refine decide_eq_false fun member => ?_
  obtain ⟨other, among, same⟩ := List.mem_map.1 member
  have accepted := (List.mem_filter.1 among).2
  simp [same, rejected] at accepted

theorem waiting_look (candidate : OutboxEvent) (rest : List OutboxEvent) :
    waiting (s.look d candidate rest).table = waiting s.table := by
  obtain passes | ⟨_, _, locks⟩ := look_cases (s := s) (d := d) candidate rest
  · rw [passes]
    rfl
  · rw [locks]
    rfl

theorem commit_of_act (moves : act batchSize s d .commit = some s') :
    (s.drain d).stage = .committing ∧ s' = (s.applied d).ended d .committed := by
  unfold act at moves
  generalize atStage : (s.drain d).stage = stage at moves
  cases stage <;> simp only [reduceCtorEq] at moves
  cases moves
  exact ⟨rfl, rfl⟩

/-- A commit takes the accepted events of the batch off the outbox, and every other step of a drain
leaves what waits as it is or does the same. -/
theorem waiting_act {action : Action} (solo : Solo rejects batchSize late s)
    (moves : act batchSize s d action = some s') :
    (waiting s'.table = waiting s.table ∧ action ≠ .commit) ∨
      ∃ queue, Queued late s.table queue ∧
        waiting s'.table = (waiting s.table).filter fun e => !serves rejects batchSize queue e := by
  have served : (s.drain d).stage = .committing → ∃ queue, Queued late s.table queue ∧
      waiting (s.applied d).table = (waiting s.table).filter fun e =>
        !serves rejects batchSize queue e := by
    intro committing
    obtain ⟨queue, queued, onward⟩ := solo.onward d (by rw [committing]; rfl)
    simp only [Onward, committing] at onward
    exact ⟨queue, queued, by rw [State.applied, waiting_writes, onward]; rfl⟩
  by_cases isCommit : action = .commit
  · subst isCommit
    obtain ⟨committing, rfl⟩ := commit_of_act moves
    exact .inr (served committing)
  · cases step_of_act moves with
    | lockNext => exact .inl ⟨waiting_look .., isCommit⟩
    | commit committing | commitLost committing => exact .inr (served committing)
    | _ => exact .inl ⟨rfl, isCommit⟩

/-! ## Runs -/

/-- How many drains an event commits. -/
def commits : Event → ℕ
  | .drain _ .commit => 1
  | _ => 0

/-- A run of allowed events, and how many drains commit in it. -/
inductive Runs (batchSize : ℕ) (allowed : State → Event → Prop)
    (start : State) : ℕ → State → Prop where
  | refl : Runs batchSize allowed start 0 start
  | step {k : ℕ} {s s' : State} {e : Event} :
      Runs batchSize allowed start k s → allowed s e → next batchSize s e = some s' →
      Runs batchSize allowed start (k + commits e) s'

theorem times_next {e : Event} (moves : next batchSize s e = some s') :
    ∃ more, times s'.table = times s.table ++ more := by
  cases e with
  | insert now inputs =>
    obtain ⟨table, inserted, rfl⟩ := Option.map_eq_some_iff.1 moves
    exact times_insertAll inserted
  | drain d action => exact ⟨[], by rw [times_act moves, List.append_nil]⟩

/-- What every state of an orderly run has. -/
structure Sound (rejects : ℕ → Bool) (batchSize : ℕ) (late : ℕ × ℕ → Prop) (s : State) : Prop where
  tracked : Tracked s
  owned : Owned s
  solo : Solo rejects batchSize late s

theorem sound_of_quiet {condition : State → Event → Prop} (reached : Reach batchSize condition s)
    (quiet : ∀ d, (s.drain d).stage.live = false) : Sound rejects batchSize late s :=
  ⟨tracked_of_reach reached, owned_of_reach reached, solo_of_quiet quiet⟩

theorem sound_next {e : Event} (sound : Sound rejects batchSize late s)
    (orderly : Orderly rejects s e)
    (new : ∀ now inputs, e = .insert now inputs → ∀ x : ℕ × ℕ, x.2 = now →
      x.1 ∉ (times s.table).map Prod.fst → late x) (moves : next batchSize s e = some s') :
    Sound rejects batchSize late s' := by
  refine ⟨tracked_next sound.tracked moves, owned_next sound.owned moves, ?_⟩
  cases e with
  | insert now inputs =>
    obtain ⟨table, inserted, rfl⟩ := Option.map_eq_some_iff.1 moves
    obtain ⟨more, grown, fresh⟩ := waiting_insertAll inserted
    refine ⟨sound.solo.alone, fun d live => ?_⟩
    obtain ⟨queue, queued, onward⟩ := sound.solo.onward d live
    exact ⟨queue, queued.more grown fun x member =>
      new now inputs rfl x (fresh x member).1 (fresh x member).2, onward⟩
  | drain d action => exact solo_act sound.tracked sound.owned sound.solo orderly moves

theorem others_of_act {action : Action} {d' : ℕ} (other : d' ≠ d)
    (moves : act batchSize s d action = some s') : s'.drain d' = s.drain d' := by
  cases step_of_act moves with
  | @lockNext candidate rest =>
    obtain passes | ⟨_, _, locks⟩ := look_cases (s := s) (d := d) candidate rest
    · rw [passes]
      exact drain_update_of_ne other
    · rw [locks]
      exact drain_update_of_ne other
  | _ => exact drain_update_of_ne other

/-- One drain takes all steps. -/
def onlyHere (rejects : ℕ → Bool) (d : ℕ) (s : State) : Event → Bool
  | .insert _ _ => false
  | .drain d' action => decide (d' = d) && answers rejects action (s.drain d').stage

/-- A drain that is alone is so until it is over. -/
theorem runs_of_actions {allowed : State → Event → Prop} {actions : List Action}
    (allows : ∀ s action, Orderly rejects s (.drain d action) → allowed s (.drain d action))
    (alone : ∀ d', (s.drain d').stage.live = true → d' = d)
    (played : Machine.play (next batchSize) (onlyHere rejects d) (actions.map (.drain d)) s =
      some s') {start : State} {k : ℕ} (before : Runs batchSize allowed start k s) :
    Runs batchSize allowed start (k + ((actions.map (Event.drain d)).map commits).sum) s' := by
  induction actions generalizing s k with
  | nil =>
    cases played
    exact before
  | cons action actions inductionHypothesis =>
    rw [List.map_cons, Machine.play] at played
    split at played
    next checked =>
      obtain ⟨between, moves, rest⟩ := Option.bind_eq_some_iff.1 played
      have orderly : Orderly rejects s (.drain d action) :=
        ⟨alone, (Bool.and_eq_true_iff.1 checked).2⟩
      have still : ∀ d', (between.drain d').stage.live = true → d' = d := by
        intro d' live
        by_contra other
        rw [others_of_act other moves] at live
        exact other (alone d' live)
      have onwards := inductionHypothesis still rest (before.step (allows s action orderly) moves)
      rwa [List.map_cons, List.map_cons, List.sum_cons, ← Nat.add_assoc]
    next => cases played

/-! ## Events are caught up with -/

/-- How many of the events created no later than `time` the broker will take. -/
def due (rejects : ℕ → Bool) (time : ℕ) (table : Table OutboxEvent) : ℕ :=
  (waiting table).countP fun e => decide (e.2 ≤ time) && !rejects e.1

/-- How many of the events created no later than `time` it rejects. -/
def stuck (rejects : ℕ → Bool) (time : ℕ) (table : Table OutboxEvent) : ℕ :=
  (waiting table).countP fun e => decide (e.2 ≤ time) && rejects e.1

/-- Whatever is inserted is created after `time`. -/
def Later (time : ℕ) : Event → Prop
  | .insert now _ => time < now
  | .drain _ _ => True

/-- An event that still waits is nearer by so many accepted events for each drain that has
committed. -/
structure Nearing (rejects : ℕ → Bool) (batchSize : ℕ) (x : ℕ × ℕ) (ahead blocked k : ℕ)
    (s : State) : Prop where
  sound : Sound rejects batchSize (fun e => x.2 < e.2) s
  there : x ∈ times s.table
  near : x ∈ waiting s.table → due rejects x.2 s.table + k * (batchSize - blocked) ≤ ahead ∧
    stuck rejects x.2 s.table ≤ blocked

theorem countP_later {more : List (ℕ × ℕ)} {time : ℕ} {p : ℕ × ℕ → Bool}
    (later : ∀ e ∈ more, time < e.2) : more.countP (fun e => decide (e.2 ≤ time) && p e) = 0 :=
  List.countP_eq_zero.2 fun e member => by
    have isLater := later e member
    simp [Nat.not_le.2 isLater]

/-- A commit serves the event, or as many others as its batch has room for. -/
theorem nearer_of_served {x : ℕ × ℕ} {ahead blocked k more : ℕ} {table : Table OutboxEvent}
    (few : more ≤ 1) (accepted : rejects x.1 = false)
    (queued : Queued (fun e => x.2 < e.2) s.table queue)
    (left : waiting table = (waiting s.table).filter fun e => !serves rejects batchSize queue e)
    (near : due rejects x.2 s.table + k * (batchSize - blocked) ≤ ahead ∧
      stuck rejects x.2 s.table ≤ blocked) (waits : x ∈ waiting table) :
    due rejects x.2 table + (k + more) * (batchSize - blocked) ≤ ahead ∧
    stuck rejects x.2 table ≤ blocked := by
  rw [left] at waits
  obtain ⟨waited, unserved⟩ := List.mem_filter.1 waits
  have inQueue : x ∈ queue := queued.mem waited (lt_irrefl _)
  have notTaken : x ∉ queue.take batchSize :=
    fun taken => by simp [serves_of_taken taken accepted] at unserved
  -- The batch is full of older events, and of those it is done with all that are not stuck.
  have room :=
    Backlog.done_of_not_taken Prod.snd (fun e => rejects e.1) queued.sorted inQueue notTaken le_rfl
  have blockers : queue.countP (fun e => decide (e.2 ≤ x.2) && rejects e.1) ≤
      stuck rejects x.2 s.table := queued.subperm.countP_le _
  have fewer : due rejects x.2 table +
      (queue.take batchSize).countP (fun e => decide (e.2 ≤ x.2) && !rejects e.1) ≤
      due rejects x.2 s.table := by
    rw [due, left]
    refine Backlog.countP_filter_add ((List.take_sublist _ _).subperm.trans queued.subperm)
      fun e taken isDue => ?_
    simp only [Bool.and_eq_true, Bool.not_eq_true'] at isDue
    exact serves_of_taken taken isDue.2
  have noMore : stuck rejects x.2 table ≤ stuck rejects x.2 s.table := by
    rw [stuck, left]
    exact List.filter_sublist.countP_le
  obtain ⟨soFar, isStuck⟩ := near
  have served : more * (batchSize - blocked) ≤ batchSize - blocked := by
    calc more * (batchSize - blocked) ≤ 1 * (batchSize - blocked) := Nat.mul_le_mul_right _ few
      _ = batchSize - blocked := Nat.one_mul _
  rw [Nat.add_mul]
  omega

theorem nearing_next {e : Event} {x : ℕ × ℕ} {ahead blocked k : ℕ}
    (nearing : Nearing rejects batchSize x ahead blocked k s) (accepted : rejects x.1 = false)
    (orderly : Orderly rejects s e) (later : Later x.2 e) (moves : next batchSize s e = some s') :
    Nearing rejects batchSize x ahead blocked (k + commits e) s' := by
  obtain ⟨more, grown⟩ := times_next moves
  have there : x ∈ times s'.table := by
    rw [grown]
    exact List.mem_append_left _ nearing.there
  refine ⟨sound_next nearing.sound orderly ?_ moves, there, fun waits => ?_⟩
  · rintro now inputs rfl y rfl _
    exact later
  cases e with
  | insert now inputs =>
    obtain ⟨table, inserted, rfl⟩ := Option.map_eq_some_iff.1 moves
    obtain ⟨added, grownWaiting, fresh⟩ := waiting_insertAll inserted
    -- What is inserted now comes after the event.
    have isLater : ∀ y ∈ added, x.2 < y.2 := fun y member => by
      rw [(fresh y member).1]
      exact later
    have waited : x ∈ waiting s.table := by
      rw [grownWaiting] at waits
      exact (List.mem_append.1 waits).resolve_right fun isNew => lt_irrefl _ (isLater x isNew)
    rw [due, stuck, grownWaiting, List.countP_append, List.countP_append, countP_later isLater,
      countP_later isLater]
    exact nearing.near waited
  | drain d action =>
    obtain ⟨same, other⟩ | ⟨queue, queued, left⟩ := waiting_act nearing.sound.solo moves
    · have none : commits (.drain d action) = 0 := by
        cases action <;> first | rfl | exact absurd rfl other
      rw [same] at waits
      rw [due, stuck, same, none]
      exact nearing.near waits
    · -- A commit serves the head of the queue, and counts once.
      have few : commits (.drain d action) ≤ 1 := by cases action <;> simp [commits]
      have waited : x ∈ waiting s.table := by
        rw [left] at waits
        exact List.mem_of_mem_filter waits
      exact nearer_of_served few accepted queued left (nearing.near waited) waits

theorem nearing_of_runs {start : State} {x : ℕ × ℕ} {ahead blocked k : ℕ}
    (begins : Nearing rejects batchSize x ahead blocked 0 start) (accepted : rejects x.1 = false)
    (runs : Runs batchSize (fun s e => Orderly rejects s e ∧ Later x.2 e) start k s) :
    Nearing rejects batchSize x ahead blocked k s := by
  induction runs with
  | refl => exact begins
  | step _ allowed moves nearing => exact nearing_next nearing accepted allowed.1 allowed.2 moves

theorem entry_mem {table : Table OutboxEvent} {event : OutboxEvent}
    (waits : event ∈ undispatched table) :
    entry event ∈ waiting table ∧ entry event ∈ times table :=
  ⟨List.mem_map_of_mem waits, List.mem_map_of_mem (List.mem_of_mem_filter waits)⟩

/-- Drains that do not overlap catch up with an event that the broker accepts: each that commits
brings it nearer by the room that the rejected events before it leave in a batch. -/
theorem events_are_caught_up (batchSize k : ℕ) (rejects : ℕ → Bool) (s s' : State)
    (event : OutboxEvent) (reached : Reach batchSize (fun _ _ => True) s)
    (quiet : ∀ d, (s.drain d).stage.live = false) (waits : event ∈ undispatched s.table)
    (accepted : rejects event.id = false)
    (enough : due rejects event.createdAt s.table ≤
      k * (batchSize - stuck rejects event.createdAt s.table))
    (runs : Runs batchSize (fun s e => Orderly rejects s e ∧ Later event.createdAt e) s k s') :
    Dispatched s'.table event.id := by
  obtain ⟨waiting', there⟩ := entry_mem waits
  have begins : Nearing rejects batchSize (entry event) (due rejects event.createdAt s.table)
      (stuck rejects event.createdAt s.table) 0 s :=
    ⟨sound_of_quiet reached quiet, there, fun _ => ⟨by simp [entry], le_rfl⟩⟩
  have ends := nearing_of_runs begins accepted runs
  refine dispatched_of_not_waiting ends.there fun still => ?_
  -- The event itself is one of those that are due.
  have one : 0 < due rejects event.createdAt s'.table :=
    List.countP_pos_iff.2 ⟨_, still, by simp [entry, accepted]⟩
  have near := (ends.near still).1
  simp only [entry] at near
  omega

/-- The broker rejects the first event. -/
def firstRejected (id : ℕ) : Bool := decide (id = 1)

def bothInserted : State :=
  { State.start with table := (Table.empty.insert (first 5)).insert (second 6) }

theorem reach_bothInserted (batchSize : ℕ) : Reach batchSize (fun _ _ => True) bothInserted :=
  .step (e := insertSecond 6) (.step (e := insertFirst 5) .refl trivial rfl) trivial rfl

/-- A drain with room for both publishes the second. -/
def drainsBoth : List Action :=
  [.claim [first 5, second 6], .lockNext, .lockNext, .claimed, .reject "message too large",
    .markFailed, .accept, .resolve,
    .markDispatched 7, .commit]

theorem event_behind_a_rejected_one_is_sent :
    ∃ s, Runs 2 (fun s e => Orderly firstRejected s e ∧ Later 6 e) bothInserted 1 s ∧
    Dispatched s.table 2 := by
  have ends : (Machine.play (next 2) (onlyHere firstRejected 0)
      (drainsBoth.map (.drain 0)) bothInserted).isSome = true := by
    decide +kernel
  obtain ⟨s, played⟩ := Option.isSome_iff_exists.1 ends
  have runs : Runs 2 (fun s e => Orderly firstRejected s e ∧ Later 6 e) bothInserted 1 s :=
    runs_of_actions (fun _ _ orderly => ⟨orderly, trivial⟩)
      (fun _ live => by cases live) played .refl
  exact ⟨s, runs, events_are_caught_up 2 1 firstRejected bothInserted s (second 6)
    (reach_bothInserted 2) (fun _ => rfl)
    (by decide +kernel) rfl (by decide +kernel) runs⟩

/-! ## Events are starved -/

/-- A batch of rejected events from before the run stands in front of the event. -/
structure Starved (rejects : ℕ → Bool) (batchSize : ℕ) (base : List ℕ) (x : ℕ × ℕ)
    (s : State) : Prop where
  sound : Sound rejects batchSize (fun e => e.1 ∉ base) s
  known : ∀ id ∈ base, id ∈ (times s.table).map Prod.fst
  waits : x ∈ waiting s.table
  blocked : batchSize ≤ (waiting s.table).countP fun e =>
    decide (e.2 < x.2) && (rejects e.1 && decide (e.1 ∈ base))

theorem starved_of_served {base : List ℕ} {x : ℕ × ℕ} {table : Table OutboxEvent}
    (starved : Starved rejects batchSize base x s) (old : x.1 ∈ base)
    (queued : Queued (fun e => e.1 ∉ base) s.table queue)
    (left : waiting table = (waiting s.table).filter fun e => !serves rejects batchSize queue e) :
    x ∈ waiting table ∧
      batchSize ≤ (waiting table).countP fun e =>
        decide (e.2 < x.2) && (rejects e.1 && decide (e.1 ∈ base)) := by
  have unserved : serves rejects batchSize queue x = false := by
    by_contra served
    rw [Bool.not_eq_false] at served
    obtain ⟨y, member, sameId⟩ := List.mem_map.1 (of_decide_eq_true served)
    have taken : y ∈ queue.take batchSize := List.mem_of_mem_filter member
    have waitsToo := queued.subperm.subset (List.mem_of_mem_take taken)
    obtain rfl : y = x :=
      List.inj_on_of_nodup_map (nodup_waiting s.table) waitsToo starved.waits sameId
    have few := Backlog.few_older_of_taken Prod.snd queued.sorted taken
    -- All that blocks the event is in the queue, in front of it.
    obtain ⟨before, more, split, same, new⟩ := queued.all
    have blocked := starved.blocked
    have noneNew :
        more.countP (fun e => decide (e.2 < y.2) && (rejects e.1 && decide (e.1 ∈ base))) = 0 :=
      List.countP_eq_zero.2 fun e isNew => by simp [new e isNew]
    rw [split, List.countP_append, noneNew, ← same.countP_eq] at blocked
    have older :
        queue.countP (fun e => decide (e.2 < y.2) && (rejects e.1 && decide (e.1 ∈ base))) ≤
        queue.countP fun e => decide (e.2 < y.2) :=
      List.countP_mono_left fun e _ isBlocker => (Bool.and_eq_true_iff.1 isBlocker).1
    omega
  have waits : x ∈ waiting table := by
    rw [left]
    exact List.mem_filter.2 ⟨starved.waits, by simp [unserved]⟩
  refine ⟨waits, ?_⟩
  -- None of the rejected events is served, so all stay in front.
  rw [left, List.countP_filter]
  refine starved.blocked.trans (List.countP_mono_left fun e _ isBlocker => ?_)
  have rejected : rejects e.1 = true := by
    simp only [Bool.and_eq_true] at isBlocker
    exact isBlocker.2.1
  rw [isBlocker, not_serves_of_rejected rejected]
  rfl

theorem starved_next {e : Event} {base : List ℕ} {x : ℕ × ℕ}
    (starved : Starved rejects batchSize base x s) (old : x.1 ∈ base)
    (orderly : Orderly rejects s e) (moves : next batchSize s e = some s') :
    Starved rejects batchSize base x s' := by
  obtain ⟨more, grown⟩ := times_next moves
  have sound : Sound rejects batchSize (fun e => e.1 ∉ base) s' :=
    sound_next starved.sound orderly
      (fun _ _ _ y _ absent isOld => absent (starved.known y.1 isOld)) moves
  have known : ∀ id ∈ base, id ∈ (times s'.table).map Prod.fst := fun id isOld => by
    rw [grown, List.map_append]
    exact List.mem_append_left _ (starved.known id isOld)
  cases e with
  | insert now inputs =>
    obtain ⟨table, inserted, rfl⟩ := Option.map_eq_some_iff.1 moves
    obtain ⟨added, grownWaiting, _⟩ := waiting_insertAll inserted
    refine ⟨sound, known, ?_, ?_⟩
    · rw [grownWaiting]
      exact List.mem_append_left _ starved.waits
    · rw [grownWaiting, List.countP_append]
      exact le_add_right starved.blocked
  | drain d action =>
    obtain ⟨same, _⟩ | ⟨queue, queued, left⟩ := waiting_act starved.sound.solo moves
    · exact ⟨sound, known, by rw [same]; exact starved.waits, by rw [same]; exact starved.blocked⟩
    · obtain ⟨waits, blocked⟩ := starved_of_served starved old queued left
      exact ⟨sound, known, waits, blocked⟩

/-- As long as the drains do not overlap, an event that has a batch of rejected older ones in front
of it is never dispatched, however many drains commit. -/
theorem events_are_starved (batchSize k : ℕ) (rejects : ℕ → Bool) (s s' : State)
    (event : OutboxEvent) (reached : Reach batchSize (fun _ _ => True) s)
    (quiet : ∀ d, (s.drain d).stage.live = false) (waits : event ∈ undispatched s.table)
    (blocked : batchSize ≤ (undispatched s.table).countP fun other =>
      decide (other.createdAt < event.createdAt) && rejects other.id)
    (runs : Runs batchSize (Orderly rejects) s k s') : Undispatched s'.table event.id := by
  obtain ⟨isWaiting, there⟩ := entry_mem waits
  have old : (entry event).1 ∈ (times s.table).map Prod.fst := List.mem_map_of_mem there
  have begins : Starved rejects batchSize ((times s.table).map Prod.fst) (entry event) s := by
    refine ⟨sound_of_quiet reached quiet, fun _ => id, isWaiting, blocked.trans ?_⟩
    rw [waiting, List.countP_map]
    refine List.countP_mono_left fun other isOpen isBlocker => ?_
    have isOld : other.id ∈ (times s.table).map Prod.fst :=
      List.mem_map_of_mem (f := Prod.fst) (entry_mem isOpen).2
    obtain ⟨isOlder, rejected⟩ := Bool.and_eq_true_iff.1 isBlocker
    exact Bool.and_eq_true_iff.2 ⟨decide_eq_true (of_decide_eq_true isOlder),
      Bool.and_eq_true_iff.2 ⟨rejected, decide_eq_true isOld⟩⟩
  have ends : Starved rejects batchSize ((times s.table).map Prod.fst) (entry event) s' := by
    induction runs with
    | refl => exact begins
    | step _ orderly moves starved => exact starved_next starved old orderly moves
  exact undispatched_of_waiting ends.waits

/-- A drain with room for one does not look at the second. -/
def drainsFirst : List Action :=
  [.claim [first 5, second 6], .lockNext, .claimed, .reject "message too large", .markFailed,
    .markDispatched 7, .commit]

theorem event_behind_a_rejected_one_is_starved :
    ∃ s, Runs 1 (Orderly firstRejected) bothInserted 1 s ∧ Undispatched s.table 2 := by
  have ends : (Machine.play (next 1) (onlyHere firstRejected 0)
      (drainsFirst.map (.drain 0)) bothInserted).isSome = true := by
    decide +kernel
  obtain ⟨s, played⟩ := Option.isSome_iff_exists.1 ends
  have runs : Runs 1 (Orderly firstRejected) bothInserted 1 s :=
    runs_of_actions (fun _ _ orderly => orderly) (fun _ live => by cases live) played .refl
  exact ⟨s, runs, events_are_starved 1 1 firstRejected bothInserted s (second 6)
    (reach_bothInserted 1) (fun _ => rfl)
    (by decide +kernel) (by decide +kernel) runs⟩

end SwiftBite.Verified.DrainProgress
