import SwiftBite.Messaging.OutboxDrain

/-! # The steps of a drain and the rows they write

One transition for each action of a drain, and what its writes and the inserts of others do to
the rows of `events_outbox`.
-/

set_option autoImplicit false

namespace SwiftBite.Verified.DrainSteps

open Store OutboxDrain

variable {batchSize d : ℕ} {s s' : State}

/-! ## What a drain can do -/

/-- The transitions of a drain, one by one. -/
inductive Step (batchSize : ℕ) (s : State) (d : ℕ) : Action → State → Prop where
  | claim {candidates : List OutboxEvent} (idle : (s.drain d).stage = .idle)
      (all : candidates.Perm (undispatched s.table))
      (sorted : candidates.Pairwise fun a b => a.createdAt ≤ b.createdAt) :
      Step batchSize s d (.claim candidates) (s.moved d (.claiming candidates))
  | lockNext {candidate : OutboxEvent} {rest : List OutboxEvent}
      (claiming : (s.drain d).stage = .claiming (candidate :: rest))
      (room : (s.drain d).batch.length < batchSize) :
      Step batchSize s d .lockNext (s.look d candidate rest)
  | claimed {candidates : List OutboxEvent} (claiming : (s.drain d).stage = .claiming candidates)
      (full : candidates = [] ∨ batchSize ≤ (s.drain d).batch.length) :
      Step batchSize s d .claimed (s.moved d (.publishing (s.drain d).batch false))
  | accept {event : OutboxEvent} {rest : List OutboxEvent} {accepted : Bool}
      (publishing : (s.drain d).stage = .publishing (event :: rest) accepted) :
      Step batchSize s d .accept { s.moved d (.publishing (event :: rest) true) with
        broker := s.broker ++ [message event] }
  | resolve {event : OutboxEvent} {rest : List OutboxEvent}
      (publishing : (s.drain d).stage = .publishing (event :: rest) true) :
      Step batchSize s d .resolve { s.withDrain d { s.drain d with
        stage := .publishing rest false,
        dispatchedIds := (s.drain d).dispatchedIds ++ [event.id] } with
        published := s.published ++ [⟨d, event⟩] }
  | reject {event : OutboxEvent} {rest : List OutboxEvent} {accepted : Bool} {error : String}
      (publishing : (s.drain d).stage = .publishing (event :: rest) accepted) :
      Step batchSize s d (.reject error) (s.moved d (.failing event error rest))
  | markFailed {event : OutboxEvent} {error : String} {rest : List OutboxEvent}
      (failing : (s.drain d).stage = .failing event error rest) :
      Step batchSize s d .markFailed (s.withDrain d { s.drain d with
        stage := .publishing rest false, writes := (s.drain d).writes ++ [.failed event.id error] })
  | markDispatched {accepted : Bool} {now : ℕ}
      (publishing : (s.drain d).stage = .publishing [] accepted) :
      Step batchSize s d (.markDispatched now) (s.withDrain d { s.drain d with
        stage := .committing,
        writes := (s.drain d).writes ++ [.dispatched (s.drain d).dispatchedIds now] })
  | commit (committing : (s.drain d).stage = .committing) :
      Step batchSize s d .commit ((s.applied d).ended d .committed)
  | commitLost (committing : (s.drain d).stage = .committing) :
      Step batchSize s d (.commitFails true) ((s.applied d).ended d .rolledBack)
  | stop {action : Action} {stage : Stage} (live : (s.drain d).stage.live = true)
      (broken : stage.broken = true) : Step batchSize s d action (s.ended d stage)

theorem step_of_act {action : Action} (moves : act batchSize s d action = some s') :
    Step batchSize s d action s' := by
  unfold act at moves
  generalize atStage : (s.drain d).stage = stage at moves
  split at moves
  next candidates =>
    obtain ⟨⟨all, sorted⟩, rfl⟩ := by simpa using moves
    exact .claim atStage all sorted
  next candidate rest =>
    obtain ⟨room, rfl⟩ := by simpa using moves
    exact .lockNext atStage room
  next candidates =>
    obtain ⟨full, rfl⟩ := by simpa using moves
    exact .claimed atStage full
  next =>
    cases moves
    exact .accept atStage
  next =>
    cases moves
    exact .resolve atStage
  next =>
    cases moves
    exact .reject atStage
  next =>
    cases moves
    exact .markFailed atStage
  next =>
    cases moves
    exact .markDispatched atStage
  next =>
    cases moves
    exact .commit atStage
  next =>
    cases moves
    exact .commitLost atStage
  next =>
    cases moves
    -- The drain is broken off at one of its live stages.
    exact .stop (by simp [atStage, Stage.live]) rfl
  next =>
    cases moves
    exact .stop (by simp [atStage, Stage.live]) rfl
  next =>
    cases moves
    exact .stop (by simp [atStage, Stage.live]) rfl
  next =>
    cases moves
    exact .stop (by simp [atStage, Stage.live]) rfl
  next =>
    obtain ⟨live, rfl⟩ := by simpa using moves
    exact .stop (by rwa [atStage]) rfl
  next => cases moves

/-! ## The rows of the outbox -/

/-- When the event was dispatched, if its row is there. -/
def dispatchedAt (table : Table OutboxEvent) (id : ℕ) : Option (Option ℕ) :=
  (table.get (.id id)).map OutboxEvent.dispatchedAt

def Undispatched (table : Table OutboxEvent) (id : ℕ) : Prop := dispatchedAt table id = some none

def Dispatched (table : Table OutboxEvent) (id : ℕ) : Prop :=
  ∃ time, dispatchedAt table id = some (some time)

/-- The table has the event, with the message of its row. -/
def Known (table : Table OutboxEvent) (event : OutboxEvent) : Prop :=
  (table.get (.id event.id)).map message = some (message event)

theorem not_dispatched {table : Table OutboxEvent} {id : ℕ} (undispatched : Undispatched table id) :
    ¬ Dispatched table id := by
  rintro ⟨time, dispatched⟩
  rw [Undispatched, dispatched] at undispatched
  cases undispatched

theorem known_of_get {table : Table OutboxEvent} {key : RowKey} {row : OutboxEvent}
    (found : table.get key = some row) : Known table row := by
  have here : table.get (.id row.id) = some row := Table.get_of_mem (Table.get_mem found)
  simp [Known, here]

/-- What the ids of a batch marked stand for. -/
def marked : Write → List ℕ
  | .failed _ _ => []
  | .dispatched ids _ => ids

theorem dispatchedAt_failed (table : Table OutboxEvent) (i id : ℕ) (error : String) :
    dispatchedAt ((Write.failed i error).apply table) id = dispatchedAt table id :=
  Table.map_get_modify (f := failedRow error) (fun _ => rfl) ..

theorem dispatchedAt_dispatched (table : Table OutboxEvent) (ids : List ℕ) (now id : ℕ) :
    dispatchedAt ((Write.dispatched ids now).apply table) id =
      if id ∈ ids then (dispatchedAt table id).map fun _ => some now
      else dispatchedAt table id := by
  simp only [Write.apply]
  induction ids generalizing table with
  | nil => rfl
  | cons i ids inductionHypothesis =>
    rw [List.foldl_cons, inductionHypothesis]
    have here : dispatchedAt (table.modify (.id i) (dispatchedRow now)) id =
        if id = i then (dispatchedAt table id).map fun _ => some now
        else dispatchedAt table id := by
      unfold dispatchedAt
      by_cases same : id = i
      · subst same
        cases found : table.get (.id id) with
        | none => simp [Table.modify_of_absent found, found]
        | some row =>
          rw [Table.get_modify_self (f := dispatchedRow now) found rfl rfl]
          simp [dispatchedRow]
      · have other : RowKey.id id ≠ RowKey.id i := by simpa using same
        rw [Table.get_modify_of_ne other, if_neg same]
    rw [here]
    by_cases first : id = i <;> by_cases later : id ∈ ids <;>
      simp [first, later, Option.map_map, Function.comp_def]

theorem dispatchedAt_apply_of_not_mem {table : Table OutboxEvent} {write : Write} {id : ℕ}
    (unmarked : id ∉ marked write) :
    dispatchedAt (write.apply table) id = dispatchedAt table id := by
  cases write with
  | failed i error => exact dispatchedAt_failed table i id error
  | dispatched ids now => exact (dispatchedAt_dispatched table ids now id).trans (if_neg unmarked)

theorem dispatched_apply {table : Table OutboxEvent} {id : ℕ} (dispatched : Dispatched table id)
    (write : Write) : Dispatched (write.apply table) id := by
  obtain ⟨time, since⟩ := dispatched
  by_cases mem : id ∈ marked write
  · cases write with
    | failed i error => cases mem
    | dispatched ids now =>
      have isMarked : id ∈ ids := mem
      use now
      rw [dispatchedAt_dispatched, if_pos isMarked, since, Option.map_some]
  · exact ⟨time, (dispatchedAt_apply_of_not_mem mem).trans since⟩

theorem known_apply {table : Table OutboxEvent} {event : OutboxEvent} (known : Known table event)
    (write : Write) : Known (write.apply table) event := by
  cases write with
  | failed i error =>
    exact (Table.map_get_modify (f := failedRow error) (fun _ => rfl) ..).trans known
  | dispatched ids now =>
    simp only [Write.apply]
    induction ids generalizing table with
    | nil => exact known
    | cons i ids inductionHypothesis =>
      exact inductionHypothesis
        ((Table.map_get_modify (f := dispatchedRow now) (fun _ => rfl) ..).trans known)

section

variable {table : Table OutboxEvent} {writes : List Write} {id : ℕ}

theorem dispatchedAt_writes (unmarked : id ∉ writes.flatMap marked) :
    dispatchedAt (writes.foldl Write.apply table) id = dispatchedAt table id := by
  induction writes generalizing table with
  | nil => rfl
  | cons write writes inductionHypothesis =>
    simp only [List.flatMap_cons, List.mem_append, not_or] at unmarked
    rw [List.foldl_cons, inductionHypothesis unmarked.2, dispatchedAt_apply_of_not_mem unmarked.1]

theorem dispatched_of_writes (dispatched : Dispatched table id) :
    Dispatched (writes.foldl Write.apply table) id := by
  induction writes generalizing table with
  | nil => exact dispatched
  | cons write writes inductionHypothesis =>
    exact inductionHypothesis (dispatched_apply dispatched write)

theorem dispatched_of_marked (undispatched : Undispatched table id)
    (mem : id ∈ writes.flatMap marked) : Dispatched (writes.foldl Write.apply table) id := by
  induction writes generalizing table with
  | nil => cases mem
  | cons write writes inductionHypothesis =>
    by_cases here : id ∈ marked write
    · cases write with
      | failed i error => cases here
      | dispatched ids now =>
        have isMarked : id ∈ ids := here
        have marks : Dispatched ((Write.dispatched ids now).apply table) id := by
          use now
          rw [dispatchedAt_dispatched, if_pos isMarked, undispatched, Option.map_some]
        rw [List.foldl_cons]
        exact dispatched_of_writes marks
    · have later : id ∈ writes.flatMap marked := by simpa [here] using mem
      exact inductionHypothesis ((dispatchedAt_apply_of_not_mem here).trans undispatched) later

theorem known_writes {event : OutboxEvent} (known : Known table event) :
    Known (writes.foldl Write.apply table) event := by
  induction writes generalizing table with
  | nil => exact known
  | cons write writes inductionHypothesis => exact inductionHypothesis (known_apply known write)

/-- The rows there before stay as they are, and no other is dispatched. -/
theorem get_insertAll {now : ℕ} {inputs : List (ℕ × OutboxEventInput)} {table' : Table OutboxEvent}
    (inserted : insertAll now inputs table = some table') :
    (∀ key row, table.get key = some row → table'.get key = some row) ∧
    ∀ id, Dispatched table' id → Dispatched table id := by
  induction inputs generalizing table with
  | nil =>
    cases inserted
    exact ⟨fun _ _ => id, fun _ => id⟩
  | cons input inputs inductionHypothesis =>
    simp only [insertAll, Option.ite_none_left_eq_some, Bool.not_eq_true] at inserted
    obtain ⟨free, inserted⟩ := inserted
    obtain ⟨rows, times⟩ := inductionHypothesis inserted
    refine ⟨fun key row found => rows key row (Table.get_insert_of_some found),
      fun i dispatched => ?_⟩
    obtain ⟨time, since⟩ := times i dispatched
    by_cases same : i = input.1
    · subst same
      have own : (table.insert (input.2.row input.1 now)).get (.id input.1) =
          some (input.2.row input.1 now) :=
        Table.get_insert_self free
      rw [dispatchedAt, own] at since
      cases since
    · have other : RowKey.id input.1 ≠ RowKey.id i := by simpa using Ne.symm same
      exact ⟨time, by rwa [dispatchedAt, Table.get_insert_of_ne other] at since⟩

end

end SwiftBite.Verified.DrainSteps
