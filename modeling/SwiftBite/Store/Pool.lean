import SwiftBite.Store.Program

/-! # Calls running at the same time

A pool is the committed database, the shared state outside it, and the calls that are
under way or have ended.  An event starts a call, lets one call make its next action, or
stops a call dead.  An action that writes a row is possible only while no other open
transaction holds that row, so a waiting statement is one whose event does not occur yet.
-/

set_option autoImplicit false

namespace SwiftBite.Store

section

variable {T : Type} [DecidableEq T] (Row : T → Type) {K U : Type} [DecidableEq K] [DecidableEq U]
  [∀ t, Keyed (Row t) K U] (X ε O α : Type)

/-- A call: the operation it serves, what is left of its program, and its own state. -/
structure Call where
  op : O
  prog : Prog Row X ε α
  loc : Local Row K

structure Pool where
  db : Db Row
  side : X
  calls : List (Call Row X ε O α)

end

inductive Event (O : Type) where
  | spawn (op : O)
  | step (i : ℕ) (choice : Choice)
  | crash (i : ℕ)

section

variable {T : Type} [DecidableEq T] {Row : T → Type} {K U : Type} [DecidableEq K] [DecidableEq U]
  [∀ t, Keyed (Row t) K U] {X ε O α : Type} [Host X ε]

namespace Pool

/-- The call has returned or thrown. -/
def Ended (call : Call Row X ε O α) : Bool :=
  match call.prog with
  | .done _ => true
  | _ => false

/-- The pool before any call. -/
def quiet (db : Db Row) (x : X) : Pool Row X ε O α := ⟨db, x, []⟩

/-- What the open transaction of call `j` holds. -/
def heldBy (p : Pool Row X ε O α) (j : ℕ) : List (Entry T K U) :=
  (p.calls[j]?.map fun call => call.loc.held).getD []

/-- No call other than `i` holds anything that these writes need. -/
def Unheld (p : Pool Row X ε O α) (i : ℕ) (writes : List (Write Row K)) : Prop :=
  ∀ j < p.calls.length, j ≠ i → ∀ e ∈ entriesOf writes, e ∉ p.heldBy j

instance (p : Pool Row X ε O α) (i : ℕ) (writes : List (Write Row K)) :
    Decidable (p.Unheld i writes) := by
  unfold Unheld; infer_instance

/-- The next action of call `i`. -/
def stepCall (p : Pool Row X ε O α) (i : ℕ) (choice : Choice) : Option (Pool Row X ε O α) :=
  match p.calls[i]? with
  | none => none
  | some call =>
    match call.prog.next choice call.loc p.db p.side with
    | none => none
    | some out =>
      if p.Unheld i out.acquired then
        some ⟨out.db, out.side, p.calls.set i ⟨call.op, out.prog, out.loc⟩⟩
      else none

/-- The end of a call whose process dies: its open transaction is rolled back. -/
def crashCall (p : Pool Row X ε O α) (i : ℕ) : Option (Pool Row X ε O α) :=
  match p.calls[i]? with
  | none => none
  | some call =>
    if Ended call then none
    else some { p with calls := p.calls.set i ⟨call.op, .done (.error (Host.fault X)), .start⟩ }

def next (code : O → Prog Row X ε α) (p : Pool Row X ε O α) : Event O → Option (Pool Row X ε O α)
  | .spawn op => some { p with calls := p.calls ++ [⟨op, code op, .start⟩] }
  | .step i choice => p.stepCall i choice
  | .crash i => p.crashCall i

/-- No call is under way. -/
def Idle (p : Pool Row X ε O α) : Bool := p.calls.all Ended

/-- The states reached from `start` by events that all meet a condition. -/
inductive Reach (code : O → Prog Row X ε α) (allowed : Pool Row X ε O α → Event O → Prop)
    (start : Pool Row X ε O α) : Pool Row X ε O α → Prop where
  | refl : Reach code allowed start start
  | step {p p' : Pool Row X ε O α} {e : Event O} : Reach code allowed start p → allowed p e →
      p.next code e = some p' → Reach code allowed start p'

theorem Reach.trans {code : O → Prog Row X ε α} {allowed : Pool Row X ε O α → Event O → Prop}
    {p p' p'' : Pool Row X ε O α} (first : Reach code allowed p p')
    (second : Reach code allowed p' p'') : Reach code allowed p p'' := by
  induction second with
  | refl => exact first
  | step _ condition moves reached => exact reached.step condition moves

theorem Reach.mono {code : O → Prog Row X ε α}
    {allowed allowed' : Pool Row X ε O α → Event O → Prop}
    (weaker : ∀ p e, allowed p e → allowed' p e) {p p' : Pool Row X ε O α}
    (reached : Reach code allowed p p') : Reach code allowed' p p' := by
  induction reached with
  | refl => exact .refl
  | step _ condition moves reached => exact reached.step (weaker _ _ condition) moves

/-- An invariant of every allowed event holds in every state reached. -/
theorem Reach.induct {code : O → Prog Row X ε α} {allowed : Pool Row X ε O α → Event O → Prop}
    {start p : Pool Row X ε O α} (motive : Pool Row X ε O α → Prop) (base : motive start)
    (kept : ∀ p p' e, motive p → allowed p e → p.next code e = some p' → motive p')
    (reached : Reach code allowed start p) : motive p := by
  induction reached with
  | refl => exact base
  | step _ condition moves holds => exact kept _ _ _ holds condition moves

/-- A schedule played from a state; `none` when some event of it is impossible or not
allowed. -/
def play (code : O → Prog Row X ε α) (allowed : Pool Row X ε O α → Event O → Bool) :
    List (Event O) → Pool Row X ε O α → Option (Pool Row X ε O α)
  | [], p => some p
  | e :: es, p => if allowed p e then (p.next code e).bind (play code allowed es) else none

theorem reach_of_play {code : O → Prog Row X ε α} {check : Pool Row X ε O α → Event O → Bool}
    {allowed : Pool Row X ε O α → Event O → Prop} (sound : ∀ p e, check p e = true → allowed p e)
    {schedule : List (Event O)} {p p' : Pool Row X ε O α}
    (played : play code check schedule p = some p') : Reach code allowed p p' := by
  induction schedule generalizing p with
  | nil => simp only [play, Option.some.injEq] at played; subst played; exact .refl
  | cons e es inductionHypothesis =>
    simp only [play] at played
    split at played
    next permitted =>
      simp only [Option.bind_eq_some_iff] at played
      obtain ⟨middle, moves, rest⟩ := played
      exact (Reach.step .refl (sound p e permitted) moves).trans (inductionHypothesis rest)
    next => contradiction

/-! ## What one event does -/

theorem stepCall_inv {p p' : Pool Row X ε O α} {i : ℕ} {choice : Choice}
    (moves : p.stepCall i choice = some p') :
    ∃ call out, p.calls[i]? = some call ∧ call.prog.next choice call.loc p.db p.side = some out ∧
      p.Unheld i out.acquired ∧
      p' = ⟨out.db, out.side, p.calls.set i ⟨call.op, out.prog, out.loc⟩⟩ := by
  unfold stepCall at moves
  split at moves
  · cases moves
  next call found =>
    split at moves
    · cases moves
    next out acts =>
      split at moves
      next unheld =>
        cases moves
        exact ⟨call, out, found, acts, unheld, rfl⟩
      next => cases moves

omit [DecidableEq T] [DecidableEq K] [DecidableEq U] in
theorem crashCall_inv {p p' : Pool Row X ε O α} {i : ℕ} (moves : p.crashCall i = some p') :
    ∃ call, p.calls[i]? = some call ∧ Ended call = false ∧
      p' = { p with calls := p.calls.set i ⟨call.op, .done (.error (Host.fault X)), .start⟩ } := by
  unfold crashCall at moves
  split at moves
  · cases moves
  next call found =>
    split at moves
    next => cases moves
    next running =>
      cases moves
      exact ⟨call, found, by simpa using running, rfl⟩

omit [DecidableEq T] [DecidableEq K] [DecidableEq U] [Host X ε] in
/-- The calls after the `i`-th has moved on. -/
theorem getElem?_moved {calls : List (Call Row X ε O α)} {after other : Call Row X ε O α} {i j : ℕ}
    (found : (calls.set i after)[j]? = some other) :
    (j = i ∧ other = after) ∨ (j ≠ i ∧ calls[j]? = some other) := by
  by_cases same : i = j
  · subst same
    rw [List.getElem?_set] at found
    split at found
    · split at found
      · exact .inl ⟨rfl, (Option.some.inj found).symm⟩
      · cases found
    · contradiction
  · rw [List.getElem?_set_ne same] at found
    exact .inr ⟨Ne.symm same, found⟩

omit [DecidableEq T] [DecidableEq K] [DecidableEq U] [Host X ε] in
/-- The calls after one more has started. -/
theorem getElem?_spawned {calls : List (Call Row X ε O α)} {new other : Call Row X ε O α} {j : ℕ}
    (found : (calls ++ [new])[j]? = some other) :
    calls[j]? = some other ∨ (j = calls.length ∧ other = new) := by
  rw [List.getElem?_append] at found
  split at found
  · exact .inl found
  next beyond =>
    obtain ⟨bound, rfl⟩ := List.getElem?_eq_some_iff.1 found
    refine .inr ⟨?_, by simp⟩
    simp only [List.length_singleton] at bound
    omega

/-- A call that has returned or thrown stays as it is. -/
theorem done_next {code : O → Prog Row X ε α} {p p' : Pool Row X ε O α} {e : Event O} {i : ℕ}
    {call : Call Row X ε O α} {result : Except ε α} (moves : p.next code e = some p')
    (found : p.calls[i]? = some call) (ended : call.prog = .done result) :
    p'.calls[i]? = some call := by
  cases e with
  | spawn op =>
    cases moves
    rw [List.getElem?_append_left (List.getElem?_eq_some_iff.1 found).1]
    exact found
  | step j choice =>
    obtain ⟨other, out, isOther, acts, _, rfl⟩ := stepCall_inv moves
    by_cases same : j = i
    · subst same
      obtain rfl := Option.some.inj (isOther.symm.trans found)
      rw [ended] at acts
      cases acts
    · rw [List.getElem?_set_ne same]
      exact found
  | crash j =>
    obtain ⟨other, isOther, running, rfl⟩ := crashCall_inv moves
    by_cases same : j = i
    · subst same
      obtain rfl := Option.some.inj (isOther.symm.trans found)
      simp [Ended, ended] at running
    · rw [List.getElem?_set_ne same]
      exact found

theorem done_of_reach {code : O → Prog Row X ε α} {allowed : Pool Row X ε O α → Event O → Prop}
    {p p' : Pool Row X ε O α} {i : ℕ} {call : Call Row X ε O α} {result : Except ε α}
    (reached : Reach code allowed p p') (found : p.calls[i]? = some call)
    (ended : call.prog = .done result) : p'.calls[i]? = some call :=
  reached.induct (fun p => p.calls[i]? = some call) found fun _ _ _ there _ moves =>
    done_next moves there ended

/-- The operation that an event starts. -/
def starts : Event O → List O
  | .spawn op => [op]
  | _ => []

omit [DecidableEq T] [DecidableEq K] [DecidableEq U] [Host X ε] in
theorem map_set_same {calls : List (Call Row X ε O α)} {i : ℕ} {call : Call Row X ε O α}
    (found : calls[i]? = some call) (prog : Prog Row X ε α) (l : Local Row K) :
    (calls.set i ⟨call.op, prog, l⟩).map Call.op = calls.map Call.op := by
  refine List.ext_getElem? fun j => ?_
  obtain ⟨bound, isCall⟩ := List.getElem?_eq_some_iff.1 found
  by_cases same : i = j
  · subst same
    simp [bound, isCall]
  · simp [List.getElem?_set_ne same]

/-- Each call serves the operation for which it was started. -/
theorem ops_next {code : O → Prog Row X ε α} {p p' : Pool Row X ε O α} {e : Event O}
    (moves : p.next code e = some p') : p'.calls.map Call.op = p.calls.map Call.op ++ starts e := by
  cases e with
  | spawn op =>
    cases moves
    simp [starts]
  | step i choice =>
    obtain ⟨call, out, found, _, _, rfl⟩ := stepCall_inv moves
    simpa [starts] using map_set_same found out.prog out.loc
  | crash i =>
    obtain ⟨call, found, _, rfl⟩ := crashCall_inv moves
    simpa [starts] using map_set_same found (.done (.error (Host.fault X))) .start

end Pool

end

end SwiftBite.Store
