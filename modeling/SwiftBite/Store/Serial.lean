import SwiftBite.Store.Footprint

/-! # Calls one after another

A call that runs alone needs no rely: what it has read still holds when it writes.  `solo`
is its weakest precondition, in which every change of the committed database must be one of
the moves that are allowed.  `between_of_reach` puts the calls of a run together, and
`cut_of_reach` covers a last call that fails or dies at any point.
-/

set_option autoImplicit false

namespace SwiftBite.Store

section

variable {T : Type} [DecidableEq T] {Row : T → Type} {K U : Type} [DecidableEq K] [DecidableEq U]
  [∀ t, Keyed (Row t) K U] {X ε O α β γ : Type} [Host X ε]

variable (Row) in
/-- How the committed database may change in one action, and whether actions may fail. -/
structure Terms where
  moves : Db Row → Db Row → Prop
  faulty : Prop

namespace Terms

/-- The terms of calls that do not fail. -/
abbrev calm (moves : Db Row → Db Row → Prop) : Terms Row := ⟨moves, False⟩

def Moved (t : Terms Row) (db db' : Db Row) : Prop := db' = db ∨ t.moves db db'

omit [DecidableEq T] [DecidableEq K] [DecidableEq U] in
theorem Moved.refl (t : Terms Row) (db : Db Row) : t.Moved db db := .inl rfl

omit [DecidableEq T] [DecidableEq K] [DecidableEq U] in
/-- What holds before and after every move holds throughout. -/
theorem Moved.holds {t : Terms Row} {A : Db Row → Prop} (keeps : ∀ db db', t.moves db db' → A db')
    {db db' : Db Row} (moved : t.Moved db db') (holds : A db) : A db' := by
  rcases moved with rfl | moves
  · exact holds
  · exact keeps db db' moves

end Terms

namespace Prog

/-- The outcome of a statement that did not fail. -/
def Takes (t : Terms Row) (on : Conn) (effect : Effect Row K β) (l : Local Row K) (db : Db Row)
    (Φ : Local Row K → Db Row → Prop) : Prop :=
  match on, l.txn with
  | .pool, _ =>
    t.Moved db (db.applyAll effect.writes) ∧ Φ (l.saw effect.seen) (db.applyAll effect.writes)
  | .trx, some txn =>
    Φ ⟨some { txn with writes := txn.writes ++ effect.writes }, effect.seen ++ l.seen⟩ db
  | .trx, none => True

/-- The weakest precondition of what is left of a call that runs alone. -/
def solo (t : Terms Row) :
    Prog (K := K) Row X ε β → (Except ε β → Local Row K → Db Row → X → Prop) →
    Local Row K → Db Row → X → Prop
  | .done result, Q, l, db, x => Q result l db x
  | .stmt on run next, Q, l, db, x =>
    (∀ effect, some effect ∈ run (instant on l x) (l.view db on) →
      Takes t on effect l db fun l db => solo t (next (.ok effect.reply)) Q l db x) ∧
    (none ∈ run (instant on l x) (l.view db on) ∨ t.faulty ∨ (on = .trx ∧ l.txn = none) →
      solo t (next (.error (Host.fault X))) Q l db x)
  | .side fallible run next, Q, l, db, x =>
    solo t (next (run x).1) Q l db (run x).2 ∧
    (fallible = true → t.faulty → solo t (next (.error (Host.fault X))) Q l db x)
  | .begin next, Q, l, db, x =>
    solo t (next (.ok ())) Q { l with txn := some ⟨Host.now x, []⟩ } db x ∧
    (t.faulty → solo t (next (.error (Host.fault X))) Q l db x)
  | .commit next, Q, l, db, x =>
    (t.Moved db (db.applyAll l.writes) ∧ solo t (next (.ok ())) Q { l with
      txn := none } (db.applyAll l.writes) x) ∧
    (t.faulty → solo t (next (.error (Host.fault X))) Q l db x)
  | .rollback next, Q, l, db, x => solo t next Q { l with txn := none } db x

/-! ## One action -/

theorem solo_next {t : Terms Row} {prog : Prog Row X ε β}
    {Q : Except ε β → Local Row K → Db Row → X → Prop} {l : Local Row K} {db : Db Row} {x : X}
    {choice : Choice} {out : Outcome (K := K) Row X ε β} (holds : prog.solo t Q l db x)
    (acts : prog.next choice l db x = some out) (fails : choice = .fault → t.faulty) :
    t.Moved db out.db ∧ out.prog.solo t Q out.loc out.db out.side := by
  cases step_of_next acts with
  | stmtFails cause =>
    rcases cause with isFault | constraint | outside
    · exact ⟨.refl t db, holds.2 (.inr (.inl (fails isFault)))⟩
    · exact ⟨.refl t db, holds.2 (.inl constraint)⟩
    · exact ⟨.refl t db, holds.2 (.inr (.inr outside))⟩
  | onPool member => exact holds.1 _ member
  | inTrx running member =>
    have takes := holds.1 _ member
    obtain ⟨txn, seen⟩ := l
    cases running
    exact ⟨.refl t db, takes⟩
  | sideFails => exact ⟨.refl t db, holds.2 rfl (fails rfl)⟩
  | sideActs => exact ⟨.refl t db, holds.1⟩
  | beginFails => exact ⟨.refl t db, holds.2 (fails rfl)⟩
  | begins => exact ⟨.refl t db, holds.1⟩
  | commitFails => exact ⟨.refl t db, holds.2 (fails rfl)⟩
  | commits => exact holds.1
  | rollsBack => exact ⟨.refl t db, holds⟩

end Prog

/-! ## Runs -/

namespace Pool

/-- Calls start only while none is under way, and nothing fails. -/
def Serially (pre : O → Db Row → X → Prop) (p : Pool (K := K) Row X ε O α) : Event O → Prop
  | .spawn op => p.Idle = true ∧ pre op p.db p.side
  | .step _ choice => choice ≠ .fault
  | .crash _ => False

instance (pre : O → Db Row → X → Prop) [∀ op db x, Decidable (pre op db x)]
    (p : Pool (K := K) Row X ε O α) : DecidablePred (Serially pre p)
  | .spawn op => inferInstanceAs (Decidable (p.Idle = true ∧ pre op p.db p.side))
  | .step _ choice => inferInstanceAs (Decidable (choice ≠ .fault))
  | .crash _ => inferInstanceAs (Decidable False)

/-- No call starts. -/
def CutShort (_ : Pool (K := K) Row X ε O α) : Event O → Prop
  | .spawn _ => False
  | _ => True

instance (p : Pool (K := K) Row X ε O α) : DecidablePred (CutShort p)
  | .spawn _ => inferInstanceAs (Decidable False)
  | .step _ _ | .crash _ => inferInstanceAs (Decidable True)

/-- At most one call is under way; once none is, `rests` holds. -/
inductive Between (t : Terms Row) (rests : Db Row → X → Prop)
    (p : Pool (K := K) Row X ε O α) : Prop where
  | idle (ended : p.Idle = true) (holds : rests p.db p.side)
  | going {i : ℕ} {call : Call Row X ε O α} (found : p.calls[i]? = some call)
      (others : ∀ j other, j ≠ i → p.calls[j]? = some other → Ended other = true)
      (left : call.prog.solo t (fun _ _ => rests) call.loc p.db p.side)

variable {t : Terms Row} {rests : Db Row → X → Prop} {p p' : Pool (K := K) Row X ε O α}
  {code : O → Prog Row X ε α}

omit [DecidableEq T] [DecidableEq K] [DecidableEq U] [Host X ε] in
theorem ended_of_idle (idle : p.Idle = true) {i : ℕ} {call : Call Row X ε O α}
    (found : p.calls[i]? = some call) : Ended call = true :=
  List.all_eq_true.1 idle call (List.mem_of_getElem? found)

theorem next_of_ended {call : Call Row X ε O α} (ended : Ended call = true) {choice : Choice}
    {db : Db Row} {x : X} : call.prog.next choice call.loc db x = none := by
  obtain ⟨op, prog, l⟩ := call
  cases prog with
  | done result => rfl
  | _ => cases ended

/-- No event changes a call that has ended. -/
theorem found_of_ended {e : Event O} (moves : p.next code e = some p') {i : ℕ}
    {call : Call Row X ε O α} (found : p.calls[i]? = some call) (ended : Ended call = true) :
    p'.calls[i]? = some call := by
  have bound := (List.getElem?_eq_some_iff.1 found).1
  cases e with
  | spawn op =>
    simp only [Pool.next, Option.some.injEq] at moves
    subst moves
    rwa [List.getElem?_append_left bound]
  | step j choice =>
    obtain ⟨other, out, at_j, acts, _, rfl⟩ := stepCall_inv moves
    by_cases same : j = i
    · subst same
      cases found.symm.trans at_j
      rw [next_of_ended ended] at acts
      cases acts
    · rwa [List.getElem?_set_ne same]
  | crash j =>
    obtain ⟨other, at_j, running, rfl⟩ := crashCall_inv moves
    by_cases same : j = i
    · subst same
      cases found.symm.trans at_j
      rw [ended] at running
      cases running
    · rwa [List.getElem?_set_ne same]

theorem Between.rests_of_idle (between : Between t rests p)
    (idle : p.Idle = true) : rests p.db p.side := by
  cases between with
  | idle _ holds => exact holds
  | @going i call found _ left =>
    have ended := ended_of_idle idle found
    obtain ⟨op, prog, l⟩ := call
    cases prog with
    | done result => exact left
    | _ => cases ended

theorem Between.spawn (idle : p.Idle = true) {op : O}
    (starts : (code op).solo t (fun _ _ => rests) .start p.db p.side)
    (moves : p.next code (.spawn op) = some p') : Between t rests p' ∧ t.Moved p.db p'.db := by
  simp only [Pool.next, Option.some.injEq] at moves
  subst moves
  have started : (p.calls ++ [⟨op, code op, .start⟩])[p.calls.length]? =
      some ⟨op, code op, .start⟩ := by simp
  refine ⟨.going started (fun j other different at_j => ?_) starts, .refl t p.db⟩
  have inside : j < p.calls.length := by
    have bound := (List.getElem?_eq_some_iff.1 at_j).1
    simp only [List.length_append, List.length_singleton] at bound
    omega
  rw [List.getElem?_append_left inside] at at_j
  exact ended_of_idle idle at_j

theorem Between.step (between : Between t rests p) {j : ℕ} {choice : Choice}
    (fails : choice = .fault → t.faulty) (moves : p.next code (.step j choice) = some p') :
    Between t rests p' ∧ t.Moved p.db p'.db := by
  obtain ⟨call, out, found, acts, _, rfl⟩ := stepCall_inv moves
  cases between with
  | idle ended _ =>
    rw [next_of_ended (ended_of_idle ended found)] at acts
    cases acts
  | @going i running at_i others left =>
    by_cases same : j = i
    · subst same
      rw [found] at at_i
      cases at_i
      have onward := Prog.solo_next left acts fails
      have bound := (List.getElem?_eq_some_iff.1 found).1
      have stepped : (p.calls.set j ⟨call.op, out.prog, out.loc⟩)[j]? =
          some ⟨call.op, out.prog, out.loc⟩ := by simp [bound]
      refine ⟨.going stepped (fun k other different at_k => ?_) onward.2, onward.1⟩
      rw [List.getElem?_set_ne (Ne.symm different)] at at_k
      exact others k other different at_k
    · rw [next_of_ended (others j call same found)] at acts
      cases acts

theorem Between.crash (between : Between t rests p) (holds : rests p.db p.side) {j : ℕ}
    (moves : p.next code (.crash j) = some p') : Between t rests p' ∧ t.Moved p.db p'.db := by
  obtain ⟨call, found, running, rfl⟩ := crashCall_inv moves
  refine ⟨.idle (List.all_eq_true.2 fun other member => ?_) holds, .refl t p.db⟩
  cases between with
  | idle ended _ =>
    rw [ended_of_idle ended found] at running
    cases running
  | @going i _ _ others _ =>
    have isRunning : j = i := by
      by_contra different
      rw [others j call different found] at running
      cases running
    subst isRunning
    obtain ⟨k, at_k⟩ := List.getElem?_of_mem member
    by_cases same : k = j
    · subst same
      have bound := (List.getElem?_eq_some_iff.1 found).1
      simp only [List.getElem?_set_self bound, Option.some.injEq] at at_k
      subst at_k
      rfl
    · rw [List.getElem?_set_ne (Ne.symm same)] at at_k
      exact others k other same at_k

/-- Every call, started at rest, moves as the terms say and ends at rest. -/
def Settles (t : Terms Row) (rests : Db Row → X → Prop) (pre : O → Db Row → X → Prop)
    (code : O → Prog (K := K) Row X ε α) : Prop :=
  ∀ op db x, rests db x → pre op db x → (code op).solo t (fun _ _ => rests) .start db x

section Runs

variable {pre : O → Db Row → X → Prop}

theorem Between.next (settles : Settles t rests pre code) (between : Between t rests p)
    {e : Event O} (condition : Serially pre p e) (moves : p.next code e = some p') :
    Between t rests p' ∧ t.Moved p.db p'.db := by
  cases e with
  | spawn op =>
    exact Between.spawn condition.1
      (settles op _ _ (between.rests_of_idle condition.1) condition.2) moves
  | step i choice => exact between.step (fun isFault => absurd isFault condition) moves
  | crash i => exact condition.elim

theorem between_of_reach (settles : Settles t rests pre code) {start : Pool (K := K) Row X ε O α}
    (begins : Between t rests start)
    (reached : Reach code (Serially pre) start p) : Between t rests p :=
  Reach.induct (Between t rests) begins
    (fun _ _ _ between condition moves => (between.next settles condition moves).1) reached

/-- What holds at rest and after every move holds in every state of a run. -/
theorem always_of_reach (settles : Settles t rests pre code) {A : Db Row → Prop}
    (keeps : ∀ db db', t.moves db db' → A db') {start : Pool (K := K) Row X ε O α}
    (begins : Between t rests start) (holds : A start.db)
    (reached : Reach code (Serially pre) start p) : A p.db := by
  refine (Reach.induct (fun p => Between t rests p ∧ A p.db) ⟨begins, holds⟩ ?_ reached).2
  intro p p' e ⟨between, holds⟩ condition moves
  obtain ⟨between', moved⟩ := between.next settles condition moves
  exact ⟨between', moved.holds keeps holds⟩

end Runs

/-- A call that starts while none is under way, and then stops, fails or dies at any point. -/
theorem cut_of_reach {A : Db Row → Prop} (keeps : ∀ db db', t.moves db db' → A db')
    (faulty : t.faulty) (idle : p.Idle = true) (holds : A p.db) {op : O}
    (starts : (code op).solo t (fun _ _ _ _ => True) .start p.db p.side)
    {p₁ p₂ : Pool (K := K) Row X ε O α} (spawned : p.next code (.spawn op) = some p₁)
    (reached : Reach code CutShort p₁ p₂) : A p₂.db := by
  obtain ⟨begins, moved⟩ : Between t (fun _ _ => True) p₁ ∧ t.Moved p.db p₁.db :=
    Between.spawn idle starts spawned
  refine (Reach.induct (fun p => Between t (fun _ _ => True) p ∧ A p.db)
    ⟨begins, moved.holds keeps holds⟩ ?_ reached).2
  intro p p' e ⟨between, holds⟩ condition moves
  cases e with
  | spawn op => exact condition.elim
  | step i choice =>
    obtain ⟨between', moved⟩ := between.step (fun _ => faulty) moves
    exact ⟨between', moved.holds keeps holds⟩
  | crash i =>
    obtain ⟨between', moved⟩ := between.crash trivial moves
    exact ⟨between', moved.holds keeps holds⟩

end Pool

end

end SwiftBite.Store
