import SwiftBite.Store.Footprint

/-! # Calls whose commit is their last action

A decisive call returns with its first commit, and on the pool it writes only within some
bounds.  So one event of such a call changes the committed state in one of two ways: within
the bounds, or by everything its transaction has written, and then the call has returned.
A call that throws has committed none of its transactions.
-/

set_option autoImplicit false

namespace SwiftBite.Store

section

variable {T : Type} {Row : T → Type} {K U : Type} [∀ t, Keyed (Row t) K U] {X ε O α β : Type}

namespace Prog

variable (W : Write Row K → Prop)

/-- What a statement writes, if it runs on the pool. -/
def OnPool (on : Conn) (run : ℕ → Db Row → List (Option (Effect Row K β))) : Prop :=
  on = .pool → ∀ now db effect, some effect ∈ run now db → ∀ w ∈ effect.writes, W w

/-- The call commits nothing but statements on the pool. -/
def Uncommitted : Prog (K := K) Row X ε α → Prop
  | .done _ => True
  | .stmt on run next => OnPool W on run ∧ ∀ answer, (next answer).Uncommitted
  | .side _ _ next => ∀ answer, (next answer).Uncommitted
  | .begin next => ∀ answer, (next answer).Uncommitted
  | .commit _ => False
  | .rollback next => next.Uncommitted

def Decisive : Prog (K := K) Row X ε α → Prop
  | .done _ => True
  | .stmt on run next => OnPool W on run ∧ ∀ answer, (next answer).Decisive
  | .side _ _ next => ∀ answer, (next answer).Decisive
  | .begin next => ∀ answer, (next answer).Decisive
  | .commit next => (∃ a, next (.ok ()) = .done (.ok a)) ∧ ∀ e, (next (.error e)).Decisive
  | .rollback next => next.Decisive

variable {W}

theorem OnPool.silent {on : Conn} {run : ℕ → Db Row → List (Option (Effect Row K β))}
    (silent : on = .pool → Silent run) : OnPool W on run := by
  intro isConn now db effect member w written
  rw [silent isConn now db effect member] at written
  cases written

theorem OnPool.within {b : Bounds Row K X} {on : Conn}
    {run : ℕ → Db Row → List (Option (Effect Row K β))}
    (within : Within b run) : OnPool b.writes on run :=
  fun _ now db effect member => (within now db effect member).1

/-! ## The combinators -/

theorem Quiet.uncommitted {b : Bounds Row K X} {prog : Prog Row X ε α} (quiet : prog.Quiet b) :
    prog.Uncommitted W := by
  induction prog with
  | done => trivial
  | stmt on run next inductionHypothesis =>
    exact ⟨.silent quiet.2.1, fun answer => inductionHypothesis answer (quiet.2.2 answer)⟩
  | side fallible run next inductionHypothesis =>
    exact fun answer => inductionHypothesis answer (quiet.2 answer)
  | begin | commit | rollback => exact quiet.elim

theorem Uncommitted.tryCatch {prog : Prog Row X ε α} {handler : ε → Prog Row X ε α}
    (first : prog.Uncommitted W) (second : ∀ e, (handler e).Uncommitted W) :
    (prog.tryCatch handler).Uncommitted W := by
  induction prog with
  | done result =>
    cases result with
    | ok a => trivial
    | error e => exact second e
  | stmt on run next inductionHypothesis =>
    exact ⟨first.1, fun answer => inductionHypothesis answer (first.2 answer)⟩
  | side fallible run next inductionHypothesis =>
    exact fun answer => inductionHypothesis answer (first answer)
  | begin next inductionHypothesis => exact fun answer => inductionHypothesis answer (first answer)
  | commit next => exact first.elim
  | rollback next inductionHypothesis => exact inductionHypothesis first

theorem Uncommitted.bind {prog : Prog Row X ε α} {f : α → Prog Row X ε β}
    (first : prog.Uncommitted W) (second : ∀ a, (f a).Uncommitted W) :
    (prog >>= f).Uncommitted W := by
  show (prog.bind f).Uncommitted W
  induction prog with
  | done result =>
    cases result with
    | ok a => exact second a
    | error e => trivial
  | stmt on run next inductionHypothesis =>
    exact ⟨first.1, fun answer => inductionHypothesis answer (first.2 answer)⟩
  | side fallible run next inductionHypothesis =>
    exact fun answer => inductionHypothesis answer (first answer)
  | begin next inductionHypothesis => exact fun answer => inductionHypothesis answer (first answer)
  | commit next => exact first.elim
  | rollback next inductionHypothesis => exact inductionHypothesis first

/-- What comes before the commit may be anything that does not commit. -/
theorem Decisive.bind {prog : Prog Row X ε α} {f : α → Prog Row X ε β} (first : prog.Uncommitted W)
    (second : ∀ a, (f a).Decisive W) : (prog >>= f).Decisive W := by
  show (prog.bind f).Decisive W
  induction prog with
  | done result =>
    cases result with
    | ok a => exact second a
    | error e => trivial
  | stmt on run next inductionHypothesis =>
    exact ⟨first.1, fun answer => inductionHypothesis answer (first.2 answer)⟩
  | side fallible run next inductionHypothesis =>
    exact fun answer => inductionHypothesis answer (first answer)
  | begin next inductionHypothesis => exact fun answer => inductionHypothesis answer (first answer)
  | commit next => exact first.elim
  | rollback next inductionHypothesis => exact inductionHypothesis first

theorem Decisive.pure {a : α} : (pure a : Prog Row X ε α).Decisive W := trivial

theorem Decisive.throw {e : ε} : (throw e : Prog Row X ε α).Decisive W := trivial

theorem Decisive.commitTrx : (Prog.commitTrx : Prog Row X ε Unit).Decisive W :=
  ⟨⟨(), rfl⟩, fun _ => trivial⟩

/-- What a decisive call returns may be turned into something else. -/
theorem Decisive.map {prog : Prog Row X ε α} {f : α → β} (first : prog.Decisive W) :
    (f <$> prog).Decisive W := by
  show (prog.bind fun a => .done (.ok (f a))).Decisive W
  induction prog with
  | done result => cases result <;> trivial
  | stmt on run next inductionHypothesis =>
    exact ⟨first.1, fun answer => inductionHypothesis answer (first.2 answer)⟩
  | side fallible run next inductionHypothesis =>
    exact fun answer => inductionHypothesis answer (first answer)
  | begin next inductionHypothesis => exact fun answer => inductionHypothesis answer (first answer)
  | commit next inductionHypothesis =>
    obtain ⟨⟨a, returns⟩, fails⟩ := first
    exact ⟨⟨f a, congrArg (fun rest => Prog.bind rest _) returns⟩,
      fun e => inductionHypothesis (.error e) (fails e)⟩
  | rollback next inductionHypothesis => exact inductionHypothesis first

theorem Decisive.tryCatch {prog : Prog Row X ε α} {handler : ε → Prog Row X ε α}
    (first : prog.Decisive W) (second : ∀ e, (handler e).Decisive W) :
    (prog.tryCatch handler).Decisive W := by
  induction prog with
  | done result =>
    cases result with
    | ok a => trivial
    | error e => exact second e
  | stmt on run next inductionHypothesis =>
    exact ⟨first.1, fun answer => inductionHypothesis answer (first.2 answer)⟩
  | side fallible run next inductionHypothesis =>
    exact fun answer => inductionHypothesis answer (first answer)
  | begin next inductionHypothesis => exact fun answer => inductionHypothesis answer (first answer)
  | commit next inductionHypothesis =>
    obtain ⟨⟨a, returns⟩, fails⟩ := first
    exact ⟨⟨a, congrArg (fun rest => Prog.tryCatch rest _) returns⟩,
      fun e => inductionHypothesis (.error e) (fails e)⟩
  | rollback next inductionHypothesis => exact inductionHypothesis first

/-- A transaction that is the whole of a call. -/
theorem Decisive.transaction {b : Bounds Row K X} {body : Prog Row X ε α} (quiet : body.Quiet b) :
    (Prog.transaction body).Decisive W := by
  intro answer
  cases answer with
  | error e => trivial
  | ok _ =>
    exact .tryCatch (.bind quiet.uncommitted fun a => ⟨⟨a, rfl⟩, fun _ => trivial⟩) fun _ => trivial

/-! ## One action, and whole runs -/

variable [DecidableEq T] [DecidableEq K] [DecidableEq U] [Host X ε]

theorem Decisive.next {choice : Choice} {prog : Prog Row X ε α} {l : Local Row K} {db : Db Row}
    {x : X} {out : Outcome (K := K) Row X ε α} (decisive : prog.Decisive W)
    (acts : prog.next choice l db x = some out) :
    (out.prog.Decisive W ∧ ∃ ws, (∀ w ∈ ws, W w) ∧ out.db = db.applyAll ws) ∨
      (∃ a, out.prog = .done (.ok a)) ∧ out.db = db.applyAll l.writes := by
  have still : ∃ ws : List (Write Row K), (∀ w ∈ ws, W w) ∧ db = db.applyAll ws :=
    ⟨[], fun _ none => absurd none List.not_mem_nil, rfl⟩
  cases step_of_next acts with
  | stmtFails _ => exact .inl ⟨decisive.2 _, still⟩
  | onPool member => exact .inl ⟨decisive.2 _, _, decisive.1 rfl _ _ _ member, rfl⟩
  | inTrx _ _ => exact .inl ⟨decisive.2 _, still⟩
  | sideFails => exact .inl ⟨decisive _, still⟩
  | sideActs => exact .inl ⟨decisive _, still⟩
  | beginFails => exact .inl ⟨decisive _, still⟩
  | begins => exact .inl ⟨decisive _, still⟩
  | commitFails => exact .inl ⟨decisive.2 _, still⟩
  | commits => exact .inr ⟨decisive.1, rfl⟩
  | rollsBack => exact .inl ⟨decisive, still⟩

end Prog

namespace Pool

variable [DecidableEq T] [DecidableEq K] [DecidableEq U] {W : Write Row K → Prop} [Host X ε]
  {code : O → Prog (K := K) Row X ε α} {S : O → Prop}

/-- The calls of some operations are decisive, now and at every later point. -/
def Deciding (W : Write Row K → Prop) (S : O → Prop) (p : Pool (K := K) Row X ε O α) : Prop :=
  ∀ (i : ℕ) (call : Call Row X ε O α), p.calls[i]? = some call → S call.op → call.prog.Decisive W

theorem deciding_next {p p' : Pool (K := K) Row X ε O α} {e : Event O}
    (decisive : ∀ op, S op → (code op).Decisive W) (deciding : p.Deciding W S)
    (moves : p.next code e = some p') : p'.Deciding W S := by
  intro j after found chosen
  cases e with
  | spawn op =>
    cases moves
    simp only [List.getElem?_append] at found
    split at found
    · exact deciding j after found chosen
    next beyond =>
      cases same : j - p.calls.length with
      | zero => rw [same] at found; cases found; exact decisive op chosen
      | succ n => rw [same] at found; cases found
  | step i choice =>
    obtain ⟨call, out, isCall, acts, _, rfl⟩ := stepCall_inv moves
    by_cases same : i = j
    · subst same
      rw [List.getElem?_set_self (List.getElem?_eq_some_iff.1 isCall).1] at found
      cases found
      rcases (deciding i call isCall chosen).next acts with ⟨kept, _⟩ | ⟨⟨a, returned⟩, _⟩
      · exact kept
      · show out.prog.Decisive W
        rw [returned]
        trivial
    · rw [List.getElem?_set_ne same] at found
      exact deciding j after found chosen
  | crash i =>
    obtain ⟨call, isCall, _, rfl⟩ := crashCall_inv moves
    by_cases same : i = j
    · subst same
      rw [List.getElem?_set_self (List.getElem?_eq_some_iff.1 isCall).1] at found
      cases found
      trivial
    · rw [List.getElem?_set_ne same] at found
      exact deciding j after found chosen

theorem deciding_of_reach {allowed : Pool (K := K) Row X ε O α → Event O → Prop} {db : Db Row}
    {x : X} {p : Pool (K := K) Row X ε O α} (decisive : ∀ op, S op → (code op).Decisive W)
    (reached : Reach code allowed (quiet db x) p) : p.Deciding W S := by
  refine reached.induct (Deciding W S) ?_ fun p p' e deciding _ moves =>
    deciding_next decisive deciding moves
  intro i call found
  cases found

/-- One event of a decisive call. -/
theorem deciding_step {p p' : Pool (K := K) Row X ε O α} {i : ℕ} {choice : Choice}
    (deciding : p.Deciding W S) (moves : p.next code (.step i choice) = some p') :
    ∃ before after, p.calls[i]? = some before ∧
      p'.calls[i]? = some after ∧ after.op = before.op ∧
      (S before.op → (∃ ws, (∀ w ∈ ws, W w) ∧ p'.db = p.db.applyAll ws) ∨
        (∃ a, after.prog = .done (.ok a)) ∧ p'.db = p.db.applyAll before.loc.writes) := by
  obtain ⟨call, out, isCall, acts, _, rfl⟩ := stepCall_inv moves
  refine ⟨call, ⟨call.op, out.prog, out.loc⟩, isCall,
    List.getElem?_set_self (List.getElem?_eq_some_iff.1 isCall).1, rfl, fun chosen => ?_⟩
  exact ((deciding i call isCall chosen).next acts).imp_left And.right

end Pool

end

end SwiftBite.Store
