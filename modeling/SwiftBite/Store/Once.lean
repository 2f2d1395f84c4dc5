import SwiftBite.Store.Footprint

/-! # Calls that leave their bounds at most once

Such a call keeps within some bounds until one statement on the pool takes it out of them, and
it keeps within them ever after.  A call that is within the bounds from the outset has nothing
left to do outside of them.
-/

set_option autoImplicit false

namespace SwiftBite.Store

section

variable {T : Type} {Row : T → Type} {K U : Type} [∀ t, Keyed (Row t) K U] {X ε α β : Type}

namespace Prog

variable (b : Bounds Row K X)

def Once : Prog (K := K) Row X ε α → Prop
  | .done _ => True
  | .stmt on run next =>
    (Within b run ∧ ∀ answer, (next answer).Once) ∨
    (on = .pool ∧ ∀ answer, (next answer).Harmless b)
  | .side _ _ next => ∀ answer, (next answer).Once
  | .begin next => ∀ answer, (next answer).Once
  | .commit next => ∀ answer, (next answer).Once
  | .rollback next => next.Once

variable {b}

theorem Harmless.once {prog : Prog Row X ε α} (harmless : prog.Harmless b) : prog.Once b := by
  induction prog with
  | done => trivial
  | stmt on run next inductionHypothesis =>
    exact .inl ⟨harmless.1, fun answer => inductionHypothesis answer (harmless.2 answer)⟩
  | side fallible run next inductionHypothesis =>
    exact fun answer => inductionHypothesis answer (harmless.2 answer)
  | begin next inductionHypothesis =>
    exact fun answer => inductionHypothesis answer (harmless answer)
  | commit next inductionHypothesis =>
    exact fun answer => inductionHypothesis answer (harmless answer)
  | rollback next inductionHypothesis => exact inductionHypothesis harmless

/-- What comes before may be anything within the bounds. -/
theorem Once.after {prog : Prog Row X ε α} {f : α → Prog Row X ε β} (first : prog.Harmless b)
    (second : ∀ a, (f a).Once b) : (prog >>= f).Once b := by
  show (prog.bind f).Once b
  induction prog with
  | done result =>
    cases result with
    | ok a => exact second a
    | error e => trivial
  | stmt on run next inductionHypothesis =>
    exact .inl ⟨first.1, fun answer => inductionHypothesis answer (first.2 answer)⟩
  | side fallible run next inductionHypothesis =>
    exact fun answer => inductionHypothesis answer (first.2 answer)
  | begin next inductionHypothesis => exact fun answer => inductionHypothesis answer (first answer)
  | commit next inductionHypothesis => exact fun answer => inductionHypothesis answer (first answer)
  | rollback next inductionHypothesis => exact inductionHypothesis first

theorem Once.exec {run : ℕ → Db Row → List (Option (Effect Row K α))} :
    (Prog.exec .pool run : Prog Row X ε α).Once b :=
  .inr ⟨rfl, fun _ => trivial⟩

end Prog

end

section

variable {T : Type} [DecidableEq T] {Row : T → Type} {K U : Type} [DecidableEq K] [DecidableEq U]
  [∀ t, Keyed (Row t) K U] {X ε O α β : Type}

namespace Prog

variable {b : Bounds Row K X}

omit [DecidableEq T] [DecidableEq K] [DecidableEq U] in
/-- What follows a call that leaves its bounds has to be within them. -/
theorem Once.bind {prog : Prog Row X ε α} {f : α → Prog Row X ε β} (first : prog.Once b)
    (second : ∀ a, (f a).Harmless b) : (prog >>= f).Once b := by
  show (prog.bind f).Once b
  induction prog with
  | done result =>
    cases result with
    | ok a => exact (second a).once
    | error e => trivial
  | stmt on run next inductionHypothesis =>
    rcases first with ⟨within, rest⟩ | ⟨isConn, rest⟩
    · exact .inl ⟨within, fun answer => inductionHypothesis answer (rest answer)⟩
    · exact .inr ⟨isConn, fun answer => Harmless.bind (rest answer) second⟩
  | side fallible run next inductionHypothesis =>
    exact fun answer => inductionHypothesis answer (first answer)
  | begin next inductionHypothesis => exact fun answer => inductionHypothesis answer (first answer)
  | commit next inductionHypothesis => exact fun answer => inductionHypothesis answer (first answer)
  | rollback next inductionHypothesis => exact inductionHypothesis first

omit [DecidableEq T] [DecidableEq K] [DecidableEq U] in
theorem Once.map {prog : Prog Row X ε α} {f : α → β} (first : prog.Once b) : (f <$> prog).Once b :=
  Once.bind first fun _ => trivial

/-! ## One action -/

/-- One action is within the bounds, or the last that is not. -/
theorem Once.next [Host X ε] {choice : Choice} {prog : Prog Row X ε α} {l : Local Row K}
    {db : Db Row} {x : X} {out : Outcome (K := K) Row X ε α} (once : prog.Once b)
    (kept : ∀ w ∈ l.writes, b.writes w) (acts : prog.next choice l db x = some out) :
    (∀ w ∈ out.loc.writes, b.writes w) ∧
      ((out.prog.Once b ∧ ∃ ws, (∀ w ∈ ws, b.writes w) ∧ out.db = db.applyAll ws) ∨
        out.prog.Harmless b) := by
  have still : ∃ ws : List (Write Row K), (∀ w ∈ ws, b.writes w) ∧ db = db.applyAll ws :=
    ⟨[], fun _ none => absurd none List.not_mem_nil, rfl⟩
  have dropped : ∀ w ∈ (⟨none, l.seen⟩ : Local Row K).writes, b.writes w :=
    fun _ none => absurd none List.not_mem_nil
  cases step_of_next acts with
  | stmtFails _ =>
    rcases once with ⟨_, rest⟩ | ⟨_, rest⟩
    · exact ⟨kept, .inl ⟨rest _, still⟩⟩
    · exact ⟨kept, .inr (rest _)⟩
  | onPool member =>
    rcases once with ⟨bounded, rest⟩ | ⟨_, rest⟩
    · exact ⟨kept, .inl ⟨rest _, _, (bounded _ _ _ member).1, rfl⟩⟩
    · exact ⟨kept, .inr (rest _)⟩
  | inTrx running member =>
    rcases once with ⟨bounded, rest⟩ | ⟨isPool, _⟩
    · obtain ⟨txn, seen⟩ := l
      cases running
      refine ⟨fun w among => ?_, .inl ⟨rest _, still⟩⟩
      rcases List.mem_append.1 among with before | now
      · exact kept w before
      · exact (bounded _ _ _ member).1 w now
    · cases isPool
  | sideFails => exact ⟨kept, .inl ⟨once _, still⟩⟩
  | sideActs => exact ⟨kept, .inl ⟨once _, still⟩⟩
  | beginFails => exact ⟨kept, .inl ⟨once _, still⟩⟩
  | begins => exact ⟨dropped, .inl ⟨once _, still⟩⟩
  | commitFails => exact ⟨kept, .inl ⟨once _, still⟩⟩
  | commits => exact ⟨dropped, .inl ⟨once _, l.writes, kept, rfl⟩⟩
  | rollsBack => exact ⟨dropped, .inl ⟨once, still⟩⟩

end Prog

namespace Pool

variable {b : Bounds Row K X} [Host X ε] {code : O → Prog (K := K) Row X ε α} {S : O → Prop}

/-- The calls of some operations leave their bounds at most once from now on, and what their
open transactions have written is within them. -/
def Sparing (b : Bounds Row K X) (S : O → Prop) (p : Pool (K := K) Row X ε O α) : Prop :=
  ∀ (i : ℕ) (call : Call Row X ε O α), p.calls[i]? = some call → S call.op →
  call.prog.Once b ∧ ∀ w ∈ call.loc.writes, b.writes w

theorem sparing_next {p p' : Pool (K := K) Row X ε O α} {e : Event O}
    (once : ∀ op, S op → (code op).Once b) (sparing : p.Sparing b S)
    (moves : p.next code e = some p') : p'.Sparing b S := by
  have nothing : ∀ w ∈ (Local.start : Local Row K).writes, b.writes w :=
    fun _ none => absurd none List.not_mem_nil
  intro j after found chosen
  cases e with
  | spawn op =>
    cases moves
    rcases getElem?_spawned found with old | ⟨_, rfl⟩
    · exact sparing j after old chosen
    · exact ⟨once op chosen, nothing⟩
  | step i choice =>
    obtain ⟨call, out, isCall, acts, _, rfl⟩ := stepCall_inv moves
    rcases getElem?_moved found with ⟨_, rfl⟩ | ⟨_, old⟩
    · have before := sparing i call isCall chosen
      obtain ⟨kept, ⟨still, _⟩ | harmless⟩ := before.1.next before.2 acts
      · exact ⟨still, kept⟩
      · exact ⟨harmless.once, kept⟩
    · exact sparing j after old chosen
  | crash i =>
    obtain ⟨call, isCall, _, rfl⟩ := crashCall_inv moves
    rcases getElem?_moved found with ⟨_, rfl⟩ | ⟨_, old⟩
    · exact ⟨trivial, nothing⟩
    · exact sparing j after old chosen

end Pool

end

end SwiftBite.Store
