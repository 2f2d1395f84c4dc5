import SwiftBite.Store.SerialRules

/-! # Calls from their start to their end

`follow` plays a call that runs alone: one choice for each action, faults among them, until the
call has returned or thrown.  What a weakest precondition promises holds at the end of every
such play, and the play of a compound program splits where the program does.
-/

set_option autoImplicit false

namespace SwiftBite.Store

section

variable {T : Type} [DecidableEq T] {Row : T → Type} {K U : Type} [DecidableEq K] [DecidableEq U]
  [∀ t, Keyed (Row t) K U] {X ε β γ : Type} [Host X ε]

variable (Row) in
/-- How a call has ended, and what it leaves. -/
structure Ending (X ε β : Type) where
  result : Except ε β
  loc : Local Row K
  db : Db Row
  side : X

namespace Prog

/-- `none` unless the choices are the actions of the call from its start to its end. -/
def follow :
    List Choice → Prog Row X ε β → Local Row K → Db Row → X → Option (Ending (K := K) Row X ε β)
  | [], .done result, l, db, x => some ⟨result, l, db, x⟩
  | [], _, _, _, _ => none
  | choice :: choices, prog, l, db, x =>
    (prog.next choice l db x).bind fun out => follow choices out.prog out.loc out.db out.side

variable {prog : Prog Row X ε β} {l : Local Row K} {db : Db Row} {x : X} {choices : List Choice}
  {ending : Ending (K := K) Row X ε β}

theorem follow_cons {choice : Choice}
    (played : prog.follow (choice :: choices) l db x = some ending) :
    ∃ out, prog.next choice l db x = some out ∧
    out.prog.follow choices out.loc out.db out.side = some ending :=
  Option.bind_eq_some_iff.1 played

theorem follow_done {result : Except ε β}
    (played : (done result).follow choices l db x = some ending) :
    choices = [] ∧ ending = ⟨result, l, db, x⟩ := by
  cases choices with
  | nil =>
    cases played
    exact ⟨rfl, rfl⟩
  | cons choice choices =>
    obtain ⟨out, acts, _⟩ := follow_cons played
    cases acts

/-- A statement on the pool fails, or has one of its outcomes. -/
theorem follow_pool {α : Type} {run : ℕ → Db Row → List (Option (Effect Row K α))}
    {next : Except ε α → Prog Row X ε β}
    (played : (stmt .pool run next).follow choices l db x = some ending) :
    ∃ choice rest, choices = choice :: rest ∧
      (((choice = .fault ∨ none ∈ run (Host.now x) db) ∧
        (next (.error (Host.fault X))).follow rest l db x = some ending) ∨
        ∃ effect, choice ≠ .fault ∧ some effect ∈ run (Host.now x) db ∧
          (next (.ok effect.reply)).follow rest (l.saw effect.seen) (db.applyAll effect.writes) x =
            some ending) := by
  cases choices with
  | nil => cases played
  | cons choice rest =>
    refine ⟨choice, rest, rfl, ?_⟩
    obtain ⟨out, acts, onward⟩ := follow_cons played
    cases step_of_next acts with
    | stmtFails cause =>
      rcases cause with isFault | constraint | ⟨isTrx, _⟩
      · exact .inl ⟨.inl isFault, onward⟩
      · exact .inl ⟨.inr constraint, onward⟩
      · cases isTrx
    | onPool member =>
      exact .inr ⟨_, fun isFault => (by cases isFault), member, onward⟩

/-- An update of a row that is there succeeds, unless the statement fails. -/
theorem follow_updateByKey {t : T} {k : K} {row : Row t} (found : (db t).get k = some row)
    {f : Row t → Row t} {next : Except ε (Option (Row t)) → Prog Row X ε β}
    (played : (stmt .pool (Statement.updateByKey t k f) next).follow choices l db x = some ending) :
    ∃ choice rest, choices = choice :: rest ∧
      ((choice = .fault ∧ (next (.error (Host.fault X))).follow rest l db x = some ending) ∨
        ∃ l', choice ≠ .fault ∧
        (next (.ok (some (f row)))).follow rest l' (db.apply (.update t k f)) x = some ending) := by
  have outcomes : Statement.updateByKey t k f (Host.now x) db =
      [some ⟨[.update t k f], [⟨t, f row⟩], some (f row)⟩] := by
    rw [Statement.updateByKey, found]
  obtain ⟨choice, rest, isChoices,
    ⟨isFault | constraint, onward⟩ | ⟨effect, notFault, member, onward⟩⟩ := follow_pool played
  · exact ⟨choice, rest, isChoices, .inl ⟨isFault, onward⟩⟩
  · rw [outcomes] at constraint
    cases List.mem_singleton.1 constraint
  · rw [outcomes] at member
    cases List.mem_singleton.1 member
    exact ⟨choice, rest, isChoices, .inr ⟨_, notFault, onward⟩⟩

/-- An action that cannot fail. -/
theorem follow_sure {α : Type} {run : X → Except ε α × X} {next : Except ε α → Prog Row X ε β}
    (played : (side false run next).follow choices l db x = some ending) :
    ∃ choice rest, choices = choice :: rest ∧ choice ≠ .fault ∧
    (next (run x).1).follow rest l db (run x).2 = some ending := by
  cases choices with
  | nil => cases played
  | cons choice rest =>
    obtain ⟨out, acts, onward⟩ := follow_cons played
    cases step_of_next acts
    exact ⟨.pick 0, rest, rfl, fun isFault => (by cases isFault), onward⟩

/-- What is left of a compound program once its first part has ended. -/
def followRest (f : β → Prog Row X ε γ) (choices : List Choice)
    (middle : Ending (K := K) Row X ε β) : Option (Ending (K := K) Row X ε γ) :=
  match middle.result with
  | .ok b => (f b).follow choices middle.loc middle.db middle.side
  | .error e => (done (.error e) : Prog Row X ε γ).follow choices middle.loc middle.db middle.side

theorem next_bind {f : β → Prog Row X ε γ} (running : ∀ result, prog ≠ done result)
    (choice : Choice) :
    (prog.bind f).next choice l db x =
      (prog.next choice l db x).map fun out =>
        ⟨out.prog.bind f, out.loc, out.db, out.side, out.acquired⟩ := by
  cases prog with
  | done result => exact absurd rfl (running result)
  | stmt on run next =>
    cases choice with
    | fault => rfl
    | pick n =>
      simp only [bind, Prog.next]
      cases (run (instant on l x) (l.view db on))[n]? with
      | none => rfl
      | some outcome =>
        cases outcome with
        | none => rfl
        | some effect =>
          obtain ⟨txn, seen⟩ := l
          cases on with
          | pool => rfl
          | trx => cases txn <;> rfl
  | side fallible run next =>
    cases choice with
    | fault => cases fallible <;> rfl
    | pick n => cases n <;> rfl
  | begin next =>
    cases choice with
    | fault => rfl
    | pick n => cases n <;> rfl
  | commit next =>
    cases choice with
    | fault => rfl
    | pick n => cases n <;> rfl
  | rollback next =>
    cases choice with
    | fault => rfl
    | pick n => cases n <;> rfl

/-- The play of a compound program: its first part is played, and then the rest. -/
theorem follow_bind {f : β → Prog Row X ε γ} {ending : Ending (K := K) Row X ε γ}
    (played : (prog.bind f).follow choices l db x = some ending) :
    ∃ before after middle, choices = before ++ after ∧ prog.follow before l db x = some middle ∧
    followRest f after middle = some ending := by
  induction choices generalizing prog l db x with
  | nil =>
    cases prog with
    | done result =>
      refine ⟨[], [], _, rfl, rfl, ?_⟩
      cases result <;> exact played
    | _ => cases played
  | cons choice choices inductionHypothesis =>
    cases isProg : prog with
    | done result =>
      subst isProg
      refine ⟨[], choice :: choices, _, rfl, rfl, ?_⟩
      cases result <;> exact played
    | _ =>
      obtain ⟨out, acts, rest⟩ := follow_cons played
      rw [next_bind (by simp [isProg])] at acts
      obtain ⟨first, isFirst, rfl⟩ := Option.map_eq_some_iff.1 acts
      obtain ⟨before, after, middle, rfl, isMiddle, onward⟩ := inductionHypothesis rest
      refine ⟨choice :: before, after, middle, rfl, ?_, onward⟩
      rw [← isProg, follow, isFirst]
      exact isMiddle

/-- A play ends where the call does. -/
theorem follow_append {before after : List Choice} {middle : Ending (K := K) Row X ε β}
    (played : prog.follow (before ++ after) l db x = some ending)
    (first : prog.follow before l db x = some middle) : after = [] ∧ ending = middle := by
  induction before generalizing prog l db x with
  | nil =>
    cases prog with
    | done result =>
      cases first
      exact follow_done played
    | _ => cases first
  | cons choice before inductionHypothesis =>
    obtain ⟨out, acts, rest⟩ := follow_cons played
    obtain ⟨out', acts', rest'⟩ := follow_cons first
    cases acts.symm.trans acts'
    exact inductionHypothesis rest rest'

/-- Choices split in one way into the play of a call and what follows. -/
theorem follow_split {before before' after after' : List Choice}
    {middle middle' : Ending (K := K) Row X ε β} (same : before ++ after = before' ++ after')
    (played : prog.follow before l db x = some middle)
    (played' : prog.follow before' l db x = some middle') : after = after' ∧ middle = middle' := by
  obtain ⟨more, rfl, isAfter⟩ | ⟨more, rfl, isAfter⟩ := List.append_eq_append_iff.1 same
  · obtain ⟨rfl, rfl⟩ := follow_append played' played
    exact ⟨isAfter, rfl⟩
  · obtain ⟨rfl, rfl⟩ := follow_append played played'
    exact ⟨isAfter.symm, rfl⟩

/-- At the end of a play is what holds at the end of every play on these terms. -/
theorem solo_follow {t : Terms Row} {Q : Except ε β → Local Row K → Db Row → X → Prop}
    (holds : prog.solo t Q l db x) (fails : .fault ∈ choices → t.faulty)
    (played : prog.follow choices l db x = some ending) :
    Q ending.result ending.loc ending.db ending.side := by
  induction choices generalizing prog l db x with
  | nil =>
    cases prog with
    | done result =>
      cases played
      exact holds
    | _ => cases played
  | cons choice choices inductionHypothesis =>
    obtain ⟨out, acts, rest⟩ := follow_cons played
    have onward := (solo_next holds acts fun isFault => fails (by simp [isFault])).2
    exact inductionHypothesis onward (fun later => fails (List.mem_cons_of_mem _ later)) rest

/-! ## Plays in which something happens between the actions -/

section

variable {A : Type} (moves : A → X → X)

/-- `follow`, where the shared state moves before each action. -/
def followAmid :
    List (A × Choice) → Prog Row X ε β → Local Row K → Db Row → X →
    Option (Ending (K := K) Row X ε β)
  | [], .done result, l, db, x => some ⟨result, l, db, x⟩
  | [], _, _, _, _ => none
  | (a, choice) :: plays, prog, l, db, x =>
    (prog.next choice l db (moves a x)).bind fun out =>
      followAmid plays out.prog out.loc out.db out.side

/-- What holds at the end of every such play, and of all that has happened between its actions. -/
def Amid (prog : Prog Row X ε β) (Q : List A → Except ε β → Local Row K → Db Row → X → Prop)
    (l : Local Row K) (db : Db Row) (x : X) : Prop :=
  ∀ plays ending, prog.followAmid moves plays l db x = some ending →
    Q (plays.map Prod.fst) ending.result ending.loc ending.db ending.side

variable {moves} {Q : List A → Except ε β → Local Row K → Db Row → X → Prop}

theorem amid_mono {Q' : List A → Except ε β → Local Row K → Db Row → X → Prop}
    (weaker : ∀ before result l db x, Q before result l db x → Q' before result l db x)
    (holds : prog.Amid moves Q l db x) : prog.Amid moves Q' l db x :=
  fun plays ending played => weaker _ _ _ _ _ (holds plays ending played)

theorem amid_done {result : Except ε β} (holds : Q [] result l db x) :
    (done result).Amid moves Q l db x := by
  intro plays ending played
  cases plays with
  | nil =>
    cases played
    exact holds
  | cons play plays =>
    obtain ⟨_, acts, _⟩ := Option.bind_eq_some_iff.1 played
    cases acts

theorem amid_pool {α : Type} {run : ℕ → Db Row → List (Option (Effect Row K α))}
    {next : Except ε α → Prog Row X ε β}
    (succeeds : ∀ a effect, some effect ∈ run (Host.now (moves a x)) db →
      (next (.ok effect.reply)).Amid moves (fun before => Q (a :: before)) (l.saw effect.seen)
      (db.applyAll effect.writes) (moves a x))
    (fails : ∀ a,
      (next (.error (Host.fault X))).Amid moves (fun before => Q (a :: before)) l db (moves a x)) :
    (stmt .pool run next).Amid moves Q l db x := by
  intro plays ending played
  cases plays with
  | nil => cases played
  | cons play plays =>
    obtain ⟨a, choice⟩ := play
    obtain ⟨out, acts, onward⟩ := Option.bind_eq_some_iff.1 played
    cases choice with
    | fault =>
      cases acts
      exact fails a plays ending onward
    | pick n =>
      simp only [Prog.next] at acts
      split at acts
      · cases acts
      next =>
        cases acts
        exact fails a plays ending onward
      next effect chosen =>
        cases acts
        exact succeeds a effect (List.mem_of_getElem? chosen) plays ending onward

theorem amid_sure {α : Type} {run : X → Except ε α × X} {next : Except ε α → Prog Row X ε β}
    (onward : ∀ a, (next (run (moves a x)).1).Amid moves (fun before => Q (a :: before)) l db
      (run (moves a x)).2) : (side false run next).Amid moves Q l db x := by
  intro plays ending played
  cases plays with
  | nil => cases played
  | cons play plays =>
    obtain ⟨a, choice⟩ := play
    obtain ⟨out, acts, rest⟩ := Option.bind_eq_some_iff.1 played
    cases choice with
    | fault => cases acts
    | pick n =>
      cases next_sure acts
      exact onward a plays ending rest

/-- What has to hold where the first part of a compound program ends. -/
abbrev amidRest (moves : A → X → X) (f : β → Prog Row X ε γ)
    (Q : List A → Except ε γ → Local Row K → Db Row → X → Prop) (before : List A) :
    Except ε β → Local Row K → Db Row → X → Prop
  | .ok b, l, db, x => (f b).Amid moves (fun later => Q (before ++ later)) l db x
  | .error e, l, db, x => Q before (.error e) l db x

theorem amid_bind {f : β → Prog Row X ε γ}
    {Q : List A → Except ε γ → Local Row K → Db Row → X → Prop}
    (holds : prog.Amid moves (amidRest moves f Q) l db x) : (prog >>= f).Amid moves Q l db x := by
  intro plays
  induction plays generalizing prog Q l db x with
  | nil =>
    intro ending played
    cases prog with
    | done result =>
      have rest := holds [] _ rfl
      cases result with
      | ok b => exact rest [] ending played
      | error e =>
        cases played
        exact rest
    | _ => cases played
  | cons play plays inductionHypothesis =>
    intro ending played
    obtain ⟨a, choice⟩ := play
    cases isProg : prog with
    | done result =>
      subst isProg
      cases result with
      | ok b => exact holds [] _ rfl ((a, choice) :: plays) ending played
      | error e =>
        obtain ⟨_, acts, _⟩ := Option.bind_eq_some_iff.1 played
        cases acts
    | _ =>
      obtain ⟨out, acts, onward⟩ := Option.bind_eq_some_iff.1 played
      rw [show prog >>= f = prog.bind f from rfl, next_bind (by simp [isProg])] at acts
      obtain ⟨first, isFirst, rfl⟩ := Option.map_eq_some_iff.1 acts
      refine inductionHypothesis (Q := fun before => Q (a :: before))
        (fun plays' middle isMiddle => ?_) ending onward
      refine holds ((a, choice) :: plays') middle ?_
      rw [followAmid, isFirst]
      exact isMiddle

end

end Prog

end

end SwiftBite.Store
