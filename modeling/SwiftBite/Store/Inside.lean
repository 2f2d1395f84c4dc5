import SwiftBite.Store.SerialRules

/-! # A transaction that nobody disturbs

While no other call writes, a program in an open transaction is a function of what the
transaction sees.  `inside` is its weakest precondition over that view alone, and
`solo_of_inside` carries it back to the writes that are pending.
-/

set_option autoImplicit false

namespace SwiftBite.Store

section

variable {T : Type} [DecidableEq T] {Row : T → Type} {K U : Type} [DecidableEq K] [DecidableEq U]
  [∀ t, Keyed (Row t) K U] {X ε β γ : Type} [Host X ε]

namespace Prog

/-- The weakest precondition over the view; `db` is what other connections see. -/
def inside (db : Db Row) :
    Prog (K := K) Row X ε β → (Except ε β → Db Row → X → Prop) → Db Row → X → Prop
  | .done result, Q, view, x => Q result view x
  | .stmt .trx run next, Q, view, x =>
    (∀ now effect, some effect ∈ run now view →
      inside db (next (.ok effect.reply)) Q (view.applyAll effect.writes) x) ∧
    ∀ now, none ∈ run now view → inside db (next (.error (Host.fault X))) Q view x
  | .stmt .pool run next, Q, view, x =>
    (∀ now effect, some effect ∈ run now db →
      effect.writes = [] ∧ inside db (next (.ok effect.reply)) Q view x) ∧
    ∀ now, none ∈ run now db → inside db (next (.error (Host.fault X))) Q view x
  | .side _ run next, Q, view, x => inside db (next (run x).1) Q view (run x).2
  | .begin _, _, _, _ | .commit _, _, _, _ | .rollback _, _, _, _ => False

variable {db view : Db Row} {x : X} {t : T}

/-- What a transaction leaves open, by the view that it leaves. -/
abbrev leaving (db : Db Row) (began : ℕ) (Q : Except ε β → Db Row → X → Prop) :
    Except ε β → Local Row K → Db Row → X → Prop :=
  fun result l db' x => db' = db ∧ ∃ ws seen, l = ⟨some ⟨began, ws⟩, seen⟩ ∧
  Q result (db.applyAll ws) x

theorem solo_of_inside {moves : Db Row → Db Row → Prop} {prog : Prog (K := K) Row X ε β}
    {Q : Except ε β → Db Row → X → Prop} {began : ℕ} {ws : List (Write Row K)}
    {seen : List (Sigma Row)} (holds : prog.inside db Q (db.applyAll ws) x) :
    prog.solo (.calm moves) (leaving db began Q) ⟨some ⟨began, ws⟩, seen⟩ db x := by
  induction prog generalizing ws seen x with
  | done result => exact ⟨rfl, ws, seen, rfl, holds⟩
  | stmt on run next inductionHypothesis =>
    cases on with
    | trx =>
      refine ⟨fun effect member => ?_, fun may => ?_⟩
      · have onward := holds.1 _ effect member
        rw [← Db.applyAll_append] at onward
        exact inductionHypothesis _ onward
      · rcases may with constraint | faulty | ⟨_, closed⟩
        · exact inductionHypothesis _ (holds.2 _ constraint)
        · exact faulty.elim
        · cases closed
    | pool =>
      refine ⟨fun effect member => ?_, fun may => ?_⟩
      · obtain ⟨silent, onward⟩ := holds.1 _ effect member
        show (Terms.calm moves).Moved db (db.applyAll effect.writes) ∧ _
        rw [silent]
        exact ⟨.refl _ db, inductionHypothesis _ onward⟩
      · rcases may with constraint | faulty | ⟨isTrx, _⟩
        · exact inductionHypothesis _ (holds.2 _ constraint)
        · exact faulty.elim
        · cases isTrx
  | side fallible run next inductionHypothesis =>
    exact ⟨inductionHypothesis _ holds, fun _ faulty => faulty.elim⟩
  | begin | commit | rollback => exact holds.elim

/-! ## The combinators -/

/-- What a program must establish for its continuation. -/
abbrev insideBind (db : Db Row) (f : β → Prog (K := K) Row X ε γ)
    (Q : Except ε γ → Db Row → X → Prop) : Except ε β → Db Row → X → Prop
  | .ok b, view, x => (f b).inside db Q view x
  | .error e, view, x => Q (.error e) view x

theorem inside_do {prog : Prog (K := K) Row X ε β} {f : β → Prog Row X ε γ}
    {Q : Except ε γ → Db Row → X → Prop} (holds : prog.inside db (insideBind db f Q) view x) :
    (prog >>= f).inside db Q view x := by
  show (prog.bind f).inside db Q view x
  induction prog generalizing view x with
  | done result => cases result <;> exact holds
  | stmt on run next inductionHypothesis =>
    cases on with
    | trx =>
      exact ⟨fun now effect member => inductionHypothesis _ (holds.1 now effect member),
        fun now constraint => inductionHypothesis _ (holds.2 now constraint)⟩
    | pool =>
      exact ⟨fun now effect member =>
        ⟨(holds.1 now effect member).1, inductionHypothesis _ (holds.1 now effect member).2⟩,
        fun now constraint => inductionHypothesis _ (holds.2 now constraint)⟩
  | side fallible run next inductionHypothesis => exact inductionHypothesis _ holds
  | begin | commit | rollback => exact holds.elim

/-! ## The statements -/

theorem inside_sure {run : X → β × X} {Q : Except ε β → Db Row → X → Prop}
    (next : Q (.ok (run x).1) view (run x).2) :
    (Prog.sure run : Prog (K := K) Row X ε β).inside db Q view x :=
  next

theorem inside_select {read : ℕ → Db Row → β} {Q : Except ε β → Db Row → X → Prop}
    (next : ∀ now, Q (.ok (read now view)) view x) :
    (Prog.exec .trx (Statement.select read) : Prog (K := K) Row X ε β).inside db Q view x := by
  refine ⟨fun now effect member => ?_,
    fun now constraint => nomatch List.mem_singleton.1 constraint⟩
  cases List.mem_singleton.1 member
  exact next now

section First

variable {candidates : Table (Row t) → List (Row t)}
  {Q : Except ε (Option (Row t)) → Db Row → X → Prop}

theorem inside_selectFirst (found : ∀ row ∈ candidates (view t), Q (.ok (some row)) view x)
    (absent : candidates (view t) = [] → Q (.ok none) view x) :
    (Prog.exec .trx (Statement.selectFirst t candidates) : Prog (K := K) Row X ε _).inside db
      Q view x := by
  refine ⟨fun now effect member => ?_, fun now constraint => ?_⟩
  · obtain ⟨none, isEffect⟩ | ⟨row, among, isEffect⟩ :=
      Statement.selectFirst_cases member <;> cases isEffect
    · exact absent none
    · exact found row among
  · obtain ⟨_, isEffect⟩ | ⟨row, _, isEffect⟩ :=
      Statement.selectFirst_cases constraint <;> cases isEffect

/-- A query that goes to another connection. -/
theorem inside_selectFirst_conn (found : ∀ row ∈ candidates (db t), Q (.ok (some row)) view x)
    (absent : candidates (db t) = [] → Q (.ok none) view x) :
    (Prog.exec .pool (Statement.selectFirst t candidates) : Prog (K := K) Row X ε _).inside db
      Q view x := by
  refine ⟨fun now effect member => ?_, fun now constraint => ?_⟩
  · obtain ⟨none, isEffect⟩ | ⟨row, among, isEffect⟩ :=
      Statement.selectFirst_cases member <;> cases isEffect
    · exact ⟨rfl, absent none⟩
    · exact ⟨rfl, found row among⟩
  · obtain ⟨_, isEffect⟩ | ⟨row, _, isEffect⟩ :=
      Statement.selectFirst_cases constraint <;> cases isEffect

end First

theorem inside_updateByKey {k : K} {f : Row t → Row t}
    {Q : Except ε (Option (Row t)) → Db Row → X → Prop}
    (found : ∀ row, (view t).get k = some row →
      Q (.ok (some (f row))) (view.apply (.update t k f)) x)
    (absent : (view t).get k = none → Q (.ok none) view x) :
    (Prog.exec .trx (Statement.updateByKey t k f) : Prog (K := K) Row X ε _).inside db
      Q view x := by
  refine ⟨fun now effect member => ?_, fun now constraint => ?_⟩
  · unfold Statement.updateByKey at member
    split at member
    next none =>
      cases List.mem_singleton.1 member
      exact absent none
    next row isRow =>
      cases List.mem_singleton.1 member
      exact found row isRow
  · unfold Statement.updateByKey at constraint
    split at constraint <;> cases List.mem_singleton.1 constraint

theorem inside_insert {parents : List (T × K)} {row : ℕ → Row t}
    {Q : Except ε (Row t) → Db Row → X → Prop}
    (free : ∀ now, (view t).conflicts (row now) = false → Statement.referencesHold view parents =
      true → Q (.ok (row now)) (view.apply (.insert t (row now))) x)
    (fails : ∀ now, (view t).conflicts (row now) = true ∨
      Statement.referencesHold view parents = false → Q (.error (Host.fault X)) view x) :
    (Prog.exec .trx (Statement.insert t parents row) : Prog (K := K) Row X ε _).inside db
      Q view x := by
  refine ⟨fun now effect member => ?_, fun now constraint => ?_⟩
  · unfold Statement.insert at member
    split at member
    next => cases List.mem_singleton.1 member
    next noConflict =>
      cases List.mem_singleton.1 member
      simp only [Bool.or_eq_true, Bool.not_eq_true', not_or, Bool.not_eq_true,
        Bool.not_eq_false] at noConflict
      exact free now noConflict.1 noConflict.2
  · unfold Statement.insert at constraint
    split at constraint
    next conflict => exact fails now (by simpa using conflict)
    next => cases List.mem_singleton.1 constraint

theorem inside_insertIgnore {target : Row t → Bool} {parents : List (T × K)} {row : ℕ → Row t}
    {Q : Except ε (Option (Row t)) → Db Row → X → Prop}
    (there : (view t).rows.any target = true → Q (.ok none) view x)
    (free : ∀ now, (view t).rows.any target = false → (view t).conflicts (row now) = false →
      Q (.ok (some (row now))) (view.apply (.insert t (row now))) x)
    (fails : ∀ now, (view t).rows.any target = false → (view t).conflicts (row now) = true ∨
      Statement.referencesHold view parents = false → Q (.error (Host.fault X)) view x) :
    (Prog.exec .trx (Statement.insertIgnore t target parents row) : Prog (K := K) Row X ε _).inside
      db Q view x := by
  refine ⟨fun now effect member => ?_, fun now constraint => ?_⟩
  · unfold Statement.insertIgnore at member
    split at member
    next isThere =>
      cases List.mem_singleton.1 member
      exact there isThere
    next notThere =>
      split at member
      next => cases List.mem_singleton.1 member
      next noConflict =>
        cases List.mem_singleton.1 member
        simp only [Bool.or_eq_true, not_or, Bool.not_eq_true] at noConflict
        exact free now (by simpa using notThere) noConflict.1
  · unfold Statement.insertIgnore at constraint
    split at constraint
    next => cases List.mem_singleton.1 constraint
    next notThere =>
      split at constraint
      next conflict => exact fails now (by simpa using notThere) (by simpa using conflict)
      next => cases List.mem_singleton.1 constraint

end Prog

end

end SwiftBite.Store
