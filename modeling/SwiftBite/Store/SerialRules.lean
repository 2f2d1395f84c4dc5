import SwiftBite.Store.Atomic
import SwiftBite.Store.Serial

/-! # Rules for calls that run alone

The combinators, one rule for each kind of statement that succeeds or meets a constraint,
and the passage from a call verified under interference to the call alone.
-/

set_option autoImplicit false

namespace SwiftBite.Store

section

variable {T : Type} [DecidableEq T] {Row : T → Type} {K U : Type} [DecidableEq K] [DecidableEq U]
  [∀ t, Keyed (Row t) K U] {X ε O α β γ : Type} [Host X ε]

namespace Prog

/-! ## The combinators -/

section Combinators

variable {t : Terms Row} {l : Local Row K} {db : Db Row} {x : X}

theorem Takes.mono {on : Conn} {effect : Effect Row K β} {Φ Φ' : Local Row K → Db Row → Prop}
    (weaker : ∀ l db, Φ l db → Φ' l db) (takes : Takes t on effect l db Φ) :
    Takes t on effect l db Φ' := by
  obtain ⟨txn, seen⟩ := l
  cases on with
  | pool => exact ⟨takes.1, weaker _ _ takes.2⟩
  | trx =>
    cases txn with
    | none => trivial
    | some txn => exact weaker _ _ takes

theorem solo_mono {prog : Prog Row X ε β} {Q Q' : Except ε β → Local Row K → Db Row → X → Prop}
    (weaker : ∀ result l db x, Q result l db x → Q' result l db x) (holds : prog.solo t Q l db x) :
    prog.solo t Q' l db x := by
  induction prog generalizing l db x with
  | done result => exact weaker _ _ _ _ holds
  | stmt on run next inductionHypothesis =>
    exact ⟨fun effect member => (holds.1 effect member).mono fun _ _ => inductionHypothesis _,
      fun fails => inductionHypothesis _ (holds.2 fails)⟩
  | side fallible run next inductionHypothesis =>
    exact ⟨inductionHypothesis _ holds.1,
      fun isFallible faulty => inductionHypothesis _ (holds.2 isFallible faulty)⟩
  | begin next inductionHypothesis =>
    exact ⟨inductionHypothesis _ holds.1, fun faulty => inductionHypothesis _ (holds.2 faulty)⟩
  | commit next inductionHypothesis =>
    exact ⟨⟨holds.1.1, inductionHypothesis _ holds.1.2⟩,
      fun faulty => inductionHypothesis _ (holds.2 faulty)⟩
  | rollback next inductionHypothesis => exact inductionHypothesis holds

/-- What a program must establish for its continuation. -/
abbrev soloBind (t : Terms Row) (f : β → Prog Row X ε γ)
    (Q : Except ε γ → Local Row K → Db Row → X → Prop) :
    Except ε β → Local Row K → Db Row → X → Prop
  | .ok b, l, db, x => (f b).solo t Q l db x
  | .error e, l, db, x => Q (.error e) l db x

theorem solo_bind {prog : Prog Row X ε β} {f : β → Prog Row X ε γ}
    {Q : Except ε γ → Local Row K → Db Row → X → Prop}
    (holds : prog.solo t (soloBind t f Q) l db x) : (prog.bind f).solo t Q l db x := by
  induction prog generalizing l db x with
  | done result => cases result <;> exact holds
  | stmt on run next inductionHypothesis =>
    exact ⟨fun effect member => (holds.1 effect member).mono fun _ _ => inductionHypothesis _,
      fun fails => inductionHypothesis _ (holds.2 fails)⟩
  | side fallible run next inductionHypothesis =>
    exact ⟨inductionHypothesis _ holds.1,
      fun isFallible faulty => inductionHypothesis _ (holds.2 isFallible faulty)⟩
  | begin next inductionHypothesis =>
    exact ⟨inductionHypothesis _ holds.1, fun faulty => inductionHypothesis _ (holds.2 faulty)⟩
  | commit next inductionHypothesis =>
    exact ⟨⟨holds.1.1, inductionHypothesis _ holds.1.2⟩,
      fun faulty => inductionHypothesis _ (holds.2 faulty)⟩
  | rollback next inductionHypothesis => exact inductionHypothesis holds

/-- What a guarded program must establish for its handler. -/
abbrev soloCatch (t : Terms Row) (handler : ε → Prog Row X ε β)
    (Q : Except ε β → Local Row K → Db Row → X → Prop) :
    Except ε β → Local Row K → Db Row → X → Prop
  | .ok b, l, db, x => Q (.ok b) l db x
  | .error e, l, db, x => (handler e).solo t Q l db x

theorem solo_tryCatch {prog : Prog Row X ε β} {handler : ε → Prog Row X ε β}
    {Q : Except ε β → Local Row K → Db Row → X → Prop}
    (holds : prog.solo t (soloCatch t handler Q) l db x) :
    (prog.tryCatch handler).solo t Q l db x := by
  induction prog generalizing l db x with
  | done result => cases result <;> exact holds
  | stmt on run next inductionHypothesis =>
    exact ⟨fun effect member => (holds.1 effect member).mono fun _ _ => inductionHypothesis _,
      fun fails => inductionHypothesis _ (holds.2 fails)⟩
  | side fallible run next inductionHypothesis =>
    exact ⟨inductionHypothesis _ holds.1,
      fun isFallible faulty => inductionHypothesis _ (holds.2 isFallible faulty)⟩
  | begin next inductionHypothesis =>
    exact ⟨inductionHypothesis _ holds.1, fun faulty => inductionHypothesis _ (holds.2 faulty)⟩
  | commit next inductionHypothesis =>
    exact ⟨⟨holds.1.1, inductionHypothesis _ holds.1.2⟩,
      fun faulty => inductionHypothesis _ (holds.2 faulty)⟩
  | rollback next inductionHypothesis => exact inductionHypothesis holds

theorem solo_ofExcept {answer : Except ε β} {Q : Except ε β → Local Row K → Db Row → X → Prop}
    (holds : Q answer l db x) : (Prog.ofExcept answer : Prog Row X ε β).solo t Q l db x :=
  holds

theorem solo_do {prog : Prog Row X ε γ} {f : γ → Prog Row X ε β}
    {Q : Except ε β → Local Row K → Db Row → X → Prop}
    (holds : prog.solo t (soloBind t f Q) l db x) : (prog >>= f).solo t Q l db x :=
  solo_bind holds

theorem solo_map {prog : Prog Row X ε γ} {f : γ → β}
    {Q : Except ε β → Local Row K → Db Row → X → Prop}
    (holds : prog.solo t (fun result l db x => Q (result.map f) l db x) l db x) :
    (f <$> prog).solo t Q l db x := by
  refine solo_bind (solo_mono ?_ holds)
  intro result l db x
  cases result <;> exact id

/-- What holds whether a program succeeds or not does not depend on what it returns. -/
theorem solo_returning {prog : Prog Row X ε γ} {f : γ → β} {Q : Db Row → X → Prop}
    (ends : prog.solo t (fun _ _ => Q) l db x) :
    (prog >>= fun value => pure (f value)).solo t (fun _ _ => Q) l db x := by
  refine solo_do (solo_mono ?_ ends)
  intro result l' db' x' holds
  cases result <;> exact holds

/-- The program's moves of the shared state, beside what else is known of it. -/
theorem solo_and_side {b : Bounds Row K X}
    (trans : ∀ {x y z}, b.moves x y → b.moves y z → b.moves x z) {prog : Prog Row X ε β}
    (harmless : prog.Harmless b) {Q : Except ε β → Local Row K → Db Row → X → Prop} {y : X}
    (since : b.moves y x) (holds : prog.solo t Q l db x) :
    prog.solo t (fun result l db x => Q result l db x ∧ b.moves y x) l db x := by
  induction prog generalizing l db x with
  | done result => exact ⟨holds, since⟩
  | stmt on run next inductionHypothesis =>
    exact ⟨fun effect member => (holds.1 effect member).mono fun _ _ =>
      inductionHypothesis _ (harmless.2 _) since,
      fun fails => inductionHypothesis _ (harmless.2 _) since (holds.2 fails)⟩
  | side fallible run next inductionHypothesis =>
    exact ⟨inductionHypothesis _ (harmless.2 _) (trans since (harmless.1 x)) holds.1,
      fun isFallible faulty =>
        inductionHypothesis _ (harmless.2 _) since (holds.2 isFallible faulty)⟩
  | begin next inductionHypothesis =>
    exact ⟨inductionHypothesis _ (harmless _) since holds.1,
      fun faulty => inductionHypothesis _ (harmless _) since (holds.2 faulty)⟩
  | commit next inductionHypothesis =>
    exact ⟨⟨holds.1.1, inductionHypothesis _ (harmless _) since holds.1.2⟩,
      fun faulty => inductionHypothesis _ (harmless _) since (holds.2 faulty)⟩
  | rollback next inductionHypothesis => exact inductionHypothesis harmless since holds

/-- Two things that a program establishes, each proved on its own. -/
theorem solo_and {moves : Db Row → Db Row → Prop} {prog : Prog Row X ε β}
    {Q Q' : Except ε β → Local Row K → Db Row → X → Prop} (first : prog.solo t Q l db x)
    (second : prog.solo ⟨moves, t.faulty⟩ Q' l db x) :
    prog.solo t (fun result l db x => Q result l db x ∧ Q' result l db x) l db x := by
  induction prog generalizing l db x with
  | done result => exact ⟨first, second⟩
  | stmt on run next inductionHypothesis =>
    refine ⟨fun effect member => ?_,
      fun fails => inductionHypothesis _ (first.2 fails) (second.2 fails)⟩
    have one := first.1 effect member
    have other := second.1 effect member
    obtain ⟨txn, seen⟩ := l
    cases on with
    | pool => exact ⟨one.1, inductionHypothesis _ one.2 other.2⟩
    | trx =>
      cases txn with
      | none => trivial
      | some txn => exact inductionHypothesis _ one other
  | side fallible run next inductionHypothesis =>
    exact ⟨inductionHypothesis _ first.1 second.1,
      fun isFallible faulty =>
        inductionHypothesis _ (first.2 isFallible faulty) (second.2 isFallible faulty)⟩
  | begin next inductionHypothesis =>
    exact ⟨inductionHypothesis _ first.1 second.1,
      fun faulty => inductionHypothesis _ (first.2 faulty) (second.2 faulty)⟩
  | commit next inductionHypothesis =>
    exact ⟨⟨first.1.1, inductionHypothesis _ first.1.2 second.1.2⟩,
      fun faulty => inductionHypothesis _ (first.2 faulty) (second.2 faulty)⟩
  | rollback next inductionHypothesis => exact inductionHypothesis first second

/-- What no write and no move within the bounds disturbs holds after the program too. -/
theorem solo_harmless {b : Bounds Row K X} {Q : Db Row → X → Prop}
    (writes : ∀ db x ws, (∀ w ∈ ws, b.writes w) → Q db x →
      t.Moved db (db.applyAll ws) ∧ Q (db.applyAll ws) x)
    (moves : ∀ db x x', b.moves x x' → Q db x → Q db x') {prog : Prog Row X ε β}
    (harmless : prog.Harmless b) (pending : ∀ w ∈ l.writes, b.writes w) (holds : Q db x) :
    prog.solo t (fun _ _ => Q) l db x := by
  induction prog generalizing l db x with
  | done result => exact holds
  | stmt on run next inductionHypothesis =>
    obtain ⟨within, harmless⟩ := harmless
    refine ⟨fun effect member => ?_, fun _ => inductionHypothesis _ (harmless _) pending holds⟩
    have inside := (within _ _ effect member).1
    obtain ⟨txn, seen⟩ := l
    cases on with
    | pool =>
      obtain ⟨moved, after⟩ := writes db x effect.writes inside holds
      exact ⟨moved, inductionHypothesis _ (harmless _) pending after⟩
    | trx =>
      cases txn with
      | none => trivial
      | some txn =>
        refine inductionHypothesis _ (harmless _) (fun w among => ?_) holds
        rcases List.mem_append.1 among with before | now
        · exact pending w before
        · exact inside w now
  | side fallible run next inductionHypothesis =>
    exact ⟨inductionHypothesis _ (harmless.2 _) pending (moves db x _ (harmless.1 x) holds),
      fun _ _ => inductionHypothesis _ (harmless.2 _) pending holds⟩
  | begin next inductionHypothesis =>
    exact ⟨inductionHypothesis _ (harmless _) (fun w none => absurd none List.not_mem_nil) holds,
      fun _ => inductionHypothesis _ (harmless _) pending holds⟩
  | commit next inductionHypothesis =>
    obtain ⟨moved, after⟩ := writes db x l.writes pending holds
    exact ⟨⟨moved, inductionHypothesis _ (harmless _)
      (fun w none => absurd none List.not_mem_nil) after⟩,
      fun _ => inductionHypothesis _ (harmless _) pending holds⟩
  | rollback next inductionHypothesis =>
    exact inductionHypothesis harmless (fun w none => absurd none List.not_mem_nil) holds

/-- A program of which only the footprint matters. -/
theorem solo_quiet {b : Bounds Row K X} (refl : ∀ x, b.moves x x)
    (trans : ∀ {x y z}, b.moves x y → b.moves y z → b.moves x z) {prog : Prog Row X ε β}
    (quiet : prog.Quiet b) {Q : Except ε β → Local Row K → Db Row → X → Prop}
    (next : ∀ result ws rows x', (∀ w ∈ ws, b.writes w) → b.moves x x' →
      Q result (l.grow ws rows) db x') : prog.solo t Q l db x := by
  induction prog generalizing l x with
  | done result =>
    have settled := next result [] [] x (fun _ none => absurd none List.not_mem_nil) (refl x)
    rwa [Local.grow_nil] at settled
  | stmt on run following inductionHypothesis =>
    obtain ⟨within, silent, quiet⟩ := quiet
    have onward : ∀ answer ws rows, (∀ w ∈ ws, b.writes w) →
        (following answer).solo t Q (l.grow ws rows) db x := by
      intro answer ws rows writes
      refine inductionHypothesis answer (quiet answer) fun result ws' rows' x' writes' moves => ?_
      rw [Local.grow_grow]
      refine next result _ _ x' (fun w member => ?_) moves
      rcases List.mem_append.1 member with old | new
      · exact writes w old
      · exact writes' w new
    have stays := onward (.error (Host.fault X)) [] [] fun _ none => absurd none List.not_mem_nil
    rw [Local.grow_nil] at stays
    refine ⟨fun effect member => ?_, fun _ => stays⟩
    obtain ⟨writes, _⟩ := within _ _ effect member
    cases on with
    | pool =>
      have none := silent rfl _ _ effect member
      have reads := onward (.ok effect.reply) [] effect.seen fun _ none =>
          absurd none List.not_mem_nil
      rw [← Local.saw_eq_grow] at reads
      show t.Moved db (db.applyAll effect.writes) ∧ _
      rw [none]
      exact ⟨.refl t db, reads⟩
    | trx =>
      obtain ⟨txn, seen⟩ := l
      cases txn with
      | none => trivial
      | some txn => exact onward (.ok effect.reply) effect.writes effect.seen writes
  | side fallible run following inductionHypothesis =>
    obtain ⟨moves, quiet⟩ := quiet
    refine ⟨?_, fun _ _ => inductionHypothesis _ (quiet _) next⟩
    exact inductionHypothesis _ (quiet _) fun result ws rows x' writes moved =>
      next result ws rows x' writes (trans (moves x) moved)
  | begin | commit | rollback => exact quiet.elim

end Combinators

/-- A statement on the pool that may fail. -/
theorem solo_pool {t : Terms Row} {seen : List (Sigma Row)} {db : Db Row} {x : X}
    {run : ℕ → Db Row → List (Option (Effect Row K β))}
    {Q : Except ε β → Local Row K → Db Row → X → Prop}
    (succeeds : ∀ effect, some effect ∈ run (Host.now x) db →
      t.Moved db (db.applyAll effect.writes) ∧ ∀ seen',
      Q (.ok effect.reply) ⟨none, seen'⟩ (db.applyAll effect.writes) x)
    (fails : Q (.error (Host.fault X)) ⟨none, seen⟩ db x) :
    (Prog.exec .pool run).solo t Q ⟨none, seen⟩ db x := by
  refine ⟨fun effect member => ?_, fun _ => fails⟩
  obtain ⟨moved, next⟩ := succeeds effect member
  exact ⟨moved, next _⟩

/-- A query that may fail. -/
theorem solo_query {t : Terms Row} {seen : List (Sigma Row)} {db : Db Row} {x : X}
    {read : ℕ → Db Row → β} {Q : Except ε β → Local Row K → Db Row → X → Prop}
    (next : ∀ seen', Q (.ok (read (Host.now x) db)) ⟨none, seen'⟩ db x)
    (fails : t.faulty → Q (.error (Host.fault X)) ⟨none, seen⟩ db x) :
    (Prog.exec .pool (Statement.select read)).solo t Q ⟨none, seen⟩ db x := by
  refine ⟨fun effect member => ?_, fun may => ?_⟩
  · cases List.mem_singleton.1 member
    exact ⟨.refl t db, next _⟩
  · rcases may with constraint | faulty | ⟨isTrx, _⟩
    · cases List.mem_singleton.1 constraint
    · exact fails faulty
    · cases isTrx

/-- A query for one row that may fail. -/
theorem solo_lookup {t : Terms Row} {seen : List (Sigma Row)} {db : Db Row} {x : X} {table : T}
    {k : K} {Q : Except ε (Option (Row table)) → Local Row K → Db Row → X → Prop}
    (next : ∀ seen', Q (.ok ((db table).get k)) ⟨none, seen'⟩ db x)
    (fails : t.faulty → Q (.error (Host.fault X)) ⟨none, seen⟩ db x) :
    (Prog.exec .pool (Statement.selectByKey table k)).solo t Q ⟨none, seen⟩ db x := by
  refine ⟨fun effect member => ?_, fun may => ?_⟩
  · cases List.mem_singleton.1 member
    exact ⟨.refl t db, next _⟩
  · rcases may with constraint | faulty | ⟨isTrx, _⟩
    · cases List.mem_singleton.1 constraint
    · exact fails faulty
    · cases isTrx

/-- A query that may fail, for one row that may be absent. -/
theorem solo_find {t : Terms Row} {seen : List (Sigma Row)} {db : Db Row} {x : X} {table : T}
    {k : K} {Q : Except ε (Option (Row table)) → Local Row K → Db Row → X → Prop}
    (found : ∀ row, (db table).get k = some row → ∀ seen', Q (.ok (some row)) ⟨none, seen'⟩ db x)
    (absent : (db table).get k = none → ∀ seen', Q (.ok none) ⟨none, seen'⟩ db x)
    (fails : t.faulty → Q (.error (Host.fault X)) ⟨none, seen⟩ db x) :
    (Prog.exec .pool (Statement.selectByKey table k)).solo t Q ⟨none, seen⟩ db x := by
  refine solo_lookup (fun seen' => ?_) fails
  cases read : (db table).get k with
  | none => exact absent read seen'
  | some row => exact found row read seen'

/-- A command that may fail. -/
theorem solo_command {t : Terms Row} {l : Local Row K} {db : Db Row} {x : X}
    {run : X → Except ε β × X} {Q : Except ε β → Local Row K → Db Row → X → Prop}
    (next : Q (run x).1 l db (run x).2) (fails : t.faulty → Q (.error (Host.fault X)) l db x) :
    (Prog.act run).solo t Q l db x :=
  ⟨next, fun _ => fails⟩

/-! ## Statements that do not fail -/

section Statements

variable {moves : Db Row → Db Row → Prop} {seen : List (Sigma Row)} {db : Db Row} {x : X}

theorem solo_exec_conn {run : ℕ → Db Row → List (Option (Effect Row K β))}
    {Q : Except ε β → Local Row K → Db Row → X → Prop}
    (succeeds : ∀ effect, some effect ∈ run (Host.now x) db →
      (Terms.calm moves).Moved db (db.applyAll effect.writes) ∧ ∀ seen',
      Q (.ok effect.reply) ⟨none, seen'⟩ (db.applyAll effect.writes) x)
    (fails : none ∈ run (Host.now x) db → Q (.error (Host.fault X)) ⟨none, seen⟩ db x) :
    (Prog.exec .pool run).solo (.calm moves) Q ⟨none, seen⟩ db x := by
  refine ⟨fun effect member => ?_, fun may => ?_⟩
  · obtain ⟨moved, next⟩ := succeeds effect member
    exact ⟨moved, next _⟩
  · rcases may with constraint | faulty | ⟨isTrx, _⟩
    · exact fails constraint
    · exact faulty.elim
    · cases isTrx

theorem solo_select {read : ℕ → Db Row → β} {Q : Except ε β → Local Row K → Db Row → X → Prop}
    (next : ∀ seen', Q (.ok (read (Host.now x) db)) ⟨none, seen'⟩ db x) :
    (Prog.exec .pool (Statement.select read)).solo (.calm moves) Q ⟨none, seen⟩ db x := by
  refine solo_exec_conn (fun effect member => ?_) fun constraint =>
    nomatch List.mem_singleton.1 constraint
  cases List.mem_singleton.1 member
  exact ⟨.refl _ db, next⟩

theorem solo_selectByKey {t : T} {k : K}
    {Q : Except ε (Option (Row t)) → Local Row K → Db Row → X → Prop}
    (found : ∀ row, (db t).get k = some row → ∀ seen', Q (.ok (some row)) ⟨none, seen'⟩ db x)
    (absent : (db t).get k = none → ∀ seen', Q (.ok none) ⟨none, seen'⟩ db x) :
    (Prog.exec .pool (Statement.selectByKey t k)).solo (.calm moves) Q ⟨none, seen⟩ db x := by
  refine solo_exec_conn (fun effect member => ?_) fun constraint =>
    nomatch List.mem_singleton.1 constraint
  cases List.mem_singleton.1 member
  refine ⟨.refl _ db, fun seen' => ?_⟩
  show Q (.ok ((db t).get k)) ⟨none, seen'⟩ db x
  cases looked : (db t).get k with
  | none => exact absent looked seen'
  | some row => exact found row looked seen'

theorem solo_selectFirst {t : T} {candidates : Table (Row t) → List (Row t)}
    {Q : Except ε (Option (Row t)) → Local Row K → Db Row → X → Prop}
    (found : ∀ row ∈ candidates (db t), ∀ seen', Q (.ok (some row)) ⟨none, seen'⟩ db x)
    (absent : candidates (db t) = [] → ∀ seen', Q (.ok none) ⟨none, seen'⟩ db x) :
    (Prog.exec .pool (Statement.selectFirst t candidates)).solo (.calm moves) Q
      ⟨none, seen⟩ db x := by
  refine solo_exec_conn (fun effect member => ?_) fun constraint => ?_
  · unfold Statement.selectFirst at member
    split at member
    next none =>
      cases List.mem_singleton.1 member
      exact ⟨.refl _ db, absent none⟩
    next row rows some =>
      obtain ⟨row', among, isEffect⟩ := List.mem_map.1 member
      cases isEffect
      exact ⟨.refl _ db, found row' (some ▸ among)⟩
  · unfold Statement.selectFirst at constraint
    split at constraint
    · cases List.mem_singleton.1 constraint
    · obtain ⟨_, _, isEffect⟩ := List.mem_map.1 constraint
      cases isEffect

theorem solo_updateByKey {t : T} {k : K} {f : Row t → Row t}
    {Q : Except ε (Option (Row t)) → Local Row K → Db Row → X → Prop}
    (found : ∀ row, (db t).get k = some row →
      (Terms.calm moves).Moved db (db.apply (.update t k f)) ∧ ∀ seen',
      Q (.ok (some (f row))) ⟨none, seen'⟩ (db.apply (.update t k f)) x)
    (absent : (db t).get k = none → ∀ seen', Q (.ok none) ⟨none, seen'⟩ db x) :
    (Prog.exec .pool (Statement.updateByKey t k f)).solo (.calm moves) Q ⟨none, seen⟩ db x := by
  refine solo_exec_conn (fun effect member => ?_) fun constraint => ?_
  · unfold Statement.updateByKey at member
    split at member
    next none =>
      cases List.mem_singleton.1 member
      exact ⟨.refl _ db, absent none⟩
    next row isRow =>
      cases List.mem_singleton.1 member
      exact found row isRow
  · unfold Statement.updateByKey at constraint
    split at constraint <;> cases List.mem_singleton.1 constraint

theorem solo_updateWhere {t : T} {keys : List K} {condition : Row t → Bool} {f : Row t → Row t}
    {Q : Except ε (List (Row t)) → Local Row K → Db Row → X → Prop}
    (next : ∀ rows, rows = (keys.filterMap fun k => ((db t).get k).filter condition) →
      (Terms.calm moves).Moved db (db.applyAll (rows.map fun row => .update t (key row) f)) ∧
      ∀ seen', Q (.ok (rows.map f)) ⟨none, seen'⟩
      (db.applyAll (rows.map fun row => .update t (key row) f)) x) :
    (Prog.exec .pool (Statement.updateWhere t keys condition f)).solo (.calm moves) Q
      ⟨none, seen⟩ db x := by
  refine solo_exec_conn (fun effect member => ?_) fun constraint =>
    nomatch List.mem_singleton.1 constraint
  cases List.mem_singleton.1 member
  exact next _ rfl

theorem solo_upsert {t : T} {row : ℕ → Row t} {f : Row t → Row t}
    {Q : Except ε (Row t) → Local Row K → Db Row → X → Prop}
    (there : ∀ old, (db t).get (key (row (Host.now x))) = some old →
      (Terms.calm moves).Moved db (db.apply (.update t (key old) f)) ∧ ∀ seen',
      Q (.ok (f old)) ⟨none, seen'⟩ (db.apply (.update t (key old) f)) x)
    (free : (db t).get (key (row (Host.now x))) = none → (db t).conflicts (row (Host.now x)) =
      false → (Terms.calm moves).Moved db (db.apply (.insert t (row (Host.now x)))) ∧ ∀ seen',
      Q (.ok (row (Host.now x))) ⟨none, seen'⟩ (db.apply (.insert t (row (Host.now x)))) x)
    (fails : Q (.error (Host.fault X)) ⟨none, seen⟩ db x) :
    (Prog.exec .pool (Statement.upsert t row f)).solo (.calm moves) Q ⟨none, seen⟩ db x := by
  refine solo_exec_conn (fun effect member => ?_) fun _ => fails
  unfold Statement.upsert at member
  split at member
  next old isOld =>
    cases List.mem_singleton.1 member
    exact there old isOld
  next none =>
    split at member
    next => cases List.mem_singleton.1 member
    next noConflict =>
      cases List.mem_singleton.1 member
      exact free none (by simpa using noConflict)

section Trx

variable {began : ℕ} {ws : List (Write Row K)}

theorem solo_insert_trx {t : T} {parents : List (T × K)} {row : ℕ → Row t}
    {Q : Except ε (Row t) → Local Row K → Db Row → X → Prop}
    (free : ((db.applyAll ws) t).conflicts (row began) = false →
      Statement.referencesHold (db.applyAll ws) parents = true →
      ∀ seen', Q (.ok (row began)) ⟨some ⟨began, ws ++ [.insert t (row began)]⟩, seen'⟩ db x)
    (fails : ((db.applyAll ws) t).conflicts (row began) = true ∨ Statement.referencesHold
      (db.applyAll ws) parents = false → Q (.error (Host.fault X)) ⟨some ⟨began, ws⟩, seen⟩ db x) :
    (Prog.exec .trx (Statement.insert t parents row)).solo (.calm moves) Q
      ⟨some ⟨began, ws⟩, seen⟩ db x := by
  refine ⟨fun effect member => ?_, fun may => fails ?_⟩
  · have outcome : some effect ∈ Statement.insert t parents row began (db.applyAll ws) := member
    unfold Statement.insert at outcome
    split at outcome
    next => cases List.mem_singleton.1 outcome
    next noConflict =>
      cases List.mem_singleton.1 outcome
      simp only [Bool.or_eq_true, Bool.not_eq_true', not_or, Bool.not_eq_true,
        Bool.not_eq_false] at noConflict
      exact free noConflict.1 noConflict.2 _
  · rcases may with constraint | faulty | ⟨_, closed⟩
    · have outcome : none ∈ Statement.insert t parents row began (db.applyAll ws) := constraint
      unfold Statement.insert at outcome
      split at outcome
      next conflict => simpa using conflict
      next => cases List.mem_singleton.1 outcome
    · exact faulty.elim
    · cases closed

theorem solo_updateByKey_trx {t : T} {k : K} {f : Row t → Row t}
    {Q : Except ε (Option (Row t)) → Local Row K → Db Row → X → Prop}
    (found : ∀ row, ((db.applyAll ws) t).get k = some row →
      ∀ seen', Q (.ok (some (f row))) ⟨some ⟨began, ws ++ [.update t k f]⟩, seen'⟩ db x)
    (absent : ((db.applyAll ws) t).get k = none →
      ∀ seen', Q (.ok none) ⟨some ⟨began, ws⟩, seen'⟩ db x) :
    (Prog.exec .trx (Statement.updateByKey t k f)).solo (.calm moves) Q
      ⟨some ⟨began, ws⟩, seen⟩ db x := by
  refine ⟨fun effect member => ?_, fun may => ?_⟩
  · have outcome : some effect ∈ Statement.updateByKey t k f began (db.applyAll ws) := member
    unfold Statement.updateByKey at outcome
    split at outcome
    next none =>
      cases List.mem_singleton.1 outcome
      show Q _ ⟨some ⟨began, ws ++ []⟩, _⟩ db x
      rw [List.append_nil]
      exact absent none _
    next row isRow =>
      cases List.mem_singleton.1 outcome
      exact found row isRow _
  · rcases may with constraint | faulty | ⟨_, closed⟩
    · have outcome : none ∈ Statement.updateByKey t k f began (db.applyAll ws) := constraint
      unfold Statement.updateByKey at outcome
      split at outcome <;> cases List.mem_singleton.1 outcome
    · exact faulty.elim
    · cases closed

end Trx

theorem solo_sure {t : Terms Row} {run : X → β × X}
    {Q : Except ε β → Local Row K → Db Row → X → Prop} {l : Local Row K}
    (next : Q (.ok (run x).1) l db (run x).2) : (Prog.sure run : Prog Row X ε β).solo t Q l db x :=
  ⟨next, fun impossible => nomatch impossible⟩

theorem solo_act {run : X → Except ε β × X} {Q : Except ε β → Local Row K → Db Row → X → Prop}
    {l : Local Row K} (next : Q (run x).1 l db (run x).2) :
    (Prog.act run : Prog Row X ε β).solo (.calm moves) Q l db x :=
  ⟨next, fun _ faulty => faulty.elim⟩

/-- What the body of a transaction must establish. -/
abbrev soloTransaction (moves : Db Row → Db Row → Prop)
    (Q : Except ε β → Local Row K → Db Row → X → Prop) :
    Except ε β → Local Row K → Db Row → X → Prop
  | .ok b, l, db, x => (Terms.calm moves).Moved db (db.applyAll l.writes) ∧
      Q (.ok b) { l with txn := none } (db.applyAll l.writes) x
  | .error e, l, db, x => Q (.error e) { l with txn := none } db x

theorem solo_transaction {body : Prog Row X ε β} {Q : Except ε β → Local Row K → Db Row → X → Prop}
    (inside :
      body.solo (.calm moves) (soloTransaction moves Q) ⟨some ⟨Host.now x, []⟩, seen⟩ db x) :
    (Prog.transaction body).solo (.calm moves) Q ⟨none, seen⟩ db x := by
  refine ⟨solo_tryCatch (solo_bind (solo_mono ?_ inside)), fun faulty => faulty.elim⟩
  intro result l db x
  cases result with
  | ok b =>
    intro holds
    exact ⟨holds, fun faulty => faulty.elim⟩
  | error e => exact fun holds => holds

/-- A transaction taken as atomic reads the state that it commits to. -/
theorem solo_of_atomic {b : Bounds Row K X} {prog : Prog Row X ε β}
    {Q : Except ε β → Local Row K → Prop} {l : Local Row K} (quiet : prog.Quiet b)
    (atomic : prog.Atomic (fun _ _ _ => True) (· = db) db Q l) :
    prog.solo (.calm moves) (fun result l' db' _ => db' = db ∧ Q result l') l db x := by
  induction prog generalizing l x with
  | done result => exact ⟨rfl, atomic⟩
  | stmt on run next inductionHypothesis =>
    obtain ⟨_, silent, quiet⟩ := quiet
    refine ⟨fun effect member => ?_, fun _ => inductionHypothesis _ (quiet _) atomic.2⟩
    have onward := atomic.1 _ db effect rfl (fun e _ => .refl db e) member trivial
    obtain ⟨txn, rows⟩ := l
    cases on with
    | pool =>
      have none := silent rfl _ _ effect member
      rw [none, ← Local.saw_eq_grow] at onward
      show (Terms.calm moves).Moved db (db.applyAll effect.writes) ∧ _
      rw [none]
      exact ⟨.refl _ db, inductionHypothesis _ (quiet _) onward⟩
    | trx =>
      cases txn with
      | none => trivial
      | some txn => exact inductionHypothesis _ (quiet _) onward
  | side fallible run next inductionHypothesis =>
    exact ⟨inductionHypothesis _ (quiet.2 _) (atomic.1 x), fun _ faulty => faulty.elim⟩
  | begin | commit | rollback => exact quiet.elim

theorem solo_transaction_atomic {b : Bounds Row K X} (refl : ∀ x, b.moves x x)
    (trans : ∀ {x y z}, b.moves x y → b.moves y z → b.moves x z) {body : Prog Row X ε β}
    (quiet : body.Quiet b) {Q : Except ε β → Local Row K → Db Row → X → Prop}
    (commits : ∀ began,
      body.Atomic (fun _ _ _ => True) (· = db) db (fun result l => ∀ value, result = .ok value →
      (Terms.calm moves).Moved db (db.applyAll l.writes) ∧ ∀ seen' x', b.moves x x' →
      Q (.ok value) ⟨none, seen'⟩ (db.applyAll l.writes) x') ⟨some ⟨began, []⟩, seen⟩)
    (fails : ∀ err seen' x', b.moves x x' → Q (.error err) ⟨none, seen'⟩ db x') :
    (Prog.transaction body).solo (.calm moves) Q ⟨none, seen⟩ db x := by
  refine solo_transaction (solo_mono ?_
    (solo_and_side trans quiet.harmless (refl x) (solo_of_atomic quiet (commits _))))
  rintro result l' db' x' ⟨⟨rfl, atomic⟩, moved⟩
  cases result with
  | ok value => exact ⟨(atomic value rfl).1, (atomic value rfl).2 _ x' moved⟩
  | error err => exact fails err _ x' moved

end Statements

end Prog

/-- Two invariants of calls that run one after another, each proved on its own. -/
theorem Pool.Settles.and {t : Terms Row} {moves : Db Row → Db Row → Prop}
    {rests rests' : Db Row → X → Prop} {pre : O → Db Row → X → Prop}
    {code : O → Prog (K := K) Row X ε α} (first : Pool.Settles t rests pre code)
    (second : Pool.Settles ⟨moves, t.faulty⟩ rests' pre code) :
    Pool.Settles t (fun db x => rests db x ∧ rests' db x) pre code :=
  fun op db x ⟨holds, holds'⟩ condition =>
    Prog.solo_and (first op db x holds condition) (second op db x holds' condition)

/-! ## From calls under interference -/

namespace Protocol

variable (inv : Db Row → X → Prop) (moves waits : Db Row → Db Row → Prop) (drifts : X → X → Prop)
  (faulty : Prop)

/-- The protocol of a call that runs alone: the database waits for the call, in all that matters. -/
def alone : Protocol (K := K) Row X ε O α Unit where
  inv s := inv s.db s.side
  guar _ _ w w' := w'.db = w.db ∨ moves w.db w'.db
  rely _ _ w w' := waits w.db w'.db ∧ drifts w.side w'.side
  post _ _ _ _ := True
  allow _ _ _ := True
  faulty _ := faulty
  admits _ := True
  apart _ _ _ := False

variable {inv moves waits drifts faulty} {i : ℕ} {op : O} {s s' : Sit Row X O Unit}

omit [DecidableEq T] [DecidableEq K] [DecidableEq U] in
theorem alone_lawful (same : ∀ db, waits db db)
    (onward : ∀ {db db' db''}, waits db db' → waits db' db'' → waits db db'')
    (refl : ∀ x, drifts x x) (trans : ∀ {x y z}, drifts x y → drifts y z → drifts x z) :
    (alone (K := K) (ε := ε) (O := O) (α := α) inv moves waits drifts faulty).Lawful where
  guar_refl _ _ _ := .inl rfl
  rely_refl _ _ w := ⟨same w.db, refl w.side⟩
  rely_trans first second := ⟨onward first.1 second.1, trans first.2 second.2⟩
  rely_of_guar _ beside _ _ _ := beside.elim
  post_stable _ _ _ _ := trivial
  inv_spawn holds _ _ := holds
  inv_crash _ _ holds := ⟨holds, trivial⟩

omit [DecidableEq T] [DecidableEq K] [DecidableEq U] [Host X ε] in
theorem alone_free (same : ∀ db, waits db db)
    (stable : ∀ db x x', drifts x x' → inv db x → inv db x') (i : ℕ) (op : O) :
    (alone (K := K) (ε := ε) (O := O) (α := α) inv moves waits drifts faulty).Free i op drifts :=
  fun s x moved holds => ⟨stable s.db s.side x moved holds, .inl rfl, same s.db, moved⟩

omit [DecidableEq T] [DecidableEq U] [Host X ε] in
theorem after_alone {l : Local Row K} {db : Db Row} {x : X} {Φ : Sit Row X O Unit → Prop}
    (moved : db = s.db ∨ moves s.db db) (here : inv db x) (next : ∀ s', waits db s'.db → Φ s') :
    (alone (ε := ε) (α := α) inv moves waits drifts faulty).After i op s l db x Φ :=
  ⟨(), here, moved, fun s' env => next s' env.drift.1.1⟩

/-- Nobody but call `i` is under way. -/
def Only (i : ℕ) (op : O) (s : Sit Row X O Unit) : Prop :=
  s.live i = some op ∧ ∀ j, j ≠ i → s.live j = none

theorem solo_of_wp (same : ∀ db, waits db db) (refl : ∀ x, drifts x x) {prog : Prog Row X ε β}
    {Q : Except ε β → Local Row K → Sit Row X O Unit → Prop} {l : Local Row K}
    (holds : (alone (α := α) inv moves waits drifts faulty).wp i op prog Q l s) (only : Only i op s)
    (here : inv s.db s.side) :
    prog.solo ⟨moves, faulty⟩ (fun result l db x => inv db x ∧ ∃ s', s'.db = db ∧ s'.side = x ∧
      Q result l s') l s.db s.side := by
  have beside : ∀ s : Sit Row X O Unit, Only i op s →
      (alone (K := K) (ε := ε) (α := α) inv moves waits drifts faulty).Alongside i op s := by
    intro s only j other different going
    rw [only.2 j different] at going
    cases going
  have stays : ∀ (l : Local Row K) (s : Sit Row X O Unit), Only i op s → inv s.db s.side →
      (alone (K := K) (ε := ε) (α := α) inv moves waits drifts faulty).Env i op l s s :=
        fun l s only here =>
    ⟨⟨⟨same s.db, refl s.side⟩, fun _ _ => .refl _ _⟩, here, only.1⟩
  -- What an action leads to, once nobody has come in between.
  have onward : ∀ {l : Local Row K} {s : Sit Row X O Unit} {db : Db Row} {x : X}
      {Φ : Sit Row X O Unit → Prop}, Only i op s →
      (alone (K := K) (ε := ε) (α := α) inv moves waits drifts faulty).After i op s l db x Φ →
      (⟨moves, faulty⟩ : Terms Row).Moved s.db db ∧ inv db x ∧ Φ ⟨⟨db, x, ()⟩, s.live⟩ := by
    rintro l s db x Φ only ⟨⟨⟩, inv', guar, rest⟩
    exact ⟨guar, inv', rest _ (stays l _ only inv')⟩
  induction prog generalizing l s with
  | done result => exact ⟨here, s, rfl, rfl, holds⟩
  | stmt on run next inductionHypothesis =>
    refine ⟨fun effect member => ?_,
      fun may => inductionHypothesis _ (holds.2 may s (stays l s only here)) only here⟩
    have done := holds.1 (beside s only) effect member trivial
    obtain ⟨txn, seen⟩ := l
    cases on with
    | pool =>
      obtain ⟨moved, inv', rest⟩ := onward only done
      exact ⟨moved, inductionHypothesis _ rest only inv'⟩
    | trx =>
      cases txn with
      | none => trivial
      | some txn =>
        obtain ⟨_, inv', rest⟩ := onward only done
        exact inductionHypothesis _ rest only inv'
  | side fallible run next inductionHypothesis =>
    obtain ⟨_, inv', rest⟩ := onward only holds.1
    exact ⟨inductionHypothesis _ rest only inv', fun isFallible faulty =>
      inductionHypothesis _ (holds.2 isFallible faulty s (stays l s only here)) only here⟩
  | begin next inductionHypothesis =>
    exact ⟨inductionHypothesis _ (holds.1 s (stays _ s only here)) only here,
      fun faulty => inductionHypothesis _ (holds.2 faulty s (stays l s only here)) only here⟩
  | commit next inductionHypothesis =>
    obtain ⟨moved, inv', rest⟩ := onward only (holds.1 (beside s only))
    exact ⟨⟨moved, inductionHypothesis _ rest only inv'⟩,
      fun faulty => inductionHypothesis _ (holds.2 faulty s (stays l s only here)) only here⟩
  | rollback next inductionHypothesis =>
    exact inductionHypothesis (holds s (stays _ s only here)) only here

end Protocol

end

end SwiftBite.Store
