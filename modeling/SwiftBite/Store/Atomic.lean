import SwiftBite.Store.Footprint

/-! # Transactions as atomic actions

What a transaction has written it holds until it ends.  So each of its writes, made at some
earlier state, is the write that the same statement makes at the state of the commit, and
the whole body may be verified as if it ran there.  What its reads have shown may be out of
date by then: `Atomic` gives a read the rows of any state since the transaction began.
-/

set_option autoImplicit false

namespace SwiftBite.Store

section

variable {T : Type} [DecidableEq T] {Row : T → Type} {K U : Type} [DecidableEq K] [DecidableEq U]
  [∀ t, Keyed (Row t) K U] {X ε O α β γ Γ : Type} [Host X ε]

/-- The weakest precondition of the body of a transaction that commits at `db`; `V` are the
states since it began. -/
def Prog.Atomic (allow : Local Row K → Db Row → List (Write Row K) → Prop) (V : Db Row → Prop)
    (db : Db Row) : Prog Row X ε β → (Except ε β → Local Row K → Prop) → Local Row K → Prop
  | .done result, Q, l => Q result l
  | .stmt on run next, Q, l =>
    (∀ now before effect, V before →
      (∀ e ∈ entriesOf (l.writes ++ effect.writes), Db.Agree before db e) →
      some effect ∈ run now (l.view before on) → allow l (before.applyAll l.writes) effect.writes →
      (next (.ok effect.reply)).Atomic allow V db Q (l.grow effect.writes effect.seen)) ∧
    (next (.error (Host.fault X))).Atomic allow V db Q l
  | .side _ run next, Q, l =>
    (∀ x, (next (run x).1).Atomic allow V db Q l) ∧
    (next (.error (Host.fault X))).Atomic allow V db Q l
  | .begin _, _, _ | .commit _, _, _ | .rollback _, _, _ => False

namespace Prog.Atomic

variable {allow : Local Row K → Db Row → List (Write Row K) → Prop} {V : Db Row → Prop}
  {db : Db Row}
  {Q : Except ε β → Local Row K → Prop} {l : Local Row K}

/-! ## The combinators -/

theorem mono {prog : Prog Row X ε β} {Q' : Except ε β → Local Row K → Prop}
    (weaker : ∀ result l, Q result l → Q' result l) (holds : prog.Atomic allow V db Q l) :
    prog.Atomic allow V db Q' l := by
  induction prog generalizing l with
  | done result => exact weaker _ _ holds
  | stmt on run next inductionHypothesis =>
    exact ⟨fun now before effect since agree member allowed =>
      inductionHypothesis _ (holds.1 now before effect since agree member allowed),
        inductionHypothesis _ holds.2⟩
  | side fallible run next inductionHypothesis =>
    exact ⟨fun x => inductionHypothesis _ (holds.1 x), inductionHypothesis _ holds.2⟩
  | begin | commit | rollback => exact holds.elim

theorem pure {b : β} (holds : Q (.ok b) l) : (pure b : Prog Row X ε β).Atomic allow V db Q l :=
  holds

theorem throw {e : ε} (holds : Q (.error e) l) : (throw e : Prog Row X ε β).Atomic allow V db Q l :=
  holds

/-- What the first part must establish for the rest. -/
abbrev bindPost (allow : Local Row K → Db Row → List (Write Row K) → Prop) (V : Db Row → Prop)
    (db : Db Row) (f : γ → Prog Row X ε β) (Q : Except ε β → Local Row K → Prop) :
    Except ε γ → Local Row K → Prop
  | .ok b, l => (f b).Atomic allow V db Q l
  | .error e, l => Q (.error e) l

theorem bind {prog : Prog Row X ε γ} {f : γ → Prog Row X ε β}
    (holds : prog.Atomic allow V db (bindPost allow V db f Q) l) :
    (prog >>= f).Atomic allow V db Q l := by
  show (prog.bind f).Atomic allow V db Q l
  induction prog generalizing l with
  | done result => cases result <;> exact holds
  | stmt on run next inductionHypothesis =>
    exact ⟨fun now before effect since agree member allowed =>
      inductionHypothesis _ (holds.1 now before effect since agree member allowed),
        inductionHypothesis _ holds.2⟩
  | side fallible run next inductionHypothesis =>
    exact ⟨fun x => inductionHypothesis _ (holds.1 x), inductionHypothesis _ holds.2⟩
  | begin | commit | rollback => exact holds.elim

theorem map {prog : Prog Row X ε γ} {f : γ → β}
    (holds : prog.Atomic allow V db (fun result l => Q (result.map f) l) l) :
    (f <$> prog).Atomic allow V db Q l := by
  refine bind (mono ?_ holds)
  intro result l
  cases result <;> exact id

/-- A part of which only the footprint matters. -/
theorem quiet {b : Bounds Row K X} {prog : Prog Row X ε β} (bounded : prog.Quiet b)
    (next : ∀ result ws rows, (∀ w ∈ ws, b.writes w) → (∀ row ∈ rows, b.shows row) →
      Q result (l.grow ws rows)) : prog.Atomic allow V db Q l := by
  induction prog generalizing l with
  | done result =>
    have settled := next result [] [] (fun _ none => absurd none List.not_mem_nil)
      (fun _ none => absurd none List.not_mem_nil)
    rwa [Local.grow_nil] at settled
  | stmt on run following inductionHypothesis =>
    obtain ⟨within, _, quiet⟩ := bounded
    refine ⟨fun now before effect since agree member allowed => ?_,
      inductionHypothesis _ (quiet _) next⟩
    obtain ⟨writes, shows⟩ := within _ _ effect member
    refine inductionHypothesis _ (quiet _) fun result ws rows writes' shows' => ?_
    rw [Local.grow_grow]
    refine next result _ _ (fun w inside => ?_) (fun row inside => ?_)
    · exact (List.mem_append.1 inside).elim (writes w) (writes' w)
    · exact (List.mem_append.1 inside).elim (shows' row) (shows row)
  | side fallible run following inductionHypothesis =>
    obtain ⟨_, quiet⟩ := bounded
    exact ⟨fun x => inductionHypothesis _ (quiet _) next, inductionHypothesis _ (quiet _) next⟩
  | begin | commit | rollback => exact bounded.elim

theorem sure {run : X → β × X} (next : ∀ x, Q (.ok (run x).1) l)
    (fails : Q (.error (Host.fault X)) l) : (Prog.sure run).Atomic allow V db Q l :=
  ⟨next, fails⟩

/-! ## Statements -/

section Statements

variable {began : ℕ} {ws : List (Write Row K)} {seen : List (Sigma Row)}

/-- A state since the transaction began, which agrees with the commit on what is held. -/
structure Since (V : Db Row → Prop) (db : Db Row) (ws : List (Write Row K))
    (before : Db Row) : Prop where
  since : V before
  agree : ∀ e ∈ (entriesOf ws : List (Entry T K U)), Db.Agree before db e

theorem Since.view {before : Db Row} {ws ws' : List (Write Row K)}
    (since : Since V db (ws ++ ws') before) {e : Entry T K U}
    (held : e ∈ (entriesOf ws' : List (Entry T K U))) :
    Db.Agree (before.applyAll ws) (db.applyAll ws) e := by
  refine Db.Agree.applyAll (fun e' old => since.agree e' ?_) (since.agree e ?_)
  · simp only [entriesOf, List.flatMap_append, List.mem_append]
    exact .inl old
  · simp only [entriesOf, List.flatMap_append, List.mem_append]
    exact .inr held

omit [DecidableEq T] [DecidableEq U] in
theorem Since.first {before : Db Row} {ws ws' : List (Write Row K)}
    (since : Since V db (ws ++ ws') before) : Since V db ws before := by
  refine ⟨since.since, fun e held => since.agree e ?_⟩
  simp only [entriesOf, List.flatMap_append, List.mem_append]
  exact .inl held

/-- A row that is held is what it will be at the commit. -/
theorem Since.row {before : Db Row} (since : Since V db ws before) {t : T} {k : K}
    (held : Entry.row t k ∈ (entriesOf ws : List (Entry T K U))) :
    ((before.applyAll ws) t).get k = ((db.applyAll ws) t).get k :=
  (Db.Agree.applyAll since.agree (since.agree _ held)).symm

theorem exec {run : ℕ → Db Row → List (Option (Effect Row K β))}
    (succeeds : ∀ now before effect, Since V db (ws ++ effect.writes) before →
      some effect ∈ run now (before.applyAll ws) →
      allow ⟨some ⟨began, ws⟩, seen⟩ (before.applyAll ws) effect.writes →
      Q (.ok effect.reply) ⟨some ⟨began, ws ++ effect.writes⟩, effect.seen ++ seen⟩)
    (fails : Q (.error (Host.fault X)) ⟨some ⟨began, ws⟩, seen⟩) :
    (Prog.exec (X := X) .trx run).Atomic allow V db Q ⟨some ⟨began, ws⟩, seen⟩ :=
  ⟨fun now before effect since agree member allowed =>
    succeeds now before effect ⟨since, agree⟩ member allowed, fails⟩

theorem updateByKey {t : T} {k : K} {f : Row t → Row t}
    {Q : Except ε (Option (Row t)) → Local Row K → Prop}
    (found : ∀ before row, Since V db ws before →
      ((before.applyAll ws) t).get k = some row → ((db.applyAll ws) t).get k = some row →
      allow ⟨some ⟨began, ws⟩, seen⟩ (before.applyAll ws) [.update t k f] →
      Q (.ok (some (f row))) ⟨some ⟨began, ws ++ [.update t k f]⟩, ⟨t, f row⟩ :: seen⟩)
    (absent : ∀ before, Since V db ws before → ((before.applyAll ws) t).get k = none →
      Q (.ok none) ⟨some ⟨began, ws⟩, seen⟩)
    (fails : Q (.error (Host.fault X)) ⟨some ⟨began, ws⟩, seen⟩) :
    (Prog.exec (X := X) .trx (Statement.updateByKey t k f)).Atomic allow V db Q
      ⟨some ⟨began, ws⟩, seen⟩ := by
  refine Atomic.exec (fun now before effect since member allowed => ?_) fails
  unfold Statement.updateByKey at member
  split at member
  next none =>
    cases List.mem_singleton.1 member
    simpa using absent before (by simpa using since) none
  next row isRow =>
    cases List.mem_singleton.1 member
    have same := since.view
      (List.mem_flatMap.2 ⟨.update t k f, List.mem_singleton.2 rfl, List.mem_singleton.2 rfl⟩)
    exact found before row since.first isRow (Eq.trans same isRow) allowed

theorem lockByKey {t : T} {k : K} {Q : Except ε (Option (Row t)) → Local Row K → Prop}
    (found : ∀ row, ((db.applyAll ws) t).get k = some row →
      Q (.ok (some row)) ⟨some ⟨began, ws ++ [.lock t k]⟩, ⟨t, row⟩ :: seen⟩)
    (absent : ∀ before, Since V db ws before → ((before.applyAll ws) t).get k = none →
      Q (.ok none) ⟨some ⟨began, ws⟩, seen⟩)
    (fails : Q (.error (Host.fault X)) ⟨some ⟨began, ws⟩, seen⟩) :
    (Prog.exec (X := X) .trx (Statement.lockByKey t k)).Atomic allow V db Q
      ⟨some ⟨began, ws⟩, seen⟩ := by
  refine Atomic.exec (fun now before effect since member _ => ?_) fails
  unfold Statement.lockByKey at member
  split at member
  next none =>
    cases List.mem_singleton.1 member
    simpa using absent before (by simpa using since) none
  next row isRow =>
    cases List.mem_singleton.1 member
    have same := since.view
      (List.mem_flatMap.2 ⟨.lock t k, List.mem_singleton.2 rfl, List.mem_singleton.2 rfl⟩)
    exact found row (Eq.trans same isRow)

theorem insert {t : T} {parents : List (T × K)} {row : ℕ → Row t}
    {Q : Except ε (Row t) → Local Row K → Prop}
    (free : ∀ now before, Since V db ws before → Statement.referencesHold
      (before.applyAll ws) parents = true → ((db.applyAll ws) t).conflicts (row now) = false →
      Q (.ok (row now)) ⟨some ⟨began, ws ++ [.insert t (row now)]⟩, ⟨t, row now⟩ :: seen⟩)
    (fails : Q (.error (Host.fault X)) ⟨some ⟨began, ws⟩, seen⟩) :
    (Prog.exec (X := X) .trx (Statement.insert t parents row)).Atomic allow V db Q
      ⟨some ⟨began, ws⟩, seen⟩ := by
  refine Atomic.exec (fun now before effect since member _ => ?_) fails
  unfold Statement.insert at member
  split at member
  next => cases List.mem_singleton.1 member
  next noConflict =>
    cases List.mem_singleton.1 member
    simp only [Bool.or_eq_true, Bool.not_eq_true', not_or, Bool.not_eq_true,
      Bool.not_eq_false] at noConflict
    have same : ((db.applyAll ws) t).conflicts (row now) =
        ((before.applyAll ws) t).conflicts (row now) :=
      Db.conflicts_congr fun e held =>
        since.view (List.mem_flatMap.2 ⟨.insert t (row now), List.mem_singleton.2 rfl, held⟩)
    exact free now before since.first noConflict.2 (same.trans noConflict.1)

theorem insertIgnore {t : T} {target : Row t → Bool} {parents : List (T × K)} {row : ℕ → Row t}
    {Q : Except ε (Option (Row t)) → Local Row K → Prop}
    (there : ∀ before, Since V db ws before → ∀ old ∈ ((before.applyAll ws) t).rows,
      target old = true → Q (.ok none) ⟨some ⟨began, ws⟩, seen⟩)
    (free : ∀ now before, Since V db ws before →
      (∀ old ∈ ((before.applyAll ws) t).rows, target old = false) → Statement.referencesHold
      (before.applyAll ws) parents = true → ((db.applyAll ws) t).conflicts (row now) = false →
      Q (.ok (some (row now))) ⟨some ⟨began, ws ++ [.insert t (row now)]⟩, ⟨t, row now⟩ :: seen⟩)
    (fails : Q (.error (Host.fault X)) ⟨some ⟨began, ws⟩, seen⟩) :
    (Prog.exec (X := X) .trx (Statement.insertIgnore t target parents row)).Atomic allow V db Q
      ⟨some ⟨began, ws⟩, seen⟩ := by
  refine Atomic.exec (fun now before effect since member _ => ?_) fails
  unfold Statement.insertIgnore at member
  split at member
  next taken =>
    cases List.mem_singleton.1 member
    obtain ⟨old, among, isTarget⟩ := List.any_eq_true.1 taken
    simpa using there before (by simpa using since) old among isTarget
  next nobody =>
    simp only [List.any_eq_true, not_exists, not_and, Bool.not_eq_true] at nobody
    split at member
    next => cases List.mem_singleton.1 member
    next noConflict =>
      cases List.mem_singleton.1 member
      simp only [Bool.or_eq_true, Bool.not_eq_true', not_or, Bool.not_eq_true,
        Bool.not_eq_false] at noConflict
      have same : ((db.applyAll ws) t).conflicts (row now) =
          ((before.applyAll ws) t).conflicts (row now) :=
        Db.conflicts_congr fun e held =>
          since.view (List.mem_flatMap.2 ⟨.insert t (row now), List.mem_singleton.2 rfl, held⟩)
      exact free now before since.first nobody noConflict.2 (same.trans noConflict.1)

/-- Rows that can be inserted one after the other still can at the commit. -/
theorem insertable_of_agree {before : Db Row} {t : T} {rows : List (Row t)}
    (agree : ∀ e ∈ (entriesOf (ws ++ rows.map (.insert t)) : List (Entry T K U)),
      Db.Agree before db e) :
    Statement.insertable (db.applyAll ws t) rows =
      Statement.insertable (before.applyAll ws t) rows := by
  induction rows generalizing ws with
  | nil => rfl
  | cons row rows inductionHypothesis =>
    have held : ∀ w ∈ ws ++ [.insert t row], ∀ e ∈ w.entries, Db.Agree before db e := by
      intro w member e inside
      have written : w ∈ ws ++ (row :: rows).map (.insert t) := by
        simp only [List.mem_append, List.map_cons, List.mem_cons] at member ⊢
        tauto
      exact agree e (List.mem_flatMap.2 ⟨w, written, inside⟩)
    have same : (db.applyAll ws t).conflicts row = (before.applyAll ws t).conflicts row := by
      refine Db.conflicts_congr fun e inside =>
        Db.Agree.applyAll (fun e' old => ?_) (held _ (by simp) e inside)
      obtain ⟨w, member, inside'⟩ := List.mem_flatMap.1 old
      exact held w (List.mem_append_left _ member) e' inside'
    have rest := @inductionHypothesis (ws ++ [.insert t row]) (by simpa using agree)
    rw [Db.applyAll_concat_insert, Db.applyAll_concat_insert] at rest
    simp only [Statement.insertable, same, rest]

theorem insertAll {t : T} {parents : List (T × K)} {rows : ℕ → List (Row t)}
    {Q : Except ε (List (Row t)) → Local Row K → Prop}
    (free : ∀ now, Statement.insertable (db.applyAll ws t) (rows now) = true → Q (.ok (rows now))
      ⟨some ⟨began, ws ++ (rows now).map (.insert t)⟩, (rows now).map (Sigma.mk t) ++ seen⟩)
    (fails : Q (.error (Host.fault X)) ⟨some ⟨began, ws⟩, seen⟩) :
    (Prog.exec (X := X) .trx (Statement.insertAll t parents rows)).Atomic allow V db Q
      ⟨some ⟨began, ws⟩, seen⟩ := by
  refine Atomic.exec (fun now before effect since member _ => ?_) fails
  unfold Statement.insertAll at member
  split at member
  next passed =>
    cases List.mem_singleton.1 member
    rw [Bool.and_eq_true] at passed
    exact free now ((insertable_of_agree since.agree).trans passed.1)
  next => cases List.mem_singleton.1 member

theorem selectFirst {t : T} {candidates : Table (Row t) → List (Row t)}
    {Q : Except ε (Option (Row t)) → Local Row K → Prop}
    (found : ∀ before, Since V db ws before → ∀ row ∈ candidates ((before.applyAll ws) t),
      Q (.ok (some row)) ⟨some ⟨began, ws⟩, ⟨t, row⟩ :: seen⟩)
    (absent : ∀ before, Since V db ws before → candidates ((before.applyAll ws) t) = [] →
      Q (.ok none) ⟨some ⟨began, ws⟩, seen⟩)
    (fails : Q (.error (Host.fault X)) ⟨some ⟨began, ws⟩, seen⟩) :
    (Prog.exec (X := X) .trx (Statement.selectFirst t candidates)).Atomic allow V db Q
      ⟨some ⟨began, ws⟩, seen⟩ := by
  refine Atomic.exec (fun now before effect since member _ => ?_) fails
  unfold Statement.selectFirst at member
  split at member
  next none =>
    cases List.mem_singleton.1 member
    simpa using absent before (by simpa using since) none
  next row rows some =>
    obtain ⟨row', among, isEffect⟩ := List.mem_map.1 member
    cases isEffect
    simpa using found before (by simpa using since) row' (some ▸ among)

end Statements

end Prog.Atomic

/-! ## The rule -/

namespace Protocol

variable {P : Protocol (K := K) Row X ε O α Γ} {i : ℕ} {op : O}

/-- A state between two situations of a call. -/
def Between (P : Protocol (K := K) Row X ε O α Γ) (i : ℕ) (op : O) (s s' : Sit Row X O Γ)
    (before : Db Row) : Prop :=
  ∃ m : Sit Row X O Γ, m.db = before ∧ P.Env i op ⟨none, []⟩ s m ∧ P.Env i op ⟨none, []⟩ m s'

theorem wp_atomic (lawful : P.Lawful) {b : Bounds Row K X} (free : P.Free i op b.moves)
    {prog : Prog Row X ε β} {Q : Except ε β → Local Row K → Sit Row X O Γ → Prop} {l : Local Row K}
    {origin s : Sit Row X O Γ} (quiet : prog.Quiet b) (holds : P.inv s) (self : s.live i = some op)
    (since : P.Env i op ⟨none, []⟩ origin s)
    (atomic : ∀ s', P.Env i op l s s' →
      prog.Atomic P.allow (P.Between i op origin s') s'.db (fun result l' => Q result l' s') l) :
    P.wp i op prog Q l s := by
  induction prog generalizing l s with
  | done result => exact atomic s (.refl lawful holds self)
  | stmt on run following inductionHypothesis =>
    obtain ⟨_, silent, quiet⟩ := quiet
    have fails : ∀ s', P.Env i op l s s' →
        P.wp i op (following (.error (Host.fault X))) Q l s' := fun s' env =>
      inductionHypothesis _ (quiet _) env.inv env.self (since.trans lawful (env.released []))
        fun s'' env' => (atomic s'' (env.trans lawful env')).2
    refine ⟨fun _ effect member allowed => ?_, fun _ => fails⟩
    -- The writes are held from here on, so that the states of the commit agree on them.
    have onward : (∀ e ∈ (entriesOf (l.writes ++ effect.writes) : List (Entry T K U)),
          e ∈ (l.grow effect.writes effect.seen).held) →
        ∀ s', P.Env i op (l.grow effect.writes effect.seen) s s' →
          P.wp i op (following (.ok effect.reply)) Q (l.grow effect.writes effect.seen) s' := by
      intro kept s' env
      have shrunk : P.Env i op l s s' := ⟨env.drift.shrink, env.inv, env.self⟩
      refine inductionHypothesis _ (quiet _) env.inv env.self (since.trans lawful (env.released []))
        fun s'' env' => ?_
      have shrunk' : P.Env i op l s s'' :=
        shrunk.trans lawful ⟨env'.drift.shrink, env'.inv, env'.self⟩
      refine (atomic s'' shrunk').1 _ s.db effect ⟨s, rfl, since, shrunk'.released []⟩
        (fun e member => ?_) member allowed
      exact (env.trans lawful env').drift.2 e (kept e member)
    obtain ⟨txn, seen⟩ := l
    cases on with
    | pool =>
      have none := silent rfl _ _ effect member
      show P.After i op s _ (s.db.applyAll effect.writes) _ _
      rw [Local.saw_eq_grow]
      rw [none] at onward ⊢
      refine .same lawful holds (onward fun e inside => ?_)
      rw [List.append_nil] at inside
      exact Local.held_grow inside
    | trx =>
      cases txn with
      | none => trivial
      | some txn => exact .same lawful holds (onward fun e inside => inside)
  | side fallible run following inductionHypothesis =>
    obtain ⟨moves, quiet⟩ := quiet
    refine ⟨.free lawful free (moves _) holds fun s' env => ?_, fun _ _ s' env => ?_⟩
    · exact inductionHypothesis _ (quiet _) env.inv env.self (since.trans lawful (env.released []))
        fun s'' env' => (atomic s'' (env.trans lawful env')).1 s.side
    · exact inductionHypothesis _ (quiet _) env.inv env.self (since.trans lawful (env.released []))
        fun s'' env' => (atomic s'' (env.trans lawful env')).2
  | begin | commit | rollback => exact quiet.elim

/-- What is left of an open transaction, up to its commit, is verified at that commit. -/
theorem wp_atomic_commit (lawful : P.Lawful) {b : Bounds Row K X} (free : P.Free i op b.moves)
    {body : Prog Row X ε β} {Q : Except ε Unit → Local Row K → Sit Row X O Γ → Prop}
    {l : Local Row K} {origin s : Sit Row X O Γ} (quiet : body.Quiet b) (holds : P.inv s)
    (self : s.live i = some op) (since : P.Env i op ⟨none, []⟩ origin s)
    (commits : ∀ s', P.Env i op ⟨none, []⟩ origin s' → P.Env i op l s s' → P.Alongside i op s' →
      body.Atomic P.allow (P.Between i op origin s') s'.db
        (fun result l' => ∀ value, result = .ok value →
          P.After i op s' ⟨none, l'.seen⟩ (s'.db.applyAll l'.writes) s'.side
            (Q (.ok ()) ⟨none, l'.seen⟩)) l)
    (fails : ∀ err l' s', P.Env i op ⟨none, []⟩ origin s' → Q (.error err) l' s') :
    P.wp i op (body >>= fun _ => .commitTrx) Q l s := by
  refine wp_bind (wp_atomic lawful free quiet holds self since fun s₁ env₁ => ?_)
  have until₁ : P.Env i op ⟨none, []⟩ origin s₁ := since.trans lawful (env₁.released [])
  have ends : ∀ (result : Except ε β) (l' : Local Row K),
      (P.Alongside i op s₁ → ∀ value, result = .ok value →
      P.After i op s₁ ⟨none, l'.seen⟩ (s₁.db.applyAll l'.writes) s₁.side (Q (.ok ())
        ⟨none, l'.seen⟩)) →
      P.bindPost i op (fun _ => .commitTrx) Q result l' s₁ := by
    intro result l' after
    cases result with
    | ok value =>
      exact ⟨fun beside => after beside value rfl,
        fun _ s₂ env₂ => fails _ _ s₂ (until₁.trans lawful (env₂.released []))⟩
    | error err => exact fails err l' s₁ until₁
  by_cases beside : P.Alongside i op s₁
  · exact (commits s₁ until₁ env₁ beside).mono fun result l' after => ends result l' fun _ => after
  · exact .quiet quiet fun result _ _ _ _ => ends result _ fun together => absurd together beside

/-- A transaction whose body keeps within one transaction is verified at its commit. -/
theorem wp_transaction_atomic (lawful : P.Lawful) {b : Bounds Row K X} (free : P.Free i op b.moves)
    {body : Prog Row X ε β} {Q : Except ε β → Local Row K → Sit Row X O Γ → Prop}
    {seen : List (Sigma Row)} {s : Sit Row X O Γ} (quiet : body.Quiet b)
    (commits : ∀ s' began, P.Env i op ⟨none, []⟩ s s' → P.Alongside i op s' →
      body.Atomic P.allow (P.Between i op s s') s'.db (fun result l => ∀ value, result = .ok value →
      P.After i op s' ⟨none, l.seen⟩ (s'.db.applyAll l.writes) s'.side (Q (.ok value)
      ⟨none, l.seen⟩)) ⟨some ⟨began, []⟩, seen⟩)
    (fails : ∀ err seen' s', P.Env i op ⟨none, []⟩ s s' → Q (.error err) ⟨none, seen'⟩ s') :
    P.wp i op (.transaction body) Q ⟨none, seen⟩ s := by
  refine wp_transaction (fun s₁ env₁ => ?_) fun _ s' env => fails _ _ s' (env.released [])
  refine wp_atomic lawful free quiet env₁.inv env₁.self (env₁.released []) fun s₂ env₂ => ?_
  have until₂ : P.Env i op ⟨none, []⟩ s s₂ := (env₁.trans lawful env₂).released []
  by_cases beside : P.Alongside i op s₂
  · refine (commits s₂ _ until₂ beside).mono fun result l after => ?_
    cases result with
    | ok value =>
      exact ⟨fun _ => after value rfl, fun _ s₃ env₃ s₄ env₄ =>
        fails _ _ s₄ ((until₂.trans lawful (env₃.released [])).trans lawful (env₄.released []))⟩
    | error err => exact fun s₃ env₃ => fails _ _ s₃ (until₂.trans lawful (env₃.released []))
  · refine Prog.Atomic.quiet quiet fun result ws rows _ _ => ?_
    cases result with
    | ok value =>
      exact ⟨fun together => absurd together beside, fun _ s₃ env₃ s₄ env₄ =>
        fails _ _ s₄ ((until₂.trans lawful (env₃.released [])).trans lawful (env₄.released []))⟩
    | error err => exact fun s₃ env₃ => fails _ _ s₃ (until₂.trans lawful (env₃.released []))

end Protocol

end

end SwiftBite.Store
