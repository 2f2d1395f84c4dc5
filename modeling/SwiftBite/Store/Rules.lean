import SwiftBite.Store.Soundness
import SwiftBite.Store.Statement

/-! # Rules for statements

One rule for each kind of statement, and two for whole programs of which only the
footprint matters: `wp_quiet` for reads and for work inside a transaction, `wp_harmless`
for a program all of whose writes the protocol tolerates.
-/

set_option autoImplicit false

namespace SwiftBite.Store

section

variable {T : Type} [DecidableEq T] {Row : T → Type} {K U : Type} [DecidableEq K] [DecidableEq U]
  [∀ t, Keyed (Row t) K U] {X ε O α β γ Γ : Type} [Host X ε]

namespace Protocol

variable {P : Protocol (K := K) Row X ε O α Γ} {i : ℕ} {op : O}
  {Q : Except ε β → Local Row K → Sit Row X O Γ → Prop} {l : Local Row K} {s : Sit Row X O Γ}

/-! ## The combinators in `do` notation -/

theorem wp_pure {b : β} (holds : Q (.ok b) l s) : P.wp i op (pure b) Q l s := holds

theorem wp_throw {e : ε} (holds : Q (.error e) l s) : P.wp i op (throw e : Prog Row X ε β) Q l s :=
  holds

theorem wp_ofExcept {answer : Except ε β} (holds : Q answer l s) :
    P.wp i op (.ofExcept answer : Prog Row X ε β) Q l s := holds

theorem wp_do {prog : Prog Row X ε γ} {f : γ → Prog Row X ε β}
    (holds : P.wp i op prog (P.bindPost i op f Q) l s) : P.wp i op (prog >>= f) Q l s :=
  wp_bind holds

/-- The rest of a program may be taken together with what follows it. -/
theorem wp_assoc {δ : Type} {prog : Prog Row X ε δ} {f : δ → Prog Row X ε γ}
    {g : γ → Prog Row X ε β} (holds : P.wp i op (prog >>= fun a => f a >>= g) Q l s) :
    P.wp i op ((prog >>= f) >>= g) Q l s := by
  show P.wp i op ((prog.bind f).bind g) Q l s
  rw [Prog.bind_assoc]
  exact holds

theorem wp_regroup {δ : Type} {prog : Prog Row X ε δ} {f : δ → Prog Row X ε γ}
    {g : γ → Prog Row X ε β} (holds : P.wp i op ((prog >>= f) >>= g) Q l s) :
    P.wp i op (prog >>= fun a => f a >>= g) Q l s := by
  have grouped : P.wp i op ((prog.bind f).bind g) Q l s := holds
  rwa [Prog.bind_assoc] at grouped

theorem wp_map {prog : Prog Row X ε γ} {f : γ → β}
    (holds : P.wp i op prog (fun result l s => Q (result.map f) l s) l s) :
    P.wp i op (f <$> prog) Q l s := by
  refine wp_bind (wp_mono ?_ holds)
  intro result l s
  cases result <;> exact id

/-! ## Statements -/

theorem wp_exec_conn {run : ℕ → Db Row → List (Option (Effect Row K β))}
    (succeeds : P.Alongside i op s → ∀ effect, some effect ∈ run (Host.now s.side) s.db →
      P.allow l (s.db.applyAll l.writes) effect.writes →
      P.After i op s (l.saw effect.seen) (s.db.applyAll effect.writes) s.side
        (Q (.ok effect.reply) (l.saw effect.seen)))
    (fails : none ∈ run (Host.now s.side) s.db ∨ P.faulty op →
      ∀ s', P.Env i op l s s' → Q (.error (Host.fault X)) l s') :
    P.wp i op (.exec .pool run) Q l s := by
  refine ⟨fun beside effect member allowed => succeeds beside effect member allowed,
    fun may => fails ?_⟩
  rcases may with constraint | faulty | ⟨isTrx, _⟩
  · exact .inl constraint
  · exact .inr faulty
  · cases isTrx

theorem wp_exec_trx (lawful : P.Lawful) {began : ℕ} {ws : List (Write Row K)}
    {seen : List (Sigma Row)} {run : ℕ → Db Row → List (Option (Effect Row K β))} (holds : P.inv s)
    (succeeds : ∀ effect, some effect ∈ run began (s.db.applyAll ws) →
      P.allow ⟨some ⟨began, ws⟩, seen⟩ (s.db.applyAll ws) effect.writes →
      ∀ s', P.Env i op ⟨some ⟨began, ws ++ effect.writes⟩, effect.seen ++ seen⟩ s s' →
      Q (.ok effect.reply) ⟨some ⟨began, ws ++ effect.writes⟩, effect.seen ++ seen⟩ s')
    (fails : none ∈ run began (s.db.applyAll ws) ∨ P.faulty op →
      ∀ s', P.Env i op ⟨some ⟨began, ws⟩, seen⟩ s s' →
      Q (.error (Host.fault X)) ⟨some ⟨began, ws⟩, seen⟩ s') :
    P.wp i op (.exec .trx run) Q ⟨some ⟨began, ws⟩, seen⟩ s := by
  refine ⟨fun _ effect member allowed => .same lawful holds (succeeds effect member allowed),
    fun may => fails ?_⟩
  rcases may with constraint | faulty | ⟨_, closed⟩
  · exact .inl constraint
  · exact .inr faulty
  · cases closed

/-- A statement that shows rows and writes nothing. -/
theorem wp_read (lawful : P.Lawful) {on : Conn} {run : ℕ → Db Row → List (Option (Effect Row K β))}
    (ready : on = .trx → l.txn ≠ none)
    (reads : ∀ now db, ∀ outcome ∈ run now db, ∃ effect, outcome = some effect ∧ effect.writes = [])
    (holds : P.inv s)
    (succeeds : P.Alongside i op s →
      ∀ effect, some effect ∈ run (Prog.instant on l s.side) (l.view s.db on) →
      ∀ s', P.Env i op (l.saw effect.seen) s s' → Q (.ok effect.reply) (l.saw effect.seen) s')
    (fails : P.faulty op → ∀ s', P.Env i op l s s' → Q (.error (Host.fault X)) l s') :
    P.wp i op (.exec on run) Q l s := by
  refine ⟨fun beside effect member _ => ?_, fun may => fails ?_⟩
  · have following := succeeds beside effect member
    obtain ⟨same, isSame, silent⟩ := reads _ _ _ member
    cases isSame
    obtain ⟨txn, seen⟩ := l
    cases on with
    | pool =>
      show P.After i op s _ (s.db.applyAll effect.writes) _ _
      rw [silent]
      exact .same lawful holds following
    | trx =>
      cases txn with
      | none => exact absurd rfl (ready rfl)
      | some txn =>
        show P.After i op s ⟨some ⟨txn.began, txn.writes ++ effect.writes⟩, _⟩ _ _ _
        rw [silent, List.append_nil]
        exact .same lawful holds following
  · rcases may with constraint | faulty | ⟨isTrx, closed⟩
    · obtain ⟨effect, isSome, _⟩ := reads _ _ _ constraint
      cases isSome
    · exact faulty
    · exact absurd closed (ready isTrx)

theorem wp_select (lawful : P.Lawful) {on : Conn} {read : ℕ → Db Row → β}
    (ready : on = .trx → l.txn ≠ none) (holds : P.inv s)
    (succeeds : ∀ s', P.Env i op l s s' →
      Q (.ok (read (Prog.instant on l s.side) (l.view s.db on))) l s')
    (fails : P.faulty op → ∀ s', P.Env i op l s s' → Q (.error (Host.fault X)) l s') :
    P.wp i op (.exec on (Statement.select read)) Q l s := by
  refine wp_read lawful ready ?_ holds ?_ fails
  · intro now db outcome member
    exact ⟨_, List.mem_singleton.1 member, rfl⟩
  · intro _ effect member
    cases List.mem_singleton.1 member
    exact succeeds

theorem wp_selectByKey (lawful : P.Lawful) {on : Conn} {t : T} {k : K}
    {Q : Except ε (Option (Row t)) → Local Row K → Sit Row X O Γ → Prop}
    (ready : on = .trx → l.txn ≠ none) (holds : P.inv s)
    (found : P.Alongside i op s → ∀ row, ((l.view s.db on) t).get k = some row →
      ∀ s', P.Env i op (l.saw [⟨t, row⟩]) s s' → Q (.ok (some row)) (l.saw [⟨t, row⟩]) s')
    (absent : ((l.view s.db on) t).get k = none → ∀ s', P.Env i op l s s' → Q (.ok none) l s')
    (fails : P.faulty op → ∀ s', P.Env i op l s s' → Q (.error (Host.fault X)) l s') :
    P.wp i op (.exec on (Statement.selectByKey t k)) Q l s := by
  refine wp_read lawful ready ?_ holds ?_ fails
  · intro now db outcome member
    exact ⟨_, List.mem_singleton.1 member, rfl⟩
  · intro beside effect member
    cases List.mem_singleton.1 member
    cases row : ((l.view s.db on) t).get k with
    | none => simpa [row] using absent row
    | some row' => simpa [row] using found beside row' row

theorem wp_selectFirst (lawful : P.Lawful) {on : Conn} {t : T}
    {candidates : Table (Row t) → List (Row t)}
    {Q : Except ε (Option (Row t)) → Local Row K → Sit Row X O Γ → Prop}
    (ready : on = .trx → l.txn ≠ none) (holds : P.inv s)
    (found : P.Alongside i op s → ∀ row ∈ candidates ((l.view s.db on) t), ∀ s',
      P.Env i op (l.saw [⟨t, row⟩]) s s' → Q (.ok (some row)) (l.saw [⟨t, row⟩]) s')
    (absent : candidates ((l.view s.db on) t) = [] → ∀ s', P.Env i op l s s' → Q (.ok none) l s')
    (fails : P.faulty op → ∀ s', P.Env i op l s s' → Q (.error (Host.fault X)) l s') :
    P.wp i op (.exec on (Statement.selectFirst t candidates)) Q l s := by
  refine wp_read lawful ready ?_ holds ?_ fails
  · intro now db outcome member
    unfold Statement.selectFirst at member
    split at member
    · exact ⟨_, List.mem_singleton.1 member, rfl⟩
    · obtain ⟨row, _, isEffect⟩ := List.mem_map.1 member
      exact ⟨_, isEffect.symm, rfl⟩
  · intro beside effect member
    unfold Statement.selectFirst at member
    split at member
    next none =>
      cases List.mem_singleton.1 member
      exact absent none
    next row rows some =>
      obtain ⟨row', among, isEffect⟩ := List.mem_map.1 member
      cases isEffect
      exact found beside row' (some ▸ among)

theorem wp_updateByKey_conn {t : T} {k : K} {f : Row t → Row t} (lawful : P.Lawful)
    {Q : Except ε (Option (Row t)) → Local Row K → Sit Row X O Γ → Prop} (holds : P.inv s)
    (found : P.Alongside i op s → ∀ row, (s.db t).get k = some row →
      P.allow l (s.db.applyAll l.writes) [.update t k f] →
      P.After i op s (l.saw [⟨t, f row⟩]) (s.db.apply (.update t k f)) s.side
        (Q (.ok (some (f row))) (l.saw [⟨t, f row⟩])))
    (absent : (s.db t).get k = none → ∀ s', P.Env i op l s s' → Q (.ok none) l s')
    (fails : P.faulty op → ∀ s', P.Env i op l s s' → Q (.error (Host.fault X)) l s') :
    P.wp i op (.exec .pool (Statement.updateByKey t k f)) Q l s := by
  refine wp_exec_conn (fun beside effect member allowed => ?_) (fun may => fails ?_)
  · unfold Statement.updateByKey at member
    split at member
    next none =>
      cases List.mem_singleton.1 member
      exact .same lawful holds (absent none)
    next row isRow =>
      cases List.mem_singleton.1 member
      exact found beside row isRow allowed
  · rcases may with constraint | faulty
    · unfold Statement.updateByKey at constraint
      split at constraint <;> cases List.mem_singleton.1 constraint
    · exact faulty

section Trx

variable {began : ℕ} {ws : List (Write Row K)} {seen : List (Sigma Row)}

/-- A search, and what the run knows of it. -/
theorem wp_selectFirst_trx {t : T} {candidates : Table (Row t) → List (Row t)} (lawful : P.Lawful)
    {Q : Except ε (Option (Row t)) → Local Row K → Sit Row X O Γ → Prop} (holds : P.inv s)
    (found : ∀ row ∈ candidates ((s.db.applyAll ws) t), P.allow ⟨some ⟨began, ws⟩, seen⟩
      (s.db.applyAll ws) [] → ∀ s', P.Env i op ⟨some ⟨began, ws⟩, ⟨t, row⟩ :: seen⟩ s s' →
      Q (.ok (some row)) ⟨some ⟨began, ws⟩, ⟨t, row⟩ :: seen⟩ s')
    (absent : candidates ((s.db.applyAll ws) t) = [] →
      P.allow ⟨some ⟨began, ws⟩, seen⟩ (s.db.applyAll ws) [] →
      ∀ s', P.Env i op ⟨some ⟨began, ws⟩, seen⟩ s s' → Q (.ok none) ⟨some ⟨began, ws⟩, seen⟩ s')
    (fails : P.faulty op → ∀ s', P.Env i op ⟨some ⟨began, ws⟩, seen⟩ s s' →
      Q (.error (Host.fault X)) ⟨some ⟨began, ws⟩, seen⟩ s') :
    P.wp i op (.exec .trx (Statement.selectFirst t candidates)) Q ⟨some ⟨began, ws⟩, seen⟩ s := by
  refine wp_exec_trx lawful holds (fun effect member allowed => ?_) (fun may => fails ?_)
  · unfold Statement.selectFirst at member
    split at member
    next none =>
      cases List.mem_singleton.1 member
      simpa using absent none allowed
    next row rows some =>
      obtain ⟨row', among, isEffect⟩ := List.mem_map.1 member
      cases isEffect
      simpa using found row' (some ▸ among) allowed
  · rcases may with constraint | faulty
    · unfold Statement.selectFirst at constraint
      split at constraint
      next => cases List.mem_singleton.1 constraint
      next =>
        obtain ⟨_, _, impossible⟩ := List.mem_map.1 constraint
        cases impossible
    · exact faulty

theorem wp_insert_trx {t : T} {parents : List (T × K)} {row : ℕ → Row t} (lawful : P.Lawful)
    {Q : Except ε (Row t) → Local Row K → Sit Row X O Γ → Prop} (holds : P.inv s)
    (free : ((s.db.applyAll ws) t).conflicts (row began) = false →
      Statement.referencesHold (s.db.applyAll ws) parents = true →
      ∀ s', P.Env i op ⟨some ⟨began, ws ++ [.insert t (row began)]⟩, ⟨t, row began⟩ :: seen⟩ s s' →
      Q (.ok (row began)) ⟨some ⟨began, ws ++ [.insert t (row began)]⟩, ⟨t, row began⟩ :: seen⟩ s')
    (fails : (((s.db.applyAll ws) t).conflicts (row began) = true ∨
      Statement.referencesHold (s.db.applyAll ws) parents = false) ∨ P.faulty op →
      ∀ s', P.Env i op ⟨some ⟨began, ws⟩, seen⟩ s s' →
      Q (.error (Host.fault X)) ⟨some ⟨began, ws⟩, seen⟩ s') :
    P.wp i op (.exec .trx (Statement.insert t parents row)) Q ⟨some ⟨began, ws⟩, seen⟩ s := by
  refine wp_exec_trx lawful holds (fun effect member _ => ?_) (fun may => fails ?_)
  · unfold Statement.insert at member
    split at member
    next => cases List.mem_singleton.1 member
    next noConflict =>
      cases List.mem_singleton.1 member
      simp only [Bool.or_eq_true, Bool.not_eq_true', not_or, Bool.not_eq_true,
        Bool.not_eq_false] at noConflict
      exact free noConflict.1 noConflict.2
  · refine may.imp_left fun constraint => ?_
    unfold Statement.insert at constraint
    split at constraint
    next conflict => simpa using conflict
    next => cases List.mem_singleton.1 constraint

theorem wp_insertIgnore_trx {t : T} {target : Row t → Bool} {parents : List (T × K)}
    {row : ℕ → Row t} (lawful : P.Lawful)
    {Q : Except ε (Option (Row t)) → Local Row K → Sit Row X O Γ → Prop} (holds : P.inv s)
    (there : ∀ old ∈ ((s.db.applyAll ws) t).rows, target old = true →
      ∀ s', P.Env i op ⟨some ⟨began, ws⟩, seen⟩ s s' → Q (.ok none) ⟨some ⟨began, ws⟩, seen⟩ s')
    (free : (∀ old ∈ ((s.db.applyAll ws) t).rows, target old = false) →
      ((s.db.applyAll ws) t).conflicts (row began) = false →
      Statement.referencesHold (s.db.applyAll ws) parents = true →
      ∀ s',
      P.Env i op ⟨some ⟨began, ws ++ [.insert t (row began)]⟩, ⟨t, row began⟩ :: seen⟩ s s' →
      Q (.ok (some (row began)))
        ⟨some ⟨began, ws ++ [.insert t (row began)]⟩, ⟨t, row began⟩ :: seen⟩ s')
    (fails : ((∀ old ∈ ((s.db.applyAll ws) t).rows, target old = false) ∧
        (((s.db.applyAll ws) t).conflicts (row began) = true ∨
          Statement.referencesHold (s.db.applyAll ws) parents = false)) ∨ P.faulty op →
      ∀ s', P.Env i op ⟨some ⟨began, ws⟩, seen⟩ s s' →
      Q (.error (Host.fault X)) ⟨some ⟨began, ws⟩, seen⟩ s') :
    P.wp i op (.exec .trx (Statement.insertIgnore t target parents row)) Q
      ⟨some ⟨began, ws⟩, seen⟩ s := by
  have nobody : ¬ ((s.db.applyAll ws) t).rows.any target = true →
      ∀ old ∈ ((s.db.applyAll ws) t).rows, target old = false := by
    intro none old member
    simp only [List.any_eq_true, not_exists, not_and, Bool.not_eq_true] at none
    exact none old member
  -- A row of the target is there, the insert succeeds, or a constraint stops it.
  refine wp_exec_trx lawful holds (fun effect member _ => ?_) (fun may => fails ?_)
  · unfold Statement.insertIgnore at member
    split at member
    next taken =>
      cases List.mem_singleton.1 member
      obtain ⟨old, among, isTarget⟩ := List.any_eq_true.1 taken
      simpa using there old among isTarget
    next none =>
      split at member
      next => cases List.mem_singleton.1 member
      next noConflict =>
        cases List.mem_singleton.1 member
        simp only [Bool.or_eq_true, Bool.not_eq_true', not_or, Bool.not_eq_true,
          Bool.not_eq_false] at noConflict
        exact free (nobody none) noConflict.1 noConflict.2
  · refine may.imp_left fun constraint => ?_
    unfold Statement.insertIgnore at constraint
    split at constraint
    next => cases List.mem_singleton.1 constraint
    next none =>
      split at constraint
      next conflict => exact ⟨nobody none, by simpa using conflict⟩
      next => cases List.mem_singleton.1 constraint

end Trx

theorem wp_insert_conn {t : T} {parents : List (T × K)} {row : ℕ → Row t}
    {Q : Except ε (Row t) → Local Row K → Sit Row X O Γ → Prop}
    (free : P.Alongside i op s → (s.db t).conflicts (row (Host.now s.side)) = false →
      Statement.referencesHold s.db parents = true →
      P.allow l (s.db.applyAll l.writes) [.insert t (row (Host.now s.side))] → P.After i op s
      (l.saw [⟨t, row (Host.now s.side)⟩]) (s.db.apply (.insert t (row (Host.now s.side)))) s.side
      (Q (.ok (row (Host.now s.side))) (l.saw [⟨t, row (Host.now s.side)⟩])))
    (fails : ((s.db t).conflicts (row (Host.now s.side)) = true ∨
      Statement.referencesHold s.db parents = false) ∨ P.faulty op → ∀ s', P.Env i op l s s' →
      Q (.error (Host.fault X)) l s') :
    P.wp i op (.exec .pool (Statement.insert t parents row)) Q l s := by
  refine wp_exec_conn (fun beside effect member allowed => ?_) (fun may => fails ?_)
  · unfold Statement.insert at member
    split at member
    next => cases List.mem_singleton.1 member
    next noConflict =>
      cases List.mem_singleton.1 member
      simp only [Bool.or_eq_true, Bool.not_eq_true', not_or, Bool.not_eq_true,
        Bool.not_eq_false] at noConflict
      exact free beside noConflict.1 noConflict.2 allowed
  · refine may.imp_left fun constraint => ?_
    unfold Statement.insert at constraint
    split at constraint
    next conflict => simpa using conflict
    next => cases List.mem_singleton.1 constraint

/-! ## The shared state -/

/-- The protocol does not look at moves of the shared state that satisfy `ψ`. -/
def Free (P : Protocol (K := K) Row X ε O α Γ) (i : ℕ) (op : O) (ψ : X → X → Prop) : Prop :=
  ∀ (s : Sit Row X O Γ) (x : X), ψ s.side x → P.inv s →
    P.inv ⟨⟨s.db, x, s.ghost⟩, s.live⟩ ∧ P.guar i op s.toWorld ⟨s.db, x, s.ghost⟩ ∧
      P.rely i op s.toWorld ⟨s.db, x, s.ghost⟩

variable {ψ : X → X → Prop}

omit [DecidableEq T] [DecidableEq U] in
theorem After.free (lawful : P.Lawful) (free : P.Free i op ψ) {x : X} {Φ : Sit Row X O Γ → Prop}
    (moved : ψ s.side x) (holds : P.inv s) (next : ∀ s', P.Env i op l s s' → Φ s') :
    P.After i op s l s.db x Φ := by
  obtain ⟨inv, guar, rely⟩ := free s x moved holds
  refine ⟨s.ghost, inv, guar, fun s' env => next s' ⟨?_, env.inv, env.self⟩⟩
  exact ⟨lawful.rely_trans rely env.drift.1, env.drift.2⟩

theorem wp_sure (lawful : P.Lawful) (free : P.Free i op ψ) {run : X → β × X}
    (moved : ψ s.side (run s.side).2) (holds : P.inv s)
    (next : ∀ s', P.Env i op l s s' → Q (.ok (run s.side).1) l s') : P.wp i op (.sure run) Q l s :=
  ⟨.free lawful free moved holds next, fun impossible => by cases impossible⟩

theorem wp_act (lawful : P.Lawful) (free : P.Free i op ψ) {run : X → Except ε β × X}
    (moved : ψ s.side (run s.side).2) (holds : P.inv s)
    (next : ∀ s', P.Env i op l s s' → Q (run s.side).1 l s')
    (fails : P.faulty op → ∀ s', P.Env i op l s s' → Q (.error (Host.fault X)) l s') :
    P.wp i op (.act run) Q l s :=
  ⟨.free lawful free moved holds next, fun _ => fails⟩

end Protocol

end

end SwiftBite.Store
