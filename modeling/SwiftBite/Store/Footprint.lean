import SwiftBite.Store.Rules

/-! # Programs of which only the footprint matters

`Quiet` bounds what a program does while it leaves its transaction open: the writes it
adds, the rows it shows, the moves of the shared state.  `Harmless` bounds the writes of a
program that also runs transactions of its own.  Each comes with a rule that replaces the
program by any behaviour within the bounds.
-/

set_option autoImplicit false

namespace SwiftBite.Store

section

variable {T : Type} {Row : T → Type} {K U : Type} [∀ t, Keyed (Row t) K U] {X ε O α β γ Γ : Type}

/-- Bounds on the writes, the rows shown, and the moves of the shared state. -/
structure Bounds (Row : T → Type) (K X : Type) where
  writes : Write Row K → Prop
  shows : Sigma Row → Prop
  moves : X → X → Prop

namespace Prog

variable (b : Bounds Row K X)

/-- Every outcome of a statement stays within the bounds. -/
def Within (run : ℕ → Db Row → List (Option (Effect Row K β))) : Prop :=
  ∀ now db effect, some effect ∈ run now db →
  (∀ w ∈ effect.writes, b.writes w) ∧ ∀ row ∈ effect.seen, b.shows row

/-- A statement that writes nothing. -/
def Silent (run : ℕ → Db Row → List (Option (Effect Row K β))) : Prop :=
  ∀ now db effect, some effect ∈ run now db → effect.writes = []

def Quiet : Prog (K := K) Row X ε α → Prop
  | .done _ => True
  | .stmt on run next => Within b run ∧ (on = .pool → Silent run) ∧ ∀ answer, (next answer).Quiet
  | .side _ run next => (∀ x, b.moves x (run x).2) ∧ ∀ answer, (next answer).Quiet
  | .begin _ | .commit _ | .rollback _ => False

def Harmless : Prog (K := K) Row X ε α → Prop
  | .done _ => True
  | .stmt _ run next => Within b run ∧ ∀ answer, (next answer).Harmless
  | .side _ run next => (∀ x, b.moves x (run x).2) ∧ ∀ answer, (next answer).Harmless
  | .begin next => ∀ answer, (next answer).Harmless
  | .commit next => ∀ answer, (next answer).Harmless
  | .rollback next => next.Harmless

variable {b}

theorem Within.mono {b b' : Bounds Row K X} {run : ℕ → Db Row → List (Option (Effect Row K β))}
    (writes : ∀ w, b.writes w → b'.writes w) (shows : ∀ row, b.shows row → b'.shows row)
    (within : Within b run) : Within b' run :=
  fun now db effect member =>
    ⟨fun w written => writes w ((within now db effect member).1 w written),
    fun row shown => shows row ((within now db effect member).2 row shown)⟩

theorem Quiet.mono {b b' : Bounds Row K X} {prog : Prog Row X ε α}
    (writes : ∀ w, b.writes w → b'.writes w) (shows : ∀ row, b.shows row → b'.shows row)
    (moves : ∀ x x', b.moves x x' → b'.moves x x') (quiet : prog.Quiet b) : prog.Quiet b' := by
  induction prog with
  | done => trivial
  | stmt on run next inductionHypothesis =>
    exact ⟨quiet.1.mono writes shows, quiet.2.1,
      fun answer => inductionHypothesis answer (quiet.2.2 answer)⟩
  | side fallible run next inductionHypothesis =>
    exact ⟨fun x => moves _ _ (quiet.1 x),
      fun answer => inductionHypothesis answer (quiet.2 answer)⟩
  | begin | commit | rollback => exact quiet.elim

theorem Quiet.bind {prog : Prog Row X ε α} {f : α → Prog Row X ε β} (first : prog.Quiet b)
    (second : ∀ a, (f a).Quiet b) : (prog >>= f).Quiet b := by
  show (prog.bind f).Quiet b
  induction prog with
  | done result =>
    cases result with
    | ok a => exact second a
    | error e => trivial
  | stmt on run next inductionHypothesis =>
    exact ⟨first.1, first.2.1, fun answer => inductionHypothesis answer (first.2.2 answer)⟩
  | side fallible run next inductionHypothesis =>
    exact ⟨first.1, fun answer => inductionHypothesis answer (first.2 answer)⟩
  | begin | commit | rollback => exact first.elim

theorem Quiet.map {prog : Prog Row X ε α} {f : α → β}
    (first : prog.Quiet b) : (f <$> prog).Quiet b :=
  Quiet.bind first fun _ => trivial

theorem Quiet.tryCatch {prog : Prog Row X ε α} {handler : ε → Prog Row X ε α} (first : prog.Quiet b)
    (second : ∀ e, (handler e).Quiet b) : (prog.tryCatch handler).Quiet b := by
  induction prog with
  | done result =>
    cases result with
    | ok a => trivial
    | error e => exact second e
  | stmt on run next inductionHypothesis =>
    exact ⟨first.1, first.2.1, fun answer => inductionHypothesis answer (first.2.2 answer)⟩
  | side fallible run next inductionHypothesis =>
    exact ⟨first.1, fun answer => inductionHypothesis answer (first.2 answer)⟩
  | begin | commit | rollback => exact first.elim

theorem Quiet.pure {a : α} : (pure a : Prog Row X ε α).Quiet b := trivial

theorem Quiet.throw {e : ε} : (throw e : Prog Row X ε α).Quiet b := trivial

theorem Quiet.ofExcept {answer : Except ε α} : (Prog.ofExcept answer : Prog Row X ε α).Quiet b :=
  trivial

theorem Quiet.sure {run : X → α × X} (moves : ∀ x, b.moves x (run x).2) :
    (Prog.sure run : Prog Row X ε α).Quiet b :=
  ⟨moves, fun _ => trivial⟩

theorem Quiet.act {run : X → Except ε α × X} (moves : ∀ x, b.moves x (run x).2) :
    (Prog.act run : Prog Row X ε α).Quiet b :=
  ⟨moves, fun _ => trivial⟩

theorem Quiet.exec {run : ℕ → Db Row → List (Option (Effect Row K α))} (within : Within b run) :
    (Prog.exec .trx run : Prog Row X ε α).Quiet b :=
  ⟨within, fun isConn => (nomatch isConn), fun _ => trivial⟩

theorem Quiet.read {on : Conn} {run : ℕ → Db Row → List (Option (Effect Row K α))}
    (within : Within b run) (silent : Silent run) : (Prog.exec on run : Prog Row X ε α).Quiet b :=
  ⟨within, fun _ => silent, fun _ => trivial⟩

theorem Quiet.harmless {prog : Prog Row X ε α} (quiet : prog.Quiet b) : prog.Harmless b := by
  induction prog with
  | done => trivial
  | stmt on run next inductionHypothesis =>
    exact ⟨quiet.1, fun answer => inductionHypothesis answer (quiet.2.2 answer)⟩
  | side fallible run next inductionHypothesis =>
    exact ⟨quiet.1, fun answer => inductionHypothesis answer (quiet.2 answer)⟩
  | begin | commit | rollback => exact quiet.elim

theorem Harmless.bind {prog : Prog Row X ε α} {f : α → Prog Row X ε β} (first : prog.Harmless b)
    (second : ∀ a, (f a).Harmless b) : (prog >>= f).Harmless b := by
  show (prog.bind f).Harmless b
  induction prog with
  | done result =>
    cases result with
    | ok a => exact second a
    | error e => trivial
  | stmt on run next inductionHypothesis =>
    exact ⟨first.1, fun answer => inductionHypothesis answer (first.2 answer)⟩
  | side fallible run next inductionHypothesis =>
    exact ⟨first.1, fun answer => inductionHypothesis answer (first.2 answer)⟩
  | begin next inductionHypothesis => exact fun answer => inductionHypothesis answer (first answer)
  | commit next inductionHypothesis => exact fun answer => inductionHypothesis answer (first answer)
  | rollback next inductionHypothesis => exact inductionHypothesis first

theorem Harmless.map {prog : Prog Row X ε α} {f : α → β} (first : prog.Harmless b) :
    (f <$> prog).Harmless b :=
  Harmless.bind first fun _ => trivial

theorem Harmless.tryCatch {prog : Prog Row X ε α} {handler : ε → Prog Row X ε α}
    (first : prog.Harmless b) (second : ∀ e, (handler e).Harmless b) :
    (prog.tryCatch handler).Harmless b := by
  induction prog with
  | done result =>
    cases result with
    | ok a => trivial
    | error e => exact second e
  | stmt on run next inductionHypothesis =>
    exact ⟨first.1, fun answer => inductionHypothesis answer (first.2 answer)⟩
  | side fallible run next inductionHypothesis =>
    exact ⟨first.1, fun answer => inductionHypothesis answer (first.2 answer)⟩
  | begin next inductionHypothesis => exact fun answer => inductionHypothesis answer (first answer)
  | commit next inductionHypothesis => exact fun answer => inductionHypothesis answer (first answer)
  | rollback next inductionHypothesis => exact inductionHypothesis first

theorem Harmless.exec {on : Conn} {run : ℕ → Db Row → List (Option (Effect Row K α))}
    (within : Within b run) : (Prog.exec on run : Prog Row X ε α).Harmless b :=
  ⟨within, fun _ => trivial⟩

theorem Harmless.transaction {body : Prog Row X ε α} (inside : body.Harmless b) :
    (Prog.transaction body).Harmless b := by
  intro answer
  cases answer with
  | error e => trivial
  | ok _ =>
    refine Harmless.tryCatch (Harmless.bind inside fun a => ?_) fun e => ?_
    · intro answer
      cases answer <;> trivial
    · trivial

/-! ## One action -/

variable [DecidableEq T] [DecidableEq K] [DecidableEq U]

/-- One action of a harmless program: what it commits, and what it keeps for later, is within the
bounds. -/
theorem Harmless.next [Host X ε] {choice : Choice} {prog : Prog Row X ε α} {l : Local Row K}
    {db : Db Row} {x : X} {out : Outcome (K := K) Row X ε α} (harmless : prog.Harmless b)
    (kept : ∀ w ∈ l.writes, b.writes w) (acts : prog.next choice l db x = some out) :
    out.prog.Harmless b ∧ (∀ w ∈ out.loc.writes, b.writes w) ∧ ∃ ws, (∀ w ∈ ws, b.writes w) ∧
    out.db = db.applyAll ws := by
  have still : ∃ ws : List (Write Row K), (∀ w ∈ ws, b.writes w) ∧ db = db.applyAll ws :=
    ⟨[], fun _ none => absurd none List.not_mem_nil, rfl⟩
  have dropped : ∀ w ∈ (⟨none, l.seen⟩ : Local Row K).writes, b.writes w :=
    fun _ none => absurd none List.not_mem_nil
  cases step_of_next acts with
  | stmtFails _ => exact ⟨harmless.2 _, kept, still⟩
  | onPool member =>
    obtain ⟨bounded, rest⟩ := harmless
    exact ⟨rest _, kept, _, (bounded _ _ _ member).1, rfl⟩
  | inTrx running member =>
    obtain ⟨bounded, rest⟩ := harmless
    obtain ⟨txn, seen⟩ := l
    cases running
    refine ⟨rest _, fun w among => ?_, still⟩
    rcases List.mem_append.1 among with before | now
    · exact kept w before
    · exact (bounded _ _ _ member).1 w now
  | sideFails => exact ⟨harmless.2 _, kept, still⟩
  | sideActs => exact ⟨harmless.2 _, kept, still⟩
  | beginFails => exact ⟨harmless _, kept, still⟩
  | begins => exact ⟨harmless _, dropped, still⟩
  | commitFails => exact ⟨harmless _, kept, still⟩
  | commits => exact ⟨harmless _, dropped, l.writes, kept, rfl⟩
  | rollsBack => exact ⟨harmless, dropped, still⟩

/-- One action of a harmless program moves the shared state within the bounds, if at all. -/
theorem Harmless.next_side [Host X ε] {choice : Choice} {prog : Prog Row X ε α} {l : Local Row K}
    {db : Db Row} {x : X} {out : Outcome (K := K) Row X ε α} (harmless : prog.Harmless b)
    (acts : prog.next choice l db x = some out) : out.side = x ∨ b.moves x out.side := by
  cases step_of_next acts with
  | sideActs => exact .inr (harmless.1 x)
  | _ => exact .inl rfl

end Prog

/-! ## The kinds of statements -/

variable [DecidableEq T] [DecidableEq K] [DecidableEq U]

namespace Prog.Within

open Statement

variable {b : Bounds Row K X} {t : T}

omit [DecidableEq T] [DecidableEq K] [DecidableEq U] in
theorem select {read : ℕ → Db Row → β} : Within b (select read) := by
  intro now db effect member
  cases List.mem_singleton.1 member
  exact ⟨fun _ none => absurd none List.not_mem_nil, fun _ none => absurd none List.not_mem_nil⟩

omit [DecidableEq T] [DecidableEq U] in
theorem selectByKey {k : K} (shows : ∀ row, b.shows ⟨t, row⟩) : Within b (selectByKey t k) := by
  intro now db effect member
  cases List.mem_singleton.1 member
  refine ⟨fun _ none => absurd none List.not_mem_nil, fun row shown => ?_⟩
  obtain ⟨row', _, rfl⟩ := List.mem_map.1 shown
  exact shows row'

omit [DecidableEq T] [DecidableEq K] [DecidableEq U] in
theorem selectFirst {candidates : Table (Row t) → List (Row t)} (shows : ∀ row, b.shows ⟨t, row⟩) :
    Within b (selectFirst t candidates) := by
  intro now db effect member
  unfold Statement.selectFirst at member
  split at member
  · cases List.mem_singleton.1 member
    exact ⟨fun _ none => absurd none List.not_mem_nil, fun _ none => absurd none List.not_mem_nil⟩
  · obtain ⟨row', _, isEffect⟩ := List.mem_map.1 member
    cases isEffect
    exact ⟨fun _ none => absurd none List.not_mem_nil,
      fun row shown => List.mem_singleton.1 shown ▸ shows row'⟩

omit [DecidableEq T] [DecidableEq U] in
theorem lockByKey {k : K} (writes : b.writes (.lock t k)) (shows : ∀ row, b.shows ⟨t, row⟩) :
    Within b (lockByKey t k) := by
  intro now db effect member
  unfold Statement.lockByKey at member
  split at member
  · cases List.mem_singleton.1 member
    exact ⟨fun _ none => absurd none List.not_mem_nil, fun _ none => absurd none List.not_mem_nil⟩
  · cases List.mem_singleton.1 member
    exact ⟨fun w isLock => List.mem_singleton.1 isLock ▸ writes,
      fun row shown => List.mem_singleton.1 shown ▸ shows _⟩

omit [DecidableEq T] [DecidableEq U] in
theorem updateByKey {k : K} {f : Row t → Row t} (writes : b.writes (.update t k f))
    (shows : ∀ row, b.shows ⟨t, f row⟩) : Within b (updateByKey t k f) := by
  intro now db effect member
  unfold Statement.updateByKey at member
  split at member
  · cases List.mem_singleton.1 member
    exact ⟨fun _ none => absurd none List.not_mem_nil, fun _ none => absurd none List.not_mem_nil⟩
  · cases List.mem_singleton.1 member
    exact ⟨fun w isUpdate => List.mem_singleton.1 isUpdate ▸ writes,
      fun row shown => List.mem_singleton.1 shown ▸ shows _⟩

omit [DecidableEq T] in
theorem insert {parents : List (T × K)} {row : ℕ → Row t}
    (writes : ∀ now, b.writes (.insert t (row now))) (shows : ∀ now, b.shows ⟨t, row now⟩) :
    Within b (insert t parents row) := by
  intro now db effect member
  unfold Statement.insert at member
  split at member
  · cases List.mem_singleton.1 member
  · cases List.mem_singleton.1 member
    exact ⟨fun w isInsert => List.mem_singleton.1 isInsert ▸ writes now,
      fun row shown => List.mem_singleton.1 shown ▸ shows now⟩

omit [DecidableEq T] in
theorem insertAll {parents : List (T × K)} {rows : ℕ → List (Row t)}
    (writes : ∀ now, ∀ row ∈ rows now, b.writes (.insert t row)) (shows : ∀ row, b.shows ⟨t, row⟩) :
    Within b (insertAll t parents rows) := by
  intro now db effect member
  unfold Statement.insertAll at member
  split at member
  · cases List.mem_singleton.1 member
    refine ⟨fun w isInsert => ?_, fun row shown => ?_⟩
    · obtain ⟨row, among, rfl⟩ := List.mem_map.1 isInsert
      exact writes now row among
    · obtain ⟨row', _, rfl⟩ := List.mem_map.1 shown
      exact shows row'
  · cases List.mem_singleton.1 member

omit [DecidableEq T] in
theorem insertIgnore {target : Row t → Bool} {parents : List (T × K)} {row : ℕ → Row t}
    (writes : ∀ now, b.writes (.insert t (row now))) (shows : ∀ now, b.shows ⟨t, row now⟩) :
    Within b (insertIgnore t target parents row) := by
  intro now db effect member
  unfold Statement.insertIgnore at member
  split at member
  · cases List.mem_singleton.1 member
    exact ⟨fun _ none => absurd none List.not_mem_nil, fun _ none => absurd none List.not_mem_nil⟩
  · split at member
    · cases List.mem_singleton.1 member
    · cases List.mem_singleton.1 member
      exact ⟨fun w isInsert => List.mem_singleton.1 isInsert ▸ writes now,
        fun row shown => List.mem_singleton.1 shown ▸ shows now⟩

omit [DecidableEq T] in
theorem upsert {row : ℕ → Row t} {f : Row t → Row t}
    (updates : ∀ now, b.writes (.update t (key (row now)) f))
    (inserts : ∀ now, b.writes (.insert t (row now))) (shows : ∀ row, b.shows ⟨t, row⟩) :
    Within b (upsert t row f) := by
  intro now db effect member
  unfold Statement.upsert at member
  split at member
  next old found =>
    cases List.mem_singleton.1 member
    have isKey : key old = key (row now) := Table.get_key found
    exact ⟨fun w isUpdate => by rw [List.mem_singleton.1 isUpdate, isKey]; exact updates now,
      fun row shown => List.mem_singleton.1 shown ▸ shows _⟩
  next =>
    split at member
    · cases List.mem_singleton.1 member
    · cases List.mem_singleton.1 member
      exact ⟨fun w isInsert => List.mem_singleton.1 isInsert ▸ inserts now,
        fun row shown => List.mem_singleton.1 shown ▸ shows _⟩

omit [DecidableEq T] [DecidableEq U] in
theorem updateWhere {keys : List K} {condition : Row t → Bool} {f : Row t → Row t}
    (writes : ∀ row, condition row = true → b.writes (.update t (key row) f))
    (shows : ∀ row, b.shows ⟨t, row⟩) : Within b (updateWhere t keys condition f) := by
  intro now db effect member
  cases List.mem_singleton.1 member
  refine ⟨fun w isUpdate => ?_, fun row shown => ?_⟩
  · obtain ⟨row, among, rfl⟩ := List.mem_map.1 isUpdate
    obtain ⟨k, _, matched⟩ := List.mem_filterMap.1 among
    exact writes row (Option.filter_eq_some_iff.1 matched).2
  · obtain ⟨row', _, rfl⟩ := List.mem_map.1 shown
    exact shows _

end Prog.Within

namespace Prog.Silent

open Statement

omit [DecidableEq T] [DecidableEq K] [DecidableEq U] in
theorem select {read : ℕ → Db Row → β} : Silent (K := K) (select read) := by
  intro now db effect member
  cases List.mem_singleton.1 member
  rfl

omit [DecidableEq T] [DecidableEq U] in
theorem selectByKey {t : T} {k : K} :
    Silent (selectByKey t k : ℕ → Db Row → List (Option (Effect Row K (Option (Row t))))) := by
  intro now db effect member
  cases List.mem_singleton.1 member
  rfl

omit [DecidableEq T] [DecidableEq K] [DecidableEq U] in
theorem selectFirst {t : T} {candidates : Table (Row t) → List (Row t)} :
    Silent (K := K) (selectFirst t candidates) := by
  intro now db effect member
  unfold Statement.selectFirst at member
  split at member
  · cases List.mem_singleton.1 member
    rfl
  · obtain ⟨_, _, isEffect⟩ := List.mem_map.1 member
    cases isEffect
    rfl

end Prog.Silent

/-! ## The rules -/

/-- The call after some more writes of its transaction and some more rows shown. -/
def Local.grow (l : Local Row K) (ws : List (Write Row K))
    (rows : List (Sigma Row)) : Local Row K :=
  ⟨l.txn.map fun txn => { txn with writes := txn.writes ++ ws }, rows ++ l.seen⟩

omit [DecidableEq T] [DecidableEq K] in
theorem Local.grow_nil (l : Local Row K) : l.grow [] [] = l := by
  obtain ⟨txn, seen⟩ := l
  cases txn <;> simp [Local.grow]

omit [DecidableEq T] [DecidableEq K] in
theorem Local.grow_grow (l : Local Row K) (ws ws' : List (Write Row K))
    (rows rows' : List (Sigma Row)) :
    (l.grow ws rows).grow ws' rows' = l.grow (ws ++ ws') (rows' ++ rows) := by
  obtain ⟨txn, seen⟩ := l
  cases txn <;> simp [Local.grow]

omit [DecidableEq T] [DecidableEq K] in
theorem Local.saw_eq_grow (l : Local Row K) (rows : List (Sigma Row)) :
    l.saw rows = l.grow [] rows := by
  obtain ⟨txn, seen⟩ := l
  cases txn <;> simp [Local.grow, Local.saw]

omit [DecidableEq T] [DecidableEq K] [DecidableEq U] in
theorem Local.held_grow {l : Local Row K} {ws : List (Write Row K)} {rows : List (Sigma Row)}
    {e : Entry T K U} (held : e ∈ l.held) : e ∈ (l.grow ws rows).held := by
  obtain ⟨txn, seen⟩ := l
  cases txn with
  | none => cases held
  | some txn =>
    show e ∈ entriesOf (txn.writes ++ ws)
    rw [entriesOf_append]
    exact List.mem_append_left _ held

namespace Protocol

variable [Host X ε] {P : Protocol (K := K) Row X ε O α Γ} {i : ℕ} {op : O} {b : Bounds Row K X}

omit [Host X ε] [DecidableEq T] [DecidableEq U] in
theorem Drift.shrink {l : Local Row K} {ws : List (Write Row K)} {rows : List (Sigma Row)}
    {w w' : World Row X Γ} (drift : P.Drift i op (l.grow ws rows) w w') : P.Drift i op l w w' :=
  ⟨drift.1, fun e held => drift.2 e (Local.held_grow held)⟩

theorem wp_quiet (lawful : P.Lawful) (free : P.Free i op b.moves) {prog : Prog Row X ε β}
    {Q : Except ε β → Local Row K → Sit Row X O Γ → Prop} {l : Local Row K} {s : Sit Row X O Γ}
    (quiet : prog.Quiet b) (holds : P.inv s) (self : s.live i = some op)
    (next : ∀ result ws rows s', (∀ w ∈ ws, b.writes w) → (∀ row ∈ rows, b.shows row) →
      P.Env i op l s s' → Q result (l.grow ws rows) s') :
    P.wp i op prog Q l s := by
  induction prog generalizing l s with
  | done result =>
    have settled := next result [] [] s (fun _ none => absurd none List.not_mem_nil)
      (fun _ none => absurd none List.not_mem_nil) (.refl lawful holds self)
    rwa [Local.grow_nil] at settled
  | stmt on run following inductionHypothesis =>
    obtain ⟨within, silent, quiet⟩ := quiet
    -- What the statement adds to the transaction is within the bounds, and so is what follows.
    have onward : ∀ answer ws rows, (∀ w ∈ ws, b.writes w) → (∀ row ∈ rows, b.shows row) →
        ∀ s', P.Env i op (l.grow ws rows) s s' →
        P.wp i op (following answer) Q (l.grow ws rows) s' := by
      intro answer ws rows writes shows s' env
      refine inductionHypothesis answer (quiet answer) env.inv env.self ?_
      intro result ws' rows' s'' writes' shows' env'
      rw [Local.grow_grow]
      refine next result _ _ s'' ?_ ?_ ⟨env.drift.shrink.trans lawful env'.drift.shrink,
        env'.inv, env'.self⟩
      · simp only [List.mem_append]
        rintro w (old | new)
        · exact writes w old
        · exact writes' w new
      · simp only [List.mem_append]
        rintro row (new | old)
        · exact shows' row new
        · exact shows row old
    refine ⟨fun _ effect member _ => ?_, fun _ s' env => ?_⟩
    · obtain ⟨writes, shows⟩ := within _ _ effect member
      cases on with
      | pool =>
        have none := silent rfl _ _ effect member
        show P.After i op s _ (s.db.applyAll effect.writes) _ _
        rw [none, Local.saw_eq_grow]
        exact .same lawful holds
          (onward _ [] _ (fun _ absent => absurd absent List.not_mem_nil) shows)
      | trx =>
        obtain ⟨txn, seen⟩ := l
        cases txn with
        | none => trivial
        | some txn => exact .same lawful holds (onward _ effect.writes _ writes shows)
    · have stays :=
        onward (.error (Host.fault X)) [] [] (fun _ absent => absurd absent List.not_mem_nil)
        (fun _ absent => absurd absent List.not_mem_nil) s'
      rw [Local.grow_nil] at stays
      exact stays env
  | side fallible run following inductionHypothesis =>
    obtain ⟨moves, quiet⟩ := quiet
    have onward : ∀ answer s', P.Env i op l s s' → P.wp i op (following answer) Q l s' := by
      intro answer s' env
      refine inductionHypothesis answer (quiet answer) env.inv env.self ?_
      intro result ws rows s'' writes shows env'
      exact next result ws rows s'' writes shows ⟨env.drift.trans lawful env'.drift,
        env'.inv, env'.self⟩
    exact ⟨.free lawful free (moves _) holds (onward _), fun _ _ => onward _⟩
  | begin | commit | rollback => exact quiet.elim

/-- Committing writes within the bounds is within the protocol. -/
def Tolerates (P : Protocol (K := K) Row X ε O α Γ) (i : ℕ) (op : O) (b : Bounds Row K X) : Prop :=
  ∀ (s : Sit Row X O Γ) (ws : List (Write Row K)), (∀ w ∈ ws, b.writes w) → P.inv s →
    P.inv ⟨⟨s.db.applyAll ws, s.side, s.ghost⟩, s.live⟩ ∧
      P.guar i op s.toWorld ⟨s.db.applyAll ws, s.side, s.ghost⟩ ∧
      P.rely i op s.toWorld ⟨s.db.applyAll ws, s.side, s.ghost⟩

/-- What is left of a call after an action of it and what the others have done. -/
theorem wp_rest (lawful : P.Lawful) {rest : Prog Row X ε β}
    {Q : Except ε β → Local Row K → Sit Row X O Γ → Prop} {l : Local Row K}
    {s s₁ s' : Sit Row X O Γ}
    (harmless : ∀ {l : Local Row K} {s : Sit Row X O Γ}, (∀ w ∈ l.writes, b.writes w) → P.inv s →
      s.live i = some op →
      (∀ result l' s', P.inv s' → s'.live i = some op → P.rely i op s.toWorld s'.toWorld →
        Q result l' s') → P.wp i op rest Q l s)
    (next : ∀ result l' s', P.inv s' → s'.live i = some op → P.rely i op s.toWorld s'.toWorld →
      Q result l' s')
    (pending : ∀ w ∈ l.writes, b.writes w) (reached : P.rely i op s.toWorld s₁.toWorld)
    (env : P.Env i op l s₁ s') : P.wp i op rest Q l s' := by
  refine harmless pending env.inv env.self ?_
  intro result l' s'' inv' self' further
  exact next result l' s'' inv' self'
    (lawful.rely_trans reached (lawful.rely_trans env.drift.1 further))

theorem wp_harmless (lawful : P.Lawful) (free : P.Free i op b.moves)
    (tolerates : P.Tolerates i op b) {prog : Prog Row X ε β}
    {Q : Except ε β → Local Row K → Sit Row X O Γ → Prop} {l : Local Row K} {s : Sit Row X O Γ}
    (harmless : prog.Harmless b) (pending : ∀ w ∈ l.writes, b.writes w) (holds : P.inv s)
    (self : s.live i = some op)
    (next : ∀ result l' s', P.inv s' → s'.live i = some op → P.rely i op s.toWorld s'.toWorld →
      Q result l' s') : P.wp i op prog Q l s := by
  induction prog generalizing l s with
  | done result => exact next result l s holds self (lawful.rely_refl i op _)
  | stmt on run following inductionHypothesis =>
    obtain ⟨within, harmless⟩ := harmless
    refine ⟨fun _ effect member _ => ?_, fun _ s' => wp_rest lawful
      (inductionHypothesis _ (harmless _)) next pending (lawful.rely_refl i op _)⟩
    obtain ⟨writes, _⟩ := within _ _ effect member
    cases on with
    | pool =>
      obtain ⟨inv', guar, reached⟩ := tolerates s effect.writes writes holds
      exact ⟨s.ghost, inv', guar, fun s' => wp_rest lawful
        (inductionHypothesis _ (harmless _)) next pending reached⟩
    | trx =>
      obtain ⟨txn, seen⟩ := l
      cases txn with
      | none => trivial
      | some txn =>
        have kept : ∀ w ∈ txn.writes ++ effect.writes, b.writes w := by
          simp only [List.mem_append]
          rintro w (old | new)
          · exact pending w old
          · exact writes w new
        exact .same lawful holds fun s' => wp_rest lawful
          (inductionHypothesis _ (harmless _)) next kept (lawful.rely_refl i op _)
  | side fallible run following inductionHypothesis =>
    obtain ⟨moves, harmless⟩ := harmless
    exact ⟨.free lawful free (moves _) holds fun s' => wp_rest lawful
        (inductionHypothesis _ (harmless _)) next pending (lawful.rely_refl i op _),
      fun _ _ s' => wp_rest lawful (inductionHypothesis _ (harmless _)) next pending
        (lawful.rely_refl i op _)⟩
  | begin following inductionHypothesis =>
    exact ⟨fun s' => wp_rest lawful (inductionHypothesis _ (harmless _)) next
        (fun _ absent => absurd absent List.not_mem_nil) (lawful.rely_refl i op _),
      fun _ s' => wp_rest lawful (inductionHypothesis _ (harmless _)) next pending
        (lawful.rely_refl i op _)⟩
  | commit following inductionHypothesis =>
    refine ⟨fun _ => ?_, fun _ s' => wp_rest lawful (inductionHypothesis _ (harmless _)) next
      pending (lawful.rely_refl i op _)⟩
    -- What has been kept is within the bounds; after the commit the call holds nothing.
    obtain ⟨inv', guar, reached⟩ := tolerates s l.writes pending holds
    exact ⟨s.ghost, inv', guar, fun s' => wp_rest lawful (inductionHypothesis _ (harmless _)) next
      (fun _ absent => absurd absent List.not_mem_nil) reached⟩
  | rollback following inductionHypothesis =>
    exact fun s' => wp_rest lawful (inductionHypothesis harmless) next
      (fun _ absent => absurd absent List.not_mem_nil) (lawful.rely_refl i op _)

end Protocol

end

end SwiftBite.Store
