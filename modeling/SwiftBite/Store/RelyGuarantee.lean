import SwiftBite.Store.Pool

/-! # Rely and guarantee

A protocol states what every committed state satisfies, what each call may do to the
committed state in one action, and what it may count on while others act.  A call is
verified alone: `wp` says that each of its actions keeps the invariant and the guarantee,
whatever the others do in between within the rely.

The ghost component carries knowledge about calls that the database does not record.
-/

set_option autoImplicit false

namespace SwiftBite.Store

section

variable {T : Type} [DecidableEq T] (Row : T → Type) {K U : Type} [DecidableEq K] [DecidableEq U]
  [∀ t, Keyed (Row t) K U]

/-- The committed state, with the ghost component. -/
structure World (X Γ : Type) where
  db : Db Row
  side : X
  ghost : Γ

/-- A world, and the operations of the calls under way. -/
structure Sit (X O Γ : Type) extends World Row X Γ where
  live : ℕ → Option O

structure Protocol (X ε O α Γ : Type) where
  /-- Holds in every committed state. -/
  inv : Sit Row X O Γ → Prop
  /-- What call `i`, serving `op`, may do in one action. -/
  guar : ℕ → O → World Row X Γ → World Row X Γ → Prop
  /-- What the others may do between two actions of call `i`. -/
  rely : ℕ → O → World Row X Γ → World Row X Γ → Prop
  /-- What holds once call `i` has ended with a result. -/
  post : ℕ → O → Except ε α → World Row X Γ → Prop
  /-- The statements a run may make: from the call's own state, the rows it would read in
  its transaction, and the writes. -/
  allow : Local Row K → Db Row → List (Write Row K) → Prop
  /-- The operations whose actions may fail and whose process may die. -/
  faulty : O → Prop
  admits : O → Prop
  /-- Two operations that may be under way together. -/
  apart : Db Row → O → O → Prop

end

section

variable {T : Type} [DecidableEq T] {Row : T → Type} {K U : Type} [DecidableEq K] [DecidableEq U]
  [∀ t, Keyed (Row t) K U] {X ε O α β Γ : Type} [Host X ε]

namespace Sit

omit [DecidableEq T] [DecidableEq K] [DecidableEq U]

def spawn (s : Sit Row X O Γ) (i : ℕ) (op : O) : Sit Row X O Γ :=
  { s with live := Function.update s.live i (some op) }

def retire (s : Sit Row X O Γ) (i : ℕ) : Sit Row X O Γ :=
  { s with live := Function.update s.live i none }

@[simp] theorem spawn_toWorld (s : Sit Row X O Γ) (i : ℕ) (op : O) :
    (s.spawn i op).toWorld = s.toWorld :=
  rfl

@[simp] theorem retire_toWorld (s : Sit Row X O Γ) (i : ℕ) : (s.retire i).toWorld = s.toWorld := rfl

@[simp] theorem spawn_live_self (s : Sit Row X O Γ) (i : ℕ) (op : O) :
    (s.spawn i op).live i = some op := by
  simp [spawn]

theorem spawn_live_ne (s : Sit Row X O Γ) {i j : ℕ} (op : O) (other : j ≠ i) :
    (s.spawn i op).live j = s.live j := by
  simp [spawn, other]

@[simp] theorem retire_live_self (s : Sit Row X O Γ) (i : ℕ) : (s.retire i).live i = none := by
  simp [retire]

theorem retire_live_ne (s : Sit Row X O Γ) {i j : ℕ} (other : j ≠ i) :
    (s.retire i).live j = s.live j := by
  simp [retire, other]

/-- No call is under way. -/
def Alone (s : Sit Row X O Γ) : Prop := ∀ i, s.live i = none

end Sit

namespace Protocol

variable (P : Protocol (K := K) Row X ε O α Γ)

/-- The relations of a protocol fit together. -/
structure Lawful : Prop where
  guar_refl : ∀ i op w, P.guar i op w w
  rely_refl : ∀ i op w, P.rely i op w w
  rely_trans : ∀ {i op w w' w''}, P.rely i op w w' → P.rely i op w' w'' → P.rely i op w w''
  rely_of_guar : ∀ {i j op other} {s s' : Sit Row X O Γ}, i ≠ j → P.apart s.db op other → P.inv s →
    P.inv s' → P.guar j other s.toWorld s'.toWorld → P.rely i op s.toWorld s'.toWorld
  post_stable : ∀ {i j op other result} {s s' : Sit Row X O Γ}, P.inv s → P.inv s' →
    P.guar j other s.toWorld s'.toWorld → P.post i op result s.toWorld →
    P.post i op result s'.toWorld
  inv_spawn : ∀ {s i op}, P.inv s → s.live i = none → P.admits op → P.inv (s.spawn i op)
  inv_crash : ∀ {s i op}, P.faulty op → s.live i = some op → P.inv s →
    P.inv (s.retire i) ∧ P.post i op (.error (Host.fault X)) s.toWorld

/-- What may have happened to the committed state between two actions of a call. -/
def Drift (i : ℕ) (op : O) (l : Local Row K) (w w' : World Row X Γ) : Prop :=
  P.rely i op w w' ∧ ∀ e ∈ l.held, Db.Agree w.db w'.db e

/-- A state in which call `i` may find itself after the others have acted. -/
structure Env (i : ℕ) (op : O) (l : Local Row K) (s s' : Sit Row X O Γ) : Prop where
  drift : P.Drift i op l s.toWorld s'.toWorld
  inv : P.inv s'
  self : s'.live i = some op

/-- The calls under way beside call `i` may be so. -/
def Alongside (i : ℕ) (op : O) (s : Sit Row X O Γ) : Prop :=
  ∀ j other, j ≠ i → s.live j = some other → P.apart s.db op other

/-- The action leads to this state, keeps the invariant and the guarantee, and whatever the
others do next, `Φ` holds. -/
def After (i : ℕ) (op : O) (s : Sit Row X O Γ) (l : Local Row K) (db : Db Row) (x : X)
    (Φ : Sit Row X O Γ → Prop) : Prop :=
  ∃ ghost, P.inv ⟨⟨db, x, ghost⟩, s.live⟩ ∧ P.guar i op s.toWorld ⟨db, x, ghost⟩ ∧
    ∀ s', P.Env i op l ⟨⟨db, x, ghost⟩, s.live⟩ s' → Φ s'

/-- The outcome of a statement that did not fail. -/
def Done (i : ℕ) (op : O) (on : Conn) (effect : Effect Row K β) (l : Local Row K)
    (s : Sit Row X O Γ) (Φ : Local Row K → Sit Row X O Γ → Prop) : Prop :=
  match on, l.txn with
  | .pool, _ =>
    P.After i op s (l.saw effect.seen) (s.db.applyAll effect.writes) s.side (Φ (l.saw effect.seen))
  | .trx, some txn =>
    P.After i op s ⟨some { txn with
      writes := txn.writes ++ effect.writes }, effect.seen ++ l.seen⟩ s.db s.side
      (Φ ⟨some { txn with writes := txn.writes ++ effect.writes }, effect.seen ++ l.seen⟩)
  | .trx, none => True

/-- A statement that can fail: a constraint, a fault, or no transaction to run in. -/
def MayFail (op : O) (on : Conn) (run : ℕ → Db Row → List (Option (Effect Row K β)))
    (l : Local Row K) (s : Sit Row X O Γ) : Prop :=
  none ∈ run (Prog.instant on l s.side) (l.view s.db on) ∨ P.faulty op ∨ (on = .trx ∧ l.txn = none)

/-- The weakest precondition of what is left of a call, under interference. -/
def wp (i : ℕ) (op : O) : Prog Row X ε β → (Except ε β → Local Row K → Sit Row X O Γ → Prop) →
    Local Row K → Sit Row X O Γ → Prop
  | .done result, Q, l, s => Q result l s
  | .stmt on run next, Q, l, s =>
    (P.Alongside i op s → ∀ effect, some effect ∈ run (Prog.instant on l s.side) (l.view s.db on) →
      P.allow l (s.db.applyAll l.writes) effect.writes →
      P.Done i op on effect l s fun l s => wp i op (next (.ok effect.reply)) Q l s) ∧
    (P.MayFail op on run l s → ∀ s', P.Env i op l s s' →
      wp i op (next (.error (Host.fault X))) Q l s')
  | .side fallible run next, Q, l, s =>
    P.After i op s l s.db (run s.side).2 (fun s' => wp i op (next (run s.side).1) Q l s') ∧
    (fallible = true → P.faulty op →
      ∀ s', P.Env i op l s s' → wp i op (next (.error (Host.fault X))) Q l s')
  | .begin next, Q, l, s =>
    (∀ s', P.Env i op { l with txn := some ⟨Host.now s.side, []⟩ } s s' →
      wp i op (next (.ok ())) Q { l with txn := some ⟨Host.now s.side, []⟩ } s') ∧
    (P.faulty op → ∀ s', P.Env i op l s s' → wp i op (next (.error (Host.fault X))) Q l s')
  | .commit next, Q, l, s =>
    (P.Alongside i op s → P.After i op s { l with txn := none } (s.db.applyAll l.writes) s.side
      fun s => wp i op (next (.ok ())) Q { l with txn := none } s) ∧
    (P.faulty op → ∀ s', P.Env i op l s s' → wp i op (next (.error (Host.fault X))) Q l s')
  | .rollback next, Q, l, s =>
    ∀ s', P.Env i op { l with txn := none } s s' → wp i op next Q { l with txn := none } s'

variable {P}

omit [DecidableEq T] [DecidableEq U] in
theorem Drift.trans (lawful : P.Lawful) {i : ℕ} {op : O} {l : Local Row K}
    {w w' w'' : World Row X Γ} (first : P.Drift i op l w w')
    (second : P.Drift i op l w' w'') : P.Drift i op l w w'' :=
  ⟨lawful.rely_trans first.1 second.1, fun e held => (first.2 e held).trans (second.2 e held)⟩

omit [DecidableEq T] [DecidableEq U] in
theorem Drift.refl (lawful : P.Lawful) (i : ℕ) (op : O) (l : Local Row K) (w : World Row X Γ) :
    P.Drift i op l w w :=
  ⟨lawful.rely_refl i op w, fun _ _ => .refl _ _⟩

omit [DecidableEq T] [DecidableEq U] in
theorem Env.refl (lawful : P.Lawful) {i : ℕ} {op : O} {l : Local Row K} {s : Sit Row X O Γ}
    (holds : P.inv s) (self : s.live i = some op) : P.Env i op l s s :=
  ⟨.refl lawful i op l _, holds, self⟩

omit [DecidableEq T] [DecidableEq U] [Host X ε] in
/-- A row that the call holds is still as it was. -/
theorem Env.row {i : ℕ} {op : O} {l : Local Row K} {s s' : Sit Row X O Γ} (env : P.Env i op l s s')
    {t : T} {k : K} (held : Entry.row t k ∈ (l.held : List (Entry T K U))) :
    (s'.db t).get k = (s.db t).get k :=
  env.drift.2 _ held

omit [DecidableEq T] [DecidableEq U] [Host X ε] in
/-- An index entry that the call holds is still there, or still not. -/
theorem Env.index {i : ℕ} {op : O} {l : Local Row K} {s s' : Sit Row X O Γ}
    (env : P.Env i op l s s') {t : T} {u : U}
    (held : Entry.index t u ∈ (l.held : List (Entry T K U))) :
    s'.db.Indexed t u ↔ s.db.Indexed t u :=
  env.drift.2 _ held

omit [DecidableEq T] [DecidableEq U] in
theorem Env.trans (lawful : P.Lawful) {i : ℕ} {op : O} {l : Local Row K} {s s' s'' : Sit Row X O Γ}
    (first : P.Env i op l s s') (second : P.Env i op l s' s'') : P.Env i op l s s'' :=
  ⟨first.drift.trans lawful second.drift, second.inv, second.self⟩

omit [DecidableEq T] [DecidableEq U] [Host X ε] in
/-- Without a transaction a call holds nothing. -/
theorem Env.released {i : ℕ} {op : O} {l : Local Row K} {s s' : Sit Row X O Γ}
    (env : P.Env i op l s s') (seen : List (Sigma Row)) : P.Env i op ⟨none, seen⟩ s s' :=
  ⟨⟨env.drift.1, fun _ none => absurd none List.not_mem_nil⟩, env.inv, env.self⟩

omit [DecidableEq T] [DecidableEq U] [Host X ε] in
theorem After.mono {i : ℕ} {op : O} {s : Sit Row X O Γ} {l : Local Row K} {db : Db Row} {x : X}
    {Φ Φ' : Sit Row X O Γ → Prop} (weaker : ∀ s, Φ s → Φ' s) (after : P.After i op s l db x Φ) :
    P.After i op s l db x Φ' := by
  obtain ⟨ghost, inv, guar, rest⟩ := after
  exact ⟨ghost, inv, guar, fun s' env => weaker s' (rest s' env)⟩

omit [DecidableEq T] [DecidableEq U] [Host X ε] in
/-- The call goes on in a state that satisfies the invariant. -/
theorem After.imp {i : ℕ} {op : O} {s : Sit Row X O Γ} {l : Local Row K} {db : Db Row} {x : X}
    {Φ Φ' : Sit Row X O Γ → Prop} (after : P.After i op s l db x Φ)
    (weaker : ∀ s', P.inv s' → s'.live i = some op → Φ s' → Φ' s') : P.After i op s l db x Φ' := by
  obtain ⟨ghost, inv, guar, rest⟩ := after
  exact ⟨ghost, inv, guar, fun s' env => weaker s' env.inv env.self (rest s' env)⟩

omit [DecidableEq T] [DecidableEq U] [Host X ε] in
/-- Without a transaction it does not matter what the call has seen. -/
theorem After.released {i : ℕ} {op : O} {s : Sit Row X O Γ} {seen : List (Sigma Row)} {db : Db Row}
    {x : X} {Φ : Sit Row X O Γ → Prop} (after : P.After i op s ⟨none, seen⟩ db x Φ)
    (seen' : List (Sigma Row)) : P.After i op s ⟨none, seen'⟩ db x Φ := by
  obtain ⟨ghost, inv, guar, rest⟩ := after
  exact ⟨ghost, inv, guar, fun s' env => rest s' (env.released seen)⟩

omit [DecidableEq T] [DecidableEq U] in
/-- An action that leaves the committed state as it is. -/
theorem After.same (lawful : P.Lawful) {i : ℕ} {op : O} {l : Local Row K} {s : Sit Row X O Γ}
    {Φ : Sit Row X O Γ → Prop} (holds : P.inv s) (next : ∀ s', P.Env i op l s s' → Φ s') :
    P.After i op s l s.db s.side Φ :=
  ⟨s.ghost, holds, lawful.guar_refl i op _, next⟩

omit [Host X ε] in
theorem Done.mono {i : ℕ} {op : O} {on : Conn} {effect : Effect Row K β} {l : Local Row K}
    {s : Sit Row X O Γ} {Φ Φ' : Local Row K → Sit Row X O Γ → Prop} (weaker : ∀ l s, Φ l s → Φ' l s)
    (done : P.Done i op on effect l s Φ) : P.Done i op on effect l s Φ' := by
  cases on with
  | pool => exact After.mono (weaker _) done
  | trx =>
    obtain ⟨txn, seen⟩ := l
    cases txn with
    | none => trivial
    | some txn => exact After.mono (weaker _) done

/-! ## The combinators -/

theorem wp_mono {i : ℕ} {op : O} {prog : Prog Row X ε β}
    {Q Q' : Except ε β → Local Row K → Sit Row X O Γ → Prop} {l : Local Row K} {s : Sit Row X O Γ}
    (weaker : ∀ result l s, Q result l s → Q' result l s) (holds : P.wp i op prog Q l s) :
    P.wp i op prog Q' l s := by
  induction prog generalizing l s with
  | done result => exact weaker _ _ _ holds
  | stmt on run next inductionHypothesis =>
    exact ⟨fun beside effect member allowed =>
        (holds.1 beside effect member allowed).mono fun _ _ => inductionHypothesis _,
      fun may s' env => inductionHypothesis _ (holds.2 may s' env)⟩
  | side fallible run next inductionHypothesis =>
    exact ⟨holds.1.mono fun _ => inductionHypothesis _,
      fun may faulty s' env => inductionHypothesis _ (holds.2 may faulty s' env)⟩
  | begin next inductionHypothesis =>
    exact ⟨fun s' env => inductionHypothesis _ (holds.1 s' env),
      fun faulty s' env => inductionHypothesis _ (holds.2 faulty s' env)⟩
  | commit next inductionHypothesis =>
    exact ⟨fun beside => (holds.1 beside).mono fun _ => inductionHypothesis _,
      fun faulty s' env => inductionHypothesis _ (holds.2 faulty s' env)⟩
  | rollback next inductionHypothesis => exact fun s' env => inductionHypothesis (holds s' env)

/-- What a program must establish for its continuation. -/
abbrev bindPost (P : Protocol (K := K) Row X ε O α Γ) {γ : Type} (i : ℕ) (op : O)
    (f : β → Prog Row X ε γ) (Q : Except ε γ → Local Row K → Sit Row X O Γ → Prop) :
    Except ε β → Local Row K → Sit Row X O Γ → Prop
  | .ok b, l, s => P.wp i op (f b) Q l s
  | .error e, l, s => Q (.error e) l s

theorem wp_bind {γ : Type} {i : ℕ} {op : O} {prog : Prog Row X ε β} {f : β → Prog Row X ε γ}
    {Q : Except ε γ → Local Row K → Sit Row X O Γ → Prop} {l : Local Row K} {s : Sit Row X O Γ}
    (holds : P.wp i op prog (P.bindPost i op f Q) l s) : P.wp i op (prog.bind f) Q l s := by
  induction prog generalizing l s with
  | done result => cases result <;> exact holds
  | stmt on run next inductionHypothesis =>
    exact ⟨fun beside effect member allowed =>
        (holds.1 beside effect member allowed).mono fun _ _ => inductionHypothesis _,
      fun may s' env => inductionHypothesis _ (holds.2 may s' env)⟩
  | side fallible run next inductionHypothesis =>
    exact ⟨holds.1.mono fun _ => inductionHypothesis _,
      fun may faulty s' env => inductionHypothesis _ (holds.2 may faulty s' env)⟩
  | begin next inductionHypothesis =>
    exact ⟨fun s' env => inductionHypothesis _ (holds.1 s' env),
      fun faulty s' env => inductionHypothesis _ (holds.2 faulty s' env)⟩
  | commit next inductionHypothesis =>
    exact ⟨fun beside => (holds.1 beside).mono fun _ => inductionHypothesis _,
      fun faulty s' env => inductionHypothesis _ (holds.2 faulty s' env)⟩
  | rollback next inductionHypothesis => exact fun s' env => inductionHypothesis (holds s' env)

/-- What a guarded program must establish for its handler. -/
abbrev catchPost (P : Protocol (K := K) Row X ε O α Γ) (i : ℕ) (op : O)
    (handler : ε → Prog Row X ε β) (Q : Except ε β → Local Row K → Sit Row X O Γ → Prop) :
    Except ε β → Local Row K → Sit Row X O Γ → Prop
  | .ok b, l, s => Q (.ok b) l s
  | .error e, l, s => P.wp i op (handler e) Q l s

theorem wp_tryCatch {i : ℕ} {op : O} {prog : Prog Row X ε β} {handler : ε → Prog Row X ε β}
    {Q : Except ε β → Local Row K → Sit Row X O Γ → Prop} {l : Local Row K} {s : Sit Row X O Γ}
    (holds : P.wp i op prog (P.catchPost i op handler Q) l s) :
    P.wp i op (prog.tryCatch handler) Q l s := by
  induction prog generalizing l s with
  | done result => cases result <;> exact holds
  | stmt on run next inductionHypothesis =>
    exact ⟨fun beside effect member allowed =>
        (holds.1 beside effect member allowed).mono fun _ _ => inductionHypothesis _,
      fun may s' env => inductionHypothesis _ (holds.2 may s' env)⟩
  | side fallible run next inductionHypothesis =>
    exact ⟨holds.1.mono fun _ => inductionHypothesis _,
      fun may faulty s' env => inductionHypothesis _ (holds.2 may faulty s' env)⟩
  | begin next inductionHypothesis =>
    exact ⟨fun s' env => inductionHypothesis _ (holds.1 s' env),
      fun faulty s' env => inductionHypothesis _ (holds.2 faulty s' env)⟩
  | commit next inductionHypothesis =>
    exact ⟨fun beside => (holds.1 beside).mono fun _ => inductionHypothesis _,
      fun faulty s' env => inductionHypothesis _ (holds.2 faulty s' env)⟩
  | rollback next inductionHypothesis => exact fun s' env => inductionHypothesis (holds s' env)

/-- What the body of a transaction must establish: on success for the commit, on an error
for the rollback. -/
abbrev transactionPost (P : Protocol (K := K) Row X ε O α Γ) (i : ℕ) (op : O)
    (Q : Except ε β → Local Row K → Sit Row X O Γ → Prop) :
    Except ε β → Local Row K → Sit Row X O Γ → Prop
  | .ok b, l, s =>
    (P.Alongside i op s → P.After i op s { l with txn := none } (s.db.applyAll l.writes) s.side
      fun s => Q (.ok b) { l with txn := none } s) ∧
    (P.faulty op → ∀ s', P.Env i op l s s' → ∀ s'', P.Env i op { l with txn := none } s' s'' →
      Q (.error (Host.fault X)) { l with txn := none } s'')
  | .error e, l, s =>
    ∀ s', P.Env i op { l with txn := none } s s' → Q (.error e) { l with txn := none } s'

theorem wp_transaction {i : ℕ} {op : O} {body : Prog Row X ε β}
    {Q : Except ε β → Local Row K → Sit Row X O Γ → Prop} {l : Local Row K} {s : Sit Row X O Γ}
    (inside : ∀ s', P.Env i op { l with txn := some ⟨Host.now s.side, []⟩ } s s' →
      P.wp i op body (P.transactionPost i op Q) { l with txn := some ⟨Host.now s.side, []⟩ } s')
    (refused : P.faulty op → ∀ s', P.Env i op l s s' → Q (.error (Host.fault X)) l s') :
    P.wp i op (.transaction body) Q l s := by
  refine ⟨fun s' env => wp_tryCatch (wp_bind (wp_mono ?_ (inside s' env))), refused⟩
  intro result l s
  cases result with
  | ok b =>
    intro holds
    exact ⟨holds.1, fun faulty s' env => holds.2 faulty s' env⟩
  | error e => exact fun holds => holds

end Protocol

end

end SwiftBite.Store
