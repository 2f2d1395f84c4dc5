import SwiftBite.Store.Table
import Mathlib.Logic.Function.Basic

/-! # Programs of database statements

A service call is a tree of atomic actions: SQL statements on the connection pool or in
the call's open transaction, actions on shared state outside the database (sequences, the
clock, a cache), and the three transaction commands.  The answer of each action selects
the continuation; a failed action hands its error to the continuation, so that
`try .. catch` of the source is `tryCatch` here.

`Prog.next` gives the meaning of one action.  A transaction keeps its writes to itself
until it commits, reads the committed rows changed by its own writes, and holds the rows
and index entries it has written: this is PostgreSQL's READ COMMITTED with row locks.

An action that fails has had no effect.  So a COMMIT that takes effect while its answer is lost
is not among the outcomes here: what comes close to it is a process that dies right after its
COMMIT.
-/

set_option autoImplicit false

namespace SwiftBite.Store

/-- Where a statement runs: on the connection pool, on its own, or in the open transaction. -/
inductive Conn where
  | pool
  | trx
  deriving DecidableEq

section

variable {T : Type} (Row : T → Type) (K : Type)

/-- A change of one row, or the lock of `SELECT .. FOR UPDATE`. -/
inductive Write where
  | insert (t : T) (row : Row t)
  | update (t : T) (k : K) (f : Row t → Row t)
  | lock (t : T) (k : K)

/-- What one statement does: its writes, the whole rows it shows to the call, and its
reply. -/
structure Effect (β : Type) where
  writes : List (Write Row K)
  seen : List (Sigma Row)
  reply : β

end

/-- What a writer holds until its transaction ends: a row, or an entry of a unique index. -/
inductive Entry (T K U : Type) where
  | row (t : T) (k : K)
  | index (t : T) (u : U)
  deriving DecidableEq

section

variable {T : Type} [DecidableEq T] {Row : T → Type} {K U : Type} [DecidableEq K] [DecidableEq U]
  [∀ t, Keyed (Row t) K U]

variable (Row) in
abbrev Db := ∀ t, Table (Row t)

def Write.entries : Write Row K → List (Entry T K U)
  | .insert t row => .row t (key row) :: (uniques row).map (.index t)
  | .update t k _ => [.row t k]
  | .lock t k => [.row t k]

/-- The table that a write is about. -/
def Write.table : Write Row K → T
  | .insert t _ => t
  | .update t _ _ => t
  | .lock t _ => t

omit [DecidableEq T] [DecidableEq K] [DecidableEq U] in
/-- A write holds rows of its own table only. -/
theorem Write.table_of_row_mem {w : Write Row K} {t : T} {k : K}
    (held : Entry.row t k ∈ (w.entries : List (Entry T K U))) : w.table = t := by
  cases w <;> simp_all [Write.entries, Write.table]

abbrev entriesOf (writes : List (Write Row K)) : List (Entry T K U) := writes.flatMap Write.entries

namespace Db

def apply (db : Db Row) : Write Row K → Db Row
  | .insert t row => Function.update db t ((db t).insert row)
  | .update t k f => Function.update db t ((db t).modify k f)
  | .lock _ _ => db

def applyAll (db : Db Row) (writes : List (Write Row K)) : Db Row := writes.foldl apply db

@[simp] theorem applyAll_nil (db : Db Row) : db.applyAll ([] : List (Write Row K)) = db := rfl

@[simp] theorem applyAll_cons (db : Db Row) (w : Write Row K) (ws : List (Write Row K)) :
    db.applyAll (w :: ws) = (db.apply w).applyAll ws := rfl

theorem applyAll_append (db : Db Row) (ws ws' : List (Write Row K)) :
    db.applyAll (ws ++ ws') = (db.applyAll ws).applyAll ws' :=
  List.foldl_append

@[simp] theorem apply_insert_self (db : Db Row) (t : T) (row : Row t) :
    db.apply (.insert t row : Write Row K) t = (db t).insert row := by
  simp [apply]

theorem apply_insert_ne (db : Db Row) {t t' : T} (row : Row t) (other : t' ≠ t) :
    db.apply (.insert t row : Write Row K) t' = db t' := by
  simp [apply, other]

@[simp] theorem apply_update_self (db : Db Row) (t : T) (k : K) (f : Row t → Row t) :
    db.apply (.update t k f) t = (db t).modify k f := by
  simp [apply]

theorem apply_update_ne (db : Db Row) {t t' : T} (k : K) (f : Row t → Row t) (other : t' ≠ t) :
    db.apply (.update t k f) t' = db t' := by
  simp [apply, other]

@[simp] theorem apply_lock (db : Db Row) (t : T) (k : K) : db.apply (.lock t k) = db := rfl

theorem apply_other (db : Db Row) {w : Write Row K} {t : T}
    (other : w.table ≠ t) : db.apply w t = db t := by
  cases w with
  | insert t' row => exact apply_insert_ne db row other.symm
  | update t' k f => exact apply_update_ne db k f other.symm
  | lock t' k => rfl

/-- Writes leave the tables that they are not about as they are. -/
theorem applyAll_other {ws : List (Write Row K)} {t : T} (others : ∀ w ∈ ws, w.table ≠ t)
    (db : Db Row) : db.applyAll ws t = db t := by
  induction ws generalizing db with
  | nil => rfl
  | cons w ws inductionHypothesis =>
    rw [applyAll_cons, inductionHypothesis fun w' member =>
      others w' (List.mem_cons_of_mem w member)]
    exact apply_other db (others w List.mem_cons_self)

theorem applyAll_append_other {ws ws' : List (Write Row K)} {t : T}
    (others : ∀ w ∈ ws', w.table ≠ t) (db : Db Row) :
    db.applyAll (ws ++ ws') t = db.applyAll ws t := by
  rw [applyAll_append, applyAll_other others]

theorem applyAll_concat_insert (db : Db Row) (ws : List (Write Row K)) (t : T) (row : Row t) :
    db.applyAll (ws ++ [.insert t row]) t = (db.applyAll ws t).insert row := by
  rw [applyAll_append]
  exact apply_insert_self _ t row

theorem applyAll_concat_update (db : Db Row) (ws : List (Write Row K)) (t : T) (k : K)
    (f : Row t → Row t) :
    db.applyAll (ws ++ [.update t k f]) t = (db.applyAll ws t).modify k f := by
  rw [applyAll_append]
  exact apply_update_self _ t k f

theorem applyAll_append_inserts (db : Db Row) (ws : List (Write Row K)) (t : T)
    (rows : List (Row t)) :
    db.applyAll (ws ++ rows.map (.insert t)) t = rows.foldl Table.insert (db.applyAll ws t) := by
  induction rows generalizing ws with
  | nil => simp
  | cons row rows inductionHypothesis =>
    have step := inductionHypothesis (ws ++ [.insert t row])
    rw [applyAll_concat_insert] at step
    simpa using step

@[simp] theorem applyAll_concat_lock (db : Db Row) (ws : List (Write Row K)) (t : T) (k : K) :
    db.applyAll (ws ++ [.lock t k]) = db.applyAll ws := by
  rw [applyAll_append]
  rfl

theorem applyAll_append_table {ws ws' : List (Write Row K)} {t t' : T}
    (about : ∀ w ∈ ws', w.table = t') (other : t' ≠ t) (db : Db Row) :
    db.applyAll (ws ++ ws') t = db.applyAll ws t :=
  applyAll_append_other (fun w member => by rw [about w member]; exact other) db

theorem applyAll_concat_insert_ne (db : Db Row) (ws : List (Write Row K)) {t t' : T} (row : Row t')
    (other : t' ≠ t) : db.applyAll (ws ++ [.insert t' row]) t = db.applyAll ws t :=
  applyAll_append_other (by simpa [Write.table] using other) db

theorem applyAll_concat_update_ne (db : Db Row) (ws : List (Write Row K)) {t t' : T} (k : K)
    (f : Row t' → Row t') (other : t' ≠ t) :
    db.applyAll (ws ++ [.update t' k f]) t = db.applyAll ws t :=
  applyAll_append_other (by simpa [Write.table] using other) db

/-- No write removes a row. -/
theorem isSome_get_apply {db : Db Row} {t : T} {k : K} (w : Write Row K)
    (there : ((db t).get k).isSome = true) : ((db.apply w t).get k).isSome = true := by
  obtain ⟨row, found⟩ := Option.isSome_iff_exists.1 there
  cases w with
  | insert t' row' =>
    by_cases same : t = t'
    · subst same
      simp [Table.get_insert_of_some found]
    · rwa [apply_insert_ne db row' same]
  | update t' k' f =>
    by_cases same : t = t'
    · subst same
      simp [Table.get_modify, found]
    · rwa [apply_update_ne db k' f same]
  | lock t' k' => exact there

theorem isSome_get_applyAll {db : Db Row} {t : T} {k : K} (ws : List (Write Row K))
    (there : ((db t).get k).isSome = true) : ((db.applyAll ws t).get k).isSome = true := by
  induction ws generalizing db with
  | nil => exact there
  | cons w ws inductionHypothesis => exact inductionHypothesis (isSome_get_apply w there)

/-- Some row of the table makes this entry in a unique index. -/
def Indexed (db : Db Row) (t : T) (u : U) : Prop := ∃ row ∈ (db t).rows, u ∈ uniques row

theorem indexed_apply {db : Db Row} {t : T} {u : U} (w : Write Row K) (there : db.Indexed t u) :
    (db.apply w).Indexed t u := by
  obtain ⟨row, member, entry⟩ := there
  cases w with
  | insert t' row' =>
    by_cases same : t = t'
    · subst same
      exact ⟨row, by rw [apply_insert_self]; exact Table.mem_insert_of_mem member, entry⟩
    · exact ⟨row, by rwa [apply_insert_ne db row' same], entry⟩
  | update t' k' f =>
    by_cases same : t = t'
    · subst same
      refine ⟨Table.rewrite k' f row, ?_, by rwa [Table.uniques_rewrite]⟩
      rw [apply_update_self]
      exact Table.mem_modify.2 ⟨row, member, rfl⟩
    · exact ⟨row, by rwa [apply_update_ne db k' f same], entry⟩
  | lock t' k' => exact ⟨row, member, entry⟩

/-- Rows and index entries stay. -/
structure Grows (db db' : Db Row) : Prop where
  rows : ∀ t k, ((db t).get k).isSome = true → ((db' t).get k).isSome = true
  entries : ∀ t u, db.Indexed t u → db'.Indexed t u

omit [DecidableEq T] [DecidableEq U] in
theorem Grows.refl (db : Db Row) : Grows db db := ⟨fun _ _ => id, fun _ _ => id⟩

omit [DecidableEq T] [DecidableEq U] in
theorem Grows.trans {db db' db'' : Db Row} (first : Grows db db')
    (second : Grows db' db'') : Grows db db'' :=
  ⟨fun t k there => second.rows t k (first.rows t k there),
    fun t u there => second.entries t u (first.entries t u there)⟩

theorem grows_applyAll (db : Db Row) (ws : List (Write Row K)) : Grows db (db.applyAll ws) := by
  refine ⟨fun t k => isSome_get_applyAll ws, fun t u there => ?_⟩
  induction ws generalizing db with
  | nil => exact there
  | cons w ws inductionHypothesis => exact inductionHypothesis _ (indexed_apply w there)

theorem grows_apply (db : Db Row) (w : Write Row K) : Grows db (db.apply w) := grows_applyAll db [w]

/-- Two states that agree on one row or index entry. -/
def Agree (db db' : Db Row) : Entry T K U → Prop
  | .row t k => (db' t).get k = (db t).get k
  | .index t u => db'.Indexed t u ↔ db.Indexed t u

omit [DecidableEq T] [DecidableEq U] in
theorem Agree.refl (db : Db Row) (e : Entry T K U) : Agree db db e := by
  cases e <;> simp [Agree]

omit [DecidableEq T] [DecidableEq U] in
theorem Agree.symm {db db' : Db Row} {e : Entry T K U}
    (agree : Agree db db' e) : Agree db' db e := by
  cases e with
  | row t k => exact Eq.symm agree
  | index t u => exact Iff.symm agree

omit [DecidableEq T] [DecidableEq U] in
theorem Agree.trans {db db' db'' : Db Row} {e : Entry T K U} (first : Agree db db' e)
    (second : Agree db' db'' e) : Agree db db'' e := by
  cases e with
  | row t k => exact Eq.trans second first
  | index t u => exact Iff.trans second first

/-- A write changes nothing but what it holds. -/
theorem agree_apply (db : Db Row) {w : Write Row K} {e : Entry T K U} (free : e ∉ w.entries) :
    Agree db (db.apply w) e := by
  cases w with
  | lock t k => exact .refl db e
  | update t k f =>
    simp only [Write.entries, List.mem_singleton] at free
    cases e with
    | row t' k' =>
      by_cases same : t' = t
      · subst same
        have other : k' ≠ k := fun eq => free (by rw [eq])
        simp [Agree, Table.get_modify_of_ne other]
      · simp [Agree, apply_update_ne db k f same]
    | index t' u =>
      simp only [Agree, Indexed]
      by_cases same : t' = t
      · subst same
        simp [Table.mem_modify]
      · rw [apply_update_ne db k f same]
  | insert t row =>
    simp only [Write.entries, List.mem_cons, List.mem_map, not_or, not_exists, not_and] at free
    cases e with
    | row t' k' =>
      by_cases same : t' = t
      · subst same
        have other : key row ≠ k' := fun eq => free.1 (by rw [eq])
        simp [Agree, Table.get_insert_of_ne other]
      · simp [Agree, apply_insert_ne db row same]
    | index t' u =>
      simp only [Agree, Indexed]
      by_cases same : t' = t
      · subst same
        rw [apply_insert_self]
        constructor
        · rintro ⟨other, member, entry⟩
          rcases Table.mem_insert member with old | rfl
          · exact ⟨other, old, entry⟩
          · exact absurd rfl (free.2 u entry)
        · rintro ⟨other, member, entry⟩
          exact ⟨other, Table.mem_insert_of_mem member, entry⟩
      · rw [apply_insert_ne db row same]

theorem agree_applyAll {ws : List (Write Row K)} {e : Entry T K U} (free : e ∉ entriesOf ws)
    (db : Db Row) : Agree db (db.applyAll ws) e := by
  induction ws generalizing db with
  | nil => exact .refl db e
  | cons w ws inductionHypothesis =>
    simp only [entriesOf, List.flatMap_cons, List.mem_append, not_or] at free
    exact (agree_apply db free.1).trans (inductionHypothesis free.2 _)

omit [DecidableEq T] in
theorem conflicts_eq_true {db : Db Row} {t : T} {row : Row t} :
    (db t).conflicts row = true ↔
      (db t).get (key row) ≠ none ∨ ∃ u ∈ uniques row, db.Indexed t u := by
  simp only [Table.conflicts, List.any_eq_true, Table.clashes, Bool.or_eq_true,
    decide_eq_true_eq, ne_eq,
    Table.get_eq_none, not_forall, not_not, Indexed]
  constructor
  · rintro ⟨other, member, same | ⟨u, left, right⟩⟩
    · exact .inl ⟨other, member, same⟩
    · exact .inr ⟨u, right, other, member, left⟩
  · rintro (⟨other, member, same⟩ | ⟨u, right, other, member, left⟩)
    · exact ⟨other, member, .inl same⟩
    · exact ⟨other, member, .inr ⟨u, left, right⟩⟩

omit [DecidableEq T] in
/-- Whether a row can be inserted depends on what the insertion holds. -/
theorem conflicts_congr {db db' : Db Row} {t : T} {row : Row t}
    (agree : ∀ e ∈ (Write.insert t row : Write Row K).entries, Agree db db' e) :
    (db' t).conflicts row = (db t).conflicts row := by
  have same : (db' t).get (key row) = (db t).get (key row) :=
    agree (.row t (key row)) List.mem_cons_self
  have entries : ∀ u ∈ uniques row, (db'.Indexed t u ↔ db.Indexed t u) := fun u member =>
    agree (.index t u) (List.mem_cons_of_mem _ (List.mem_map_of_mem member))
  rw [Bool.eq_iff_iff, conflicts_eq_true, conflicts_eq_true, same]
  exact or_congr_right (exists_congr fun u => and_congr_right fun member => entries u member)

/-- States that agree on what a write holds still agree after it. -/
theorem Agree.apply {db db' : Db Row} {w : Write Row K} (held : ∀ e ∈ w.entries, Agree db db' e)
    {e : Entry T K U} (agree : Agree db db' e) : Agree (db.apply w) (db'.apply w) e := by
  cases w with
  | lock t k => exact agree
  | update t k f =>
    cases e with
    | row t' k' =>
      by_cases same : t' = t
      · subst same
        simp only [Agree] at agree
        simp [Agree, Table.get_modify, agree]
      · simpa [Agree, apply_update_ne _ k f same] using agree
    | index t' u =>
      by_cases same : t' = t
      · subst same
        simpa [Agree, Indexed, Table.mem_modify] using agree
      · simpa [Agree, Indexed, apply_update_ne _ k f same] using agree
  | insert t row =>
    -- They agree on the entries of the row, so the insert conflicts in both or in neither.
    have taken := conflicts_congr held
    cases e with
    | row t' k' =>
      by_cases same : t' = t
      · subst same
        simp only [Agree] at agree
        cases free : (db t').conflicts row with
        | true =>
          simpa [Agree, Table.insert_of_conflicts free,
            Table.insert_of_conflicts (taken.trans free)] using agree
        | false =>
          by_cases own : key row = k'
          · subst own
            simp [Agree, Table.get_insert_self free, Table.get_insert_self (taken.trans free)]
          · simpa [Agree, Table.get_insert_of_ne own] using agree
      · simpa [Agree, apply_insert_ne _ row same] using agree
    | index t' u =>
      by_cases same : t' = t
      · subst same
        simp only [Agree, Indexed] at agree
        cases free : (db t').conflicts row with
        | true =>
          simpa [Agree, Indexed, Table.insert_of_conflicts free,
            Table.insert_of_conflicts (taken.trans free)]
            using agree
        | false =>
          simp only [Agree, Indexed, apply_insert_self, Table.rows_insert free,
            Table.rows_insert (taken.trans free),
            List.mem_append, List.mem_singleton, or_and_right, exists_or, exists_eq_left]
          rw [agree]
      · simpa [Agree, Indexed, apply_insert_ne _ row same] using agree

theorem Agree.applyAll {ws : List (Write Row K)} {db db' : Db Row}
    (held : ∀ e ∈ entriesOf ws, Agree db db' e) {e : Entry T K U} (agree : Agree db db' e) :
    Agree (db.applyAll ws) (db'.applyAll ws) e := by
  induction ws generalizing db db' with
  | nil => exact agree
  | cons w ws inductionHypothesis =>
    simp only [entriesOf, List.flatMap_cons, List.mem_append] at held
    have first : ∀ e ∈ w.entries, Agree db db' e := fun e member => held e (.inl member)
    exact inductionHypothesis (fun e member => Agree.apply first (held e (.inr member)))
      (Agree.apply first agree)

end Db

/-! ## Programs -/

variable (Row) in
/-- A call that ends with a value of type `α` or an error. -/
inductive Prog (X ε α : Type) : Type 1 where
  /-- The call has returned or thrown. -/
  | done (result : Except ε α)
  /-- One SQL statement.  It reads the state at a point in time (`NOW()`) and has a list of
  possible outcomes; `none` is the violation of a constraint. -/
  | stmt {β : Type} (on : Conn) (run : ℕ → Db Row → List (Option (Effect Row K β)))
      (next : Except ε β → Prog X ε α)
  /-- An action on the shared state outside the database. -/
  | side {β : Type} (fallible : Bool) (run : X → Except ε β × X) (next : Except ε β → Prog X ε α)
  | begin (next : Except ε Unit → Prog X ε α)
  | commit (next : Except ε Unit → Prog X ε α)
  | rollback (next : Prog X ε α)

namespace Prog

variable {X ε α β : Type}

def bind : Prog Row X ε α → (α → Prog Row X ε β) → Prog Row X ε β
  | done (.ok a), f => f a
  | done (.error e), _ => done (.error e)
  | stmt on run next, f => stmt on run fun answer => (next answer).bind f
  | side fallible run next, f => side fallible run fun answer => (next answer).bind f
  | begin next, f => begin fun answer => (next answer).bind f
  | commit next, f => commit fun answer => (next answer).bind f
  | rollback next, f => rollback (next.bind f)

def tryCatch : Prog Row X ε α → (ε → Prog Row X ε α) → Prog Row X ε α
  | done (.ok a), _ => done (.ok a)
  | done (.error e), handler => handler e
  | stmt on run next, handler => stmt on run fun answer => (next answer).tryCatch handler
  | side fallible run next, handler =>
    side fallible run fun answer => (next answer).tryCatch handler
  | begin next, handler => begin fun answer => (next answer).tryCatch handler
  | commit next, handler => commit fun answer => (next answer).tryCatch handler
  | rollback next, handler => rollback (next.tryCatch handler)

omit [DecidableEq T] [DecidableEq K] [DecidableEq U] in
theorem bind_assoc {γ : Type} (prog : Prog Row X ε α) (f : α → Prog Row X ε β)
    (g : β → Prog Row X ε γ) : (prog.bind f).bind g = prog.bind fun a => (f a).bind g := by
  induction prog with
  | done result => cases result <;> rfl
  | stmt on run next inductionHypothesis => simp only [bind, inductionHypothesis]
  | side fallible run next inductionHypothesis => simp only [bind, inductionHypothesis]
  | begin next inductionHypothesis => simp only [bind, inductionHypothesis]
  | commit next inductionHypothesis => simp only [bind, inductionHypothesis]
  | rollback next inductionHypothesis => simp only [bind, inductionHypothesis]

instance : Monad (Prog Row X ε) where
  pure a := done (.ok a)
  bind := bind

instance : MonadExceptOf ε (Prog Row X ε) where
  throw e := done (.error e)
  tryCatch := tryCatch

def exec (on : Conn) (run : ℕ → Db Row → List (Option (Effect Row K β))) : Prog Row X ε β :=
  stmt on run done

def act (run : X → Except ε β × X) : Prog Row X ε β := side true run done

/-- An action that cannot fail. -/
def sure (run : X → β × X) : Prog Row X ε β := side false (fun x => (.ok (run x).1, (run x).2)) done

def ofExcept (answer : Except ε β) : Prog Row X ε β := done answer

def beginTrx : Prog Row X ε Unit := begin done

def commitTrx : Prog Row X ε Unit := commit done

def rollbackTrx : Prog Row X ε Unit := rollback (done (.ok ()))

/-- `const trx = await conn.transaction(); try { body; commit } catch { rollback; throw }`. -/
def transaction (body : Prog Row X ε α) : Prog Row X ε α :=
  begin fun
    | .error e => done (.error e)
    | .ok () =>
      (body.bind fun a => commit fun
        | .ok () => done (.ok a)
        | .error e => done (.error e)).tryCatch fun e => rollback (done (.error e))

end Prog

/-! ## The meaning of one action -/

/-- The part of the shared state that the statements themselves need. -/
class Host (X : Type) (ε : outParam Type) where
  now : X → ℕ
  /-- The error of a statement that fails, for whatever reason. -/
  fault : ε

variable (Row K) in
structure Txn where
  began : ℕ
  writes : List (Write Row K)

variable (Row K) in
/-- What belongs to one call: its open transaction, and the rows shown to it, the latest
first. -/
structure Local where
  txn : Option (Txn Row K)
  seen : List (Sigma Row)

namespace Local

def start : Local Row K := ⟨none, []⟩

def writes (l : Local Row K) : List (Write Row K) := (l.txn.map Txn.writes).getD []

/-- What the call's open transaction holds. -/
def held (l : Local Row K) : List (Entry T K U) := entriesOf l.writes

/-- The row with this key, as the call saw it last. -/
def lastSeen (l : Local Row K) (t : T) (k : K) : Option (Row t) :=
  l.seen.findSome? fun shown =>
    if same : shown.1 = t then
      if key (same ▸ shown.2 : Row t) = k then some (same ▸ shown.2) else none
    else none

omit [DecidableEq U] in
@[simp] theorem lastSeen_cons_self (txn : Option (Txn Row K)) (t : T) (row : Row t)
    (seen : List (Sigma Row)) :
    (⟨txn, ⟨t, row⟩ :: seen⟩ : Local Row K).lastSeen t (key row) = some row := by
  simp [lastSeen]

omit [DecidableEq U] in
theorem lastSeen_cons_table (txn : Option (Txn Row K)) {t t' : T} (row : Row t')
    (seen : List (Sigma Row)) (k : K) (other : t' ≠ t) :
    (⟨txn, ⟨t', row⟩ :: seen⟩ : Local Row K).lastSeen t k =
      (⟨txn, seen⟩ : Local Row K).lastSeen t k := by
  simp [lastSeen, other]

/-- The state a statement reads. -/
def view (l : Local Row K) (db : Db Row) : Conn → Db Row
  | .pool => db
  | .trx => db.applyAll l.writes

def saw (l : Local Row K) (rows : List (Sigma Row)) : Local Row K :=
  { l with seen := rows ++ l.seen }

omit [DecidableEq T] [DecidableEq K] in
@[simp] theorem saw_nil (l : Local Row K) : l.saw [] = l := rfl

end Local

inductive Choice where
  /-- The action takes its `n`-th outcome. -/
  | pick (n : ℕ)
  /-- The action fails. -/
  | fault
  deriving DecidableEq

variable (Row) in
/-- The situation after one action, and the writes it made on the way. -/
structure Outcome (X ε α : Type) where
  prog : Prog Row X ε α
  loc : Local Row K
  db : Db Row
  side : X
  acquired : List (Write Row K)

namespace Prog

variable {X ε α β : Type} [Host X ε]

/-- A statement that did not fail: on the pool its writes are committed at once, in a
transaction they are kept. -/
def perform (on : Conn) (effect : Effect Row K β) (next : Except ε β → Prog Row X ε α)
    (l : Local Row K) (db : Db Row) (x : X) : Outcome Row X ε α :=
  match on, l.txn with
  | .pool, _ =>
    ⟨next (.ok effect.reply), l.saw effect.seen, db.applyAll effect.writes, x, effect.writes⟩
  | .trx, some txn =>
    ⟨next (.ok effect.reply),
      { txn := some { txn with
        writes := txn.writes ++ effect.writes }, seen := effect.seen ++ l.seen },
      db, x, effect.writes⟩
  | .trx, none => ⟨next (.error (Host.fault X)), l, db, x, []⟩

/-- The time a statement takes for `NOW()`: the start of its transaction. -/
def instant (on : Conn) (l : Local Row K) (x : X) : ℕ :=
  match on, l.txn with
  | .trx, some txn => txn.began
  | _, _ => Host.now x

def next (choice : Choice) (l : Local Row K) (db : Db Row) (x : X) :
    Prog Row X ε α → Option (Outcome Row X ε α)
  | done _ => none
  | stmt on run next =>
    match choice with
    | .fault => some ⟨next (.error (Host.fault X)), l, db, x, []⟩
    | .pick n =>
      match (run (instant on l x) (l.view db on))[n]? with
      | none => none
      | some none => some ⟨next (.error (Host.fault X)), l, db, x, []⟩
      | some (some effect) => some (perform on effect next l db x)
  | side fallible run next =>
    match choice with
    | .fault => if fallible then some ⟨next (.error (Host.fault X)), l, db, x, []⟩ else none
    | .pick 0 => some ⟨next (run x).1, l, db, (run x).2, []⟩
    | .pick _ => none
  | begin next =>
    match choice with
    | .fault => some ⟨next (.error (Host.fault X)), l, db, x, []⟩
    | .pick 0 => some ⟨next (.ok ()), { l with txn := some ⟨Host.now x, []⟩ }, db, x, []⟩
    | .pick _ => none
  | commit next =>
    match choice with
    | .fault => some ⟨next (.error (Host.fault X)), l, db, x, []⟩
    | .pick 0 => some ⟨next (.ok ()), { l with txn := none }, db.applyAll l.writes, x, []⟩
    | .pick _ => none
  | rollback next =>
    match choice with
    | .pick 0 => some ⟨next, { l with txn := none }, db, x, []⟩
    | _ => none

/-- What one action can do. -/
inductive Step (l : Local Row K) (db : Db Row) (x : X) :
    Choice → Prog Row X ε α → Outcome Row X ε α → Prop
  | stmtFails {γ : Type} {on : Conn} {run : ℕ → Db Row → List (Option (Effect Row K γ))}
      {next : Except ε γ → Prog Row X ε α} {choice : Choice}
      (cause : choice = .fault ∨ none ∈ run (instant on l x) (l.view db on) ∨
        (on = .trx ∧ l.txn = none)) :
      Step l db x choice (stmt on run next) ⟨next (.error (Host.fault X)), l, db, x, []⟩
  | onPool {γ : Type} {run : ℕ → Db Row → List (Option (Effect Row K γ))}
      {next : Except ε γ → Prog Row X ε α} {n : ℕ} {effect : Effect Row K γ}
      (member : some effect ∈ run (Host.now x) db) :
      Step l db x (.pick n) (stmt .pool run next)
        ⟨next (.ok effect.reply), l.saw effect.seen, db.applyAll effect.writes, x, effect.writes⟩
  | inTrx {γ : Type} {run : ℕ → Db Row → List (Option (Effect Row K γ))}
      {next : Except ε γ → Prog Row X ε α} {n : ℕ} {effect : Effect Row K γ} {txn : Txn Row K}
      (running : l.txn = some txn)
      (member : some effect ∈ run (instant .trx l x) (l.view db .trx)) :
      Step l db x (.pick n) (stmt .trx run next)
        ⟨next (.ok effect.reply),
          { txn := some { txn with
            writes := txn.writes ++ effect.writes }, seen := effect.seen ++ l.seen },
          db, x, effect.writes⟩
  | sideFails {γ : Type} {run : X → Except ε γ × X} {next : Except ε γ → Prog Row X ε α} :
      Step l db x .fault (side true run next) ⟨next (.error (Host.fault X)), l, db, x, []⟩
  | sideActs {γ : Type} {fallible : Bool} {run : X → Except ε γ × X}
      {next : Except ε γ → Prog Row X ε α} :
      Step l db x (.pick 0) (side fallible run next) ⟨next (run x).1, l, db, (run x).2, []⟩
  | beginFails {next : Except ε Unit → Prog Row X ε α} :
      Step l db x .fault (begin next) ⟨next (.error (Host.fault X)), l, db, x, []⟩
  | begins {next : Except ε Unit → Prog Row X ε α} :
      Step l db x (.pick 0) (begin next)
        ⟨next (.ok ()), { l with txn := some ⟨Host.now x, []⟩ }, db, x, []⟩
  | commitFails {next : Except ε Unit → Prog Row X ε α} :
      Step l db x .fault (commit next) ⟨next (.error (Host.fault X)), l, db, x, []⟩
  | commits {next : Except ε Unit → Prog Row X ε α} :
      Step l db x (.pick 0) (commit next)
        ⟨next (.ok ()), { l with txn := none }, db.applyAll l.writes, x, []⟩
  | rollsBack {next : Prog Row X ε α} :
      Step l db x (.pick 0) (rollback next) ⟨next, { l with txn := none }, db, x, []⟩

theorem step_of_next {choice : Choice} {prog : Prog Row X ε α} {l : Local Row K} {db : Db Row}
    {x : X} {out : Outcome Row X ε α} (acts : prog.next choice l db x = some out) :
    Step l db x choice prog out := by
  cases prog with
  | done result => cases acts
  | stmt on run next =>
    cases choice with
    | fault => cases acts; exact .stmtFails (.inl rfl)
    | pick n =>
      simp only [Prog.next] at acts
      split at acts
      · cases acts
      next constraint =>
        cases acts
        exact .stmtFails (.inr (.inl (List.mem_of_getElem? constraint)))
      next effect found =>
        cases acts
        have member := List.mem_of_getElem? found
        cases on with
        | pool => exact .onPool member
        | trx =>
          obtain ⟨txn, seen⟩ := l
          -- Without a transaction under way the connection refuses the statement.
          cases txn with
          | none => exact .stmtFails (.inr (.inr ⟨rfl, rfl⟩))
          | some txn => exact .inTrx rfl member
  | side fallible run next =>
    cases choice with
    | fault =>
      cases fallible with
      | true => cases acts; exact .sideFails
      | false => cases acts
    | pick n =>
      cases n with
      | zero => cases acts; exact .sideActs
      | succ n => cases acts
  | begin next =>
    cases choice with
    | fault => cases acts; exact .beginFails
    | pick n =>
      cases n with
      | zero => cases acts; exact .begins
      | succ n => cases acts
  | commit next =>
    cases choice with
    | fault => cases acts; exact .commitFails
    | pick n =>
      cases n with
      | zero => cases acts; exact .commits
      | succ n => cases acts
  | rollback next =>
    cases choice with
    | fault => cases acts
    | pick n =>
      cases n with
      | zero => cases acts; exact .rollsBack
      | succ n => cases acts

/-- A statement on the pool fails, or has one of its outcomes. -/
theorem next_pool {run : ℕ → Db Row → List (Option (Effect Row K β))}
    {following : Except ε β → Prog Row X ε α} {choice : Choice} {l : Local Row K} {db : Db Row}
    {x : X} {out : Outcome Row X ε α}
    (acts : (stmt .pool run following).next choice l db x = some out) :
    out = ⟨following (.error (Host.fault X)), l, db, x, []⟩ ∨
    ∃ effect, some effect ∈ run (Host.now x) db ∧
      out = ⟨following (.ok effect.reply), l.saw effect.seen, db.applyAll effect.writes, x,
        effect.writes⟩ := by
  cases step_of_next acts with
  | stmtFails _ => exact .inl rfl
  | onPool member => exact .inr ⟨_, member, rfl⟩

theorem next_sure {run : X → Except ε β × X} {following : Except ε β → Prog Row X ε α}
    {choice : Choice} {l : Local Row K} {db : Db Row} {x : X} {out : Outcome Row X ε α}
    (acts : (side false run following).next choice l db x = some out) :
    out = ⟨following (run x).1, l, db, (run x).2, []⟩ := by
  cases step_of_next acts
  rfl

/-- An action on the shared state fails, or is taken. -/
theorem next_act {run : X → Except ε β × X} {following : Except ε β → Prog Row X ε α}
    {choice : Choice} {l : Local Row K} {db : Db Row} {x : X} {out : Outcome Row X ε α}
    (acts : (side true run following).next choice l db x = some out) :
    out = ⟨following (.error (Host.fault X)), l, db, x, []⟩ ∨
    out = ⟨following (run x).1, l, db, (run x).2, []⟩ := by
  cases step_of_next acts with
  | sideFails => exact .inl rfl
  | sideActs => exact .inr rfl

end Prog

end

end SwiftBite.Store
