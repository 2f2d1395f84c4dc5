import Mathlib.Data.List.Nodup
import Mathlib.Data.List.Pairwise
import Mathlib.Algebra.BigOperators.Group.List.Basic
import Mathlib.Tactic.Ring

/-! # Keyed tables

A table is the list of its rows, together with the fact that no two rows share a
primary key or an entry of a unique index.  The operations are the ones an SQL
statement performs on one table: lookup by key, insertion of a new row, change of
the row with a given key, removal of rows.  Every operation is total; one that would
break a unique index leaves the table as it is.
-/

set_option autoImplicit false

namespace SwiftBite.Store

/-- How rows are identified: their primary key, and their entries in the unique
indexes. -/
class Keyed (ρ : Type) (κ υ : outParam Type) where
  key : ρ → κ
  uniques : ρ → List υ

export Keyed (key uniques)

section

variable {ρ κ υ : Type} [Keyed ρ κ υ]

/-- Two rows that may stand in one table. -/
def Apart (a b : ρ) : Prop := key a ≠ key b ∧ (uniques a).Disjoint (uniques b)

instance : Std.Symm (Apart (ρ := ρ)) where
  symm _ _ apart := ⟨apart.1.symm, fun _ right left => apart.2 left right⟩

variable (ρ) in
structure Table where
  rows : List ρ
  distinct : rows.Pairwise Apart

namespace Table

variable [DecidableEq κ] [DecidableEq υ]

/-- Row `a` stands in the way of inserting `b`. -/
def clashes (a b : ρ) : Bool :=
  key a = key b || (uniques a).any fun entry => entry ∈ uniques b

theorem apart_of_not_clashes {a b : ρ} (free : clashes a b = false) : Apart a b := by
  simp only [clashes, Bool.or_eq_false_iff, decide_eq_false_iff_not, List.any_eq_false,
    decide_eq_true_eq] at free
  exact ⟨free.1, fun entry left right => free.2 entry left right⟩

theorem not_clashes_of_apart {a b : ρ} (apart : Apart a b) : clashes a b = false := by
  simp only [clashes, Bool.or_eq_false_iff, decide_eq_false_iff_not, List.any_eq_false,
    decide_eq_true_eq]
  exact ⟨apart.1, fun entry left right => apart.2 left right⟩

def empty : Table ρ := ⟨[], .nil⟩

instance : Inhabited (Table ρ) := ⟨empty⟩

/-- The row with the given key. -/
def get (table : Table ρ) (k : κ) : Option ρ := table.rows.find? fun row => key row = k

def conflicts (table : Table ρ) (row : ρ) : Bool := table.rows.any fun other => clashes other row

/-- `INSERT`: the new row goes to the end, unless it breaks an index. -/
def insert (table : Table ρ) (row : ρ) : Table ρ :=
  if free : table.conflicts row = true then table
  else
    { rows := table.rows ++ [row]
      distinct := by
        simp only [conflicts, List.any_eq_true, not_exists, not_and, Bool.not_eq_true] at free
        refine List.pairwise_append.2 ⟨table.distinct, List.pairwise_singleton _ _, ?_⟩
        intro a member b single
        rw [List.mem_singleton.1 single]
        exact apart_of_not_clashes (free a member) }

/-- The changed row, if the change keeps the row's key and index entries. -/
def keepIdentity (row changed : ρ) : ρ :=
  if key changed = key row ∧ uniques changed = uniques row then changed else row

@[simp] theorem key_keepIdentity (row changed : ρ) : key (keepIdentity row changed) = key row := by
  unfold keepIdentity; split <;> simp_all

@[simp] theorem uniques_keepIdentity (row changed : ρ) :
    uniques (keepIdentity row changed) = uniques row := by
  unfold keepIdentity; split <;> simp_all

theorem keepIdentity_eq {row changed : ρ} (sameKey : key changed = key row)
    (sameUniques : uniques changed = uniques row) : keepIdentity row changed = changed :=
  if_pos ⟨sameKey, sameUniques⟩

/-- One row under an `UPDATE .. WHERE key = k`. -/
def rewrite (k : κ) (f : ρ → ρ) (row : ρ) : ρ :=
  if key row = k then keepIdentity row (f row) else row

@[simp] theorem key_rewrite (k : κ) (f : ρ → ρ) (row : ρ) : key (rewrite k f row) = key row := by
  unfold rewrite; split <;> simp

@[simp] theorem uniques_rewrite (k : κ) (f : ρ → ρ) (row : ρ) :
    uniques (rewrite k f row) = uniques row := by
  unfold rewrite; split <;> simp

/-- `UPDATE .. WHERE key = k`. -/
def modify (table : Table ρ) (k : κ) (f : ρ → ρ) : Table ρ where
  rows := table.rows.map (rewrite k f)
  distinct := by
    rw [List.pairwise_map]
    exact table.distinct.imp fun apart => by simpa [Apart] using apart

/-- `DELETE .. WHERE gone`. -/
def delete (table : Table ρ) (gone : ρ → Bool) : Table ρ where
  rows := table.rows.filter fun row => !gone row
  distinct := table.distinct.filter _

/-! ## Lookup and membership -/

omit [DecidableEq υ] in
theorem get_mem {table : Table ρ} {k : κ} {row : ρ} (found : table.get k = some row) :
    row ∈ table.rows :=
  List.mem_of_find?_eq_some found

omit [DecidableEq υ] in
theorem get_key {table : Table ρ} {k : κ} {row : ρ}
    (found : table.get k = some row) : key row = k := by
  simpa using List.find?_some found

omit [DecidableEq κ] [DecidableEq υ] in
theorem eq_of_key {table : Table ρ} {a b : ρ} (ha : a ∈ table.rows) (hb : b ∈ table.rows)
    (same : key a = key b) : a = b := by
  by_contra different
  exact (table.distinct.forall ha hb different).1 same

omit [DecidableEq κ] [DecidableEq υ] in
theorem eq_of_unique {table : Table ρ} {a b : ρ} {entry : υ} (ha : a ∈ table.rows)
    (hb : b ∈ table.rows) (left : entry ∈ uniques a) (right : entry ∈ uniques b) : a = b := by
  by_contra different
  exact (table.distinct.forall ha hb different).2 left right

omit [DecidableEq υ] in
theorem get_of_mem {table : Table ρ} {row : ρ} (member : row ∈ table.rows) :
    table.get (key row) = some row := by
  cases found : table.get (key row) with
  | none =>
    have := List.find?_eq_none.1 found row member
    simp at this
  | some other => rw [eq_of_key (get_mem found) member (get_key found)]

omit [DecidableEq υ] in
theorem get_eq_some {table : Table ρ} {k : κ} {row : ρ} :
    table.get k = some row ↔ row ∈ table.rows ∧ key row = k := by
  constructor
  · exact fun found => ⟨get_mem found, get_key found⟩
  · rintro ⟨member, rfl⟩
    exact get_of_mem member

omit [DecidableEq υ] in
theorem get_eq_none {table : Table ρ} {k : κ} :
    table.get k = none ↔ ∀ row ∈ table.rows, key row ≠ k := by
  simp [get, List.find?_eq_none]

omit [DecidableEq κ] [DecidableEq υ] in
theorem rows_nodup (table : Table ρ) : table.rows.Nodup :=
  table.distinct.imp fun apart same => apart.1 (congrArg key same)

omit [DecidableEq υ] in
@[simp] theorem get_empty (k : κ) : (empty : Table ρ).get k = none := rfl

omit [DecidableEq κ] [DecidableEq υ] in
@[simp] theorem rows_empty : (empty : Table ρ).rows = [] := rfl

/-! ## Insertion -/

theorem conflicts_eq_false {table : Table ρ} {row : ρ} :
    table.conflicts row = false ↔ ∀ other ∈ table.rows, clashes other row = false := by
  simp [conflicts]

theorem rows_insert {table : Table ρ} {row : ρ} (free : table.conflicts row = false) :
    (table.insert row).rows = table.rows ++ [row] := by
  simp [insert, free]

theorem mem_insert_self {table : Table ρ} {row : ρ} (free : table.conflicts row = false) :
    row ∈ (table.insert row).rows := by
  simp [rows_insert free]

theorem insert_of_conflicts {table : Table ρ} {row : ρ} (taken : table.conflicts row = true) :
    table.insert row = table := by
  simp [insert, taken]

theorem mem_insert {table : Table ρ} {row other : ρ} (member : other ∈ (table.insert row).rows) :
    other ∈ table.rows ∨ other = row := by
  cases free : table.conflicts row with
  | true => rw [insert_of_conflicts free] at member; exact .inl member
  | false => simpa [rows_insert free] using member

theorem mem_insert_of_mem {table : Table ρ} {row other : ρ} (member : other ∈ table.rows) :
    other ∈ (table.insert row).rows := by
  cases free : table.conflicts row with
  | true => rwa [insert_of_conflicts free]
  | false => simp [rows_insert free, member]

theorem get_insert_of_ne {table : Table ρ} {row : ρ} {k : κ} (other : key row ≠ k) :
    (table.insert row).get k = table.get k := by
  cases free : table.conflicts row with
  | true => rw [insert_of_conflicts free]
  | false =>
    unfold get
    rw [rows_insert free, List.find?_append]
    simp [other]

theorem get_insert_of_some {table : Table ρ} {row old : ρ} {k : κ}
    (found : table.get k = some old) : (table.insert row).get k = some old :=
  get_eq_some.2 ⟨mem_insert_of_mem (get_mem found), get_key found⟩

theorem get_insert_self {table : Table ρ} {row : ρ} (free : table.conflicts row = false) :
    (table.insert row).get (key row) = some row :=
  get_eq_some.2 ⟨by simp [rows_insert free], rfl⟩

theorem get_eq_none_of_free {table : Table ρ} {row : ρ} (free : table.conflicts row = false) :
    table.get (key row) = none := by
  rw [get_eq_none]
  intro other member
  exact (apart_of_not_clashes (conflicts_eq_false.1 free other member)).1

/-! ## Change of one row -/

theorem get_modify (table : Table ρ) (k k' : κ) (f : ρ → ρ) :
    (table.modify k f).get k' = (table.get k').map (rewrite k f) := by
  unfold get modify
  simp [List.find?_map, Function.comp_def]

theorem get_modify_of_ne {table : Table ρ} {k k' : κ} {f : ρ → ρ} (other : k' ≠ k) :
    (table.modify k f).get k' = table.get k' := by
  rw [get_modify]
  cases found : table.get k' with
  | none => rfl
  | some row => simp [rewrite, get_key found, other]

theorem mem_modify {table : Table ρ} {k : κ} {f : ρ → ρ} {row : ρ} :
    row ∈ (table.modify k f).rows ↔ ∃ old ∈ table.rows, rewrite k f old = row := by
  simp [modify]

theorem rewrite_of_ne {k : κ} {f : ρ → ρ} {row : ρ} (other : key row ≠ k) : rewrite k f row = row :=
  if_neg other

/-- A change of a row that is not there. -/
theorem modify_of_absent {table : Table ρ} {k : κ} {f : ρ → ρ} (absent : table.get k = none) :
    table.modify k f = table := by
  have same : table.rows.map (rewrite k f) = table.rows :=
    calc table.rows.map (rewrite k f) = table.rows.map id :=
          List.map_congr_left fun row member => rewrite_of_ne (get_eq_none.1 absent row member)
      _ = table.rows := List.map_id _
  obtain ⟨rows, distinct⟩ := table
  simp only [modify, same]

theorem conflicts_of_identity {table : Table ρ} {row row' : ρ} (free : table.conflicts row = false)
    (sameKey : key row' = key row) (sameUniques : uniques row' = uniques row) :
    table.conflicts row' = false := by
  simpa only [conflicts, clashes, sameKey, sameUniques] using free

/-- A change of the row that was inserted last. -/
theorem modify_insert_self {table : Table ρ} {row : ρ} {f : ρ → ρ}
    (free : table.conflicts row = false) (sameKey : key (f row) = key row)
    (sameUniques : uniques (f row) = uniques row) :
    (table.insert row).modify (key row) f = table.insert (f row) := by
  have others : table.rows.map (rewrite (key row) f) = table.rows :=
    congrArg Table.rows (modify_of_absent (f := f) (get_eq_none_of_free free))
  have same : ((table.insert row).modify (key row) f).rows = (table.insert (f row)).rows := by
    simp only [modify, rows_insert free,
      rows_insert (conflicts_of_identity free sameKey sameUniques), List.map_append, others]
    simp [rewrite, keepIdentity_eq sameKey sameUniques]
  cases changed : (table.insert row).modify (key row) f
  cases inserted : table.insert (f row)
  simpa [changed, inserted] using same

theorem rewrite_of_eq {k : κ} {f : ρ → ρ} {row : ρ} (same : key row = k) :
    rewrite k f row = keepIdentity row (f row) :=
  if_pos same

/-- A property that the change keeps on every row is kept by the table. -/
theorem rewrite_induction {motive : ρ → Prop} {k : κ} {f : ρ → ρ} {row : ρ} (unchanged : motive row)
    (changed : motive (f row)) : motive (rewrite k f row) := by
  unfold rewrite keepIdentity
  split
  · split
    · exact changed
    · exact unchanged
  · exact unchanged

/-- A quantity that the change keeps is the same on the rewritten row. -/
theorem rewrite_congr {α : Type} {g : ρ → α} {k : κ} {f : ρ → ρ} (kept : ∀ row, g (f row) = g row)
    (row : ρ) : g (rewrite k f row) = g row :=
  rewrite_induction (motive := fun changed => g changed = g row) rfl (kept row)

/-- A quantity that the change keeps reads the same before and after it. -/
theorem map_get_modify {α : Type} {g : ρ → α} {f : ρ → ρ} (kept : ∀ row, g (f row) = g row)
    (table : Table ρ) (k k' : κ) : ((table.modify k f).get k').map g = (table.get k').map g := by
  rw [get_modify, Option.map_map]
  exact congrArg (Option.map · (table.get k')) (funext (rewrite_congr kept))

/-- The changed row, where the change keeps the key and the index entries. -/
theorem get_modify_self {table : Table ρ} {k : κ} {f : ρ → ρ} {row : ρ}
    (found : table.get k = some row) (sameKey : key (f row) = key row)
    (sameUniques : uniques (f row) = uniques row) : (table.modify k f).get k = some (f row) := by
  rw [get_modify, found, Option.map_some, rewrite_of_eq (get_key found),
    keepIdentity_eq sameKey sameUniques]

/-! ## Removal -/

/-- The change of several rows, each by its key. -/
theorem get_modifyAll {f : ρ → ρ} {ks : List κ} (distinct : ks.Nodup) (table : Table ρ) (k : κ) :
    (ks.foldl (fun table k => table.modify k f) table).get k =
      if k ∈ ks then (table.get k).map fun row => keepIdentity row (f row) else table.get k := by
  induction ks generalizing table with
  | nil => simp
  | cons k' ks inductionHypothesis =>
    obtain ⟨notLater, distinct⟩ := List.nodup_cons.1 distinct
    rw [List.foldl_cons, inductionHypothesis distinct, get_modify]
    by_cases same : k = k'
    · subst same
      rw [if_neg notLater, if_pos List.mem_cons_self]
      cases found : table.get k with
      | none => rfl
      | some row => simp [rewrite_of_eq (get_key found)]
    · have untouched : (table.get k).map (rewrite k' f) = table.get k := by
        cases found : table.get k with
        | none => rfl
        | some row => simp [rewrite_of_ne (k := k') (f := f) (by rw [get_key found]; exact same)]
      simp [untouched, same]

omit [DecidableEq κ] [DecidableEq υ] in
theorem mem_delete {table : Table ρ} {gone : ρ → Bool} {row : ρ} :
    row ∈ (table.delete gone).rows ↔ row ∈ table.rows ∧ gone row = false := by
  simp [delete]

/-! ## Sums over a table -/

/-- The sum of a quantity over all rows. -/
def total (table : Table ρ) (amount : ρ → ℤ) : ℤ := (table.rows.map amount).sum

theorem total_insert {table : Table ρ} {row : ρ} (free : table.conflicts row = false)
    (amount : ρ → ℤ) : (table.insert row).total amount = table.total amount + amount row := by
  simp [total, rows_insert free]

omit [DecidableEq κ] [DecidableEq υ] in
theorem total_congr {table : Table ρ} {amount amount' : ρ → ℤ}
    (same : ∀ row ∈ table.rows, amount row = amount' row) :
    table.total amount = table.total amount' := by
  unfold total
  rw [List.map_congr_left same]

theorem total_modify (table : Table ρ) (k : κ) (f : ρ → ρ) (amount : ρ → ℤ) :
    (table.modify k f).total amount = table.total fun row => amount (rewrite k f row) := by
  simp [total, modify, List.map_map, Function.comp_def]

omit [DecidableEq κ] [DecidableEq υ] in
theorem total_le {table : Table ρ} {amount amount' : ρ → ℤ}
    (less : ∀ row ∈ table.rows, amount row ≤ amount' row) :
    table.total amount ≤ table.total amount' := by
  unfold total
  generalize table.rows = rows at less
  induction rows with
  | nil => simp
  | cons row rows inductionHypothesis =>
    have here := less row List.mem_cons_self
    have rest := inductionHypothesis fun other member => less other (List.mem_cons_of_mem _ member)
    simp only [List.map_cons, List.sum_cons]
    omega

/-! ## Counting rows -/

def count (table : Table ρ) (p : ρ → Bool) : ℕ := table.rows.countP p

theorem count_insert {table : Table ρ} {row : ρ} (free : table.conflicts row = false)
    (p : ρ → Bool) : (table.insert row).count p = table.count p + if p row then 1 else 0 := by
  simp [count, rows_insert free, List.countP_append, List.countP_cons]

theorem count_modify (table : Table ρ) (k : κ) (f : ρ → ρ) (p : ρ → Bool) :
    (table.modify k f).count p = table.count fun row => p (rewrite k f row) := by
  simp only [count, modify, List.countP_map]
  rfl

/-- A change of one row counts that row alone. -/
theorem count_modify_of_get {table : Table ρ} {k : κ} {row : ρ} (found : table.get k = some row)
    (f : ρ → ρ) (p : ρ → Bool) :
    (table.modify k f).count p + (if p row then 1 else 0) =
      table.count p + if p (rewrite k f row) then 1 else 0 := by
  obtain ⟨before, after, split⟩ := List.append_of_mem (get_mem found)
  have distinct := table.distinct
  rw [split, List.pairwise_append, List.pairwise_cons] at distinct
  have others : ∀ other, other ∈ before ∨ other ∈ after → key other ≠ k := by
    rintro other (member | member)
    · rw [← get_key found]
      exact (distinct.2.2 other member row List.mem_cons_self).1
    · rw [← get_key found]
      exact Ne.symm (distinct.2.1.1 other member).1
  have same : ∀ rows : List ρ, (∀ other ∈ rows, key other ≠ k) →
      (rows.map (rewrite k f)).countP p = rows.countP p := by
    intro rows different
    rw [List.map_congr_left fun other member =>
      rewrite_of_ne (different other member), List.map_id']
  simp only [count, modify, split, List.map_append, List.map_cons, List.countP_append,
    List.countP_cons,
    same before fun other member => others other (.inl member), same after fun other member =>
      others other (.inr member)]
  omega

omit [DecidableEq κ] [DecidableEq υ] in
theorem count_eq_zero {table : Table ρ} {p : ρ → Bool} :
    table.count p = 0 ↔ ∀ row ∈ table.rows, p row = false := by
  simp [count, List.countP_eq_zero]

omit [DecidableEq κ] [DecidableEq υ] in
/-- Rows with the same index entry: at most one. -/
theorem count_le_one {table : Table ρ} {p : ρ → Bool} {entry : υ}
    (listed : ∀ row, p row = true → entry ∈ uniques row) : table.count p ≤ 1 := by
  rw [count, List.countP_eq_length_filter]
  have apart := table.distinct.filter p
  match found : table.rows.filter p with
  | [] => simp
  | [_] => simp
  | a :: b :: rest =>
    have left := (List.mem_filter.1 (found ▸ List.mem_cons_self : a ∈ table.rows.filter p)).2
    have right := (List.mem_filter.1
      (found ▸ List.mem_cons_of_mem _ List.mem_cons_self : b ∈ table.rows.filter p)).2
    rw [found] at apart
    exact absurd (listed b right)
      (((List.pairwise_cons.1 apart).1 b List.mem_cons_self).2 (listed a left))

/-! ## What a change keeps -/

section Keeps

variable {α : Type}

/-- Every row stays, with the same value of `f`. -/
def Keeps (f : ρ → α) (table table' : Table ρ) : Prop :=
  ∀ k row, table.get k = some row → ∃ row', table'.get k = some row' ∧ f row' = f row

omit [DecidableEq υ] in
theorem Keeps.refl (f : ρ → α) (table : Table ρ) : Keeps f table table :=
  fun _ row found => ⟨row, found, rfl⟩

omit [DecidableEq υ] in
theorem Keeps.trans {f : ρ → α} {table table' table'' : Table ρ} (first : Keeps f table table')
    (second : Keeps f table' table'') : Keeps f table table'' := by
  intro k row found
  obtain ⟨row', found', same⟩ := first k row found
  obtain ⟨row'', found'', same'⟩ := second k row' found'
  exact ⟨row'', found'', same'.trans same⟩

theorem Keeps.insert (f : ρ → α) (table : Table ρ) (row : ρ) : Keeps f table (table.insert row) :=
  fun _ old found => ⟨old, get_insert_of_some found, rfl⟩

theorem Keeps.modify {f : ρ → α} {g : ρ → ρ} (kept : ∀ row, f (g row) = f row) (table : Table ρ)
    (k : κ) : Keeps f table (table.modify k g) := by
  intro k' row found
  refine ⟨rewrite k g row, ?_, rewrite_congr kept row⟩
  rw [get_modify, found]
  rfl

/-- The same keys, and the same values of `f`. -/
def Same (f : ρ → α) (table table' : Table ρ) : Prop :=
  ∀ k, (table'.get k).map f = (table.get k).map f

omit [DecidableEq υ] in
theorem Same.refl (f : ρ → α) (table : Table ρ) : Same f table table := fun _ => rfl

omit [DecidableEq υ] in
theorem Same.trans {f : ρ → α} {table table' table'' : Table ρ} (first : Same f table table')
    (second : Same f table' table'') : Same f table table'' := fun k => (second k).trans (first k)

theorem Same.modify {f : ρ → α} {g : ρ → ρ} (kept : ∀ row, f (g row) = f row) (table : Table ρ)
    (k : κ) : Same f table (table.modify k g) := by
  intro k'
  rw [get_modify, Option.map_map]
  congr 1
  funext row
  exact rewrite_congr kept row

omit [DecidableEq υ] in
theorem Same.keeps {f : ρ → α} {table table' : Table ρ} (same : Same f table table') :
    Keeps f table table' := by
  intro k row found
  have there := same k
  rw [found] at there
  obtain ⟨row', found', isSame⟩ := Option.map_eq_some_iff.1 there
  exact ⟨row', found', isSame⟩

/-- Every row stays, with the same value of `f`, and the values of the rows that are new satisfy
`new`. -/
structure Adds (f : ρ → α) (new : α → Prop) (table table' : Table ρ) : Prop where
  keeps : Keeps f table table'
  origin : ∀ k row', table'.get k = some row' →
    (∃ row, table.get k = some row ∧ f row = f row') ∨ new (f row')

omit [DecidableEq υ] in
theorem Same.adds {f : ρ → α} {table table' : Table ρ} (same : Same f table table')
    (new : α → Prop) : Adds f new table table' := by
  refine ⟨same.keeps, fun k row' found => .inl ?_⟩
  have there := (same k).symm
  rw [found] at there
  exact Option.map_eq_some_iff.1 there

omit [DecidableEq υ] in
theorem Adds.refl (f : ρ → α) (new : α → Prop) (table : Table ρ) : Adds f new table table :=
  (Same.refl f table).adds new

theorem Adds.insert {f : ρ → α} {new : α → Prop} (table : Table ρ) {row : ρ} (isNew : new (f row)) :
    Adds f new table (table.insert row) := by
  refine ⟨.insert f table row, fun k row' found => ?_⟩
  rcases mem_insert (get_mem found) with member | rfl
  · refine .inl ⟨row', ?_, rfl⟩
    rw [← get_key found]
    exact get_of_mem member
  · exact .inr isNew

omit [DecidableEq υ] in
theorem Adds.trans {f : ρ → α} {new : α → Prop} {table table' table'' : Table ρ}
    (first : Adds f new table table') (second : Adds f new table' table'') :
    Adds f new table table'' := by
  refine ⟨first.keeps.trans second.keeps, fun k row'' found => ?_⟩
  rcases second.origin k row'' found with ⟨row', found', same⟩ | isNew
  · rw [← same]
    exact first.origin k row' found'
  · exact .inr isNew

/-- Every row stays, and is related to what it was. -/
def Evolves (related : ρ → ρ → Prop) (table table' : Table ρ) : Prop :=
  ∀ k row, table.get k = some row → ∃ row', table'.get k = some row' ∧ related row row'

section Evolves

variable {related : ρ → ρ → Prop}

omit [DecidableEq υ] in
theorem Evolves.refl (refl : ∀ row, related row row) (table : Table ρ) :
    Evolves related table table :=
  fun _ row found => ⟨row, found, refl row⟩

omit [DecidableEq υ] in
theorem Evolves.trans (trans : ∀ a b c, related a b → related b c → related a c)
    {table table' table'' : Table ρ} (first : Evolves related table table')
    (second : Evolves related table' table'') : Evolves related table table'' := by
  intro k row found
  obtain ⟨row', found', moved⟩ := first k row found
  obtain ⟨row'', found'', moved'⟩ := second k row' found'
  exact ⟨row'', found'', trans _ _ _ moved moved'⟩

theorem Evolves.insert (refl : ∀ row, related row row) (table : Table ρ) (row : ρ) :
    Evolves related table (table.insert row) :=
  fun _ old found => ⟨old, get_insert_of_some found, refl old⟩

theorem Evolves.modify (refl : ∀ row, related row row) {g : ρ → ρ}
    (moves : ∀ row, related row (g row)) (table : Table ρ) (k : κ) :
    Evolves related table (table.modify k g) := by
  intro k' row found
  refine ⟨rewrite k g row, ?_, rewrite_induction (refl row) (moves row)⟩
  rw [get_modify, found]
  rfl

theorem Evolves.modify_of_get (refl : ∀ row, related row row) {table : Table ρ} {k : κ} {row : ρ}
    {g : ρ → ρ} (found : table.get k = some row) (moves : related row (g row)) :
    Evolves related table (table.modify k g) := by
  intro k' old found'
  refine ⟨rewrite k g old, by rw [get_modify, found']; rfl, ?_⟩
  by_cases same : key old = k
  · have isRow : old = row :=
      eq_of_key (get_mem found') (get_mem found) (same.trans (get_key found).symm)
    subst isRow
    exact rewrite_induction (refl old) moves
  · rw [rewrite_of_ne same]
    exact refl old

end Evolves

end Keeps

end Table

end

end SwiftBite.Store
