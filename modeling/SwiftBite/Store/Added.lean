import SwiftBite.Store.Table

/-! # Rows that are new

What a call has added to a table: the rows of the later table under keys that the earlier one
does not have.
-/

set_option autoImplicit false

namespace SwiftBite.Store.Table

section

variable {ρ κ υ : Type} [Keyed ρ κ υ] [DecidableEq κ] [DecidableEq υ] {table table' : Table ρ}
  {r row : ρ} {k : κ} {f : ρ → ρ}

/-- The row stands in the second table, and nothing in the first has its key. -/
def Added (table table' : Table ρ) (row : ρ) : Prop :=
  table'.get (key row) = some row ∧ table.get (key row) = none

/-- One row is new. -/
def AddedOnly (table table' : Table ρ) (r : ρ) : Prop := ∀ row, Added table table' row ↔ row = r

omit [DecidableEq υ] in
theorem not_added_self : ¬ Added table table row := by
  rintro ⟨found, absent⟩
  rw [absent] at found
  cases found

/-- A row that is new after an insertion was new before, or is the one inserted. -/
theorem added_insert (added : Added table (table'.insert r) row) :
    Added table table' row ∨ row = r :=
  (mem_insert (get_mem added.1)).imp_left fun among => ⟨get_of_mem among, added.2⟩

theorem not_added_modify : ¬ Added table (table.modify k f) row := by
  rintro ⟨found, absent⟩
  rw [get_modify, absent] at found
  cases found

theorem addedOnly_insert (free : table.conflicts r = false) :
    AddedOnly table (table.insert r) r := by
  intro row
  constructor
  · rintro ⟨found, absent⟩
    by_cases same : key r = key row
    · rw [← same] at found
      exact (Option.some.inj ((get_insert_self free).symm.trans found)).symm
    · rw [get_insert_of_ne same, absent] at found
      cases found
  · rintro rfl
    exact ⟨get_insert_self free, get_eq_none_of_free free⟩

namespace AddedOnly

omit [DecidableEq υ] in
theorem added (only : AddedOnly table table' r) : Added table table' r := (only r).2 rfl

/-- The new row is changed. -/
theorem modify (only : AddedOnly table table' r) (sameKey : key (f r) = key r)
    (sameUniques : uniques (f r) = uniques r) :
    AddedOnly table (table'.modify (key r) f) (f r) := by
  intro row
  constructor
  · rintro ⟨found, absent⟩
    by_cases same : key row = key r
    · rw [same, get_modify_self only.added.1 sameKey sameUniques] at found
      exact (Option.some.inj found).symm
    · rw [get_modify_of_ne same] at found
      exact absurd (congrArg key ((only row).1 ⟨found, absent⟩)) same
  · rintro rfl
    rw [Added, sameKey]
    exact ⟨get_modify_self only.added.1 sameKey sameUniques, only.added.2⟩

/-- A row that was there before is changed. -/
theorem modify_old (only : AddedOnly table table' r) (old : table.get k ≠ none) :
    AddedOnly table (table'.modify k f) r := by
  intro row
  rw [← only row]
  refine and_congr_left fun absent => ?_
  have other : key row ≠ k := fun same => old (same ▸ absent)
  rw [get_modify_of_ne other]

end AddedOnly

end

end SwiftBite.Store.Table
