import SwiftBite.Archival.Worker
import SwiftBite.Verified.Footprints

/-! # What batches do to the rows

The effect of the statements of the archival worker on the two databases, table by table.
-/

set_option autoImplicit false

namespace SwiftBite.Verified.ArchivalRows

open Store Archival

/-- A table that the worker moves. -/
abbrev Moved (t : TableName) : Prop := t ∈ PASS1_INSERT_ORDER

theorem moved_iff_deleted {t : TableName} : t ∈ PASS2_DELETE_ORDER ↔ Moved t := by
  cases t <;> decide

section

variable {db db' : Database} {cutoff : ℕ} {t : TableName}

theorem key_eq (moved : Moved t) (row : RowOf t) : (key row : RowKey) = .id (rowId row) := by
  cases t <;> first | rfl | exact absurd moved (by decide)

theorem not_eligible (unmoved : ¬ Moved t) (row : RowOf t) : eligible db cutoff t row = false := by
  cases t <;> first | rfl | exact absurd (by decide) unmoved

theorem moved_of_eligible {row : RowOf t}
    (isEligible : eligible db cutoff t row = true) : Moved t := by
  by_contra unmoved
  rw [not_eligible unmoved] at isEligible
  cases isEligible

/-- The order that a row belongs to. -/
def parentOf : (t : TableName) → RowOf t → Option ℕ
  | .orderItems, (row : OrderItem) => some row.orderId
  | .transactions, (row : Transaction) => row.orderId
  | .paymentSessions, (row : PaymentSession) => some row.orderId
  | .deliveries, (row : Delivery) => some row.orderId
  | .agentEarnings, (row : AgentEarning) => some row.orderId
  | _, _ => none

/-- The tables whose rows go with their order. -/
abbrev Child (t : TableName) : Prop :=
  t ∈ [TableName.orderItems, .transactions, .paymentSessions, .deliveries, .agentEarnings]

theorem eligible_child (child : Child t) (row : RowOf t) :
    eligible db cutoff t row = byParentOrder db cutoff (parentOf t row) := by
  cases t <;> first | rfl | exact absurd child (by decide)

theorem byParentOrder_iff {orderId : Option ℕ} :
    byParentOrder db cutoff orderId = true ↔
    ∃ order ∈ (db .orders).rows, some (Order.id order) = orderId ∧
    orderEligible cutoff order = true := by
  simp [byParentOrder]

theorem byParentOrder_mono (orders : ∀ order ∈ (db' .orders).rows, order ∈ (db .orders).rows)
    {orderId : Option ℕ} (eligible : byParentOrder db' cutoff orderId = true) :
    byParentOrder db cutoff orderId = true := by
  rw [byParentOrder_iff] at eligible ⊢
  obtain ⟨order, member, rest⟩ := eligible
  exact ⟨order, orders order member, rest⟩

/-- With fewer orders, no row becomes eligible. -/
theorem eligible_mono (orders : ∀ order ∈ (db' .orders).rows, order ∈ (db .orders).rows)
    {row : RowOf t} (isEligible : eligible db' cutoff t row = true) :
    eligible db cutoff t row = true := by
  by_cases child : Child t
  · rw [eligible_child child] at isEligible ⊢
    exact byParentOrder_mono orders isEligible
  · cases t <;> first | exact isEligible | exact absurd (by decide) child

/-! ## Batches -/

theorem mem_insertBatch {cursor : ℕ} {row : RowOf t}
    (member : row ∈ insertBatch db cutoff t cursor) :
    row ∈ (db t).rows ∧ eligible db cutoff t row = true ∧ cursor < rowId row := by
  simpa using mem_of_ascending member

/-- A batch leaves out no row up to its last one. -/
theorem insertBatch_covers (moved : Moved t) {cursor : ℕ} {row l : RowOf t}
    (member : row ∈ (db t).rows) (isEligible : eligible db cutoff t row = true)
    (after : cursor < rowId row) (isLast : (insertBatch db cutoff t cursor).getLast? = some l)
    (upTo : rowId row ≤ rowId l) : row ∈ insertBatch db cutoff t cursor := by
  refine mem_ascending (by simp [member, isEligible, after]) isLast upTo fun a inA b inB same => ?_
  refine Table.eq_of_key (List.mem_of_mem_filter inA) (List.mem_of_mem_filter inB) ?_
  rw [key_eq moved, key_eq moved, same]

theorem insertBatch_covers_all {cursor : ℕ} {row : RowOf t} (member : row ∈ (db t).rows)
    (isEligible : eligible db cutoff t row = true) (after : cursor < rowId row)
    (short : (insertBatch db cutoff t cursor).length < BATCH_SIZE) :
    row ∈ insertBatch db cutoff t cursor :=
  mem_ascending_of_short (by simp [member, isEligible, after]) short

theorem mem_deleteBatch {id : ℕ} (member : id ∈ deleteBatch db cutoff t) :
    ∃ row ∈ (db t).rows, eligible db cutoff t row = true ∧ rowId row = id := by
  obtain ⟨row, inBatch, isId⟩ := List.mem_map.1 member
  obtain ⟨inTable, isEligible⟩ := List.mem_filter.1 (mem_of_descending inBatch)
  exact ⟨row, inTable, isEligible, isId⟩

theorem deleteBatch_covers_all {row : RowOf t} (member : row ∈ (db t).rows)
    (isEligible : eligible db cutoff t row = true)
    (short : (deleteBatch db cutoff t).length < BATCH_SIZE) :
    rowId row ∈ deleteBatch db cutoff t := by
  refine List.mem_map_of_mem (mem_descending_of_short (by simp [member, isEligible]) ?_)
  simpa [deleteBatch] using short

theorem none_eligible_of_insertBatch {cursor : ℕ} (none : insertBatch db cutoff t cursor = [])
    {row : RowOf t} (member : row ∈ (db t).rows)
    (isEligible : eligible db cutoff t row = true) : rowId row ≤ cursor := by
  have empty := (ascending_eq_nil (by decide)).1 none
  by_contra after
  have left := List.filter_eq_nil_iff.1 empty row member
  simp [isEligible, Nat.lt_of_not_le after] at left

theorem none_eligible_of_deleteBatch (none : deleteBatch db cutoff t = []) {row : RowOf t}
    (member : row ∈ (db t).rows) : eligible db cutoff t row = false := by
  have empty := (descending_eq_nil (by decide)).1 (List.map_eq_nil_iff.1 none)
  simpa using List.filter_eq_nil_iff.1 empty row member

end

/-! ## Rows on their way -/

section

variable {t : TableName}

theorem wallClock_utc (time : ℕ) : wallClock 0 time = time / 1000 * 1000 := by
  rw [wallClock, Int.zero_mul, Int.add_zero, Int.toNat_natCast]

theorem key_carried (offset : ℤ) (row : RowOf t) :
    (key (carried offset t row) : RowKey) = key row := by
  cases t <;> rfl

theorem uniques_carried (offset : ℤ) (row : RowOf t) :
    (uniques (carried offset t row) : List UniqueKey) = uniques row := by
  cases t <;> rfl

theorem rowId_carried (offset : ℤ) (row : RowOf t) : rowId (carried offset t row) = rowId row := by
  simp only [rowId, key_carried]

theorem clashes_carried (offset : ℤ) (row row' : RowOf t) :
    Table.clashes (carried offset t row) (carried offset t row') = Table.clashes row row' := by
  simp only [Table.clashes, key_carried, uniques_carried]

/-- What `INSERT .. ON CONFLICT DO NOTHING` makes of a table. -/
structure Inserted (rows : List (RowOf t)) (table table' : Table (RowOf t)) : Prop where
  kept : ∀ row ∈ table.rows, row ∈ table'.rows
  there : ∀ row ∈ rows, (table'.get (key row)).isSome = true
  origin : ∀ row ∈ table'.rows, row ∈ table.rows ∨ row ∈ rows ∧ table.get (key row) = none

theorem inserted_of_insertRows {rows : List (RowOf t)} {table table' : Table (RowOf t)}
    (inserts : insertRows rows table = some table') : Inserted rows table table' := by
  induction rows generalizing table with
  | nil =>
    cases inserts
    exact ⟨fun _ member => member, fun _ none => absurd none List.not_mem_nil,
      fun _ member => .inl member⟩
  | cons row rows inductionHypothesis =>
    rw [insertRows] at inserts
    split at inserts
    next present =>
      have rest := inductionHypothesis inserts
      obtain ⟨old, found⟩ := Option.isSome_iff_exists.1 present
      have stays : table'.get (key row) = some old :=
        Table.get_eq_some.2 ⟨rest.kept old (Table.get_mem found), Table.get_key found⟩
      refine ⟨rest.kept, ?_, fun row' member => ?_⟩
      · exact List.forall_mem_cons.2 ⟨by rw [stays]; rfl, rest.there⟩
      · exact (rest.origin row' member).imp id fun new => ⟨List.mem_cons_of_mem row new.1, new.2⟩
    next absent =>
      split at inserts
      next => cases inserts
      next free =>
        have free : table.conflicts row = false := eq_false_of_ne_true free
        have rest := inductionHypothesis inserts
        refine ⟨fun row' member => rest.kept row' (Table.mem_insert_of_mem member), ?_,
          fun row' member => ?_⟩
        · have inserted := rest.kept row (Table.mem_insert_self free)
          exact List.forall_mem_cons.2
            ⟨Option.isSome_iff_exists.2 ⟨row, Table.get_of_mem inserted⟩, rest.there⟩
        · rcases rest.origin row' member with before | new
          · refine (Table.mem_insert before).imp id ?_
            rintro rfl
            exact ⟨List.mem_cons_self, Option.not_isSome_iff_eq_none.1 absent⟩
          · refine .inr ⟨List.mem_cons_of_mem row new.1, ?_⟩
            rw [Table.get_eq_none] at new ⊢
            exact fun other isOld => new.2 other (Table.mem_insert_of_mem isOld)

/-- Rows that clash with nothing can be inserted. -/
theorem exists_insertRows {rows : List (RowOf t)} {table : Table (RowOf t)}
    (apart : rows.Pairwise fun a b => Table.clashes a b = false)
    (free : ∀ row ∈ rows, ∀ other ∈ table.rows, key other = (key row : RowKey) ∨
      Table.clashes other row = false) : ∃ table', insertRows rows table = some table' := by
  induction rows generalizing table with
  | nil => exact ⟨table, rfl⟩
  | cons row rows inductionHypothesis =>
    obtain ⟨first, apart⟩ := List.pairwise_cons.1 apart
    obtain ⟨freeRow, free⟩ := List.forall_mem_cons.1 free
    rw [insertRows]
    split
    next => exact inductionHypothesis apart free
    next absent =>
      have noConflict : table.conflicts row = false := by
        rw [Table.conflicts_eq_false]
        intro other member
        refine (freeRow other member).resolve_left fun same => ?_
        exact Table.get_eq_none.1 (Option.not_isSome_iff_eq_none.1 absent) other member same
      rw [if_neg (by rw [noConflict]; exact Bool.false_ne_true)]
      refine inductionHypothesis apart fun row' member other inTable => ?_
      rcases Table.mem_insert inTable with old | rfl
      · exact free row' member other old
      · exact .inr (first row' member)

end

end SwiftBite.Verified.ArchivalRows
