import SwiftBite.Http.Pagination

/-! # Cursors in local time

The driver sends a `Date` as the wall-clock time of its process, and the database takes that
for UTC.  A cursor that is a date is bound as a `Date`.
-/

set_option autoImplicit false

namespace SwiftBite.Pagination

open Store

/-- The milliseconds that arrive for a `Date`, from a process `offset` minutes ahead of UTC. -/
def boundDate (offset : ℤ) (date : ℕ) : ℤ := date + offset * 60000

/-- The condition that a cursor adds to the query. -/
def standsAfterIn (offset : ℤ) (order : SortOrder) (sortBy : String) (cursor : Cursor)
    (row : Row) : Bool :=
  let sortExpr : ℤ := milliseconds (row.column sortBy)
  let compareValue := boundDate offset cursor.value
  match order with
  | .asc => compareValue < sortExpr || (sortExpr = compareValue && cursor.id < row.id)
  | .desc => sortExpr < compareValue || (sortExpr = compareValue && row.id < cursor.id)

def applyCursorPaginationIn (offset : ℤ) (query : List Row)
    (params : PaginationParams) : List Row :=
  if params.sortBy = "" then query
  else
    let kept := match params.cursor with
      | some cursor => query.filter (standsAfterIn offset params.sortOrder params.sortBy cursor)
      | none => query
    (kept.insertionSort (Precedes params.sortOrder params.sortBy)).take ⌊params.limit + 1⌋₊

def listPageIn (offset : ℤ) (table : Table Row) (filter : Row → Bool)
    (options : PaginationQueryOptions) (query : Query) : Paginated :=
  let params := parsePaginationQuery query options
  buildPaginationResult (applyCursorPaginationIn offset (table.rows.filter filter) params)
    params.limit params.sortBy

/-- The page at which a client is that has followed `nextCursor` so many times. -/
def pageIn (offset : ℤ) (table : Table Row) (filter : Row → Bool) (options : PaginationQueryOptions)
    (query : Query) : ℕ → Option Paginated
  | 0 => some (listPageIn offset table filter options query)
  | n + 1 => (pageIn offset table filter options query n).bind fun page =>
    page.nextCursor.map fun cursor => listPageIn offset table filter options { query with
      cursor := some cursor }

@[simp] theorem boundDate_utc (date : ℕ) : boundDate 0 date = date := by simp [boundDate]

theorem standsAfterIn_utc (order : SortOrder) (sortBy : String) (cursor : Cursor) :
    standsAfterIn 0 order sortBy cursor = standsAfter order sortBy cursor := by
  funext row
  cases order <;> simp [standsAfterIn, standsAfter]

/-- In UTC, the cursor is the date itself. -/
theorem listPageIn_utc (table : Table Row) (filter : Row → Bool) (options : PaginationQueryOptions)
    (query : Query) :
    listPageIn 0 table filter options query = listPage table filter options query := by
  have sameCursor : (standsAfterIn 0 : SortOrder → String → Cursor → Row → Bool) = standsAfter := by
    funext order sortBy cursor
    exact standsAfterIn_utc order sortBy cursor
  unfold listPageIn applyCursorPaginationIn
  rw [sameCursor]
  rfl

end SwiftBite.Pagination
