import SwiftBite.Store.Table
import Mathlib.Data.List.Sort
import Mathlib.Data.Rat.Floor

/-! # Cursor pagination

`parsePaginationQuery`, `applyCursorPagination` and `buildPaginationResult`, for a listing that
is sorted by a timestamp column.  The database keeps timestamps in microseconds; a `Date`, and
with it the cursor, has milliseconds.
-/

set_option autoImplicit false

namespace SwiftBite

open Store

namespace Pagination

/-- A row of a listing: its id, and its timestamp columns in microseconds. -/
structure Row where
  id : ℕ
  column : String → ℕ

instance : Keyed Row ℕ Empty := ⟨Row.id, fun _ => []⟩

inductive SortOrder where
  | asc
  | desc
  deriving DecidableEq

/-- What `encodeCursor` writes as `<date>::<id>` and `decodeCursor` reads back. -/
structure Cursor where
  value : ℕ
  id : ℕ
  deriving DecidableEq

structure PaginationParams where
  cursor : Option Cursor
  limit : ℚ
  sortBy : String
  sortOrder : SortOrder

structure PaginationQueryOptions where
  allowedSortFields : List String
  defaultSortBy : String
  defaultLimit : ℕ
  /-- Every column has a name. -/
  named : "" ∉ defaultSortBy :: allowedSortFields

/-- The parameters of a request.  The limit is what `Number` makes of it, if that is finite. -/
structure Query where
  cursor : Option Cursor
  limit : Option ℚ
  sortBy : Option String
  sortOrder : Option String

def parsePaginationQuery (query : Query) (options : PaginationQueryOptions) : PaginationParams where
  cursor := query.cursor
  limit :=
    match query.limit with
    | some rawLimit => if 0 < rawLimit then min 1000 rawLimit else options.defaultLimit
    | none => options.defaultLimit
  sortBy :=
    match query.sortBy with
    | some requestedSortBy =>
      if requestedSortBy ∈ options.allowedSortFields then requestedSortBy else options.defaultSortBy
    | none => options.defaultSortBy
  sortOrder := if query.sortOrder = some "desc" then .desc else .asc

/-- `new Date` of a timestamp, and `date_trunc('milliseconds', ..)`. -/
def milliseconds (time : ℕ) : ℕ := time / 1000

/-- The condition that a cursor adds to the query. -/
def standsAfter (order : SortOrder) (sortBy : String) (cursor : Cursor) (row : Row) : Bool :=
  let sortExpr := milliseconds (row.column sortBy)
  match order with
  | .asc => cursor.value < sortExpr || (sortExpr = cursor.value && cursor.id < row.id)
  | .desc => sortExpr < cursor.value || (sortExpr = cursor.value && row.id < cursor.id)

/-- `ORDER BY column, id`. -/
def Precedes (order : SortOrder) (sortBy : String) (a b : Row) : Prop :=
  match order with
  | .asc => a.column sortBy < b.column sortBy ∨ a.column sortBy = b.column sortBy ∧ a.id ≤ b.id
  | .desc => b.column sortBy < a.column sortBy ∨ b.column sortBy = a.column sortBy ∧ b.id ≤ a.id

instance (order : SortOrder) (sortBy : String) : DecidableRel (Precedes order sortBy) := fun _ _ =>
  match order with
  | .asc => inferInstanceAs (Decidable (_ ∨ _))
  | .desc => inferInstanceAs (Decidable (_ ∨ _))

/-- The rows that the query returns; a fractional limit is cut off. -/
def applyCursorPagination (query : List Row) (params : PaginationParams) : List Row :=
  if params.sortBy = "" then query
  else
    let kept := match params.cursor with
      | some cursor => query.filter (standsAfter params.sortOrder params.sortBy cursor)
      | none => query
    (kept.insertionSort (Precedes params.sortOrder params.sortBy)).take ⌊params.limit + 1⌋₊

structure Paginated where
  data : List Row
  nextCursor : Option Cursor
  hasMore : Bool
  count : ℕ

def cursorOf (sortBy : String) (lastItem : Row) : Cursor :=
  ⟨milliseconds (lastItem.column sortBy), lastItem.id⟩

def buildPaginationResult (rows : List Row) (limit : ℚ) (sortBy : String) : Paginated :=
  -- One row more than the page holds was asked for.
  let hasMore : Bool := limit < rows.length
  let data := if hasMore then rows.take ⌊limit⌋₊ else rows
  { data := data
    nextCursor := if hasMore then data.getLast?.map (cursorOf sortBy) else none
    hasMore := hasMore
    count := data.length }

/-- One request for a page of the rows that match. -/
def listPage (table : Table Row) (filter : Row → Bool) (options : PaginationQueryOptions)
    (query : Query) : Paginated :=
  let params := parsePaginationQuery query options
  buildPaginationResult (applyCursorPagination (table.rows.filter filter) params)
    params.limit params.sortBy

end Pagination

end SwiftBite
