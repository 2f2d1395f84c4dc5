import SwiftBite.Http.IsoDates
import SwiftBite.Http.Pagination

/-! # Cursor texts

`encodeCursor`, `decodeCursor`, and the lists that a client pages through with the texts it was
given.  A cursor that the listing did not write goes to the database as it is: what it selects
there is the parameter `elsewhere`.
-/

set_option autoImplicit false

namespace SwiftBite.Pagination

open Store IsoDates

def CURSOR_SEPARATOR : List Char := [':', ':']

def encodeCursor (value id : List Char) : List Char := value ++ CURSOR_SEPARATOR ++ id

/-- What stands before and after the last separator. -/
def splitLast : List Char → Option (List Char × List Char)
  | [] => none
  | c :: text =>
    match splitLast text with
    | some (value, id) => some (c :: value, id)
    | none => if c = ':' ∧ text.head? = some ':' then some ([], text.tail) else none

def decodeCursor (cursor : List Char) : List Char × List Char :=
  (splitLast cursor).getD (cursor, ['0'])

/-- `(\.\d+)?Z?$` -/
def endsDate (text : List Char) : Bool :=
  let rest := match skip '.' text with
    | some fraction =>
      if fraction.head?.any Char.isDigit then fraction.dropWhile Char.isDigit else text
    | none => text
  decide (rest = []) || decide (rest = ['Z'])

/-- `/^\d{4}-\d{2}-\d{2}T\d{2}:\d{2}:\d{2}(\.\d+)?Z?$/` -/
def ISO_MS_DATE (text : List Char) : Bool := (readFields text).any fun read => endsDate read.2

/-- The text of a `bigint`, without a sign. -/
def readId (text : List Char) : Option ℕ :=
  if text ≠ [] ∧ text.all Char.isDigit = true then some (Nat.ofDigitChars 10 text 0) else none

section

variable (elsewhere : SortOrder → String → List Char → Row → Bool)

/-- The condition that a cursor's text adds to the query. -/
def standsAfterText (order : SortOrder) (sortBy : String) (cursor : List Char) (row : Row) : Bool :=
  let cursorValue := (decodeCursor cursor).1
  let isDateCursor := ISO_MS_DATE cursorValue
  match newDate cursorValue, readId (decodeCursor cursor).2 with
  | some compareValue, some cursorId =>
    if isDateCursor then standsAfter order sortBy ⟨compareValue, cursorId⟩ row
    else elsewhere order sortBy cursor row
  | _, _ => elsewhere order sortBy cursor row

/-- An empty text is no cursor. -/
def applyCursorText (query : List Row) (params : PaginationParams)
    (cursor : Option (List Char)) : List Row :=
  if params.sortBy = "" then query
  else
    let kept := match cursor with
      | some text =>
        if text = [] then query
          else query.filter (standsAfterText elsewhere params.sortOrder params.sortBy text)
      | none => query
    (kept.insertionSort (Precedes params.sortOrder params.sortBy)).take ⌊params.limit + 1⌋₊

structure TextPage where
  data : List Row
  nextCursor : Option (List Char)
  hasMore : Bool
  count : ℕ

def textOf (cursor : Cursor) : List Char :=
  encodeCursor (toISOString cursor.value) (toString cursor.id).toList

def buildTextPage (rows : List Row) (limit : ℚ) (sortBy : String) : TextPage :=
  let hasMore : Bool := limit < rows.length
  let data := if hasMore then rows.take ⌊limit⌋₊ else rows
  { data := data
    nextCursor :=
      if hasMore then
        data.getLast?.map fun lastItem =>
          encodeCursor (toISOString (milliseconds (lastItem.column sortBy)))
            (toString lastItem.id).toList
      else none
    hasMore := hasMore
    count := data.length }

/-- One request for a page, with the cursor that the query string has. -/
def listTextPage (table : Table Row) (filter : Row → Bool) (options : PaginationQueryOptions)
    (query : Query) (cursor : Option (List Char)) : TextPage :=
  let params := parsePaginationQuery query options
  buildTextPage (applyCursorText elsewhere (table.rows.filter filter) params cursor)
    params.limit params.sortBy

end

end SwiftBite.Pagination
