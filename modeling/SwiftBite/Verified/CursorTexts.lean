import SwiftBite.Data.Texts
import SwiftBite.Http.CursorText
import SwiftBite.Verified.RecordPages

/-! # Cursor texts stand for cursors

What a client reads by handing back the texts of `nextCursor` is what the listing of `Pagination`
returns for the dates and ids that the texts were written from.
-/

set_option autoImplicit false

namespace SwiftBite.Verified.CursorTexts

open Store Pagination IsoDates

variable {elsewhere : SortOrder → String → List Char → Row → Bool}

/-! ## Texts that are put together and taken apart -/

theorem splitLast_of_not_mem {text : List Char} (absent : ':' ∉ text) : splitLast text = none := by
  induction text with
  | nil => rfl
  | cons c text inductionHypothesis =>
    rw [List.mem_cons, not_or] at absent
    have other : ¬ (c = ':' ∧ text.head? = some ':') := fun both => absent.1 both.1.symm
    rw [splitLast, inductionHypothesis absent.2]
    exact if_neg other

/-- The separator found is the one written, whatever colons the value has. -/
theorem splitLast_encode (value : List Char) {id : List Char} (absent : ':' ∉ id) :
    splitLast (encodeCursor value id) = some (value, id) := by
  induction value with
  | nil =>
    have second : splitLast (':' :: id) = none := by
      have last : ¬ ((':' : Char) = ':' ∧ id.head? = some ':') :=
        fun both => absent (List.mem_of_head? both.2)
      rw [splitLast, splitLast_of_not_mem absent]
      exact if_neg last
    show splitLast (':' :: ':' :: id) = some ([], id)
    rw [splitLast, second]
    exact if_pos ⟨rfl, rfl⟩
  | cons c value inductionHypothesis =>
    -- A separator that starts here is not the last.
    show splitLast (c :: encodeCursor value id) = some (c :: value, id)
    rw [splitLast, inductionHypothesis]

theorem digits_toString (id : ℕ) : ∀ c ∈ (toString id).toList, c.isDigit = true := by
  rw [Texts.toList_toString]
  exact fun c member => Nat.isDigit_of_mem_toDigits (by decide) (by decide) member

theorem decode_encode (value : List Char) (id : ℕ) :
    decodeCursor (encodeCursor value (toString id).toList) = (value, (toString id).toList) := by
  have absent : ':' ∉ (toString id).toList := fun member => by
    have impossible := digits_toString id ':' member
    cases impossible
  rw [decodeCursor, splitLast_encode value absent]
  rfl

theorem readId_toString (id : ℕ) : readId (toString id).toList = some id := by
  have digits : (toString id).toList.all Char.isDigit = true :=
    List.all_eq_true.2 (digits_toString id)
  have some' : (toString id).toList ≠ [] := by
    rw [Texts.toList_toString]
    exact Nat.toDigits_ne_nil
  rw [readId, if_pos ⟨some', digits⟩, Texts.toList_toString, Nat.ofDigitChars_ten_toDigits]

/-- The regular expression takes what `toISOString` writes. -/
theorem isoMsDate_toISOString {time : ℕ} (early : time < lastMoment) :
    ISO_MS_DATE (toISOString time) = true := by
  -- Behind the fields stand three digits and the zone.
  have ends : ∀ n < 1000, endsDate ('.' :: (padded 3 n ++ ['Z'])) = true := by decide +kernel
  rw [ISO_MS_DATE, readFields_toISOString early]
  exact ends _ (Nat.mod_lt _ (by decide))

/-! ## One page -/

theorem standsAfter_textOf {order : SortOrder} {sortBy : String} {cursor : Cursor}
    (early : cursor.value < lastMoment) :
    standsAfterText elsewhere order sortBy (textOf cursor) = standsAfter order sortBy cursor := by
  funext row
  simp only [standsAfterText, textOf, decode_encode, newDate_toISOString early, readId_toString,
    isoMsDate_toISOString early, if_true]

theorem textOf_ne_nil (cursor : Cursor) : textOf cursor ≠ [] := by
  simp [textOf, encodeCursor, CURSOR_SEPARATOR]

theorem apply_textOf {rows : List Row} {params : PaginationParams}
    (early : ∀ cursor ∈ params.cursor, cursor.value < lastMoment) :
    applyCursorText elsewhere rows params (params.cursor.map textOf) =
      applyCursorPagination rows params := by
  unfold applyCursorText applyCursorPagination
  cases given : params.cursor with
  | none => rfl
  | some cursor =>
    have same : standsAfterText elsewhere params.sortOrder params.sortBy (textOf cursor) =
        standsAfter params.sortOrder params.sortBy cursor := standsAfter_textOf (early cursor given)
    simp only [Option.map_some, textOf_ne_nil, if_false, same]

/-- A page as the client reads it. -/
def written (page : Paginated) : TextPage :=
  ⟨page.data, page.nextCursor.map textOf, page.hasMore, page.count⟩

theorem build_written (rows : List Row) (limit : ℚ) (sortBy : String) :
    buildTextPage rows limit sortBy = written (buildPaginationResult rows limit sortBy) := by
  simp only [buildTextPage, written, buildPaginationResult]
  split
  next => simp only [Option.map_map]; rfl
  next => rfl

section

variable {table : Table Row} {filter : Row → Bool} {options : PaginationQueryOptions}
  {query : Query}

theorem page_written {cursor : Option Cursor} (early : ∀ c ∈ cursor, c.value < lastMoment) :
    listTextPage elsewhere table filter options query (cursor.map textOf) =
      written (listPage table filter options { query with cursor := cursor }) := by
  have applied : applyCursorText elsewhere (table.rows.filter filter)
      (parsePaginationQuery { query with cursor := cursor } options)
      (cursor.map textOf) =
      applyCursorPagination (table.rows.filter filter) (parsePaginationQuery { query with
        cursor := cursor } options) := apply_textOf early
  calc listTextPage elsewhere table filter options query (cursor.map textOf)
      = buildTextPage (applyCursorText elsewhere (table.rows.filter filter)
          (parsePaginationQuery { query with cursor := cursor } options) (cursor.map textOf))
          (parsePaginationQuery query options).limit (parsePaginationQuery query options).sortBy :=
            rfl
    _ = written (listPage table filter options { query with cursor := cursor }) := by
      rw [applied, build_written]
      rfl

/-- The cursor of a page has the date of one of the rows. -/
theorem early_of_page
    (dated : ∀ row ∈ table.rows, row.column (PageVisits.sortBy options query) < lastMoment * 1000)
    (cursor : Option Cursor) :
    ∀ c ∈ (listPage table filter options { query with cursor := cursor }).nextCursor,
      c.value < lastMoment := by
  intro c isNext
  simp only [listPage, buildPaginationResult] at isNext
  split at isNext
  next more =>
    obtain ⟨row, isLast, rfl⟩ := Option.map_eq_some_iff.1 isNext
    have shown := List.mem_of_mem_take (List.mem_of_getLast? isLast)
    have inTable : row ∈ table.rows := List.mem_of_mem_filter (RecordPages.mem_of_applied shown)
    have within := dated row inTable
    exact Nat.div_lt_of_lt_mul (by rwa [Nat.mul_comm] at within)
  next => cases isNext

/-! ## All pages -/

/-- The pages of a client that hands back the text of `nextCursor` until `hasMore` is false. -/
inductive ReadsTexts (elsewhere : SortOrder → String → List Char → Row → Bool) (table : Table Row)
    (filter : Row → Bool) (options : PaginationQueryOptions) (query : Query) :
    Option (List Char) → List TextPage → Prop where
  | last {cursor : Option (List Char)}
      (none : (listTextPage elsewhere table filter options query cursor).hasMore = false) :
      ReadsTexts elsewhere table filter options query cursor
        [listTextPage elsewhere table filter options query cursor]
  | more {cursor : Option (List Char)} {nextCursor : List Char} {pages : List TextPage}
      (left : (listTextPage elsewhere table filter options query cursor).hasMore = true)
      (isNext : (listTextPage elsewhere table filter options query cursor).nextCursor =
        some nextCursor)
      (rest : ReadsTexts elsewhere table filter options query (some nextCursor) pages) :
      ReadsTexts elsewhere table filter options query cursor
        (listTextPage elsewhere table filter options query cursor :: pages)

theorem reads_of_follows
    (dated : ∀ row ∈ table.rows, row.column (PageVisits.sortBy options query) < lastMoment * 1000)
    {cursor : Option Cursor} {asked : List Paginated}
    (follows : PageVisits.FollowsCursors table filter options query cursor asked)
    (early : ∀ c ∈ cursor, c.value < lastMoment) :
    ReadsTexts elsewhere table filter options query (cursor.map textOf) (asked.map written) := by
  induction follows with
  | @last cursor none =>
    have page : listTextPage elsewhere table filter options query (cursor.map textOf) =
        written (listPage table filter options { query with cursor := cursor }) :=
          page_written early
    rw [List.map_cons, List.map_nil, ← page]
    exact .last (by rw [page]; exact none)
  | @more cursor nextCursor pages left isNext rest inductionHypothesis =>
    have page : listTextPage elsewhere table filter options query (cursor.map textOf) =
        written (listPage table filter options { query with cursor := cursor }) :=
          page_written early
    have later : ∀ c ∈ some nextCursor, c.value < lastMoment :=
      fun c isSome => early_of_page dated cursor c (isNext.trans isSome)
    rw [List.map_cons, ← page]
    refine .more (by rw [page]; exact left) ?_ (inductionHypothesis later)
    rw [page, written, isNext]
    rfl

theorem follows_of_reads
    (dated : ∀ row ∈ table.rows, row.column (PageVisits.sortBy options query) < lastMoment * 1000)
    {text : Option (List Char)} {pages : List TextPage}
    (reads : ReadsTexts elsewhere table filter options query text pages) {cursor : Option Cursor}
    (same : text = cursor.map textOf) (early : ∀ c ∈ cursor, c.value < lastMoment) :
    ∃ asked, PageVisits.FollowsCursors table filter options query cursor asked ∧
    asked.map written = pages := by
  induction reads generalizing cursor with
  | last none =>
    subst same
    have page : listTextPage elsewhere table filter options query (cursor.map textOf) =
        written (listPage table filter options { query with cursor := cursor }) :=
          page_written early
    rw [page] at none ⊢
    exact ⟨_, .last none, rfl⟩
  | more left isNext rest inductionHypothesis =>
    subst same
    have page : listTextPage elsewhere table filter options query (cursor.map textOf) =
        written (listPage table filter options { query with cursor := cursor }) :=
          page_written early
    rw [page] at left isNext ⊢
    obtain ⟨nextCursor, isNext, isText⟩ := Option.map_eq_some_iff.1 isNext
    have later : ∀ c ∈ some nextCursor, c.value < lastMoment :=
      fun c isSome => early_of_page dated cursor c (isNext.trans isSome)
    obtain ⟨asked, follows, shown⟩ := inductionHypothesis (by rw [Option.map_some, isText]) later
    exact ⟨_, .more left isNext follows, by rw [List.map_cons, shown]⟩

end

/-- A client that pages with texts reads what the listing has for the dates and ids of the cursors,
as long as the years of the column have four digits. -/
theorem text_pages_are_pages (elsewhere : SortOrder → String → List Char → Row → Bool)
    (table : Table Row) (filter : Row → Bool) (options : PaginationQueryOptions) (query : Query)
    (pages : List TextPage)
    (dated : ∀ row ∈ table.rows, row.column (PageVisits.sortBy options query) < lastMoment * 1000) :
    ReadsTexts elsewhere table filter options query none pages ↔
      ∃ asked, PageVisits.FollowsCursors table filter options query none asked ∧
      asked.map written = pages := by
  constructor
  · intro reads
    exact follows_of_reads dated reads rfl fun _ impossible => by cases impossible
  · rintro ⟨asked, follows, rfl⟩
    exact reads_of_follows dated follows fun _ impossible => by cases impossible

/-! ## Two rows -/

def apartRows : Table Row := (Table.empty.insert ⟨1, fun _ => 5000⟩).insert ⟨2, fun _ => 7000⟩

def elsewhereNone (_ : SortOrder) (_ : String) (_ : List Char) (_ : Row) : Bool := false

def readPage (cursor : Option (List Char)) : TextPage :=
  listTextPage elsewhereNone apartRows (fun _ => true) PageVisits.createdAt
    (PageVisits.perPage 1) cursor

theorem two_text_pages :
    ∃ pages, ReadsTexts elsewhereNone apartRows (fun _ => true) PageVisits.createdAt
      (PageVisits.perPage 1) none pages ∧
    ∃ asked, PageVisits.FollowsCursors apartRows (fun _ => true) PageVisits.createdAt
      (PageVisits.perPage 1) none asked ∧
      asked.map written = pages := by
  have first : (readPage none).hasMore = true ∧
      (readPage none).nextCursor = some (textOf ⟨5, 1⟩) := by decide +kernel
  have second : (readPage (some (textOf ⟨5, 1⟩))).hasMore = false := by decide +kernel
  have reads : ReadsTexts elsewhereNone apartRows (fun _ => true) PageVisits.createdAt
      (PageVisits.perPage 1) none _ :=
    .more first.1 first.2 (.last second)
  exact ⟨_, reads, (text_pages_are_pages elsewhereNone apartRows
    (fun _ => true) PageVisits.createdAt (PageVisits.perPage 1) _
    (by decide +kernel)).1 reads⟩

end SwiftBite.Verified.CursorTexts
