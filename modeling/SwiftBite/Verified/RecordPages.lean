import SwiftBite.Http.Records
import SwiftBite.Verified.PageVisits

/-! # All pages of a list of records

Where a page has room for a record, and records of one millisecond have ids in the order of their
times, the pages show each record of the query once, and their counts add up to its length.
-/

set_option autoImplicit false

namespace SwiftBite.Verified.RecordPages

open Store Pagination PageVisits

section

variable {ρ : Type} {id time : ρ → ℕ} {records : List ρ} {options : PaginationQueryOptions}
  {query : Query}

/-! ## The records as a listing -/

/-- Records of one millisecond have ids in the order of their times. -/
def InTurn (id time : ρ → ℕ) (records : List ρ) : Prop :=
  ∀ a ∈ records, ∀ b ∈ records, milliseconds (time a) = milliseconds (time b) → time a ≠ time b →
  (time a < time b ↔ id a < id b)

/-- The rows of records with different ids. -/
def listing (time : ρ → ℕ) (distinct : (records.map id).Nodup) : Table Row :=
  ⟨records.map (rowFor id time),
    List.pairwise_map.2 ((List.pairwise_map.1 distinct).imp fun apart =>
    ⟨apart, fun _ none => absurd none List.not_mem_nil⟩)⟩

/-- All of them are listed. -/
abbrev all (_ : Row) : Bool := true

theorem rows_listing (distinct : (records.map id).Nodup) :
    (listing time distinct).rows.filter all = records.map (rowFor id time) :=
  List.filter_eq_self.2 fun _ _ => rfl

theorem mem_matching_listing (distinct : (records.map id).Nodup) {row : Row} :
    row ∈ matching (listing time distinct) all options query ↔
    row ∈ records.map (rowFor id time) := by
  simp [mem_matching, listing]

theorem inStep_of_inTurn (distinct : (records.map id).Nodup) (inTurn : InTurn id time records)
    {r c : Row} (isR : r ∈ matching (listing time distinct) all options query)
    (isC : c ∈ matching (listing time distinct) all options query) (column : String) :
    SameOrder column r c := by
  obtain ⟨a, isA, rfl⟩ := List.mem_map.1 ((mem_matching_listing distinct).1 isR)
  obtain ⟨b, isB, rfl⟩ := List.mem_map.1 ((mem_matching_listing distinct).1 isC)
  exact inTurn a isA b isB

/-! ## One page -/

/-- A page of rows is the page of the records that the rows stand for. -/
theorem data_of_rows (distinct : (records.map id).Nodup) {rows : List Row}
    (among : ∀ row ∈ rows, row ∈ records.map (rowFor id time)) :
    (rows.filterMap fun row => records.find? fun record => id record = row.id).map
      (rowFor id time) = rows := by
  induction rows with
  | nil => rfl
  | cons row rows inductionHypothesis =>
    obtain ⟨first, rest⟩ := List.forall_mem_cons.1 among
    obtain ⟨record, isRecord, rfl⟩ := List.mem_map.1 first
    cases found : records.find? fun other => id other = (rowFor id time record).id with
    | none => exact absurd (List.find?_eq_none.1 found record isRecord) (by simp [rowFor])
    | some other =>
      have isFound := List.find?_some found
      have sameId : id other = id record := of_decide_eq_true isFound
      have same :=
        List.inj_on_of_nodup_map distinct (List.mem_of_find?_eq_some found) isRecord sameId
      have shows : (List.filterMap (fun row : Row => records.find? fun record => id record = row.id)
          (rowFor id time record :: rows)) =
          other :: rows.filterMap fun row => records.find? fun record => id record = row.id :=
            List.filterMap_cons_some found
      rw [shows, List.map_cons, inductionHypothesis rest, same]

/-- The page of the listing that a request reads. -/
abbrev pageOf (time : ρ → ℕ) (distinct : (records.map id).Nodup) (options : PaginationQueryOptions)
    (query : Query) : Paginated :=
  listPage (listing time distinct) all options query

theorem mem_of_applied {rows : List Row} {params : PaginationParams} {row : Row}
    (shown : row ∈ applyCursorPagination rows params) : row ∈ rows := by
  unfold applyCursorPagination at shown
  split at shown
  · exact shown
  · have among := (List.mem_insertionSort _).1 (List.mem_of_mem_take shown)
    split at among
    · exact List.mem_of_mem_filter among
    · exact among

theorem mem_of_built {rows : List Row} {limit : ℚ} {column : String} {row : Row}
    (shown : row ∈ (buildPaginationResult rows limit column).data) : row ∈ rows := by
  simp only [buildPaginationResult] at shown
  split at shown
  · exact List.mem_of_mem_take shown
  · exact shown

theorem mem_of_page (distinct : (records.map id).Nodup) {row : Row}
    (member : row ∈ (pageOf time distinct options query).data) :
    row ∈ records.map (rowFor id time) := by
  have among := mem_of_applied (mem_of_built member)
  rwa [rows_listing] at among

theorem recordPage_eq (distinct : (records.map id).Nodup) :
    let page := recordPage id time records (parsePaginationQuery query options)
    page.data.map (rowFor id time) = (pageOf time distinct options query).data ∧
      page.nextCursor = (pageOf time distinct options query).nextCursor ∧
      page.count = (pageOf time distinct options query).count := by
  have isPage : buildPaginationResult
      (applyCursorPagination (records.map (rowFor id time)) (parsePaginationQuery query options))
      (parsePaginationQuery query options).limit (parsePaginationQuery query options).sortBy =
      pageOf time distinct options query := by
    rw [pageOf, listPage, rows_listing]
  dsimp only [recordPage]
  rw [isPage]
  exact ⟨data_of_rows distinct fun row => mem_of_page distinct, rfl, rfl⟩

theorem mem_of_recordPage {params : PaginationParams} {record : ρ}
    (shown : record ∈ (recordPage id time records params).data) : record ∈ records := by
  obtain ⟨row, _, found⟩ := List.mem_filterMap.1 shown
  exact List.mem_of_find?_eq_some found

/-- With one sort field there is no choice. -/
theorem sortBy_of_single (single : options.allowedSortFields = [options.defaultSortBy]) :
    (parsePaginationQuery query options).sortBy = options.defaultSortBy := by
  simp only [parsePaginationQuery, single, List.mem_singleton]
  cases query.sortBy with
  | none => rfl
  | some requested =>
    dsimp only
    split
    next isDefault => exact isDefault
    next => rfl

/-! ## All pages -/

/-- What a client asks for. -/
def ask (id time : ρ → ℕ) (records : List ρ) (options : PaginationQueryOptions) (query : Query)
    (cursor : Option Cursor) : RecordPage ρ :=
  recordPage id time records (parsePaginationQuery { query with cursor := cursor } options)

theorem ask_eq (time : ρ → ℕ) (options : PaginationQueryOptions) (query : Query)
    (distinct : (records.map id).Nodup) (cursor : Option Cursor) :
    (ask id time records options query cursor).data.map (rowFor id time) =
      (pageOf time distinct options { query with cursor := cursor }).data ∧
      (ask id time records options query cursor).nextCursor =
        (pageOf time distinct options { query with cursor := cursor }).nextCursor ∧
      (ask id time records options query cursor).count =
        (pageOf time distinct options { query with cursor := cursor }).count :=
  recordPage_eq distinct

theorem nextCursor_of_last (distinct : (records.map id).Nodup)
    (last : (pageOf time distinct options query).hasMore = false) :
    (pageOf time distinct options query).nextCursor = none := by
  simp only [pageOf, listPage, buildPaginationResult] at last ⊢
  rw [last]
  rfl

theorem asks_of_follows (distinct : (records.map id).Nodup) {cursor : Option Cursor}
    {pages : List Paginated}
    (follows : FollowsCursors (listing time distinct) all options query cursor pages) :
    ∃ asked, Asks (ask id time records options query) cursor asked ∧
      (asked.flatMap RecordPage.data).map (rowFor id time) = pages.flatMap Paginated.data ∧
      asked.map RecordPage.count = pages.map Paginated.count ∧
      ∀ record ∈ asked.flatMap RecordPage.data, record ∈ records := by
  induction follows with
  | @last cursor none =>
    obtain ⟨data, isNext, count⟩ := ask_eq time options query distinct cursor
    refine ⟨_, .last (isNext.trans (nextCursor_of_last distinct none)), ?_,
      congrArg (fun n => [n]) count, ?_⟩
    · rw [List.flatMap_singleton, List.flatMap_singleton]
      exact data
    · rw [List.flatMap_singleton]
      exact fun record => mem_of_recordPage
  | @more cursor nextCursor pages left isNext' rest inductionHypothesis =>
    obtain ⟨data, isNext, count⟩ := ask_eq time options query distinct cursor
    obtain ⟨asked, asks, same, counts, among⟩ := inductionHypothesis
    refine ⟨_, .more (isNext.trans isNext') asks, ?_, ?_, fun record member => ?_⟩
    · rw [List.flatMap_cons, List.map_append, List.flatMap_cons]
      exact congrArg₂ _ data same
    · rw [List.map_cons, List.map_cons, counts]
      exact congrArg (· :: _) count
    · rw [List.flatMap_cons] at member
      rcases List.mem_append.1 member with here | later
      · exact mem_of_recordPage here
      · exact among record later

theorem counts_of_follows (distinct : (records.map id).Nodup) {cursor : Option Cursor}
    {pages : List Paginated}
    (follows : FollowsCursors (listing time distinct) all options query cursor pages) :
    (pages.map Paginated.count).sum = (pages.flatMap Paginated.data).length := by
  induction follows with
  | last => simp [listPage, buildPaginationResult]
  | more _ _ _ inductionHypothesis =>
    rw [List.map_cons, List.sum_cons, inductionHypothesis, List.flatMap_cons, List.length_append]
    rfl

/-- The pages end, and show each record once. -/
theorem pages_of_records (distinct : (records.map id).Nodup) (room : 1 ≤ limit options query)
    (inTurn : InTurn id time records) :
    ∃ pages, Asks (ask id time records options query) none pages ∧
    (pages.flatMap RecordPage.data).Perm records ∧
      (pages.map RecordPage.count).sum = records.length := by
  have agrees : Keyset.Agrees (after (sortOrder options query) (sortBy options query)) ⌊limit
      options query⌋₊
      (matching (listing time distinct) all options query) := by
    refine agrees_iff.2 fun before c behind split _ _ r isRow =>
      inStep_of_inTurn distinct inTurn isRow ?_ _
    rw [split]
    simp
  have left : Keyset.remaining (after (sortOrder options query) (sortBy options query))
      (matching (listing time distinct) all options query) none =
      matching (listing time distinct) all options query := rfl
  obtain ⟨parts, visits, whole, _⟩ :=
    Keyset.visits_of_agrees after_irreflexive (Nat.floor_pos.2 room) agrees (List.nil_append _).symm
      (dvd_zero _) left
  obtain ⟨followed, follows, rfl⟩ := follows_of_visits visits
  rw [← List.flatMap_def] at whole
  obtain ⟨pages, asks, same, counts, among⟩ := asks_of_follows distinct follows
  rw [whole] at same
  have perm : (pages.flatMap RecordPage.data).Perm records := by
    -- Both lists have no duplicates, and the same members.
    have once : (matching (listing time distinct) all options query).Nodup :=
      distinct_matching.imp fun other same => other (congrArg Row.id same)
    refine (List.perm_ext_iff_of_nodup (List.Nodup.of_map _ (same ▸ once)) distinct.of_map).2
      fun record => ⟨among record, fun isRecord => ?_⟩
    have isRow : rowFor id time record ∈ matching (listing time distinct) all options query :=
      (mem_matching_listing distinct).2 (List.mem_map_of_mem isRecord)
    rw [← same] at isRow
    obtain ⟨other, isShown, sameRow⟩ := List.mem_map.1 isRow
    rwa [← List.inj_on_of_nodup_map distinct (among other isShown) isRecord
      (congrArg Row.id sameRow)]
  refine ⟨pages, asks, perm, ?_⟩
  rw [counts, counts_of_follows distinct follows, whole, ← same, List.length_map, perm.length_eq]

end

end SwiftBite.Verified.RecordPages
