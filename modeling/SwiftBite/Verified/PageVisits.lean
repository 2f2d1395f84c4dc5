import SwiftBite.Http.Keyset
import SwiftBite.Http.Pagination

/-! # Pages visit each row once

The query sorts by microseconds and the cursor compares milliseconds.  The two agree unless a
row that ends a page shares its millisecond with a row whose time and id stand the other way
round; and a limit below one leaves a page empty that has more behind it.
-/

set_option autoImplicit false

namespace SwiftBite.Verified.PageVisits

open Store Pagination

section

variable (table : Table Row) (filter : Row → Bool) (options : PaginationQueryOptions)
  (query : Query)

/-- The pages of a client that follows `nextCursor` until `hasMore` is false. -/
inductive FollowsCursors : Option Cursor → List Paginated → Prop where
  | last {cursor : Option Cursor}
      (none : (listPage table filter options { query with cursor := cursor }).hasMore = false) :
      FollowsCursors cursor [listPage table filter options { query with cursor := cursor }]
  | more {cursor : Option Cursor} {nextCursor : Cursor} {pages : List Paginated}
      (left : (listPage table filter options { query with cursor := cursor }).hasMore = true)
      (isNext : (listPage table filter options { query with cursor := cursor }).nextCursor =
        some nextCursor) (rest : FollowsCursors (some nextCursor) pages) :
      FollowsCursors cursor (listPage table filter options { query with cursor := cursor } :: pages)

def sortBy : String := (parsePaginationQuery query options).sortBy

def sortOrder : SortOrder := (parsePaginationQuery query options).sortOrder

def limit : ℚ := (parsePaginationQuery query options).limit

/-- The rows that match, in the order of the sort column and the id. -/
def matching : List Row :=
  (table.rows.filter filter).insertionSort
    (Precedes (sortOrder options query) (sortBy options query))

/-- The pages hold each row that matches once and in order, and `hasMore` says whether rows
remain behind a page; if so there is a cursor. -/
def VisitsEachRowOnce : Prop :=
  ∃ pages, FollowsCursors table filter options query none pages ∧
    pages.flatMap Paginated.data = matching table filter options query ∧
    ∀ before page behind, pages = before ++ page :: behind →
      (page.hasMore = true ↔
        (before ++ [page]).flatMap Paginated.data ≠ matching table filter options query) ∧
      (page.hasMore = true → page.nextCursor.isSome = true)

/-- The time and the id of two rows of one millisecond stand in the same order. -/
def SameOrder (column : String) (r c : Row) : Prop :=
  milliseconds (r.column column) = milliseconds (c.column column) →
  r.column column ≠ c.column column →
    (r.column column < c.column column ↔ r.id < c.id)

/-- A page has room for a row, and each row that ends a page, the last one excepted, is in the
same order with the rows of its millisecond. -/
def InStep : Prop :=
  (1 ≤ limit options query ∨ matching table filter options query = []) ∧
    ∀ before c behind, matching table filter options query = before ++ c :: behind →
      ⌊limit options query⌋₊ ∣ before.length + 1 → behind ≠ [] →
      ∀ r ∈ matching table filter options query,
        SameOrder (sortBy options query) r c

end

/-! ## The order of the rows -/

section

variable {order : SortOrder} {column : String}

instance : Std.Total (Precedes order column) where
  total a b := by
    cases order <;> simp only [Precedes] <;> omega

instance : IsTrans Row (Precedes order column) where
  trans a b c := by
    cases order <;> simp only [Precedes] <;> omega

/-- What stands after the last row of a page. -/
def after (order : SortOrder) (column : String) (c r : Row) : Bool :=
  standsAfter order column (cursorOf column c) r

theorem after_asc {c r : Row} :
    after .asc column c r = true ↔ milliseconds (c.column column) < milliseconds (r.column column) ∨
    milliseconds (r.column column) = milliseconds (c.column column) ∧ c.id < r.id := by
  simp only [after, standsAfter, Bool.or_eq_true, Bool.and_eq_true, decide_eq_true_eq]
  exact Iff.rfl

theorem after_desc {c r : Row} :
    after .desc column c r = true ↔
    milliseconds (r.column column) < milliseconds (c.column column) ∨
    milliseconds (r.column column) = milliseconds (c.column column) ∧ r.id < c.id := by
  simp only [after, standsAfter, Bool.or_eq_true, Bool.and_eq_true, decide_eq_true_eq]
  exact Iff.rfl

theorem after_irreflexive (c : Row) : after order column c c = false := by
  rw [← Bool.not_eq_true]
  cases order with
  | asc =>
    rw [after_asc]
    omega
  | desc =>
    rw [after_desc]
    omega

theorem after_transitive (a b c : Row) (first : after order column a b = true)
    (second : after order column b c = true) : after order column a c = true := by
  cases order with
  | asc =>
    rw [after_asc] at first second ⊢
    omega
  | desc =>
    rw [after_desc] at first second ⊢
    omega

theorem not_after_iff {r c : Row} (isBefore : Precedes order column r c) (apart : r.id ≠ c.id) :
    after order column c r = false ↔ SameOrder column r c := by
  rw [← Bool.not_eq_true, SameOrder]
  cases order with
  | asc =>
    rw [after_asc]
    simp only [Precedes, milliseconds] at isBefore ⊢
    omega
  | desc =>
    rw [after_desc]
    simp only [Precedes, milliseconds] at isBefore ⊢
    omega

theorem after_iff {r c : Row} (isBehind : Precedes order column c r) (apart : c.id ≠ r.id) :
    after order column c r = true ↔ SameOrder column r c := by
  rw [SameOrder]
  cases order with
  | asc =>
    rw [after_asc]
    simp only [Precedes, milliseconds] at isBehind ⊢
    omega
  | desc =>
    rw [after_desc]
    simp only [Precedes, milliseconds] at isBehind ⊢
    omega

/-- A cursor separates the rows around it exactly when they are in the same order as its row. -/
theorem separates_iff {before behind : List Row} {c : Row}
    (sorted : (before ++ c :: behind).Pairwise (Precedes order column))
    (distinct : (before ++ c :: behind).Pairwise fun a b => a.id ≠ b.id) :
    Keyset.Separates (after order column) before c behind ↔
    ∀ r ∈ before ++ c :: behind, SameOrder column r c := by
  obtain ⟨_, sortedBehind, sorted⟩ := List.pairwise_append.1 sorted
  obtain ⟨_, distinctBehind, distinct⟩ := List.pairwise_append.1 distinct
  have inFront : ∀ r ∈ before,
      (after order column c r = false ↔ SameOrder column r c) := fun r mem =>
    not_after_iff (sorted r mem c List.mem_cons_self) (distinct r mem c List.mem_cons_self)
  have behind' : ∀ r ∈ behind,
      (after order column c r = true ↔ SameOrder column r c) := fun r mem =>
    after_iff ((List.pairwise_cons.1 sortedBehind).1 r mem)
      ((List.pairwise_cons.1 distinctBehind).1 r mem)
  constructor
  · rintro ⟨none, all⟩ r mem
    obtain mem | rfl | mem : r ∈ before ∨ r = c ∨ r ∈ behind := by simpa using mem
    · exact (inFront r mem).1 (none r mem)
    · exact fun _ other => absurd rfl other
    · exact (behind' r mem).1 (all r mem)
  · intro same
    exact ⟨fun r mem => (inFront r mem).2 (same r (List.mem_append_left _ mem)),
      fun r mem =>
        (behind' r mem).2 (same r (List.mem_append_right _ (List.mem_cons_of_mem _ mem)))⟩

end

/-! ## One page -/

section

variable {table : Table Row} {filter : Row → Bool} {options : PaginationQueryOptions}
  {query : Query}

theorem mem_matching {r : Row} :
    r ∈ matching table filter options query ↔ r ∈ table.rows ∧ filter r = true := by
  rw [matching, List.mem_insertionSort, List.mem_filter]

theorem sorted_matching :
    (matching table filter options query).Pairwise
      (Precedes (sortOrder options query) (sortBy options query)) :=
  List.pairwise_insertionSort _ _

theorem distinct_matching :
    (matching table filter options query).Pairwise fun a b => a.id ≠ b.id := by
  have distinct : (table.rows.filter filter).Pairwise fun a b => a.id ≠ b.id :=
    (table.distinct.imp fun apart => apart.1).filter filter
  exact (List.perm_insertionSort _ _).symm.pairwise distinct fun other => Ne.symm other

/-- A condition on the rows does not change their order. -/
theorem sort_filter (p : Row → Bool) :
    ((table.rows.filter filter).filter p).insertionSort (Precedes (sortOrder options query)
      (sortBy options query)) =
    (matching table filter options query).filter p := by
  refine List.Perm.eq_of_pairwise (fun a b first second => ?_) (List.pairwise_insertionSort _ _)
    (sorted_matching.filter p)
    ((List.perm_insertionSort _ _).trans ((List.perm_insertionSort _ _).symm.filter p))
  intro isBefore isBehind
  rw [List.mem_insertionSort] at first
  have here : a ∈ table.rows := List.mem_of_mem_filter (List.mem_of_mem_filter first)
  have there : b ∈ table.rows := (mem_matching.1 (List.mem_of_mem_filter second)).1
  refine Table.eq_of_key here there ?_
  show a.id = b.id
  cases order : sortOrder options query <;>
    simp only [order, Precedes] at isBefore isBehind <;> omega

theorem sortBy_ne_empty (options : PaginationQueryOptions) (query : Query) :
    sortBy options query ≠ "" := by
  have named := options.named
  simp only [List.mem_cons, not_or] at named
  simp only [sortBy, parsePaginationQuery]
  split
  next =>
    split
    next isAllowed =>
      rintro empty
      exact named.2 (empty ▸ isAllowed)
    next => exact Ne.symm named.1
  next => exact Ne.symm named.1

theorem limit_nonneg : 0 ≤ limit options query := by
  have default : (0 : ℚ) ≤ options.defaultLimit := Nat.cast_nonneg _
  simp only [limit, parsePaginationQuery]
  split
  next =>
    split
    next positive => exact le_min (by norm_num) positive.le
    next => exact default
  next => exact default

/-- What is left behind a row of the listing. -/
abbrev remaining (table : Table Row) (filter : Row → Bool) (options : PaginationQueryOptions)
    (query : Query) (c : Option Row) : List Row :=
  Keyset.remaining (after (sortOrder options query) (sortBy options query))
    (matching table filter options query) c

/-- The request for the page behind a row. -/
abbrev behindRow (options : PaginationQueryOptions) (query : Query) (c : Option Row) : Query :=
  { query with cursor := c.map (cursorOf (sortBy options query)) }

theorem applyCursorPagination_eq (c : Option Row) :
    applyCursorPagination (table.rows.filter filter) (parsePaginationQuery
      (behindRow options query c) options) =
      (remaining table filter options query c).take (⌊limit options query⌋₊ + 1) := by
  have floor : ⌊limit options query + 1⌋₊ = ⌊limit options query⌋₊ + 1 :=
    Nat.floor_add_one limit_nonneg
  have named : (parsePaginationQuery (behindRow options query c) options).sortBy ≠ "" :=
    sortBy_ne_empty options query
  rw [applyCursorPagination, if_neg named]
  show List.take ⌊limit options query + 1⌋₊ _ = _
  rw [floor]
  cases c with
  | none => rfl
  | some c => exact congrArg (List.take _) (sort_filter _)

/-- One row more than a page has is fetched, and tells whether the page is the last one. -/
theorem buildPaginationResult_eq {limit : ℚ} (nonneg : 0 ≤ limit) (rows : List Row)
    (column : String) :
    buildPaginationResult (rows.take (⌊limit⌋₊ + 1)) limit column =
      { data := rows.take ⌊limit⌋₊
        nextCursor :=
          if ⌊limit⌋₊ < rows.length then (rows.take ⌊limit⌋₊).getLast?.map (cursorOf column)
          else none
        hasMore := decide (⌊limit⌋₊ < rows.length)
        count := (rows.take ⌊limit⌋₊).length } := by
  have more : limit < ((rows.take (⌊limit⌋₊ + 1)).length : ℚ) ↔ ⌊limit⌋₊ < rows.length := by
    rw [← Nat.floor_lt nonneg, List.length_take]
    omega
  by_cases left : ⌊limit⌋₊ < rows.length
  · have fewer : min ⌊limit⌋₊ (⌊limit⌋₊ + 1) = ⌊limit⌋₊ := by omega
    simp only [buildPaginationResult, more, left, List.take_take, fewer, decide_true, if_true]
  · have all : rows.take (⌊limit⌋₊ + 1) = rows.take ⌊limit⌋₊ := by
      rw [List.take_of_length_le (by omega), List.take_of_length_le (by omega)]
    rw [all] at more
    simp only [buildPaginationResult, more, left, all, decide_false, Bool.false_eq_true, if_false]

theorem listPage_eq (table : Table Row) (filter : Row → Bool) (options : PaginationQueryOptions)
    (query : Query) (c : Option Row) :
    listPage table filter options (behindRow options query c) =
      { data := (remaining table filter options query c).take ⌊limit options query⌋₊
        nextCursor :=
  if ⌊limit options query⌋₊ < (remaining table filter options query c).length then
          ((remaining table filter options query c).take ⌊limit options query⌋₊).getLast?.map
            (cursorOf (sortBy options query)) else none
        hasMore := decide (⌊limit options query⌋₊ < (remaining table filter options query c).length)
        count :=
  ((remaining table filter options query c).take ⌊limit options query⌋₊).length } := by
  rw [listPage, applyCursorPagination_eq]
  exact buildPaginationResult_eq limit_nonneg _ _

/-! ## All pages -/

theorem visits_of_follows {cursor : Option Cursor} {pages : List Paginated}
    (follows : FollowsCursors table filter options query cursor pages) {c : Option Row}
    (isCursor : cursor = c.map (cursorOf (sortBy options query))) :
    Keyset.Visits (after (sortOrder options query) (sortBy options query)) ⌊limit options
      query⌋₊ (matching table filter options query) c
      (pages.map Paginated.data) := by
  induction follows generalizing c with
  | last none =>
    subst isCursor
    have page := listPage_eq table filter options query c
    rw [page, decide_eq_false_iff_not, not_lt] at none
    rw [List.map_cons, List.map_nil, page, List.take_of_length_le none]
    exact .last none
  | more left isNext rest inductionHypothesis =>
    subst isCursor
    have page := listPage_eq table filter options query c
    rw [page, decide_eq_true_eq] at left
    rw [page, if_pos left] at isNext
    obtain ⟨c', isLast, isCursor⟩ := Option.map_eq_some_iff.1 isNext
    rw [List.map_cons, page]
    exact .more left isLast (inductionHypothesis (by rw [← isCursor, Option.map_some]))

theorem follows_of_visits {c : Option Row} {pages : List (List Row)}
    (visits : Keyset.Visits (after (sortOrder options query) (sortBy options query))
      ⌊limit options query⌋₊ (matching table filter options query) c pages) :
    ∃ followed,
      FollowsCursors table filter options query (c.map (cursorOf (sortBy options query))) followed ∧
      followed.map Paginated.data = pages := by
  induction visits with
  | @last c fits =>
    have page := listPage_eq table filter options query c
    refine ⟨_, .last (by rw [page]; simpa using fits), ?_⟩
    rw [List.map_cons, List.map_nil, page, List.take_of_length_le fits]
  | @more c c' pages left isLast rest inductionHypothesis =>
    have page := listPage_eq table filter options query c
    obtain ⟨followed, follows, same⟩ := inductionHypothesis
    refine ⟨_, .more (by rw [page]; simpa using left) ?_ follows, by rw [List.map_cons, same, page]⟩
    rw [page, if_pos left, isLast]
    rfl

/-- Exactly the last page says that there are no more, and the others have a cursor. -/
theorem hasMore_of_follows {cursor : Option Cursor} {pages : List Paginated}
    (follows : FollowsCursors table filter options query cursor pages)
    {before behind : List Paginated} {page : Paginated} (split : pages = before ++ page :: behind) :
    (page.hasMore = true ↔ behind ≠ []) ∧
    (page.hasMore = true → page.nextCursor.isSome = true) := by
  induction follows generalizing before with
  | last none =>
    obtain ⟨rfl, isPage, rfl⟩ : before = [] ∧ page = _ ∧
        behind = [] := by simpa [List.singleton_eq_append_iff] using split
    simp [isPage, none]
  | more left isNext rest inductionHypothesis =>
    cases before with
    | nil =>
      obtain ⟨rfl, rfl⟩ := List.cons.inj split
      refine ⟨⟨fun _ => ?_, fun _ => left⟩, fun _ => by rw [isNext]; rfl⟩
      rintro rfl
      cases rest
    | cons first before => exact inductionHypothesis (List.cons.inj split).2

theorem agrees_iff :
    Keyset.Agrees (after (sortOrder options query) (sortBy options query)) ⌊limit options query⌋₊
      (matching table filter options query) ↔
    ∀ before c behind, matching table filter options query = before ++ c :: behind →
    ⌊limit options query⌋₊ ∣ before.length + 1 →
      behind ≠ [] → ∀ r ∈ matching table filter options query,
        SameOrder (sortBy options query) r c := by
  refine forall₃_congr fun before c behind => forall₃_congr fun split _ _ => ?_
  have sorted : (matching table filter options query).Pairwise _ := sorted_matching
  have distinct : (matching table filter options query).Pairwise _ := distinct_matching
  rw [split] at sorted distinct ⊢
  exact separates_iff sorted distinct

theorem pages_visit_each_row_once_iff (table : Table Row) (filter : Row → Bool)
    (options : PaginationQueryOptions) (query : Query) :
    VisitsEachRowOnce table filter options query ↔ InStep table filter options query := by
  have distinct : (matching table filter options query).Nodup :=
    distinct_matching.imp fun other same => other (congrArg Row.id same)
  rw [InStep, ← agrees_iff]
  constructor
  · rintro ⟨pages, follows, all, _⟩
    have visits := visits_of_follows follows (c := none) rfl
    rw [List.flatMap_def] at all
    by_cases pos : 0 < ⌊limit options query⌋₊
    · exact ⟨.inl (Nat.floor_pos.1 pos),
        Keyset.agrees_of_visits_all after_transitive distinct pos visits all⟩
    · -- a page without room is the last one only when nothing matches
      have noRoom : ⌊limit options query⌋₊ = 0 := by omega
      have nothing : matching table filter options query = [] := by
        rw [noRoom] at visits
        generalize pages.map Paginated.data = parts at visits
        cases visits with
        | last fits => simpa [Keyset.remaining] using fits
        | more _ impossible => simp at impossible
      refine ⟨.inr nothing, fun before c behind split => ?_⟩
      rw [nothing] at split
      simp at split
  · rintro ⟨room, agrees⟩
    obtain ⟨parts, visits, all, full⟩ : ∃ parts,
        Keyset.Visits (after (sortOrder options query) (sortBy options query))
        ⌊limit options query⌋₊ (matching table filter options query) none parts ∧
        parts.flatten = matching table filter options query ∧
        (matching table filter options query ≠ [] → ∀ part ∈ parts, part ≠ []) := by
      obtain room | nothing := room
      · exact Keyset.visits_of_agrees after_irreflexive (Nat.floor_pos.2 room) agrees
          (List.nil_append _).symm (dvd_zero _) rfl
      · exact ⟨[matching table filter options query], .last (by simp [Keyset.remaining, nothing]),
          by simp, fun some => absurd nothing some⟩
    obtain ⟨pages, follows, rfl⟩ := follows_of_visits visits
    rw [← List.flatMap_def] at all
    refine ⟨pages, follows, all, fun before page behind split => ?_⟩
    obtain ⟨isLast, isSome⟩ := hasMore_of_follows follows split
    refine ⟨isLast.trans (not_congr ⟨?_, fun same => ?_⟩), isSome⟩
    · rintro rfl
      rw [← all, split]
    · -- a page behind would be empty
      cases behind with
      | nil => rfl
      | cons next behind =>
        have some : matching table filter options query ≠ [] := by
          intro nothing
          have first := listPage_eq table filter options query none
          cases follows with
          | last => simp [List.singleton_eq_append_iff] at split
          | more left =>
            rw [first, decide_eq_true_eq] at left
            simp [Keyset.remaining, nothing] at left
        have nonempty : next.data ≠ [] := full some _ (List.mem_map_of_mem (by simp [split]))
        have rest : next.data ++ behind.flatMap Paginated.data = [] := by
          have total : (before ++ [page]).flatMap Paginated.data ++
              (next.data ++ behind.flatMap Paginated.data) =
              (before ++ [page]).flatMap Paginated.data :=
            calc (before ++ [page]).flatMap Paginated.data ++
              (next.data ++ behind.flatMap Paginated.data)
                = pages.flatMap Paginated.data := by simp [split]
              _ = matching table filter options query := all
              _ = (before ++ [page]).flatMap Paginated.data := same.symm
          simpa using total
        exact absurd (List.append_eq_nil_iff.1 rest).1 nonempty

end

/-! ## Two rows of one millisecond -/

def createdAt : PaginationQueryOptions := ⟨["created_at"], "created_at", 20, by decide⟩

/-- The row with the greater id was created one microsecond earlier. -/
def twoRows : Table Row := (Table.empty.insert ⟨2, fun _ => 1000⟩).insert ⟨1, fun _ => 1001⟩

def perPage (limit : ℚ) : Query := ⟨none, some limit, none, none⟩

/-- One row a page: the second row does not stand behind the first.  Half a row a page: the first
page is empty and has no cursor. -/
theorem page_misses_a_row : ¬ VisitsEachRowOnce twoRows (fun _ => true) createdAt (perPage 1) ∧
    ¬ VisitsEachRowOnce twoRows (fun _ => true) createdAt (perPage (1 / 2)) := by
  constructor
  · rintro ⟨pages, follows, all, _⟩
    have ids := congrArg (List.map Row.id) all
    have both : (matching twoRows (fun _ => true) createdAt (perPage 1)).map Row.id = [2, 1] := by
      decide +kernel
    rw [both] at ids
    cases follows with
    | last none => exact absurd none (by decide +kernel)
    | @more _ nextCursor _ _ isNext rest =>
      obtain rfl : nextCursor = ⟨1, 2⟩ := Option.some.inj (isNext.symm.trans (by decide +kernel))
      cases rest with
      | last => exact absurd ids (by decide +kernel)
      | more left => exact absurd left (by decide +kernel)
  · rintro ⟨pages, follows, _, _⟩
    cases follows with
    | last none => exact absurd none (by decide +kernel)
    | more _ isNext =>
      have none : (listPage twoRows (fun _ => true) createdAt { perPage (1 / 2) with
          cursor := none }).nextCursor = none := by
        decide +kernel
      rw [none] at isNext
      cases isNext

end SwiftBite.Verified.PageVisits
