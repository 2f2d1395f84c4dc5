import SwiftBite.Verified.StraddlingLists

/-! # The databases of a date range

A list of a restaurant that is bounded from both sides reads every database that has an order
within its bounds.  Only the first bound of either side is looked at: an order within all bounds
is within these two.
-/

set_option autoImplicit false

namespace SwiftBite.Verified.DateRouting

open Store Pagination OrderLists StraddlingLists

inductive Connection where
  | hot
  | archive
  deriving DecidableEq

def Connection.choose (hot archive : Database) : Connection → Database
  | .hot => hot
  | .archive => archive

/-- What `listRestaurantOrders` reads. -/
def consulted : DateRangeLocation → List Connection
  | .hot => [.hot]
  | .archive => [.archive]
  | .straddle => [.hot, .archive]

/-- The archive has the orders of earlier years, and hot those of this one. -/
structure Divided (hot archive : Database) (now : ℕ) : Prop where
  hot : ∀ order ∈ (hot .orders).rows, Calendar.yearStart (Calendar.yearOf now) ≤
    Order.createdAt order
  archive : ∀ order ∈ (archive .orders).rows,
    Order.createdAt order < Calendar.yearStart (Calendar.yearOf now)

/-- What PostgreSQL makes of a bound on `created_at`. -/
def Allows (operator : Operator) (bound : ℤ) (time : ℕ) : Prop :=
  match operator with
  | .gt => bound < time
  | .gte => bound ≤ time
  | .lt => time < bound
  | .lte => time ≤ bound
  | _ => True

section

variable {V : Type} (date : V → Option ℤ) (satisfies : FilterParams V → Order → Bool)

def IsUpper (filter : FilterParams V) : Prop :=
  filter.field = "created_at" ∧ (filter.operator = .lte ∨ filter.operator = .lt)

def IsLower (filter : FilterParams V) : Prop :=
  filter.field = "created_at" ∧ (filter.operator = .gte ∨ filter.operator = .gt)

/-- JavaScript has read the instant with which PostgreSQL compares. -/
def SameInstant (filter : FilterParams V) : Prop :=
  ∃ instant : ℤ, date filter.value = some instant ∧
    ∀ order : Order, satisfies filter order = true ↔
    Allows filter.operator (instant * 1000) order.createdAt

end

/-! ## The classifier -/

section

variable {V : Type} {date : V → Option ℤ} {satisfies : FilterParams V → Order → Bool}
  {hot archive : Database} {now branchId : ℕ}
  {filters : List (FilterParams V)} {filter : FilterParams V} {order : Order}

theorem le_of_isUpper (isUpper : IsUpper filter) (same : SameInstant date satisfies filter)
    (holds : satisfies filter order = true) :
    ∃ instant : ℤ, date filter.value = some instant ∧ order.createdAt ≤ instant * 1000 := by
  obtain ⟨instant, isDate, compares⟩ := same
  have allowed := (compares order).1 holds
  refine ⟨instant, isDate, ?_⟩
  -- a strict bound is a bound
  rcases isUpper.2 with isOperator | isOperator <;>
    simp only [isOperator, Allows] at allowed <;> omega

theorem le_of_isLower (isLower : IsLower filter) (same : SameInstant date satisfies filter)
    (holds : satisfies filter order = true) :
    ∃ instant : ℤ, date filter.value = some instant ∧ instant * 1000 ≤ order.createdAt := by
  obtain ⟨instant, isDate, compares⟩ := same
  have allowed := (compares order).1 holds
  refine ⟨instant, isDate, ?_⟩
  rcases isLower.2 with isOperator | isOperator <;>
    simp only [isOperator, Allows] at allowed <;> omega

/-- With a bound on either side, the classifier decides by two of the bounds. -/
theorem classifyDateRange_eq (date : V → Option ℤ) (now : ℕ)
    (upper : ∃ filter ∈ filters, IsUpper filter) (lower : ∃ filter ∈ filters, IsLower filter) :
    ∃ upper ∈ filters, IsUpper upper ∧ ∃ lower ∈ filters, IsLower lower ∧
      classifyDateRange date now filters =
        if (date upper.value).any fun upperDate : ℤ =>
          upperDate * 1000 < Calendar.yearStart (Calendar.yearOf now) then .archive
        else if (date lower.value).any fun lowerDate : ℤ =>
          Calendar.yearStart (Calendar.yearOf now) ≤ lowerDate * 1000 then .hot
        else .straddle := by
  obtain ⟨someUpper, upperIn, isUpper⟩ := upper
  obtain ⟨someLower, lowerIn, isLower⟩ := lower
  have anUpper : (filters.find? fun f =>
      f.field = "created_at" && (f.operator = .lte || f.operator = .lt)).isSome :=
    List.find?_isSome.2 ⟨someUpper, upperIn, by simpa [IsUpper] using isUpper⟩
  have aLower : (filters.find? fun f =>
      f.field = "created_at" && (f.operator = .gte || f.operator = .gt)).isSome :=
    List.find?_isSome.2 ⟨someLower, lowerIn, by simpa [IsLower] using isLower⟩
  obtain ⟨firstUpper, isFirstUpper⟩ := Option.isSome_iff_exists.1 anUpper
  obtain ⟨firstLower, isFirstLower⟩ := Option.isSome_iff_exists.1 aLower
  refine ⟨firstUpper, List.mem_of_find?_eq_some isFirstUpper, ?_, firstLower,
    List.mem_of_find?_eq_some isFirstLower, ?_, ?_⟩
  · simpa [IsUpper] using List.find?_some isFirstUpper
  · simpa [IsLower] using List.find?_some isFirstLower
  · simp only [classifyDateRange, isFirstUpper, isFirstLower]

/-- An order within the bounds is where the classifier looks. -/
theorem mem_consulted
    (same : ∀ filter ∈ filters, IsUpper filter ∨ IsLower filter → SameInstant date satisfies filter)
    (upper : ∃ filter ∈ filters, IsUpper filter) (lower : ∃ filter ∈ filters, IsLower filter)
    (divided : Divided hot archive now)
    (matching : ∀ filter ∈ filters, satisfies filter order = true) {connection : Connection}
    (stored : order ∈ (connection.choose hot archive .orders).rows) :
    connection ∈ consulted (classifyDateRange date now filters) := by
  obtain ⟨upper, upperIn, isUpper, lower, lowerIn, isLower, classified⟩ :=
    classifyDateRange_eq date now upper lower
  obtain ⟨latest, isLatest, before⟩ :=
    le_of_isUpper isUpper (same upper upperIn (.inl isUpper)) (matching upper upperIn)
  obtain ⟨earliest, isEarliest, after⟩ :=
    le_of_isLower isLower (same lower lowerIn (.inr isLower)) (matching lower lowerIn)
  rw [classified, isLatest, isEarliest, Option.any_some, Option.any_some]
  cases connection with
  | hot =>
    -- the order is of this year, so the upper bound is not before it
    have thisYear := divided.hot order stored
    rw [if_neg (by rw [decide_eq_true_eq]; omega)]
    split <;> simp [consulted]
  | archive =>
    -- the order is of an earlier year, so the lower bound is not in this one
    have earlier := divided.archive order stored
    split
    · simp [consulted]
    · rw [if_neg (by rw [decide_eq_true_eq]; omega)]
      simp [consulted]

end

/-! ## The list -/

section

variable {V : Type} {date : V → Option ℤ} {satisfies : FilterParams V → Order → Bool}
  {hot archive hot' archive' : Database} {now branchId : ℕ}
  {filters : List (FilterParams V)} {branch : CoreBranch} {actor : RequestActor}

/-- The list depends on no other database. -/
theorem listRestaurantOrders_congr (params : PaginationParams)
    (agree : ∀ connection ∈ consulted (classifyDateRange date now filters),
      connection.choose hot archive = connection.choose hot' archive') :
    listRestaurantOrders date satisfies hot archive now branch branchId filters params actor =
      listRestaurantOrders date satisfies hot' archive' now branch branchId filters
        params actor := by
  cases location : classifyDateRange date now filters with
  | hot =>
    rw [location] at agree
    have sameHot : hot = hot' := agree .hot (by simp [consulted])
    simp only [listRestaurantOrders, location, sameHot]
  | archive =>
    rw [location] at agree
    have sameArchive : archive = archive' := agree .archive (by simp [consulted])
    simp only [listRestaurantOrders, location, sameArchive]
  | straddle =>
    rw [location] at agree
    have sameHot : hot = hot' := agree .hot (by simp [consulted])
    have sameArchive : archive = archive' := agree .archive (by simp [consulted])
    simp only [listRestaurantOrders, location, sameHot, sameArchive]

/-- A page with room for all of them has the matching orders of the databases that are read. -/
theorem mem_listRestaurantOrders {limit : ℕ} (sortOrder : SortOrder)
    (allowed : mayList branch branchId actor = true)
    (room : (applyFilters satisfies hot branchId filters).length +
      (applyFilters satisfies archive branchId filters).length ≤ limit) {connection : Connection}
    (isConsulted : connection ∈ consulted (classifyDateRange date now filters)) {order : Order}
    (matching : order ∈ applyFilters satisfies (connection.choose hot archive) branchId filters) :
    ∃ page, listRestaurantOrders date satisfies hot archive now branch branchId filters
      ⟨none, limit, "created_at", sortOrder⟩ actor = some page ∧
      order ∈ page.data.map Prod.fst := by
  have onPage : ∀ conn : Database, (applyFilters satisfies conn branchId filters).length ≤ limit →
      order ∈ applyFilters satisfies conn branchId filters →
      order ∈ (sorted satisfies conn branchId filters sortOrder "created_at").take limit :=
        fun conn short member => by
    rw [List.take_of_length_le (by simpa [sorted] using short)]
    exact (sorted_perm conn "created_at").mem_iff.2 member
  have single : ∀ conn : Database, (applyFilters satisfies conn branchId filters).length ≤ limit →
      order ∈ applyFilters satisfies conn branchId filters →
      order ∈ (listRestaurantOrders.page satisfies branchId filters ⟨none, limit, "created_at",
        sortOrder⟩ conn).data.map Prod.fst :=
    fun conn short member => by
      rw [listRestaurantOrders.page]
      simp only [data_findOrdersByBranch, orders_countItemsByOrder]
      exact onPage conn short member
  cases location : classifyDateRange date now filters with
  | hot =>
    rw [location] at isConsulted
    obtain rfl : connection = .hot := by simpa [consulted] using isConsulted
    exact ⟨_, by simp only [listRestaurantOrders, allowed, if_true, location],
      single hot (by omega) matching⟩
  | archive =>
    rw [location] at isConsulted
    obtain rfl : connection = .archive := by simpa [consulted] using isConsulted
    exact ⟨_, by simp only [listRestaurantOrders, allowed, if_true, location],
      single archive (by omega) matching⟩
  | straddle =>
    refine ⟨_, listRestaurantOrders_straddle none allowed location, ?_⟩
    -- The page has room for the rows of both databases.
    have whole : (merged satisfies hot archive branchId filters sortOrder limit).take limit =
        merged satisfies hot archive branchId filters sortOrder limit :=
      List.take_of_length_le (by rw [length_merged]; omega)
    rw [whole, (perm_merged satisfies hot archive branchId filters sortOrder limit).mem_iff,
      List.mem_append]
    cases connection with
    | hot => exact .inl (onPage hot (by omega) matching)
    | archive => exact .inr (onPage archive (by omega) matching)

end

/-- The order is on a page of the list that has room for all matching orders of both databases. -/
def Listed {V : Type} (date : V → Option ℤ) (satisfies : FilterParams V → Order → Bool)
    (hot archive : Database) (now branchId : ℕ) (filters : List (FilterParams V))
    (order : Order) : Prop :=
  ∀ branch actor limit sortOrder, mayList branch branchId actor = true →
    (applyFilters satisfies hot branchId filters).length +
      (applyFilters satisfies archive branchId filters).length ≤ limit →
      ∃ page, listRestaurantOrders date satisfies hot archive now branch branchId filters
          ⟨none, (limit : ℕ), "created_at", sortOrder⟩ actor = some page ∧
          order ∈ page.data.map Prod.fst

/-- However many bounds there are, and in whatever order. -/
theorem matching_order_is_consulted {V : Type} (date : V → Option ℤ)
    (satisfies : FilterParams V → Order → Bool) (hot archive : Database) (now branchId : ℕ)
    (filters : List (FilterParams V))
    (same : ∀ filter ∈ filters, IsUpper filter ∨ IsLower filter → SameInstant date satisfies filter)
    (upper : ∃ filter ∈ filters, IsUpper filter) (lower : ∃ filter ∈ filters, IsLower filter)
    (divided : Divided hot archive now) (order : Order)
    (stored : order ∈ (hot .orders).rows ++ (archive .orders).rows)
    (ofBranch : order.branchId = branchId)
    (matching : ∀ filter ∈ filters, satisfies filter order = true) :
    (∃ connection ∈ consulted (classifyDateRange date now filters),
      order ∈ applyFilters satisfies (connection.choose hot archive) branchId filters) ∧
      Listed date satisfies hot archive now branchId filters order := by
  have kept : ∀ connection : Connection, order ∈ (connection.choose hot archive .orders).rows →
      order ∈ applyFilters satisfies (connection.choose hot archive) branchId filters :=
        fun connection member =>
    List.mem_filter.2 ⟨member, by simpa [ofBranch] using matching⟩
  have found : ∃ connection ∈ consulted (classifyDateRange date now filters),
      order ∈ applyFilters satisfies (connection.choose hot archive) branchId filters := by
    rcases List.mem_append.1 stored with inHot | inArchive
    · exact ⟨.hot, mem_consulted same upper lower divided matching inHot, kept .hot inHot⟩
    · exact ⟨.archive, mem_consulted same upper lower divided matching inArchive,
        kept .archive inArchive⟩
  obtain ⟨connection, isConsulted, among⟩ := found
  exact ⟨⟨connection, isConsulted, among⟩, fun _ _ _ sortOrder allowed room =>
    mem_listRestaurantOrders sortOrder allowed room isConsulted among⟩

/-- The order of 2025, in July 2026. -/
theorem order_of_2025_is_consulted :
    (∃ connection ∈ consulted (classifyDateRange some july twoYears),
      order2025 ∈ applyFilters inRange
        (connection.choose (holding [order2026]) (holding [order2025])) 6 twoYears) ∧
      Listed some inRange (holding [order2026]) (holding [order2025]) july 6 twoYears
        order2025 := by
  have stored : (holding [order2025] .orders).rows = [order2025] := rfl
  refine matching_order_is_consulted some inRange (holding [order2026])
    (holding [order2025]) july 6 twoYears ?_
    ⟨twoYears[1], by simp [twoYears], rfl, .inl rfl⟩
    ⟨twoYears[0], by simp [twoYears], rfl, .inl rfl⟩ ⟨by decide +kernel, by decide +kernel⟩
    order2025 (List.mem_append_right _ (by simp [stored])) rfl (by decide +kernel)
  simp [twoYears, SameInstant, inRange, Allows]

end SwiftBite.Verified.DateRouting
