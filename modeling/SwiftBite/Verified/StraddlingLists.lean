import SwiftBite.Service.OrderLists
import SwiftBite.Store.Merge
import SwiftBite.Verified.Runs

/-! # Lists from both databases

A list of a restaurant that spans the turn of the year is put together from a page of each
database.  It is the head of the union when no order that is in both stands among it, and says
rightly whether there is more unless only one of the databases has anything to give.
-/

set_option autoImplicit false

namespace SwiftBite.Verified.StraddlingLists

open Store Pagination OrderLists

/-- Orders have creation times of their own, to the millisecond, and the same in both databases. -/
def Distinct (hot archive : Database) : Prop :=
  ∀ a ∈ (hot .orders).rows ++ (archive .orders).rows,
    ∀ b ∈ (hot .orders).rows ++ (archive .orders).rows,
    Order.id a = Order.id b ↔ milliseconds (Order.createdAt a) = milliseconds (Order.createdAt b)

section

variable {V : Type} (date : V → Option ℤ) (satisfies : FilterParams V → Order → Bool)
  (hot archive : Database) (branchId : ℕ)
  (filters : List (FilterParams V)) (sortOrder : SortOrder) (limit : ℕ)

/-- The matching orders that are in both databases. -/
def common : List Order :=
  (applyFilters satisfies archive branchId filters).filter fun order =>
    decide (order.id ∈ (applyFilters satisfies hot branchId filters).map Order.id)

/-- The matching orders of the two databases, each of them once. -/
def union : List Order :=
  applyFilters satisfies hot branchId filters ++
    (applyFilters satisfies archive branchId filters).filter fun order =>
    !decide (order.id ∈ (applyFilters satisfies hot branchId filters).map Order.id)

/-- In the order of their creation. -/
def inOrder (orders : List Order) : List Order :=
  orders.insertionSort fun a b => sortKey sortOrder a ≤ sortKey sortOrder b

/-- The page has the first orders of the union, and says whether there are more. -/
def Exact (page : OrderPage) : Prop :=
  page.data.map (fun listed => listed.1.id) =
      ((inOrder sortOrder (union satisfies hot archive branchId filters)).take limit).map Order.id ∧
    (page.hasMore = true ↔ limit < (union satisfies hot archive branchId filters).length)

/-- An order that is in both databases stands no earlier than the last place of the page, and
then something follows; and where one database has nothing, the other has no more than a page. -/
structure Untangled : Prop where
  behind : ∀ order ∈ common satisfies hot archive branchId filters,
    limit ≤ upTo (sortKey sortOrder order) ((union satisfies hot archive branchId filters).map
      (sortKey sortOrder))
  more : common satisfies hot archive branchId filters ≠ [] →
    limit < (union satisfies hot archive branchId filters).length
  onlyHot : applyFilters satisfies archive branchId filters = [] →
    (applyFilters satisfies hot branchId filters).length ≤ limit
  onlyArchive : applyFilters satisfies hot branchId filters = [] →
    (applyFilters satisfies archive branchId filters).length ≤ limit

end

/-! ## The pages -/

section

variable {V : Type} {satisfies : FilterParams V → Order → Bool} {branchId : ℕ}
  {filters : List (FilterParams V)} {sortOrder : SortOrder}
  {limit : ℕ}

theorem milliseconds_mono {a b : ℕ} (le : a ≤ b) : milliseconds a ≤ milliseconds b :=
  Nat.div_le_div_right le

theorem key_le_of_precedes {column : String} {a b : Order}
    (precedes : Precedes sortOrder column (rowOf a) (rowOf b)) :
    sortKey sortOrder a ≤ sortKey sortOrder b := by
  cases sortOrder with
  | asc =>
    have le : a.createdAt ≤ b.createdAt := precedes.elim Nat.le_of_lt fun tie => tie.1.le
    exact Int.ofNat_le.2 (milliseconds_mono le)
  | desc =>
    have le : b.createdAt ≤ a.createdAt := precedes.elim Nat.le_of_lt fun tie => tie.1.le
    exact Int.neg_le_neg (Int.ofNat_le.2 (milliseconds_mono le))

instance {column : String} :
    Std.Total fun a b : Order => Precedes sortOrder column (rowOf a) (rowOf b) where
  total a b := by
    cases sortOrder <;> simp only [Precedes] <;> omega

instance {column : String} :
    IsTrans Order fun a b => Precedes sortOrder column (rowOf a) (rowOf b) where
  trans a b c := by
    cases sortOrder <;> simp only [Precedes] <;> omega

/-- The matching orders of a database, as it sorts them. -/
def sorted (satisfies : FilterParams V → Order → Bool) (conn : Database) (branchId : ℕ)
    (filters : List (FilterParams V)) (sortOrder : SortOrder) (column : String) : List Order :=
  (applyFilters satisfies conn branchId filters).insertionSort fun a b =>
    Precedes sortOrder column (rowOf a) (rowOf b)

theorem sorted_keys (conn : Database) (column : String) :
    ((sorted satisfies conn branchId filters sortOrder column).map (sortKey sortOrder)).Pairwise
      (· ≤ ·) := by
  rw [List.pairwise_map]
  exact (List.pairwise_insertionSort _ _).imp key_le_of_precedes

theorem sorted_perm (conn : Database) (column : String) :
    (sorted satisfies conn branchId filters sortOrder column).Perm
      (applyFilters satisfies conn branchId filters) :=
  List.perm_insertionSort _ _

/-- Without a cursor, a page is the head of the sorted orders. -/
theorem data_findOrdersByBranch (conn : Database) (column : String) :
    (findOrdersByBranch satisfies conn branchId filters ⟨none, limit, column, sortOrder⟩).1 =
      (sorted satisfies conn branchId filters sortOrder column).take limit := by
  have floor : ⌊(limit : ℚ)⌋₊ = limit := Nat.floor_natCast limit
  have floor_succ : ⌊(limit : ℚ) + 1⌋₊ = limit + 1 := by
    rw [Nat.floor_add_one (Nat.cast_nonneg limit), floor]
  simp only [findOrdersByBranch, floor, floor_succ, Nat.cast_lt]
  rw [← sorted]
  split
  next => rw [List.take_take, Nat.min_eq_left (Nat.le_succ limit)]
  next short =>
    simp only [List.length_take, decide_eq_true_eq, not_lt] at short
    rw [List.take_of_length_le (by omega), List.take_of_length_le (by omega)]

/-! ## The union -/

variable {hot archive : Database} {bound : ℤ}

theorem upTo_perm {xs ys : List ℤ} (perm : xs.Perm ys) : upTo bound xs = upTo bound ys :=
  perm.countP_eq _

theorem perm_union_common :
    (union satisfies hot archive branchId filters ++
      common satisfies hot archive branchId filters).Perm
    (applyFilters satisfies hot branchId filters ++
      applyFilters satisfies archive branchId filters) := by
  rw [union, common, List.append_assoc]
  exact (List.perm_append_comm.trans (List.filter_append_perm _ _)).append_left _

theorem length_union_common :
    (union satisfies hot archive branchId filters).length +
      (common satisfies hot archive branchId filters).length =
    (applyFilters satisfies hot branchId filters).length +
      (applyFilters satisfies archive branchId filters).length := by
  simpa using perm_union_common.length_eq

theorem upTo_union_common :
    upTo bound ((union satisfies hot archive branchId filters).map (sortKey sortOrder)) +
    upTo bound ((common satisfies hot archive branchId filters).map (sortKey sortOrder)) =
      upTo bound ((applyFilters satisfies hot branchId filters).map (sortKey sortOrder)) +
        upTo bound ((applyFilters satisfies archive branchId filters).map (sortKey sortOrder)) := by
  rw [← upTo_append, ← upTo_append, ← List.map_append, ← List.map_append]
  exact upTo_perm (perm_union_common.map _)

/-- Who is in both databases leaves neither of them empty. -/
theorem pos_of_common (some : 0 < (common satisfies hot archive branchId filters).length) :
    0 < (applyFilters satisfies hot branchId filters).length ∧
    0 < (applyFilters satisfies archive branchId filters).length := by
  obtain ⟨order, member⟩ := List.exists_mem_of_length_pos some
  obtain ⟨inArchive, inBoth⟩ := List.mem_filter.1 member
  obtain ⟨other, inHot, _⟩ := List.mem_map.1 (of_decide_eq_true inBoth)
  exact ⟨List.length_pos_of_mem inHot, List.length_pos_of_mem inArchive⟩

theorem mem_of_union {order : Order}
    (member : order ∈ union satisfies hot archive branchId filters) :
    order ∈ (hot .orders).rows ++ (archive .orders).rows := by
  rcases List.mem_append.1 member with inHot | inArchive
  · exact List.mem_append_left _ (List.mem_of_mem_filter inHot)
  · exact List.mem_append_right _ (List.mem_of_mem_filter (List.mem_of_mem_filter inArchive))

theorem sortKey_eq_iff {a b : Order} :
    sortKey sortOrder a = sortKey sortOrder b ↔
    milliseconds a.createdAt = milliseconds b.createdAt := by
  cases sortOrder <;> simp [sortKey]

theorem map_eq_map_iff {α β γ : Type} {f : α → β} {g : α → γ} {xs ys : List α}
    (same : ∀ x ∈ xs, ∀ y ∈ ys, f x = f y ↔ g x = g y) :
    xs.map f = ys.map f ↔ xs.map g = ys.map g := by
  induction xs generalizing ys with
  | nil => cases ys <;> simp
  | cons x xs inductionHypothesis =>
    cases ys with
    | nil => simp
    | cons y ys =>
      rw [List.map_cons, List.map_cons, List.map_cons, List.map_cons, List.cons.injEq,
        List.cons.injEq,
        same x List.mem_cons_self y List.mem_cons_self,
        inductionHypothesis fun x' inXs y' inYs =>
          same x' (List.mem_cons_of_mem _ inXs) y' (List.mem_cons_of_mem _ inYs)]

theorem take_map_eq_iff {α β γ : Type} {f : α → β} {g : α → γ} {xs ys : List α} {n : ℕ}
    (same : ∀ x ∈ xs, ∀ y ∈ ys, f x = f y ↔ g x = g y) :
    (xs.map f).take n = (ys.map f).take n ↔ (xs.map g).take n = (ys.map g).take n := by
  rw [← List.map_take, ← List.map_take, ← List.map_take, ← List.map_take]
  exact map_eq_map_iff fun x inXs y inYs =>
    same x (List.mem_of_mem_take inXs) y (List.mem_of_mem_take inYs)

/-- Whether there are more, once the page is right. -/
theorem more_iff {h a c u limit : ℕ} (pos : 1 ≤ limit) (all : u + c = h + a)
    (both : 0 < c → 0 < h ∧ 0 < a) (behind : 0 < c → limit ≤ u) :
    (limit < min limit h + min limit a ↔ limit < u) ↔
    (0 < c → limit < u) ∧ (a = 0 → h ≤ limit) ∧ (h = 0 → a ≤ limit) := by
  omega

end

/-! ## The merged page -/

section

variable {V : Type} {satisfies : FilterParams V → Order → Bool} {hot archive : Database}
  {branchId : ℕ}
  {filters : List (FilterParams V)} {sortOrder : SortOrder} {limit : ℕ}

theorem orders_countItemsByOrder (conn : Database) (orders : List Order) :
    (countItemsByOrder conn orders).map Prod.fst = orders := by
  simp [countItemsByOrder, Function.comp_def]

instance : Std.Total fun a b : Order × ℕ => sortKey sortOrder a.1 ≤ sortKey sortOrder b.1 where
  total _ _ := le_total _ _

instance : IsTrans (Order × ℕ) fun a b => sortKey sortOrder a.1 ≤ sortKey sortOrder b.1 where
  trans _ _ _ := le_trans

instance : Std.Total fun a b : Order => sortKey sortOrder a ≤ sortKey sortOrder b where
  total _ _ := le_total _ _

instance : IsTrans Order fun a b => sortKey sortOrder a ≤ sortKey sortOrder b where
  trans _ _ _ := le_trans

/-- The two pages, merged. -/
def merged (satisfies : FilterParams V → Order → Bool) (hot archive : Database) (branchId : ℕ)
    (filters : List (FilterParams V)) (sortOrder : SortOrder) (limit : ℕ) : List (Order × ℕ) :=
  (countItemsByOrder hot
    ((sorted satisfies hot branchId filters sortOrder "created_at").take limit) ++
    countItemsByOrder archive
      ((sorted satisfies archive branchId filters sortOrder "created_at").take limit)).insertionSort
      fun a b => sortKey sortOrder a.1 ≤ sortKey sortOrder b.1

variable (satisfies hot archive branchId filters sortOrder limit)

theorem perm_merged :
    ((merged satisfies hot archive branchId filters sortOrder limit).map Prod.fst).Perm
    ((sorted satisfies hot branchId filters sortOrder "created_at").take limit ++
      (sorted satisfies archive branchId filters sortOrder "created_at").take limit) := by
  refine ((List.perm_insertionSort _ _).map Prod.fst).trans ?_
  rw [List.map_append, orders_countItemsByOrder, orders_countItemsByOrder]

theorem keys_merged :
    ((merged satisfies hot archive branchId filters sortOrder limit).map fun listed =>
      sortKey sortOrder listed.1).Pairwise
    (· ≤ ·) := by
  rw [List.pairwise_map]
  exact List.pairwise_insertionSort _ _

theorem length_merged :
    (merged satisfies hot archive branchId filters sortOrder limit).length =
    min limit (applyFilters satisfies hot branchId filters).length +
      min limit (applyFilters satisfies archive branchId filters).length := by
  have length := (perm_merged satisfies hot archive branchId filters sortOrder limit).length_eq
  simpa [sorted] using length

/-- The keys of the merged page are the first of the union when no common order stands among
them. -/
theorem take_keys_iff :
    ((merged satisfies hot archive branchId filters sortOrder limit).map fun listed =>
      sortKey sortOrder listed.1).take limit =
        ((inOrder sortOrder (union satisfies hot archive branchId filters)).map
          (sortKey sortOrder)).take limit ↔
      ∀ order ∈ common satisfies hot archive branchId filters,
        limit ≤ upTo (sortKey sortOrder order) ((union satisfies hot archive branchId filters).map
          (sortKey sortOrder)) := by
  have unionKeys : ((inOrder sortOrder (union satisfies hot archive branchId filters)).map
      (sortKey sortOrder)).Perm
      ((union satisfies hot archive branchId filters).map (sortKey sortOrder)) :=
        (List.perm_insertionSort _ _).map _
  have pageKeys : ((merged satisfies hot archive branchId filters sortOrder limit).map fun listed =>
      sortKey sortOrder listed.1).Perm
      (((sorted satisfies hot branchId filters sortOrder "created_at").map
      (sortKey sortOrder)).take limit ++
        ((sorted satisfies archive branchId filters sortOrder "created_at").map
          (sortKey sortOrder)).take limit) := by
    have perm := (perm_merged satisfies hot archive branchId filters sortOrder limit).map
      (sortKey sortOrder)
    rwa [List.map_map, List.map_append, List.map_take, List.map_take] at perm
  have sortedUnion : ((inOrder sortOrder (union satisfies hot archive branchId filters)).map
      (sortKey sortOrder)).Pairwise (· ≤ ·) := by
    rw [List.pairwise_map]
    exact List.pairwise_insertionSort _ _
  -- Up to any key the union counts what the two lists count, a common order once.
  have isUnion : ∀ bound : ℤ, upTo bound
      ((inOrder sortOrder (union satisfies hot archive branchId filters)).map (sortKey sortOrder)) +
      upTo bound ((common satisfies hot archive branchId filters).map (sortKey sortOrder)) =
        upTo bound ((sorted satisfies hot branchId filters sortOrder "created_at").map
          (sortKey sortOrder)) +
          upTo bound ((sorted satisfies archive branchId filters sortOrder "created_at").map
            (sortKey sortOrder)) := fun bound => by
    rw [upTo_perm unionKeys, upTo_perm ((sorted_perm hot "created_at").map _),
      upTo_perm ((sorted_perm archive "created_at").map _)]
    exact upTo_union_common
  rw [take_merged_iff (sorted_keys hot "created_at") (sorted_keys archive "created_at")
    (keys_merged satisfies hot archive branchId filters sortOrder limit) sortedUnion
    (fun bound => (upTo_perm pageKeys).trans upTo_append) isUnion,
    List.forall_mem_map]
  simp only [upTo_perm unionKeys]

variable {satisfies hot archive branchId filters sortOrder limit}

/-- What the list of a range across the turn of the year is. -/
theorem listRestaurantOrders_straddle {date : V → Option ℤ} {now : ℕ} {branch : CoreBranch}
    {actor : RequestActor} (cursor : Option Cursor) (allowed : mayList branch branchId actor = true)
    (straddles : classifyDateRange date now filters = .straddle) :
    listRestaurantOrders date satisfies hot archive now branch branchId filters
      ⟨cursor, limit, "created_at", sortOrder⟩ actor =
      some ⟨(merged satisfies hot archive branchId filters sortOrder limit).take limit, none,
        decide (limit < (merged satisfies hot archive branchId filters sortOrder limit).length),
        ((merged satisfies hot archive branchId filters sortOrder limit).take limit).length⟩ := by
  have floor : ⌊(limit : ℚ)⌋₊ = limit := Nat.floor_natCast limit
  simp only [listRestaurantOrders, allowed, if_true, straddles, data_findOrdersByBranch,
    floor, Nat.cast_lt]
  rfl

end

/-- Whatever is in the two databases, and however the list is filtered and sorted. -/
theorem straddling_list_is_exact_iff {V : Type} (date : V → Option ℤ)
    (satisfies : FilterParams V → Order → Bool) (hot archive : Database) (now : ℕ)
    (branch : CoreBranch) (branchId : ℕ) (filters : List (FilterParams V)) (sortOrder : SortOrder)
    (limit : ℕ) (actor : RequestActor) (allowed : mayList branch branchId actor = true)
    (straddles : classifyDateRange date now filters = .straddle) (distinct : Distinct hot archive)
    (pos : 1 ≤ limit) :
    (∃ page, listRestaurantOrders date satisfies hot archive now branch branchId filters
      ⟨none, limit, "created_at", sortOrder⟩ actor = some page ∧
        Exact satisfies hot archive branchId filters sortOrder limit page) ↔
      Untangled satisfies hot archive branchId filters sortOrder limit := by
  rw [listRestaurantOrders_straddle none allowed straddles]
  simp only [Option.some.injEq, exists_eq_left']
  -- The rows of the page are right.
  have head : ((merged satisfies hot archive branchId filters sortOrder limit).take limit).map
      (fun listed => listed.1.id) =
        ((inOrder sortOrder (union satisfies hot archive branchId filters)).take
          limit).map Order.id ↔
      ∀ order ∈ common satisfies hot archive branchId filters,
        limit ≤ upTo (sortKey sortOrder order) ((union satisfies hot archive branchId filters).map
          (sortKey sortOrder)) := by
    have listed : (merged satisfies hot archive branchId filters sortOrder limit).map (fun listed =>
        listed.1.id) =
        ((merged satisfies hot archive branchId filters sortOrder limit).map Prod.fst).map
          Order.id := by rw [List.map_map]; rfl
    have keys : (merged satisfies hot archive branchId filters sortOrder limit).map (fun listed =>
        sortKey sortOrder listed.1) =
        ((merged satisfies hot archive branchId filters sortOrder limit).map Prod.fst).map
          (sortKey sortOrder) := by rw [List.map_map]; rfl
    rw [← take_keys_iff, List.map_take, List.map_take, listed, keys]
    refine take_map_eq_iff fun a inPage b inUnion => ?_
    rw [sortKey_eq_iff]
    refine distinct a ?_ b (mem_of_union ((List.perm_insertionSort _ _).mem_iff.1 inUnion))
    have inPages :=
      (perm_merged satisfies hot archive branchId filters sortOrder limit).mem_iff.1 inPage
    rcases List.mem_append.1 inPages with inHot | inArchive
    · exact List.mem_append_left _ (List.mem_of_mem_filter
        ((sorted_perm hot "created_at").mem_iff.1 (List.mem_of_mem_take inHot)))
    · exact List.mem_append_right _ (List.mem_of_mem_filter
        ((sorted_perm archive "created_at").mem_iff.1 (List.mem_of_mem_take inArchive)))
  -- The flag for more rows is right, given that the rows are.
  have more : (∀ order ∈ common satisfies hot archive branchId filters,
        limit ≤ upTo (sortKey sortOrder order) ((union satisfies hot archive branchId filters).map
          (sortKey sortOrder))) →
      ((limit < (merged satisfies hot archive branchId filters sortOrder limit).length ↔
          limit < (union satisfies hot archive branchId filters).length) ↔
        (0 < (common satisfies hot archive branchId filters).length →
          limit < (union satisfies hot archive branchId filters).length) ∧
          ((applyFilters satisfies archive branchId filters).length = 0 →
            (applyFilters satisfies hot branchId filters).length ≤ limit) ∧
          ((applyFilters satisfies hot branchId filters).length = 0 →
            (applyFilters satisfies archive branchId filters).length ≤ limit)) := by
    intro behind
    rw [length_merged]
    refine more_iff pos length_union_common pos_of_common fun some => ?_
    obtain ⟨order, member⟩ := List.exists_mem_of_length_pos some
    simpa [upTo] using (behind order member).trans List.countP_le_length
  rw [Exact, head, decide_eq_true_eq]
  constructor
  · rintro ⟨behind, rest⟩
    obtain ⟨both, onlyHot, onlyArchive⟩ := (more behind).1 rest
    exact ⟨behind, fun notEmpty => both (List.length_pos_iff.2 notEmpty),
      fun none => onlyHot (by rw [none]; rfl),
      fun none => onlyArchive (by rw [none]; rfl)⟩
  · rintro ⟨behind, both, onlyHot, onlyArchive⟩
    refine ⟨behind, (more behind).2 ⟨fun some => both (List.length_pos_iff.1 some),
      fun none => onlyHot (List.length_eq_zero_iff.1 none),
      fun none => onlyArchive (List.length_eq_zero_iff.1 none)⟩⟩

/-! ## Two orders -/

/-- An order of branch 6. -/
def placed (id createdAt : ℕ) : Order :=
  { Sample.order .delivered with id := id, publicId := id, createdAt := createdAt }

def holding (orders : List Order) : Database :=
  Database.empty.applyAll (orders.map fun order => (.insert TableName.orders order : SqlWrite))

/-- From the beginning of 2025, to the end of 2026. -/
def twoYears : List (FilterParams ℤ) :=
  [⟨"created_at", .gte, 1735689600000⟩, ⟨"created_at", .lte, 1798761599999⟩]

def inRange (filter : FilterParams ℤ) (order : Order) : Bool :=
  match filter.operator with
  | .gte => filter.value * 1000 ≤ order.createdAt
  | .lte => order.createdAt ≤ filter.value * 1000
  | _ => true

/-- In July 2026. -/
def july : ℕ := 1782900000000000

def order2025 : Order := placed 1 1760000000000000

def order2026 : Order := placed 2 1770000000000000

/-- One order in each database. -/
theorem list_of_two_orders :
    ∃ page,
    listRestaurantOrders some inRange (holding [order2026]) (holding [order2025]) july Sample.branch
      6 twoYears ⟨none, (20 : ℕ), "created_at", .asc⟩
        Sample.owner = some page ∧
        Exact inRange (holding [order2026]) (holding [order2025]) 6 twoYears .asc 20 page :=
  (straddling_list_is_exact_iff some inRange (holding [order2026])
    (holding [order2025]) july Sample.branch 6 twoYears .asc 20 Sample.owner
    (by decide) (by decide +kernel) (by unfold Distinct; decide +kernel) (by decide)).2 ⟨by
      decide +kernel, by decide +kernel, by decide +kernel, by decide +kernel⟩

/-- Two orders in hot and none in the archive, one a page: there is more, and the list denies it.
One order in both: it is listed twice. -/
theorem list_denies_an_order_and_repeats_another :
    (¬ ∃ page, listRestaurantOrders some inRange (holding [order2025, order2026])
      (holding []) july Sample.branch 6 twoYears
        ⟨none, (1 : ℕ), "created_at", .asc⟩ Sample.owner = some page ∧
      Exact inRange (holding [order2025, order2026]) (holding []) 6 twoYears .asc 1 page) ∧
    ¬ ∃ page, listRestaurantOrders some inRange (holding [order2025, order2026])
      (holding [order2025]) july Sample.branch 6 twoYears
        ⟨none, (20 : ℕ), "created_at", .asc⟩ Sample.owner = some page ∧
      Exact inRange (holding [order2025, order2026])
        (holding [order2025]) 6 twoYears .asc 20 page := by
  constructor
  · rintro ⟨page, isPage, _, more⟩
    rw [listRestaurantOrders_straddle none (by decide) (by decide +kernel)] at isPage
    cases isPage
    exact absurd (more.2 (by decide +kernel)) (by decide +kernel)
  · rintro ⟨page, isPage, listed, _⟩
    rw [listRestaurantOrders_straddle none (by decide) (by decide +kernel)] at isPage
    cases isPage
    exact absurd listed (by decide +kernel)

end SwiftBite.Verified.StraddlingLists
