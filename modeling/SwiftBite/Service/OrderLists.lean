import SwiftBite.Archival.Calendar
import SwiftBite.Http.Pagination
import SwiftBite.Service.Order

/-! # Lists of orders

What the lists of orders read from the hot and from the archive database.
-/

set_option autoImplicit false

namespace SwiftBite.OrderLists

open Store Pagination

/-! ## Of a customer -/

/-- The connection for a year: the archive when the year is over, else hot. -/
def connFor (hot archive : Database) (now year : ℕ) : Database :=
  if year < Calendar.yearOf now then archive else hot

/-- The rows that `findOrdersByCustomer` selects, before they are cut into pages. -/
def findOrdersByCustomer (conn : Database) (customerId year : ℕ) : List Order :=
  (conn .orders).rows.filter fun order : Order =>
    order.customerId = customerId && Calendar.yearOf order.createdAt = year

def findItemsByOrderIds (conn : Database) (orderIds : List ℕ) : List OrderItem :=
  (conn .orderItems).rows.filter fun item : OrderItem => item.orderId ∈ orderIds

/-- `itemsByOrder.get(orderId) ?? 0` -/
def itemsByOrder (items : List OrderItem) (orderId : ℕ) : ℕ :=
  (items.filter fun item => item.orderId = orderId).length

/-- The orders and how many items each of them has; the items are read after the orders. -/
def listCustomerOrders (conn conn' : Database) (customerId year : ℕ) : List (Order × ℕ) :=
  let orders := findOrdersByCustomer conn customerId year
  let items := findItemsByOrderIds conn' (orders.map Order.id)
  orders.map fun order => (order, itemsByOrder items order.id)

theorem itemsByOrder_of_mem {conn : Database} {orderIds : List ℕ} {orderId : ℕ}
    (member : orderId ∈ orderIds) :
    itemsByOrder (findItemsByOrderIds conn orderIds) orderId =
      ((conn .orderItems).rows.filter fun item : OrderItem => item.orderId = orderId).length := by
  rw [itemsByOrder, findItemsByOrderIds, List.filter_filter]
  congr 1
  refine List.filter_congr fun item _ => ?_
  by_cases same : OrderItem.orderId item = orderId
  · simp [same, member]
  · simp [same]

/-! ## Of a restaurant -/

inductive Operator where
  | eq
  | gt
  | lt
  | lte
  | gte
  | isIn
  | like
  deriving DecidableEq

/-- A filter of a request; the value is a text or a list of texts. -/
structure FilterParams (V : Type) where
  field : String
  operator : Operator
  value : V

inductive DateRangeLocation where
  | hot
  | archive
  | straddle
  deriving DecidableEq

structure OrderPage where
  data : List (Order × ℕ)
  nextCursor : Option Cursor
  hasMore : Bool
  count : ℕ

/-- The row as far as it is sorted: `created_at` is the only sort field. -/
def rowOf (order : Order) : Row := ⟨order.id, fun _ => order.createdAt⟩

/-- `sortDir * order.createdAt.getTime()` -/
def sortKey (sortOrder : SortOrder) (order : Order) : ℤ :=
  match sortOrder with
  | .asc => milliseconds order.createdAt
  | .desc => -milliseconds order.createdAt

def mayList (branch : CoreBranch) (branchId : ℕ) (actor : RequestActor) : Bool :=
  actor.role = .systemAdmin ||
    (actor.role = .restaurantUser && actor.restaurantId = some branch.restaurantId &&
      (actor.restaurantRole = some "owner" || branchId ∈ actor.branchIds))

section

/- `date` is `new Date(value)` in milliseconds, if the value denotes a date, and `satisfies` what
the database makes of the condition of a filter. -/
variable {V : Type} (date : V → Option ℤ) (satisfies : FilterParams V → Order → Bool)

/-- Comparisons with an invalid date are false. -/
def classifyDateRange (now : ℕ) (filters : List (FilterParams V)) : DateRangeLocation :=
  let yearStart : ℤ := Calendar.yearStart (Calendar.yearOf now)
  let upper := filters.find? fun f =>
      f.field = "created_at" && (f.operator = .lte || f.operator = .lt)
  let lower := filters.find? fun f =>
      f.field = "created_at" && (f.operator = .gte || f.operator = .gt)
  match upper, lower with
  | some upper, some lower =>
    if (date upper.value).any fun upperDate => upperDate * 1000 < yearStart then .archive
    else if (date lower.value).any fun lowerDate => yearStart ≤ lowerDate * 1000 then .hot
    else .straddle
  | _, _ => .hot

/-- `applyFilters`, for the orders of a branch. -/
def applyFilters (conn : Database) (branchId : ℕ) (filters : List (FilterParams V)) : List Order :=
  (conn .orders).rows.filter fun order : Order =>
    order.branchId = branchId && filters.all fun filter => satisfies filter order

def findOrdersByBranch (conn : Database) (branchId : ℕ) (filters : List (FilterParams V))
    (params : PaginationParams) : List Order × Option Cursor × Bool :=
  let query := applyFilters satisfies conn branchId filters
  let kept := match params.cursor with
    | some cursor =>
      query.filter fun order => standsAfter params.sortOrder params.sortBy cursor (rowOf order)
    | none => query
  let rows := (kept.insertionSort fun a b => Precedes params.sortOrder params.sortBy (rowOf a)
    (rowOf b)).take ⌊params.limit + 1⌋₊
  let hasMore : Bool := params.limit < rows.length
  let data := if hasMore then rows.take ⌊params.limit⌋₊ else rows
  (data,
    if hasMore then data.getLast?.map fun order => cursorOf params.sortBy (rowOf order) else none,
    hasMore)

/-- Each order with the number of its items. -/
def countItemsByOrder (conn : Database) (orders : List Order) : List (Order × ℕ) :=
  let items := findItemsByOrderIds conn (orders.map Order.id)
  orders.map fun order => (order, itemsByOrder items order.id)

/-- `none` when the actor may not list the branch. -/
def listRestaurantOrders (hot archive : Database) (now : ℕ) (branch : CoreBranch) (branchId : ℕ)
    (filters : List (FilterParams V)) (params : PaginationParams)
    (actor : RequestActor) : Option OrderPage :=
  if mayList branch branchId actor then
    match classifyDateRange date now filters with
    | .hot => some (page hot)
    | .archive => some (page archive)
    | .straddle =>
      let hotPage :=
        (findOrdersByBranch satisfies hot branchId filters { params with cursor := none }).1
      let archivePage :=
        (findOrdersByBranch satisfies archive branchId filters { params with cursor := none }).1
      let combined :=
        (countItemsByOrder hot hotPage ++ countItemsByOrder archive archivePage).insertionSort
        fun a b => sortKey params.sortOrder a.1 ≤ sortKey params.sortOrder b.1
      let data := combined.take ⌊params.limit⌋₊
      some ⟨data, none, params.limit < combined.length, data.length⟩
  else none
where
  page (conn : Database) : OrderPage :=
    let (orders, nextCursor, hasMore) := findOrdersByBranch satisfies conn branchId filters params
    ⟨countItemsByOrder conn orders, nextCursor, hasMore, orders.length⟩

end

end SwiftBite.OrderLists
