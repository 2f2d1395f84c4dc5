import SwiftBite.Service.OrderLists

/-! # One order

`OrderService.getOrder`, with the rule about who may read an order, and the history that the
response shows.
-/

set_option autoImplicit false

namespace SwiftBite

open Store

/-! ## The history of an order -/

/-- The column that `STATUS_TIMESTAMP_COLUMN` names for a status. -/
def Order.stampOf (order : Order) : OrderStatus → Option ℕ
  | .accepted => order.acceptedAt
  | .rejected => order.rejectedAt
  | .ready => order.readyAt
  | .assigned => order.assignedAt
  | .picked => order.pickedAt
  | .delivered => order.deliveredAt
  | .cancelled => order.cancelledAt
  | .pendingPayment | .placed | .preparing => none

/-- The statuses in the order in which the response lists them. -/
def historyStatuses : List OrderStatus :=
  [.accepted, .rejected, .ready, .assigned, .picked, .delivered, .cancelled]

/-- `buildHistory` -/
def buildHistory (order : Order) : List (OrderStatus × ℕ) :=
  (.placed, toMillis order.createdAt) ::
    historyStatuses.filterMap fun status => (order.stampOf status).map fun ts =>
      (status, toMillis ts)

theorem mem_buildHistory {order : Order} {status : OrderStatus} {stamp : ℕ}
    (stamped : order.stampOf status = some stamp) :
    (status, toMillis stamp) ∈ buildHistory order := by
  refine List.mem_cons_of_mem _ (List.mem_filterMap.2 ⟨status, ?_, by rw [stamped]; rfl⟩)
  revert stamped
  cases status <;> simp [Order.stampOf, historyStatuses]

namespace OrderService

/-! ## Reading an order -/

/-- The condition of `assertReadAccess`. -/
def hasReadAccess (customerId restaurantId branchId : ℕ) (actor : RequestActor) : Bool :=
  decide (actor.role = .systemAdmin) ||
    decide (actor.role = .customer ∧ actor.userId = customerId) ||
    (decide (actor.role = .restaurantUser ∧ actor.restaurantId = some restaurantId) &&
      (decide (actor.restaurantRole = some "owner") || actor.branchIds.contains branchId))

def assertReadAccess (customerId restaurantId branchId : ℕ)
    (actor : RequestActor) : Except Err Unit :=
  if hasReadAccess customerId restaurantId branchId actor then pure () else throw .UnAuthorizedError

/-- The two databases of a region, as a statement finds them. -/
structure Shards where
  hot : Database
  archive : Database

def findOrder (conn : Database) (publicId : ℕ) : Option Order :=
  (conn .orders).rows.find? fun order : Order => order.publicId = publicId

/-- What the statements of `getOrder` find: the order in hot, the order in the archive, and the
items. -/
structure Reads where
  first : Shards
  second : Shards
  items : Shards

/-- The archive is asked for an administrator only; the items come from where the order is. -/
def getOrder (getBranch : ℕ → Except Err CoreBranch) (reads : Reads) (publicId : ℕ)
    (actor : RequestActor) : Except Err (Order × List OrderItem × CoreBranch) := do
  let found : Option (Order × Database) :=
    match findOrder reads.first.hot publicId with
    | some order => some (order, reads.items.hot)
    | none =>
      if actor.role = .systemAdmin then
        (findOrder reads.second.archive publicId).map fun order => (order, reads.items.archive)
      else none
  match found with
  | none => throw .OrderNotFoundError
  | some (order, conn) => do
    assertReadAccess order.customerId order.restaurantId order.branchId actor
    let branch ← getBranch order.branchId
    pure (order, OrderLists.findItemsByOrderIds conn [order.id], branch)

end OrderService

end SwiftBite
