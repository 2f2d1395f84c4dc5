import SwiftBite.Data.Schema
import SwiftBite.Data.Shared
import SwiftBite.Http.Records
import SwiftBite.Service.OrderLists

/-! # What an agent sees

What `EarningService.list` reads: a page of the agent's earnings in a range of time, and the totals
of the whole range; and the agent's tasks, a page of deliveries each of which is put together with
its order by later statements.
-/

set_option autoImplicit false

namespace SwiftBite.EarningService

open Store Pagination

structure AgentEarningsPage where
  data : List AgentEarning
  /-- The public id of each earning's order. -/
  orderPublicIds : List (ℕ × ℕ)
  nextCursor : Option Cursor
  hasMore : Bool
  count : ℕ

structure Totals where
  count : ℕ
  sum : ℤ
  deriving DecidableEq

/-- The agent's earnings from `start` to `stop`, which have milliseconds. -/
def earnedIn (conn : Database) (agentId start stop : ℕ) : List AgentEarning :=
  (conn .agentEarnings).rows.filter fun earning : AgentEarning =>
    earning.agentId = agentId &&
      toMillis start ≤ earning.earnedAt && earning.earnedAt ≤ toMillis stop

/-- `.join("orders as o", "o.id", "ae.order_id")` -/
def joinOrders (conn : Database) (earnings : List AgentEarning) : List (AgentEarning × ℕ) :=
  earnings.filterMap fun earning => ((conn .orders).get (RowKey.id earning.orderId)).map
    fun order : Order => (earning, order.publicId)

def findAgentEarnings (conn : Database) (agentId start stop : ℕ)
    (pagination : PaginationParams) : AgentEarningsPage :=
  let query := joinOrders conn (earnedIn conn agentId start stop)
  let page := recordPage (fun joined => AgentEarning.id joined.1)
    (fun joined => AgentEarning.earnedAt joined.1) query
    { pagination with sortBy := "ae.earned_at" }
  { data := page.data.map Prod.fst
    orderPublicIds := page.data.map fun joined => (joined.1.id, joined.2)
    nextCursor := page.nextCursor
    hasMore := page.hasMore
    count := page.count }

def sumAgentEarnings (conn : Database) (agentId start stop : ℕ) : Totals :=
  let earnings := earnedIn conn agentId start stop
  ⟨earnings.length, (earnings.map AgentEarning.amount).sum⟩

def EARNING_SORT_FIELDS : PaginationQueryOptions := ⟨["earned_at"], "earned_at", 20, by decide⟩

/-- The response; the two queries may find different states. -/
def list (conn conn' : Database) (agentId start stop : ℕ) (query : Query) :
    AgentEarningsPage × Totals :=
  (findAgentEarnings conn agentId start stop (parsePaginationQuery query EARNING_SORT_FIELDS),
    sumAgentEarnings conn' agentId start stop)

end SwiftBite.EarningService

namespace SwiftBite.AgentService

open Store Pagination

def deliveriesOf (conn : Database) (agentId : ℕ) (status : Option DeliveryStatus) : List Delivery :=
  (conn .deliveries).rows.filter fun delivery : Delivery =>
    delivery.agentId = agentId && status.all fun status => delivery.status = status

def findDeliveriesByAgentId (conn : Database) (agentId : ℕ) (status : Option DeliveryStatus)
    (pagination : PaginationParams) : RecordPage Delivery :=
  recordPage Delivery.id Delivery.assignedAt (deliveriesOf conn agentId status) pagination

structure Task where
  delivery : Delivery
  order : Order
  itemsCount : ℕ
  /-- Its label and address are shown. -/
  branch : CoreBranch

/-- What the statements of a request find, and what the core service answers: the loop reads an
order and asks for its branch for each delivery of the page in turn. -/
structure TaskReads where
  deliveries : Database
  items : Database
  order : ℕ → Database
  branch : ℕ → ℕ → Except Err CoreBranch

/-- The loop over the deliveries of the page, from the `i`-th on. -/
def results (reads : TaskReads) (itemsCount : ℕ → ℕ) : ℕ → List Delivery → Except Err (List Task)
  | _, [] => pure []
  | i, delivery :: deliveries =>
    match (reads.order i .orders).get (RowKey.id delivery.orderId) with
    -- `if (!order) continue`: the page may show fewer tasks than it has deliveries.
    | none => results reads itemsCount (i + 1) deliveries
    | some (order : Order) => do
      let branch ← reads.branch i order.branchId
      let tasks ← results reads itemsCount (i + 1) deliveries
      pure (⟨delivery, order, itemsCount order.id, branch⟩ :: tasks)

def TASK_SORT_FIELDS : PaginationQueryOptions := ⟨["assigned_at"], "assigned_at", 20, by decide⟩

/-- The tasks of the page, with `nextCursor`. -/
def listTasks (reads : TaskReads) (agentId : ℕ) (status : Option DeliveryStatus) (query : Query) :
    Except Err (List Task × Option Cursor) := do
  let page := findDeliveriesByAgentId reads.deliveries agentId status
    (parsePaginationQuery query TASK_SORT_FIELDS)
  let items := OrderLists.findItemsByOrderIds reads.items (page.data.map Delivery.orderId)
  let tasks ← results reads (OrderLists.itemsByOrder items) 0 page.data
  pure (tasks, page.nextCursor)

end SwiftBite.AgentService
