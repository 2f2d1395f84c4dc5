import SwiftBite.Data.Shared
import SwiftBite.Store.Statement

/-! # Orders, order items and the outbox -/

set_option autoImplicit false

namespace SwiftBite

open Store Statement

/-! ## orders -/

structure CreateOrderInput where
  publicId : ℕ
  restaurantId : ℕ
  branchId : ℕ
  customerId : ℕ
  customerAddressId : ℕ
  deliveryLat : ℤ
  deliveryLng : ℤ
  deliveryAddressTextSnapshot : String
  status : OrderStatus
  subtotal : ℤ
  deliveryFee : ℤ
  serviceFee : ℤ
  total : ℤ
  currency : String
  paymentMethod : PaymentMethod

/-- The inserted row; columns that the statement does not name take their default. -/
def CreateOrderInput.row (data : CreateOrderInput) (id now : ℕ) : Order where
  id := id
  publicId := data.publicId
  restaurantId := data.restaurantId
  branchId := data.branchId
  customerId := data.customerId
  customerAddressId := data.customerAddressId
  deliveryLat := data.deliveryLat
  deliveryLng := data.deliveryLng
  deliveryAddressTextSnapshot := data.deliveryAddressTextSnapshot
  status := data.status
  subtotal := data.subtotal
  deliveryFee := data.deliveryFee
  serviceFee := data.serviceFee
  total := data.total
  commission := 0
  currency := data.currency
  paymentMethod := data.paymentMethod
  deliveryAgentId := none
  createdAt := now
  updatedAt := now
  acceptedAt := none
  rejectedAt := none
  readyAt := none
  assignedAt := none
  pickedAt := none
  deliveredAt := none
  cancelledAt := none

def createOrder (conn : Conn) (data : CreateOrderInput) : Service Order := do
  let id ← nextval .orders
  .exec conn (insert TableName.orders [] (data.row id))

def findOrderByPublicId (conn : Conn) (publicId : ℕ) : Service (Option Order) :=
  .exec conn (selectFirst TableName.orders fun orders => orders.rows.filter fun row : Order =>
    row.publicId = publicId)

def findOrderById (conn : Conn) (id : ℕ) : Service (Option Order) :=
  .exec conn (selectByKey TableName.orders (RowKey.id id))

/-- `STATUS_TIMESTAMP_COLUMN` has an entry. -/
def OrderStatus.hasTimestampColumn : OrderStatus → Bool
  | .accepted | .rejected | .ready | .assigned | .picked | .delivered | .cancelled => true
  | _ => false

/-- `SET <the status's timestamp column> = time` -/
def Order.stamp (row : Order) (status : OrderStatus) (time : Option ℕ) : Order :=
  match status with
  | .accepted => { row with acceptedAt := time }
  | .rejected => { row with rejectedAt := time }
  | .ready => { row with readyAt := time }
  | .assigned => { row with assignedAt := time }
  | .picked => { row with pickedAt := time }
  | .delivered => { row with deliveredAt := time }
  | .cancelled => { row with cancelledAt := time }
  | _ => row

def Order.withStatus (status : OrderStatus) (updatedAt : ℕ) (stamp : Option ℕ)
    (row : Order) : Order :=
  { row.stamp status stamp with status := status, updatedAt := updatedAt }

/-- The time for the status's timestamp column, if it has one. -/
def OrderStatus.stampTime (status : OrderStatus) : Service (Option ℕ) :=
  if status.hasTimestampColumn then some <$> nowIso else pure none

def updateOrderStatus (conn : Conn) (id : ℕ) (status : OrderStatus) : Service (Option Order) := do
  let updatedAt ← nowIso
  let stamp ← status.stampTime
  .exec conn (updateByKey TableName.orders (RowKey.id id) (Order.withStatus status updatedAt stamp))

def Order.withAgent (agentId assignedAt updatedAt : ℕ) (row : Order) : Order :=
  { row with deliveryAgentId := some agentId, status := .assigned, assignedAt := some assignedAt,
             updatedAt := updatedAt }

def setDeliveryAgent (conn : Conn) (id agentId : ℕ) : Service (Option Order) := do
  let assignedAt ← nowIso
  let updatedAt ← nowIso
  .exec conn (updateByKey TableName.orders (RowKey.id id)
    (Order.withAgent agentId assignedAt updatedAt))

def Order.withCommission (commission : ℤ) (updatedAt : ℕ) (row : Order) : Order :=
  { row with commission := commission, updatedAt := updatedAt }

def setOrderCommission (conn : Conn) (id : ℕ) (commission : ℤ) : Service Unit := do
  let updatedAt ← nowIso
  let _ ← .exec conn
      (updateByKey TableName.orders (RowKey.id id) (Order.withCommission commission updatedAt))

/-! ## order_items -/

structure BulkInsertItemInput where
  productId : ℕ
  quantity : ℕ
  unitPriceSnapshot : ℤ
  nameSnapshot : String
  imageUrlSnapshot : Option String
  lineTotal : ℤ

def BulkInsertItemInput.row (item : BulkInsertItemInput) (orderId id now : ℕ) : OrderItem where
  id := id
  orderId := orderId
  productId := item.productId
  quantity := item.quantity
  unitPriceSnapshot := item.unitPriceSnapshot
  nameSnapshot := item.nameSnapshot
  imageUrlSnapshot := item.imageUrlSnapshot
  lineTotal := item.lineTotal
  createdAt := now

/-- `n` values of the table's id sequence. -/
def nextvals (t : TableName) : ℕ → Service (List ℕ)
  | 0 => pure []
  | n + 1 => do
    let id ← nextval t
    let ids ← nextvals t n
    pure (id :: ids)

def bulkInsertItems (conn : Conn) (orderId : ℕ) (items : List BulkInsertItemInput) :
    Service (List OrderItem) := do
  let ids ← nextvals .orderItems items.length
  .exec conn (insertAll TableName.orderItems [(TableName.orders, RowKey.id orderId)] fun now =>
    List.zipWith (fun item id => item.row orderId id now) items ids)

def findItemsByOrderIds (conn : Conn) (orderIds : List ℕ) : Service (List OrderItem) :=
  if orderIds = [] then pure []
  else .exec conn (select fun _ db => (db .orderItems).rows.filter fun row : OrderItem =>
    row.orderId ∈ orderIds)

/-! ## events_outbox -/

structure OutboxEventInput where
  aggregateType : String
  aggregateId : ℕ
  eventType : String
  eventId : ℕ
  payload : OutboxPayload

def OutboxEventInput.row (data : OutboxEventInput) (id now : ℕ) : OutboxEvent where
  id := id
  aggregateType := data.aggregateType
  aggregateId := data.aggregateId
  eventType := data.eventType
  eventId := data.eventId
  payload := data.payload
  createdAt := now
  dispatchedAt := none
  attempts := 0
  lastError := none

def insertOutboxEvent (conn : Conn) (data : OutboxEventInput) : Service Unit := do
  let id ← nextval .eventsOutbox
  let _ ← .exec conn (insert TableName.eventsOutbox [] (data.row id))

end SwiftBite
