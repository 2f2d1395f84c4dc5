import SwiftBite.Repository.Delivery
import SwiftBite.Repository.Payment
import SwiftBite.Service.OrderStatus

/-! # OrderService -/

set_option autoImplicit false

namespace SwiftBite

open Store

structure RequestActor where
  userId : ℕ
  role : Role
  restaurantId : Option ℕ := none
  restaurantRole : Option String := none
  branchIds : List ℕ := []

structure OrderItemInput where
  productId : ℕ
  quantity : ℕ

structure CreateOrderRequest where
  branchId : ℕ
  customerAddressId : ℕ
  paymentMethod : PaymentMethod
  items : List OrderItemInput

/-- `STATUS_PERMISSION` -/
def OrderStatus.permission : OrderStatus → Option String
  | .accepted | .rejected => some "accept"
  | .preparing | .ready => some "update"
  | .cancelled => some "cancel"
  | _ => none

/-- In milliseconds. -/
def CANCELLATION_WINDOW_MS : ℕ := 60 * 1000

def hasPermission (permissions : List String) (resource action : String) : Bool :=
  permissions.contains (resource ++ ":" ++ action)

namespace OrderService

def findProduct (branchProducts : List CoreBranchProduct) (productId : ℕ) :
    Option CoreBranchProduct :=
  branchProducts.find? fun p => p.productId = productId

/-- The items that the branch cannot serve. -/
def shortfalls (branchProducts : List CoreBranchProduct)
    (items : List OrderItemInput) : List (ℕ × ℕ × ℤ) :=
  items.filterMap fun item =>
    match findProduct branchProducts item.productId with
    -- `product?.stock ?? 0`
    | none => some (item.productId, item.quantity, 0)
    | some product =>
      if !product.isAvailable || decide (product.stock < item.quantity) then
        some (item.productId, item.quantity, product.stock)
      else none

def priceOf (branchProducts : List CoreBranchProduct) (productId : ℕ) : ℤ :=
  ((findProduct branchProducts productId).map CoreBranchProduct.price).getD 0

def subtotalOf (branchProducts : List CoreBranchProduct) (items : List OrderItemInput) : ℤ :=
  (items.map fun item => priceOf branchProducts item.productId * item.quantity).sum

def itemInputs (branchProducts : List CoreBranchProduct) (items : List OrderItemInput) :
    List BulkInsertItemInput :=
  items.filterMap fun item => (findProduct branchProducts item.productId).map fun product =>
    { productId := item.productId
      quantity := item.quantity
      unitPriceSnapshot := product.price
      nameSnapshot := product.name
      imageUrlSnapshot := product.imageUrl
      lineTotal := product.price * item.quantity }

def orderPlacedPayload (order : Order) (status : OrderStatus)
    (items : List OrderItem) : OutboxPayload :=
  .orderPlaced order.publicId order.restaurantId order.branchId order.subtotal
    order.deliveryFee order.total
    order.currency order.paymentMethod status (toMillis order.createdAt)
    (items.map fun item => (item.productId, item.quantity, item.unitPriceSnapshot, item.lineTotal))

/-- The row that a placement inserts. -/
def orderInput (branch : CoreBranch) (address : CoreCustomerAddress)
    (branchProducts : List CoreBranchProduct) (customerId publicId : ℕ)
    (data : CreateOrderRequest) : CreateOrderInput where
  publicId := publicId
  restaurantId := branch.restaurantId
  branchId := data.branchId
  customerId := customerId
  customerAddressId := data.customerAddressId
  deliveryLat := address.lat
  deliveryLng := address.lng
  deliveryAddressTextSnapshot := address.addressText
  status := if data.paymentMethod = .online then .pendingPayment else .placed
  subtotal := subtotalOf branchProducts data.items
  deliveryFee := branch.deliveryFee
  serviceFee := 0
  total := subtotalOf branchProducts data.items + branch.deliveryFee + 0
  currency := branch.currency
  paymentMethod := data.paymentMethod

/-- What a cash order adds to the placement: the collection still to come, and the event. -/
def placeCod (branch : CoreBranch) (customerId : ℕ) (order : Order)
    (items : List OrderItem) : Service Unit := do
  -- The collection is written with or without a provider: `codProvider?.id ?? null`.
  let codProvider ← findPaymentProviderByName .trx "cod"
  let _ ← createTransaction .trx
    { orderId := some order.id
      transactionType := .codCollection
      method := .cod
      providerId := codProvider
      status := .pending
      amount := order.total
      currency := branch.currency
      srcAccId := some customerId
      dstAccId := some branch.restaurantOwnerId }
  let eventId ← uuidv4
  insertOutboxEvent .trx
    { aggregateType := "order"
      aggregateId := order.id
      eventType := "order.placed"
      eventId
      payload := orderPlacedPayload order order.status items }

/-- The transaction of a placement. -/
def insertOrder (branch : CoreBranch) (address : CoreCustomerAddress)
    (branchProducts : List CoreBranchProduct) (customerId publicId : ℕ)
    (data : CreateOrderRequest) : Service (Order × List OrderItem) :=
  .transaction do
    let order ← createOrder .trx (orderInput branch address branchProducts customerId publicId data)
    let items ← bulkInsertItems .trx order.id (itemInputs branchProducts data.items)
    if data.paymentMethod = .cod then placeCod branch customerId order items else pure ()
    pure (order, items)

/-- Stock is reserved after the commit; when that fails the order is cancelled again. -/
def reserve (core : Core) (order : Order) (data : CreateOrderRequest) : Service Unit :=
  match core.reserveStock data.branchId
    (data.items.map fun item => (item.productId, item.quantity)) with
  | .ok () => pure ()
  -- The transaction of the placement is over, and what it collected and announced stays.
  | .error err => do
    let _ ← updateOrderStatus .pool order.id .cancelled
    throw err

def placeOrder (core : Core) (customerId : ℕ) (data : CreateOrderRequest) :
    Service (Order × List OrderItem) := do
  let branch ← .ofExcept (core.getBranch data.branchId)
  throwIf (branch.acceptOrders = false ∨ branch.restaurantActive = false)
    .BranchNotAcceptingOrdersError
  let address ← .ofExcept (core.getCustomerAddress data.customerAddressId)
  throwIf (address.userId ≠ customerId) .AddressNotOwnedError
  let branchProducts ← .ofExcept
      (core.getBranchProducts data.branchId (data.items.map OrderItemInput.productId))
  throwIf (shortfalls branchProducts data.items ≠ [])
    (.outOfStockError (shortfalls branchProducts data.items))
  -- From here on there are writes; every check is behind.
  let publicId ← uuidv4
  let placed ← insertOrder branch address branchProducts customerId publicId data
  reserve core placed.1 data
  pure placed

def findOrderForPayment (publicId customerId : ℕ) : Service Order := do
  match ← findOrderByPublicId .pool publicId with
  | none => throw .OrderNotFoundError
  | some order => do
    -- A foreign order is said not to exist.
    throwIf (order.customerId ≠ customerId) .OrderNotFoundError
    pure order

def getOrderEntityById (id : ℕ) : Service (Option Order) := findOrderById .pool id

def getOrderEntityByPublicId (publicId : ℕ) : Service (Option Order) :=
  findOrderByPublicId .pool publicId

def applySystemStatusChange (conn : Conn) (id : ℕ)
    (targetStatus : OrderStatus) : Service Order := do
  match ← updateOrderStatus conn id targetStatus with
  | none => throw .OrderNotFoundError
  | some updated => pure updated

def resolveActor (core : Core) (order : Order) (actor : RequestActor) (targetStatus : OrderStatus) :
    Except Err OrderActor :=
  match actor.role with
  | .systemAdmin => pure .admin
  | .customer =>
    if actor.userId ≠ order.customerId then throw .UnAuthorizedError else pure .customer
  | .restaurantUser =>
    if actor.restaurantId ≠ some order.restaurantId ||
        (actor.restaurantRole ≠ some "owner" && !actor.branchIds.contains order.branchId) then
      throw .UnAuthorizedError
    else
      match targetStatus.permission with
      -- No permission is asked for here; the transition table has no such move for a restaurant.
      | none => pure .restaurant
      | some requiredAction => do
        -- `actor.restaurantRole!` of a token without the role
        let permissions ← core.getPermissions (actor.restaurantRole.getD "undefined")
        if hasPermission permissions "orders" requiredAction then pure .restaurant
        else throw .UnAuthorizedError
  | .deliveryAgent => throw .UnAuthorizedError

/-- A customer cancels in time: before the payment, or within the window after placing. -/
def withinWindow (order : Order) : Service Bool :=
  match order.status with
  | .pendingPayment => pure true
  | .placed =>
    .sure fun x => (decide (x.now / 1000 ≤ order.createdAt / 1000 + CANCELLATION_WINDOW_MS), x)
  | _ => pure false

def assertWindow (order : Order) (targetStatus : OrderStatus)
    (orderActor : OrderActor) : Service Unit :=
  if targetStatus = .cancelled ∧ orderActor = .customer then do
    let within ← withinWindow order
    throwIf (within = false) .CancellationWindowExpiredError
  else pure ()

/-- The status and its event. -/
def recordStatus (order : Order) (targetStatus : OrderStatus) : Service Order := do
  match ← updateOrderStatus .trx order.id targetStatus with
  -- `updated!.updatedAt` of `undefined`
  | none => throw .infrastructure
  | some updated => do
    let eventId ← uuidv4
    insertOutboxEvent .trx
      { aggregateType := "order"
        aggregateId := order.id
        eventType := "order.status_changed"
        eventId
        payload := .orderStatusChanged order.publicId order.restaurantId order.branchId targetStatus
          (toMillis updated.updatedAt) (toMillis order.createdAt) order.currency }
    pure updated

def writeStatus (order : Order) (targetStatus : OrderStatus) : Service Order :=
  .transaction (recordStatus order targetStatus)

/-- The delivery of an order that was assigned when the request read it. -/
def releaseDelivery (order : Order) (targetStatus : OrderStatus) : Service Unit :=
  -- After the commit, on the pool: the order is cancelled also when this fails.
  if targetStatus = .cancelled ∧ order.status = .assigned then do
    match (← cancelActiveDeliveryForOrder .pool order.id).filter (· ≠ 0) with
    | none => pure ()
    | some freedAgentId => orElse (markAgentFree freedAgentId) ()
  else pure ()

def updateStatus (core : Core) (publicId : ℕ) (targetStatus : OrderStatus)
    (actor : RequestActor) : Service Order := do
  match ← findOrderByPublicId .pool publicId with
  | none => throw .OrderNotFoundError
  | some order => do
    let orderActor ← .ofExcept (resolveActor core order actor targetStatus)
    .ofExcept (assertTransition order.status targetStatus orderActor)
    assertWindow order targetStatus orderActor
    let updated ← writeStatus order targetStatus
    releaseDelivery order targetStatus
    pure updated

end OrderService

end SwiftBite
