import SwiftBite.Data.Enums
import SwiftBite.Store.Program

/-! # Tables of one region

The rows of the region's database as the migrations create them.  All rows of a database
carry the same region, so the column is left out; so are the raw payloads that nothing
reads.  Timestamps are microseconds since the epoch, money is in minor units, coordinates
are in units of the seventh decimal, and a UUID is a number.
-/

set_option autoImplicit false

namespace SwiftBite

open Store

structure Order where
  id : ℕ
  publicId : ℕ
  restaurantId : ℕ
  branchId : ℕ
  customerId : ℕ
  customerAddressId : ℕ
  deliveryLat : ℤ
  deliveryLng : ℤ
  deliveryAddressTextSnapshot : String
  status : OrderStatus
  subtotal : ℤ
  deliveryFee : ℤ
  serviceFee : ℤ
  total : ℤ
  commission : ℤ
  currency : String
  paymentMethod : PaymentMethod
  deliveryAgentId : Option ℕ
  createdAt : ℕ
  updatedAt : ℕ
  acceptedAt : Option ℕ
  rejectedAt : Option ℕ
  readyAt : Option ℕ
  assignedAt : Option ℕ
  pickedAt : Option ℕ
  deliveredAt : Option ℕ
  cancelledAt : Option ℕ

structure OrderItem where
  id : ℕ
  orderId : ℕ
  productId : ℕ
  quantity : ℕ
  unitPriceSnapshot : ℤ
  nameSnapshot : String
  imageUrlSnapshot : Option String
  lineTotal : ℤ
  createdAt : ℕ

structure PaymentSession where
  id : ℕ
  orderId : ℕ
  providerId : ℕ
  providerSessionId : String
  redirectUrl : String
  amount : ℤ
  currency : String
  status : PaymentSessionStatus
  createdAt : ℕ
  updatedAt : ℕ

/-- The idempotency keys that the services build, by their prefix: `charge:<transaction id>`,
`commission:<delivery id>`, `payout:<restaurant id>:<key>`, `refund:<uuid>`. -/
inductive IdempotencyKey where
  | charge (providerTransactionId : String)
  | commission (deliveryId : ℕ)
  | payout (restaurantId : ℕ) (key : String)
  | refund (uuid : ℕ)
  deriving DecidableEq, Repr

structure Transaction where
  id : ℕ
  orderId : Option ℕ
  transactionType : TransactionType
  method : TransactionMethod
  providerId : Option ℕ
  providerReferenceId : Option String
  status : TransactionStatus
  amount : ℤ
  currency : String
  srcAccId : Option ℕ
  dstAccId : Option ℕ
  isRefunded : Bool
  refundedPaymentId : Option ℕ
  idempotencyKey : Option IdempotencyKey
  createdAt : ℕ
  updatedAt : ℕ

structure RestaurantBalance where
  restaurantId : ℕ
  currency : String
  balance : ℤ
  updatedAt : ℕ

structure Delivery where
  id : ℕ
  orderId : ℕ
  agentId : ℕ
  status : DeliveryStatus
  pickupLat : ℤ
  pickupLng : ℤ
  dropoffLat : ℤ
  dropoffLng : ℤ
  distanceMeters : Option ℤ
  earningAmount : Option ℤ
  currency : String
  assignedAt : ℕ
  acceptedAt : Option ℕ
  rejectedAt : Option ℕ
  pickedAt : Option ℕ
  deliveredAt : Option ℕ
  reassignedAt : Option ℕ
  reassignedFrom : Option ℕ

structure AgentPresence where
  agentId : ℕ
  isOnline : Bool
  lastLat : Option ℤ
  lastLng : Option ℤ
  lastSeenAt : ℕ
  updatedAt : ℕ

structure AgentEarning where
  id : ℕ
  agentId : ℕ
  orderId : ℕ
  deliveryId : ℕ
  amount : ℤ
  currency : String
  earnedAt : ℕ

structure WebhookEvent where
  id : ℕ
  providerId : ℕ
  providerEventId : String
  signature : String
  receivedAt : ℕ
  processedAt : Option ℕ
  processError : Option String

/-- The payloads that the services put in the outbox. -/
inductive OutboxPayload where
  | orderStatusChanged (orderPublicId restaurantId branchId : ℕ) (status : OrderStatus)
      (updatedAt orderCreatedAt : ℕ) (currency : String)
  | orderPlaced (orderPublicId restaurantId branchId : ℕ) (subtotal deliveryFee total : ℤ)
      (currency : String)
      (paymentMethod : PaymentMethod) (status : OrderStatus) (createdAt : ℕ)
      (items : List (ℕ × ℕ × ℤ × ℤ))
  | paymentCaptured (orderPublicId : ℕ) (amount : ℤ) (currency : String)
  | deliveryCompleted (orderPublicId deliveryId agentId : ℕ) (deliveredAt : ℕ)
  deriving DecidableEq, Repr

structure OutboxEvent where
  id : ℕ
  aggregateType : String
  aggregateId : ℕ
  eventType : String
  eventId : ℕ
  payload : OutboxPayload
  createdAt : ℕ
  dispatchedAt : Option ℕ
  attempts : ℕ
  lastError : Option String

inductive TableName where
  | orders
  | orderItems
  | transactions
  | paymentSessions
  | paymentWebhookEvents
  | deliveries
  | agentEarnings
  | restaurantBalances
  | agentPresence
  | eventsOutbox
  deriving DecidableEq, Repr

abbrev RowOf : TableName → Type
  | .orders => Order
  | .orderItems => OrderItem
  | .transactions => Transaction
  | .paymentSessions => PaymentSession
  | .paymentWebhookEvents => WebhookEvent
  | .deliveries => Delivery
  | .agentEarnings => AgentEarning
  | .restaurantBalances => RestaurantBalance
  | .agentPresence => AgentPresence
  | .eventsOutbox => OutboxEvent

inductive RowKey where
  | id (n : ℕ)
  | account (restaurantId : ℕ) (currency : String)
  deriving DecidableEq, Repr

inductive UniqueKey where
  | orderPublicId (publicId : ℕ)
  | providerSession (providerSessionId : String)
  | idempotency (key : IdempotencyKey)
  | earningDelivery (deliveryId : ℕ)
  | webhookEvent (providerId : ℕ) (providerEventId : String)
  | outboxEvent (eventId : ℕ)
  deriving DecidableEq, Repr

instance : Keyed Order RowKey UniqueKey :=
  ⟨fun row => .id row.id, fun row => [.orderPublicId row.publicId]⟩

instance : Keyed OrderItem RowKey UniqueKey := ⟨fun row => .id row.id, fun _ => []⟩

instance : Keyed Transaction RowKey UniqueKey :=
  ⟨fun row => .id row.id, fun row => row.idempotencyKey.toList.map .idempotency⟩

instance : Keyed PaymentSession RowKey UniqueKey :=
  ⟨fun row => .id row.id, fun row => [.providerSession row.providerSessionId]⟩

instance : Keyed WebhookEvent RowKey UniqueKey :=
  ⟨fun row => .id row.id, fun row => [.webhookEvent row.providerId row.providerEventId]⟩

instance : Keyed Delivery RowKey UniqueKey := ⟨fun row => .id row.id, fun _ => []⟩

instance : Keyed AgentEarning RowKey UniqueKey :=
  ⟨fun row => .id row.id, fun row => [.earningDelivery row.deliveryId]⟩

instance : Keyed RestaurantBalance RowKey UniqueKey :=
  ⟨fun row => .account row.restaurantId row.currency, fun _ => []⟩

instance : Keyed AgentPresence RowKey UniqueKey := ⟨fun row => .id row.agentId, fun _ => []⟩

instance : Keyed OutboxEvent RowKey UniqueKey :=
  ⟨fun row => .id row.id, fun row => [.outboxEvent row.eventId]⟩

instance instKeyedRowOf : ∀ t, Keyed (RowOf t) RowKey UniqueKey
  | .orders => inferInstanceAs (Keyed Order RowKey UniqueKey)
  | .orderItems => inferInstanceAs (Keyed OrderItem RowKey UniqueKey)
  | .transactions => inferInstanceAs (Keyed Transaction RowKey UniqueKey)
  | .paymentSessions => inferInstanceAs (Keyed PaymentSession RowKey UniqueKey)
  | .paymentWebhookEvents => inferInstanceAs (Keyed WebhookEvent RowKey UniqueKey)
  | .deliveries => inferInstanceAs (Keyed Delivery RowKey UniqueKey)
  | .agentEarnings => inferInstanceAs (Keyed AgentEarning RowKey UniqueKey)
  | .restaurantBalances => inferInstanceAs (Keyed RestaurantBalance RowKey UniqueKey)
  | .agentPresence => inferInstanceAs (Keyed AgentPresence RowKey UniqueKey)
  | .eventsOutbox => inferInstanceAs (Keyed OutboxEvent RowKey UniqueKey)

abbrev Database := Db RowOf

def Database.empty : Database := fun _ => Table.empty

end SwiftBite
