import SwiftBite.Service.Delivery
import SwiftBite.Service.Payment
import SwiftBite.Store.Pool

/-! # PresenceService, and the operations of the region -/

set_option autoImplicit false

namespace SwiftBite

open Store

namespace PresenceService

def online (agentId : ℕ) (point : Point) : Service Unit := do
  let _ ← upsertAgentOnline .pool agentId point
  setAgentOnline agentId point

def offline (env : Config) (core : Core) (agentId : ℕ) : Service Unit := do
  let active ← findActiveDeliveryByAgentId .pool agentId
  throwIf (active.any (fun active => active.status = .picked) = true) .AgentInActiveDeliveryError
  setAgentPresenceOffline .pool agentId
  setAgentOffline agentId
  match active with
  | none => pure ()
  | some active =>
    match ← OrderService.getOrderEntityById active.orderId with
    | none => pure ()
    | some order => orElse (do let _ ← DeliveryService.reassign env core order.publicId) ()

def ping (agentId : ℕ) (point : Point) : Service Unit := do
  match ← findAgentPresence .pool agentId with
  | none => throw .NotOnlineError
  | some presence => do
    throwIf (presence.isOnline = false) .NotOnlineError
    pingAgentPresence .pool agentId point
    pingAgent agentId point
    -- The position is passed on to the customer of the delivery under way.
    match ← findActiveDeliveryByAgentId .pool agentId with
    | none => pure ()
    | some active => do let _ ← OrderService.getOrderEntityById active.orderId

end PresenceService

/-- The requests and webhooks that act on a region, and the assignment that an order sets off when
it is ready, with what each of them is given and the answers it gets from outside.  Archival and
the drain of the outbox are not among them: `Archival.Worker` and `Messaging.OutboxDrain` model
these on their own. -/
inductive Operation where
  | placeOrder (core : Core) (customerId : ℕ) (data : CreateOrderRequest)
  | updateOrderStatus (core : Core) (publicId : ℕ) (targetStatus : OrderStatus)
      (actor : RequestActor)
  | initPayment (core : Core) (orderPublicId customerId : ℕ)
  | refund (core : Core) (paymentId : ℕ) (amount : Option ℤ) (reason : String)
  | webhook (payload : WebhookPayload) (signature : String) (signatureValid : Bool)
  | assign (core : Core) (orderPublicId : ℕ) (agentId : Option ℕ)
  | tryAutoAssign (core : Core) (orderId : ℕ)
  | reassign (core : Core) (orderPublicId : ℕ)
  | updateDeliveryStatus (core : Core) (deliveryId actorUserId : ℕ) (targetStatus : DeliveryStatus)
  | online (agentId : ℕ) (point : Point)
  | offline (core : Core) (agentId : ℕ)
  | ping (agentId : ℕ) (point : Point)
  | recordPayout (restaurantId : ℕ) (amount : ℤ) (currency idempotencyKey : String)
  | sleep (duration : ℕ)

/-- What an operation returns. -/
inductive Reply where
  | nothing
  | order (order : Order)
  | delivery (delivery : Option Delivery)
  | session (session : PaymentSession)
  | transaction (transaction : Transaction)

def Operation.run (env : Config) : Operation → Service Reply
  | .placeOrder core customerId data => do
    let placed ← OrderService.placeOrder core customerId data
    pure (.order placed.1)
  | .updateOrderStatus core publicId targetStatus actor =>
    .order <$> OrderService.updateStatus core publicId targetStatus actor
  | .initPayment core orderPublicId customerId =>
    .session <$> PaymentService.init core orderPublicId customerId
  | .refund core paymentId amount reason =>
    .transaction <$> PaymentService.refund core paymentId amount reason
  | .webhook payload signature signatureValid => do
    KashierWebhookService.process payload signature signatureValid
    pure .nothing
  | .assign core orderPublicId agentId => do
    let delivery ← DeliveryService.assign env core orderPublicId agentId
    pure (.delivery (some delivery))
  | .tryAutoAssign core orderId => do
    DeliveryService.tryAutoAssign env core orderId
    pure .nothing
  | .reassign core orderPublicId => do
    let delivery ← DeliveryService.reassign env core orderPublicId
    pure (.delivery (some delivery))
  | .updateDeliveryStatus core deliveryId actorUserId targetStatus =>
    .delivery <$> DeliveryService.updateStatus env core deliveryId actorUserId targetStatus
  | .online agentId point => do
    PresenceService.online agentId point
    pure .nothing
  | .offline core agentId => do
    PresenceService.offline env core agentId
    pure .nothing
  | .ping agentId point => do
    PresenceService.ping agentId point
    pure .nothing
  | .recordPayout restaurantId amount currency idempotencyKey =>
    .transaction <$> FinanceService.recordPayout restaurantId amount currency idempotencyKey
  | .sleep duration => do
    SwiftBite.sleep duration
    pure .nothing

/-- The region: its database, the shared state, and the calls under way. -/
abbrev Region : Type 1 := Pool (K := RowKey) RowOf Shared Err Operation Reply

end SwiftBite
