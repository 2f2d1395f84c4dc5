import SwiftBite.Service.Order

/-! # PaymentService, KashierWebhookService and FinanceService -/

set_option autoImplicit false

namespace SwiftBite

open Store

namespace PaymentService

def createSession (core : Core) (order : Order) (kashierProvider : ℕ) : Service PaymentSession :=
  match core.createSession order.publicId order.total order.currency with
  | .error _ => throw (.appError "Payment provider unavailable" 503)
  | .ok created =>
    createPaymentSession .pool
      { orderId := order.id
        providerId := kashierProvider
        providerSessionId := created.providerSessionId
        redirectUrl := created.redirectUrl
        amount := order.total
        currency := order.currency
        status := .initialized }

def init (core : Core) (orderPublicId customerId : ℕ) : Service PaymentSession := do
  let order ← OrderService.findOrderForPayment orderPublicId customerId
  throwIf (order.status ≠ .pendingPayment) .OrderNotPendingPaymentError
  match ← findActivePaymentSessionByOrderId .pool order.id with
  -- However long ago it was opened.
  | some existing => pure existing
  | none => do
    match ← findPaymentProviderByName .pool "kashier" with
    | none => throw (.appError "Kashier provider not configured" 500)
    | some kashierProvider => createSession core order kashierProvider

/-- In milliseconds. -/
def getExpiresAt (sessionTimeoutMin : ℕ) : Service ℕ :=
  .sure fun x => (x.now / 1000 + sessionTimeoutMin * 60000, x)

def refundInput (charge : Transaction) (amount : ℤ) (uuid : ℕ) : CreateTransactionInput where
  orderId := charge.orderId
  transactionType := .refund
  method := charge.method
  providerId := charge.providerId
  status := .pending
  amount := amount
  currency := charge.currency
  srcAccId := none
  dstAccId := charge.srcAccId
  idempotencyKey := some (.refund uuid)

/-- The provider is asked; the statement that stores its reference is inside the same `try`.
`KashierClient.refund` falls back to the charge's reference when the answer has none. -/
def refundOnline (core : Core) (charge refundTransaction : Transaction) (amount : ℤ)
    (reason : String) : Service Transaction := do
  Prog.tryCatch
    (do
      let transactionId ← .ofExcept (core.refund charge.providerReferenceId amount reason)
      setTransactionProviderReferenceId .pool refundTransaction.id
        (transactionId.or charge.providerReferenceId))
    -- Whatever failed, the provider or the statement, the refund is put down as failed.
    fun _ => do
      let _ ← updateTransactionStatus .pool refundTransaction.id .failed
      throw (.appError "Payment provider unavailable" 503)
  pure refundTransaction

/-- Cash never reached the platform: there is nothing to wait for. -/
def refundCash (charge refundTransaction : Transaction) : Service Transaction := do
  let succeeded ← updateTransactionStatus .pool refundTransaction.id .succeeded
  markChargeRefunded .pool charge.id refundTransaction.id
  pure (succeeded.getD refundTransaction)

def refund (core : Core) (paymentId : ℕ) (amount : Option ℤ)
    (reason : String) : Service Transaction := do
  match ← findTransactionById .pool paymentId with
  | none => throw .PaymentNotFoundError
  | some charge => do
    throwIf (¬(charge.transactionType ∈ [TransactionType.charge, .codCollection]) ∨
      charge.status ≠ .succeeded)
      .PaymentNotRefundableError
    throwIf (charge.isRefunded = true) .PaymentAlreadyRefundedError
    -- The amount is compared with nothing, and the key is new with every request.
    let uuid ← uuidv4
    let refundTransaction ← createTransaction .pool
        (refundInput charge (amount.getD charge.amount) uuid)
    if charge.method = .online then
      refundOnline core charge refundTransaction (amount.getD charge.amount) reason
    else refundCash charge refundTransaction

end PaymentService

/-- The session, and when it is said to expire. -/
def PaymentController.init (sessionTimeoutMin : ℕ) (core : Core) (orderPublicId customerId : ℕ) :
    Service (PaymentSession × ℕ) := do
  let session ← PaymentService.init core orderPublicId customerId
  let expiresAt ← PaymentService.getExpiresAt sessionTimeoutMin
  pure (session, expiresAt)

/-- `String(data.merchantOrderId ?? "")`, as the UUID column takes it. -/
inductive MerchantOrderId where
  | empty
  | uuid (publicId : ℕ)
  | malformed
  deriving DecidableEq, Repr

structure WebhookPayload where
  event : Option String
  status : Option String
  merchantOrderId : MerchantOrderId
  transactionId : Option String
  kashierOrderId : Option String
  deriving DecidableEq, Repr

namespace WebhookPayload

def eventText (payload : WebhookPayload) : String := payload.event.getD ""

def statusText (payload : WebhookPayload) : String := payload.status.getD ""

def providerTransactionId (payload : WebhookPayload) : String :=
  (payload.transactionId.or payload.kashierOrderId).getD ""

def providerEventId (payload : WebhookPayload) : String :=
  payload.providerTransactionId ++ ":" ++ payload.eventText ++ ":" ++ payload.statusText

end WebhookPayload

inductive PayResult where
  | captured
  | failed
  deriving DecidableEq, Repr

namespace KashierWebhookService

def resolveOrder (merchantOrderId : MerchantOrderId) : Service (Option Order) :=
  match merchantOrderId with
  | .empty => pure none
  | .uuid publicId => OrderService.getOrderEntityByPublicId publicId
  -- invalid input syntax for type uuid
  | .malformed => throw .infrastructure

/-- The charge that a `pay` event records. -/
def chargeInput (order : Order) (session : PaymentSession) (providerTransactionId : String)
    (status : TransactionStatus) : CreateTransactionInput where
  orderId := some order.id
  transactionType := .charge
  method := .online
  providerId := some session.providerId
  providerReferenceId := some providerTransactionId
  status := status
  amount := session.amount
  currency := session.currency
  srcAccId := some order.customerId
  dstAccId := none
  idempotencyKey := some (.charge providerTransactionId)

def capture (order : Order) (session : PaymentSession)
    (providerTransactionId : String) : Service Unit := do
  let _ ← updatePaymentSessionStatus .trx session.id .captured
  let _ ← createTransaction .trx (chargeInput order session providerTransactionId .succeeded)
  let eventId ← uuidv4
  insertOutboxEvent .trx
    { aggregateType := "payment"
      aggregateId := order.id
      eventType := "payment.captured"
      eventId
      payload := .paymentCaptured order.publicId session.amount session.currency }
  -- By id alone: an order that was cancelled in the meantime is placed again.
  let _ ← OrderService.applySystemStatusChange .trx order.id .placed
  let items ← findItemsByOrderIds .trx [order.id]
  let eventId ← uuidv4
  insertOutboxEvent .trx
    { aggregateType := "order"
      aggregateId := order.id
      eventType := "order.placed"
      eventId
      payload := OrderService.orderPlacedPayload order .placed items }

def handlePayEvent (merchantOrderId : MerchantOrderId) (providerTransactionId status : String) :
    Service (Option (PayResult × Order)) := do
  match ← resolveOrder merchantOrderId with
  | none => pure none
  | some order => do
    match ← findActivePaymentSessionByOrderId .trx order.id with
    -- The session is closed already, and what the customer paid leaves no row.
    | none => pure none
    | some session => do
      if status = "SUCCESS" then
        capture order session providerTransactionId
        pure (some (.captured, order))
      else
        let _ ← updatePaymentSessionStatus .trx session.id .failed
        let _ ← createTransaction .trx (chargeInput order session providerTransactionId .failed)
        pure (some (.failed, order))

def handleRefundEvent (providerTransactionId status : String) : Service Unit :=
  if status = "SUCCESS" then do
    match ← findPendingRefundByProviderReferenceId .trx providerTransactionId with
    -- Too early (the reference is not stored yet), or too late.
    | none => pure ()
    | some refund =>
      match refund.orderId.filter (· ≠ 0) with
      | none => pure ()
      | some orderId => do
        let _ ← updateTransactionStatus .trx refund.id .succeeded
        match ← findSucceededChargeByOrderId .trx orderId with
        | none => pure ()
        | some charge => markChargeRefunded .trx charge.id refund.id
  else pure ()

def dispatch (payload : WebhookPayload) : Service Unit :=
  if payload.eventText = "pay" then do
    let _ ← handlePayEvent payload.merchantOrderId payload.providerTransactionId payload.statusText
  else if payload.eventText = "refund" then
    handleRefundEvent payload.providerTransactionId payload.statusText
  else pure ()

/-- What the transaction does with an event that is new. -/
def handleEvent (payload : WebhookPayload) (webhookEventId : ℕ) : Service Unit := do
  dispatch payload
  markWebhookEventProcessed .trx webhookEventId none
  .commitTrx

def rollbackAndThrow {α : Type} (err : Err) : Service α := do
  .rollbackTrx
  throw err

/-- The event's transaction, which the caller has begun. -/
def processEvent (payload : WebhookPayload) (signature : String)
    (kashierProvider : ℕ) : Service Unit := do
  let recorded ← Prog.tryCatch
    (recordWebhookEventIfNew .trx
      { providerId := kashierProvider, providerEventId := payload.providerEventId, signature })
    rollbackAndThrow
  match recorded with
  -- The event was seen before.
  | none => Prog.tryCatch .commitTrx rollbackAndThrow
  | some webhookEventId =>
    Prog.tryCatch (handleEvent payload webhookEventId) fun err => do
      .rollbackTrx
      -- The row of the event went with the rollback, so the mark finds nothing to update.
      orElse (markWebhookEventProcessed .pool webhookEventId (some err.message)) ()
      throw err

def process (payload : WebhookPayload) (signature : String)
    (signatureValid : Bool) : Service Unit := do
  throwIf (signatureValid = false) .InvalidSignatureError
  match ← resolveOrder payload.merchantOrderId with
  | none => pure ()
  | some _ => do
    match ← findPaymentProviderByName .pool "kashier" with
    | none => throw (.appError "Kashier provider not configured" 500)
    | some kashierProvider => do
      .beginTrx
      processEvent payload signature kashierProvider

end KashierWebhookService

namespace FinanceService

/-- The body of the payout's transaction. -/
def payOut (restaurantId : ℕ) (amount : ℤ) (currency : String)
    (idempotencyKey : String) : Service Transaction := do
  let locked ← lockRestaurantBalance .trx restaurantId currency
  match ← findTransactionByIdempotencyKey .trx (.payout restaurantId idempotencyKey) with
  -- The first payout is the answer, whatever amount this request asks for.
  | some existing => pure existing
  | none => do
    throwIf (locked.balance < amount) .InsufficientBalanceError
    setRestaurantBalance .trx restaurantId currency (locked.balance - amount)
    createTransaction .trx
      { orderId := none
        transactionType := .payout
        method := .bankTransfer
        status := .succeeded
        amount
        currency
        srcAccId := none
        dstAccId := some restaurantId
        idempotencyKey := some (.payout restaurantId idempotencyKey) }

def recordPayout (restaurantId : ℕ) (amount : ℤ) (currency : String) (idempotencyKey : String) :
    Service Transaction :=
  .transaction (payOut restaurantId amount currency idempotencyKey)

end FinanceService

end SwiftBite
