import SwiftBite.Repository.Order

/-! # Payment providers, payment sessions, webhook events and transactions -/

set_option autoImplicit false

namespace SwiftBite

open Store Statement

/-! ## payment_providers -/

/-- The rows that the migration inserts; nothing changes them. -/
def paymentProviders : List (ℕ × String) := [(1, "kashier"), (2, "cod")]

/-- The provider's id. -/
def findPaymentProviderByName (conn : Conn) (name : String) : Service (Option ℕ) :=
  .exec conn (select fun _ _ =>
    (paymentProviders.find? fun provider => provider.2 = name).map Prod.fst)

/-! ## payment_sessions -/

structure CreatePaymentSessionInput where
  orderId : ℕ
  providerId : ℕ
  providerSessionId : String
  redirectUrl : String
  amount : ℤ
  currency : String
  status : PaymentSessionStatus

def CreatePaymentSessionInput.row (data : CreatePaymentSessionInput)
    (id now : ℕ) : PaymentSession where
  id := id
  orderId := data.orderId
  providerId := data.providerId
  providerSessionId := data.providerSessionId
  redirectUrl := data.redirectUrl
  amount := data.amount
  currency := data.currency
  status := data.status
  createdAt := now
  updatedAt := now

def createPaymentSession (conn : Conn) (data : CreatePaymentSessionInput) :
    Service PaymentSession := do
  let id ← nextval .paymentSessions
  .exec conn (insert TableName.paymentSessions [(TableName.orders, RowKey.id data.orderId)]
    (data.row id))

/-- The latest of some rows; of rows created at the same time any may come first. -/
def latest (rows : List PaymentSession) : List PaymentSession :=
  rows.filter fun row => rows.all fun other => decide (other.createdAt ≤ row.createdAt)

def findActivePaymentSessionByOrderId (conn : Conn) (orderId : ℕ) :
    Service (Option PaymentSession) :=
  .exec conn (selectFirst TableName.paymentSessions fun sessions =>
    latest (sessions.rows.filter fun row : PaymentSession =>
      row.orderId = orderId && row.status.active))

def PaymentSession.withStatus (status : PaymentSessionStatus) (updatedAt : ℕ)
    (row : PaymentSession) : PaymentSession :=
  { row with status := status, updatedAt := updatedAt }

def updatePaymentSessionStatus (conn : Conn) (id : ℕ) (status : PaymentSessionStatus) :
    Service (Option PaymentSession) := do
  let updatedAt ← nowIso
  .exec conn (updateByKey TableName.paymentSessions (RowKey.id id)
    (PaymentSession.withStatus status updatedAt))

/-! ## payment_webhook_events -/

structure RecordWebhookEventInput where
  providerId : ℕ
  providerEventId : String
  signature : String

def RecordWebhookEventInput.row (data : RecordWebhookEventInput) (id now : ℕ) : WebhookEvent where
  id := id
  providerId := data.providerId
  providerEventId := data.providerEventId
  signature := data.signature
  receivedAt := now
  processedAt := none
  processError := none

/-- The id of the event, if it was not recorded before. -/
def recordWebhookEventIfNew (conn : Conn)
    (data : RecordWebhookEventInput) : Service (Option ℕ) := do
  let id ← nextval .paymentWebhookEvents
  let row ← .exec conn (insertIgnore TableName.paymentWebhookEvents
    (fun row : WebhookEvent =>
      row.providerId = data.providerId && row.providerEventId = data.providerEventId)
    [] (data.row id))
  pure (row.map fun row : WebhookEvent => row.id)

def WebhookEvent.processed (processedAt : ℕ) (processError : Option String)
    (row : WebhookEvent) : WebhookEvent :=
  { row with processedAt := some processedAt, processError := processError }

def markWebhookEventProcessed (conn : Conn) (id : ℕ)
    (processError : Option String) : Service Unit := do
  let processedAt ← nowIso
  let _ ← .exec conn (updateByKey TableName.paymentWebhookEvents (RowKey.id id)
    (WebhookEvent.processed processedAt processError))

/-! ## transactions -/

structure CreateTransactionInput where
  orderId : Option ℕ := none
  transactionType : TransactionType
  method : TransactionMethod
  providerId : Option ℕ := none
  providerReferenceId : Option String := none
  status : TransactionStatus
  amount : ℤ
  currency : String
  srcAccId : Option ℕ := none
  dstAccId : Option ℕ := none
  idempotencyKey : Option IdempotencyKey := none

def CreateTransactionInput.row (data : CreateTransactionInput) (id now : ℕ) : Transaction where
  id := id
  orderId := data.orderId
  transactionType := data.transactionType
  method := data.method
  providerId := data.providerId
  providerReferenceId := data.providerReferenceId
  status := data.status
  amount := data.amount
  currency := data.currency
  srcAccId := data.srcAccId
  dstAccId := data.dstAccId
  isRefunded := false
  refundedPaymentId := none
  idempotencyKey := data.idempotencyKey
  createdAt := now
  updatedAt := now

def createTransaction (conn : Conn) (data : CreateTransactionInput) : Service Transaction := do
  let id ← nextval .transactions
  .exec conn (insert TableName.transactions
    (data.orderId.toList.map fun orderId => (TableName.orders, RowKey.id orderId)) (data.row id))

def findTransactionById (conn : Conn) (id : ℕ) : Service (Option Transaction) :=
  .exec conn (selectByKey TableName.transactions (RowKey.id id))

def findSucceededChargeByOrderId (conn : Conn) (orderId : ℕ) : Service (Option Transaction) :=
  .exec conn (selectFirst TableName.transactions fun transactions =>
    transactions.rows.filter fun row : Transaction =>
      decide (row.orderId = some orderId ∧ row.transactionType ∈ [.charge, .codCollection] ∧
        row.status = .succeeded))

def findPendingCodCollectionByOrderId (conn : Conn) (orderId : ℕ) : Service (Option Transaction) :=
  .exec conn (selectFirst TableName.transactions fun transactions =>
    transactions.rows.filter fun row : Transaction =>
      decide (row.orderId = some orderId ∧ row.transactionType = .codCollection ∧
        row.status = .pending))

/-- Whatever its name says, the query does not look at the status. -/
def findPendingRefundByProviderReferenceId (conn : Conn) (providerReferenceId : String) :
    Service (Option Transaction) :=
  .exec conn (selectFirst TableName.transactions fun transactions =>
    transactions.rows.filter fun row : Transaction =>
      decide (row.providerReferenceId = some providerReferenceId ∧ row.transactionType = .refund))

def Transaction.withStatus (status : TransactionStatus) (updatedAt : ℕ)
    (row : Transaction) : Transaction :=
  { row with status := status, updatedAt := updatedAt }

def updateTransactionStatus (conn : Conn) (id : ℕ) (status : TransactionStatus) :
    Service (Option Transaction) := do
  let updatedAt ← nowIso
  .exec conn (updateByKey TableName.transactions (RowKey.id id)
    (Transaction.withStatus status updatedAt))

def Transaction.withReference (providerReferenceId : Option String) (updatedAt : ℕ)
    (row : Transaction) : Transaction :=
  { row with providerReferenceId := providerReferenceId, updatedAt := updatedAt }

def setTransactionProviderReferenceId (conn : Conn) (id : ℕ) (providerReferenceId : Option String) :
    Service Unit := do
  let updatedAt ← nowIso
  let _ ← .exec conn (updateByKey TableName.transactions (RowKey.id id)
    (Transaction.withReference providerReferenceId updatedAt))

def findTransactionByIdempotencyKey (conn : Conn) (idempotencyKey : IdempotencyKey) :
    Service (Option Transaction) :=
  .exec conn (selectFirst TableName.transactions fun transactions =>
    transactions.rows.filter fun row : Transaction =>
      decide (row.idempotencyKey = some idempotencyKey))

def Transaction.refunded (refundTransactionId updatedAt : ℕ) (row : Transaction) : Transaction :=
  { row with
    isRefunded := true, refundedPaymentId := some refundTransactionId, updatedAt := updatedAt }

def markChargeRefunded (conn : Conn) (chargeId refundTransactionId : ℕ) : Service Unit := do
  let updatedAt ← nowIso
  let _ ← .exec conn (updateByKey TableName.transactions (RowKey.id chargeId)
    (Transaction.refunded refundTransactionId updatedAt))

end SwiftBite
