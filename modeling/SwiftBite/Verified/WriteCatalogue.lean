import SwiftBite.Store.Journal
import SwiftBite.Verified.Footprints

/-! # Every write of the services

The writes that the operations of a region make, one constructor for each statement of the
repositories, with what the columns of one statement have to do with each other.  No operation
writes anything else, so a run is a list of these; and some of them only a settlement makes.
-/

set_option autoImplicit false

namespace SwiftBite.Verified

open Store Statement Prog

/-- Only a settlement records a commission, and only a payout is recorded as one. -/
structure Permitted (settles pays : Prop) (data : CreateTransactionInput) : Prop where
  keyed : ∀ deliveryId, data.idempotencyKey = some (.commission deliveryId) → settles
  commission : data.transactionType = .commission → settles
  payout : data.transactionType = .payout → pays

inductive Catalogue (placed : CreateOrderInput → Prop) (settles pays : Prop) : SqlWrite → Prop
  | lock (t : TableName) (k : RowKey) : Catalogue placed settles pays (.lock t k)
  | order (data : CreateOrderInput) (id now : ℕ) (fresh : data.status.hasTimestampColumn = false)
      (meets : placed data) :
      Catalogue placed settles pays (.insert TableName.orders (data.row id now))
  | orderItem (row : OrderItem) : Catalogue placed settles pays (.insert TableName.orderItems row)
  | transaction (data : CreateTransactionInput) (id now : ℕ)
      (permitted : Permitted settles pays data) :
      Catalogue placed settles pays (.insert TableName.transactions (data.row id now))
  | paymentSession (data : CreatePaymentSessionInput) (id now : ℕ) :
      Catalogue placed settles pays (.insert TableName.paymentSessions (data.row id now))
  | webhookEvent (data : RecordWebhookEventInput) (id now : ℕ) :
      Catalogue placed settles pays (.insert TableName.paymentWebhookEvents (data.row id now))
  | delivery (data : CreateDeliveryInput) (id now : ℕ) :
      Catalogue placed settles pays (.insert TableName.deliveries (data.row id now))
  | agentEarning (row : AgentEarning) (settlement : settles) :
      Catalogue placed settles pays (.insert TableName.agentEarnings row)
  | restaurantBalance (row : RestaurantBalance) (account : settles ∨ pays) :
      Catalogue placed settles pays (.insert TableName.restaurantBalances row)
  | agentPresence (row : AgentPresence) :
      Catalogue placed settles pays (.insert TableName.agentPresence row)
  | outboxEvent (data : OutboxEventInput) (id now : ℕ) :
      Catalogue placed settles pays (.insert TableName.eventsOutbox (data.row id now))
  /-- A status goes together with its timestamp column. -/
  | orderStatus (k : RowKey) (status : OrderStatus) (updatedAt : ℕ) (stamp : Option ℕ)
      (other : status ≠ .assigned) (stamped : stamp.isSome = status.hasTimestampColumn) :
      Catalogue placed settles pays
        (.update TableName.orders k (Order.withStatus status updatedAt stamp))
  | orderAgent (k : RowKey) (agentId assignedAt updatedAt : ℕ) :
      Catalogue placed settles pays
        (.update TableName.orders k (Order.withAgent agentId assignedAt updatedAt))
  | orderCommission (k : RowKey) (commission : ℤ) (updatedAt : ℕ) (settlement : settles) :
      Catalogue placed settles pays
        (.update TableName.orders k (Order.withCommission commission updatedAt))
  | transactionStatus (k : RowKey) (status : TransactionStatus) (updatedAt : ℕ) :
      Catalogue placed settles pays
        (.update TableName.transactions k (Transaction.withStatus status updatedAt))
  | transactionReference (k : RowKey) (providerReferenceId : Option String) (updatedAt : ℕ) :
      Catalogue placed settles pays
        (.update TableName.transactions k (Transaction.withReference providerReferenceId updatedAt))
  | transactionRefunded (k : RowKey) (refundTransactionId updatedAt : ℕ) :
      Catalogue placed settles pays
        (.update TableName.transactions k (Transaction.refunded refundTransactionId updatedAt))
  | sessionStatus (k : RowKey) (status : PaymentSessionStatus) (updatedAt : ℕ) :
      Catalogue placed settles pays
        (.update TableName.paymentSessions k (PaymentSession.withStatus status updatedAt))
  | webhookProcessed (k : RowKey) (processedAt : ℕ) (processError : Option String) :
      Catalogue placed settles pays
        (.update TableName.paymentWebhookEvents k (WebhookEvent.processed processedAt processError))
  | deliveryStatus (k : RowKey) (status : DeliveryStatus) (stamp : Option ℕ)
      (stamped : stamp.isSome = status.hasTimestampColumn) :
      Catalogue placed settles pays
        (.update TableName.deliveries k (Delivery.withStatus status stamp))
  | deliveryCancelled (k : RowKey) :
      Catalogue placed settles pays (.update TableName.deliveries k Delivery.cancel)
  | deliveryEarning (k : RowKey) (earningAmount : ℤ) (settlement : settles) :
      Catalogue placed settles pays
        (.update TableName.deliveries k (Delivery.withEarning earningAmount))
  | balance (k : RowKey) (balance : ℤ) (updatedAt : ℕ) (account : settles ∨ pays) :
      Catalogue placed settles pays
        (.update TableName.restaurantBalances k (RestaurantBalance.withBalance balance updatedAt))
  | presencePut (k : RowKey) (point : Point) (now : ℕ) :
      Catalogue placed settles pays
        (.update TableName.agentPresence k (AgentPresence.put point now))
  | presenceOffline (k : RowKey) (now : ℕ) :
      Catalogue placed settles pays
        (.update TableName.agentPresence k (AgentPresence.goOffline now))
  | presenceMoved (k : RowKey) (point : Point) (now : ℕ) :
    Catalogue placed settles pays (.update TableName.agentPresence k (AgentPresence.move point now))

/-- The bounds of the services. -/
abbrev catalogued (placed : CreateOrderInput → Prop) (settles pays : Prop) :
    Bounds RowOf RowKey Shared :=
  within (Catalogue placed settles pays) fun _ => True

namespace WriteCatalogue

variable {placed : CreateOrderInput → Prop} {settles pays : Prop} {β : Type} (conn : Conn)

theorem harmless_update {t : TableName} {k : RowKey} {f : RowOf t → RowOf t}
    (listed : Catalogue placed settles pays (.update t k f)) :
    (Prog.exec conn (updateByKey t k f) : Service (Option (RowOf t))).Harmless
      (catalogued placed settles pays) :=
  Harmless.exec (.updateByKey listed fun _ => trivial)

theorem harmless_insert {t : TableName} {parents : List (TableName × RowKey)} {row : ℕ → RowOf t}
    (listed : ∀ now, Catalogue placed settles pays (.insert t (row now))) :
    (Prog.exec conn (insert t parents row) : Service (RowOf t)).Harmless
      (catalogued placed settles pays) :=
  Harmless.exec (.insert listed fun _ => trivial)

theorem harmless_insertIgnore {t : TableName} {target : RowOf t → Bool}
    {parents : List (TableName × RowKey)} {row : ℕ → RowOf t}
    (listed : ∀ now, Catalogue placed settles pays (.insert t (row now))) :
    (Prog.exec conn (insertIgnore t target parents row) : Service (Option (RowOf t))).Harmless
      (catalogued placed settles pays) :=
  Harmless.exec (.insertIgnore listed fun _ => trivial)

/-- What follows an answer may count on it. -/
theorem harmless_answered {α : Type} {answer : Except Err α} {f : α → Service β}
    (next : ∀ a, answer = .ok a → (f a).Harmless (catalogued placed settles pays)) :
    (Prog.ofExcept answer >>= f).Harmless (catalogued placed settles pays) := by
  cases answer with
  | error err => trivial
  | ok a => exact next a rfl

/-! ## The repository functions -/

theorem now_stamped (f : Option ℕ → Service β) :
    ((some <$> nowIso) >>= f) = nowIso >>= fun time => f (some time) :=
  Prog.bind_assoc nowIso _ f

theorem harmless_stamped {status : OrderStatus} {f : Option ℕ → Service β}
    (next : ∀ stamp : Option ℕ, stamp.isSome = status.hasTimestampColumn →
      (f stamp).Harmless (catalogued placed settles pays)) :
    (status.stampTime >>= f).Harmless (catalogued placed settles pays) := by
  unfold OrderStatus.stampTime
  split
  next has =>
    rw [now_stamped]
    exact quiet_nowIso.harmless.bind fun time => next (some time) (by simpa using has.symm)
  next lacks => exact next none (by simpa using lacks)

theorem harmless_deliveryStamped {status : DeliveryStatus} {f : Option ℕ → Service β}
    (next : ∀ stamp : Option ℕ, stamp.isSome = status.hasTimestampColumn →
      (f stamp).Harmless (catalogued placed settles pays)) :
    (status.stampTime >>= f).Harmless (catalogued placed settles pays) := by
  unfold DeliveryStatus.stampTime
  split
  next has =>
    rw [now_stamped]
    exact quiet_nowIso.harmless.bind fun time => next (some time) (by simpa using has.symm)
  next lacks => exact next none (by simpa using lacks)

theorem harmless_updateOrderStatus (id : ℕ) {status : OrderStatus} (other : status ≠ .assigned) :
    (updateOrderStatus conn id status).Harmless (catalogued placed settles pays) :=
  quiet_nowIso.harmless.bind fun updatedAt => harmless_stamped fun stamp stamped =>
    harmless_update conn (.orderStatus _ status updatedAt stamp other stamped)

theorem harmless_setDeliveryAgent (id agentId : ℕ) :
    (setDeliveryAgent conn id agentId).Harmless (catalogued placed settles pays) :=
  quiet_nowIso.harmless.bind fun _ => quiet_nowIso.harmless.bind fun _ =>
    harmless_update conn (.orderAgent _ _ _ _)

theorem harmless_setOrderCommission (settlement : settles) (id : ℕ) (commission : ℤ) :
    (setOrderCommission conn id commission).Harmless (catalogued placed settles pays) :=
  quiet_nowIso.harmless.bind fun _ =>
    (harmless_update conn (.orderCommission _ _ _ settlement)).bind fun _ => trivial

theorem harmless_createOrder (data : CreateOrderInput)
    (fresh : data.status.hasTimestampColumn = false) (meets : placed data) :
    (createOrder conn data).Harmless (catalogued placed settles pays) :=
  (quiet_nextval _).harmless.bind fun _ => harmless_insert conn fun _ => .order _ _ _ fresh meets

theorem harmless_bulkInsertItems (orderId : ℕ) (items : List BulkInsertItemInput) :
    (bulkInsertItems conn orderId items).Harmless (catalogued placed settles pays) :=
  (quiet_nextvals _ _).harmless.bind fun _ =>
    Harmless.exec (.insertAll (fun _ _ _ => .orderItem _) fun _ => trivial)

theorem harmless_insertOutboxEvent (data : OutboxEventInput) :
    (insertOutboxEvent conn data).Harmless (catalogued placed settles pays) :=
  (quiet_nextval _).harmless.bind fun _ =>
    (harmless_insert conn fun _ => .outboxEvent _ _ _).bind fun _ => trivial

theorem harmless_createTransaction (data : CreateTransactionInput)
    (permitted : Permitted settles pays data) :
    (createTransaction conn data).Harmless (catalogued placed settles pays) :=
  (quiet_nextval _).harmless.bind fun _ => harmless_insert conn fun _ =>
    .transaction _ _ _ permitted

theorem harmless_updateTransactionStatus (id : ℕ) (status : TransactionStatus) :
    (updateTransactionStatus conn id status).Harmless (catalogued placed settles pays) :=
  quiet_nowIso.harmless.bind fun _ => harmless_update conn (.transactionStatus _ _ _)

theorem harmless_setTransactionProviderReferenceId (id : ℕ) (reference : Option String) :
    (setTransactionProviderReferenceId conn id reference).Harmless
      (catalogued placed settles pays) :=
  quiet_nowIso.harmless.bind fun _ =>
    (harmless_update conn (.transactionReference _ _ _)).bind fun _ => trivial

theorem harmless_markChargeRefunded (chargeId refundTransactionId : ℕ) :
    (markChargeRefunded conn chargeId refundTransactionId).Harmless
      (catalogued placed settles pays) :=
  quiet_nowIso.harmless.bind fun _ =>
    (harmless_update conn (.transactionRefunded _ _ _)).bind fun _ => trivial

theorem harmless_updatePaymentSessionStatus (id : ℕ) (status : PaymentSessionStatus) :
    (updatePaymentSessionStatus conn id status).Harmless (catalogued placed settles pays) :=
  quiet_nowIso.harmless.bind fun _ => harmless_update conn (.sessionStatus _ _ _)

theorem harmless_createPaymentSession (data : CreatePaymentSessionInput) :
    (createPaymentSession conn data).Harmless (catalogued placed settles pays) :=
  (quiet_nextval _).harmless.bind fun _ => harmless_insert conn fun _ => .paymentSession _ _ _

theorem harmless_recordWebhookEventIfNew (data : RecordWebhookEventInput) :
    (recordWebhookEventIfNew conn data).Harmless (catalogued placed settles pays) :=
  (quiet_nextval _).harmless.bind fun _ =>
    (harmless_insertIgnore conn fun _ => .webhookEvent _ _ _).bind fun _ => trivial

theorem harmless_markWebhookEventProcessed (id : ℕ) (processError : Option String) :
    (markWebhookEventProcessed conn id processError).Harmless (catalogued placed settles pays) :=
  quiet_nowIso.harmless.bind fun _ =>
    (harmless_update conn (.webhookProcessed _ _ _)).bind fun _ => trivial

theorem harmless_updateDeliveryStatus (id : ℕ) (status : DeliveryStatus) :
    (updateDeliveryStatus conn id status).Harmless (catalogued placed settles pays) :=
  harmless_deliveryStamped fun stamp stamped =>
    harmless_update conn (.deliveryStatus _ status stamp stamped)

theorem harmless_cancelActiveDeliveryForOrder (orderId : ℕ) :
    (cancelActiveDeliveryForOrder conn orderId).Harmless (catalogued placed settles pays) :=
  (Harmless.exec .select).bind fun _ =>
    (Harmless.exec (Within.updateWhere (fun _ _ => Catalogue.deliveryCancelled _) fun _ =>
      trivial)).bind fun _ => trivial

theorem harmless_createDelivery (data : CreateDeliveryInput) :
    (createDelivery conn data).Harmless (catalogued placed settles pays) :=
  (quiet_nextval _).harmless.bind fun _ => harmless_insert conn fun _ => .delivery _ _ _

theorem harmless_setDeliveryEarning (settlement : settles) (id : ℕ) (earningAmount : ℤ) :
    (setDeliveryEarning conn id earningAmount).Harmless (catalogued placed settles pays) :=
  (harmless_update conn (.deliveryEarning _ _ settlement)).bind fun _ => trivial

theorem harmless_lockRestaurantBalance (account : settles ∨ pays) (restaurantId : ℕ)
    (currency : String) :
    (lockRestaurantBalance conn restaurantId currency).Harmless
      (catalogued placed settles pays) := by
  refine (harmless_insertIgnore conn fun _ => .restaurantBalance _ account).bind fun _ => ?_
  refine (Harmless.exec (Within.lockByKey (Catalogue.lock _ _) fun _ => trivial)).bind fun row => ?_
  cases row <;> trivial

theorem harmless_setRestaurantBalance (account : settles ∨ pays) (restaurantId : ℕ)
    (currency : String) (balance : ℤ) :
    (setRestaurantBalance conn restaurantId currency balance).Harmless
      (catalogued placed settles pays) :=
  quiet_nowIso.harmless.bind fun _ =>
    (harmless_update conn (.balance _ _ _ account)).bind fun _ => trivial

theorem harmless_createAgentEarning (settlement : settles) (data : CreateAgentEarningInput) :
    (createAgentEarning conn data).Harmless (catalogued placed settles pays) := by
  refine (quiet_nextval _).harmless.bind fun _ => ?_
  refine (harmless_insertIgnore conn fun _ => .agentEarning _ settlement).bind fun row => ?_
  cases row with
  | none => exact Harmless.exec (.selectFirst fun _ => trivial)
  | some row => trivial

/-! ## Orders -/

/-- Only the system puts an order on `assigned`, and no request speaks for the system. -/
theorem other_of_request {core : Core} {order : Order} {actor : RequestActor}
    {source target : OrderStatus} {orderActor : OrderActor}
    (resolved : OrderService.resolveActor core order actor target = .ok orderActor)
    (allowed : source.allows target orderActor = true) : target ≠ .assigned := by
  rintro rfl
  have isSystem : orderActor = .system := by
    revert allowed
    cases source <;> cases orderActor <;> decide
  subst isSystem
  unfold OrderService.resolveActor at resolved
  split at resolved
  · cases resolved
  · split at resolved <;> cases resolved
  · split at resolved
    · cases resolved
    · cases resolved
  · cases resolved

theorem harmless_placeCod (branch : CoreBranch) (customerId : ℕ) (order : Order)
    (items : List OrderItem) :
    (OrderService.placeCod branch customerId order items).Harmless
      (catalogued placed settles pays) :=
  (quiet_findPaymentProviderByName _ _).harmless.bind fun _ =>
    (harmless_createTransaction _ _ ⟨by rintro _ ⟨⟩, by rintro ⟨⟩, by rintro ⟨⟩⟩).bind fun _ =>
    quiet_uuidv4.harmless.bind fun _ => harmless_insertOutboxEvent _ _

theorem harmless_insertOrder (branch : CoreBranch) (address : CoreCustomerAddress)
    (branchProducts : List CoreBranchProduct) (customerId publicId : ℕ) (data : CreateOrderRequest)
    (meets : placed (OrderService.orderInput branch address branchProducts customerId
      publicId data)) :
    (OrderService.insertOrder branch address branchProducts customerId publicId data).Harmless
      (catalogued placed settles pays) := by
  refine Harmless.transaction ((harmless_createOrder _ _ ?_ meets).bind fun order =>
    (harmless_bulkInsertItems _ _ _).bind fun items => ?_)
  · unfold OrderService.orderInput
    dsimp only
    split <;> rfl
  · dsimp only
    split
    · exact (harmless_placeCod _ _ _ _).bind fun _ => trivial
    · trivial

/-- The orders that an operation may insert all meet the condition. -/
def Places (placed : CreateOrderInput → Prop) : Operation → Prop
  | .placeOrder core customerId data =>
    ∀ branch address branchProducts publicId, core.getBranch data.branchId = .ok branch →
    placed (OrderService.orderInput branch address branchProducts customerId publicId data)
  | _ => True

theorem places_any (op : Operation) : Places (fun _ => True) op := by
  cases op with
  | placeOrder core customerId data => exact fun _ _ _ _ _ => trivial
  | _ => trivial

theorem harmless_placeOrder (core : Core) (customerId : ℕ) (data : CreateOrderRequest)
    (places : Places placed (.placeOrder core customerId data)) :
    (OrderService.placeOrder core customerId data).Harmless (catalogued placed settles pays) := by
  refine harmless_answered fun branch answered => (quiet_throwIf _ _).harmless.bind fun _ => ?_
  refine Quiet.ofExcept.harmless.bind fun address => (quiet_throwIf _ _).harmless.bind fun _ => ?_
  refine Quiet.ofExcept.harmless.bind fun branchProducts =>
    (quiet_throwIf _ _).harmless.bind fun _ => ?_
  refine quiet_uuidv4.harmless.bind fun publicId =>
    (harmless_insertOrder _ _ _ _ _ _ (places _ _ _ _ answered)).bind fun _ =>
    Harmless.bind ?_ fun _ => trivial
  unfold OrderService.reserve
  split
  · trivial
  · exact (harmless_updateOrderStatus _ _ (by decide)).bind fun _ => trivial

theorem harmless_recordStatus (order : Order) {targetStatus : OrderStatus}
    (other : targetStatus ≠ .assigned) :
    (OrderService.recordStatus order targetStatus).Harmless (catalogued placed settles pays) := by
  refine (harmless_updateOrderStatus _ _ other).bind fun updated => ?_
  cases updated with
  | none => trivial
  | some updated =>
    exact quiet_uuidv4.harmless.bind fun _ => (harmless_insertOutboxEvent _ _).bind fun _ => trivial

theorem harmless_releaseDelivery (order : Order) (targetStatus : OrderStatus) :
    (OrderService.releaseDelivery order targetStatus).Harmless
      (catalogued placed settles pays) := by
  unfold OrderService.releaseDelivery
  split
  · refine (harmless_cancelActiveDeliveryForOrder _ _).bind fun freed => ?_
    cases freed.filter (· ≠ 0) with
    | none => trivial
    | some agentId => exact (commands_later.quiet_markAgentFree agentId).harmless
  · trivial

theorem harmless_updateStatus (core : Core) (publicId : ℕ) (targetStatus : OrderStatus)
    (actor : RequestActor) :
    (OrderService.updateStatus core publicId targetStatus actor).Harmless
      (catalogued placed settles pays) := by
  refine (quiet_findOrderByPublicId .pool publicId fun _ => trivial).harmless.bind fun found => ?_
  cases found with
  | none => trivial
  | some order =>
    -- The answers of the two checks say which statuses a request can ask for.
    refine harmless_answered fun orderActor resolved => harmless_answered fun _ passed => ?_
    have other : targetStatus ≠ .assigned :=
      other_of_request resolved (allows_of_assertTransition passed)
    refine (quiet_assertWindow order targetStatus orderActor).harmless.bind fun _ => ?_
    refine (Harmless.transaction (harmless_recordStatus order other)).bind fun _ => ?_
    exact (harmless_releaseDelivery order targetStatus).bind fun _ => trivial

/-! ## Payments -/

theorem harmless_findOrderForPayment (publicId customerId : ℕ) :
    (OrderService.findOrderForPayment publicId customerId).Harmless
      (catalogued placed settles pays) := by
  refine (quiet_findOrderByPublicId .pool publicId fun _ => trivial).harmless.bind fun found => ?_
  cases found with
  | none => trivial
  | some order => exact (quiet_throwIf _ _).harmless.bind fun _ => trivial

theorem harmless_init (core : Core) (orderPublicId customerId : ℕ) :
    (PaymentService.init core orderPublicId customerId).Harmless
      (catalogued placed settles pays) := by
  refine (harmless_findOrderForPayment orderPublicId customerId).bind fun order =>
    (quiet_throwIf _ _).harmless.bind fun _ => ?_
  refine (Harmless.exec (.selectFirst fun _ => trivial)).bind fun existing => ?_
  cases existing with
  | some existing => trivial
  | none =>
    refine (quiet_findPaymentProviderByName _ _).harmless.bind fun provider => ?_
    cases provider with
    | none => trivial
    | some provider =>
      dsimp only
      unfold PaymentService.createSession
      split
      · trivial
      · exact harmless_createPaymentSession _ _

theorem harmless_refund (core : Core) (paymentId : ℕ) (amount : Option ℤ) (reason : String) :
    (PaymentService.refund core paymentId amount reason).Harmless
      (catalogued placed settles pays) := by
  refine (Harmless.exec (.selectByKey fun _ => trivial)).bind fun found => ?_
  cases found with
  | none => trivial
  | some charge =>
    refine (quiet_throwIf _ _).harmless.bind fun _ => (quiet_throwIf _ _).harmless.bind fun _ => ?_
    refine quiet_uuidv4.harmless.bind fun _ =>
      (harmless_createTransaction _ _ ⟨by rintro _ ⟨⟩, by rintro ⟨⟩, by rintro ⟨⟩⟩).bind
        fun refund => ?_
    split
    · refine Harmless.bind (Harmless.tryCatch ?_ fun _ => ?_) fun _ => trivial
      · exact Quiet.ofExcept.harmless.bind fun _ => harmless_setTransactionProviderReferenceId _ _ _
      · exact (harmless_updateTransactionStatus _ _ _).bind fun _ => trivial
    · exact (harmless_updateTransactionStatus _ _ _).bind fun _ =>
        (harmless_markChargeRefunded _ _ _).bind fun _ => trivial

theorem harmless_resolveOrder (merchantOrderId : MerchantOrderId) :
    (KashierWebhookService.resolveOrder merchantOrderId).Harmless
      (catalogued placed settles pays) := by
  unfold KashierWebhookService.resolveOrder
  split
  · trivial
  · exact (quiet_findOrderByPublicId .pool _ fun _ => trivial).harmless
  · trivial

theorem harmless_applySystemStatusChange (conn : Conn) (id : ℕ) {targetStatus : OrderStatus}
    (other : targetStatus ≠ .assigned) :
    (OrderService.applySystemStatusChange conn id targetStatus).Harmless
      (catalogued placed settles pays) := by
  refine (harmless_updateOrderStatus conn id other).bind fun updated => ?_
  cases updated <;> trivial

theorem harmless_capture (order : Order) (session : PaymentSession)
    (providerTransactionId : String) :
    (KashierWebhookService.capture order session providerTransactionId).Harmless
      (catalogued placed settles pays) :=
  (harmless_updatePaymentSessionStatus _ _ _).bind fun _ =>
    (harmless_createTransaction _ _ ⟨by rintro _ ⟨⟩, by rintro ⟨⟩, by rintro ⟨⟩⟩).bind fun _ =>
    quiet_uuidv4.harmless.bind fun _ => (harmless_insertOutboxEvent _ _).bind fun _ =>
    (harmless_applySystemStatusChange _ _ (by decide)).bind fun _ =>
      (quiet_findItemsByOrderIds _ _).harmless.bind fun _ =>
    quiet_uuidv4.harmless.bind fun _ => harmless_insertOutboxEvent _ _

theorem harmless_handlePayEvent (merchantOrderId : MerchantOrderId)
    (providerTransactionId status : String) :
    (KashierWebhookService.handlePayEvent merchantOrderId providerTransactionId status).Harmless
      (catalogued placed settles pays) := by
  refine (harmless_resolveOrder merchantOrderId).bind fun found => ?_
  cases found with
  | none => trivial
  | some order =>
    refine (Harmless.exec (.selectFirst fun _ => trivial)).bind fun session => ?_
    cases session with
    | none => trivial
    | some session =>
      dsimp only
      split
      · exact (harmless_capture _ _ _).bind fun _ => trivial
      · exact (harmless_updatePaymentSessionStatus _ _ _).bind fun _ =>
          (harmless_createTransaction _ _ ⟨by rintro _ ⟨⟩, by rintro ⟨⟩, by rintro ⟨⟩⟩).bind
            fun _ => trivial

theorem harmless_handleRefundEvent (providerTransactionId status : String) :
    (KashierWebhookService.handleRefundEvent providerTransactionId status).Harmless
      (catalogued placed settles pays) := by
  unfold KashierWebhookService.handleRefundEvent
  split
  · refine (Harmless.exec (.selectFirst fun _ => trivial)).bind fun found => ?_
    cases found with
    | none => trivial
    | some refund =>
      dsimp only
      cases refund.orderId.filter (· ≠ 0) with
      | none => trivial
      | some orderId =>
        refine (harmless_updateTransactionStatus _ _ _).bind fun _ =>
          (Harmless.exec (.selectFirst fun _ => trivial)).bind fun charge => ?_
        cases charge with
        | none => trivial
        | some charge => exact harmless_markChargeRefunded _ _ _
  · trivial

theorem harmless_dispatch (payload : WebhookPayload) :
    (KashierWebhookService.dispatch payload).Harmless (catalogued placed settles pays) := by
  unfold KashierWebhookService.dispatch
  split
  · exact (harmless_handlePayEvent _ _ _).bind fun _ => trivial
  · split
    · exact harmless_handleRefundEvent _ _
    · trivial

theorem harmless_commitTrx :
    (Prog.commitTrx : Service Unit).Harmless (catalogued placed settles pays) :=
  fun _ => trivial

theorem harmless_rollbackAndThrow {α : Type} (err : Err) :
    (KashierWebhookService.rollbackAndThrow err : Service α).Harmless
      (catalogued placed settles pays) :=
  trivial

theorem harmless_process (payload : WebhookPayload) (signature : String) (signatureValid : Bool) :
    (KashierWebhookService.process payload signature signatureValid).Harmless
      (catalogued placed settles pays) := by
  refine (quiet_throwIf _ _).harmless.bind fun _ => (harmless_resolveOrder _).bind fun found => ?_
  cases found with
  | none => trivial
  | some order =>
    refine (quiet_findPaymentProviderByName _ _).harmless.bind fun provider => ?_
    cases provider with
    | none => trivial
    | some provider =>
      refine Harmless.bind (fun _ => trivial) fun _ => ?_
      refine Harmless.bind ((harmless_recordWebhookEventIfNew _ _).tryCatch fun _ =>
        harmless_rollbackAndThrow _) fun recorded => ?_
      cases recorded with
      | none => exact harmless_commitTrx.tryCatch fun _ => harmless_rollbackAndThrow _
      | some webhookEventId =>
        refine Harmless.tryCatch ((harmless_dispatch payload).bind fun _ => ?_) fun err => ?_
        · exact (harmless_markWebhookEventProcessed _ _ _).bind fun _ => harmless_commitTrx
        · refine Harmless.bind (by trivial) fun _ => Harmless.bind ?_ fun _ => trivial
          exact (harmless_markWebhookEventProcessed _ _ _).tryCatch fun _ => trivial

theorem harmless_recordPayout (payment : pays) (restaurantId : ℕ) (amount : ℤ)
    (currency idempotencyKey : String) :
    (FinanceService.recordPayout restaurantId amount currency idempotencyKey).Harmless
      (catalogued placed settles pays) := by
  refine Harmless.transaction
    ((harmless_lockRestaurantBalance _ (.inr payment) _ _).bind fun locked => ?_)
  refine (Harmless.exec (.selectFirst fun _ => trivial)).bind fun existing => ?_
  cases existing with
  | some existing => trivial
  | none =>
    exact (quiet_throwIf _ _).harmless.bind fun _ =>
      (harmless_setRestaurantBalance _ (.inr payment) _ _ _).bind fun _ =>
        harmless_createTransaction _ _ ⟨by rintro _ ⟨⟩, by rintro ⟨⟩, fun _ => payment⟩

/-! ## Deliveries -/

open DeliveryService AssignmentService

variable (env : Config) (core : Core)

theorem harmless_createAssignment (order : AssignmentOrderContext) (branch : Point) (agentId : ℕ)
    (distanceMeters : Option ℚ) (reassignedFrom : Option ℕ) :
    (createAssignment order branch agentId distanceMeters reassignedFrom).Harmless
      (catalogued placed settles pays) := by
  refine Harmless.bind (Harmless.transaction ?_) fun delivery =>
    (commands_later.quiet_markAgentBusy agentId).harmless.bind fun _ => trivial
  exact (harmless_createDelivery _ _).bind fun _ =>
    (harmless_setDeliveryAgent _ _ _).bind fun _ => trivial

theorem harmless_tryAssign (order : AssignmentOrderContext) (branch : Point)
    (reassignedFrom : Option ℕ) :
    (tryAssign env order branch reassignedFrom).Harmless (catalogued placed settles pays) := by
  refine (quiet_findCandidates .pool env branch).harmless.bind fun candidates => ?_
  cases candidates with
  | nil => trivial
  | cons best rest => exact (harmless_createAssignment _ _ _ _ _).map

theorem harmless_orNoEligibleAgents (delivery : Option Delivery) :
    (orNoEligibleAgents core delivery).Harmless (catalogued placed settles pays) := by
  cases delivery with
  | none => trivial
  | some delivery => exact Quiet.ofExcept.harmless.bind fun _ => trivial

theorem harmless_assign (orderPublicId : ℕ) (agentId : Option ℕ) :
    (assign env core orderPublicId agentId).Harmless (catalogued placed settles pays) := by
  refine (quiet_findOrderByPublicId .pool orderPublicId fun _ => trivial).harmless.bind
    fun found => ?_
  cases found with
  | none => trivial
  | some order =>
    refine (quiet_throwIf _ _).harmless.bind fun _ =>
      (quiet_findActiveDeliveryByOrderId .pool order.id fun _ => trivial).harmless.bind fun _ => ?_
    refine (quiet_throwIf _ _).harmless.bind fun _ => Quiet.ofExcept.harmless.bind fun branch => ?_
    refine Harmless.bind ?_ fun _ => harmless_orNoEligibleAgents core _
    unfold assignOrder
    split
    · refine Harmless.map (Harmless.bind ((quiet_findActiveDeliveryByAgentId .pool _ fun _ =>
        trivial).harmless.bind fun _ => trivial) fun _ => ?_)
      exact (quiet_throwIf _ _).harmless.bind fun _ => harmless_createAssignment _ _ _ _ _
    · exact harmless_tryAssign env _ _ _

theorem harmless_tryAutoAssign (orderId : ℕ) :
    (tryAutoAssign env core orderId).Harmless (catalogued placed settles pays) := by
  refine (quiet_findOrderById .pool orderId fun _ => trivial).harmless.bind fun found => ?_
  cases found with
  | none => trivial
  | some order =>
    change Harmless (catalogued placed settles pays) (if _ then _ else _)
    split
    · trivial
    · refine (quiet_findActiveDeliveryByOrderId .pool order.id fun _ => trivial).harmless.bind
        fun existing => ?_
      split
      · trivial
      · exact Quiet.ofExcept.harmless.bind fun _ =>
          (harmless_tryAssign env _ _ _).bind fun _ => trivial

theorem harmless_reassign (orderPublicId : ℕ) :
    (reassign env core orderPublicId).Harmless (catalogued placed settles pays) := by
  refine (quiet_findOrderByPublicId .pool orderPublicId fun _ => trivial).harmless.bind
    fun found => ?_
  cases found with
  | none => trivial
  | some order =>
    refine (quiet_findActiveDeliveryByOrderId .pool order.id fun _ => trivial).harmless.bind
      fun active => ?_
    cases active with
    | none => trivial
    | some active =>
      refine (quiet_countReassignmentChain .pool active.id).harmless.bind fun _ =>
        (quiet_throwIf _ _).harmless.bind fun _ => ?_
      refine (harmless_updateDeliveryStatus _ _ _).bind fun _ =>
        (commands_later.quiet_markAgentFree _).harmless.bind fun _ => ?_
      exact Quiet.ofExcept.harmless.bind fun _ => (harmless_tryAssign env _ _ _).bind fun _ =>
        harmless_orNoEligibleAgents core _

theorem harmless_tryReassignAfterRejection (rejected : Delivery) :
    (tryReassignAfterRejection env core rejected).Harmless (catalogued placed settles pays) := by
  refine (quiet_countReassignmentChain .pool rejected.id).harmless.bind fun chainLength => ?_
  split
  · trivial
  · refine (quiet_findOrderById .pool rejected.orderId fun _ => trivial).harmless.bind
      fun found => ?_
    cases found with
    | none => trivial
    | some order =>
      exact Quiet.ofExcept.harmless.bind fun _ =>
        (harmless_tryAssign env _ _ _).bind fun _ => trivial

theorem harmless_collectCash (order : Order) :
    (collectCash order).Harmless (catalogued placed settles pays) := by
  unfold collectCash
  split
  · refine (Harmless.exec (.selectFirst fun _ => trivial)).bind fun collection => ?_
    cases collection with
    | none => trivial
    | some collection => exact (harmless_updateTransactionStatus _ _ _).bind fun _ => trivial
  · trivial

theorem harmless_settle (settlement : settles) (order : Order) (branch : CoreBranch)
    (delivery : Delivery) (commission agentEarning : ℤ) :
    (settle order branch delivery commission agentEarning).Harmless
      (catalogued placed settles pays) := by
  refine (harmless_updateDeliveryStatus _ _ _).bind fun _ =>
    (harmless_setOrderCommission _ settlement _ _).bind fun _ => ?_
  refine (harmless_updateOrderStatus _ _ (by decide)).bind fun _ =>
    (harmless_collectCash order).bind fun _ => ?_
  refine (harmless_createTransaction _ _ ⟨fun _ _ => settlement, fun _ => settlement,
    by rintro ⟨⟩⟩).bind fun _ => Harmless.bind ?_ fun _ => ?_
  · exact (harmless_lockRestaurantBalance _ (.inl settlement) _ _).bind fun _ =>
      harmless_setRestaurantBalance _ (.inl settlement) _ _ _
  · refine (harmless_setDeliveryEarning _ settlement _ _).bind fun _ =>
      (harmless_createAgentEarning _ settlement _).bind fun _ => Harmless.bind ?_ fun _ => trivial
    exact quiet_uuidv4.harmless.bind fun _ => quiet_nowIso.harmless.bind fun _ =>
      (harmless_insertOutboxEvent _ _).bind fun _ =>
      quiet_uuidv4.harmless.bind fun _ => quiet_nowIso.harmless.bind fun _ =>
        harmless_insertOutboxEvent _ _

theorem harmless_settleDelivery (settlement : settles) (delivery : Delivery) :
    (settleDelivery env core delivery).Harmless (catalogued placed settles pays) := by
  refine (quiet_findOrderById .pool delivery.orderId fun _ => trivial).harmless.bind fun found => ?_
  cases found with
  | none => trivial
  | some order =>
    refine Quiet.ofExcept.harmless.bind fun branch =>
      (Harmless.transaction (harmless_settle settlement _ _ _ _ _)).bind fun _ => ?_
    exact (commands_later.quiet_markAgentFree _).harmless.bind fun _ => trivial

theorem harmless_updateDelivery (deliveryId actorUserId : ℕ) (targetStatus : DeliveryStatus)
    (settlement : targetStatus = .delivered → settles) :
    (DeliveryService.updateStatus env core deliveryId actorUserId targetStatus).Harmless
      (catalogued placed settles pays) := by
  refine (quiet_findDeliveryById .pool deliveryId fun _ => trivial).harmless.bind fun found => ?_
  cases found with
  | none => trivial
  | some delivery =>
    refine (quiet_throwIf _ _).harmless.bind fun _ => (quiet_throwIf _ _).harmless.bind fun _ => ?_
    split
    next isDelivered => exact harmless_settleDelivery env core (settlement isDelivered) delivery
    next =>
      refine (harmless_updateDeliveryStatus _ _ _).bind fun _ =>
        (quiet_findOrderById .pool _ fun _ => trivial).harmless.bind fun _ => ?_
      refine Harmless.bind ?_ fun _ => trivial
      unfold afterStatus
      split
      · exact (harmless_applySystemStatusChange _ _ (by decide)).bind fun _ => trivial
      · split
        · exact (commands_later.quiet_markAgentFree _).harmless.bind fun _ =>
            harmless_tryReassignAfterRejection env core delivery
        · trivial

/-! ## Presence -/

theorem harmless_online (agentId : ℕ) (point : Point) :
    (PresenceService.online agentId point).Harmless (catalogued placed settles pays) := by
  refine Harmless.bind (quiet_nowIso.harmless.bind fun now => ?_) fun _ =>
    (commands_later.quiet_setAgentOnline agentId point fun x => later_presence x _).harmless
  exact Harmless.exec
    (.upsert (fun _ => .presencePut _ _ _) (fun _ => .agentPresence _) fun _ => trivial)

theorem harmless_ping (agentId : ℕ) (point : Point) :
    (PresenceService.ping agentId point).Harmless (catalogued placed settles pays) :=
  commands_later.harmless_ping agentId point (fun _ => .presenceMoved _ _ _) fun x =>
    later_presence x _

theorem harmless_offline (agentId : ℕ) :
    (PresenceService.offline env core agentId).Harmless (catalogued placed settles pays) := by
  refine (quiet_findActiveDeliveryByAgentId .pool agentId fun _ => trivial).harmless.bind
    fun active => ?_
  refine (quiet_throwIf _ _).harmless.bind fun _ => Harmless.bind ?_ fun _ =>
    (commands_later.quiet_setAgentOffline agentId).harmless.bind fun _ => ?_
  · exact quiet_nowIso.harmless.bind fun _ =>
      (harmless_update _ (.presenceOffline _ _)).bind fun _ => trivial
  · cases active with
    | none => trivial
    | some active =>
      refine (quiet_findOrderById .pool active.orderId fun _ => trivial).harmless.bind
        fun found => ?_
      cases found with
      | none => trivial
      | some order =>
        exact Harmless.tryCatch ((harmless_reassign env core order.publicId).bind fun _ => trivial)
          fun _ => trivial

/-- A request that settles. -/
def Settles : Operation → Prop
  | .updateDeliveryStatus _ _ _ .delivered => True
  | _ => False

/-- A payout. -/
def PaysOut : Operation → Prop
  | .recordPayout .. => True
  | _ => False

/-- No operation writes anything else. -/
theorem harmless_run (op : Operation) (places : Places placed op)
    (settlement : Settles op → settles) (payment : PaysOut op → pays) :
    (op.run env).Harmless (catalogued placed settles pays) := by
  cases op with
  | placeOrder core customerId data =>
    exact (harmless_placeOrder core customerId data places).bind fun _ => trivial
  | updateOrderStatus core publicId targetStatus actor =>
    exact (harmless_updateStatus core publicId targetStatus actor).map
  | initPayment core orderPublicId customerId =>
    exact (harmless_init core orderPublicId customerId).map
  | refund core paymentId amount reason => exact (harmless_refund core paymentId amount reason).map
  | webhook payload signature signatureValid =>
    exact (harmless_process payload signature signatureValid).bind fun _ => trivial
  | assign core orderPublicId agentId =>
    exact (harmless_assign env core orderPublicId agentId).bind fun _ => trivial
  | tryAutoAssign core orderId =>
    exact (harmless_tryAutoAssign env core orderId).bind fun _ => trivial
  | reassign core orderPublicId =>
    exact (harmless_reassign env core orderPublicId).bind fun _ => trivial
  | updateDeliveryStatus core deliveryId actorUserId targetStatus =>
    exact (harmless_updateDelivery env core deliveryId actorUserId targetStatus fun isDelivered =>
      settlement (isDelivered ▸ trivial)).map
  | online agentId point => exact (harmless_online agentId point).bind fun _ => trivial
  | offline core agentId => exact (harmless_offline env core agentId).bind fun _ => trivial
  | ping agentId point => exact (harmless_ping agentId point).bind fun _ => trivial
  | recordPayout restaurantId amount currency idempotencyKey =>
    exact (harmless_recordPayout (payment trivial) restaurantId amount currency idempotencyKey).map
  | sleep duration =>
    exact ((Quiet.sure fun x => later_sleep x duration).harmless).bind fun _ => trivial

end WriteCatalogue

end SwiftBite.Verified
