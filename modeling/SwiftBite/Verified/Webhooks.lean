import SwiftBite.Verified.Settlement

/-! # The transaction of a webhook

What `KashierWebhookService.process` commits, for any protocol.  The event row is new, so
from its insertion on the transaction holds its index entry; the session and the refund are
read without a lock, and may be out of date when they are updated.
-/

set_option autoImplicit false

namespace SwiftBite.Verified

open Store Protocol Statement KashierWebhookService

abbrev sessionOf (db : Database) (id : ℕ) : Option PaymentSession :=
  (db .paymentSessions).get (RowKey.id id)

abbrev transactionOf (db : Database) (id : ℕ) : Option Transaction :=
  (db .transactions).get (RowKey.id id)

/-- The session and the charge that a `pay` event commits. -/
structure Charged (order : Order) (session : PaymentSession) (providerTransactionId : String)
    (sessionStatus : PaymentSessionStatus) (status : TransactionStatus)
    (db db' : Database) : Prop where
  sessions : ∃ updatedAt, db' .paymentSessions =
    (db .paymentSessions).modify (RowKey.id session.id)
      (PaymentSession.withStatus sessionStatus updatedAt)
  transactions : ∃ id now,
    (db .transactions).conflicts
      ((chargeInput order session providerTransactionId status).row id now) = false ∧
    db' .transactions = (db .transactions).insert
      ((chargeInput order session providerTransactionId status).row id now)
  grows : db.Grows db'

structure Captured (order : Order) (session : PaymentSession) (providerTransactionId : String)
    (db db' : Database) :
    Prop
    extends Charged order session providerTransactionId .captured .succeeded db db' where
  orders : ∃ updatedAt stamp, db' .orders =
    (db .orders).modify (RowKey.id order.id) (Order.withStatus .placed updatedAt stamp)
  tells : story (db' .eventsOutbox) =
    story (db .eventsOutbox) ++ [⟨order.id, "order.placed", .placed⟩]
  others : ∀ t, t ∉ [TableName.paymentSessions, .transactions, .orders, .eventsOutbox,
    .paymentWebhookEvents] → db' t = db t

structure PaymentRefused (order : Order) (session : PaymentSession) (providerTransactionId : String)
    (db db' : Database) :
    Prop
    extends Charged order session providerTransactionId .failed .failed db db' where
  others : ∀ t, t ∉ [TableName.paymentSessions, .transactions, .paymentWebhookEvents] → db' t = db t

/-- The charge is flagged, if one was found. -/
def Flagged (refundId : ℕ) (charges charges' : Table Transaction) : Prop :=
  charges' = charges ∨ ∃ id updatedAt,
    charges' = charges.modify (RowKey.id id) (Transaction.refunded refundId updatedAt)

structure Confirmed (refund : Transaction) (db db' : Database) : Prop where
  transactions : ∃ updatedAt, Flagged refund.id
    ((db .transactions).modify (RowKey.id refund.id) (Transaction.withStatus .succeeded updatedAt))
    (db' .transactions)
  others : ∀ t, t ∉ [TableName.transactions, .paymentWebhookEvents] → db' t = db t
  grows : db.Grows db'

/-- What is flagged for a confirmed refund was found among the charges of its order; `V` are the
states since the transaction began. -/
structure ConfirmedFor (V : Database → Prop) (refund : Transaction) (db db' : Database) : Prop
    extends Confirmed refund db db' where
  flags : ∃ confirmedAt, db' .transactions = (db .transactions).modify (RowKey.id refund.id)
    (Transaction.withStatus .succeeded confirmedAt) ∨
    ∃ before charge updatedAt, V before ∧
    (transactionOf before charge).map Transaction.orderId = some refund.orderId ∧
      db' .transactions = ((db .transactions).modify (RowKey.id refund.id)
        (Transaction.withStatus .succeeded confirmedAt)).modify
        (RowKey.id charge) (Transaction.refunded refund.id updatedAt)

theorem ConfirmedFor.mono {V V' : Database → Prop} {refund : Transaction} {db db' : Database}
    (confirmed : ConfirmedFor V refund db db') (wider : ∀ before, V before → V' before) :
    ConfirmedFor V' refund db db' := by
  obtain ⟨kept, confirmedAt, flags⟩ := confirmed
  refine ⟨kept, confirmedAt, flags.imp_right ?_⟩
  rintro ⟨before, charge, updatedAt, since, ofOrder, flagged⟩
  exact ⟨before, charge, updatedAt, wider before since, ofOrder, flagged⟩

section

variable {allow : Local RowOf RowKey → Database → List SqlWrite → Prop} {V : Database → Prop}
  {db : Database}
  {began : ℕ} {ws start : List SqlWrite} {seen : List (Sigma RowOf)}

/-- The event's row concerns no other table. -/
theorem applyAll_events (events : ∀ w ∈ start, w.table = .paymentWebhookEvents) {t : TableName}
    (other : t ≠ .paymentWebhookEvents) (db : Database) : db.applyAll start t = db t :=
  Db.applyAll_other (fun w member => by rw [events w member]; exact other.symm) db

theorem quiet_markWebhookEventProcessed (id : ℕ) (processError : Option String)
    {writes : SqlWrite → Prop} {shows : Sigma RowOf → Prop}
    (updates : ∀ processedAt, writes (.update TableName.paymentWebhookEvents (RowKey.id id)
      (WebhookEvent.processed processedAt processError)))
    (events : ∀ row : WebhookEvent, shows ⟨TableName.paymentWebhookEvents, row⟩) :
    (markWebhookEventProcessed .trx id processError).Quiet (within writes shows) :=
  quiet_nowIso.bind fun _ => (Prog.Quiet.exec (.updateByKey (updates _) fun _ => events _)).bind
    fun _ => .pure

/-- A step that only looks at rows. -/
theorem atomic_reading {β : Type} {prog : Service β} {Q : Except Err β → Local RowOf RowKey → Prop}
    (quiet : prog.Quiet reading) (next : ∀ result seen', Q result ⟨some ⟨began, ws⟩, seen'⟩) :
    prog.Atomic allow V db Q ⟨some ⟨began, ws⟩, seen⟩ := by
  refine .quiet quiet fun result ws' rows none _ => ?_
  rw [List.eq_nil_iff_forall_not_mem.2 none]
  simpa [Local.grow] using next result (rows ++ seen)

theorem quiet_marks (webhookEventId : ℕ) :
    (markWebhookEventProcessed .trx webhookEventId none).Quiet
    (within (fun w => w.table = .paymentWebhookEvents) fun _ => True) :=
  quiet_markWebhookEventProcessed webhookEventId none (fun _ => rfl) fun _ => trivial

/-- The session's update and the charge's insertion, which both kinds of `pay` events make first. -/
theorem atomic_charge {order : Order} {session : PaymentSession} {providerTransactionId : String}
    {sessionStatus : PaymentSessionStatus} {status : TransactionStatus} {β : Type}
    {rest : Service β} {Q : Except Err β → Local RowOf RowKey → Prop}
    (events : ∀ w ∈ start, w.table = .paymentWebhookEvents)
    (there : ∀ before, V before → (sessionOf before session.id).isSome = true)
    (next : ∀ updatedAt id now seen' before row f, sessionOf before session.id = some row →
      sessionOf db session.id = some row → allow ⟨some ⟨began, start⟩, seen⟩ before
      [.update TableName.paymentSessions (RowKey.id session.id) f] → (db .transactions).conflicts
      ((chargeInput order session providerTransactionId status).row id now) = false → rest.Atomic
      allow V db Q ⟨some ⟨began, start ++ [.update TableName.paymentSessions (RowKey.id session.id)
      (PaymentSession.withStatus sessionStatus updatedAt)] ++ [.insert TableName.transactions
      ((chargeInput order session providerTransactionId status).row id now)]⟩, seen'⟩)
    (fails : ∀ err l, Q (.error err) l) :
    (do
      let _ ← updatePaymentSessionStatus .trx session.id sessionStatus
      let _ ← createTransaction .trx (chargeInput order session providerTransactionId status)
      rest : Service β).Atomic allow V db Q ⟨some ⟨began, start⟩, seen⟩ := by
  refine .bind (.bind (.sure (fun x => ?_) (fails _ _)))
  refine .updateByKey (fun before row since found' found allowed => ?_)
    (fun before since absent => ?_) (fails _ _)
  · refine .bind (.bind (.sure (fun x' => ?_) (fails _ _)))
    refine .insert (fun now _ _ _ isFree => ?_) (fails _ _)
    rw [Db.applyAll_concat_update_ne _ _ _ _ (by decide),
      applyAll_events events (by decide)] at isFree
    refine next (toMillis x.now) (x'.seq .transactions) now _ (before.applyAll start) row _ found'
      ?_ allowed isFree
    rwa [applyAll_events events (by decide)] at found
  · have row := there before since.since
    rw [applyAll_events events (by decide)] at absent
    rw [sessionOf, absent] at row
    cases row

/-- What is known of the session's row when a `pay` event commits. -/
def Touched (allow : Local RowOf RowKey → Database → List SqlWrite → Prop) (start : List SqlWrite)
    (seen : List (Sigma RowOf)) (db : Database) (session row : PaymentSession) : Prop :=
  sessionOf db session.id = some row ∧
  ∃ (began : ℕ) (before : Database) (f : PaymentSession → PaymentSession),
    sessionOf before session.id = some row ∧
    allow ⟨some ⟨began, start⟩, seen⟩ before
      [.update TableName.paymentSessions (RowKey.id session.id) f]

theorem atomic_capture {order : Order} {session : PaymentSession} {providerTransactionId : String}
    {webhookEventId : ℕ} {Q : Except Err Unit → Local RowOf RowKey → Prop}
    (events : ∀ w ∈ start, w.table = .paymentWebhookEvents)
    (there : ∀ before, V before → (sessionOf before session.id).isSome = true)
    (next : ∀ row total seen', Touched allow start seen db session row →
      Captured order session providerTransactionId db (db.applyAll total) →
      Q (.ok ()) ⟨some ⟨began, total⟩, seen'⟩) (fails : ∀ err l, Q (.error err) l) :
    (capture order session providerTransactionId >>= fun _ =>
      markWebhookEventProcessed .trx webhookEventId none).Atomic
      allow V db Q ⟨some ⟨began, start⟩, seen⟩ := by
  refine .bind (atomic_charge events there
    (fun time id now seen₁ before row f found' found allowed isFree => ?_) fails)
  refine .bind (.sure (fun x => ?_) (fails _ _))
  refine .bind (atomic_insertOutboxEvent (fun first seen₂ isFirst firstTells => ?_) fails)
  refine .bind (.bind (.bind (.sure (fun x' => ?_) (fails _ _))))
  refine .bind (atomic_orderStampTime .placed (fun stamp => ?_) fun _ _ => fails _ _)
  refine .updateByKey (fun _ order' _ _ _ _ => .pure ?_) (fun _ _ _ => fails _ _) (fails _ _)
  refine .bind (atomic_reading (quiet_findItemsByOrderIds .trx _) fun result seen₃ => ?_)
  cases result with
  | error err => exact fails _ _
  | ok items =>
    refine .bind (.sure (fun x'' => ?_) (fails _ _))
    refine atomic_insertOutboxEvent (fun second seen₄ isSecond secondTells => ?_) fails
    refine .quiet (quiet_marks webhookEventId) fun result third rows isThird _ => ?_
    cases result with
    | error err => exact fails _ _
    | ok _ =>
      refine next row _ _ ⟨found, began, before, f, found', allowed⟩
        ⟨⟨⟨time, ?_⟩, ⟨id, now, isFree, ?_⟩, Db.grows_applyAll _ _⟩,
        ⟨toMillis x'.now, stamp, ?_⟩, ?_, fun t other => ?_⟩
      · rw [Db.applyAll_append_table isThird (by decide),
          Db.applyAll_append_table isSecond (by decide),
          Db.applyAll_concat_update_ne _ _ _ _ (by decide),
          Db.applyAll_append_table isFirst (by decide),
          Db.applyAll_concat_insert_ne _ _ _ (by decide), Db.applyAll_concat_update,
          applyAll_events events (by decide)]
      · rw [Db.applyAll_append_table isThird (by decide),
          Db.applyAll_append_table isSecond (by decide),
          Db.applyAll_concat_update_ne _ _ _ _ (by decide),
          Db.applyAll_append_table isFirst (by decide),
          Db.applyAll_concat_insert, Db.applyAll_concat_update_ne _ _ _ _ (by decide),
          applyAll_events events (by decide)]
      · rw [Db.applyAll_append_table isThird (by decide),
          Db.applyAll_append_table isSecond (by decide),
          Db.applyAll_concat_update, Db.applyAll_append_table isFirst (by decide),
          Db.applyAll_concat_insert_ne _ _ _ (by decide),
          Db.applyAll_concat_update_ne _ _ _ _ (by decide),
          applyAll_events events (by decide)]
      · -- The first event is about the payment, and tells nothing of the order.
        rw [Db.applyAll_append_table isThird (by decide), secondTells,
          Db.applyAll_concat_update_ne _ _ _ _ (by decide), firstTells,
          Db.applyAll_concat_insert_ne _ _ _ (by decide),
          Db.applyAll_concat_update_ne _ _ _ _ (by decide),
          applyAll_events events (by decide)]
        simp [tellingsOf, tellingOf, statusIn, OrderService.orderPlacedPayload]
      · simp only [List.mem_cons, List.not_mem_nil, or_false, not_or] at other
        obtain ⟨notSessions, notTransactions, notOrders, notOutbox, notEvents⟩ := other
        rw [Db.applyAll_append_table isThird (Ne.symm notEvents),
          Db.applyAll_append_table isSecond (Ne.symm notOutbox),
          Db.applyAll_concat_update_ne _ _ _ _ (Ne.symm notOrders),
          Db.applyAll_append_table isFirst (Ne.symm notOutbox),
          Db.applyAll_concat_insert_ne _ _ _ (Ne.symm notTransactions),
          Db.applyAll_concat_update_ne _ _ _ _ (Ne.symm notSessions),
          applyAll_events events notEvents]

theorem atomic_refuse {order : Order} {session : PaymentSession} {providerTransactionId : String}
    {webhookEventId : ℕ} {Q : Except Err Unit → Local RowOf RowKey → Prop}
    (events : ∀ w ∈ start, w.table = .paymentWebhookEvents)
    (there : ∀ before, V before → (sessionOf before session.id).isSome = true)
    (next : ∀ row total seen', Touched allow start seen db session row →
      PaymentRefused order session providerTransactionId db (db.applyAll total) →
      Q (.ok ()) ⟨some ⟨began, total⟩, seen'⟩) (fails : ∀ err l, Q (.error err) l) :
    ((do
      let _ ← updatePaymentSessionStatus .trx session.id .failed
      let _ ← createTransaction .trx (chargeInput order session providerTransactionId .failed)
      pure (some (.failed, order)) : Service (Option (PayResult × Order))) >>= fun _ =>
        markWebhookEventProcessed .trx webhookEventId none).Atomic allow V db Q
          ⟨some ⟨began, start⟩, seen⟩ := by
  refine .bind (atomic_charge events there
    (fun time id now seen₁ before row f found' found allowed isFree => .pure ?_) fails)
  refine .quiet (quiet_marks webhookEventId) fun result last rows isLast _ => ?_
  cases result with
  | error err => exact fails _ _
  | ok _ =>
    refine next row _ _ ⟨found, began, before, f, found', allowed⟩
      ⟨⟨⟨time, ?_⟩, ⟨id, now, isFree, ?_⟩, Db.grows_applyAll _ _⟩,
      fun t other => ?_⟩
    · rw [Db.applyAll_append_table isLast (by decide),
        Db.applyAll_concat_insert_ne _ _ _ (by decide),
        Db.applyAll_concat_update, applyAll_events events (by decide)]
    · rw [Db.applyAll_append_table isLast (by decide), Db.applyAll_concat_insert,
        Db.applyAll_concat_update_ne _ _ _ _ (by decide), applyAll_events events (by decide)]
    · simp only [List.mem_cons, List.not_mem_nil, or_false, not_or] at other
      obtain ⟨notSessions, notTransactions, notEvents⟩ := other
      rw [Db.applyAll_append_table isLast (Ne.symm notEvents),
        Db.applyAll_concat_insert_ne _ _ _ (Ne.symm notTransactions),
        Db.applyAll_concat_update_ne _ _ _ _ (Ne.symm notSessions),
        applyAll_events events notEvents]

theorem atomic_confirm {refund : Transaction} {orderId webhookEventId : ℕ}
    {Q : Except Err Unit → Local RowOf RowKey → Prop}
    (events : ∀ w ∈ start, w.table = .paymentWebhookEvents)
    (there : ∀ before, V before → (transactionOf before refund.id).isSome = true)
    (ofOrder : refund.orderId = some orderId)
    (next : ∀ total seen', ConfirmedFor V refund db (db.applyAll total) →
      Q (.ok ()) ⟨some ⟨began, total⟩, seen'⟩) (fails : ∀ err l, Q (.error err) l) :
    ((do
      let _ ← updateTransactionStatus .trx refund.id .succeeded
      match ← findSucceededChargeByOrderId .trx orderId with
      | none => pure ()
      | some charge => markChargeRefunded .trx charge.id refund.id : Service Unit) >>= fun _ =>
        markWebhookEventProcessed .trx webhookEventId none).Atomic allow V db Q
          ⟨some ⟨began, start⟩, seen⟩ := by
  -- What is left once the charge is flagged, or there was none to flag.
  have marks : ∀ time (flag : List SqlWrite) seen', (∀ w ∈ flag, w.table = .transactions) →
      (db.applyAll (start ++ [.update TableName.transactions (RowKey.id refund.id)
          (Transaction.withStatus .succeeded time)] ++ flag) .transactions =
        (db .transactions).modify (RowKey.id refund.id) (Transaction.withStatus .succeeded time) ∨
      ∃ before charge updatedAt, V before ∧
      (transactionOf before charge).map Transaction.orderId = some refund.orderId ∧
        db.applyAll (start ++ [.update TableName.transactions (RowKey.id refund.id)
            (Transaction.withStatus .succeeded time)] ++ flag) .transactions =
          ((db .transactions).modify (RowKey.id refund.id)
            (Transaction.withStatus .succeeded time)).modify
            (RowKey.id charge) (Transaction.refunded refund.id updatedAt)) →
      (markWebhookEventProcessed .trx webhookEventId none).Atomic allow V db Q
        ⟨some ⟨began, start ++
        [.update TableName.transactions (RowKey.id refund.id)
          (Transaction.withStatus .succeeded time)] ++ flag⟩, seen'⟩ := by
    intro time flag seen' charges flags
    refine .quiet (quiet_marks webhookEventId) fun result last rows isLast _ => ?_
    cases result with
    | error err => exact fails _ _
    | ok _ =>
      have sameTransactions : ∀ ws, db.applyAll (ws ++ last) .transactions =
          db.applyAll ws .transactions :=
        fun _ => Db.applyAll_append_table isLast
          (show TableName.paymentWebhookEvents ≠ .transactions by decide) db
      refine next _ _ ⟨⟨⟨time, ?_⟩, fun t other => ?_, Db.grows_applyAll _ _⟩, time, ?_⟩
      · rw [sameTransactions]
        refine flags.imp_right ?_
        rintro ⟨_, charge, updatedAt, _, _, flagged⟩
        exact ⟨charge, updatedAt, flagged⟩
      · simp only [List.mem_cons, List.not_mem_nil, or_false, not_or] at other
        rw [Db.applyAll_append_table isLast (Ne.symm other.2),
          Db.applyAll_append_table charges (Ne.symm other.1),
          Db.applyAll_concat_update_ne _ _ _ _ (Ne.symm other.1), applyAll_events events other.2]
      · rwa [sameTransactions]
  refine .bind (.bind (.bind (.sure (fun x => ?_) (fails _ _))))
  refine .updateByKey (fun _ row since _ _ _ => ?_) (fun before since absent => ?_) (fails _ _)
  · have unflagged : ∀ seen',
        (markWebhookEventProcessed .trx webhookEventId none).Atomic allow V db Q
        ⟨some ⟨began, start ++ [.update TableName.transactions (RowKey.id refund.id)
          (Transaction.withStatus .succeeded (toMillis x.now))]⟩, seen'⟩ := by
      intro seen'
      have mark := marks (toMillis x.now) [] seen' (by simp) (.inl ?_)
      · rwa [List.append_nil] at mark
      · rw [List.append_nil, Db.applyAll_concat_update, applyAll_events events (by decide)]
    refine .bind (.selectFirst (fun before since charge member => ?_)
      (fun _ _ _ => unflagged _) (fails _ _))
    -- The charge was found in the same order as the refund.
    have chosen : (transactionOf before charge.id).map Transaction.orderId =
        some refund.orderId := by
      obtain ⟨among, isMatch⟩ := List.mem_filter.1 member
      rw [Db.applyAll_concat_update, applyAll_events events (by decide)] at among
      obtain ⟨old, inTable, rfl⟩ := Table.mem_modify.1 among
      have sameId := RowKey.id.inj (Table.key_rewrite (RowKey.id refund.id)
        (Transaction.withStatus .succeeded (toMillis x.now)) old)
      have found : transactionOf before old.id = some old := Table.get_of_mem inTable
      have sameOrder := Table.rewrite_congr (g := Transaction.orderId) (k := RowKey.id refund.id)
        (f := Transaction.withStatus .succeeded (toMillis x.now)) (fun _ => rfl) old
      rw [sameId, found, Option.map_some, ofOrder, ← (of_decide_eq_true isMatch).1]
      exact congrArg some sameOrder.symm
    refine .bind (.sure (fun x' => ?_) (fails _ _))
    refine .bind (.updateByKey (fun _ _ _ _ _ _ => ?_) (fun _ _ _ => unflagged _) (fails _ _))
    refine marks (toMillis x.now) [_] _ (by simp [Write.table])
      (.inr ⟨before, charge.id, toMillis x'.now, since.since, chosen, ?_⟩)
    rw [Db.applyAll_concat_update, Db.applyAll_concat_update, applyAll_events events (by decide)]
  · -- The refund was there when the transaction began, and rows stay.
    have row := there before since.since
    rw [applyAll_events events (by decide)] at absent
    rw [transactionOf, absent] at row
    cases row

/-- Every table but that of the events themselves. -/
def elsewhere : SqlWrite → Prop := fun w => w.table ≠ .paymentWebhookEvents

theorem elsewhere_of_work (w : SqlWrite)
    (isWork : w.table ∈ [TableName.orders, .transactions, .eventsOutbox]) : elsewhere w := by
  intro isEvent
  simp [isEvent] at isWork

section Footprints

variable {writes : SqlWrite → Prop} {moves : Shared → Shared → Prop} [Ticking moves]

theorem quiet_updatePaymentSessionStatus (id : ℕ) (status : PaymentSessionStatus)
    (updates : ∀ updatedAt, writes (.update TableName.paymentSessions (RowKey.id id)
      (PaymentSession.withStatus status updatedAt))) :
    (updatePaymentSessionStatus .trx id status).Quiet ⟨writes, fun _ => True, moves⟩ :=
  quiet_nowIso.bind fun _ => Prog.Quiet.exec (.updateByKey (updates _) fun _ => trivial)

theorem quiet_capture (order : Order) (session : PaymentSession) (providerTransactionId : String)
    (sessions : ∀ updatedAt, writes (.update TableName.paymentSessions (RowKey.id session.id)
      (PaymentSession.withStatus .captured updatedAt)))
    (others : ∀ w : SqlWrite,
      w.table ∈ [TableName.orders, .transactions, .eventsOutbox] → writes w) :
    (capture order session providerTransactionId).Quiet ⟨writes, fun _ => True, moves⟩ := by
  have outbox : ∀ row : OutboxEvent, writes (.insert TableName.eventsOutbox row) :=
    fun _ => others _ (by simp [Write.table])
  refine (quiet_updatePaymentSessionStatus _ _ sessions).bind fun _ =>
    (quiet_createTransaction _ fun _ => others _ (by simp [Write.table])).bind fun _ => ?_
  refine quiet_uuidv4.bind fun _ =>
    (quiet_insertOutboxEvent _ outbox fun _ => trivial).bind fun _ => ?_
  refine Prog.Quiet.bind (Prog.Quiet.bind ?_ fun updated => ?_) fun _ => ?_
  · exact quiet_nowIso.bind fun _ => (quiet_orderStampTime _).bind fun _ =>
      Prog.Quiet.exec (.updateByKey (others (.update TableName.orders _ _) (by simp [Write.table]))
        fun _ => trivial)
  · cases updated with
    | none => exact .throw
    | some updated => exact .pure
  · exact (quiet_findItemsByOrderIds .trx _).bind fun _ => quiet_uuidv4.bind fun _ =>
      quiet_insertOutboxEvent _ outbox fun _ => trivial

theorem quiet_confirm (refund : Transaction) (orderId : ℕ)
    (updates : ∀ w : SqlWrite, w.table = .transactions → writes w) :
    (do
    let _ ← updateTransactionStatus .trx refund.id .succeeded
    match ← findSucceededChargeByOrderId .trx orderId with
    | none => pure ()
    | some charge => markChargeRefunded .trx charge.id refund.id : Service Unit).Quiet
      ⟨writes, fun _ => True, moves⟩ := by
  refine (quiet_updateTransactionStatus _ _ (fun _ => updates _ rfl) fun _ => trivial).bind fun _ =>
    ?_
  refine (Prog.Quiet.read (.selectFirst fun _ => trivial) .selectFirst).bind fun charge => ?_
  cases charge with
  | none => exact .pure
  | some charge =>
    exact quiet_nowIso.bind fun _ =>
      Prog.Quiet.bind (.exec (.updateByKey (updates _ rfl) fun _ => trivial)) fun _ => .pure

omit [Ticking moves] in
theorem quiet_resolveOrder (merchantOrderId : MerchantOrderId) :
    (resolveOrder merchantOrderId).Quiet ⟨writes, fun _ => True, moves⟩ := by
  cases merchantOrderId with
  | empty => exact .pure
  | uuid publicId => exact quiet_findOrderByPublicId .pool publicId fun _ => trivial
  | malformed => exact .throw

/-- The rest of `handleRefundEvent`, once the refund is found. -/
def confirmRefund (refund : Transaction) : Service Unit :=
  match refund.orderId.filter (· ≠ 0) with
  | none => pure ()
  | some orderId => do
    let _ ← updateTransactionStatus .trx refund.id .succeeded
    match ← findSucceededChargeByOrderId .trx orderId with
    | none => pure ()
    | some charge => markChargeRefunded .trx charge.id refund.id

/-- The work of an event gives one session a status in which it is no longer active. -/
theorem quiet_dispatch (payload : WebhookPayload)
    (closes : ∀ id status updatedAt, status.active = false →
      writes (.update TableName.paymentSessions (RowKey.id id)
        (PaymentSession.withStatus status updatedAt)))
    (others : ∀ w : SqlWrite,
      w.table ∈ [TableName.orders, .transactions, .eventsOutbox] → writes w) :
    (dispatch payload).Quiet ⟨writes, fun _ => True, moves⟩ := by
  unfold dispatch
  split
  · refine Prog.Quiet.bind ((quiet_resolveOrder _).bind fun order => ?_) fun _ => .pure
    cases order with
    | none => exact .pure
    | some order =>
      refine (Prog.Quiet.read (.selectFirst fun _ => trivial) .selectFirst).bind fun session => ?_
      cases session with
      | none => exact .pure
      | some session =>
        show (if _ then _ else _ : Service (Option (PayResult × Order))).Quiet _
        split
        · exact (quiet_capture _ _ _ (fun _ => closes _ _ _ rfl) others).bind fun _ => .pure
        · exact (quiet_updatePaymentSessionStatus _ _ fun _ => closes _ _ _ rfl).bind fun _ =>
            (quiet_createTransaction _ fun _ => others _ (by simp [Write.table])).bind
              fun _ => .pure
  · split
    · unfold handleRefundEvent
      split
      · refine (Prog.Quiet.read (.selectFirst fun _ => trivial) .selectFirst).bind fun refund => ?_
        cases refund with
        | none => exact .pure
        | some refund =>
          show (confirmRefund refund).Quiet _
          unfold confirmRefund
          split
          · exact .pure
          · exact quiet_confirm _ _ fun w isTransaction => others w (by simp [isTransaction])
      · exact .pure
    · exact .pure

/-- A webhook writes no session but to close one. -/
theorem harmless_process (payload : WebhookPayload) (signature : String) (signatureValid : Bool)
    (closes : ∀ id status updatedAt, status.active = false →
      writes (.update TableName.paymentSessions (RowKey.id id)
        (PaymentSession.withStatus status updatedAt)))
    (others : ∀ w : SqlWrite,
      w.table ∈ [TableName.orders, .transactions, .eventsOutbox, .paymentWebhookEvents] →
      writes w) :
    (process payload signature signatureValid).Harmless ⟨writes, fun _ => True, moves⟩ := by
  have marks : ∀ on id processError,
      (markWebhookEventProcessed on id processError).Harmless ⟨writes, fun _ => True, moves⟩ :=
        fun on id processError =>
    quiet_nowIso.harmless.bind fun _ =>
      (Prog.Harmless.exec
        (.updateByKey (others (.update TableName.paymentWebhookEvents _ _) (by simp [Write.table]))
        fun _ => trivial)).bind
        fun _ => trivial
  have commits : (Prog.commitTrx : Service Unit).Harmless ⟨writes, fun _ => True, moves⟩ :=
    fun _ => trivial
  have rolls : (Prog.rollbackTrx : Service Unit).Harmless ⟨writes, fun _ => True, moves⟩ := trivial
  have throws : ∀ err, (rollbackAndThrow err : Service Unit).Harmless
      ⟨writes, fun _ => True, moves⟩ := fun _ => trivial
  refine (quiet_throwIf _ _).harmless.bind fun _ =>
    (quiet_resolveOrder _).harmless.bind fun order => ?_
  cases order with
  | none => exact trivial
  | some order =>
    refine (quiet_findPaymentProviderByName .pool _).harmless.bind fun provider => ?_
    cases provider with
    | none => exact trivial
    | some kashierProvider =>
      refine Prog.Harmless.bind (fun _ => trivial) fun _ =>
        Prog.Harmless.bind (.tryCatch ?_ throws) fun recorded => ?_
      · refine (quiet_nextval _).harmless.bind fun _ => ?_
        exact (Prog.Harmless.exec (.insertIgnore
          (fun _ => others (.insert TableName.paymentWebhookEvents _) (by simp [Write.table]))
          fun _ => trivial)).bind fun _ => trivial
      · cases recorded with
        | none => exact .tryCatch commits throws
        | some id =>
          refine .tryCatch ?_ fun err => ?_
          · refine (quiet_dispatch payload closes fun w isWork => others w (List.mem_append_left
              [TableName.paymentWebhookEvents] isWork)).harmless.bind fun _ => ?_
            exact (marks _ _ _).bind fun _ => commits
          · refine rolls.bind fun _ =>
              Prog.Harmless.bind (.tryCatch (marks _ _ _) fun _ => ?_) fun _ => ?_
            · exact trivial
            · exact trivial

end Footprints

end

/-! ## The rule -/

section

variable {Γ : Type} {P : Protocol (K := RowKey) RowOf Shared Err Operation Reply Γ} {i : ℕ}
  {op : Operation}
  {s : Sit RowOf Shared Operation Γ} {Q : Sit RowOf Shared Operation Γ → Prop}

abbrev eventsOnly : Bounds RowOf RowKey Shared :=
  within (fun w => w.table = .paymentWebhookEvents) fun _ => True

/-- What is known when a `pay` event commits at `s₂`: the order was read at `s₀`, and the
session, then active, at `s₁`. -/
structure Paying (P : Protocol (K := RowKey) RowOf Shared Err Operation Reply Γ) (i : ℕ)
    (op : Operation) (order : Order) (session row : PaymentSession)
    (s s₀ s₁ s₂ : Sit RowOf Shared Operation Γ) : Prop where
  until₀ : P.Env i op ⟨none, []⟩ s s₀
  readOrder : orderOf s₀.db order.id = some order
  until₁ : P.Env i op ⟨none, []⟩ s₀ s₁
  readSession : sessionOf s₁.db session.id = some session
  ofOrder : session.orderId = order.id
  active : session.status.active = true
  until₂ : P.Env i op ⟨none, []⟩ s₁ s₂
  beside : P.Alongside i op s₂
  touched : ∃ start seen,
    Touched P.allow start (⟨TableName.paymentSessions, session⟩ :: seen) s₂.db session row

/-- What is known when a `refund` event commits at `s₂`: the refund was read at `s₁`. -/
structure Confirming (P : Protocol (K := RowKey) RowOf Shared Err Operation Reply Γ) (i : ℕ)
    (op : Operation) (refund : Transaction) (providerTransactionId : String)
    (s s₁ s₂ : Sit RowOf Shared Operation Γ) : Prop where
  until₁ : P.Env i op ⟨none, []⟩ s s₁
  readRefund : transactionOf s₁.db refund.id = some refund
  reference : refund.providerReferenceId = some providerTransactionId
  isRefund : refund.transactionType = .refund
  until₂ : P.Env i op ⟨none, []⟩ s₁ s₂
  beside : P.Alongside i op s₂

/-- The event is about a payment for the order. -/
def PaysFor (payload : WebhookPayload) (order : Order) : Prop :=
  payload.eventText = "pay" ∧ payload.merchantOrderId = .uuid order.publicId

/-- The obligations of a protocol for a webhook. -/
structure Processes (P : Protocol (K := RowKey) RowOf Shared Err Operation Reply Γ) (i : ℕ)
    (op : Operation) (payload : WebhookPayload) (Q : Sit RowOf Shared Operation Γ → Prop)
    (s : Sit RowOf Shared Operation Γ) : Prop where
  captures : ∀ order session row s₀ s₁ s₂ db', PaysFor payload order →
    payload.statusText = "SUCCESS" → Paying P i op order session row s s₀ s₁ s₂ →
    Captured order session payload.providerTransactionId s₂.db db' →
    P.After i op s₂ ⟨none, []⟩ db' s₂.side Q
  refuses : ∀ order session row s₀ s₁ s₂ db', payload.statusText ≠ "SUCCESS" →
    Paying P i op order session row s s₀ s₁ s₂ →
    PaymentRefused order session payload.providerTransactionId s₂.db db' →
    P.After i op s₂ ⟨none, []⟩ db' s₂.side Q
  confirms : ∀ refund s₁ s₂ db', Confirming P i op refund payload.providerTransactionId s s₁ s₂ →
    ConfirmedFor (P.Between i op s₁ s₂) refund s₂.db db' → P.After i op s₂ ⟨none, []⟩ db' s₂.side Q
  stops : ∀ s', P.Env i op ⟨none, []⟩ s s' → Q s'

theorem Processes.later (lawful : P.Lawful) {payload : WebhookPayload}
    (processes : Processes P i op payload Q s) {s' : Sit RowOf Shared Operation Γ}
    (env : P.Env i op ⟨none, []⟩ s s') : Processes P i op payload Q s' where
  captures order session row s₀ s₁ s₂ db' paysFor success paying :=
    processes.captures order session row s₀ s₁ s₂ db' paysFor success { paying with
      until₀ := env.trans lawful paying.until₀ }
  refuses order session row s₀ s₁ s₂ db' failure paying :=
    processes.refuses order session row s₀ s₁ s₂ db' failure { paying with
      until₀ := env.trans lawful paying.until₀ }
  confirms refund s₁ s₂ db' confirming :=
    processes.confirms refund s₁ s₂ db' { confirming with
      until₁ := env.trans lawful confirming.until₁ }
  stops s'' env' := processes.stops s'' (env.trans lawful env')

variable {payload : WebhookPayload} {start : List SqlWrite} {began webhookEventId : ℕ}
  {seen : List (Sigma RowOf)}
  {R : Except Err Unit → Local RowOf RowKey → Sit RowOf Shared Operation Γ → Prop}

/-- An event that changes nothing but its own row. -/
theorem wp_finish (lawful : P.Lawful) (free : P.Free i op Later)
    (tolerates : P.Tolerates i op eventsOnly)
    (events : ∀ w ∈ start, w.table = .paymentWebhookEvents) (holds : P.inv s)
    (self : s.live i = some op) (ends : ∀ result l s', P.Env i op ⟨none, []⟩ s s' → R result l s') :
    P.wp i op (markWebhookEventProcessed .trx webhookEventId none >>= fun _ => .commitTrx) R
      ⟨some ⟨began, start⟩, seen⟩ s := by
  refine wp_atomic_commit lawful free (quiet_marks webhookEventId) holds self
    (.refl lawful holds self)
    (fun s₁ until₁ env₁ beside => ?_) fun err l s' env => ends _ _ s' env
  refine .quiet (quiet_marks webhookEventId) fun result last rows isLast _ value isValue => ?_
  obtain ⟨inv, guar, rely⟩ := tolerates s₁ (start ++ last)
    (fun w member => (List.mem_append.1 member).elim (events w) (isLast w)) env₁.inv
  refine ⟨s₁.ghost, inv, guar, fun s₂ env₂ => ends _ _ s₂ ?_⟩
  have drift := lawful.rely_trans (lawful.rely_trans until₁.drift.1 rely) env₂.drift.1
  exact ⟨⟨drift, fun e none => absurd none List.not_mem_nil⟩, env₂.inv, env₂.self⟩

/-- The part of a `pay` event that follows the reading of the session. -/
theorem wp_capture (lawful : P.Lawful) (free : P.Free i op Later) {order : Order}
    {session : PaymentSession} {providerTransactionId : String}
    (events : ∀ w ∈ start, w.table = .paymentWebhookEvents) (holds : P.inv s)
    (self : s.live i = some op)
    (there : ∀ s', P.Env i op ⟨none, []⟩ s s' → (sessionOf s'.db session.id).isSome = true)
    (commits : ∀ row s' db', P.Env i op ⟨none, []⟩ s s' →
      P.Alongside i op s' → Touched P.allow start seen s'.db session row →
      Captured order session providerTransactionId s'.db db' →
      P.After i op s' ⟨none, []⟩ db' s'.side Q) (succeeds : ∀ l s', Q s' → R (.ok ()) l s')
    (fails : ∀ err l s', P.Env i op ⟨none, []⟩ s s' → R (.error err) l s') :
    P.wp i op ((capture order session providerTransactionId >>= fun _ =>
      markWebhookEventProcessed .trx webhookEventId none) >>= fun _ =>
        .commitTrx) R ⟨some ⟨began, start⟩, seen⟩ s := by
  refine wp_atomic_commit (b := anything) lawful free
    ((quiet_capture _ _ _ (fun _ => trivial) fun _ _ => trivial).bind fun _ =>
    quiet_markWebhookEventProcessed _ _ (fun _ => trivial) fun _ => trivial)
    holds self (.refl lawful holds self) (fun s₁ until₁ _ beside => ?_) fails
  refine atomic_capture events ?_ (fun row total seen' touched captured value _ => ?_)
    fun err l value impossible => nomatch impossible
  · rintro before ⟨m, rfl, since, _⟩
    exact there m since
  · exact ((commits row s₁ _ until₁ beside touched captured).mono (succeeds _)).released _

theorem wp_refuse (lawful : P.Lawful) (free : P.Free i op Later) {order : Order}
    {session : PaymentSession} {providerTransactionId : String}
    (events : ∀ w ∈ start, w.table = .paymentWebhookEvents) (holds : P.inv s)
    (self : s.live i = some op)
    (there : ∀ s', P.Env i op ⟨none, []⟩ s s' → (sessionOf s'.db session.id).isSome = true)
    (commits : ∀ row s' db', P.Env i op ⟨none, []⟩ s s' →
      P.Alongside i op s' → Touched P.allow start seen s'.db session row →
      PaymentRefused order session providerTransactionId s'.db db' →
      P.After i op s' ⟨none, []⟩ db' s'.side Q) (succeeds : ∀ l s', Q s' → R (.ok ()) l s')
    (fails : ∀ err l s', P.Env i op ⟨none, []⟩ s s' → R (.error err) l s') :
    P.wp i op (((do
      let _ ← updatePaymentSessionStatus .trx session.id .failed
      let _ ← createTransaction .trx (chargeInput order session providerTransactionId .failed)
      pure (some (.failed, order)) : Service (Option (PayResult × Order))) >>= fun _ =>
        markWebhookEventProcessed .trx webhookEventId none) >>= fun _ =>
          .commitTrx) R ⟨some ⟨began, start⟩, seen⟩ s := by
  refine wp_atomic_commit (b := anything) lawful free (Prog.Quiet.bind
    ((quiet_updatePaymentSessionStatus _ _ fun _ => trivial).bind fun _ =>
      (quiet_createTransaction _ fun _ => trivial).bind fun _ => .pure)
    fun _ => quiet_markWebhookEventProcessed _ _ (fun _ => trivial) fun _ => trivial)
    holds self (.refl lawful holds self) (fun s₁ until₁ _ beside => ?_) fails
  refine atomic_refuse events ?_ (fun row total seen' touched refused value _ => ?_)
    fun err l value impossible => nomatch impossible
  · rintro before ⟨m, rfl, since, _⟩
    exact there m since
  · exact ((commits row s₁ _ until₁ beside touched refused).mono (succeeds _)).released _

theorem wp_confirm (lawful : P.Lawful) (free : P.Free i op Later) {refund : Transaction}
    {orderId : ℕ} (events : ∀ w ∈ start, w.table = .paymentWebhookEvents) (holds : P.inv s)
    (self : s.live i = some op)
    (there : ∀ s', P.Env i op ⟨none, []⟩ s s' → (transactionOf s'.db refund.id).isSome = true)
    (ofOrder : refund.orderId = some orderId)
    (commits : ∀ s' db', P.Env i op ⟨none, []⟩ s s' →
      P.Alongside i op s' → ConfirmedFor (P.Between i op s s') refund s'.db db' →
      P.After i op s' ⟨none, []⟩ db' s'.side Q) (succeeds : ∀ l s', Q s' → R (.ok ()) l s')
    (fails : ∀ err l s', P.Env i op ⟨none, []⟩ s s' → R (.error err) l s') :
    P.wp i op (((do
      let _ ← updateTransactionStatus .trx refund.id .succeeded
      match ← findSucceededChargeByOrderId .trx orderId with
      | none => pure ()
      | some charge => markChargeRefunded .trx charge.id refund.id : Service Unit) >>= fun _ =>
        markWebhookEventProcessed .trx webhookEventId none) >>= fun _ =>
          .commitTrx) R ⟨some ⟨began, start⟩, seen⟩ s := by
  refine wp_atomic_commit (b := anything) lawful free
    ((quiet_confirm _ _ fun _ _ => trivial).bind fun _ =>
    quiet_markWebhookEventProcessed _ _ (fun _ => trivial) fun _ => trivial)
    holds self (.refl lawful holds self) (fun s₁ until₁ _ beside => ?_) fails
  refine atomic_confirm events ?_ ofOrder (fun total seen' confirmed value _ => ?_)
    fun err l value impossible => nomatch impossible
  · rintro before ⟨m, rfl, since, _⟩
    exact there m since
  · exact ((commits s₁ _ until₁ beside confirmed).mono (succeeds _)).released _

/-- The session that a `pay` event finds. -/
theorem wp_paySession (lawful : P.Lawful) (free : P.Free i op Later) (persists : Persists P i op)
    {order : Order} {session : PaymentSession} {s₀ s₁ : Sit RowOf Shared Operation Γ}
    (events : ∀ w ∈ start, w.table = .paymentWebhookEvents) (until₀ : P.Env i op ⟨none, []⟩ s s₀)
    (until₁ : P.Env i op ⟨none, []⟩ s₀ s₁) (readOrder : orderOf s.db order.id = some order)
    (readSession : sessionOf s₀.db session.id = some session) (ofOrder : session.orderId = order.id)
    (active : session.status.active = true) (paysFor : PaysFor payload order)
    (self : s.live i = some op) (holds : P.inv s) (processes : Processes P i op payload Q s)
    (succeeds : ∀ l s', Q s' → R (.ok ()) l s')
    (fails : ∀ err l s', P.Env i op ⟨none, []⟩ s s' → R (.error err) l s') :
    P.wp i op ((if payload.statusText = "SUCCESS" then do
        capture order session payload.providerTransactionId
        pure (some (.captured, order))
      else do
        let _ ← updatePaymentSessionStatus .trx session.id .failed
        let _ ← createTransaction .trx
          (chargeInput order session payload.providerTransactionId .failed)
        pure (some (.failed, order)) : Service (Option (PayResult × Order))) >>= fun _ =>
      markWebhookEventProcessed .trx webhookEventId none >>= fun _ => .commitTrx) R
      ⟨some ⟨began, start⟩, ⟨TableName.paymentSessions, session⟩ :: seen⟩ s₁ := by
  -- The session that was read stays in its table.
  have there : ∀ s', P.Env i op ⟨none, []⟩ s₁ s' →
      (sessionOf s'.db session.id).isSome = true := fun s' env =>
    persists s₀ s' _ _ (until₁.trans lawful env).drift.1
      (Option.isSome_iff_exists.2 ⟨session, readSession⟩)
  have throws : ∀ err l s', P.Env i op ⟨none, []⟩ s₁ s' → R (.error err) l s' := fun err l s' env =>
    fails err l s' ((until₀.trans lawful until₁).trans lawful env)
  have paying : ∀ row s', P.Env i op ⟨none, []⟩ s₁ s' → P.Alongside i op s' →
      Touched P.allow start (⟨TableName.paymentSessions, session⟩ :: seen) s'.db session row →
      Paying P i op order session row s s s₀ s' := fun row s' env beside touched =>
    ⟨.refl lawful holds self, readOrder, until₀, readSession, ofOrder, active,
      until₁.trans lawful env, beside, start, seen,
      touched⟩
  split
  next success =>
    refine wp_assoc ?_
    show P.wp i op (capture order session payload.providerTransactionId >>= fun _ =>
      markWebhookEventProcessed .trx webhookEventId none >>= fun _ => .commitTrx) R _ _
    refine wp_regroup
      (wp_capture lawful free events until₁.inv until₁.self there ?_ succeeds throws)
    exact fun row s' db' env beside touched captured =>
      processes.captures order session row s s₀ s' db' paysFor success
        (paying row s' env beside touched) captured
  next failure =>
    refine wp_regroup (wp_refuse lawful free events until₁.inv until₁.self there ?_ succeeds throws)
    exact fun row s' db' env beside touched refused =>
      processes.refuses order session row s s₀ s' db' failure
        (paying row s' env beside touched) refused

/-- A `pay` event, once it is recorded. -/
theorem wp_pay (lawful : P.Lawful) (free : P.Free i op Later) (persists : Persists P i op)
    (tolerates : P.Tolerates i op eventsOnly)
    (events : ∀ w ∈ start, w.table = .paymentWebhookEvents) (holds : P.inv s)
    (self : s.live i = some op) (isPay : payload.eventText = "pay")
    (processes : Processes P i op payload Q s) (succeeds : ∀ l s', Q s' → R (.ok ()) l s')
    (fails : ∀ err l s', P.Env i op ⟨none, []⟩ s s' → R (.error err) l s') :
    P.wp i op (handlePayEvent payload.merchantOrderId payload.providerTransactionId
      payload.statusText >>= fun _ =>
      markWebhookEventProcessed .trx webhookEventId none >>= fun _ =>
        .commitTrx) R ⟨some ⟨began, start⟩, seen⟩ s := by
  -- Nothing is paid: the event is marked and committed.
  have nothing : ∀ seen' s', P.Env i op ⟨none, []⟩ s s' →
      P.wp i op (markWebhookEventProcessed .trx webhookEventId none >>=
      fun _ => .commitTrx) R ⟨some ⟨began, start⟩, seen'⟩ s' := by
    intro seen' s' env
    refine wp_finish lawful free tolerates events env.inv env.self fun result l s'' env' => ?_
    cases result with
    | ok _ => exact succeeds l s'' (processes.stops s'' (env.trans lawful env'))
    | error err => exact fails err l s'' (env.trans lawful env')
  unfold handlePayEvent
  refine wp_assoc ?_
  cases isNamed : payload.merchantOrderId with
  | empty => exact nothing seen s (.refl lawful holds self)
  | malformed => exact fails _ _ s (.refl lawful holds self)
  | uuid publicId =>
    refine wp_do (wp_selectFirst lawful (fun isTrx => nomatch isTrx) holds
      (fun _ order member s₀ env₀ => ?_)
      (fun _ s₀ env₀ => nothing _ s₀ (env₀.released [])) fun _ s₀ env₀ =>
        fails _ _ s₀ (env₀.released []))
    have readOrder : orderOf s.db order.id = some order :=
      Table.get_of_mem (List.mem_filter.1 member).1
    have paysFor : PaysFor payload order := by
      have isPublic := of_decide_eq_true (List.mem_filter.1 member).2
      exact ⟨isPay, isPublic ▸ isNamed⟩
    have until₀ := env₀.released []
    refine wp_assoc (wp_do (wp_selectFirst lawful (fun _ => Option.some_ne_none _) env₀.inv
      (fun _ session member s₁ env₁ => ?_)
      (fun _ s₁ env₁ => nothing _ s₁ (until₀.trans lawful (env₁.released [])))
      fun _ s₁ env₁ => fails _ _ s₁ (until₀.trans lawful (env₁.released []))))
    obtain ⟨among, isActive⟩ := List.mem_filter.1 (List.mem_filter.1 member).1
    simp only [Local.view, Local.writes, Option.map_some, Option.getD_some, Local.saw,
      applyAll_events events
        (show TableName.paymentSessions ≠ .paymentWebhookEvents by decide)] at among
    simp only [Bool.and_eq_true, decide_eq_true_eq] at isActive
    exact wp_paySession lawful free persists events until₀ (env₁.released []) readOrder
      (Table.get_of_mem among) isActive.1
      isActive.2 paysFor self holds processes succeeds fails

theorem wp_refund (lawful : P.Lawful) (free : P.Free i op Later) (persists : Persists P i op)
    (tolerates : P.Tolerates i op eventsOnly)
    (events : ∀ w ∈ start, w.table = .paymentWebhookEvents) (holds : P.inv s)
    (self : s.live i = some op) (processes : Processes P i op payload Q s)
    (succeeds : ∀ l s', Q s' → R (.ok ()) l s')
    (fails : ∀ err l s', P.Env i op ⟨none, []⟩ s s' → R (.error err) l s') :
    P.wp i op (handleRefundEvent payload.providerTransactionId payload.statusText >>= fun _ =>
      markWebhookEventProcessed .trx webhookEventId none >>= fun _ =>
        .commitTrx) R ⟨some ⟨began, start⟩, seen⟩ s := by
  -- Nothing is confirmed: the event is marked and committed.
  have nothing : ∀ seen' s', P.Env i op ⟨none, []⟩ s s' →
      P.wp i op (markWebhookEventProcessed .trx webhookEventId none >>=
      fun _ => .commitTrx) R ⟨some ⟨began, start⟩, seen'⟩ s' := by
    intro seen' s' env
    refine wp_finish lawful free tolerates events env.inv env.self fun result l s'' env' => ?_
    cases result with
    | ok _ => exact succeeds l s'' (processes.stops s'' (env.trans lawful env'))
    | error err => exact fails err l s'' (env.trans lawful env')
  unfold handleRefundEvent
  split
  swap
  · exact nothing seen s (.refl lawful holds self)
  refine wp_assoc (wp_do (wp_selectFirst lawful (fun _ => Option.some_ne_none _) holds
    (fun _ refund member s₁ env₁ => ?_)
    (fun _ s₁ env₁ => nothing _ s₁ (env₁.released [])) fun _ s₁ env₁ =>
      fails _ _ s₁ (env₁.released [])))
  obtain ⟨among, isRefund⟩ := List.mem_filter.1 member
  simp only [Local.view, Local.writes, Option.map_some, Option.getD_some,
    applyAll_events events (show TableName.transactions ≠ .paymentWebhookEvents by decide)] at among
  obtain ⟨reference, isRefund⟩ := of_decide_eq_true isRefund
  have readRefund : transactionOf s.db refund.id = some refund := Table.get_of_mem among
  have until₁ := env₁.released []
  show P.wp i op (confirmRefund refund >>= _) R _ s₁
  unfold confirmRefund
  cases isOrder : refund.orderId.filter (· ≠ 0) with
  | none => exact nothing _ s₁ until₁
  | some orderId =>
    have ofOrder : refund.orderId = some orderId := (Option.filter_eq_some_iff.1 isOrder).1
    refine wp_regroup
      (wp_confirm lawful free events env₁.inv env₁.self (fun s₂ env₂ => ?_) ofOrder ?_ succeeds
      fun err l s₂ env₂ => fails err l s₂ (until₁.trans lawful env₂))
    · exact persists s s₂ _ _ (until₁.trans lawful env₂).drift.1
        (Option.isSome_iff_exists.2 ⟨refund, readRefund⟩)
    · intro s₂ db' env₂ beside confirmed
      refine processes.confirms refund s s₂ db' ⟨.refl lawful holds self, readRefund, reference,
        isRefund, until₁.trans lawful env₂, beside⟩ (confirmed.mono ?_)
      rintro before ⟨m, isBefore, first, second⟩
      exact ⟨m, isBefore, until₁.trans lawful first, second⟩

theorem wp_handleEvent (lawful : P.Lawful) (free : P.Free i op Later) (persists : Persists P i op)
    (tolerates : P.Tolerates i op eventsOnly)
    (events : ∀ w ∈ start, w.table = .paymentWebhookEvents) (holds : P.inv s)
    (self : s.live i = some op) (processes : Processes P i op payload Q s)
    (succeeds : ∀ l s', Q s' → R (.ok ()) l s')
    (fails : ∀ err l s', P.Env i op ⟨none, []⟩ s s' → R (.error err) l s') :
    P.wp i op (handleEvent payload webhookEventId) R ⟨some ⟨began, start⟩, seen⟩ s := by
  unfold handleEvent dispatch
  split
  next isPay =>
    exact wp_assoc (wp_pay lawful free persists tolerates events holds self isPay processes
      succeeds fails)
  next =>
    split
    next =>
      exact wp_refund lawful free persists tolerates events holds self processes succeeds fails
    next =>
      refine wp_finish lawful free tolerates events holds self fun result l s' env => ?_
      cases result with
      | ok _ => exact succeeds l s' (processes.stops s' env)
      | error err => exact fails err l s' env

theorem wp_rollbackAndThrow {β : Type} {err : Err} {l : Local RowOf RowKey}
    (stops : ∀ s', P.Env i op ⟨none, []⟩ s s' → Q s') :
    P.wp i op (rollbackAndThrow err : Service β) (fun _ _ s' => Q s') l s :=
  fun s' env => stops s' (env.released [])

/-- After a failure the event is marked on its own, where there is nothing of it. -/
theorem wp_giveUp (lawful : P.Lawful) (free : P.Free i op Later)
    (tolerates : P.Tolerates i op eventsOnly) {err : Err} {l : Local RowOf RowKey}
    (stops : ∀ s', P.Env i op ⟨none, []⟩ s s' → Q s') :
    P.wp i op (do
      .rollbackTrx
      orElse (markWebhookEventProcessed .pool webhookEventId (some err.message)) ()
      throw err : Service Unit) (fun _ _ s' => Q s') l s := by
  refine wp_do (fun s₁ env₁ => ?_)
  have marks : (markWebhookEventProcessed .pool webhookEventId (some err.message)).Harmless
      eventsOnly := by
    refine Prog.Harmless.bind (quiet_nowIso.harmless) fun processedAt =>
      Prog.Harmless.bind ?_ fun _ => trivial
    exact Prog.Harmless.exec (.updateByKey rfl fun _ => trivial)
  refine wp_do (wp_tryCatch (wp_harmless lawful free tolerates marks ?_ env₁.inv env₁.self
    fun result l' s₂ inv₂ self₂ rely => ?_))
  · exact fun w none => absurd none List.not_mem_nil
  have ends := stops s₂ ((env₁.released []).trans lawful
    ⟨⟨rely, fun _ none => absurd none List.not_mem_nil⟩, inv₂, self₂⟩)
  cases result with
  | ok _ => exact ends
  | error _ => exact ends

/-- While the call holds the new row, nobody inserts one like it. -/
theorem free_later {row : WebhookEvent} {l : Local RowOf RowKey} {s' : Sit RowOf Shared Operation Γ}
    (env : P.Env i op l s s')
    (held : (Write.insert TableName.paymentWebhookEvents row : SqlWrite) ∈ l.writes)
    (unclaimed : (s.db .paymentWebhookEvents).conflicts row = false) :
    (s'.db .paymentWebhookEvents).conflicts row = false := by
  rw [← unclaimed]
  exact Db.conflicts_congr fun e entry => env.drift.2 e (List.mem_flatMap.2 ⟨_, held, entry⟩)

/-- The rest of `process`, once the order is found. -/
def beginProcessing (payload : WebhookPayload) (signature : String) : Service Unit := do
  match ← findPaymentProviderByName .pool "kashier" with
  | none => throw (.appError "Kashier provider not configured" 500)
  | some kashierProvider => do
    .beginTrx
    processEvent payload signature kashierProvider

/-- A webhook, up to the beginning of its transaction. -/
theorem wp_process_begin (lawful : P.Lawful) {signature : String} {signatureValid : Bool}
    {R : Except Err Unit → Local RowOf RowKey → Sit RowOf Shared Operation Γ → Prop}
    (holds : P.inv s) (self : s.live i = some op)
    (unknown : ∀ l s', P.Env i op ⟨none, []⟩ s s' →
      (∀ publicId, payload.merchantOrderId = .uuid publicId →
      ¬s.db.Indexed TableName.orders (UniqueKey.orderPublicId publicId)) → R (.ok ()) l s')
    (opens : ∀ began seen s', P.Env i op ⟨none, []⟩ s s' →
      P.wp i op (processEvent payload signature 1) R ⟨some ⟨began, []⟩, seen⟩ s')
    (fails : ∀ err l s', P.Env i op ⟨none, []⟩ s s' → R (.error err) l s') :
    P.wp i op (process payload signature signatureValid) R .start s := by
  have stays : P.Env i op ⟨none, []⟩ s s := .refl lawful holds self
  refine wp_do (wp_throwIf (fun _ => wp_do ?_) fun _ => fails _ _ s stays)
  have goes : ∀ (seen : List (Sigma RowOf)) s', P.Env i op ⟨none, []⟩ s s' →
      P.wp i op (beginProcessing payload signature) R ⟨none, seen⟩ s' := by
    intro seen s' env
    refine wp_do (wp_select lawful (fun isTrx => nomatch isTrx) env.inv (fun s₁ env₁ => ?_)
      fun _ s₁ env₁ => ?_)
    · have until₁ := env.trans lawful (env₁.released [])
      exact wp_do ⟨fun s₂ env₂ => opens _ _ s₂ (until₁.trans lawful (env₂.released [])),
        fun _ s₂ env₂ => fails _ _ s₂ (until₁.trans lawful (env₂.released []))⟩
    · exact fails _ _ s₁ (env.trans lawful (env₁.released []))
  cases isNamed : payload.merchantOrderId with
  -- An event that names no order is answered without a trace.
  | empty => exact unknown _ s stays fun publicId isUuid => nomatch isNamed.symm.trans isUuid
  | malformed => exact fails _ _ s stays
  | uuid publicId =>
    refine wp_selectFirst lawful (fun isTrx => nomatch isTrx) holds (fun _ order _ s₁ env₁ => ?_)
      (fun none s₁ env₁ => ?_)
      fun _ s₁ env₁ => fails _ _ s₁ (env₁.released [])
    · exact goes _ s₁ (env₁.released [])
    · refine unknown _ s₁ (env₁.released []) fun publicId' isUuid ⟨order, among, entry⟩ => ?_
      cases isNamed.symm.trans isUuid
      have matching := List.filter_eq_nil_iff.1 none order among
      simp only [uniques, List.mem_singleton, UniqueKey.orderPublicId.injEq] at entry
      simp [entry] at matching

/-- A webhook. -/
theorem wp_process (lawful : P.Lawful) (free : P.Free i op Later) (persists : Persists P i op)
    (tolerates : P.Tolerates i op eventsOnly) {signature : String} {signatureValid : Bool}
    (holds : P.inv s) (self : s.live i = some op) (processes : Processes P i op payload Q s) :
    P.wp i op (process payload signature signatureValid) (fun _ _ s' => Q s') .start s := by
  have stops := processes.stops
  refine wp_do (wp_throwIf (fun _ => wp_do ?_) fun _ => stops s (.refl lawful holds self))
  refine wp_reading lawful free (quiet_resolveOrder _) holds self fun result rows s₁ env₁ => ?_
  have until₁ := env₁.released []
  cases result with
  | error err => exact stops s₁ until₁
  | ok order =>
    cases order with
    | none => exact stops s₁ until₁
    | some order =>
      refine wp_do (wp_idle lawful free (quiet_findPaymentProviderByName .pool "kashier")
        env₁.inv env₁.self
        fun result s₂ env₂ => ?_)
      have until₂ := until₁.trans lawful (env₂.released [])
      cases result with
      | error err => exact stops s₂ until₂
      | ok provider =>
        cases provider with
        | none => exact stops s₂ until₂
        | some kashierProvider =>
          refine wp_do ⟨fun s₃ env₃ => ?_,
            fun _ s₃ env₃ => stops s₃ (until₂.trans lawful (env₃.released []))⟩
          have until₃ := until₂.trans lawful (env₃.released [])
          -- The source rolls back and throws on at every error of the transaction.
          have gives : ∀ (err : Err) (l : Local RowOf RowKey) s', P.Env i op ⟨none, []⟩ s s' →
              P.wp i op (rollbackAndThrow err : Service Unit) (fun _ _ s' => Q s') l s' :=
                fun err l s' env =>
            wp_rollbackAndThrow fun s'' env' => stops s'' (env.trans lawful env')
          refine wp_do (wp_tryCatch
            (wp_do (wp_nextval lawful free _ env₃.inv fun id s₄ env₄ => wp_do ?_)))
          have until₄ := until₃.trans lawful (env₄.released [])
          -- The event is known already, it is new, or the insert fails.
          refine wp_insertIgnore_trx lawful env₄.inv (fun _ _ _ s₅ env₅ => ?_)
            (fun _ _ _ s₅ env₅ => ?_) fun _ s₅ env₅ => ?_
          · have until₅ := until₄.trans lawful (env₅.released [])
            refine wp_tryCatch ⟨fun _ => .same lawful env₅.inv fun s₆ env₆ => ?_,
              fun _ s₆ env₆ => ?_⟩
            · exact stops s₆ (until₅.trans lawful (env₆.released []))
            · exact gives _ _ s₆ (until₅.trans lawful (env₆.released []))
          · have until₅ := until₄.trans lawful (env₅.released [])
            refine wp_tryCatch (wp_handleEvent lawful free persists
              tolerates (by simp [Write.table]) env₅.inv env₅.self
              (processes.later lawful until₅) (fun _ _ ends => ends) fun err l s₆ env₆ => ?_)
            exact wp_giveUp lawful free tolerates fun s₇ env₇ =>
              stops s₇ (until₅.trans lawful (env₆.trans lawful env₇))
          · have until₅ := until₄.trans lawful (env₅.released [])
            exact fun s₆ env₆ => stops s₆ (until₅.trans lawful (env₆.released []))

end

end SwiftBite.Verified
