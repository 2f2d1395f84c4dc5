import SwiftBite.Verified.PaymentSteps
import SwiftBite.Verified.Redelivery

/-! # The outcome of a refund

A refund waits for its webhook: the provider's reference, which is stored once the provider
has answered, is all that leads from the webhook back to the refund, and the order is all
that leads from there to the charge.  Where both lead to the right row, every delivery that
is acknowledged leaves the refund resolved.
-/

set_option autoImplicit false

namespace SwiftBite.Verified.RefundOutcome

open Store Protocol Verified Statement KashierWebhookService Redelivery

/-- A refund call, the provider's answer to it, and the webhook about it. -/
structure RefundCase where
  db : Database
  charge : Transaction
  order : Order
  core : Core
  amount : Option ℤ
  reason : String
  answer : Option String
  payload : WebhookPayload
  signature : String

namespace RefundCase

variable (c : RefundCase)

def call : Operation := .refund c.core c.charge.id c.amount c.reason

def delivery : Operation := .webhook c.payload c.signature true

/-- An online charge of an order, and a provider that accepts the refund and sends its webhook. -/
structure Proper : Prop where
  there : transactionOf c.db c.charge.id = some c.charge
  isCharge : c.charge.transactionType = .charge
  online : c.charge.method = .online
  ofOrder : c.charge.orderId = some c.order.id
  listed : orderOf c.db c.order.id = some c.order
  serial : c.order.id ≠ 0
  accepted : c.core.refund c.charge.providerReferenceId (c.amount.getD c.charge.amount) c.reason =
    .ok c.answer
  isRefund : c.payload.eventText = "refund"
  names : c.payload.merchantOrderId = .uuid c.order.publicId

/-- The webhook leads to the refund, and the refund to its charge. -/
structure Traceable : Prop where
  success : c.payload.statusText = "SUCCESS"
  reference : c.answer.or c.charge.providerReferenceId = some c.payload.providerTransactionId
  /-- No other refund has the reference. -/
  unused : ∀ tx ∈ (c.db .transactions).rows, tx.transactionType = .refund →
    tx.providerReferenceId ≠ some c.payload.providerTransactionId
  /-- The order has no other charge. -/
  onlyCharge : ∀ tx ∈ (c.db .transactions).rows, tx.orderId = some c.order.id →
    tx.transactionType ∈ [.charge, .codCollection] → tx.status = .succeeded → tx = c.charge
  new : ¬EventRecorded c.db c.payload.providerEventId

/-- The outcome that the webhook reports is recorded, on the refund and on the charge that it was
issued against, and no other transaction has changed. -/
structure Resolved (refundId : ℕ) (db : Database) : Prop where
  refund : ∃ row, transactionOf db refundId = some row ∧
    row.status = if c.payload.statusText = "SUCCESS" then .succeeded else .failed
  flagged : c.payload.statusText = "SUCCESS" → ∃ row, transactionOf db c.charge.id = some row ∧
    row.isRefunded = true ∧ row.refundedPaymentId = some refundId
  others : ∀ id, id ≠ refundId → (c.payload.statusText = "SUCCESS" → id ≠ c.charge.id) →
    transactionOf db id = transactionOf c.db id

end RefundCase

/-- How far the refund has come. -/
inductive Phase where
  | asked
  | created (row : Transaction)
  | failed (row : Transaction) (updatedAt : ℕ)
  | stored (row : Transaction) (storedAt : ℕ)
  | resolved (row : Transaction) (storedAt succeededAt refundedAt : ℕ)

def Phase.isResolved : Phase → Prop
  | .resolved .. => True
  | _ => False

namespace RefundCase

variable (c : RefundCase)

/-- The row that the call inserts. -/
structure Creates (row : Transaction) : Prop where
  free : (c.db .transactions).conflicts row = false
  isRow : ∃ uuid id now,
    row = (PaymentService.refundInput c.charge (c.amount.getD c.charge.amount) uuid).row id now
  succeeded : c.charge.status = .succeeded

/-- The refund, once its reference is stored. -/
def storedTable (row : Transaction) (storedAt : ℕ) : Table Transaction :=
  ((c.db .transactions).insert row).modify (RowKey.id row.id)
    (Transaction.withReference (some c.payload.providerTransactionId) storedAt)

def transactions : Phase → Table Transaction
  | .asked => c.db .transactions
  | .created row => (c.db .transactions).insert row
  | .failed row updatedAt =>
    ((c.db .transactions).insert row).modify (RowKey.id row.id)
      (Transaction.withStatus .failed updatedAt)
  | .stored row storedAt => c.storedTable row storedAt
  | .resolved row storedAt succeededAt refundedAt =>
    ((c.storedTable row storedAt).modify (RowKey.id row.id)
      (Transaction.withStatus .succeeded succeededAt)).modify
      (RowKey.id c.charge.id) (Transaction.refunded row.id refundedAt)

def RowOfCall : Phase → Prop
  | .asked => True
  | .created row | .failed row _ | .stored row _ | .resolved row _ _ _ => c.Creates row

end RefundCase

/-! ## What each side does -/

/-- One event of the refund call. -/
inductive ByCall : Phase → Phase → Prop where
  | same (phase : Phase) : ByCall phase phase
  | creates (row : Transaction) : ByCall .asked (.created row)
  | fails (row : Transaction) (updatedAt : ℕ) : ByCall (.created row) (.failed row updatedAt)
  | stores (row : Transaction) (storedAt : ℕ) : ByCall (.created row) (.stored row storedAt)

/-- One event of a delivery, and so any number of them. -/
inductive ByDelivery : Phase → Phase → Prop where
  | same (phase : Phase) : ByDelivery phase phase
  | resolves (row : Transaction) (storedAt succeededAt refundedAt : ℕ) :
    ByDelivery (.stored row storedAt) (.resolved row storedAt succeededAt refundedAt)

/-- What any number of events leaves of a refund whose reference is stored. -/
structure Onward (phase phase' : Phase) : Prop where
  stored : ∀ row storedAt, phase = .stored row storedAt →
    phase' = .stored row storedAt ∨ ∃ succeededAt refundedAt,
      phase' = .resolved row storedAt succeededAt refundedAt
  resolved : phase.isResolved → phase' = phase

theorem ByDelivery.trans {phase phase' phase'' : Phase} (first : ByDelivery phase phase')
    (second : ByDelivery phase' phase'') : ByDelivery phase phase'' := by
  cases first with
  | same => exact second
  | resolves row storedAt succeededAt refundedAt => cases second; exact .resolves _ _ _ _

theorem Onward.refl (phase : Phase) : Onward phase phase :=
  ⟨fun _ _ isStored => .inl isStored, fun _ => rfl⟩

theorem Onward.trans {phase phase' phase'' : Phase} (first : Onward phase phase')
    (second : Onward phase' phase'') : Onward phase phase'' := by
  refine ⟨fun row storedAt isStored => ?_, fun isResolved => ?_⟩
  · rcases first.stored row storedAt isStored with still | ⟨succeededAt, refundedAt, now⟩
    · exact second.stored row storedAt still
    · subst now
      exact .inr ⟨succeededAt, refundedAt, second.resolved trivial⟩
  · have still := first.resolved isResolved
    rw [second.resolved (by rwa [still]), still]

theorem onward_of_byDelivery {phase phase' : Phase}
    (does : ByDelivery phase phase') : Onward phase phase' := by
  cases does with
  | same => exact .refl phase
  | resolves row storedAt succeededAt refundedAt =>
    refine ⟨fun row' storedAt' isStored => ?_, False.elim⟩
    cases isStored
    exact .inr ⟨succeededAt, refundedAt, rfl⟩

theorem onward_of_byCall {phase phase' : Phase}
    (does : ByCall phase phase') : Onward phase phase' := by
  cases does with
  | same => exact .refl phase
  | creates | fails | stores => exact ⟨fun _ _ isStored => (nomatch isStored), False.elim⟩

/-! ## The protocol -/

variable (c : RefundCase)

/-- A delivery that has recorded its event looks for the refund only when the reference is
stored. -/
def Late (l : Local RowOf RowKey) (db : Database) (ws : List SqlWrite) : Prop :=
  ws = [] → (∃ row, l.writes = [.insert TableName.paymentWebhookEvents row]) →
    ∃ tx ∈ (db .transactions).rows, tx.transactionType = .refund ∧
      tx.providerReferenceId = some c.payload.providerTransactionId

structure Holds (s : Sit RowOf Shared Operation Phase) : Prop where
  transactions : s.db .transactions = c.transactions s.ghost
  rowOfCall : c.RowOfCall s.ghost
  recorded : EventRecorded s.db c.payload.providerEventId ↔ s.ghost.isResolved
  order : OrdersOf s.db c.order.publicId

/-- One event of call `i`; the refund call is the first of the run. -/
def Moves (i : ℕ) (phase phase' : Phase) : Prop :=
  ByDelivery phase phase' ∨ (i = 0 ∧ ByCall phase phase')

/-- What the others leave to call `i`. -/
structure Meets (i : ℕ) (phase phase' : Phase) : Prop where
  onward : Onward phase phase'
  byDelivery : i = 0 → ByDelivery phase phase'

/-- The refund call has stored the reference. -/
def Returned (row : Transaction) (phase : Phase) : Prop :=
  ∃ storedAt, phase = .stored row storedAt ∨ ∃ succeededAt refundedAt,
    phase = .resolved row storedAt succeededAt refundedAt

/-- What a call shows when it has returned. -/
structure Shows (phase : Phase) (op : Operation) (result : Except Err Reply) : Prop where
  acknowledged : ∀ reply, op = c.delivery → result = .ok reply → phase.isResolved
  returned : ∀ row, op = c.call → result = .ok (.transaction row) → Returned row phase

def protocol : Protocol (K := RowKey) RowOf Shared Err Operation Reply Phase where
  inv := Holds c
  guar i _ w w' := Moves i w.ghost w'.ghost
  rely i _ w w' := Meets i w.ghost w'.ghost
  post _ op result w := Shows c w.ghost op result
  allow := Late c
  faulty _ := True
  admits op := op = c.delivery
  apart _ _ _ := True

variable {c}

theorem Meets.refl (i : ℕ) (phase : Phase) : Meets i phase phase :=
  ⟨.refl phase, fun _ => .same phase⟩

theorem Meets.trans {i : ℕ} {phase phase' phase'' : Phase} (first : Meets i phase phase')
    (second : Meets i phase' phase'') : Meets i phase phase'' :=
  ⟨first.onward.trans second.onward,
    fun isCall => (first.byDelivery isCall).trans (second.byDelivery isCall)⟩

theorem onward_of_moves {i : ℕ} {phase phase' : Phase}
    (moves : Moves i phase phase') : Onward phase phase' := by
  rcases moves with byDelivery | ⟨_, byCall⟩
  · exact onward_of_byDelivery byDelivery
  · exact onward_of_byCall byCall

theorem Returned.later {row : Transaction} {phase phase' : Phase} (returned : Returned row phase)
    (onward : Onward phase phase') : Returned row phase' := by
  obtain ⟨storedAt, rfl | ⟨succeededAt, refundedAt, rfl⟩⟩ := returned
  · exact ⟨storedAt, onward.stored row storedAt rfl⟩
  · rw [onward.resolved trivial]
    exact ⟨storedAt, .inr ⟨_, _, rfl⟩⟩

theorem Shows.later {phase phase' : Phase} {op : Operation} {result : Except Err Reply}
    (shows : Shows c phase op result) (onward : Onward phase phase') :
    Shows c phase' op result where
  acknowledged reply isOp isReply := by
    have isResolved := shows.acknowledged reply isOp isReply
    rwa [onward.resolved isResolved]
  returned row isOp isReply := (shows.returned row isOp isReply).later onward

theorem shows_of_error {phase : Phase} {op : Operation} {err : Err} :
    Shows c phase op (.error err) :=
  ⟨fun _ _ isReply => (nomatch isReply), fun _ _ isReply => (nomatch isReply)⟩

theorem lawful : (protocol c).Lawful where
  guar_refl _ _ w := .inl (.same w.ghost)
  rely_refl i _ w := .refl i w.ghost
  rely_trans first second := first.trans second
  rely_of_guar distinct _ _ _ moves := by
    refine ⟨onward_of_moves moves, fun isCall => ?_⟩
    rcases moves with byDelivery | ⟨isCall', _⟩
    · exact byDelivery
    · exact absurd (isCall.trans isCall'.symm) distinct
  post_stable _ _ moves shows := shows.later (onward_of_moves moves)
  inv_spawn holds _ _ := ⟨holds.transactions, holds.rowOfCall, holds.recorded, holds.order⟩
  inv_crash _ _ holds :=
    ⟨⟨holds.transactions, holds.rowOfCall, holds.recorded, holds.order⟩, shows_of_error⟩

theorem free (i : ℕ) (op : Operation) : (protocol c).Free i op Later :=
  fun s _ _ holds => ⟨⟨holds.transactions, holds.rowOfCall, holds.recorded, holds.order⟩,
    .inl (.same s.ghost), .refl i s.ghost⟩

/-! ## The rows of the transactions -/

section Rows

variable {created row : Transaction} {phase : Phase}

theorem refund_of_creates (creates : c.Creates created) : created.transactionType = .refund ∧
    created.providerReferenceId = none ∧ created.orderId = c.charge.orderId := by
  obtain ⟨uuid, id, now, rfl⟩ := creates.isRow
  exact ⟨rfl, rfl, rfl⟩

theorem other_of_creates (creates : c.Creates created) {old : Transaction}
    (member : old ∈ (c.db .transactions).rows) : old.id ≠ created.id := by
  intro same
  have absent := Table.get_eq_none_of_free creates.free
  have found : transactionOf c.db old.id = some old := Table.get_of_mem member
  rw [transactionOf, same] at found
  cases absent.symm.trans found

theorem modify_refund (creates : c.Creates created) {f : Transaction → Transaction}
    (sameId : (f created).id = created.id) (sameUniques : uniques (f created) = uniques created) :
    ((c.db .transactions).insert created).modify (RowKey.id created.id) f =
      (c.db .transactions).insert (f created) :=
  Table.modify_insert_self creates.free (congrArg RowKey.id sameId) sameUniques

/-- The refund, until the webhook resolves it. -/
def issued (c : RefundCase) : Phase → Option Transaction
  | .asked | .resolved .. => none
  | .created row => some row
  | .failed row updatedAt => some (row.withStatus .failed updatedAt)
  | .stored row storedAt => some (row.withReference (some c.payload.providerTransactionId) storedAt)

/-- Until the refund is resolved, the rows are the old ones and the refund. -/
theorem mem_transactions (ofCall : c.RowOfCall phase) (unresolved : ¬phase.isResolved) :
    row ∈ (c.transactions phase).rows ↔
    row ∈ (c.db .transactions).rows ∨ issued c phase = some row := by
  have inserted : ∀ {created row' : Transaction}, (c.db .transactions).conflicts created = false →
      key row' = key created →
      uniques row' = uniques created →
      (row ∈ ((c.db .transactions).insert row').rows ↔
        row ∈ (c.db .transactions).rows ∨ some row' = some row) := by
    intro created row' isFree sameKey sameUniques
    rw [Table.rows_insert (Table.conflicts_of_identity isFree sameKey sameUniques)]
    simp [eq_comm]
  cases phase with
  | asked => simp [RefundCase.transactions, issued]
  | created created => exact inserted ofCall.free rfl rfl
  | failed created updatedAt =>
    simp only [RefundCase.transactions, issued]
    rw [modify_refund ofCall rfl rfl]
    exact inserted ofCall.free rfl rfl
  | stored created storedAt =>
    simp only [RefundCase.transactions, RefundCase.storedTable, issued]
    rw [modify_refund ofCall rfl rfl]
    exact inserted ofCall.free rfl rfl
  | resolved => exact absurd trivial unresolved

theorem refund_of_issued (ofCall : c.RowOfCall phase) (isIssued : issued c phase = some row) :
    row.transactionType = .refund ∧ row.orderId = c.charge.orderId ∧
    (∀ old ∈ (c.db .transactions).rows, old.id ≠ row.id) ∧
      (row.providerReferenceId.isSome = true →
        ∃ created storedAt, phase = .stored created storedAt ∧ row.id = created.id) := by
  cases phase with
  | asked | resolved => cases isIssued
  | created created | failed created updatedAt =>
    obtain ⟨isRefund, reference, ofOrder⟩ := refund_of_creates ofCall
    cases isIssued
    refine ⟨isRefund, ofOrder, fun old member => other_of_creates ofCall member,
      fun hasReference => ?_⟩
    simp [Transaction.withStatus, reference] at hasReference
  | stored created storedAt =>
    obtain ⟨isRefund, _, ofOrder⟩ := refund_of_creates ofCall
    cases isIssued
    exact ⟨isRefund, ofOrder, fun old member => other_of_creates ofCall member,
      fun _ => ⟨created, storedAt, rfl, rfl⟩⟩

/-- Only the refund has the reference that the webhook brings. -/
theorem stored_of_reference (traceable : c.Traceable) (ofCall : c.RowOfCall phase)
    (unresolved : ¬phase.isResolved) (member : row ∈ (c.transactions phase).rows)
    (isRefund : row.transactionType = .refund)
    (reference : row.providerReferenceId = some c.payload.providerTransactionId) :
    ∃ created storedAt, phase = .stored created storedAt ∧ row.id = created.id ∧
    row.orderId = c.charge.orderId := by
  rcases (mem_transactions ofCall unresolved).1 member with old | isIssued
  · exact absurd reference (traceable.unused row old isRefund)
  · obtain ⟨_, ofOrder, _, isStored⟩ := refund_of_issued ofCall isIssued
    obtain ⟨created, storedAt, isPhase, sameId⟩ := isStored (by simp [reference])
    exact ⟨created, storedAt, isPhase, sameId, ofOrder⟩

/-- Only the charge can be found by the order, also when the refund has been updated. -/
theorem charge_of_order (traceable : c.Traceable) (ofCall : c.RowOfCall phase)
    (unresolved : ¬phase.isResolved) {refundId : ℕ}
    (isNew : ∀ old ∈ (c.db .transactions).rows, old.id ≠ refundId) {updatedAt : ℕ}
    (member : row ∈ ((c.transactions phase).modify (RowKey.id refundId)
      (Transaction.withStatus .succeeded updatedAt)).rows) (ofOrder : row.orderId = some c.order.id)
    (isCharge : row.transactionType ∈ [.charge, .codCollection])
    (succeeded : row.status = .succeeded) : row = c.charge := by
  obtain ⟨before, among, rfl⟩ := Table.mem_modify.1 member
  have sameType : (Table.rewrite (RowKey.id refundId) (Transaction.withStatus .succeeded updatedAt)
      before).transactionType =
      before.transactionType :=
    Table.rewrite_congr (g := Transaction.transactionType)
      (f := Transaction.withStatus .succeeded updatedAt) (fun _ => rfl) before
  rcases (mem_transactions ofCall unresolved).1 among with old | isIssued
  · have same : Table.rewrite (RowKey.id refundId) (Transaction.withStatus .succeeded updatedAt)
        before = before :=
      Table.rewrite_of_ne fun isRefund => isNew before old (RowKey.id.inj isRefund)
    rw [same] at ofOrder isCharge succeeded ⊢
    exact traceable.onlyCharge before old ofOrder isCharge succeeded
  · rw [sameType, (refund_of_issued ofCall isIssued).1] at isCharge
    simp at isCharge

/-- The charge is found by the order, also when the refund has been updated. -/
theorem charge_found (proper : c.Proper) (ofCall : c.RowOfCall phase)
    (unresolved : ¬phase.isResolved) {refundId : ℕ}
    (isNew : ∀ old ∈ (c.db .transactions).rows, old.id ≠ refundId) (updatedAt : ℕ) :
    c.charge ∈ ((c.transactions phase).modify (RowKey.id refundId)
      (Transaction.withStatus .succeeded updatedAt)).rows := by
  have old : c.charge ∈ (c.db .transactions).rows := Table.get_mem proper.there
  exact Table.mem_modify.2 ⟨c.charge, (mem_transactions ofCall unresolved).2 (.inl old),
    Table.rewrite_of_ne fun isRefund => isNew c.charge old (RowKey.id.inj isRefund)⟩

end Rows

/-! ## What a delivery commits -/

section Atomic

variable {V : Database → Prop} {db : Database} {created : Transaction}
  {storedAt began webhookEventId : ℕ} {event : WebhookEvent}
  {seen : List (Sigma RowOf)} {Q : Except Err Unit → Local RowOf RowKey → Prop}

theorem refund_stored (creates : c.Creates created) (storedAt : ℕ) :
    (c.storedTable created storedAt).get (RowKey.id created.id) =
    some (created.withReference (some c.payload.providerTransactionId) storedAt) :=
  Table.get_modify_self (Table.get_insert_self creates.free) rfl rfl

theorem atomic_resolve (proper : c.Proper) (traceable : c.Traceable) (creates : c.Creates created)
    (since : ∀ before, V before → before .transactions = c.storedTable created storedAt)
    (table : db .transactions = c.storedTable created storedAt)
    (next : ∀ succeededAt refundedAt ws,
      db.applyAll ([.insert TableName.paymentWebhookEvents event] ++ ws) .transactions =
      c.transactions (.resolved created storedAt succeededAt refundedAt) → ∀ seen',
      Q (.ok ()) ⟨some ⟨began, [.insert TableName.paymentWebhookEvents event] ++ ws⟩, seen'⟩)
    (fails : ∀ err l, Q (.error err) l) :
    ((do
      let _ ← updateTransactionStatus .trx created.id .succeeded
      match ← findSucceededChargeByOrderId .trx c.order.id with
      | none => pure ()
      | some charge => markChargeRefunded .trx charge.id created.id : Service Unit) >>= fun _ =>
        markWebhookEventProcessed .trx webhookEventId none).Atomic (Late c) V db Q
      ⟨some ⟨began, [.insert TableName.paymentWebhookEvents event]⟩, seen⟩ := by
  have isNew : ∀ old ∈ (c.db .transactions).rows, old.id ≠ created.id :=
    fun old => other_of_creates creates
  have unresolved : ¬(Phase.stored created storedAt).isResolved := id
  have ofCall : c.RowOfCall (.stored created storedAt) := creates
  have kept : ∀ before : Database, before.applyAll
      ([.insert TableName.paymentWebhookEvents event] : List SqlWrite) .transactions =
      before .transactions :=
        fun before => applyAll_events (by simp [Write.table]) (by decide) before
  refine .bind (.bind (.bind (.sure (fun x => ?_) (fails _ _))))
  refine .updateByKey (fun _ _ _ _ _ _ => ?_) (fun before since' absent => ?_) (fails _ _)
  swap
  · rw [kept, since before since'.since, refund_stored creates] at absent
    cases absent
  -- What the charge is looked for in.
  have updated : ∀ before : Database, before .transactions = c.storedTable created storedAt →
      (before.applyAll ([.insert TableName.paymentWebhookEvents event] ++
        [.update TableName.transactions (RowKey.id created.id)
          (Transaction.withStatus .succeeded (toMillis x.now))]) .transactions) =
      (c.transactions (.stored created storedAt)).modify (RowKey.id created.id)
        (Transaction.withStatus .succeeded (toMillis x.now)) := by
    intro before isTable
    rw [Db.applyAll_concat_update, kept, isTable]
    rfl
  have there := charge_found proper ofCall unresolved isNew (toMillis x.now)
  refine .bind (.selectFirst (fun before since' charge found => ?_)
    (fun before since' none => ?_) (fails _ _))
  swap
  · rw [updated before (since before since'.since)] at none
    have isCandidate := List.filter_eq_nil_iff.1 none c.charge there
    simp [proper.ofOrder, proper.isCharge, creates.succeeded] at isCandidate
  obtain ⟨member, isCharge⟩ := List.mem_filter.1 found
  obtain ⟨ofOrder, isType, succeeded⟩ := of_decide_eq_true isCharge
  rw [updated before (since before since'.since)] at member
  obtain rfl := charge_of_order traceable ofCall unresolved isNew member ofOrder isType succeeded
  refine .bind (.sure (fun x' => ?_) (fails _ _))
  refine .bind (.updateByKey (fun _ _ _ _ _ _ => ?_) (fun before' since'' absent => ?_) (fails _ _))
  · refine .pure (.quiet (quiet_marks webhookEventId) fun result last rows isLast _ => ?_)
    cases result with
    | error err => exact fails _ _
    | ok _ =>
      have resolved := next (toMillis x.now) (toMillis x'.now)
        ([.update TableName.transactions (RowKey.id created.id)
        (Transaction.withStatus .succeeded (toMillis x.now))] ++
        [.update TableName.transactions (RowKey.id c.charge.id)
        (Transaction.refunded created.id (toMillis x'.now))] ++ last) ?_
      · simp only [← List.append_assoc] at resolved
        exact resolved _
      · simp only [← List.append_assoc]
        rw [Db.applyAll_append_table isLast (by decide), Db.applyAll_concat_update,
          updated db table]
        rfl
  · rw [updated before' (since before' since''.since)] at absent
    cases (Table.get_of_mem there).symm.trans absent

end Atomic

/-! ## The deliveries -/

section Calls

variable {i : ℕ} {op : Operation} {l : Local RowOf RowKey} {s : Sit RowOf Shared Operation Phase}

/-- Marks leave the refund as it is. -/
theorem tolerates : (protocol c).Tolerates i op (within Marks fun _ => True) := by
  intro s ws marks holds
  have same : s.db.applyAll ws .transactions = s.db .transactions := by
    refine applyAll_events (fun w member => ?_) (by decide) s.db
    obtain ⟨id, f, rfl⟩ := marks w member
    rfl
  refine ⟨⟨?_, holds.rowOfCall, ?_, ?_⟩, .inl (.same s.ghost), .refl i s.ghost⟩
  · exact same.trans holds.transactions
  · exact (recorded_of_marks marks).trans holds.recorded
  · exact (Db.grows_applyAll s.db ws).entries _ _ holds.order

/-- How a delivery ends. -/
def Ends (c : RefundCase) (result : Except Err Unit)
    (s' : Sit RowOf Shared Operation Phase) : Prop :=
  Holds c s' ∧ ∀ value, result = .ok value → s'.ghost.isResolved

theorem ends_of_error {err : Err} (holds : Holds c s) : Ends c (.error err) s :=
  ⟨holds, fun _ isOk => nomatch isOk⟩

theorem wp_giveUp {id : ℕ} {err : Err} : (protocol c).wp i op (do
    .rollbackTrx
    orElse (markWebhookEventProcessed .pool id (some err.message)) ()
    throw err : Service Unit) (fun result _ s' => Ends c result s') l s := by
  refine wp_do (fun s₁ env₁ => ?_)
  have marks : (markWebhookEventProcessed .pool id (some err.message)).Harmless
      (within Marks fun _ => True) := by
    refine Prog.Harmless.bind quiet_nowIso.harmless fun processedAt =>
      Prog.Harmless.bind ?_ fun _ => trivial
    exact Prog.Harmless.exec (.updateByKey ⟨_, _, rfl⟩ fun _ => trivial)
  refine wp_do (wp_tryCatch (wp_harmless lawful (free i op) tolerates marks ?_ env₁.inv env₁.self
    fun result l' s₂ inv₂ self₂ rely => ?_))
  · exact fun w none => absurd none List.not_mem_nil
  · cases result with
    | ok _ => exact ends_of_error inv₂
    | error _ => exact ends_of_error inv₂

/-- Until the delivery commits, nobody else has resolved the refund. -/
theorem unresolved_later {event : WebhookEvent} (holds : Holds c s)
    (isKashier : event.providerId = 1) (isEvent : event.providerEventId = c.payload.providerEventId)
    (unclaimed : (s.db .paymentWebhookEvents).conflicts event = false) : ¬s.ghost.isResolved := by
  rw [← holds.recorded, ← isEvent]
  exact unrecorded_of_free isKashier unclaimed

theorem stored_of_onward {phase phase' : Phase} {created : Transaction} {storedAt : ℕ}
    (isStored : phase = .stored created storedAt) (onward : Onward phase phase')
    (unresolved : ¬phase'.isResolved) : phase' = .stored created storedAt := by
  rcases onward.stored created storedAt isStored with still | ⟨_, _, isResolved⟩
  · exact still
  · rw [isResolved] at unresolved
    exact absurd trivial unresolved

/-- The delivery that finds the refund resolves it. -/
theorem wp_resolve (proper : c.Proper) (traceable : c.Traceable) {began : ℕ} {event : WebhookEvent}
    {seen : List (Sigma RowOf)} {created : Transaction} {storedAt : ℕ}
    (isKashier : event.providerId = 1) (isEvent : event.providerEventId = c.payload.providerEventId)
    (self : s.live i = some op) (holds : Holds c s)
    (unclaimed : (s.db .paymentWebhookEvents).conflicts event = false)
    (isStored : s.ghost = .stored created storedAt) :
    (protocol c).wp i op (((do
      let _ ← updateTransactionStatus .trx created.id .succeeded
      match ← findSucceededChargeByOrderId .trx c.order.id with
      | none => pure ()
      | some charge => markChargeRefunded .trx charge.id created.id : Service Unit) >>= fun _ =>
        markWebhookEventProcessed .trx event.id none) >>= fun _ => .commitTrx) (fun result _ s' =>
          Ends c result s')
      ⟨some ⟨began, [.insert TableName.paymentWebhookEvents event]⟩, seen⟩ s := by
  have creates : c.Creates created := by
    have ofCall := holds.rowOfCall
    rwa [isStored] at ofCall
  refine wp_atomic_commit (b := anything) lawful (free i op)
    ((quiet_confirm created c.order.id fun _ _ => trivial).bind fun _ =>
    quiet_markWebhookEventProcessed _ _ (fun _ => trivial) fun _ => trivial) holds self
      (.refl lawful holds self)
    (fun s₁ until₁ env₁ _ => ?_) fun err _ s₁ env₁ => ends_of_error env₁.inv
  have isFree := free_later env₁ List.mem_cons_self unclaimed
  have holds₁ : Holds c s₁ := env₁.inv
  have unresolved₁ := unresolved_later holds₁ isKashier isEvent isFree
  have isStored₁ := stored_of_onward isStored until₁.drift.1.onward unresolved₁
  -- Until the refund is resolved, the table is what the call has stored.
  have table : ∀ {s' : Sit RowOf Shared Operation Phase}, Holds c s' →
      s'.ghost = .stored created storedAt →
      s'.db .transactions = c.storedTable created storedAt := by
    intro s' holds' isStored'
    rw [holds'.transactions, isStored']
    rfl
  refine atomic_resolve proper traceable creates ?_ (table holds₁ isStored₁)
    (fun succeededAt refundedAt ws resolved seen' value _ => ?_)
    fun err l value impossible => nomatch impossible
  · rintro before ⟨m, rfl, first, second⟩
    refine table first.inv (stored_of_onward isStored first.drift.1.onward fun isResolved =>
      unresolved₁ ?_)
    rwa [second.drift.1.onward.resolved isResolved]
  · have grows :=
      Db.grows_applyAll s₁.db ([.insert TableName.paymentWebhookEvents event] ++ ws : List SqlWrite)
    refine ⟨.resolved created storedAt succeededAt refundedAt,
      ⟨resolved, creates, ?_, grows.entries _ _ holds₁.order⟩, .inl ?_,
      fun s₂ env₂ => ⟨env₂.inv, fun _ _ => ?_⟩⟩
    · exact iff_of_true (isEvent ▸ recorded_of_commit isKashier isFree) trivial
    · rw [isStored₁]
      exact .resolves created storedAt succeededAt refundedAt
    · rw [env₂.drift.1.onward.resolved trivial]
      trivial

/-- The event's work and its commit. -/
theorem wp_handle (proper : c.Proper) (traceable : c.Traceable) {began : ℕ} {event : WebhookEvent}
    {seen : List (Sigma RowOf)} (isKashier : event.providerId = 1)
    (isEvent : event.providerEventId = c.payload.providerEventId) (holds : Holds c s)
    (unclaimed : (s.db .paymentWebhookEvents).conflicts event = false) :
    (protocol c).wp i op (handleEvent c.payload event.id) (fun result _ s' => Ends c result s')
      ⟨some ⟨began, [.insert TableName.paymentWebhookEvents event]⟩, seen⟩ s := by
  have kept : s.db.applyAll ([.insert TableName.paymentWebhookEvents event] : List SqlWrite)
      .transactions = c.transactions s.ghost :=
    (applyAll_events (by simp [Write.table]) (by decide) s.db).trans holds.transactions
  unfold handleEvent dispatch handleRefundEvent
  rw [if_neg (by rw [proper.isRefund]; decide), if_pos proper.isRefund, if_pos traceable.success]
  refine wp_assoc (wp_do (wp_selectFirst_trx lawful holds (fun refund member _ s₁ env₁ => ?_)
    (fun none allowed s₁ _ => ?_)
    fun _ s₁ env₁ => ends_of_error env₁.inv))
  · -- The refund that the reference leads to is the row of the call.
    obtain ⟨among, isRefund⟩ := List.mem_filter.1 member
    obtain ⟨reference, isRefund⟩ := of_decide_eq_true isRefund
    rw [kept] at among
    obtain ⟨created, storedAt, isStored, sameId, ofOrder⟩ :=
      stored_of_reference traceable holds.rowOfCall
      (unresolved_later holds isKashier isEvent unclaimed) among isRefund reference
    have isFree := free_later env₁ List.mem_cons_self unclaimed
    have isStored₁ := stored_of_onward isStored env₁.drift.1.onward
      (unresolved_later env₁.inv isKashier isEvent isFree)
    have passes : refund.orderId.filter (· ≠ 0) = some c.order.id := by
      rw [ofOrder, proper.ofOrder]
      simp [proper.serial]
    show (protocol c).wp i op (confirmRefund refund >>= _) _ _ s₁
    unfold confirmRefund
    rw [passes, sameId]
    exact wp_regroup
      (wp_resolve proper traceable isKashier isEvent env₁.self env₁.inv isFree isStored₁)
  · -- The event comes after the call has stored its reference, so the row is found.
    obtain ⟨tx, there, isRefund, reference⟩ := allowed rfl ⟨event, rfl⟩
    have notCandidate := List.filter_eq_nil_iff.1 none tx there
    simp [isRefund, reference] at notCandidate

/-- The transaction of the event, from the insertion of its row. -/
theorem wp_processEvent (proper : c.Proper) (traceable : c.Traceable) {signature : String}
    {began : ℕ} {seen : List (Sigma RowOf)} (holds : Holds c s) :
    (protocol c).wp i op (processEvent c.payload signature 1) (fun result _ s' => Ends c result s')
      ⟨some ⟨began, []⟩, seen⟩ s := by
  refine wp_do (wp_tryCatch
    (wp_do (wp_nextval lawful (free i op) _ holds fun id s₁ env₁ => wp_do ?_)))
  refine wp_insertIgnore_trx lawful env₁.inv (fun old among isTarget s₂ env₂ => ?_)
    (fun _ unclaimed _ s₂ env₂ => ?_)
    fun _ s₂ env₂ s₃ env₃ => ends_of_error env₃.inv
  · simp only [Bool.and_eq_true, decide_eq_true_eq] at isTarget
    have holds₁ : Holds c s₁ := env₁.inv
    have isResolved : s₁.ghost.isResolved :=
      holds₁.recorded.1 ⟨old, among, by simp [uniques, isTarget]⟩
    have same₂ : s₂.ghost = s₁.ghost := env₂.drift.1.onward.resolved isResolved
    refine wp_tryCatch ⟨fun _ => .same lawful env₂.inv fun s₃ env₃ => ?_,
      fun _ s₃ env₃ s₄ env₄ => ends_of_error env₄.inv⟩
    rw [← same₂] at isResolved
    have same₃ : s₃.ghost = s₂.ghost := env₃.drift.1.onward.resolved isResolved
    exact ⟨env₃.inv, fun _ _ => same₃ ▸ isResolved⟩
  · refine wp_tryCatch (wp_mono ?_
      (wp_handle proper traceable rfl rfl env₂.inv (free_later env₂ List.mem_cons_self unclaimed)))
    intro result l' s₃ ends
    cases result with
    | ok value => exact ends
    | error err => exact wp_giveUp

theorem wp_delivery (proper : c.Proper) (traceable : c.Traceable) {signature : String}
    {signatureValid : Bool} (holds : Holds c s) (self : s.live i = some op) :
    (protocol c).wp i op (process c.payload signature signatureValid)
      (fun result _ s' => Ends c result s')
      .start s := by
  refine wp_process_begin lawful holds self (fun _ s' _ unknown => ?_)
    (fun _ _ s' env => ?_)
    fun _ _ s' env => ends_of_error env.inv
  · exact absurd holds.order (unknown c.order.publicId proper.names)
  · exact wp_processEvent proper traceable env.inv

end Calls

theorem verified (env : Config) (proper : c.Proper) (traceable : c.Traceable) :
    (protocol c).Verified (code env) := by
  rintro i op s s' _ _ rfl _ started
  refine wp_do (wp_mono ?_ (wp_delivery proper traceable started.inv started.self))
  intro result l s₁ ends
  have holds : Holds c (s₁.retire i) :=
    ⟨ends.1.transactions, ends.1.rowOfCall, ends.1.recorded, ends.1.order⟩
  cases result with
  | error err => exact ⟨holds, shows_of_error⟩
  | ok value => exact ⟨holds, fun _ _ _ => ends.2 value rfl, fun _ isCall => nomatch isCall⟩

/-! ## The refund call -/

section Call

variable {op : Operation} {s : Sit RowOf Shared Operation Phase}

/-- How the refund call ends. -/
def Called (c : RefundCase) (result : Except Err Transaction)
    (s' : Sit RowOf Shared Operation Phase) : Prop :=
  Holds c s' ∧ ∀ row, result = .ok row → Returned row s'.ghost

theorem called_of_error {err : Err} (holds : Holds c s) : Called c (.error err) s :=
  ⟨holds, fun _ isOk => nomatch isOk⟩

/-- Before the reference is stored nobody else changes the refund. -/
theorem phase_later {l : Local RowOf RowKey} {s' : Sit RowOf Shared Operation Phase}
    (env : (protocol c).Env 0 op l s s')
    (notStored : ∀ row storedAt, s.ghost ≠ .stored row storedAt) : s'.ghost = s.ghost := by
  have moved : ByDelivery s.ghost s'.ghost := env.drift.1.byDelivery rfl
  generalize s.ghost = phase, s'.ghost = phase' at moved notStored
  cases moved with
  | same => rfl
  | resolves row storedAt => exact absurd rfl (notStored row storedAt)

/-- One write of the call, to the transactions. -/
theorem after_write {w : SqlWrite} (ghost : Phase) {seen : List (Sigma RowOf)}
    {Φ : Sit RowOf Shared Operation Phase → Prop} (isTransactions : w.table = .transactions)
    (holds : Holds c s) (moved : ByCall s.ghost ghost)
    (table : s.db.apply w .transactions = c.transactions ghost) (ofCall : c.RowOfCall ghost)
    (pending : ¬s.ghost.isResolved ∧ ¬ghost.isResolved)
    (next : ∀ s', (protocol c).Env 0 op ⟨none, seen⟩ ⟨⟨s.db.apply w, s.side, ghost⟩, s.live⟩ s' →
      Φ s') : (protocol c).After 0 op s ⟨none, seen⟩ (s.db.apply w) s.side Φ := by
  have kept : ∀ t ≠ TableName.transactions, ∀ u, (s.db.apply w).Indexed t u ↔ s.db.Indexed t u := by
    intro t other u
    unfold Db.Indexed
    rw [Db.apply_other s.db (isTransactions ▸ Ne.symm other)]
  refine ⟨ghost, ⟨table, ofCall, ?_, ?_⟩, .inr ⟨rfl, moved⟩, next⟩
  · have unrecorded : ¬EventRecorded s.db c.payload.providerEventId :=
      fun recorded => pending.1 (holds.recorded.1 recorded)
    exact iff_of_false (mt (kept .paymentWebhookEvents (by decide) _).1 unrecorded) pending.2
  · exact (kept .orders (by decide) _).2 holds.order

/-- A failure after the insertion gives the refund up. -/
theorem wp_fail {refund : Transaction} {seen : List (Sigma RowOf)} (holds : Holds c s)
    (isCreated : s.ghost = .created refund) :
    (protocol c).wp 0 op (do
      let _ ← updateTransactionStatus .pool refund.id .failed
      throw (.appError "Payment provider unavailable" 503) : Service Unit)
      ((protocol c).bindPost 0 op (fun _ => pure refund) fun result _ s' => Called c result s')
        ⟨none, seen⟩ s := by
  have creates : c.Creates refund := by
    have ofCall := holds.rowOfCall
    rwa [isCreated] at ofCall
  have still : ∀ s', (protocol c).Env 0 op ⟨none, []⟩ s s' →
      Holds c s' ∧ s'.ghost = .created refund := fun s' env =>
    ⟨env.inv, (phase_later env (by simp [isCreated])).trans isCreated⟩
  refine wp_do (wp_updateTransactionStatus lawful (free 0 op) holds (fun s' env => ?_)
    (fun row updatedAt s₁ seen₁ env₁ found => ?_)
    fun err s₁ env₁ => called_of_error env₁.inv)
  · obtain ⟨holds', isCreated'⟩ := still s' env
    rw [transactionOf, holds'.transactions, isCreated']
    exact Option.isSome_iff_exists.2 ⟨refund, Table.get_insert_self creates.free⟩
  · obtain ⟨holds₁, isCreated₁⟩ := still s₁ env₁
    refine after_write (.failed refund updatedAt) rfl holds₁ ?_ ?_ creates ?_ fun s₂ env₂ =>
      called_of_error env₂.inv
    · rw [isCreated₁]
      exact .fails refund updatedAt
    · rw [Db.apply_update_self, holds₁.transactions, isCreated₁]
      rfl
    · rw [isCreated₁]
      exact ⟨id, id⟩

/-- The call asks the provider and stores its reference. -/
theorem wp_refundOnline (proper : c.Proper) (traceable : c.Traceable) {refund : Transaction}
    {seen : List (Sigma RowOf)} (holds : Holds c s) (isCreated : s.ghost = .created refund) :
    (protocol c).wp 0 op
      (PaymentService.refundOnline c.core c.charge refund (c.amount.getD c.charge.amount) c.reason)
      (fun result _ s' => Called c result s') ⟨none, seen⟩ s := by
  have creates : c.Creates refund := by
    have ofCall := holds.rowOfCall
    rwa [isCreated] at ofCall
  refine wp_do (wp_tryCatch (wp_do (wp_ofExcept ?_)))
  rw [proper.accepted]
  refine wp_do (wp_nowIso lawful (free 0 op) holds fun storedAt s₁ env₁ => wp_do ?_)
  have isCreated₁ := (phase_later env₁ (by simp [isCreated])).trans isCreated
  have holds₁ : Holds c s₁ := env₁.inv
  refine wp_updateByKey_conn lawful env₁.inv (fun _ row isRow _ => ?_) (fun absent => ?_)
    fun _ s₂ env₂ => ?_
  · refine after_write (.stored refund storedAt) rfl holds₁ ?_ ?_ creates ?_ fun s₂ env₂ =>
      ⟨env₂.inv, fun row isRow => ?_⟩
    · rw [isCreated₁]
      exact .stores refund storedAt
    · rw [Db.apply_update_self, holds₁.transactions, isCreated₁, traceable.reference]
      rfl
    · rw [isCreated₁]
      exact ⟨id, id⟩
    · cases isRow
      exact ⟨storedAt, env₂.drift.1.onward.stored refund storedAt rfl⟩
  · rw [holds₁.transactions, isCreated₁] at absent
    exact nomatch absent.symm.trans (Table.get_insert_self creates.free)
  · exact wp_fail env₂.inv ((phase_later env₂ (by simp [isCreated₁])).trans isCreated₁)

theorem wp_refundCall (proper : c.Proper) (traceable : c.Traceable) (holds : Holds c s)
    (isAsked : s.ghost = .asked) :
    (protocol c).wp 0 op (PaymentService.refund c.core c.charge.id c.amount c.reason)
      (fun result _ s' => Called c result s')
      .start s := by
  have still : ∀ {l : Local RowOf RowKey} {s' s'' : Sit RowOf Shared Operation Phase},
      (protocol c).Env 0 op l s' s'' →
      s'.ghost = .asked → s''.ghost = .asked :=
        fun env isAsked' => (phase_later env (by simp [isAsked'])).trans isAsked'
  have table : s.db .transactions = c.db .transactions := by
    rw [holds.transactions, isAsked]
    rfl
  refine wp_do (wp_selectByKey lawful (fun isTrx => nomatch isTrx) holds
    (fun _ charge found s₁ env₁ => ?_) (fun absent s₁ _ => ?_)
    fun _ s₁ env₁ => called_of_error env₁.inv)
  swap
  · simp only [Local.view, table] at absent
    cases absent.symm.trans proper.there
  -- Nobody has touched the charge, as no refund is known yet.
  have isCharge : charge = c.charge := by
    simp only [Local.view, table] at found
    exact Option.some.inj (found.symm.trans proper.there)
  subst charge
  refine wp_do (wp_throwIf (fun refundable => ?_) fun _ => called_of_error env₁.inv)
  refine wp_do (wp_throwIf (fun _ => ?_) fun _ => called_of_error env₁.inv)
  simp only [not_or, not_not] at refundable
  refine wp_do (wp_uuidv4 lawful (free 0 op) env₁.inv fun uuid s₂ env₂ => wp_do (wp_do ?_))
  refine wp_nextval lawful (free 0 op) _ env₂.inv fun refundId s₃ env₃ => ?_
  have isAsked₃ := still env₃ (still env₂ (still env₁ isAsked))
  have holds₃ : Holds c s₃ := env₃.inv
  refine wp_insert_conn (fun _ isFree _ _ => ?_) fun _ s₄ env₄ => called_of_error env₄.inv
  -- The row goes into a table that is as it was at the start.
  have table₃ : s₃.db .transactions = c.db .transactions := by
    rw [holds₃.transactions, isAsked₃]
    rfl
  rw [table₃] at isFree
  refine after_write (.created _) rfl holds₃ ?_ ?_ ⟨isFree, ⟨uuid, refundId, _, rfl⟩, refundable.2⟩
    ?_ fun s₄ env₄ => ?_
  · rw [isAsked₃]
    exact .creates _
  · rw [Db.apply_insert_self, table₃]
    rfl
  · rw [isAsked₃]
    exact ⟨id, id⟩
  · show (protocol c).wp 0 op (if c.charge.method = .online then _ else _) _ _ s₄
    rw [if_pos proper.online]
    exact wp_refundOnline proper traceable env₄.inv (phase_later env₄ (by simp))

end Call

/-! ## Runs -/

/-- The refund call, when it starts. -/
def RefundCase.start (c : RefundCase) (env : Config) (x : Shared) : Region :=
  ⟨c.db, x, [⟨c.call, code env c.call, .start⟩]⟩

/-- Any number of deliveries of the webhook beside the call, with any faults and crashes. -/
def Deliveries (c : RefundCase) (_ : Region) (e : Event Operation) : Prop :=
  Serves (· = c.delivery) e

/-- No delivery looks for the refund before the reference is stored. -/
def Unhurried (c : RefundCase) (p : Region) (e : Event Operation) : Prop :=
  Deliveries c p e ∧ Abides (Late c) p e

/-- Once the refund call, which is the first, has returned and a delivery has been acknowledged, the
outcome is recorded. -/
def OutcomeIsKept (env : Config) (c : RefundCase) (allowed : Region → Event Operation → Prop)
    (x : Shared) : Prop :=
  ∀ p, Pool.Reach (code env) allowed (c.start env x) p → ∀ call refund j delivery reply,
    p.calls[0]? = some call → call.prog = .done (.ok (.transaction refund)) →
    p.calls[j + 1]? = some delivery → delivery.prog = .done (.ok reply) → c.Resolved refund.id p.db

variable {env : Config}

theorem sound_refundCall (proper : c.Proper) (traceable : c.Traceable) (x : Shared) :
    (protocol c).Sound (c.start env x) .asked := by
  have holds : Holds c ⟨⟨c.db, x, .asked⟩, fun _ => none⟩ := by
    refine ⟨rfl, trivial, iff_of_false traceable.new id, c.order, Table.get_mem proper.listed, ?_⟩
    simp [uniques]
  have quiet : (protocol c).Sound (Pool.quiet c.db x) Phase.asked := sound_quiet Phase.asked holds
  have starts : (Pool.quiet c.db x : Region).next (code env) (.spawn c.call) =
      some (c.start env x) := rfl
  refine sound_start lawful quiet ⟨holds.transactions, holds.rowOfCall, holds.recorded, holds.order⟩
    (fun s' started => ?_) starts
  refine wp_map (wp_mono ?_
    (wp_refundCall proper traceable started.inv (phase_later started (by simp [Pool.sit]))))
  intro result l s₁ called
  have holds₁ : Holds c (s₁.retire 0) :=
    ⟨called.1.transactions, called.1.rowOfCall, called.1.recorded, called.1.order⟩
  cases result with
  | error err => exact ⟨holds₁, shows_of_error⟩
  | ok row =>
    refine ⟨holds₁, fun _ isDelivery => (by cases isDelivery), fun row' _ isReply => ?_⟩
    cases isReply
    exact called.2 row rfl

theorem admissible (p : Region) (e : Event Operation) (unhurried : Unhurried c p e) :
    (protocol c).Admissible p e := by
  cases e with
  | spawn op => exact ⟨unhurried.1, fun _ _ _ => ⟨trivial, trivial⟩⟩
  | step i choice =>
    exact ⟨fun _ _ _ _ _ _ _ => trivial,
      fun call found => ⟨fun _ => trivial, fun out acts => unhurried.2 call out found acts⟩⟩
  | crash i => exact fun _ _ => trivial

theorem resolved_of_phase (proper : c.Proper) (traceable : c.Traceable) {db : Database}
    {refund : Transaction} {storedAt succeededAt refundedAt : ℕ} (creates : c.Creates refund)
    (table : db .transactions = c.transactions (.resolved refund storedAt succeededAt refundedAt)) :
    c.Resolved refund.id db := by
  have isNew : c.charge.id ≠ refund.id := other_of_creates creates (Table.get_mem proper.there)
  have charge : (c.storedTable refund storedAt).get (RowKey.id c.charge.id) = some c.charge := by
    rw [RefundCase.storedTable, Table.get_modify_of_ne (by simpa using isNew)]
    exact Table.get_insert_of_some proper.there
  refine ⟨⟨Transaction.withStatus .succeeded succeededAt 
    (refund.withReference (some c.payload.providerTransactionId) storedAt),
    ?_, (if_pos traceable.success).symm⟩,
    fun _ => ⟨Transaction.refunded refund.id refundedAt c.charge, ?_, rfl, rfl⟩,
    fun id other notCharge => ?_⟩
  · rw [transactionOf, table, RefundCase.transactions,
      Table.get_modify_of_ne (by simpa using Ne.symm isNew)]
    exact Table.get_modify_self (refund_stored creates storedAt) rfl rfl
  · rw [transactionOf, table, RefundCase.transactions]
    refine Table.get_modify_self ?_ rfl rfl
    rwa [Table.get_modify_of_ne (by simpa using isNew)]
  · rw [transactionOf, table, RefundCase.transactions,
      Table.get_modify_of_ne (by simpa using notCharge traceable.success),
      Table.get_modify_of_ne (by simpa using other), RefundCase.storedTable,
      Table.get_modify_of_ne (by simpa using other),
      Table.get_insert_of_ne (by simpa [key] using Ne.symm other)]

/-- The first call is the refund, the others are deliveries. -/
theorem ops_of_reach {x : Shared} {p : Region}
    (reached : Pool.Reach (code env) (Deliveries c) (c.start env x) p)
    {call delivery : Call (K := RowKey) RowOf Shared Err Operation Reply} {j : ℕ}
    (found : p.calls[0]? = some call) (found' : p.calls[j + 1]? = some delivery) :
    call.op = c.call ∧ delivery.op = c.delivery := by
  have served : ∃ ops, p.calls.map Call.op = c.call :: ops ∧ ∀ op ∈ ops, op = c.delivery := by
    refine reached.induct (fun p => ∃ ops, p.calls.map Call.op = c.call :: ops ∧ ∀ op ∈ ops,
      op = c.delivery) ⟨[], rfl, by simp⟩ ?_
    rintro p p' e ⟨ops, served, deliveries⟩ serves moves
    refine ⟨ops ++ Pool.starts e,
      by rw [Pool.ops_next moves, served, List.cons_append], fun op member => ?_⟩
    rcases List.mem_append.1 member with old | new
    · exact deliveries op old
    · cases e with
      | spawn op' => exact (List.mem_singleton.1 new).trans serves
      | _ => cases new
  obtain ⟨ops, served, deliveries⟩ := served
  have first : (p.calls.map Call.op)[0]? = some call.op := by rw [List.getElem?_map, found]; rfl
  have other : (p.calls.map Call.op)[j + 1]? = some delivery.op := by
    rw [List.getElem?_map, found']; rfl
  rw [served] at first other
  exact ⟨(Option.some.inj first).symm, deliveries _ (List.mem_of_getElem? other)⟩

theorem traceable_refunds_are_resolved (env : Config) (c : RefundCase) (proper : c.Proper)
    (traceable : c.Traceable) (x : Shared) : OutcomeIsKept env c (Unhurried c) x := by
  intro p reached call refund j delivery reply found returned found' acknowledged
  obtain ⟨isCall, isDelivery⟩ := ops_of_reach (reached.mono fun _ _ => And.left) found found'
  obtain ⟨phase, sound⟩ := sound_of_reach lawful (verified env proper traceable) admissible
    (sound_refundCall proper traceable x) reached
  have isReturned : Returned refund phase :=
    ((sound.fine 0 call found).2 _ returned).returned refund isCall rfl
  have isResolved : phase.isResolved :=
    ((sound.fine (j + 1) delivery found').2 _ acknowledged).acknowledged reply isDelivery rfl
  obtain ⟨storedAt, rfl | ⟨succeededAt, refundedAt, rfl⟩⟩ := isReturned
  · exact isResolved.elim
  · exact resolved_of_phase proper traceable sound.inv.rowOfCall sound.inv.transactions

namespace RefundCase

/-- A full refund of a paid order.  The provider's answer has no id, so the refund gets the
reference of its charge. -/
def sample : RefundCase where
  db := Sample.dbCharged
  charge := Sample.charge
  order := { Sample.onlineOrder with status := .placed }
  core := Sample.core
  amount := none
  reason := "cold"
  answer := none
  payload := ⟨some "refund", some "SUCCESS", .uuid 100, some "a", none⟩
  signature := "s"

theorem sample_proper : sample.Proper := ⟨rfl, rfl, rfl, rfl, rfl, by decide, rfl, rfl, rfl⟩

theorem sample_traceable : sample.Traceable := by
  refine ⟨rfl, rfl, by decide, fun tx member _ _ _ => List.mem_singleton.1 member, ?_⟩
  rintro ⟨row, member, _⟩
  cases member

/-- The event is a delivery of the webhook, or an action. -/
def delivers (c : RefundCase) : Event Operation → Bool
  | .spawn (.webhook payload signature signatureValid) =>
    payload = c.payload && signature = c.signature && signatureValid
  | .spawn _ => false
  | _ => true

theorem deliveries_of_delivers {c : RefundCase} {p : Region} {e : Event Operation}
    (isDelivery : c.delivers e = true) : Deliveries c p e := by
  cases e with
  | spawn op =>
    cases op with
    | webhook payload signature signatureValid =>
      simp only [delivers, Bool.and_eq_true, decide_eq_true_eq] at isDelivery
      obtain ⟨⟨rfl, rfl⟩, rfl⟩ := isDelivery
      rfl
    | _ => cases isDelivery
  | _ => trivial

/-- A call that has written something acts only when the reference is stored. -/
def waits (c : RefundCase) (p : Region) : Event Operation → Bool
  | .step i _ => (p.calls[i]?).all fun call => call.loc.writes.isEmpty ||
      (p.db .transactions).rows.any fun tx : Transaction =>
        tx.transactionType = .refund &&
          tx.providerReferenceId = some c.payload.providerTransactionId
  | _ => true

theorem unhurried_of_waits {c : RefundCase} {p : Region} {e : Event Operation}
    (checked : (c.delivers e && c.waits p e) = true) : Unhurried c p e := by
  rw [Bool.and_eq_true] at checked
  refine ⟨deliveries_of_delivers checked.1, ?_⟩
  cases e with
  | step i choice =>
    rintro call out found acts silent ⟨row, writes⟩
    have isStored := checked.2
    simp only [waits, found, Option.all_some, writes, List.isEmpty_cons, Bool.false_or,
      List.any_eq_true, Bool.and_eq_true,
      decide_eq_true_eq] at isStored
    obtain ⟨tx, member, isRefund, reference⟩ := isStored
    refine ⟨tx, ?_, isRefund, reference⟩
    rwa [writes, applyAll_events (by simp [Write.table]) (by decide)]
  | _ => trivial

end RefundCase

/-- The refund that the call has returned, when a delivery has been acknowledged. -/
def outcome (p : Region) : Option ℕ :=
  match p.calls with
  | ⟨_, .done (.ok (.transaction refund)), _⟩ :: ⟨_, .done (.ok _), _⟩ :: _ => some refund.id
  | _ => none

theorem resolved_of_outcome {x : Shared} {allowed : Region → Event Operation → Prop}
    (kept : OutcomeIsKept env c allowed x) {p : Region}
    (reached : Pool.Reach (code env) allowed (c.start env x) p) {refundId : ℕ}
    (ended : outcome p = some refundId) : c.Resolved refundId p.db := by
  unfold outcome at ended
  split at ended
  next refund _ _ _ _ _ calls =>
    cases ended
    exact kept p reached _ refund 0 _ _ (by rw [calls]; rfl) rfl (by rw [calls]; rfl) rfl
  next => cases ended

/-- The call returns, then the webhook is delivered, and once more. -/
def resolvedRefund : List (Event Operation) :=
  List.replicate 6 (Sample.act 0) ++ [.spawn RefundCase.sample.delivery] ++
    List.replicate 14 (Sample.act 1) ++
    [.spawn RefundCase.sample.delivery] ++ List.replicate 6 (Sample.act 2)

theorem refund_is_resolved : ∃ p, Pool.Reach (code Sample.env) (Unhurried RefundCase.sample)
    (RefundCase.sample.start Sample.env Sample.shared) p ∧ RefundCase.sample.Resolved 10 p.db := by
  have played : (Pool.play (code Sample.env)
      (fun p e => RefundCase.sample.delivers e && RefundCase.sample.waits p e)
      resolvedRefund (RefundCase.sample.start Sample.env Sample.shared)).map outcome =
      some (some 10) := by decide +kernel
  obtain ⟨p, isRun, ended⟩ := Option.map_eq_some_iff.1 played
  have reached := Pool.reach_of_play (fun _ _ => RefundCase.unhurried_of_waits) isRun
  exact ⟨p, reached, resolved_of_outcome
    (traceable_refunds_are_resolved Sample.env RefundCase.sample RefundCase.sample_proper
    RefundCase.sample_traceable Sample.shared) reached ended⟩

/-! ## A webhook that comes early -/

/-- The provider has accepted the refund; its webhook is delivered before the reference is
stored. -/
def overtaken : List (Event Operation) :=
  List.replicate 4 (Sample.act 0) ++ [.spawn RefundCase.sample.delivery] ++
    List.replicate 9 (Sample.act 1) ++
    List.replicate 2 (Sample.act 0) ++ [.spawn RefundCase.sample.delivery] ++
      List.replicate 6 (Sample.act 2)

/-- Deliveries only, none of which fails. -/
def SmoothDeliveries (c : RefundCase) (p : Region) (e : Event Operation) : Prop :=
  Deliveries c p e ∧ Faultless e

theorem early_webhook_is_lost :
    RefundCase.sample.Proper ∧ RefundCase.sample.Traceable ∧
    ¬OutcomeIsKept Sample.env RefundCase.sample (SmoothDeliveries RefundCase.sample)
      Sample.shared := by
  refine ⟨RefundCase.sample_proper, RefundCase.sample_traceable, fun kept => ?_⟩
  have played : (Pool.play (code Sample.env)
      (fun _ e => RefundCase.sample.delivers e && decide (Faultless e)) overtaken
      (RefundCase.sample.start Sample.env Sample.shared)).map (fun p =>
        (outcome p, (transactionOf p.db 10).map Transaction.status)) =
      some (some 10, some .pending) := by decide +kernel
  obtain ⟨p, isRun, shown⟩ := Option.map_eq_some_iff.1 played
  simp only [Prod.mk.injEq] at shown
  have allowed : ∀ (p : Region) e, (RefundCase.sample.delivers e && decide (Faultless e)) = true →
      SmoothDeliveries RefundCase.sample p e := by
    intro p e checked
    rw [Bool.and_eq_true, decide_eq_true_eq] at checked
    exact ⟨RefundCase.deliveries_of_delivers checked.1, checked.2⟩
  obtain ⟨row, found, status⟩ :=
    (resolved_of_outcome kept (Pool.reach_of_play allowed isRun) shown.1).refund
  rw [found] at shown
  simp [status, RefundCase.sample, WebhookPayload.statusText] at shown

end SwiftBite.Verified.RefundOutcome
