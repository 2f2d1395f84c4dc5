import SwiftBite.Verified.PaymentSteps

/-! # Charges and captured sessions

A successful webhook captures the session that it found active and records one charge.
The two stay equal in number as long as the session is still active when it is captured;
the handler reads it without a lock and does not look again.
-/

set_option autoImplicit false

namespace SwiftBite.Verified.Captures

open Store Protocol Verified KashierWebhookService

def isChargeOf (orderId : ℕ) (tx : Transaction) : Bool :=
  decide (tx.transactionType = .charge ∧ tx.status = .succeeded ∧ tx.orderId = some orderId)

def isCapturedOf (orderId : ℕ) (session : PaymentSession) : Bool :=
  decide (session.orderId = orderId ∧ session.status = .captured)

/-- Each order has as many succeeded charges as captured sessions. -/
def Matched (db : Database) : Prop :=
  ∀ orderId, (db .transactions).count (isChargeOf orderId) =
    (db .paymentSessions).count (isCapturedOf orderId)

/-- Every update of a payment session finds the row in the status in which the call saw it
last. -/
def FreshSession (l : Local RowOf RowKey) (db : Database) (ws : List SqlWrite) : Prop :=
  ∀ w ∈ ws, match w with
    | .update .paymentSessions k _ =>
      ∀ row shown : PaymentSession, (db .paymentSessions).get k = some row →
        l.lastSeen TableName.paymentSessions k = some shown → shown.status = row.status
    | _ => True

/-! ## What a step may change -/

/-- A session keeps its order, and stays captured. -/
def SessionMoves (row row' : PaymentSession) : Prop :=
  row'.orderId = row.orderId ∧ (row.status = .captured → row'.status = .captured)

structure Moves (db db' : Database) : Prop where
  sessions : ∀ id row, sessionOf db id = some row →
    ∃ row', sessionOf db' id = some row' ∧ SessionMoves row row'
  types : Table.Keeps Transaction.transactionType (db .transactions) (db' .transactions)
  grows : db.Grows db'

theorem Moves.refl (db : Database) : Moves db db :=
  ⟨fun _ row found => ⟨row, found, rfl, id⟩, .refl _ _, .refl _⟩

theorem Moves.trans {db db' db'' : Database} (first : Moves db db')
    (second : Moves db' db'') : Moves db db'' := by
  refine ⟨fun id row found => ?_, first.types.trans second.types, first.grows.trans second.grows⟩
  obtain ⟨row', found', sameOrder, stays⟩ := first.sessions id row found
  obtain ⟨row'', found'', sameOrder', stays'⟩ := second.sessions id row' found'
  exact ⟨row'', found'', sameOrder'.trans sameOrder, stays' ∘ stays⟩

/-- The update of one session that is not captured. -/
theorem sessions_of_modify {db db' : Database} {session row : PaymentSession}
    {status : PaymentSessionStatus} {updatedAt : ℕ}
    (changed : db' .paymentSessions = (db .paymentSessions).modify (RowKey.id session.id)
      (PaymentSession.withStatus status updatedAt)) (found : sessionOf db session.id = some row)
    (notCaptured : row.status ≠ .captured) (id : ℕ) (row₁ : PaymentSession)
    (found₁ : sessionOf db id = some row₁) :
    ∃ row', sessionOf db' id = some row' ∧ SessionMoves row₁ row' := by
  rw [sessionOf, changed, Table.get_modify]
  have found₂ : (db .paymentSessions).get (RowKey.id id) = some row₁ := found₁
  rw [found₂]
  refine ⟨_, rfl, ?_⟩
  by_cases same : key row₁ = RowKey.id session.id
  · have isRow : row₁ = row := by
      have sameId : id = session.id := by simpa [same] using (Table.get_key found₁).symm
      subst sameId
      exact Option.some.inj (found₁.symm.trans found)
    subst isRow
    exact ⟨Table.rewrite_congr (f := PaymentSession.withStatus status updatedAt)
      (g := PaymentSession.orderId) (fun _ => rfl) row₁,
      fun captured => absurd captured notCaptured⟩
  · rw [Table.rewrite_of_ne same]
    exact ⟨rfl, fun captured => captured⟩

theorem not_captured_of_active {status : PaymentSessionStatus}
    (active : status.active = true) : status ≠ .captured := by
  rintro rfl
  cases active

theorem rewrite_withStatus {session row : PaymentSession} (same : key row = RowKey.id session.id)
    (status : PaymentSessionStatus) (updatedAt : ℕ) :
    Table.rewrite (RowKey.id session.id) (PaymentSession.withStatus status updatedAt) row =
      PaymentSession.withStatus status updatedAt row := by
  rw [Table.rewrite_of_eq same]
  exact Table.keepIdentity_eq rfl rfl

/-- The captured sessions of each order after one session has been given a status. -/
theorem count_of_session {db db' : Database} {session row : PaymentSession}
    {status : PaymentSessionStatus} {updatedAt : ℕ}
    (changed : db' .paymentSessions = (db .paymentSessions).modify (RowKey.id session.id)
      (PaymentSession.withStatus status updatedAt)) (found : sessionOf db session.id = some row)
    (notCaptured : row.status ≠ .captured) (orderId : ℕ) :
    (db' .paymentSessions).count (isCapturedOf orderId) =
      (db .paymentSessions).count (isCapturedOf orderId) +
      if row.orderId = orderId ∧ status = .captured then 1 else 0 := by
  have counted := Table.count_modify_of_get found (PaymentSession.withStatus status updatedAt)
    (isCapturedOf orderId)
  rw [rewrite_withStatus (Table.get_key found), ← changed] at counted
  have before : isCapturedOf orderId row = false := by simp [isCapturedOf, notCaptured]
  have after : isCapturedOf orderId (PaymentSession.withStatus status updatedAt row) =
      decide (row.orderId = orderId ∧ status = .captured) := rfl
  simpa [before, after] using counted

theorem count_of_charge {order : Order} {session : PaymentSession} {providerTransactionId : String}
    {status : TransactionStatus} {id now : ℕ} {charges : Table Transaction}
    (free : charges.conflicts
      ((chargeInput order session providerTransactionId status).row id now) = false) (orderId : ℕ) :
    (charges.insert ((chargeInput order session providerTransactionId status).row id now)).count
      (isChargeOf orderId) =
      charges.count (isChargeOf orderId) +
        if order.id = orderId ∧ status = .succeeded then 1 else 0 := by
  rw [Table.count_insert free]
  congr 1
  simp [isChargeOf, chargeInput, CreateTransactionInput.row, and_comm]

theorem matched_of_captured {order : Order} {session row : PaymentSession}
    {providerTransactionId : String} {db db' : Database} (matched : Matched db)
    (captured : Captured order session providerTransactionId db db')
    (found : sessionOf db session.id = some row) (active : row.status.active = true)
    (ofOrder : row.orderId = order.id) : Matched db' := by
  intro orderId
  obtain ⟨updatedAt, sessions⟩ := captured.sessions
  obtain ⟨id, now, free, transactions⟩ := captured.transactions
  rw [transactions, count_of_charge free,
    count_of_session sessions found (not_captured_of_active active), matched, ofOrder]
  simp

theorem matched_of_refused {order : Order} {session row : PaymentSession}
    {providerTransactionId : String} {db db' : Database} (matched : Matched db)
    (refused : PaymentRefused order session providerTransactionId db db')
    (found : sessionOf db session.id = some row)
    (active : row.status.active = true) : Matched db' := by
  intro orderId
  obtain ⟨updatedAt, sessions⟩ := refused.sessions
  obtain ⟨id, now, free, transactions⟩ := refused.transactions
  rw [transactions, count_of_charge free,
    count_of_session sessions found (not_captured_of_active active), matched]
  simp

/-- A flag is no status. -/
theorem count_of_flagged {refundId : ℕ} {charges charges' : Table Transaction}
    (flagged : Flagged refundId charges charges') (orderId : ℕ) :
    charges'.count (isChargeOf orderId) = charges.count (isChargeOf orderId) := by
  rcases flagged with rfl | ⟨id, updatedAt, rfl⟩
  · rfl
  · have kept : ∀ row, isChargeOf orderId (Transaction.refunded refundId updatedAt row) =
        isChargeOf orderId row := fun _ => rfl
    rw [Table.count_modify]
    congr 1
    funext row
    exact Table.rewrite_congr kept row

theorem type_withStatus (status : TransactionStatus) (updatedAt : ℕ) (row : Transaction) :
    (Transaction.withStatus status updatedAt row).transactionType = row.transactionType := rfl

theorem matched_of_confirmed {refund row : Transaction} {db db' : Database} (matched : Matched db)
    (confirmed : Confirmed refund db db') (found : transactionOf db refund.id = some row)
    (isRefund : row.transactionType = .refund) : Matched db' := by
  intro orderId
  obtain ⟨updatedAt, flagged⟩ := confirmed.transactions
  rw [count_of_flagged flagged, confirmed.others _ (by decide), ← matched orderId]
  have counted := Table.count_modify_of_get found (Transaction.withStatus .succeeded updatedAt)
    (isChargeOf orderId)
  have before : isChargeOf orderId row = false := by simp [isChargeOf, isRefund]
  have after : isChargeOf orderId (Table.rewrite (RowKey.id refund.id)
      (Transaction.withStatus .succeeded updatedAt) row) = false := by
    have sameType : (Table.rewrite (RowKey.id refund.id)
        (Transaction.withStatus .succeeded updatedAt) row).transactionType =
        row.transactionType := Table.rewrite_congr (type_withStatus _ _) row
    simp [isChargeOf, sameType, isRefund]
  simpa [before, after] using counted

theorem types_of_flagged {refundId : ℕ} {charges charges' : Table Transaction}
    (flagged : Flagged refundId charges charges') :
    Table.Keeps Transaction.transactionType charges charges' := by
  rcases flagged with rfl | ⟨id, updatedAt, rfl⟩
  · exact .refl _ _
  · have kept : ∀ row : Transaction, (Transaction.refunded refundId updatedAt row).transactionType =
        row.transactionType :=
      fun _ => rfl
    exact .modify kept _ _

theorem moves_of_charged {order : Order} {session row : PaymentSession}
    {providerTransactionId : String} {sessionStatus : PaymentSessionStatus}
    {status : TransactionStatus} {db db' : Database}
    (charged : Charged order session providerTransactionId sessionStatus status db db')
    (found : sessionOf db session.id = some row)
    (active : row.status.active = true) : Moves db db' := by
  obtain ⟨updatedAt, sessions⟩ := charged.sessions
  obtain ⟨id, now, _, transactions⟩ := charged.transactions
  refine ⟨sessions_of_modify sessions found (not_captured_of_active active), ?_, charged.grows⟩
  rw [transactions]
  exact .insert _ _ _

theorem moves_of_confirmed {refund : Transaction} {db db' : Database}
    (confirmed : Confirmed refund db db') : Moves db db' := by
  obtain ⟨updatedAt, flagged⟩ := confirmed.transactions
  refine ⟨fun id row found => ⟨row, ?_, rfl, fun captured => captured⟩,
    (Table.Keeps.modify (type_withStatus _ _) _ _).trans (types_of_flagged flagged),
    confirmed.grows⟩
  rwa [sessionOf, confirmed.others _ (by decide)]

/-! ## The calls -/

/-- Webhooks and the opening of sessions. -/
def TakesPayments : Operation → Prop
  | .webhook .. | .initPayment .. => True
  | _ => False

def protocol : Protocol (K := RowKey) RowOf Shared Err Operation Reply Unit where
  inv s := Matched s.db
  guar _ _ w w' := Moves w.db w'.db
  rely _ _ w w' := Moves w.db w'.db
  post _ _ _ _ := True
  allow := FreshSession
  faulty _ := True
  admits := TakesPayments
  apart _ _ _ := True

theorem lawful : protocol.Lawful where
  guar_refl _ _ w := .refl w.db
  rely_refl _ _ w := .refl w.db
  rely_trans first second := first.trans second
  rely_of_guar _ _ _ _ guar := guar
  post_stable _ _ _ _ := trivial
  inv_spawn holds _ _ := holds
  inv_crash _ _ holds := ⟨holds, trivial⟩

theorem free (i : ℕ) (op : Operation) : protocol.Free i op Later :=
  fun s _ _ holds => ⟨holds, .refl s.db, .refl s.db⟩

theorem persists (i : ℕ) (op : Operation) : Persists protocol i op :=
  fun _ _ t k rely there => rely.grows.rows t k there

theorem tolerates_events (i : ℕ) (op : Operation) : protocol.Tolerates i op eventsOnly := by
  intro s ws events holds
  have others : ∀ t, t ≠ .paymentWebhookEvents → s.db.applyAll ws t = s.db t :=
    fun t other => applyAll_events events other s.db
  have moves : Moves s.db (s.db.applyAll ws) := by
    refine ⟨fun id row found => ⟨row, ?_, rfl, fun captured => captured⟩, ?_,
      Db.grows_applyAll s.db ws⟩
    · rwa [sessionOf, others _ (by decide)]
    · rw [others _ (by decide)]
      exact .refl _ _
  refine ⟨fun orderId => ?_, moves, moves⟩
  show (s.db.applyAll ws .transactions).count _ = (s.db.applyAll ws .paymentSessions).count _
  rw [others _ (by decide), others _ (by decide)]
  exact holds orderId

section Calls

variable {i : ℕ} {op : Operation} {s : Sit RowOf Shared Operation Unit}

/-- The row that is captured is the one that was read: still active, and of the same order. -/
theorem row_of_paying {order : Order} {session row : PaymentSession}
    {s₀ s₁ s₂ : Sit RowOf Shared Operation Unit}
    (paying : Paying protocol i op order session row s s₀ s₁ s₂) :
    sessionOf s₂.db session.id = some row ∧ row.status.active = true ∧ row.orderId = order.id := by
  obtain ⟨start, seen, found, began, before, f, found', fresh⟩ := paying.touched
  have sameStatus : session.status = row.status := by
    refine fresh _ (List.mem_singleton.2 rfl) row session found' ?_
    exact Local.lastSeen_cons_self _ TableName.paymentSessions session seen
  obtain ⟨row', found'', sameOrder, _⟩ := paying.until₂.drift.1.sessions _ _ paying.readSession
  have isRow : row' = row := Option.some.inj (found''.symm.trans found)
  subst isRow
  exact ⟨found, by rw [← sameStatus]; exact paying.active, sameOrder.trans paying.ofOrder⟩

theorem processes (payload : WebhookPayload) :
    Processes protocol i op payload (fun s' => Matched s'.db) s where
  captures order session row s₀ s₁ s₂ db' _ _ paying captured := by
    obtain ⟨found, active, ofOrder⟩ := row_of_paying paying
    exact ⟨(), matched_of_captured paying.until₂.inv captured found active ofOrder,
      moves_of_charged captured.toCharged found active,
      fun s' env => env.inv⟩
  refuses order session row s₀ s₁ s₂ db' _ paying refused := by
    obtain ⟨found, active, _⟩ := row_of_paying paying
    exact ⟨(), matched_of_refused paying.until₂.inv refused found active,
      moves_of_charged refused.toCharged found active,
      fun s' env => env.inv⟩
  confirms refund s₁ s₂ db' confirming confirmed := by
    obtain ⟨row, found, sameType⟩ := confirming.until₂.drift.1.types _ _ confirming.readRefund
    exact ⟨(), matched_of_confirmed confirming.until₂.inv confirmed.toConfirmed found
      (sameType.trans confirming.isRefund),
      moves_of_confirmed confirmed.toConfirmed, fun s' env => env.inv⟩
  stops s' env := env.inv

theorem wp_initCall {core : Core} {orderPublicId customerId : ℕ} (holds : Matched s.db) :
    protocol.wp i op (PaymentService.init core orderPublicId customerId)
      (fun _ _ s' => Matched s'.db) .start s := by
  refine wp_init lawful (free i op) holds (fun s' env => env.inv) fun order session s' opening =>
    ⟨(), ?_, ?_, fun s'' env => env.inv⟩
  · intro orderId
    have notCaptured : isCapturedOf orderId session = false := by
      simp [isCapturedOf, opening.status]
    show ((s'.db.apply _) .transactions).count _ = ((s'.db.apply _) .paymentSessions).count _
    rw [Db.apply_insert_ne _ _ (by decide), Db.apply_insert_self,
      Table.count_insert opening.free, notCaptured]
    exact opening.until'.inv orderId
  · refine ⟨fun id row found => ⟨row, ?_, rfl, fun captured => captured⟩, ?_,
      Db.grows_apply s'.db (.insert TableName.paymentSessions session)⟩
    · show ((s'.db.apply _) .paymentSessions).get _ = _
      rw [Db.apply_insert_self]
      exact Table.get_insert_of_some found
    · show Table.Keeps _ _ ((s'.db.apply _) .transactions)
      rw [Db.apply_insert_ne _ _ (by decide)]
      exact .refl _ _

end Calls

theorem verified (env : Config) : protocol.Verified (code env) := by
  intro i op s s' holds _ admitted _ started
  cases op with
  | webhook payload signature signatureValid =>
    refine wp_do (wp_mono ?_
      (wp_process lawful (free i _) (persists i _) (tolerates_events i _) started.inv started.self
      (processes payload)))
    intro result l s'' matched
    cases result with
    | error err => exact ⟨matched, trivial⟩
    | ok _ => exact ⟨matched, trivial⟩
  | initPayment core orderPublicId customerId =>
    refine wp_map (wp_mono ?_ (wp_initCall started.inv))
    exact fun _ _ _ matched => ⟨matched, trivial⟩
  | _ => exact admitted.elim

/-! ## Runs -/

/-- Webhooks and the opening of sessions, with any faults and crashes, without a stale update
of a session. -/
def FreshPayments (p : Region) (e : Event Operation) : Prop :=
  Serves TakesPayments e ∧ Abides FreshSession p e

theorem admissible (p : Region) (e : Event Operation) (fresh : FreshPayments p e) :
    protocol.Admissible p e := by
  cases e with
  | spawn op => exact ⟨fresh.1, fun _ _ _ => ⟨trivial, trivial⟩⟩
  | step i choice =>
    exact ⟨fun _ _ _ _ _ _ _ => trivial,
      fun call found => ⟨fun _ => trivial, fun out acts => fresh.2 call out found acts⟩⟩
  | crash i => exact fun _ _ => trivial

/-- Charges and captured sessions match in all runs from a state, and no session leaves
`captured`. -/
structure AlwaysMatched (env : Config) (allowed : Region → Event Operation → Prop)
    (start : Region) : Prop where
  matched : ∀ p, Pool.Reach (code env) allowed start p → Matched p.db
  captured : ∀ p p' e, Pool.Reach (code env) allowed start p → allowed p e →
    p.next (code env) e = some p' →
    ∀ id row, sessionOf p.db id = some row → row.status = .captured →
      ∃ row', sessionOf p'.db id = some row' ∧ row'.status = .captured

theorem fresh_payments_match (env : Config) (db : Database) (x : Shared) (matched : Matched db) :
    AlwaysMatched env FreshPayments (Pool.quiet db x) := by
  have sound : ∀ p, Pool.Reach (code env) FreshPayments (Pool.quiet db x) p →
      ∃ ghost, protocol.Sound p ghost :=
    fun p reached =>
      sound_of_reach lawful (verified env) admissible (sound_quiet () matched) reached
  refine ⟨fun p reached => ?_, fun p p' e reached allowed moves id row found isCaptured => ?_⟩
  · obtain ⟨ghost, isSound⟩ := sound p reached
    exact isSound.inv
  · obtain ⟨ghost, isSound⟩ := sound p reached
    have conforms := (sound_next lawful (verified env) isSound (admissible p e allowed) moves).2
    cases e with
    | spawn op => exact ⟨row, by rw [sessionOf, conforms.1]; exact found, isCaptured⟩
    | crash i => exact ⟨row, by rw [sessionOf, conforms.1]; exact found, isCaptured⟩
    | step i choice =>
      obtain ⟨call, _, _, _, _, guar⟩ := conforms
      obtain ⟨row', found', _, stays⟩ := guar.sessions id row found
      exact ⟨row', found', stays isCaptured⟩

theorem matched_of_unpaid {db : Database} (transactions : db .transactions = Table.empty)
    (sessions : ∀ session ∈ (db .paymentSessions).rows, session.status ≠ .captured) :
    Matched db := by
  intro orderId
  have none : (db .paymentSessions).count (isCapturedOf orderId) = 0 := by
    refine Table.count_eq_zero.2 fun session member => ?_
    simp [isCapturedOf, sessions session member]
  rw [transactions, none]
  rfl

instance : DecidablePred TakesPayments
  | .webhook .. | .initPayment .. => inferInstanceAs (Decidable True)
  | .assign .. | .tryAutoAssign .. | .reassign .. | .updateDeliveryStatus .. | .placeOrder ..
  | .updateOrderStatus ..
  | .refund .. | .online .. | .offline .. | .ping .. | .recordPayout .. | .sleep .. =>
    inferInstanceAs (Decidable False)

instance (l : Local RowOf RowKey) (db : Database) (ws : List SqlWrite) :
    Decidable (FreshSession l db ws) :=
  @List.decidableBAll _ _ (fun
    | .update .paymentSessions k _ =>
      decidableFound ((db .paymentSessions).get k)
        (fun _ => l.lastSeen TableName.paymentSessions k) _
    | .update .orders .. | .update .orderItems .. | .update .transactions ..
    | .update .paymentWebhookEvents ..
    | .update .deliveries .. | .update .agentEarnings .. | .update .restaurantBalances ..
    | .update .agentPresence ..
    | .update .eventsOutbox .. | .insert .. | .lock .. => inferInstanceAs (Decidable True)) ws

instance (p : Region) (e : Event Operation) : Decidable (FreshPayments p e) :=
  inferInstanceAs (Decidable (_ ∧ _))

/-- The second of two successes for one order comes when the first is over. -/
def capturedOnce : List (Event Operation) :=
  .spawn (.webhook (Sample.payEvent "SUCCESS" "a") "" true) :: List.replicate 23 (Sample.act 0) ++
  .spawn (.webhook (Sample.payEvent "SUCCESS" "b") "" true) :: List.replicate 10 (Sample.act 1)

theorem order_paid_twice_is_charged_once :
    ∃ p, Pool.Reach (code Sample.env) FreshPayments
      (Pool.quiet (Sample.dbPaying .initialized) Sample.shared) p ∧
      p.Idle = true ∧ (p.db .transactions).count (isChargeOf 1) = 1 ∧ Matched p.db := by
  have played : (Pool.play (code Sample.env) (fun p e => decide (FreshPayments p e)) capturedOnce
      (Pool.quiet (Sample.dbPaying .initialized) Sample.shared)).map
        (fun p => (p.Idle, (p.db .transactions).count (isChargeOf 1))) = some (true, 1) := by
    decide +kernel
  obtain ⟨p, isRun, isEnd⟩ := Option.map_eq_some_iff.1 played
  simp only [Prod.mk.injEq] at isEnd
  have reached : Pool.Reach (code Sample.env) FreshPayments
      (Pool.quiet (Sample.dbPaying .initialized) Sample.shared) p :=
    Pool.reach_of_play (fun _ _ => of_decide_eq_true) isRun
  have matched := fresh_payments_match Sample.env (Sample.dbPaying .initialized) Sample.shared
    (matched_of_unpaid rfl (by decide))
  exact ⟨p, reached, isEnd.1, isEnd.2, matched.matched p reached⟩

/-! ## Without freshness -/

/-- The runs in which no call fails. -/
def PaymentsOnly (_ : Region) (e : Event Operation) : Prop := Serves TakesPayments e ∧ Faultless e

instance (p : Region) (e : Event Operation) : Decidable (PaymentsOnly p e) :=
  inferInstanceAs (Decidable (_ ∧ _))

/-- Two successes for one order: both have found the session active before either captures it. -/
def capturedTwice : List (Event Operation) :=
  [.spawn (.webhook (Sample.payEvent "SUCCESS" "a") "" true),
    .spawn (.webhook (Sample.payEvent "SUCCESS" "b") "" true)] ++
  List.replicate 7 (Sample.act 0) ++ List.replicate 7 (Sample.act 1) ++
  List.replicate 16 (Sample.act 0) ++ List.replicate 16 (Sample.act 1)

theorem stale_successes_charge_twice :
    ¬ AlwaysMatched Sample.env PaymentsOnly
      (Pool.quiet (Sample.dbPaying .initialized) Sample.shared) := by
  intro always
  have twice : (Pool.play (code Sample.env) (fun p e => decide (PaymentsOnly p e)) capturedTwice
      (Pool.quiet (Sample.dbPaying .initialized) Sample.shared)).map
        (fun p => ((p.db .transactions).count (isChargeOf 1),
        (p.db .paymentSessions).count (isCapturedOf 1))) =
      some (2, 1) := by decide +kernel
  obtain ⟨p, played, counts⟩ := Option.map_eq_some_iff.1 twice
  have equal := always.matched p (Pool.reach_of_play (fun _ _ => of_decide_eq_true) played) 1
  rw [Prod.mk.injEq] at counts
  omega

end SwiftBite.Verified.Captures
