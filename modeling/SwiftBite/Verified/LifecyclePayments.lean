import SwiftBite.Verified.LifecycleCalls

/-! # The life of an order: placements and payments -/

set_option autoImplicit false

namespace SwiftBite.Verified

open Store Prog Protocol Statement Board

/-- The database waits for a call, but for the record of a webhook's own event. -/
structure Waits (db db' : Database) : Prop where
  tables : ∀ t, t ≠ .paymentWebhookEvents → db' t = db t
  grows : db.Grows db'

theorem Waits.refl (db : Database) : Waits db db := ⟨fun _ _ => rfl, .refl db⟩

theorem Waits.trans {db db' db'' : Database} (first : Waits db db')
    (second : Waits db' db'') : Waits db db'' :=
  ⟨fun t other => (second.tables t other).trans (first.tables t other),
    first.grows.trans second.grows⟩

section

variable {db db' : Database}

theorem Waits.board (waits : Waits db db') : boardOf db' = boardOf db :=
  boardOf_congr (waits.tables _ (by decide)) (waits.tables _ (by decide))

theorem Waits.order (waits : Waits db db') (id : ℕ) : orderOf db' id = orderOf db id := by
  rw [orderOf, waits.tables _ (by decide)]

theorem Waits.session (waits : Waits db db') (id : ℕ) : sessionOf db' id = sessionOf db id := by
  rw [sessionOf, waits.tables _ (by decide)]

theorem Consistent.waits (consistent : Consistent db) (waits : Waits db db') : Consistent db' :=
  consistent.congr waits.board (waits.tables _ (by decide))

end

/-! ## Calls that run alone -/

section

variable (moves : Database → Database → Prop) (faulty : Prop)

/-- A call that runs alone, and keeps to `moves`. -/
abbrev lone : Protocol (K := RowKey) RowOf Shared Err Operation Reply Unit :=
  alone (fun _ _ => True) moves Waits Later faulty

variable {moves faulty} {i : ℕ} {op : Operation} {s s' : Sit RowOf Shared Operation Unit}

theorem lone_lawful : (lone moves faulty).Lawful :=
  alone_lawful Waits.refl Waits.trans Later.refl Later.trans

theorem lone_free (i : ℕ) (op : Operation) : (lone moves faulty).Free i op Later :=
  alone_free Waits.refl (fun _ _ _ _ => id) i op

theorem lone_persists (i : ℕ) (op : Operation) : Persists (lone moves faulty) i op :=
  fun _ _ t k rely there => rely.1.grows.rows t k there

theorem lone_waits {l : Local RowOf RowKey}
    (env : (lone moves faulty).Env i op l s s') : Waits s.db s'.db :=
  env.drift.1.1

theorem waits_of_events {ws : List SqlWrite} (events : ∀ w ∈ ws, w.table = .paymentWebhookEvents)
    (db : Database) : Waits db (db.applyAll ws) := by
  refine ⟨fun t other => Db.applyAll_other (fun w member => ?_) db, Db.grows_applyAll db ws⟩
  rw [events w member]
  exact Ne.symm other

theorem lone_tolerates (aside : ∀ db db', Waits db db' → moves db db') (i : ℕ) (op : Operation) :
    (lone moves faulty).Tolerates i op eventsOnly := by
  intro s ws events holds
  have waits := waits_of_events events s.db
  exact ⟨holds, .inr (aside _ _ waits), waits, Later.refl _⟩

/-- The situation of a call that runs alone. -/
def loneSit (db : Database) (x : Shared) (op : Operation) : Sit RowOf Shared Operation Unit :=
  ⟨⟨db, x, ()⟩, fun j => if j = 0 then some op else none⟩

theorem solo_of_lone {β : Type} {prog : Service β} {db : Database} {x : Shared}
    {Q : Database → Prop} (op : Operation)
    (holds : (lone moves faulty).wp 0 op prog (fun _ _ s => Q s.db) .start (loneSit db x op)) :
    prog.solo ⟨moves, faulty⟩ (fun _ _ db _ => Q db) .start db x := by
  have only : Only 0 op (loneSit db x op) := ⟨rfl, fun j other => if_neg other⟩
  refine solo_mono ?_ (solo_of_wp Waits.refl Later.refl holds only trivial)
  rintro result l db' x' ⟨_, s', rfl, _, ends⟩
  exact ends

end

section

variable {odd : OrderStatus → OrderStatus → Prop} {db db' : Database} {i : ℕ} {op : Operation}
  {core : Core}
  {s s' : Sit RowOf Shared Operation Unit}

theorem turns_of_waits (db db' : Database) (waits : Waits db db') : Turns odd db db' :=
  .of_orders (by rw [waits.board])

/-- What a call leaves when it ends. -/
abbrev rests : Sit RowOf Shared Operation Unit → Prop := fun s => Consistent s.db

/-- An action after which the state is consistent. -/
theorem after_consistent {l : Local RowOf RowKey} {x : Shared}
    (changes : (boardOf s.db).Changes odd (boardOf db')) (consistent : Consistent db') :
    (lone (Turns odd) False).After i op s l db' x rests :=
  after_alone (.inr changes) trivial fun _ waits => consistent.waits waits

/-- Rows of tables that neither orders nor sessions know. -/
theorem after_elsewhere {l : Local RowOf RowKey} {x : Shared}
    {Φ : Sit RowOf Shared Operation Unit → Prop} (consistent : Consistent s.db)
    (board : boardOf db' = boardOf s.db) (sessions : db' .paymentSessions = s.db .paymentSessions)
    (next : ∀ s', Consistent s'.db → Φ s') : (lone (Turns odd) False).After i op s l db' x Φ :=
  after_alone (.inr (.of_orders (by rw [board]))) trivial fun s' waits =>
    next s' ((consistent.congr board sessions).waits waits)

/-! ## Placements -/

theorem boardOf_placed {branch : CoreBranch} {address : CoreCustomerAddress}
    {branchProducts : List CoreBranchProduct} {customerId publicId : ℕ} {data : CreateOrderRequest}
    {order : Order}
    (placed : Placed branch address branchProducts customerId publicId data order db db') :
    (boardOf db).orders order.id = none ∧ (boardOf db').jobs = (boardOf db).jobs ∧
      ∀ id, (boardOf db').orders id =
        if id = order.id then some order.status else (boardOf db).orders id := by
  refine ⟨orders_none_iff.2 (Table.get_eq_none_of_free placed.free), ?_, fun id => ?_⟩
  · simp only [boardOf, deliveryOf, placed.others .deliveries (by decide)]
  · simp only [boardOf, orderOf, placed.orders]
    by_cases isNew : id = order.id
    · subst isNew
      rw [if_pos rfl, show (RowKey.id order.id) = key order from rfl,
        Table.get_insert_self placed.free]
      rfl
    · have other : (key order : RowKey) ≠ RowKey.id id :=
        fun same => isNew (RowKey.id.inj same).symm
      rw [if_neg isNew, Table.get_insert_of_ne other]

theorem wp_placement (consistent : Consistent s.db) (self : s.live i = some op) (customerId : ℕ)
    (data : CreateOrderRequest) :
    (lone (Turns odd) False).wp i op (OrderService.placeOrder core customerId data)
      (fun _ _ => rests) .start s := by
  refine wp_placeOrder lone_lawful (lone_free i op) trivial self
    (fun s' env => consistent.waits (lone_waits env)) ?_
  intro branch order s₁ db' placing
  obtain ⟨address, branchProducts, publicId, _, _, _, _, placed⟩ := placing.placed
  have before := consistent.waits (lone_waits placing.until')
  obtain ⟨vacant, jobs, orders⟩ := boardOf_placed placed
  have fresh : order.status = .pendingPayment ∨ order.status = .placed := by
    obtain ⟨id, now, rfl⟩ := placed.row
    simp only [CreateOrderInput.row, OrderService.orderInput]
    split
    next => exact .inl rfl
    next => exact .inr rfl
  have after : Consistent db' := by
    refine ⟨before.sound.place vacant orders jobs,
      before.checkout.kept (placed.others _ (by decide)) fun id unpaid => ?_⟩
    rw [orders]
    split
    next isNew =>
      subst isNew
      rw [vacant] at unpaid
      rcases unpaid with impossible | impossible <;> cases impossible
    next => exact unpaid
  refine after_alone (.inr (changes_place vacant orders)) trivial fun s₂ waits₂ => ?_
  -- The order is cancelled again, or stays.
  refine ⟨fun row updatedAt stamp s₃ env₃ _ _ _ => ?_,
    fun s₃ env₃ => after.waits (waits₂.trans (lone_waits env₃))⟩
  have waits := waits₂.trans (lone_waits env₃)
  have now : Consistent s₃.db := after.waits waits
  have isStatus : (boardOf s₃.db).orders order.id = some order.status := by
    rw [waits.board, orders, if_pos rfl]
  have isBoard := boardOf_updateOrder s₃.db order.id .cancelled updatedAt stamp
  refine after_consistent ?_ ⟨?_, ?_⟩
  · rw [isBoard]
    refine changes_setOrder fun source found => ?_
    cases isStatus.symm.trans found
    rcases fresh with isFresh | isFresh <;> rw [isFresh] <;> exact .inr (.inl (by decide))
  · rw [isBoard]
    refine now.sound.setOrder (now.sound.idle_of_status isStatus ?_) _
    rcases fresh with isFresh | isFresh <;> rw [isFresh] <;> decide
  · exact now.checkout.setOrder (Db.apply_update_ne _ _ _ (by decide)) (by rw [isBoard])
      fun _ => .inr rfl

/-! ## Payment sessions -/

theorem wp_opening (consistent : Consistent s.db) (orderPublicId customerId : ℕ) :
    (lone (Turns odd) False).wp i op (PaymentService.init core orderPublicId customerId)
      (fun _ _ => rests) .start s := by
  refine wp_init lone_lawful (lone_free i op) trivial
    (fun s' env => consistent.waits (lone_waits env)) fun order session s₁ opening => ?_
  have waits := lone_waits opening.until'
  have now := consistent.waits waits
  have isBoard : boardOf (s₁.db.apply (.insert TableName.paymentSessions session)) =
      boardOf s₁.db :=
    boardOf_congr (Db.apply_insert_ne _ _ (by decide)) (Db.apply_insert_ne _ _ (by decide))
  have isPending : (boardOf s₁.db).orders session.orderId = some .pendingPayment := by
    rw [waits.board, opening.ofOrder, orders_of_get opening.readOrder, opening.pending]
  refine after_consistent (.of_orders (by rw [isBoard])) ⟨isBoard ▸ now.sound, ?_⟩
  refine now.checkout.opens opening.free (.inl isPending) (fun row member ofOrder => ?_)
    (Db.apply_insert_self _ _ _) isBoard
  obtain ⟨s₀, _, since₀, inactive⟩ := opening.vacant
  rw [(lone_waits since₀).tables _ (by decide)] at member
  exact inactive row member (ofOrder.trans opening.ofOrder)

/-- A capture is lawful for an order that waits for it. -/
def CaptureIs (odd : OrderStatus → OrderStatus → Prop) (db : Database)
    (payload : WebhookPayload) : Prop :=
  payload.statusText = "SUCCESS" → ∀ order ∈ (db .orders).rows, PaysFor payload order →
  order.status = .cancelled →
    (∃ session ∈ (db .paymentSessions).rows, session.orderId = order.id ∧
      session.status.active = true) → odd .cancelled .placed

theorem processes (consistent : Consistent s.db) {payload : WebhookPayload}
    (lawful : CaptureIs odd s.db payload) :
    Processes (lone (Turns odd) False) i op payload rests s where
  captures order session row s₀ s₁ s₂ db' paysFor success paying captured := by
    have since := (lone_waits paying.until₁).trans (lone_waits paying.until₂)
    have waits := (lone_waits paying.until₀).trans since
    have now := consistent.waits waits
    have isSession : sessionOf s₂.db session.id = some session := by
      rw [(lone_waits paying.until₂).session]
      exact paying.readSession
    have isOrder : (boardOf s₂.db).orders order.id = some order.status := by
      rw [since.board]
      exact orders_of_get paying.readOrder
    -- The order of an active session waits for its payment or has been cancelled.
    have unpaid := now.checkout.waits session (Table.get_mem isSession) paying.active
    rw [paying.ofOrder, isOrder] at unpaid
    obtain ⟨updatedAt, stamp, orders⟩ := captured.orders
    have isBoard : boardOf db' = (boardOf s₂.db).setOrder order.id .placed :=
      boardOf_setOrder orders (captured.others _ (by decide))
        (Order.identity_withStatus _ _ _) fun _ => rfl
    obtain ⟨updatedAt', sessions⟩ := captured.sessions
    refine after_consistent ?_ ⟨?_, ?_⟩
    · rw [isBoard]
      refine changes_setOrder fun source found => ?_
      cases isOrder.symm.trans found
      rcases unpaid with isPending | isCancelled
      · exact .inr (.inr (.inl ⟨Option.some.inj isPending, rfl⟩))
      · -- A capture of a cancelled order is lawful only by assumption.
        have isCancelled := Option.some.inj isCancelled
        have readOrder := paying.readOrder
        rw [(lone_waits paying.until₀).order] at readOrder
        rw [waits.session] at isSession
        rw [isCancelled]
        exact .inr (.inr (.inr (lawful success order (Table.get_mem readOrder) paysFor isCancelled
          ⟨session, Table.get_mem isSession, paying.ofOrder, paying.active⟩)))
    · rw [isBoard]
      refine now.sound.setOrder (now.sound.idle_of_status isOrder ?_) _
      rcases unpaid with isStatus | isStatus <;> rw [Option.some.inj isStatus] <;> decide
    · refine now.checkout.close isSession paying.active rfl sessions fun id other => ?_
      rw [isBoard, orders_setOrder, if_neg (paying.ofOrder ▸ other)]
  refuses order session row s₀ s₁ s₂ db' _ paying refused := by
    have now :=
      consistent.waits (((lone_waits paying.until₀).trans (lone_waits paying.until₁)).trans
        (lone_waits paying.until₂))
    have isSession : sessionOf s₂.db session.id = some session := by
      rw [(lone_waits paying.until₂).session]
      exact paying.readSession
    have isBoard : boardOf db' = boardOf s₂.db :=
      boardOf_congr (refused.others _ (by decide)) (refused.others _ (by decide))
    obtain ⟨updatedAt, sessions⟩ := refused.sessions
    exact after_consistent (.of_orders (by rw [isBoard]))
      ⟨isBoard ▸ now.sound, now.checkout.close isSession paying.active rfl sessions
      fun id _ => by rw [isBoard]⟩
  confirms refund s₁ s₂ db' confirming confirmed := by
    have now :=
      consistent.waits ((lone_waits confirming.until₁).trans (lone_waits confirming.until₂))
    exact after_elsewhere now
      (boardOf_congr (confirmed.others _ (by decide)) (confirmed.others _ (by decide)))
      (confirmed.others _ (by decide)) fun _ => id
  stops s' env := consistent.waits (lone_waits env)

/-! ## Refunds and payouts -/

theorem after_transactions {l : Local RowOf RowKey} {x : Shared}
    {Φ : Sit RowOf Shared Operation Unit → Prop} {w : SqlWrite} (consistent : Consistent s.db)
    (isTransaction : w.table = .transactions) (next : ∀ s', Consistent s'.db → Φ s') :
    (lone (Turns odd) False).After i op s l (s.db.apply w) x Φ := by
  have others : ∀ t, t ≠ .transactions → s.db.apply w t = s.db t := fun t other =>
    Db.apply_other s.db (by rw [isTransaction]; exact Ne.symm other)
  exact after_elsewhere consistent (boardOf_congr (others _ (by decide)) (others _ (by decide)))
    (others _ (by decide)) next

theorem wp_refunding (consistent : Consistent s.db) (paymentId : ℕ) (amount : Option ℤ)
    (reason : String) :
    (lone (Turns odd) False).wp i op (PaymentService.refund core paymentId amount reason)
      (fun _ _ => rests) .start s := by
  refine wp_refundRequest lone_lawful (lone_free i op) trivial
    (fun s' env => consistent.waits (lone_waits env)) fun charge refund s₁ _ refunding => ?_
  refine after_alone (.inr ?_) trivial fun s₂ waits₂ => ?_
  · exact .of_orders (by
      rw [boardOf_congr (Db.apply_insert_ne _ _ (by decide)) (Db.apply_insert_ne _ _ (by decide))])
  have inserted : Consistent (s₁.db.apply (.insert TableName.transactions refund)) :=
    (consistent.waits (lone_waits refunding.until')).congr
      (boardOf_congr (Db.apply_insert_ne _ _ (by decide)) (Db.apply_insert_ne _ _ (by decide)))
      (Db.apply_insert_ne _ _ (by decide))
  have now := inserted.waits waits₂
  refine ⟨fun s₃ env₃ => ?_, fun _ _ _ s₃ env₃ _ => ?_, fun _ _ s₃ env₃ _ => ?_,
    fun _ _ s₃ env₃ _ => ?_, fun s₃ env₃ => ?_⟩
  · have there : (transactionOf (s₁.db.apply (.insert TableName.transactions refund))
        refund.id).isSome = true := by
      rw [transactionOf, Db.apply_insert_self]
      exact Option.isSome_iff_exists.2 ⟨refund, Table.get_insert_self refunding.free⟩
    exact (waits₂.trans (lone_waits env₃)).grows.rows _ _ there
  · exact after_transactions (now.waits (lone_waits env₃)) rfl fun _ => id
  · exact after_transactions (now.waits (lone_waits env₃)) rfl fun _ => id
  · refine after_transactions (now.waits (lone_waits env₃)) rfl fun s₄ consistent₄ => ?_
    exact ⟨fun _ _ s₅ env₅ _ =>
      after_transactions (consistent₄.waits (lone_waits env₅)) rfl fun _ => id,
      fun s₅ env₅ => consistent₄.waits (lone_waits env₅)⟩
  · exact now.waits (lone_waits env₃)

theorem wp_payingOut (consistent : Consistent s.db) (restaurantId : ℕ) (amount : ℤ)
    (currency idempotencyKey : String) :
    (lone (Turns odd) False).wp i op
      (FinanceService.recordPayout restaurantId amount currency idempotencyKey)
      (fun _ _ => rests) .start s := by
  refine wp_recordPayout lone_lawful (lone_free i op)
    (fun result s₁ seen' db' env₁ _ paidOut _ => ?_) fun _ _ s₁ env₁ =>
    consistent.waits (lone_waits env₁)
  have now := consistent.waits (lone_waits env₁)
  cases paidOut with
  | again _ others _ =>
    exact after_elsewhere now (boardOf_congr (others _ (by decide)) (others _ (by decide)))
      (others _ (by decide)) fun _ => id
  | paid _ _ _ _ _ _ _ others _ =>
    exact after_elsewhere now
      (boardOf_congr (others _ (by decide) (by decide)) (others _ (by decide) (by decide)))
      (others _ (by decide) (by decide)) fun _ => id

/-! ## All calls -/

/-- An operation that may change a status in an odd way is one for which odd ways are open. -/
def Regular (odd : OrderStatus → OrderStatus → Prop) (db : Database) : Operation → Prop
  | .reassign _ orderPublicId =>
    ∀ order active, order.publicId = orderPublicId → UnderWay db order active →
      active.status = .picked →
      odd .picked .assigned
  | .webhook payload _ true => CaptureIs odd db payload
  | _ => True

theorem solo_webhook {x : Shared} (consistent : Consistent db) {payload : WebhookPayload}
    {signature : String} {signatureValid : Bool}
    (regular : Regular odd db (.webhook payload signature signatureValid)) :
    (KashierWebhookService.process payload signature signatureValid).solo (.calm (Turns odd))
      (fun _ _ => Coheres) .start db x := by
  cases signatureValid with
  | false => exact solo_do (solo_throwIf (fun isValid => absurd rfl isValid) fun _ => consistent)
  | true =>
    exact solo_of_lone (.webhook payload signature true)
      (wp_process lone_lawful (lone_free 0 _) (lone_persists 0 _)
      (lone_tolerates turns_of_waits 0 _) trivial rfl (processes consistent regular))

theorem lifecycle_settles (env : Config) :
    Pool.Settles (.calm (Turns odd)) Coheres (fun op db _ => Regular odd db op) (code env) := by
  intro op db x consistent regular
  cases op with
  | placeOrder core customerId data =>
    exact solo_returning (solo_of_lone (.placeOrder core customerId data)
      (wp_placement consistent rfl customerId data))
  | updateOrderStatus core publicId target actor =>
    exact solo_map (consistent.solo_updateOrderStatus publicId target actor)
  | initPayment core orderPublicId customerId =>
    exact solo_map (solo_of_lone (.initPayment core orderPublicId customerId)
      (wp_opening consistent orderPublicId customerId))
  | refund core paymentId amount reason =>
    exact solo_map (solo_of_lone (.refund core paymentId amount reason)
      (wp_refunding consistent paymentId amount reason))
  | webhook payload signature signatureValid =>
    exact solo_returning (solo_webhook consistent regular)
  | assign core orderPublicId agentId =>
    exact solo_returning (solo_assign (fun _ _ => consistent) fun order unassigned =>
      consistent.mayBook_ready unassigned)
  | tryAutoAssign core orderId =>
    exact solo_returning (solo_tryAutoAssign (fun _ _ => consistent) fun order unassigned =>
      consistent.mayBook_ready unassigned)
  | reassign core orderPublicId => exact solo_returning (consistent.solo_reassign regular)
  | updateDeliveryStatus core deliveryId actorUserId target =>
    exact solo_map (consistent.solo_deliveryUpdateStatus deliveryId actorUserId target)
  | online agentId point =>
    exact solo_returning (solo_online consistent fun _ _ changed _ =>
      ⟨turns_presence changed, consistent.of_presence changed⟩)
  | offline core agentId => exact solo_returning (consistent.solo_offline agentId)
  | ping agentId point =>
    exact solo_returning (solo_ping consistent fun _ _ _ _ _ =>
      ⟨turns_presence (presenceChanged_update _ _ _),
        consistent.of_presence (presenceChanged_update _ _ _)⟩)
  | recordPayout restaurantId amount currency idempotencyKey =>
    exact solo_map (solo_of_lone (.recordPayout restaurantId amount currency idempotencyKey)
      (wp_payingOut consistent restaurantId amount currency idempotencyKey))
  | sleep duration => exact solo_returning (solo_sure consistent)

end

end SwiftBite.Verified
