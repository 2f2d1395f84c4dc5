import SwiftBite.Verified.Board
import SwiftBite.Verified.Funding

/-! # What the outbox tells of the statuses

The last event that tells of an order carries the order's status, as long as no status is
written without an event: an assignment does that, a pick-up, and the cancellation that
follows a refused reservation.
-/

set_option autoImplicit false

namespace SwiftBite.Verified.ToldStatuses

open Store Protocol Verified OrderService DeliveryService OneSettlement

/-! ## The story and the orders -/

/-- An `order.placed` event of the order is in the outbox. -/
def Published (db : Database) (orderId : ℕ) : Prop :=
  ∃ telling ∈ story (db .eventsOutbox), telling.orderId = orderId ∧
  telling.eventType = "order.placed"

/-- The last status that is told of a published order is the one that it has. -/
def WholeStory (db : Database) : Prop := ∀ order ∈ (db .orders).rows, Published db order.id →
  lastTold order.id (story (db .eventsOutbox)) = some order.status

structure Told (db : Database) : Prop where
  whole : WholeStory db
  /-- Only orders that are there are told of. -/
  known : ∀ telling ∈ story (db .eventsOutbox), (orderOf db telling.orderId).isSome = true
  deliveries : ∀ delivery ∈ (db .deliveries).rows, (orderOf db delivery.orderId).isSome = true

instance (db : Database) (orderId : ℕ) : Decidable (Published db orderId) :=
  inferInstanceAs (Decidable (∃ telling ∈ story (db .eventsOutbox), telling.orderId = orderId ∧
    telling.eventType = "order.placed"))

instance (db : Database) : Decidable (WholeStory db) :=
  inferInstanceAs (Decidable (∀ order ∈ (db .orders).rows, Published db order.id →
    lastTold order.id (story (db .eventsOutbox)) = some order.status))

theorem told_empty : Told Database.empty := by
  refine ⟨?_, ?_, ?_⟩ <;> exact fun _ none => absurd none List.not_mem_nil

/-! ## Steps -/

/-- The order gets a status, and no other order changes. -/
structure SetTo (id : ℕ) (status : OrderStatus) (orders orders' : Table Order) : Prop where
  status : ∀ order', orders'.get (RowKey.id id) = some order' → order'.status = status
  others : ∀ id', id' ≠ id → orders'.get (RowKey.id id') = orders.get (RowKey.id id')

section SetTo

variable {id : ℕ} {status : OrderStatus} {orders orders' orders'' : Table Order}

theorem SetTo.withStatus (updatedAt : ℕ) (stamp : Option ℕ) (orders : Table Order) :
    SetTo id status orders
      (orders.modify (RowKey.id id) (Order.withStatus status updatedAt stamp)) := by
  refine ⟨fun order' found => ?_, fun id' other => Table.get_modify_of_ne (by simpa using other)⟩
  rw [Table.get_modify] at found
  obtain ⟨order, isOrder, rfl⟩ := Option.map_eq_some_iff.1 found
  obtain ⟨sameKey, sameUniques⟩ := Order.identity_withStatus status updatedAt stamp order
  rw [Table.rewrite_of_eq (Table.get_key isOrder), Table.keepIdentity_eq sameKey sameUniques]
  rfl

/-- Whatever else happens to the order before. -/
theorem SetTo.after {f : Order → Order}
    (set : SetTo id status (orders.modify (RowKey.id id) f) orders') :
    SetTo id status orders orders' := by
  refine ⟨set.status, fun id' other => ?_⟩
  rw [set.others id' other]
  exact Table.get_modify_of_ne (by simpa using other)

theorem SetTo.insert {order : Order} (free : orders.conflicts order = false) :
    SetTo order.id order.status orders (orders.insert order) := by
  refine ⟨fun order' found => ?_, fun id' other => Table.get_insert_of_ne ?_⟩
  · have inserted : (orders.insert order).get (RowKey.id order.id) = some order :=
      Table.get_insert_self free
    rw [Option.some.inj (found.symm.trans inserted)]
  · exact fun same => other (RowKey.id.inj same).symm

end SetTo

section

variable {db db' : Database}

theorem there_later {orderId : ℕ} (there : (orderOf db orderId).isSome = true)
    (grows : db.Grows db') : (orderOf db' orderId).isSome = true :=
  grows.rows _ _ there

/-- An order that is not there is not published. -/
theorem unpublished_of_absent (told : Told db) {orderId : ℕ} (absent : orderOf db orderId = none) :
    ¬ Published db orderId := by
  rintro ⟨telling, member, rfl, _⟩
  have there := told.known telling member
  rw [absent] at there
  cases there

theorem deliveries_later (told : Told db) (grows : db.Grows db')
    (deliveries : Table.Same Delivery.orderId (db .deliveries) (db' .deliveries)) :
    ∀ delivery' ∈ (db' .deliveries).rows, (orderOf db' delivery'.orderId).isSome = true := by
  intro delivery' member
  have same := deliveries (RowKey.id delivery'.id)
  rw [show (db' .deliveries).get (RowKey.id delivery'.id) =
    some delivery' from Table.get_of_mem member] at same
  obtain ⟨delivery, found, sameOrder⟩ := Option.map_eq_some_iff.1 same.symm
  rw [← sameOrder]
  exact there_later (told.deliveries delivery (Table.get_mem found)) grows

/-- A status is written, and told. -/
theorem told_of_tells {id : ℕ} {eventType : String} {status : OrderStatus} (told : Told db)
    (set : SetTo id status (db .orders) (db' .orders)) (there : (orderOf db' id).isSome = true)
    (tells : story (db' .eventsOutbox) = story (db .eventsOutbox) ++ [⟨id, eventType, status⟩])
    (deliveries : Table.Same Delivery.orderId (db .deliveries) (db' .deliveries))
    (grows : db.Grows db') : Told db' := by
  refine ⟨fun order' member published => ?_, fun telling member => ?_,
    deliveries_later told grows deliveries⟩
  · have found' : (db' .orders).get (RowKey.id order'.id) = some order' := Table.get_of_mem member
    rw [tells]
    by_cases isSet : order'.id = id
    · rw [lastTold_append_self isSet.symm, set.status order' (isSet ▸ found')]
    · -- The other orders are told of as before.
      rw [lastTold_append_other (Ne.symm isSet)]
      rw [set.others _ isSet] at found'
      obtain ⟨telling, among, ofOrder, isPlaced⟩ := published
      rw [tells, List.mem_append, List.mem_singleton] at among
      refine told.whole order' (Table.get_mem found') ⟨telling, among.resolve_right ?_,
        ofOrder, isPlaced⟩
      rintro rfl
      exact isSet ofOrder.symm
  · rw [tells, List.mem_append, List.mem_singleton] at member
    rcases member with old | rfl
    · exact there_later (told.known telling old) grows
    · exact there

/-- A status is written in silence, but nobody has been told of the order. -/
theorem told_of_unpublished {id : ℕ} {status : OrderStatus} (told : Told db)
    (set : SetTo id status (db .orders) (db' .orders)) (unpublished : ¬ Published db id)
    (same : story (db' .eventsOutbox) = story (db .eventsOutbox))
    (deliveries : Table.Same Delivery.orderId (db .deliveries) (db' .deliveries))
    (grows : db.Grows db') : Told db' := by
  refine ⟨fun order' member published => ?_, fun telling member => ?_,
    deliveries_later told grows deliveries⟩
  · rw [Published, same] at published
    have other : order'.id ≠ id := by
      rintro rfl
      exact unpublished published
    have found' : (db' .orders).get (RowKey.id order'.id) = some order' := Table.get_of_mem member
    rw [set.others _ other] at found'
    rw [same]
    exact told.whole order' (Table.get_mem found') published
  · rw [same] at member
    exact there_later (told.known telling member) grows

/-- Neither an order nor the outbox changes. -/
theorem told_of_aside (told : Told db)
    (others : ∀ t, t ∈ [TableName.orders, .eventsOutbox] → db' t = db t)
    (deliveries : Table.Same Delivery.orderId (db .deliveries) (db' .deliveries))
    (grows : db.Grows db') : Told db' := by
  refine ⟨fun order' member published => ?_, fun telling member => ?_,
    deliveries_later told grows deliveries⟩
  · rw [Published, others _ (by decide)] at published
    rw [others _ (by decide)] at member
    rw [others _ (by decide)]
    exact told.whole order' member published
  · rw [others _ (by decide)] at member
    exact there_later (told.known telling member) grows

theorem told_of_same (told : Told db)
    (others : ∀ t, t ∈ [TableName.orders, .deliveries, .eventsOutbox] → db' t = db t)
    (grows : db.Grows db') : Told db' := by
  refine told_of_aside told
    (fun t member => others t (by revert member; cases t <;> decide)) ?_ grows
  rw [others _ (by decide)]
  exact .refl _ _

theorem told_of_placed {branch : CoreBranch} {address : CoreCustomerAddress}
    {branchProducts : List CoreBranchProduct} {customerId publicId : ℕ} {data : CreateOrderRequest}
    {order : Order} (told : Told db)
    (placed : Placed branch address branchProducts customerId publicId data order db db') :
    Told db' := by
  have set : SetTo order.id order.status (db .orders) (db' .orders) := by
    rw [placed.orders]
    exact .insert placed.free
  have deliveries : Table.Same Delivery.orderId (db .deliveries) (db' .deliveries) := by
    rw [placed.others _ (by decide)]
    exact .refl _ _
  have there : (orderOf db' order.id).isSome = true := by
    rw [orderOf, placed.orders]
    exact Option.isSome_iff_exists.2 ⟨order, Table.get_insert_self placed.free⟩
  have tells := placed.tells
  split at tells
  next => exact told_of_tells told set there tells deliveries placed.grows
  next =>
    -- Nobody is told of an online order before it is paid.
    have absent : orderOf db order.id = none := Table.get_eq_none_of_free placed.free
    rw [List.append_nil] at tells
    exact told_of_unpublished told set (unpublished_of_absent told absent) tells
      deliveries placed.grows

end

/-! ## The calls -/

/-- No call that has created a delivery sets the order's status, and none writes the status of a
published order outside a transaction. -/
def NoSilentChange (l : Local RowOf RowKey) (db : Database) (ws : List SqlWrite) : Prop :=
  ∀ w ∈ ws, match w with
    | .update .orders k _ =>
      (∀ delivery : Delivery, .insert TableName.deliveries delivery ∉ l.writes) ∧
        (l.txn = none → ∀ order : Order, (db .orders).get k = some order → ¬ Published db order.id)
    | _ => True

def protocol : Protocol (K := RowKey) RowOf Shared Err Operation Reply Unit where
  inv s := Told s.db
  guar _ _ w w' := w.db.Grows w'.db
  rely _ _ w w' := w.db.Grows w'.db
  post _ _ _ _ := True
  allow := NoSilentChange
  faulty _ := True
  admits _ := True
  apart _ _ _ := True

theorem lawful : protocol.Lawful where
  guar_refl _ _ w := .refl w.db
  rely_refl _ _ w := .refl w.db
  rely_trans first second := first.trans second
  rely_of_guar _ _ _ _ guar := guar
  post_stable _ _ _ _ := trivial
  inv_spawn holds _ _ := holds
  inv_crash _ _ holds := ⟨holds, trivial⟩

theorem free (i : ℕ) (op : Operation) : protocol.Free i op Later :=
  fun s _ _ holds => ⟨holds, .refl s.db, .refl s.db⟩

theorem persists (i : ℕ) (op : Operation) : Persists protocol i op :=
  fun _ _ t k rely there => rely.rows t k there

/-- Writes to one table that the story has nothing to do with. -/
theorem tolerates (i : ℕ) (op : Operation) {table : TableName}
    (aside : table ∉ [TableName.orders, .deliveries, .eventsOutbox]) :
    protocol.Tolerates i op (within (fun w => w.table = table) fun _ => True) := by
  intro s ws inTable holds
  have grows := Db.grows_applyAll s.db ws
  refine ⟨told_of_same holds (fun t member => ?_) grows, grows, grows⟩
  refine Db.applyAll_other (fun w among isTable => aside ?_) s.db
  rw [← inTable w among, isTable]
  exact member

theorem tolerates_cancels (i : ℕ) (op : Operation) :
    protocol.Tolerates i op (within Cancels fun _ => True) := by
  intro s ws cancels holds
  have grows := Db.grows_applyAll s.db ws
  refine ⟨told_of_aside holds (fun t member => others_of_cancels cancels ?_)
    (same_of_cancels orderId_cancel cancels) grows, grows, grows⟩
  rintro rfl
  simp at member

section Calls

variable {i : ℕ} {op : Operation} {s s' : Sit RowOf Shared Operation Unit}

abbrev ends (s : Sit RowOf Shared Operation Unit) : Prop := Told s.db

theorem after_told {db' : Database} {Φ : Sit RowOf Shared Operation Unit → Prop} (told : Told db')
    (grows : s.db.Grows db')
    (next : ∀ s', db'.Grows s'.db → Told s'.db → s'.live i = some op → Φ s') :
    protocol.After i op s ⟨none, []⟩ db' s.side Φ :=
  ⟨(), told, grows, fun s' env => next s' env.drift.1 env.inv env.self⟩

/-- A row of a table that the story has nothing to do with. -/
theorem after_aside {w : SqlWrite} {Φ : Sit RowOf Shared Operation Unit → Prop} (holds : Told s.db)
    (aside : w.table ∉ [TableName.orders, .deliveries, .eventsOutbox])
    (next : ∀ s', (s.db.apply w).Grows s'.db → Told s'.db → s'.live i = some op → Φ s') :
    protocol.After i op s ⟨none, []⟩ (s.db.apply w) s.side Φ := by
  have grows := Db.grows_apply s.db w
  refine after_told
    (told_of_same holds (fun t member => Db.apply_other s.db fun same => aside ?_) grows) grows next
  rw [same]
  exact member

/-- A status that is written outside a transaction is of an order that is not published. -/
theorem after_silent {id : ℕ} {status : OrderStatus} {updatedAt : ℕ} {stamp : Option ℕ}
    {row : Order} (holds : Told s.db) (found : orderOf s.db id = some row)
    (allowed : ∃ seen, protocol.allow ⟨none, seen⟩ s.db
      [.update TableName.orders (RowKey.id id) (Order.withStatus status updatedAt stamp)]) :
    protocol.After i op s ⟨none, []⟩
      (s.db.apply (.update TableName.orders (RowKey.id id)
        (Order.withStatus status updatedAt stamp))) s.side ends := by
  obtain ⟨seen, silent⟩ := allowed
  have unpublished := (silent _ (List.mem_singleton.2 rfl)).2 rfl row found
  have isId : RowKey.id row.id = RowKey.id id := Table.get_key found
  rw [RowKey.id.inj isId] at unpublished
  have grows : s.db.Grows (s.db.apply
      (.update TableName.orders (RowKey.id id) (Order.withStatus status updatedAt stamp))) :=
    Db.grows_apply s.db _
  have set : SetTo id status (s.db .orders)
      (s.db.apply (.update TableName.orders (RowKey.id id)
      (Order.withStatus status updatedAt stamp)) .orders) := by
    rw [Db.apply_update_self]
    exact .withStatus updatedAt stamp _
  refine after_told (told_of_unpublished holds set unpublished ?_ ?_ grows) grows
    fun _ _ told _ => told
  · rw [Db.apply_update_ne _ _ _ (by decide)]
  · rw [Db.apply_update_ne _ _ _ (by decide)]
    exact .refl _ _

/-- An assignment never gets to set the order's status. -/
theorem mayAssign {orderId : ℕ} {seen : List (Sigma RowOf)}
    (there : (orderOf s.db orderId).isSome = true) :
    MayAssign protocol i op seen orderId ends s where
  there s' env := there_later there env.drift.1
  commits delivery assignedAt updatedAt row s' env _ _ assigning := by
    obtain ⟨began, before, f, _, allowed⟩ := assigning.allowed
    exact absurd (List.mem_singleton.2 rfl) ((allowed _ (List.mem_singleton.2 rfl)).1 delivery)
  stops s' env := env.inv

theorem mayPick {orderId : ℕ} : MayPick protocol i op orderId ends s where
  stops _ env := env.inv
  commits _ _ _ _ env _ found allowed := after_silent env.inv found allowed

theorem wp_placeOrderCall {core : Core} {customerId : ℕ} {data : CreateOrderRequest}
    (holds : Told s.db) (self : s.live i = some op) :
    protocol.wp i op (placeOrder core customerId data) (fun _ _ s' => ends s') .start s := by
  refine wp_placeOrder lawful (free i op) holds self (fun _ env => env.inv)
    fun branch order s₁ db' placing => ?_
  obtain ⟨address, branchProducts, publicId, _, _, _, _, placed⟩ := placing.placed
  refine after_told (told_of_placed placing.until'.inv placed) placed.grows fun s₂ _ _ _ =>
    ⟨?_, fun _ env => env.inv⟩
  exact fun row updatedAt stamp s₃ env _ found allowed => after_silent env.inv found allowed

theorem wp_updateOrderStatusCall {core : Core} {publicId : ℕ} {target : OrderStatus}
    {actor : RequestActor} (holds : Told s.db) :
    protocol.wp i op (OrderService.updateStatus core publicId target actor)
      (fun _ _ s' => ends s') .start s := by
  refine wp_updateOrderStatus lawful (free i op) holds
    (fun result order listed row s₁ seen' db' _ _ env₁ _ _ _ writing => ?_)
    fun _ _ _ env => env.inv
  have written := writing.written
  obtain ⟨updatedAt, stamp, orders⟩ := written.orders
  have told : Told db' := by
    refine told_of_tells env₁.inv ?_
      (there_later (Option.isSome_iff_exists.2 ⟨row, writing.found⟩) written.grows) written.tells
      ?_ written.grows
    · rw [orders]
      exact .withStatus updatedAt stamp _
    · rw [written.others _ (by decide) (by decide)]
      exact .refl _ _
  refine (after_told told written.grows fun s₂ _ told self =>
    ?_ : protocol.After i op s₁ ⟨none, []⟩ db' s₁.side _).released seen'
  refine wp_harmless lawful (free i op) (tolerates_cancels i op)
    (harmless_releaseDelivery order target fun k => ⟨k, rfl⟩) ?_ told self ?_
  · exact fun w none => absurd none List.not_mem_nil
  · intro result l s₃ inv₃ _ _
    cases result <;> exact inv₃

theorem wp_initCall {core : Core} {orderPublicId customerId : ℕ} (holds : Told s.db) :
    protocol.wp i op (PaymentService.init core orderPublicId customerId)
      (fun _ _ s' => ends s') .start s :=
  wp_init lawful (free i op) holds (fun _ env => env.inv) fun order session s₁ opening =>
    after_aside opening.until'.inv (by simp [Write.table]) fun _ _ told _ => told

theorem processes (payload : WebhookPayload) : Processes protocol i op payload ends s where
  captures order session row s₀ s₁ s₂ db' _ _ paying captured := by
    obtain ⟨updatedAt, stamp, orders⟩ := captured.orders
    have there : (orderOf s₀.db order.id).isSome = true :=
      Option.isSome_iff_exists.2 ⟨order, paying.readOrder⟩
    have grows := (paying.until₁.drift.1.trans paying.until₂.drift.1).trans captured.grows
    refine after_told (told_of_tells paying.until₂.inv ?_ (there_later there grows) captured.tells
      ?_ captured.grows) captured.grows
      fun _ _ told _ => told
    · rw [orders]
      exact .withStatus updatedAt stamp _
    · rw [captured.others _ (by decide)]
      exact .refl _ _
  refuses order session row s₀ s₁ s₂ db' _ paying refused := by
    refine after_told (told_of_same paying.until₂.inv (fun t member => refused.others t ?_)
      refused.grows) refused.grows fun _ _ told _ => told
    revert member
    cases t <;> decide
  confirms refund s₁ s₂ db' confirming confirmed := by
    refine after_told (told_of_same confirming.until₂.inv (fun t member => confirmed.others t ?_)
      confirmed.grows) confirmed.grows
      fun _ _ told _ => told
    revert member
    cases t <;> decide
  stops s' env := env.inv

theorem maySettle {charge refund : Transaction}
    (there : (transactionOf s.db refund.id).isSome = true) :
    MaySettle protocol i op charge refund ends s where
  there s' env := env.drift.1.rows _ _ there
  refers _ _ _ s' env _ := after_aside env.inv (by simp [Write.table]) fun _ _ told _ => told
  fails _ _ s' env _ := after_aside env.inv (by simp [Write.table]) fun _ _ told _ => told
  succeeds _ _ s' env _ := by
    refine after_aside env.inv (by simp [Write.table]) fun s'' _ _ _ =>
      ⟨?_, fun s₃ env₃ => env₃.inv⟩
    exact fun _ _ s₃ env₃ _ => after_aside env₃.inv (by simp [Write.table]) fun _ _ told _ => told
  stops s' env := env.inv

theorem wp_refundCall {core : Core} {paymentId : ℕ} {amount : Option ℤ} {reason : String}
    (holds : Told s.db) :
    protocol.wp i op (PaymentService.refund core paymentId amount reason)
      (fun _ _ s' => ends s') .start s := by
  refine wp_refundRequest lawful (free i op) holds (fun _ env => env.inv)
    fun charge refund s₁ _ refunding => ?_
  refine after_aside refunding.until'.inv (by simp [Write.table]) fun s₂ grows _ _ =>
    maySettle (grows.rows _ _ ?_)
  rw [Db.apply_insert_self]
  exact Option.isSome_iff_exists.2 ⟨refund, Table.get_insert_self refunding.free⟩

theorem wp_recordPayoutCall {restaurantId : ℕ} {amount : ℤ} {currency idempotencyKey : String} :
    protocol.wp i op (FinanceService.recordPayout restaurantId amount currency idempotencyKey)
      (fun _ _ s' => ends s') .start s := by
  refine wp_recordPayout lawful (free i op) (fun result s' seen' db' env _ paidOut _ => ?_)
    fun _ _ s' env => env.inv
  have kept : Told db' ∧ s'.db.Grows db' := by
    cases paidOut with
    | again opened others grows =>
      exact ⟨told_of_same env.inv
        (fun t member => others t (by revert member; cases t <;> decide)) grows, grows⟩
    | paid locked id now covered posted free transactions others grows =>
      refine ⟨told_of_same env.inv (fun t member => others t ?_ ?_) grows, grows⟩
      · revert member
        cases t <;> decide
      · revert member
        cases t <;> decide
  exact (after_told kept.1 kept.2 fun _ _ told _ =>
    told : protocol.After i op s' ⟨none, []⟩ db' s'.side _).released seen'

theorem wp_assignCall {env : Config} {core : Core} {orderPublicId : ℕ} {agentId : Option ℕ}
    (holds : Told s.db) :
    protocol.wp i op (assign env core orderPublicId agentId) (fun _ _ s' => ends s') .start s :=
  wp_assign lawful (free i op) holds (fun _ env => env.inv) fun order _ read _ =>
    mayAssign (Option.isSome_iff_exists.2 ⟨order, read⟩)

theorem wp_tryAutoAssignCall {env : Config} {core : Core} {orderId : ℕ} (holds : Told s.db) :
    protocol.wp i op (tryAutoAssign env core orderId) (fun _ _ s' => ends s') .start s :=
  wp_tryAutoAssign lawful (free i op) holds (fun _ env => env.inv) fun order _ read _ =>
    mayAssign (Option.isSome_iff_exists.2 ⟨order, read⟩)

/-- A delivery's status. -/
theorem told_of_deliveryStatus {db : Database} (told : Told db) (id : ℕ) (status : DeliveryStatus)
    (stamp : Option ℕ) :
    Told (db.apply (.update TableName.deliveries (RowKey.id id)
      (Delivery.withStatus status stamp))) := by
  refine told_of_aside told (fun t member => Db.apply_update_ne db _ _ ?_) ?_
    (Db.grows_apply db _)
  · rintro rfl
    simp at member
  · rw [Db.apply_update_self]
    exact .modify (Ledger.orderId_withStatus status stamp) _ _

theorem wp_reassignCall {env : Config} {core : Core} {orderPublicId : ℕ} {seen : List (Sigma RowOf)}
    (holds : Told s.db) :
    protocol.wp i op (reassign env core orderPublicId) (fun _ _ s' => ends s') ⟨none, seen⟩ s := by
  refine wp_reassign lawful (free i op) (persists i op) holds (fun _ env => env.inv) ?_
  intro order active row stamp s₀ s₁ _ _ until₀ _ read ofOrder _ updating
  have there := there_later (until₀.inv.deliveries active (Table.get_mem read)) updating.env.drift.1
  have grows := Db.grows_apply s₁.db
    (.update TableName.deliveries (RowKey.id active.id) (Delivery.withStatus .reassigned stamp))
  refine after_told (told_of_deliveryStatus updating.env.inv active.id .reassigned stamp) grows
    fun s₂ later _ _ seen => ?_
  rw [← ofOrder]
  exact mayAssign (there_later there (grows.trans later))

theorem wp_updateStatusCall {env : Config} {core : Core} {deliveryId actorUserId : ℕ}
    {target : DeliveryStatus} (holds : Told s.db) :
    protocol.wp i op (updateStatus env core deliveryId actorUserId target)
      (fun _ _ s' => ends s') .start s := by
  refine wp_deliveryUpdateStatus lawful (free i op) (persists i op) holds
    (fun _ env => env.inv) ?_ ?_
  · intro delivery order branch row s₀ s₁ db' _ _ _ _ _ until₁ _ settling
    have settled := settling.settled
    obtain ⟨updatedAt, updatedAt', stamp, orders⟩ := settled.orders
    obtain ⟨stamp', deliveries⟩ := settled.deliveries
    -- The settlement tells of the status that it sets.
    have sameKey : RowKey.id order.id = RowKey.id delivery.orderId := Table.get_key settling.read
    have there : (orderOf s₀.db order.id).isSome = true := by
      rw [orderOf, sameKey]
      exact Option.isSome_iff_exists.2 ⟨order, settling.read⟩
    refine after_told (told_of_tells until₁.inv ?_
      (there_later there (until₁.drift.1.trans settled.grows)) settled.tells ?_ settled.grows)
      settled.grows fun _ _ told _ => told
    · refine SetTo.after (f := Order.withCommission (commissionOf order branch) updatedAt) ?_
      rw [orders]
      exact .withStatus updatedAt' stamp _
    · have kept : ∀ row : Delivery, (Delivery.withEarning (agentEarningOf env branch) row).orderId =
          row.orderId := fun _ => rfl
      rw [deliveries]
      exact (Table.Same.modify (Ledger.orderId_withStatus _ _) _ _).trans (.modify kept _ _)
  · intro delivery row stamp s₁ _ _ read _ _ _ updating
    have there := there_later (holds.deliveries delivery (Table.get_mem read)) updating.env.drift.1
    have grows := Db.grows_apply s₁.db
      (.update TableName.deliveries (RowKey.id delivery.id) (Delivery.withStatus target stamp))
    refine after_told (told_of_deliveryStatus updating.env.inv delivery.id target stamp) grows
      fun s₂ later _ _ => ?_
    cases target with
    | picked => exact mayPick
    | rejected =>
      have there₂ := there_later there (grows.trans later)
      exact ⟨fun s₃ seen env₃ _ => mayAssign (there_later there₂ env₃.drift.1),
        fun s₃ env₃ => env₃.inv⟩
    | _ => exact fun s' env => env.inv

theorem wp_presence {β : Type} {prog : Service β} (harmless : prog.Harmless presenceOnly)
    (holds : Told s.db) (self : s.live i = some op) :
    protocol.wp i op prog (fun _ _ s' => ends s') .start s :=
  wp_harmless lawful (free i op) (tolerates i op (by decide)) harmless
    (fun w none => absurd none List.not_mem_nil) holds self
    fun _ _ _ inv _ _ => inv

end Calls

theorem verified (env : Config) : protocol.Verified (code env) := by
  intro i op s s' holds _ _ _ started
  have holds := started.inv
  refine wp_mono (fun _ _ s'' (told : ends s'') => ⟨told, trivial⟩) ?_
  cases op with
  | placeOrder core customerId data => exact wp_returning (wp_placeOrderCall holds started.self)
  | updateOrderStatus core publicId target actor => exact wp_map (wp_updateOrderStatusCall holds)
  | initPayment core orderPublicId customerId => exact wp_map (wp_initCall holds)
  | refund core paymentId amount reason => exact wp_map (wp_refundCall holds)
  | webhook payload signature signatureValid =>
    exact wp_returning (wp_process lawful (free i _) (persists i _)
      (tolerates i _ (by decide)) holds started.self (processes payload))
  | assign core orderPublicId agentId => exact wp_returning (wp_assignCall holds)
  | tryAutoAssign core orderId => exact wp_returning (wp_tryAutoAssignCall holds)
  | reassign core orderPublicId => exact wp_returning (wp_reassignCall holds)
  | updateDeliveryStatus core deliveryId actorUserId target =>
    exact wp_map (wp_updateStatusCall holds)
  | online agentId point =>
    exact wp_returning (wp_presence (harmless_online agentId point) holds started.self)
  | offline core agentId =>
    exact wp_returning (wp_offline lawful (free i _) (tolerates i _ (by decide)) holds started.self
      (fun _ inv _ => inv)
      fun _ _ _ inv _ => wp_reassignCall inv)
  | ping agentId point =>
    exact wp_returning (wp_presence (harmless_ping agentId point) holds started.self)
  | recordPayout restaurantId amount currency idempotencyKey => exact wp_map wp_recordPayoutCall
  | sleep duration => exact wp_returning (wp_presence (harmless_sleep duration) holds started.self)

/-! ## Runs -/

/-- Any calls, with any faults and crashes, in which no status is written in silence. -/
def AnnouncedRuns (p : Region) (e : Event Operation) : Prop := Abides NoSilentChange p e

theorem admissible (p : Region) (e : Event Operation) (announced : AnnouncedRuns p e) :
    protocol.Admissible p e := by
  cases e with
  | spawn op => exact ⟨trivial, fun _ _ _ => ⟨trivial, trivial⟩⟩
  | step i choice =>
    exact ⟨fun _ _ _ _ _ _ _ => trivial,
      fun call found => ⟨fun _ => trivial, fun out acts => announced call out found acts⟩⟩
  | crash i => exact fun _ _ => trivial

theorem told_of_reach {env : Config} {db : Database} {x : Shared} {p : Region} (told : Told db)
    (reached : Pool.Reach (code env) AnnouncedRuns (Pool.quiet db x) p) : Told p.db := by
  obtain ⟨ghost, sound⟩ :=
    sound_of_reach lawful (verified env) admissible (sound_quiet () told) reached
  exact sound.inv

/-- In every state of all runs from a state, the outbox tells the whole story. -/
def AlwaysTold (env : Config) (allowed : Region → Event Operation → Prop) (start : Region) : Prop :=
  ∀ p, Pool.Reach (code env) allowed start p → WholeStory p.db

theorem announced_runs_tell_the_whole_story (env : Config) (db : Database) (x : Shared)
    (told : Told db) : AlwaysTold env AnnouncedRuns (Pool.quiet db x) :=
  fun _ reached => (told_of_reach told reached).whole

/-- Orders are written only in a transaction that writes no delivery. -/
def InOrderTransactions (l : Local RowOf RowKey) (_ : Database) (ws : List SqlWrite) : Prop :=
  ∀ w ∈ ws, w.table = .orders → l.txn.isSome = true ∧ ∀ w' ∈ l.writes, w'.table ≠ .deliveries

instance (l : Local RowOf RowKey) (db : Database) (ws : List SqlWrite) :
    Decidable (InOrderTransactions l db ws) :=
  inferInstanceAs (Decidable (∀ w ∈ ws, w.table = .orders → l.txn.isSome = true ∧ ∀ w' ∈ l.writes,
    w'.table ≠ .deliveries))

theorem announcedRuns_of_transactions {p : Region} {e : Event Operation}
    (checked : Abides InOrderTransactions p e) : AnnouncedRuns p e := by
  cases e with
  | step i choice =>
    intro call out found acts w member
    have transactions := checked call out found acts w member
    split
    next k f =>
      obtain ⟨isOpen, none⟩ := transactions rfl
      exact ⟨fun delivery among => none _ among rfl,
        fun noTransaction => by simp [noTransaction] at isOpen⟩
    next => trivial
  | spawn op => trivial
  | crash i => trivial

/-- A cash order that the restaurant makes ready. -/
def madeReady : List (Event Operation) :=
  .spawn (.placeOrder Sample.core 7 ⟨6, 8, .cod, [⟨1, 1⟩]⟩) :: List.replicate 13 (Sample.act 0) ++
  .spawn (.updateOrderStatus Sample.core 500 .accepted Sample.owner) ::
    List.replicate 9 (Sample.act 1) ++
  .spawn (.updateOrderStatus Sample.core 500 .preparing Sample.owner) ::
    List.replicate 8 (Sample.act 2) ++
  .spawn (.updateOrderStatus Sample.core 500 .ready Sample.owner) :: List.replicate 9 (Sample.act 3)

theorem order_made_ready_is_told :
    ∃ p, Pool.Reach (code Sample.env) AnnouncedRuns (Pool.quiet Database.empty Sample.shared) p ∧
      statusOf 10 p = some .ready ∧ lastTold 10 (story (p.db .eventsOutbox)) = some .ready ∧
      WholeStory p.db := by
  have played :
      (Pool.play (code Sample.env) (fun p e => decide (Abides InOrderTransactions p e)) madeReady
      (Pool.quiet Database.empty Sample.shared)).map (fun p =>
        (statusOf 10 p, lastTold 10 (story (p.db .eventsOutbox)))) =
      some (some .ready, some .ready) := by decide +kernel
  obtain ⟨p, isRun, isEnd⟩ := Option.map_eq_some_iff.1 played
  simp only [Prod.mk.injEq] at isEnd
  have reached : Pool.Reach (code Sample.env) AnnouncedRuns
      (Pool.quiet Database.empty Sample.shared) p :=
    Pool.reach_of_play
      (fun _ _ checked => announcedRuns_of_transactions (of_decide_eq_true checked)) isRun
  exact ⟨p, reached, isEnd.1, isEnd.2, announced_runs_tell_the_whole_story Sample.env Database.empty
    Sample.shared told_empty p reached⟩

/-! ## Statuses that are not told -/

/-- All operations, one after another. -/
abbrev Anyhow : Region → Event Operation → Prop := OneByOne fun _ _ _ => True

/-- The core service has run out of the product. -/
def soldOut : Core :=
  { Sample.core with reserveStock := fun _ _ => .error (Err.outOfStockError []) }

/-- A cash order, for which the reservation fails. -/
def placedInVain : List (Event Operation) :=
  .spawn (.placeOrder soldOut 7 ⟨6, 8, .cod, [⟨1, 1⟩]⟩) :: List.replicate 16 (Sample.act 0)

def givenToAgent : List (Event Operation) :=
  .spawn (.assign Sample.core 500 (some 2)) :: List.replicate 11 (Sample.act 4)

/-- The cancellation after a refused reservation is not told, nor is an assignment, which the
story of the order has been told up to. -/
theorem cancellation_and_assignment_are_not_told :
    ¬ AlwaysTold Sample.env Anyhow (Pool.quiet Database.empty Sample.shared) ∧
    ∃ p, Pool.Reach (code Sample.env) Anyhow (Pool.quiet Database.empty Sample.shared) p ∧
    WholeStory p.db ∧
      statusOf 10 p = some .ready ∧ ¬ AlwaysTold Sample.env Anyhow p := by
  refine ⟨fun always => ?_, ?_⟩
  · have ends : (Pool.play (code Sample.env) (fun p e => decide (Anyhow p e)) placedInVain
        (Pool.quiet Database.empty Sample.shared)).map
        (fun p => decide (WholeStory p.db)) = some false := by decide +kernel
    obtain ⟨p, played, isFalse⟩ := Option.map_eq_some_iff.1 ends
    exact of_decide_eq_false isFalse
      (always p (Pool.reach_of_play (fun _ _ => of_decide_eq_true) played))
  · have ends : ((Pool.play (code Sample.env) (fun p e => decide (Anyhow p e)) madeReady
        (Pool.quiet Database.empty Sample.shared)).bind
        fun p => (Pool.play (code Sample.env) (fun p e => decide (Anyhow p e)) givenToAgent p).map
          fun p' => (decide (WholeStory p.db), statusOf 10 p, decide (WholeStory p'.db))) =
        some (true, some .ready, false) := by decide +kernel
    obtain ⟨p, played, rest⟩ := Option.bind_eq_some_iff.1 ends
    obtain ⟨p', played', isEnd⟩ := Option.map_eq_some_iff.1 rest
    simp only [Prod.mk.injEq] at isEnd
    refine ⟨p, Pool.reach_of_play (fun _ _ => of_decide_eq_true) played, of_decide_eq_true isEnd.1,
      isEnd.2.1, fun always => ?_⟩
    exact of_decide_eq_false isEnd.2.2
      (always p' (Pool.reach_of_play (fun _ _ => of_decide_eq_true) played'))

end SwiftBite.Verified.ToldStatuses
