import Mathlib.Algebra.Order.BigOperators.Group.List
import SwiftBite.Verified.Funding

/-! # The sums of an order

The amounts of an order are computed once, at its placement, and copied from there: to the
payment sessions, from these to the charges, and to the collection of a cash order; the
commission is a part of the subtotal.  No later write changes the amount of a row that is
there, so the sums add up in every state of every run.
-/

set_option autoImplicit false

namespace SwiftBite.Verified.MoneySums

open Store Protocol Verified Statement OrderService DeliveryService OneSettlement

open SwiftBite.Verified.Funding (sessionTerms transactionTerms)

/-! ## The sums of a placement -/

section Items

variable {branchProducts : List CoreBranchProduct}

theorem sum_itemInputs (branchProducts : List CoreBranchProduct) (items : List OrderItemInput) :
    ((itemInputs branchProducts items).map BulkInsertItemInput.lineTotal).sum =
      subtotalOf branchProducts items := by
  induction items with
  | nil => rfl
  | cons item items inductionHypothesis =>
    unfold itemInputs subtotalOf at inductionHypothesis ⊢
    cases found : findProduct branchProducts item.productId with
    | none => simp [found, priceOf, inductionHypothesis]
    | some product => simp [found, priceOf, inductionHypothesis]

theorem line_of_itemInputs {items : List OrderItemInput} {line : BulkInsertItemInput}
    (member : line ∈ itemInputs branchProducts items) :
    line.lineTotal = line.quantity * line.unitPriceSnapshot := by
  obtain ⟨item, _, isLine⟩ := List.mem_filterMap.1 member
  obtain ⟨product, _, rfl⟩ := Option.map_eq_some_iff.1 isLine
  exact mul_comm _ _

theorem subtotal_nonneg (prices : ∀ product ∈ branchProducts, 0 ≤ product.price)
    (items : List OrderItemInput) : 0 ≤ subtotalOf branchProducts items := by
  refine List.sum_nonneg fun amount member => ?_
  obtain ⟨item, _, rfl⟩ := List.mem_map.1 member
  refine mul_nonneg ?_ (Int.natCast_nonneg _)
  unfold priceOf
  cases found : findProduct branchProducts item.productId with
  | none => exact le_rfl
  | some product => exact prices product (List.mem_of_find?_eq_some found)

variable {data : CreateOrderRequest} {orderId now : ℕ} {ids : List ℕ}

theorem mem_placedItems {row : OrderItem}
    (member : row ∈ placedItems branchProducts data orderId ids now) :
    row.orderId = orderId ∧ row.lineTotal = row.quantity * row.unitPriceSnapshot := by
  rw [placedItems, ← List.map_uncurry_zip_eq_zipWith] at member
  obtain ⟨⟨line, id⟩, isPair, rfl⟩ := List.mem_map.1 member
  exact ⟨rfl, line_of_itemInputs (List.of_mem_zip isPair).1⟩

theorem sum_placedItems (isLength : ids.length = (itemInputs branchProducts data.items).length) :
    ((placedItems branchProducts data orderId ids now).map OrderItem.lineTotal).sum =
      subtotalOf branchProducts data.items := by
  rw [← sum_itemInputs]
  congr 1
  refine List.ext_getElem (by simp [placedItems, isLength]) fun i bound bound' => ?_
  simp [placedItems, BulkInsertItemInput.row]

/-- Rows that may be inserted together all are. -/
theorem rows_of_insertable {rows : List OrderItem} {table : Table OrderItem}
    (isInsertable : insertable table rows = true) :
    (rows.foldl Table.insert table).rows = table.rows ++ rows := by
  induction rows generalizing table with
  | nil => simp
  | cons row rows inductionHypothesis =>
    simp only [insertable, Bool.and_eq_true, Bool.not_eq_true'] at isInsertable
    rw [List.foldl_cons, inductionHypothesis isInsertable.2, Table.rows_insert isInsertable.1,
      List.append_assoc, List.singleton_append]

end Items

theorem commission_nonneg (order : Order) (branch : CoreBranch) (subtotal : 0 ≤ order.subtotal)
    (rate : 0 ≤ branch.commissionBps) : 0 ≤ commissionOf order branch := by
  have scaled : (0 : ℚ) ≤ (order.subtotal : ℚ) * branch.commissionBps / 10000 :=
    div_nonneg (mul_nonneg (by exact_mod_cast subtotal) rate) (by norm_num)
  exact Rat.le_floor_iff.2 (by exact_mod_cast scaled)

/-! ## The sums of an order -/

/-- The commission of an order of a rated branch is a part of the subtotal. -/
def FitsOrder (rated : ℕ → Prop) (order : Order) : TransactionType × Option ℕ × ℤ × String → Prop
  | (.charge, _, amount, currency) | (.codCollection, _, amount, currency) =>
    amount = order.total ∧ currency = order.currency
  | (.commission, _, amount, currency) =>
    rated order.branchId → 0 ≤ amount ∧ amount ≤ order.subtotal ∧ currency = order.currency
  | _ => True

/-- The amounts of an order add up, and its payments and its commission are made of them. -/
structure AddsUp (rated : ℕ → Prop) (db : Database) (order : Order) : Prop where
  subtotal : order.subtotal =
    (((db .orderItems).rows.filter fun item => item.orderId = order.id).map OrderItem.lineTotal).sum
  lines : ∀ item ∈ (db .orderItems).rows, item.orderId = order.id →
    item.lineTotal = item.quantity * item.unitPriceSnapshot
  total : order.total = order.subtotal + order.deliveryFee + order.serviceFee
  sessions : ∀ session ∈ (db .paymentSessions).rows, session.orderId = order.id →
    session.amount = order.total ∧ session.currency = order.currency
  transactions : ∀ tx ∈ (db .transactions).rows, tx.orderId = some order.id →
    FitsOrder rated order (transactionTerms tx)

/-! ## The invariant -/

def orderMoney (order : Order) : ℕ × ℤ × ℤ × ℤ × ℤ × String :=
  (order.branchId, order.subtotal, order.deliveryFee, order.serviceFee, order.total, order.currency)

def SessionFits (db : Database) (terms : ℕ × ℤ × String) : Prop :=
  ∃ order, orderOf db terms.1 = some order ∧ terms.2 = (order.total, order.currency)

def TransactionFits (rated : ℕ → Prop) (db : Database)
    (terms : TransactionType × Option ℕ × ℤ × String) : Prop :=
  ∀ orderId, terms.2.1 = some orderId →
  ∃ order, orderOf db orderId = some order ∧ FitsOrder rated order terms

structure OrderSums (db : Database) (order : Order) : Prop where
  subtotal : order.subtotal =
    (((db .orderItems).rows.filter fun item => item.orderId = order.id).map OrderItem.lineTotal).sum
  total : order.total = order.subtotal + order.deliveryFee + order.serviceFee
  nonneg : 0 ≤ order.subtotal

structure Balanced (rated : ℕ → Prop) (db : Database) : Prop where
  orders : ∀ order ∈ (db .orders).rows, OrderSums db order
  items : ∀ item ∈ (db .orderItems).rows, (orderOf db item.orderId).isSome = true ∧
    item.lineTotal = item.quantity * item.unitPriceSnapshot
  deliveries : ∀ delivery ∈ (db .deliveries).rows, (orderOf db delivery.orderId).isSome = true
  sessions : ∀ session ∈ (db .paymentSessions).rows, SessionFits db (sessionTerms session)
  transactions : ∀ tx ∈ (db .transactions).rows, TransactionFits rated db (transactionTerms tx)

theorem balanced_empty (rated : ℕ → Prop) : Balanced rated Database.empty := by
  refine ⟨?_, ?_, ?_, ?_, ?_⟩ <;> exact fun _ none => absurd none List.not_mem_nil

theorem addsUp_of_balanced {rated : ℕ → Prop} {db : Database} {order : Order}
    (balanced : Balanced rated db) (member : order ∈ (db .orders).rows) :
    AddsUp rated db order := by
  have found : orderOf db order.id = some order := Table.get_of_mem member
  have sums := balanced.orders order member
  refine ⟨sums.subtotal, fun item among _ => (balanced.items item among).2, sums.total,
    fun session among ofOrder => ?_,
    fun tx among ofOrder => ?_⟩
  · obtain ⟨row, foundRow, terms⟩ := balanced.sessions session among
    have foundOrder : orderOf db order.id = some row := by
      simpa only [sessionTerms, ofOrder] using foundRow
    obtain rfl : order = row := Option.some.inj (found.symm.trans foundOrder)
    simpa only [sessionTerms, Prod.mk.injEq] using terms
  · obtain ⟨row, foundRow, fits⟩ := balanced.transactions tx among order.id ofOrder
    obtain rfl : order = row := Option.some.inj (found.symm.trans foundRow)
    exact fits

/-! ## What a step may change -/

structure Moves (db db' : Database) : Prop where
  orders : Table.Keeps orderMoney (db .orders) (db' .orders)
  grows : db.Grows db'

theorem Moves.refl (db : Database) : Moves db db := ⟨.refl _ _, .refl _⟩

theorem Moves.trans {db db' db'' : Database} (first : Moves db db')
    (second : Moves db' db'') : Moves db db'' :=
  ⟨first.orders.trans second.orders, first.grows.trans second.grows⟩

section Later

variable {rated : ℕ → Prop} {db db' : Database}

theorem there_later {orderId : ℕ} (there : (orderOf db orderId).isSome = true)
    (moves : Moves db db') : (orderOf db' orderId).isSome = true :=
  moves.grows.rows _ _ there

theorem FitsOrder.congr {order order' : Order} {terms : TransactionType × Option ℕ × ℤ × String}
    (fits : FitsOrder rated order terms) (same : orderMoney order' = orderMoney order) :
    FitsOrder rated order' terms := by
  simp only [orderMoney, Prod.mk.injEq] at same
  obtain ⟨sameBranch, sameSubtotal, _, _, sameTotal, sameCurrency⟩ := same
  obtain ⟨type, of, amount, currency⟩ := terms
  cases type <;> simp only [FitsOrder, sameBranch, sameSubtotal, sameTotal,
    sameCurrency] at fits ⊢ <;> exact fits

theorem SessionFits.later {terms : ℕ × ℤ × String} (fits : SessionFits db terms)
    (moves : Moves db db') : SessionFits db' terms := by
  obtain ⟨order, found, isTerms⟩ := fits
  obtain ⟨order', found', same⟩ := moves.orders _ order found
  simp only [orderMoney, Prod.mk.injEq] at same
  exact ⟨order', found', by rw [isTerms, same.2.2.2.2.1, same.2.2.2.2.2]⟩

theorem TransactionFits.later {terms : TransactionType × Option ℕ × ℤ × String}
    (fits : TransactionFits rated db terms) (moves : Moves db db') :
    TransactionFits rated db' terms := by
  intro orderId ofOrder
  obtain ⟨order, found, isFit⟩ := fits orderId ofOrder
  obtain ⟨order', found', same⟩ := moves.orders _ order found
  exact ⟨order', found', isFit.congr same⟩

end Later

/-! ## Steps -/

/-- What every step does, except for a placement. -/
structure Step (rated : ℕ → Prop) (db db' : Database) : Prop where
  orders : Table.Same orderMoney (db .orders) (db' .orders)
  items : db' .orderItems = db .orderItems
  deliveries : Table.Adds Delivery.orderId (fun orderId => (orderOf db orderId).isSome = true)
    (db .deliveries) (db' .deliveries)
  sessions : Table.Adds sessionTerms (SessionFits db) (db .paymentSessions) (db' .paymentSessions)
  transactions : Table.Adds transactionTerms (TransactionFits rated db) (db .transactions)
    (db' .transactions)
  grows : db.Grows db'

theorem Step.moves {rated : ℕ → Prop} {db db' : Database}
    (step : Step rated db db') : Moves db db' :=
  ⟨step.orders.keeps, step.grows⟩

theorem Step.kept {rated : ℕ → Prop} {db db' : Database} (step : Step rated db db')
    (balanced : Balanced rated db) : Balanced rated db' ∧ Moves db db' := by
  have moves := step.moves
  refine ⟨⟨fun order' member => ?_, fun item member => ?_, fun delivery' member => ?_,
    fun session' member => ?_,
    fun tx' member => ?_⟩, moves⟩
  · have same := step.orders (RowKey.id order'.id)
    rw [show (db' .orders).get (RowKey.id order'.id) =
      some order' from Table.get_of_mem member] at same
    obtain ⟨order, found, sameMoney⟩ := Option.map_eq_some_iff.1 same.symm
    have sameKey : RowKey.id order.id = RowKey.id order'.id := Table.get_key found
    have sums := balanced.orders order (Table.get_mem found)
    simp only [orderMoney, Prod.mk.injEq] at sameMoney
    obtain ⟨_, sameSubtotal, sameDelivery, sameService, sameTotal, _⟩ := sameMoney
    refine ⟨?_, ?_, ?_⟩
    · rw [step.items, ← sameSubtotal, ← RowKey.id.inj sameKey]
      exact sums.subtotal
    · rw [← sameSubtotal, ← sameDelivery, ← sameService, ← sameTotal]
      exact sums.total
    · rw [← sameSubtotal]
      exact sums.nonneg
  · rw [step.items] at member
    exact ⟨there_later (balanced.items item member).1 moves, (balanced.items item member).2⟩
  · refine there_later ?_ moves
    rcases step.deliveries.origin _ delivery' (Table.get_of_mem member)
      with ⟨delivery, found, same⟩ | isNew
    · rw [← same]
      exact balanced.deliveries delivery (Table.get_mem found)
    · exact isNew
  · refine SessionFits.later ?_ moves
    rcases step.sessions.origin _ session' (Table.get_of_mem member)
      with ⟨session, found, same⟩ | isNew
    · rw [← same]
      exact balanced.sessions session (Table.get_mem found)
    · exact isNew
  · refine TransactionFits.later ?_ moves
    rcases step.transactions.origin _ tx' (Table.get_of_mem member) with ⟨tx, found, same⟩ | isNew
    · rw [← same]
      exact balanced.transactions tx (Table.get_mem found)
    · exact isNew

section

variable {rated : ℕ → Prop} {db db' : Database}

/-- The orders keep their money, and the tables with the payments stay as they are. -/
theorem kept_of_orders (balanced : Balanced rated db)
    (orders : Table.Same orderMoney (db .orders) (db' .orders))
    (deliveries : Table.Adds Delivery.orderId (fun orderId => (orderOf db orderId).isSome = true)
      (db .deliveries) (db' .deliveries))
    (others : ∀ t, t ∈ [TableName.orderItems, .paymentSessions, .transactions] → db' t = db t)
    (grows : db.Grows db') : Balanced rated db' ∧ Moves db db' := by
  have step : Step rated db db' := by
    refine ⟨orders, others _ (by decide), deliveries, ?_, ?_, grows⟩
    · rw [others _ (by decide)]
      exact .refl _ _ _
    · rw [others _ (by decide)]
      exact .refl _ _ _
  exact step.kept balanced

/-- Payments are added that fit their orders. -/
theorem kept_of_payments (balanced : Balanced rated db)
    (sessions : Table.Adds sessionTerms (SessionFits db) (db .paymentSessions)
      (db' .paymentSessions))
    (transactions : Table.Adds transactionTerms (TransactionFits rated db) (db .transactions)
      (db' .transactions))
    (others : ∀ t, t ∈ [TableName.orders, .orderItems, .deliveries] → db' t = db t)
    (grows : db.Grows db') : Balanced rated db' ∧ Moves db db' := by
  have step : Step rated db db' := by
    refine ⟨?_, others _ (by decide), ?_, sessions, transactions, grows⟩
    · rw [others _ (by decide)]
      exact .refl _ _
    · rw [others _ (by decide)]
      exact .refl _ _ _
  exact step.kept balanced

theorem kept_of_aside (balanced : Balanced rated db)
    (others : ∀ t, t ∈
      [TableName.orders, .orderItems, .deliveries, .paymentSessions, .transactions] → db' t = db t)
    (grows : db.Grows db') : Balanced rated db' ∧ Moves db db' := by
  refine kept_of_orders balanced ?_ ?_
    (fun t member => others t (by revert member; cases t <;> decide)) grows
  · rw [others _ (by decide)]
    exact .refl _ _
  · rw [others _ (by decide)]
    exact .refl _ _ _

theorem money_withStatus (status : OrderStatus) (updatedAt : ℕ) (stamp : Option ℕ) (order : Order) :
    orderMoney (Order.withStatus status updatedAt stamp order) = orderMoney order := by
  cases status <;> rfl

theorem kept_of_status {id : ℕ} {status : OrderStatus} {updatedAt : ℕ} {stamp : Option ℕ}
    (balanced : Balanced rated db)
    (orders : db' .orders =
      (db .orders).modify (RowKey.id id) (Order.withStatus status updatedAt stamp))
    (others : ∀ t, t ∈ [TableName.orderItems, .deliveries, .paymentSessions, .transactions] →
      db' t = db t) (grows : db.Grows db') : Balanced rated db' ∧ Moves db db' := by
  refine kept_of_orders balanced ?_ ?_
    (fun t member => others t (by revert member; cases t <;> decide)) grows
  · rw [orders]
    exact .modify (money_withStatus status updatedAt stamp) _ _
  · rw [others _ (by decide)]
    exact .refl _ _ _

/-- An order is added with its items. -/
theorem kept_of_placed {branch : CoreBranch} {address : CoreCustomerAddress}
    {branchProducts : List CoreBranchProduct} {customerId publicId : ℕ} {data : CreateOrderRequest}
    {order : Order} (balanced : Balanced rated db)
    (prices : ∀ product ∈ branchProducts, 0 ≤ product.price)
    (placed : Placed branch address branchProducts customerId publicId data order db db') :
    Balanced rated db' ∧ Moves db db' := by
  obtain ⟨ids, now, isLength, isInsertable, items⟩ := placed.items
  have isItems : (db' .orderItems).rows =
      (db .orderItems).rows ++ placedItems branchProducts data order.id ids now := by
    rw [items, rows_of_insertable isInsertable]
  have moves : Moves db db' := ⟨by rw [placed.orders]; exact .insert _ _ _, placed.grows⟩
  have found : orderOf db' order.id = some order := by
    rw [orderOf, placed.orders]
    exact Table.get_insert_self placed.free
  have absent : orderOf db order.id = none := Table.get_eq_none_of_free placed.free
  refine ⟨⟨fun other member => ?_, fun item member => ?_, fun delivery member => ?_,
    fun session member => ?_, fun tx member => ?_⟩,
    moves⟩
  · rw [placed.orders] at member
    rcases Table.mem_insert member with old | rfl
    · -- None of the new items is of an order that was there.
      have sums := balanced.orders other old
      have notNew : ((placedItems branchProducts data order.id ids now).filter fun item =>
          item.orderId = other.id) = [] := by
        refine List.filter_eq_nil_iff.2 fun item among => ?_
        simp only [decide_eq_true_eq, (mem_placedItems among).1]
        intro same
        have there : orderOf db other.id = some other := Table.get_of_mem old
        rw [← same, absent] at there
        cases there
      refine ⟨?_, sums.total, sums.nonneg⟩
      rw [isItems, List.filter_append, notNew, List.append_nil]
      exact sums.subtotal
    · -- No item was there for the new order, and its own are all new.
      have notOld : ((db .orderItems).rows.filter fun item => item.orderId = other.id) = [] := by
        refine List.filter_eq_nil_iff.2 fun item among => ?_
        simp only [decide_eq_true_eq]
        intro same
        have there := (balanced.items item among).1
        rw [same, absent] at there
        cases there
      have allNew : ((placedItems branchProducts data other.id ids now).filter fun item =>
          item.orderId = other.id) =
          placedItems branchProducts data other.id ids now := by
        refine List.filter_eq_self.2 fun item among => ?_
        simp only [decide_eq_true_eq, (mem_placedItems among).1]
      obtain ⟨id, placedAt, isRow⟩ := placed.row
      refine ⟨?_, ?_, ?_⟩
      · rw [isItems, List.filter_append, notOld, List.nil_append, allNew,
          sum_placedItems isLength, isRow]
        rfl
      · rw [isRow]
        rfl
      · rw [isRow]
        exact subtotal_nonneg prices data.items
  · rw [isItems] at member
    rcases List.mem_append.1 member with old | new
    · exact ⟨there_later (balanced.items item old).1 moves, (balanced.items item old).2⟩
    · obtain ⟨ofOrder, isLine⟩ := mem_placedItems new
      rw [ofOrder, found]
      exact ⟨rfl, isLine⟩
  · rw [placed.others _ (by decide)] at member
    exact there_later (balanced.deliveries delivery member) moves
  · rw [placed.others _ (by decide)] at member
    exact (balanced.sessions session member).later moves
  · by_cases isCod : data.paymentMethod = .cod
    · obtain ⟨codProvider, id, placedAt, _, transactions⟩ := placed.cash isCod
      rw [transactions] at member
      rcases Table.mem_insert member with old | rfl
      · exact (balanced.transactions tx old).later moves
      · intro orderId ofOrder
        obtain rfl : order.id = orderId := Option.some.inj ofOrder
        obtain ⟨id', placedAt', isRow⟩ := placed.row
        have sameCurrency : branch.currency = order.currency := by rw [isRow]; rfl
        exact ⟨order, found, rfl, sameCurrency⟩
    · rw [placed.online isCod] at member
      exact (balanced.transactions tx member).later moves

theorem kept_of_assigned {delivery : Delivery} (balanced : Balanced rated db)
    (there : (orderOf db delivery.orderId).isSome = true) (assignedAt updatedAt : ℕ) :
    Balanced rated (db.applyAll (assignmentWrites delivery assignedAt updatedAt)) ∧
      Moves db (db.applyAll (assignmentWrites delivery assignedAt updatedAt)) := by
  refine kept_of_orders balanced ?_ ?_ (fun t member => assignmentWrites_other _ _ _ _ ?_ ?_)
    (Db.grows_applyAll db _)
  · have kept : ∀ row, orderMoney (Order.withAgent delivery.agentId assignedAt updatedAt row) =
        orderMoney row := fun _ => rfl
    rw [assignmentWrites_orders]
    exact .modify kept _ _
  · rw [assignmentWrites_deliveries]
    exact .insert _ there
  · revert member
    cases t <;> decide
  · revert member
    cases t <;> decide

/-- Deliveries keep their orders. -/
theorem kept_of_deliveries (balanced : Balanced rated db)
    (same : Table.Same Delivery.orderId (db .deliveries) (db' .deliveries))
    (others : ∀ t, t ≠ .deliveries → db' t = db t) (grows : db.Grows db') :
    Balanced rated db' ∧ Moves db db' := by
  refine kept_of_orders balanced ?_ (same.adds _)
    (fun t member => others t (by revert member; cases t <;> decide)) grows
  rw [others _ (by decide)]
  exact .refl _ _

/-- A session is opened for the order's total. -/
theorem kept_of_opened {session : PaymentSession} (balanced : Balanced rated db)
    (fits : SessionFits db (sessionTerms session)) :
    Balanced rated (db.apply (.insert TableName.paymentSessions session)) ∧
      Moves db (db.apply (.insert TableName.paymentSessions session)) := by
  have others : ∀ t, t ≠ .paymentSessions →
      db.apply (.insert TableName.paymentSessions session) t = db t := fun t other =>
    Db.apply_insert_ne db session other
  refine kept_of_payments balanced ?_ ?_
    (fun t member => others t (by revert member; cases t <;> decide))
    (Db.grows_apply db _)
  · rw [Db.apply_insert_self]
    exact .insert _ fits
  · rw [others _ (by decide)]
    exact .refl _ _ _

/-- A transaction is added, or changed without its terms. -/
theorem kept_of_transactions (balanced : Balanced rated db)
    (adds : Table.Adds transactionTerms (TransactionFits rated db) (db .transactions)
      (db' .transactions))
    (others : ∀ t, t ∈
      [TableName.orders, .orderItems, .deliveries, .paymentSessions] → db' t = db t)
    (grows : db.Grows db') : Balanced rated db' ∧ Moves db db' := by
  refine kept_of_payments balanced ?_ adds
    (fun t member => others t (by revert member; cases t <;> decide)) grows
  rw [others _ (by decide)]
  exact .refl _ _ _

theorem same_withStatus (charges : Table Transaction) (k : RowKey) (status : TransactionStatus)
    (updatedAt : ℕ) :
    Table.Same transactionTerms charges
      (charges.modify k (Transaction.withStatus status updatedAt)) := by
  have kept : ∀ row, transactionTerms (Transaction.withStatus status updatedAt row) =
      transactionTerms row := fun _ => rfl
  exact .modify kept charges k

theorem same_of_flagged {refundId : ℕ} {charges charges' : Table Transaction}
    (flagged : Flagged refundId charges charges') :
    Table.Same transactionTerms charges charges' := by
  rcases flagged with rfl | ⟨id, updatedAt, rfl⟩
  · exact .refl _ _
  · have kept : ∀ row, transactionTerms (Transaction.refunded refundId updatedAt row) =
        transactionTerms row := fun _ => rfl
    exact .modify kept charges _

/-- The session's amount goes over to the charge. -/
theorem fits_of_session {order row : Order} {session : PaymentSession}
    {providerTransactionId : String} {status : TransactionStatus} {id now : ℕ}
    (found : orderOf db order.id = some row) (amount : session.amount = row.total)
    (currency : session.currency = row.currency) :
    TransactionFits rated db
      (transactionTerms ((KashierWebhookService.chargeInput order session providerTransactionId
        status).row id now)) := by
  intro orderId ofOrder
  obtain rfl : order.id = orderId := Option.some.inj ofOrder
  exact ⟨row, found, amount, currency⟩

/-- The session and the charge of a `pay` event; a capture also writes the order's status. -/
theorem kept_of_charged {order row : Order} {session : PaymentSession}
    {providerTransactionId : String} {sessionStatus : PaymentSessionStatus}
    {status : TransactionStatus} (balanced : Balanced rated db)
    (charged : Charged order session providerTransactionId sessionStatus status db db')
    (orders : Table.Same orderMoney (db .orders) (db' .orders))
    (others : ∀ t, t ∈ [TableName.orderItems, .deliveries] → db' t = db t)
    (found : orderOf db order.id = some row) (amount : session.amount = row.total)
    (currency : session.currency = row.currency) : Balanced rated db' ∧ Moves db db' := by
  obtain ⟨updatedAt, sessions⟩ := charged.sessions
  obtain ⟨id, now, _, transactions⟩ := charged.transactions
  have step : Step rated db db' := by
    refine ⟨orders, others _ (by decide), ?_, ?_, ?_, charged.grows⟩
    · rw [others _ (by decide)]
      exact .refl _ _ _
    · have kept : ∀ row, sessionTerms (PaymentSession.withStatus sessionStatus updatedAt row) =
          sessionTerms row := fun _ => rfl
      rw [sessions]
      exact (Table.Same.modify kept _ _).adds _
    · rw [transactions]
      exact .insert _ (fits_of_session found amount currency)
  exact step.kept balanced

/-- The commission of a settlement is a part of the subtotal that the order had when it was read. -/
theorem kept_of_settled {order row : Order} {branch : CoreBranch} {delivery : Delivery}
    {agentEarning : ℤ} {V : Database → Prop} (balanced : Balanced rated db)
    (settled : Settled order branch delivery (commissionOf order branch) agentEarning V db db')
    (found : orderOf db order.id = some row) (sameMoney : orderMoney row = orderMoney order)
    (rates : rated order.branchId → 0 ≤ branch.commissionBps ∧ branch.commissionBps ≤ 10000) :
    Balanced rated db' ∧ Moves db db' := by
  obtain ⟨stamp, deliveries⟩ := settled.deliveries
  obtain ⟨updatedAt, updatedAt', stamp', orders⟩ := settled.orders
  obtain ⟨charges, id, now, cash, _, transactions⟩ := settled.transactions
  have sums := balanced.orders row (Table.get_mem found)
  -- The commission is a part of a subtotal that is not negative.
  have fits : TransactionFits rated db (transactionTerms
      ((commissionInput order branch delivery (commissionOf order branch)).row id now)) := by
    intro orderId ofOrder
    obtain rfl : order.id = orderId := Option.some.inj ofOrder
    refine ⟨row, found, fun isRated => ?_⟩
    simp only [orderMoney, Prod.mk.injEq] at sameMoney
    obtain ⟨sameBranch, sameSubtotal, _, _, _, sameCurrency⟩ := sameMoney
    obtain ⟨lower, upper⟩ := rates (sameBranch ▸ isRated)
    have nonneg : 0 ≤ order.subtotal := sameSubtotal ▸ sums.nonneg
    refine ⟨commission_nonneg order branch nonneg lower, ?_, sameCurrency.symm⟩
    rw [sameSubtotal]
    exact Ledger.commission_le order branch nonneg upper
  have step : Step rated db db' := by
    refine ⟨?_, settled.others _ (by decide), ?_, ?_, ?_, settled.grows⟩
    · have kept : ∀ row,
          orderMoney (Order.withCommission (commissionOf order branch) updatedAt row) =
          orderMoney row := fun _ => rfl
      rw [orders]
      exact (Table.Same.modify kept _ _).trans (.modify (money_withStatus _ _ _) _ _)
    · have kept : ∀ row : Delivery, (Delivery.withEarning agentEarning row).orderId =
          row.orderId := fun _ => rfl
      rw [deliveries]
      exact ((Table.Same.modify (Ledger.orderId_withStatus _ _) _ _).trans
        (.modify kept _ _)).adds _
    · rw [settled.others _ (by decide)]
      exact .refl _ _ _
    · rw [transactions]
      refine Table.Adds.trans (Table.Same.adds ?_ _) (.insert _ fits)
      rcases cash.collected with same | ⟨txId, collectedAt, same⟩
      · rw [same]
        exact .refl _ _
      · rw [same]
        exact same_withStatus _ _ _ _
  exact step.kept balanced

end

/-! ## The calls -/

/-- No price of the core service is negative, and the rates of the rated branches are in range. -/
structure Answers (rated : ℕ → Prop) (core : Core) : Prop where
  prices : ∀ branchId productIds branchProducts,
    core.getBranchProducts branchId productIds = .ok branchProducts →
    ∀ product ∈ branchProducts, 0 ≤ product.price
  rates : ∀ branchId branch, rated branchId → core.getBranch branchId = .ok branch →
    0 ≤ branch.commissionBps ∧ branch.commissionBps ≤ 10000

/-- Every operation, with answers of the core service in range. -/
def InRange (rated : ℕ → Prop) : Operation → Prop
  | .placeOrder core .. | .updateDeliveryStatus core .. => Answers rated core
  | _ => True

section Calls

variable (rated : ℕ → Prop)

def protocol : Protocol (K := RowKey) RowOf Shared Err Operation Reply Unit where
  inv s := Balanced rated s.db
  guar _ _ w w' := Moves w.db w'.db
  rely _ _ w w' := Moves w.db w'.db
  post _ _ _ _ := True
  allow _ _ _ := True
  faulty _ := True
  admits := InRange rated
  apart _ _ _ := True

theorem lawful : (protocol rated).Lawful where
  guar_refl _ _ w := .refl w.db
  rely_refl _ _ w := .refl w.db
  rely_trans first second := first.trans second
  rely_of_guar _ _ _ _ guar := guar
  post_stable _ _ _ _ := trivial
  inv_spawn holds _ _ := holds
  inv_crash _ _ holds := ⟨holds, trivial⟩

theorem free (i : ℕ) (op : Operation) : (protocol rated).Free i op Later :=
  fun s _ _ holds => ⟨holds, .refl s.db, .refl s.db⟩

theorem persists (i : ℕ) (op : Operation) : Persists (protocol rated) i op :=
  fun _ _ t k rely there => rely.grows.rows t k there

/-- Writes to one table that the invariant does not read. -/
theorem tolerates (i : ℕ) (op : Operation) {table : TableName}
    (aside :
      table ∉ [TableName.orders, .orderItems, .deliveries, .paymentSessions, .transactions]) :
    (protocol rated).Tolerates i op (within (fun w => w.table = table) fun _ => True) := by
  intro s ws inTable holds
  have kept : Balanced rated (s.db.applyAll ws) ∧ Moves s.db (s.db.applyAll ws) :=
    kept_of_aside holds (fun t member => ?_) (Db.grows_applyAll s.db ws)
  · exact ⟨kept.1, kept.2, kept.2⟩
  · refine Db.applyAll_other (fun w among isTable => aside ?_) s.db
    rw [← inTable w among, isTable]
    exact member

theorem tolerates_cancels (i : ℕ) (op : Operation) :
    (protocol rated).Tolerates i op (within Cancels fun _ => True) := by
  intro s ws cancels holds
  have kept := kept_of_deliveries holds (same_of_cancels orderId_cancel cancels)
    (fun t other => others_of_cancels cancels other)
    (Db.grows_applyAll s.db ws)
  exact ⟨kept.1, kept.2, kept.2⟩

variable {rated} {i : ℕ} {op : Operation} {s s' : Sit RowOf Shared Operation Unit}

abbrev ends (rated : ℕ → Prop) (s : Sit RowOf Shared Operation Unit) : Prop := Balanced rated s.db

/-- A commit that keeps the invariant and the money of the orders. -/
theorem after_kept {db' : Database} {Φ : Sit RowOf Shared Operation Unit → Prop}
    (kept : Balanced rated db' ∧ Moves s.db db')
    (next : ∀ s', Moves db' s'.db → Balanced rated s'.db → s'.live i = some op → Φ s') :
    (protocol rated).After i op s ⟨none, []⟩ db' s.side Φ :=
  ⟨(), kept.1, kept.2, fun s' env => next s' env.drift.1 env.inv env.self⟩

theorem mayAssign {orderId : ℕ} {seen : List (Sigma RowOf)}
    (there : (orderOf s.db orderId).isSome = true) :
    MayAssign (protocol rated) i op seen orderId (ends rated) s where
  there s' env := there_later there env.drift.1
  commits delivery assignedAt updatedAt row s' env _ ofOrder _ := by
    subst ofOrder
    exact after_kept (kept_of_assigned env.inv (there_later there env.drift.1) assignedAt updatedAt)
      fun _ _ balanced _ => balanced
  stops s' env := env.inv

/-- A status of an order that is written alone. -/
theorem kept_of_updated {db : Database} (balanced : Balanced rated db) (id : ℕ)
    (status : OrderStatus) (updatedAt : ℕ) (stamp : Option ℕ) :
    Balanced rated (db.apply
      (.update TableName.orders (RowKey.id id) (Order.withStatus status updatedAt stamp))) ∧
      Moves db (db.apply
        (.update TableName.orders (RowKey.id id) (Order.withStatus status updatedAt stamp))) := by
  refine kept_of_status balanced (Db.apply_update_self ..)
    (fun t member => Db.apply_update_ne db _ _ ?_)
    (Db.grows_apply db _)
  revert member
  cases t <;> decide

theorem wp_placeOrderCall {core : Core} {customerId : ℕ} {data : CreateOrderRequest}
    (answers : Answers rated core) (holds : Balanced rated s.db) (self : s.live i = some op) :
    (protocol rated).wp i op (placeOrder core customerId data)
      (fun _ _ s' => ends rated s') .start s := by
  refine wp_placeOrder (lawful rated) (free rated i op) holds self (fun _ env => env.inv)
    fun branch order s₁ db' placing => ?_
  obtain ⟨address, branchProducts, publicId, _, _, answered, _, placed⟩ := placing.placed
  refine after_kept (kept_of_placed placing.until'.inv (answers.prices _ _ _ answered) placed)
    fun s₂ _ _ _ => ⟨?_, fun _ env => env.inv⟩
  intro row updatedAt stamp s₃ env _ _ _
  exact after_kept (kept_of_updated env.inv order.id .cancelled updatedAt stamp)
    fun _ _ balanced _ => balanced

theorem wp_updateOrderStatusCall {core : Core} {publicId : ℕ} {target : OrderStatus}
    {actor : RequestActor} (holds : Balanced rated s.db) :
    (protocol rated).wp i op (OrderService.updateStatus core publicId target actor)
      (fun _ _ s' => ends rated s') .start s := by
  refine wp_updateOrderStatus (lawful rated) (free rated i op) holds
    (fun result order listed row s₁ seen' db' _ _ env₁ _ _ _ writing => ?_) fun _ _ _ env => env.inv
  have written := writing.written
  obtain ⟨updatedAt, stamp, orders⟩ := written.orders
  have kept : Balanced rated db' ∧ Moves s₁.db db' := by
    refine kept_of_status env₁.inv orders (fun t member => written.others t ?_ ?_) written.grows
    · revert member
      cases t <;> decide
    · revert member
      cases t <;> decide
  refine (after_kept kept fun s₂ _ balanced self =>
    ?_ : (protocol rated).After i op s₁ ⟨none, []⟩ db' s₁.side _).released seen'
  refine wp_harmless (lawful rated) (free rated i op) (tolerates_cancels rated i op)
    (harmless_releaseDelivery order target fun k => ⟨k, rfl⟩) ?_ balanced self ?_
  · exact fun w none => absurd none List.not_mem_nil
  · intro result l s₃ inv₃ _ _
    cases result <;> exact inv₃

theorem wp_initCall {core : Core} {orderPublicId customerId : ℕ} (holds : Balanced rated s.db) :
    (protocol rated).wp i op (PaymentService.init core orderPublicId customerId)
      (fun _ _ s' => ends rated s') .start s := by
  refine wp_init (lawful rated) (free rated i op) holds (fun _ env => env.inv)
    fun order session s₁ opening => ?_
  obtain ⟨row, found, sameMoney⟩ := opening.until'.drift.1.orders _ _ opening.readOrder
  simp only [orderMoney, Prod.mk.injEq] at sameMoney
  refine after_kept (kept_of_opened opening.until'.inv ⟨row, ?_, ?_⟩) fun _ _ balanced _ => balanced
  · simpa only [sessionTerms, opening.ofOrder] using found
  · simp only [sessionTerms, opening.amount, opening.currency, sameMoney]

theorem processes (payload : WebhookPayload) :
    Processes (protocol rated) i op payload (ends rated) s where
  captures order session row s₀ s₁ s₂ db' _ _ paying captured := by
    obtain ⟨read, found, terms⟩ :=
      (paying.until₁.inv.sessions session (Table.get_mem paying.readSession)).later
        paying.until₂.drift.1
    obtain ⟨updatedAt, stamp, orders⟩ := captured.orders
    simp only [sessionTerms, paying.ofOrder, Prod.mk.injEq] at found terms
    refine after_kept (kept_of_charged paying.until₂.inv captured.toCharged ?_
      (fun t member => captured.others t ?_) found terms.1 terms.2)
      fun _ _ balanced _ => balanced
    · rw [orders]
      exact .modify (money_withStatus _ _ _) _ _
    · revert member
      cases t <;> decide
  refuses order session row s₀ s₁ s₂ db' _ paying refused := by
    obtain ⟨read, found, terms⟩ :=
      (paying.until₁.inv.sessions session (Table.get_mem paying.readSession)).later
        paying.until₂.drift.1
    simp only [sessionTerms, paying.ofOrder, Prod.mk.injEq] at found terms
    refine after_kept (kept_of_charged paying.until₂.inv refused.toCharged ?_
      (fun t member => refused.others t ?_) found terms.1 terms.2)
      fun _ _ balanced _ => balanced
    · rw [refused.others _ (by decide)]
      exact .refl _ _
    · revert member
      cases t <;> decide
  confirms refund s₁ s₂ db' confirming confirmed := by
    obtain ⟨updatedAt, flagged⟩ := confirmed.transactions
    refine after_kept (kept_of_transactions confirming.until₂.inv
      (((same_withStatus _ _ _ _).trans (same_of_flagged flagged)).adds _)
      (fun t member => confirmed.others t ?_) confirmed.grows)
      fun _ _ balanced _ => balanced
    revert member
    cases t <;> decide
  stops s' env := env.inv

/-- A transaction changes without its terms. -/
theorem kept_of_changed {db : Database} {k : RowKey} {f : Transaction → Transaction}
    (balanced : Balanced rated db) (kept : ∀ row, transactionTerms (f row) = transactionTerms row) :
    Balanced rated (db.apply (.update TableName.transactions k f)) ∧
    Moves db (db.apply (.update TableName.transactions k f)) := by
  refine kept_of_transactions balanced ?_ (fun t member => Db.apply_update_ne db _ _ ?_)
    (Db.grows_apply db _)
  · rw [Db.apply_update_self]
    exact (Table.Same.modify kept _ _).adds _
  · revert member
    cases t <;> decide

theorem maySettle {charge refund : Transaction}
    (there : (transactionOf s.db refund.id).isSome = true) :
    MaySettle (protocol rated) i op charge refund (ends rated) s where
  there s' env := env.drift.1.grows.rows _ _ there
  refers reference updatedAt row s' env _ :=
    after_kept (kept_of_changed env.inv fun _ => rfl) fun _ _ balanced _ => balanced
  fails updatedAt row s' env _ :=
    after_kept (kept_of_changed env.inv fun _ => rfl) fun _ _ balanced _ => balanced
  succeeds updatedAt row s' env _ := by
    refine after_kept (kept_of_changed env.inv fun _ => rfl) fun _ _ _ _ =>
      ⟨?_, fun s₃ env₃ => env₃.inv⟩
    exact fun _ _ s₃ env₃ _ =>
      after_kept (kept_of_changed env₃.inv fun _ => rfl) fun _ _ balanced _ => balanced
  stops s' env := env.inv

theorem wp_refundCall {core : Core} {paymentId : ℕ} {amount : Option ℤ} {reason : String}
    (holds : Balanced rated s.db) :
    (protocol rated).wp i op (PaymentService.refund core paymentId amount reason)
      (fun _ _ s' => ends rated s') .start s := by
  refine wp_refundRequest (lawful rated) (free rated i op) holds (fun _ env => env.inv)
    fun charge refund s₁ _ refunding => ?_
  obtain ⟨uuid, id, now, isRow⟩ := refunding.row
  have isInserted : s₁.db.apply (.insert TableName.transactions refund) .transactions =
      (s₁.db .transactions).insert refund :=
    Db.apply_insert_self ..
  -- Whatever order the charge is of is there.
  have fits : TransactionFits rated s₁.db (transactionTerms refund) := by
    intro orderId ofOrder
    rw [isRow] at ofOrder ⊢
    obtain ⟨order, found, _⟩ :=
      holds.transactions charge (Table.get_mem refunding.readCharge) orderId ofOrder
    obtain ⟨order', found', _⟩ := refunding.until'.drift.1.orders _ _ found
    exact ⟨order', found', trivial⟩
  refine after_kept
    (kept_of_transactions refunding.until'.inv ?_ (fun t member => Db.apply_insert_ne s₁.db _ ?_)
    (Db.grows_apply s₁.db _)) fun s₂ moves _ _ => maySettle (moves.grows.rows _ _ ?_)
  · rw [isInserted]
    exact .insert _ fits
  · revert member
    cases t <;> decide
  · rw [isInserted]
    exact Option.isSome_iff_exists.2 ⟨refund, Table.get_insert_self refunding.free⟩

theorem wp_recordPayoutCall {restaurantId : ℕ} {amount : ℤ} {currency idempotencyKey : String} :
    (protocol rated).wp i op
      (FinanceService.recordPayout restaurantId amount currency idempotencyKey)
      (fun _ _ s' => ends rated s') .start s := by
  refine wp_recordPayout (lawful rated) (free rated i op)
    (fun result s' seen' db' env _ paidOut _ => ?_) fun _ _ s' env => env.inv
  have kept : Balanced rated db' ∧ Moves s'.db db' := by
    cases paidOut with
    | again opened others grows =>
      exact kept_of_aside env.inv
        (fun t member => others t (by revert member; cases t <;> decide)) grows
    | paid locked id now covered posted free transactions others grows =>
      refine kept_of_transactions env.inv ?_ (fun t member => others t ?_ ?_) grows
      · rw [transactions]
        exact .insert _ fun orderId impossible => nomatch impossible
      · revert member
        cases t <;> decide
      · revert member
        cases t <;> decide
  exact (after_kept kept fun _ _ balanced _ =>
    balanced : (protocol rated).After i op s' ⟨none, []⟩ db' s'.side _).released seen'

theorem wp_assignCall {env : Config} {core : Core} {orderPublicId : ℕ} {agentId : Option ℕ}
    (holds : Balanced rated s.db) :
    (protocol rated).wp i op (assign env core orderPublicId agentId)
      (fun _ _ s' => ends rated s') .start s :=
  wp_assign (lawful rated) (free rated i op) holds (fun _ env => env.inv) fun order _ read _ =>
    mayAssign (Option.isSome_iff_exists.2 ⟨order, read⟩)

theorem wp_tryAutoAssignCall {env : Config} {core : Core} {orderId : ℕ}
    (holds : Balanced rated s.db) :
    (protocol rated).wp i op (tryAutoAssign env core orderId)
      (fun _ _ s' => ends rated s') .start s :=
  wp_tryAutoAssign (lawful rated) (free rated i op) holds (fun _ env => env.inv)
    fun order _ read _ =>
    mayAssign (Option.isSome_iff_exists.2 ⟨order, read⟩)

theorem kept_of_deliveryStatus {db : Database} (balanced : Balanced rated db) (id : ℕ)
    (status : DeliveryStatus) (stamp : Option ℕ) :
    Balanced rated (db.apply
      (.update TableName.deliveries (RowKey.id id) (Delivery.withStatus status stamp))) ∧
      Moves db (db.apply
        (.update TableName.deliveries (RowKey.id id) (Delivery.withStatus status stamp))) := by
  refine kept_of_deliveries balanced ?_ (fun t other => Db.apply_update_ne db _ _ other)
    (Db.grows_apply db _)
  rw [Db.apply_update_self]
  exact .modify (Ledger.orderId_withStatus status stamp) _ _

theorem wp_reassignCall {env : Config} {core : Core} {orderPublicId : ℕ} {seen : List (Sigma RowOf)}
    (holds : Balanced rated s.db) :
    (protocol rated).wp i op (reassign env core orderPublicId) (fun _ _ s' => ends rated s')
      ⟨none, seen⟩ s := by
  refine wp_reassign (lawful rated) (free rated i op) (persists rated i op) holds
    (fun _ env => env.inv) ?_
  intro order active row stamp s₀ s₁ _ _ until₀ _ read ofOrder _ updating
  have there := there_later (until₀.inv.deliveries active (Table.get_mem read)) updating.env.drift.1
  have kept := kept_of_deliveryStatus updating.env.inv active.id .reassigned stamp
  refine after_kept kept fun s₂ moves _ _ seen => ?_
  rw [← ofOrder]
  exact mayAssign (there_later there (kept.2.trans moves))

theorem mayPick {orderId : ℕ} : MayPick (protocol rated) i op orderId (ends rated) s where
  stops _ env := env.inv
  commits _ updatedAt stamp _ env _ _ _ :=
    after_kept (kept_of_updated env.inv orderId .picked updatedAt stamp)
      fun _ _ balanced _ => balanced

theorem wp_updateStatusCall {env : Config} {core : Core} {deliveryId actorUserId : ℕ}
    {target : DeliveryStatus} (answers : Answers rated core) (holds : Balanced rated s.db) :
    (protocol rated).wp i op (updateStatus env core deliveryId actorUserId target)
      (fun _ _ s' => ends rated s') .start s := by
  refine wp_deliveryUpdateStatus (lawful rated) (free rated i op) (persists rated i op) holds
    (fun _ env => env.inv) ?_ ?_
  · intro delivery order branch row s₀ s₁ db' _ _ _ _ _ until₁ _ settling
    have sameKey : RowKey.id order.id = RowKey.id delivery.orderId := Table.get_key settling.read
    have readOrder := settling.read
    rw [← RowKey.id.inj sameKey] at readOrder
    obtain ⟨orderRow, found, sameMoney⟩ := until₁.drift.1.orders _ _ readOrder
    exact after_kept (kept_of_settled until₁.inv settling.settled found sameMoney fun isRated =>
      answers.rates _ _ isRated settling.answered) fun _ _ balanced _ => balanced
  · intro delivery row stamp s₁ _ _ read _ _ _ updating
    have there := there_later (holds.deliveries delivery (Table.get_mem read)) updating.env.drift.1
    have kept := kept_of_deliveryStatus updating.env.inv delivery.id target stamp
    refine after_kept kept fun s₂ moves _ _ => ?_
    cases target with
    | picked => exact mayPick
    | rejected =>
      have there₂ := there_later there (kept.2.trans moves)
      exact ⟨fun s₃ seen env₃ _ => mayAssign (there_later there₂ env₃.drift.1),
        fun s₃ env₃ => env₃.inv⟩
    | _ => exact fun s' env => env.inv

theorem wp_presence {β : Type} {prog : Service β} (harmless : prog.Harmless presenceOnly)
    (holds : Balanced rated s.db) (self : s.live i = some op) :
    (protocol rated).wp i op prog (fun _ _ s' => ends rated s') .start s :=
  wp_harmless (lawful rated) (free rated i op) (tolerates rated i op (by decide)) harmless
    (fun w none => absurd none List.not_mem_nil)
    holds self fun _ _ _ inv _ _ => inv

end Calls

theorem verified (rated : ℕ → Prop) (env : Config) : (protocol rated).Verified (code env) := by
  intro i op s s' holds _ admitted _ started
  have holds := started.inv
  refine wp_mono (fun _ _ s'' (balanced : ends rated s'') => ⟨balanced, trivial⟩) ?_
  cases op with
  | placeOrder core customerId data =>
    exact wp_returning (wp_placeOrderCall admitted holds started.self)
  | updateOrderStatus core publicId target actor => exact wp_map (wp_updateOrderStatusCall holds)
  | initPayment core orderPublicId customerId => exact wp_map (wp_initCall holds)
  | refund core paymentId amount reason => exact wp_map (wp_refundCall holds)
  | webhook payload signature signatureValid =>
    exact wp_returning (wp_process (lawful rated) (free rated i _) (persists rated i _)
      (tolerates rated i _ (by decide)) holds started.self
      (processes payload))
  | assign core orderPublicId agentId => exact wp_returning (wp_assignCall holds)
  | tryAutoAssign core orderId => exact wp_returning (wp_tryAutoAssignCall holds)
  | reassign core orderPublicId => exact wp_returning (wp_reassignCall holds)
  | updateDeliveryStatus core deliveryId actorUserId target =>
    exact wp_map (wp_updateStatusCall admitted holds)
  | online agentId point =>
    exact wp_returning (wp_presence (harmless_online agentId point) holds started.self)
  | offline core agentId =>
    exact wp_returning (wp_offline (lawful rated) (free rated i _) (tolerates rated i _ (by decide))
      holds started.self
      (fun _ inv _ => inv) fun _ _ _ inv _ => wp_reassignCall inv)
  | ping agentId point =>
    exact wp_returning (wp_presence (harmless_ping agentId point) holds started.self)
  | recordPayout restaurantId amount currency idempotencyKey => exact wp_map wp_recordPayoutCall
  | sleep duration => exact wp_returning (wp_presence (harmless_sleep duration) holds started.self)

/-! ## Runs -/

/-- Any calls, with answers of the core service in range, and any faults and crashes. -/
def PricedRuns (rated : ℕ → Prop) (_ : Region) (e : Event Operation) : Prop :=
  Serves (InRange rated) e

theorem admissible {rated : ℕ → Prop} (p : Region) (e : Event Operation)
    (serves : PricedRuns rated p e) : (protocol rated).Admissible p e := by
  cases e with
  | spawn op => exact ⟨serves, fun _ _ _ => ⟨trivial, trivial⟩⟩
  | step i choice =>
    exact ⟨fun _ _ _ _ _ _ _ => trivial,
      fun call found => ⟨fun _ => trivial, fun out acts => trivial⟩⟩
  | crash i => exact fun _ _ => trivial

theorem balanced_of_reach {rated : ℕ → Prop} {env : Config} {db : Database} {x : Shared}
    {p : Region} (balanced : Balanced rated db)
    (reached : Pool.Reach (code env) (PricedRuns rated) (Pool.quiet db x) p) :
    Balanced rated p.db := by
  obtain ⟨ghost, sound⟩ :=
    sound_of_reach (lawful rated) (verified rated env) admissible (sound_quiet () balanced) reached
  exact sound.inv

/-- In every state of all runs, the amounts of every order add up; `rated` are the branches whose
rates the core service keeps in range. -/
theorem amounts_add_up (rated : ℕ → Prop) (env : Config) (x : Shared) (p : Region)
    (reached : Pool.Reach (code env) (PricedRuns rated) (Pool.quiet Database.empty x) p) :
    ∀ order ∈ (p.db .orders).rows, AddsUp rated p.db order :=
  fun _ member => addsUp_of_balanced (balanced_of_reach (balanced_empty rated) reached) member

/-- A cash order with two lines of one product. -/
theorem amounts_of_one_order :
    ∃ p, Pool.Reach (code Sample.env) (PricedRuns fun _ => True)
      (Pool.quiet Database.empty Sample.shared) p ∧
    (∀ order ∈ (p.db .orders).rows, AddsUp (fun _ => True) p.db order) ∧
    (p.db .orders).rows.map Order.total = [1600] := by
  have answers : Answers (fun _ => True) Sample.core := by
    refine ⟨fun branchId productIds branchProducts answered product member => ?_,
      fun branchId branch _ answered => ?_⟩
    · cases answered
      obtain rfl := List.mem_singleton.1 member
      decide
    · cases answered
      norm_num [Sample.branch]
  let call : Operation := .placeOrder Sample.core 7 ⟨6, 8, .cod, [⟨1, 2⟩, ⟨1, 1⟩]⟩
  have first : Pool.Reach (code Sample.env) (PricedRuns fun _ => True)
      (Pool.quiet Database.empty Sample.shared) _ :=
    Pool.Reach.step .refl (e := .spawn call) answers rfl
  have played : (Pool.play (code Sample.env) (fun _ e => decide (Serves (fun _ => False) e))
      (List.replicate 14 (Sample.act 0))
      ⟨Database.empty, Sample.shared, [⟨call, code Sample.env call, .start⟩]⟩).map
        (fun p => (p.db .orders).rows.map Order.total) = some [1600] := by decide +kernel
  obtain ⟨p, isRun, totals⟩ := Option.map_eq_some_iff.1 played
  have rest : Pool.Reach (code Sample.env) (PricedRuns fun _ => True) _ p :=
    Pool.reach_of_play
      (fun _ _ checked => Serves.mono (fun _ => False.elim) (of_decide_eq_true checked)) isRun
  have reached := first.trans rest
  exact ⟨p, reached, amounts_add_up (fun _ => True) Sample.env Sample.shared p reached, totals⟩

end SwiftBite.Verified.MoneySums
