import SwiftBite.Verified.OneSettlement
import SwiftBite.Verified.PaymentSteps
import SwiftBite.Verified.Placement

/-! # The money behind an order

What the committed state says about the charges and the collections of each order, and what
every step keeps of it.  A delivery, a payment session and every status past the payment carry
the fact that the order is backed, so a call that has read one of them may count on it later.
-/

set_option autoImplicit false

namespace SwiftBite.Verified.Funding

open Store Protocol Verified OneSettlement

/-! ## The invariant -/

def orderTerms (order : Order) : PaymentMethod × ℤ × String :=
  (order.paymentMethod, order.total, order.currency)

def sessionTerms (session : PaymentSession) : ℕ × ℤ × String :=
  (session.orderId, session.amount, session.currency)

def transactionTerms (tx : Transaction) : TransactionType × Option ℕ × ℤ × String :=
  (tx.transactionType, tx.orderId, tx.amount, tx.currency)

/-- The statuses of an order that nobody has to have paid for. -/
def unpaid : OrderStatus → Bool
  | .pendingPayment | .cancelled => true
  | _ => false

/-- A succeeded charge of the order's total. -/
def isPaymentOf (order : Order) (tx : Transaction) : Bool :=
  decide (tx.transactionType = .charge ∧ tx.status = .succeeded ∧ tx.orderId = some order.id ∧
    tx.amount = order.total ∧
    tx.currency = order.currency)

def isCollectionOf (orderId : ℕ) (tx : Transaction) : Bool :=
  decide (tx.transactionType = .codCollection ∧ tx.orderId = some orderId)

/-- An online order is paid. -/
def Backed (db : Database) (order : Order) : Prop :=
  order.paymentMethod = .online → ∃ tx ∈ (db .transactions).rows, isPaymentOf order tx = true

/-- The one collection of the order, of its total. -/
structure OnlyCollection (db : Database) (order : Order) (tx : Transaction) : Prop where
  member : tx ∈ (db .transactions).rows
  isCollection : isCollectionOf order.id tx = true
  amount : tx.amount = order.total
  only : ∀ other ∈ (db .transactions).rows, isCollectionOf order.id other = true → other = tx

/-- A cash order has its collection. -/
def CashDue (db : Database) (order : Order) : Prop :=
  order.paymentMethod = .cod →
  ∃ tx, OnlyCollection db order tx ∧ (tx.status = .pending ∨ tx.status = .succeeded)

def CashIn (db : Database) (order : Order) : Prop :=
  order.paymentMethod = .cod → ∃ tx, OnlyCollection db order tx ∧ tx.status = .succeeded

/-- The order is there, and backed. -/
def BackedAt (db : Database) (orderId : ℕ) : Prop :=
  ∃ order, orderOf db orderId = some order ∧ Backed db order

structure OrderFunded (db : Database) (order : Order) : Prop where
  backed : unpaid order.status = false → Backed db order
  due : CashDue db order
  collected : order.status = .delivered → CashIn db order

structure Funded (db : Database) : Prop where
  orders : ∀ order ∈ (db .orders).rows, OrderFunded db order
  deliveries : ∀ delivery ∈ (db .deliveries).rows, BackedAt db delivery.orderId
  sessions : ∀ session ∈ (db .paymentSessions).rows, ∃ order,
    orderOf db session.orderId = some order ∧
    session.amount = order.total ∧ session.currency = order.currency
  transactions : ∀ tx ∈ (db .transactions).rows, ∀ orderId, tx.orderId = some orderId →
    (orderOf db orderId).isSome = true

theorem funded_empty : Funded Database.empty := by
  refine ⟨?_, ?_, ?_, ?_⟩ <;> exact fun _ none => absurd none List.not_mem_nil

/-! ## What a step may change -/

/-- A transaction keeps its terms, and only goes over to `succeeded`. -/
def TransactionMoves (tx tx' : Transaction) : Prop :=
  transactionTerms tx' = transactionTerms tx ∧ (tx'.status = tx.status ∨ tx'.status = .succeeded)

theorem TransactionMoves.refl (tx : Transaction) : TransactionMoves tx tx := ⟨rfl, .inl rfl⟩

theorem TransactionMoves.trans (a b c : Transaction) (first : TransactionMoves a b)
    (second : TransactionMoves b c) : TransactionMoves a c := by
  refine ⟨second.1.trans first.1, ?_⟩
  rcases second.2 with same | succeeded
  · rw [same]
    exact first.2
  · exact .inr succeeded

structure Moves (db db' : Database) : Prop where
  orders : Table.Keeps orderTerms (db .orders) (db' .orders)
  deliveries : Table.Keeps Delivery.orderId (db .deliveries) (db' .deliveries)
  sessions : Table.Keeps sessionTerms (db .paymentSessions) (db' .paymentSessions)
  transactions : Table.Evolves TransactionMoves (db .transactions) (db' .transactions)
  /-- An order that is there gets no further collection. -/
  collections : ∀ orderId, (orderOf db orderId).isSome = true → ∀ tx' ∈ (db' .transactions).rows,
    isCollectionOf orderId tx' = true →
    ∃ tx, transactionOf db tx'.id = some tx ∧ isCollectionOf orderId tx = true
  grows : db.Grows db'

theorem Moves.refl (db : Database) : Moves db db :=
  ⟨.refl _ _, .refl _ _, .refl _ _, .refl TransactionMoves.refl _, fun _ _ tx member isCollection =>
    ⟨tx, Table.get_of_mem member, isCollection⟩, .refl _⟩

theorem Moves.trans {db db' db'' : Database} (first : Moves db db')
    (second : Moves db' db'') : Moves db db'' := by
  refine ⟨first.orders.trans second.orders, first.deliveries.trans second.deliveries,
    first.sessions.trans second.sessions,
    first.transactions.trans TransactionMoves.trans second.transactions,
      fun orderId there tx'' member isCollection => ?_,
    first.grows.trans second.grows⟩
  obtain ⟨tx', found', isCollection'⟩ :=
    second.collections orderId (first.grows.rows _ _ there) tx'' member isCollection
  have sameKey : RowKey.id tx'.id = RowKey.id tx''.id := Table.get_key found'
  rw [← RowKey.id.inj sameKey]
  exact first.collections orderId there tx' (Table.get_mem found') isCollection'

/-! ## What stays -/

section Later

variable {db db' : Database} {order order' : Order}

theorem Backed.later (backed : Backed db order) (moves : Moves db db')
    (sameId : order'.id = order.id)
    (sameTerms : orderTerms order' = orderTerms order) : Backed db' order' := by
  simp only [orderTerms, Prod.mk.injEq] at sameTerms
  obtain ⟨sameMethod, sameTotal, sameCurrency⟩ := sameTerms
  intro isOnline
  obtain ⟨tx, member, isPayment⟩ := backed (sameMethod ▸ isOnline)
  obtain ⟨tx', found', terms, status⟩ := moves.transactions _ tx (Table.get_of_mem member)
  refine ⟨tx', Table.get_mem found', ?_⟩
  simp only [transactionTerms, Prod.mk.injEq] at terms
  simp only [isPaymentOf, decide_eq_true_eq] at isPayment ⊢
  obtain ⟨isCharge, succeeded, ofOrder, amount, currency⟩ := isPayment
  rw [succeeded, or_self] at status
  rw [terms.1, terms.2.1, terms.2.2.1, terms.2.2.2, sameId, sameTotal, sameCurrency]
  exact ⟨isCharge, status, ofOrder, amount, currency⟩

theorem BackedAt.later {orderId : ℕ} (backed : BackedAt db orderId) (moves : Moves db db') :
    BackedAt db' orderId := by
  obtain ⟨order, found, backed⟩ := backed
  obtain ⟨order', found', sameTerms⟩ := moves.orders _ order found
  have sameKey : RowKey.id order'.id = RowKey.id order.id :=
    (Table.get_key found').trans (Table.get_key found).symm
  exact ⟨order', found', backed.later moves (RowKey.id.inj sameKey) sameTerms⟩

theorem OnlyCollection.later {tx : Transaction} (only : OnlyCollection db order tx)
    (moves : Moves db db') (there : (orderOf db order.id).isSome = true)
    (sameId : order'.id = order.id) (sameTerms : orderTerms order' = orderTerms order) :
    ∃ tx', OnlyCollection db' order' tx' ∧ (tx'.status = tx.status ∨ tx'.status = .succeeded) := by
  simp only [orderTerms, Prod.mk.injEq] at sameTerms
  obtain ⟨tx', found', terms, status⟩ := moves.transactions _ tx (Table.get_of_mem only.member)
  simp only [transactionTerms, Prod.mk.injEq] at terms
  obtain ⟨sameType, sameOrder, sameAmount, _⟩ := terms
  have isCollection := only.isCollection
  refine ⟨tx', ⟨Table.get_mem found', ?_,
    by rw [sameAmount, only.amount, sameTerms.2.1], fun other member isOther => ?_⟩, status⟩
  · simpa only [isCollectionOf, sameType, sameOrder, sameId] using isCollection
  · -- What is a collection now was one before, and there was one only.
    rw [sameId] at isOther
    obtain ⟨old, foundOld, isOld⟩ := moves.collections order.id there other member isOther
    have isOnly := only.only old (Table.get_mem foundOld) isOld
    subst isOnly
    refine Table.eq_of_key member (Table.get_mem found') ?_
    exact (Table.get_key foundOld).symm.trans (Table.get_key found').symm

theorem CashDue.later (due : CashDue db order) (moves : Moves db db')
    (there : (orderOf db order.id).isSome = true) (sameId : order'.id = order.id)
    (sameTerms : orderTerms order' = orderTerms order) : CashDue db' order' := by
  intro isCash
  have sameMethod : order'.paymentMethod = order.paymentMethod := congrArg Prod.fst sameTerms
  obtain ⟨tx, only, status⟩ := due (sameMethod ▸ isCash)
  obtain ⟨tx', only', same | succeeded⟩ := only.later moves there sameId sameTerms
  · exact ⟨tx', only', by rwa [same]⟩
  · exact ⟨tx', only', .inr succeeded⟩

theorem CashIn.later (cash : CashIn db order) (moves : Moves db db')
    (there : (orderOf db order.id).isSome = true) (sameId : order'.id = order.id)
    (sameTerms : orderTerms order' = orderTerms order) : CashIn db' order' := by
  intro isCash
  have sameMethod : order'.paymentMethod = order.paymentMethod := congrArg Prod.fst sameTerms
  obtain ⟨tx, only, status⟩ := cash (sameMethod ▸ isCash)
  obtain ⟨tx', only', same | succeeded⟩ := only.later moves there sameId sameTerms
  · exact ⟨tx', only', same.trans status⟩
  · exact ⟨tx', only', succeeded⟩

theorem OrderFunded.later (funded : OrderFunded db order) (moves : Moves db db')
    (there : (orderOf db order.id).isSome = true) (sameId : order'.id = order.id)
    (sameTerms : orderTerms order' = orderTerms order) (sameStatus : order'.status = order.status) :
    OrderFunded db' order' where
  backed isPaid := (funded.backed (sameStatus ▸ isPaid)).later moves sameId sameTerms
  due := funded.due.later moves there sameId sameTerms
  collected isDelivered :=
    (funded.collected (sameStatus ▸ isDelivered)).later moves there sameId sameTerms

end Later

/-! ## Steps -/

/-- A transaction that is new belongs to an order; a collection comes with its order. -/
def NewTransaction (db db' : Database) (terms : TransactionType × Option ℕ × ℤ × String) : Prop :=
  ∀ orderId, terms.2.1 = some orderId → (orderOf db' orderId).isSome = true ∧
    (terms.1 = .codCollection → orderOf db orderId = none)

structure Booked (db db' : Database) (charges charges' : Table Transaction) : Prop where
  evolves : Table.Evolves TransactionMoves charges charges'
  adds : Table.Adds transactionTerms (NewTransaction db db') charges charges'

section Booked

variable {db db' : Database} {charges charges' charges'' : Table Transaction}

theorem Booked.refl (charges : Table Transaction) : Booked db db' charges charges :=
  ⟨.refl TransactionMoves.refl _, .refl _ _ _⟩

theorem Booked.trans (first : Booked db db' charges charges')
    (second : Booked db db' charges' charges'') : Booked db db' charges charges'' :=
  ⟨first.evolves.trans TransactionMoves.trans second.evolves, first.adds.trans second.adds⟩

theorem Booked.insert {tx : Transaction} (isNew : NewTransaction db db' (transactionTerms tx))
    (charges : Table Transaction) : Booked db db' charges (charges.insert tx) :=
  ⟨.insert TransactionMoves.refl charges tx, .insert charges isNew⟩

theorem Booked.modify {f : Transaction → Transaction} (moves : ∀ tx, TransactionMoves tx (f tx))
    (charges : Table Transaction) (k : RowKey) : Booked db db' charges (charges.modify k f) :=
  ⟨.modify TransactionMoves.refl moves charges k,
    (Table.Same.modify (fun tx => (moves tx).1) charges k).adds _⟩

theorem Booked.succeeds (charges : Table Transaction) (k : RowKey) (updatedAt : ℕ) :
    Booked db db' charges (charges.modify k (Transaction.withStatus .succeeded updatedAt)) := by
  have moves : ∀ tx, TransactionMoves tx (Transaction.withStatus .succeeded updatedAt tx) :=
    fun _ => ⟨rfl, .inr rfl⟩
  exact .modify moves charges k

theorem Booked.flagged {refundId : ℕ} (flagged : Flagged refundId charges charges') :
    Booked db db' charges charges' := by
  rcases flagged with rfl | ⟨id, updatedAt, rfl⟩
  · exact .refl _
  · have moves : ∀ tx, TransactionMoves tx (Transaction.refunded refundId updatedAt tx) :=
      fun _ => ⟨rfl, .inl rfl⟩
    exact .modify moves charges _

end Booked

/-- What every step does to the rows, apart from the statuses of the orders. -/
structure Step (db db' : Database) : Prop where
  orders : Table.Keeps orderTerms (db .orders) (db' .orders)
  deliveries : Table.Adds Delivery.orderId (BackedAt db') (db .deliveries) (db' .deliveries)
  sessions : Table.Adds sessionTerms (fun terms => ∃ order, orderOf db' terms.1 = some order ∧
    terms.2 = (order.total, order.currency))
    (db .paymentSessions) (db' .paymentSessions)
  transactions : Booked db db' (db .transactions) (db' .transactions)
  grows : db.Grows db'

section Step

variable {db db' : Database}

theorem Step.moves (step : Step db db') : Moves db db' := by
  refine ⟨step.orders, step.deliveries.keeps, step.sessions.keeps, step.transactions.evolves,
    fun orderId there tx' member isCollection => ?_, step.grows⟩
  simp only [isCollectionOf, decide_eq_true_eq] at isCollection
  rcases step.transactions.adds.origin _ tx' (Table.get_of_mem member)
    with ⟨tx, found, same⟩ | isNew
  · simp only [transactionTerms, Prod.mk.injEq] at same
    exact ⟨tx, found,
      by simpa only [isCollectionOf, same.1, same.2.1, decide_eq_true_eq] using isCollection⟩
  · have absent := (isNew orderId isCollection.2).2 isCollection.1
    rw [absent] at there
    cases there

theorem Step.funded (step : Step db db') (funded : Funded db)
    (orders : ∀ order' ∈ (db' .orders).rows, (∃ order ∈ (db .orders).rows, order'.id = order.id ∧
      orderTerms order' = orderTerms order ∧ order'.status = order.status) ∨
      OrderFunded db' order') :
    Funded db' := by
  have moves := step.moves
  refine ⟨fun order' member => ?_, fun delivery' member => ?_, fun session' member => ?_,
    fun tx' member orderId ofOrder => ?_⟩
  · rcases orders order' member with ⟨order, member, sameId, sameTerms, sameStatus⟩ | isFunded
    · have there : (orderOf db order.id).isSome = true :=
        Option.isSome_iff_exists.2 ⟨order, Table.get_of_mem member⟩
      exact (funded.orders order member).later moves there sameId sameTerms sameStatus
    · exact isFunded
  · rcases step.deliveries.origin _ delivery' (Table.get_of_mem member)
      with ⟨delivery, found, same⟩ | isNew
    · rw [← same]
      exact (funded.deliveries delivery (Table.get_mem found)).later moves
    · exact isNew
  · rcases step.sessions.origin _ session' (Table.get_of_mem member) with ⟨session, found, same⟩
      | ⟨order, foundOrder, same⟩
    · obtain ⟨order, foundOrder, amount, currency⟩ := funded.sessions session (Table.get_mem found)
      obtain ⟨order', foundOrder', sameTerms⟩ := moves.orders _ order foundOrder
      simp only [sessionTerms, Prod.mk.injEq] at same
      simp only [orderTerms, Prod.mk.injEq] at sameTerms
      rw [← same.1, ← same.2.1, ← same.2.2, amount, currency]
      exact ⟨order', foundOrder', sameTerms.2.1.symm, sameTerms.2.2.symm⟩
    · exact ⟨order, foundOrder, congrArg Prod.fst same, congrArg Prod.snd same⟩
  · rcases step.transactions.adds.origin _ tx' (Table.get_of_mem member)
      with ⟨tx, found, same⟩ | isNew
    · have sameOrder : tx.orderId = tx'.orderId := congrArg (fun terms => terms.2.1) same
      exact step.grows.rows _ _
        (funded.transactions tx (Table.get_mem found) orderId (sameOrder.trans ofOrder))
    · exact (isNew orderId ofOrder).1

end Step

/-! ## The orders of a step -/

/-- One order gets a status, and nothing else happens to the orders that matters here. -/
structure OrderSet (id : ℕ) (target : OrderStatus) (orders orders' : Table Order) : Prop where
  terms : Table.Same orderTerms orders orders'
  status : ∀ order', orders'.get (RowKey.id id) = some order' → order'.status = target
  others : ∀ id', id' ≠ id → orders'.get (RowKey.id id') = orders.get (RowKey.id id')

section OrderSet

variable {id : ℕ} {target : OrderStatus} {orders orders' orders'' : Table Order}

theorem OrderSet.modify {f : Order → Order} (kept : ∀ row, orderTerms (f row) = orderTerms row)
    (identity : ∀ row, key (f row) = key row ∧ uniques (f row) = uniques row)
    (status : ∀ row, (f row).status = target) (orders : Table Order) :
    OrderSet id target orders (orders.modify (RowKey.id id) f) := by
  refine ⟨.modify kept orders _, fun order' found => ?_,
    fun id' other => Table.get_modify_of_ne (by simpa using other)⟩
  rw [Table.get_modify] at found
  obtain ⟨order, isOrder, rfl⟩ := Option.map_eq_some_iff.1 found
  rw [Table.rewrite_of_eq (Table.get_key isOrder),
    Table.keepIdentity_eq (identity order).1 (identity order).2]
  exact status order

theorem OrderSet.after (set : OrderSet id target orders' orders'')
    (same : Table.Same orderTerms orders orders')
    (others : ∀ id', id' ≠ id → orders'.get (RowKey.id id') = orders.get (RowKey.id id')) :
    OrderSet id target orders orders'' :=
  ⟨same.trans set.terms, set.status,
    fun id' other => (set.others id' other).trans (others id' other)⟩

theorem OrderSet.withStatus (updatedAt : ℕ) (stamp : Option ℕ) (orders : Table Order) :
    OrderSet id target orders
      (orders.modify (RowKey.id id) (Order.withStatus target updatedAt stamp)) := by
  refine .modify (fun row => ?_) (Order.identity_withStatus target updatedAt stamp)
    (fun _ => rfl) orders
  cases target <;> rfl

end OrderSet

section

variable {db db' : Database}

theorem orders_of_same (same : db' .orders = db .orders) :
    ∀ order' ∈ (db' .orders).rows,
    (∃ order ∈ (db .orders).rows, order'.id = order.id ∧ orderTerms order' = orderTerms order ∧
      order'.status = order.status) ∨
    OrderFunded db' order' := by
  intro order' member
  rw [same] at member
  exact .inl ⟨order', member, rfl, rfl, rfl⟩

theorem orders_of_set {id : ℕ} {target : OrderStatus}
    (set : OrderSet id target (db .orders) (db' .orders)) (funded : Funded db)
    (moves : Moves db db') (backed : unpaid target = false → BackedAt db' id)
    (collected : target = .delivered → ∀ order, orderOf db' id = some order → CashIn db' order) :
    ∀ order' ∈ (db' .orders).rows,
    (∃ order ∈ (db .orders).rows, order'.id = order.id ∧ orderTerms order' = orderTerms order ∧
      order'.status = order.status) ∨
    OrderFunded db' order' := by
  intro order' member
  have found' : (db' .orders).get (RowKey.id order'.id) = some order' := Table.get_of_mem member
  by_cases isSet : order'.id = id
  · subst isSet
    have status := set.status order' found'
    have sameTerms := set.terms (RowKey.id order'.id)
    rw [found'] at sameTerms
    obtain ⟨order, found, sameTerms⟩ := Option.map_eq_some_iff.1 sameTerms.symm
    have sameKey : RowKey.id order.id = RowKey.id order'.id := Table.get_key found
    have sameId := RowKey.id.inj sameKey
    have there : (orderOf db order.id).isSome = true := by
      rw [sameId]
      exact Option.isSome_iff_exists.2 ⟨order, found⟩
    refine .inr ⟨fun isPaid => ?_, ?_,
      fun isDelivered => collected (status.symm.trans isDelivered) order' found'⟩
    · obtain ⟨row, foundRow, backedRow⟩ := backed (status ▸ isPaid)
      rwa [← Option.some.inj (foundRow.symm.trans found')]
    · exact (funded.orders order (Table.get_mem found)).due.later moves there sameId.symm
        sameTerms.symm
  · have found := set.others order'.id isSet
    exact .inl ⟨order', Table.get_mem (found.symm.trans found'), rfl, rfl, rfl⟩

/-! ## The steps of the services -/

/-- A status that is written alone. -/
theorem kept_of_status {o : ℕ} {t : OrderStatus} (funded : Funded db)
    (set : OrderSet o t (db .orders) (db' .orders))
    (others : ∀ table, table ∈ [TableName.deliveries, .paymentSessions, .transactions] →
      db' table = db table) (grows : db.Grows db') (backed : unpaid t = false → BackedAt db o)
    (notDelivered : t ≠ .delivered) : Funded db' ∧ Moves db db' := by
  have step : Step db db' := by
    refine ⟨set.terms.keeps, ?_, ?_, ?_, grows⟩
    · rw [others _ (by decide)]
      exact .refl _ _ _
    · rw [others _ (by decide)]
      exact .refl _ _ _
    · rw [others _ (by decide)]
      exact .refl _
  refine ⟨step.funded funded
    (orders_of_set set funded step.moves (fun isPaid => ?_) fun isDelivered => ?_), step.moves⟩
  · exact (backed isPaid).later step.moves
  · exact absurd isDelivered notDelivered

/-- The order that a placement inserts: nobody has to have paid it yet, or its collection comes with
it. -/
theorem kept_of_placed {branch : CoreBranch} {address : CoreCustomerAddress}
    {branchProducts : List CoreBranchProduct} {customerId publicId : ℕ} {data : CreateOrderRequest}
    {order : Order} (funded : Funded db)
    (placed : Placed branch address branchProducts customerId publicId data order db db') :
    Funded db' ∧ Moves db db' := by
  have absent : orderOf db order.id = none := Table.get_eq_none_of_free placed.free
  have there : (orderOf db' order.id).isSome = true := by
    rw [orderOf, placed.orders]
    exact Option.isSome_iff_exists.2 ⟨order, Table.get_insert_self placed.free⟩
  have same : ∀ t, t ∈ [TableName.deliveries, .paymentSessions] → db' t = db t := fun t member =>
    placed.others t (by revert member; cases t <;> decide)
  have step : Step db db' := by
    refine ⟨?_, ?_, ?_, ?_, placed.grows⟩
    · rw [placed.orders]
      exact .insert _ _ _
    · rw [same _ (by decide)]
      exact .refl _ _ _
    · rw [same _ (by decide)]
      exact .refl _ _ _
    · by_cases isCod : data.paymentMethod = .cod
      · obtain ⟨codProvider, id, now, _, transactions⟩ := placed.cash isCod
        rw [transactions]
        refine .insert (fun orderId ofOrder => ?_) _
        obtain rfl : order.id = orderId := Option.some.inj ofOrder
        exact ⟨there, fun _ => absent⟩
      · rw [placed.online isCod]
        exact .refl _
  refine ⟨step.funded funded fun order' member => ?_, step.moves⟩
  rw [placed.orders] at member
  rcases Table.mem_insert member with old | rfl
  · exact .inl ⟨order', old, rfl, rfl, rfl⟩
  obtain ⟨id, now, isRow⟩ := placed.row
  have method : order'.paymentMethod = data.paymentMethod := by rw [isRow]; rfl
  have status : order'.status = if data.paymentMethod = .online then .pendingPayment
      else .placed := by rw [isRow]; rfl
  refine .inr ⟨fun isPaid isOnline => ?_, fun isCash => ?_, fun isDelivered => ?_⟩
  · rw [status, if_pos (method.symm.trans isOnline)] at isPaid
    cases isPaid
  · obtain ⟨codProvider, id, now, isFree, transactions⟩ := placed.cash (method.symm.trans isCash)
    have member := Table.get_mem (Table.get_insert_self isFree)
    rw [← transactions] at member
    have isCollection : isCollectionOf order'.id
        ((collectionInput branch customerId codProvider order').row id now) = true := by
      simp [isCollectionOf, collectionInput, CreateTransactionInput.row]
    refine ⟨_, ⟨member, isCollection, rfl, fun other among isOther => ?_⟩, .inl rfl⟩
    rw [transactions] at among
    rcases Table.mem_insert among with old | isNew
    · -- No transaction was there for an order that was not.
      simp only [isCollectionOf, decide_eq_true_eq] at isOther
      have exists' := funded.transactions other old _ isOther.2
      rw [absent] at exists'
      cases exists'
    · exact isNew
  · rw [status] at isDelivered
    split at isDelivered <;> cases isDelivered

/-- A delivery is assigned only to an order that is backed. -/
theorem kept_of_assigned {delivery : Delivery} (funded : Funded db)
    (backed : BackedAt db delivery.orderId) (assignedAt updatedAt : ℕ) :
    Funded (db.applyAll (assignmentWrites delivery assignedAt updatedAt)) ∧
      Moves db (db.applyAll (assignmentWrites delivery assignedAt updatedAt)) := by
  have set : OrderSet delivery.orderId .assigned (db .orders)
      (db.applyAll (assignmentWrites delivery assignedAt updatedAt) .orders) := by
    rw [assignmentWrites_orders]
    have kept : ∀ row, orderTerms (Order.withAgent delivery.agentId assignedAt updatedAt row) =
        orderTerms row := fun _ => rfl
    exact .modify kept (fun _ => ⟨rfl, rfl⟩) (fun _ => rfl) _
  have charges : db.applyAll (assignmentWrites delivery assignedAt updatedAt) .transactions =
      db .transactions :=
    assignmentWrites_other _ _ _ _ (by decide) (by decide)
  have sessions : db.applyAll (assignmentWrites delivery assignedAt updatedAt) .paymentSessions =
      db .paymentSessions :=
    assignmentWrites_other _ _ _ _ (by decide) (by decide)
  -- The charges are the same, so the order is still backed.
  have still : BackedAt (db.applyAll (assignmentWrites delivery assignedAt updatedAt))
      delivery.orderId := by
    obtain ⟨order, found, paid⟩ := backed
    obtain ⟨order', found', sameTerms⟩ := set.terms.keeps _ order found
    simp only [orderTerms, Prod.mk.injEq] at sameTerms
    have sameKey : RowKey.id order'.id = RowKey.id order.id :=
      (Table.get_key found').trans (Table.get_key found).symm
    refine ⟨order', found', fun isOnline => ?_⟩
    obtain ⟨tx, member, isPayment⟩ := paid (sameTerms.1 ▸ isOnline)
    refine ⟨tx, by rwa [charges], ?_⟩
    simpa only [isPaymentOf, sameTerms.2.1, sameTerms.2.2, RowKey.id.inj sameKey] using isPayment
  have step : Step db (db.applyAll (assignmentWrites delivery assignedAt updatedAt)) := by
    refine ⟨set.terms.keeps, ?_, ?_, ?_, Db.grows_applyAll db _⟩
    · rw [assignmentWrites_deliveries]
      exact .insert _ still
    · rw [sessions]
      exact .refl _ _ _
    · rw [charges]
      exact .refl _
  exact ⟨step.funded funded (orders_of_set set funded step.moves (fun _ => still) fun isDelivered =>
    nomatch isDelivered), step.moves⟩

/-- Deliveries keep their orders. -/
theorem kept_of_deliveries (funded : Funded db)
    (same : Table.Same Delivery.orderId (db .deliveries) (db' .deliveries))
    (others : ∀ t, t ≠ .deliveries → db' t = db t) (grows : db.Grows db') :
    Funded db' ∧ Moves db db' := by
  have step : Step db db' := by
    refine ⟨?_, same.adds _, ?_, ?_, grows⟩
    · rw [others _ (by decide)]
      exact .refl _ _
    · rw [others _ (by decide)]
      exact .refl _ _ _
    · rw [others _ (by decide)]
      exact .refl _
  exact ⟨step.funded funded (orders_of_same (others _ (by decide))), step.moves⟩

/-- Steps that concern none of these tables. -/
theorem kept_of_aside (funded : Funded db)
    (others : ∀ t, t ∈ [TableName.orders, .deliveries, .paymentSessions, .transactions] →
      db' t = db t) (grows : db.Grows db') : Funded db' ∧ Moves db db' := by
  have step : Step db db' := by
    refine ⟨?_, ?_, ?_, ?_, grows⟩
    · rw [others _ (by decide)]
      exact .refl _ _
    · rw [others _ (by decide)]
      exact .refl _ _ _
    · rw [others _ (by decide)]
      exact .refl _ _ _
    · rw [others _ (by decide)]
      exact .refl _
  exact ⟨step.funded funded (orders_of_same (others _ (by decide))), step.moves⟩

/-- A session is opened for the order's total. -/
theorem kept_of_opened {order : Order} {session : PaymentSession} (funded : Funded db)
    (there : ∃ order', orderOf db order.id = some order' ∧ orderTerms order' = orderTerms order)
    (ofOrder : session.orderId = order.id) (amount : session.amount = order.total)
    (currency : session.currency = order.currency) :
    Funded (db.apply (.insert TableName.paymentSessions session)) ∧
      Moves db (db.apply (.insert TableName.paymentSessions session)) := by
  have others : ∀ t, t ≠ .paymentSessions →
      db.apply (.insert TableName.paymentSessions session) t = db t := fun t other =>
    Db.apply_insert_ne db session other
  have step : Step db (db.apply (.insert TableName.paymentSessions session)) := by
    refine ⟨?_, ?_, ?_, ?_, Db.grows_apply db _⟩
    · rw [others _ (by decide)]
      exact .refl _ _
    · rw [others _ (by decide)]
      exact .refl _ _ _
    · rw [Db.apply_insert_self]
      refine .insert _ ?_
      obtain ⟨order', found, sameTerms⟩ := there
      simp only [orderTerms, Prod.mk.injEq] at sameTerms
      refine ⟨order', ?_, ?_⟩
      · show (db.apply (.insert TableName.paymentSessions session) .orders).get
            (RowKey.id session.orderId) = _
        rw [others _ (by decide), ofOrder]
        exact found
      · simp only [sessionTerms, amount, currency, sameTerms.2.1, sameTerms.2.2]
    · rw [others _ (by decide)]
      exact .refl _
  exact ⟨step.funded funded (orders_of_same (others _ (by decide))), step.moves⟩

/-- The session and the charge of a `pay` event. -/
theorem step_of_charged {order : Order} {session : PaymentSession} {providerTransactionId : String}
    {sessionStatus : PaymentSessionStatus} {status : TransactionStatus}
    (charged : Charged order session providerTransactionId sessionStatus status db db')
    (there : (orderOf db order.id).isSome = true)
    (orders : Table.Keeps orderTerms (db .orders) (db' .orders))
    (deliveries : db' .deliveries = db .deliveries) : Step db db' := by
  obtain ⟨updatedAt, sessions⟩ := charged.sessions
  obtain ⟨id, now, _, transactions⟩ := charged.transactions
  refine ⟨orders, ?_, ?_, ?_, charged.grows⟩
  · rw [deliveries]
    exact .refl _ _ _
  · rw [sessions]
    have kept : ∀ row, sessionTerms (PaymentSession.withStatus sessionStatus updatedAt row) =
        sessionTerms row := fun _ => rfl
    exact (Table.Same.modify kept _ _).adds _
  · rw [transactions]
    refine .insert (fun orderId ofOrder => ?_) _
    obtain rfl : order.id = orderId := Option.some.inj ofOrder
    exact ⟨charged.grows.rows _ _ there, fun impossible => nomatch impossible⟩

/-- A capture pays the order, since the session asks for the order's total. -/
theorem kept_of_captured {order row : Order} {session : PaymentSession}
    {providerTransactionId : String} (funded : Funded db)
    (captured : Captured order session providerTransactionId db db')
    (found : orderOf db order.id = some row) (amount : session.amount = row.total)
    (currency : session.currency = row.currency) : Funded db' ∧ Moves db db' := by
  obtain ⟨updatedAt, stamp, orders⟩ := captured.orders
  have set : OrderSet order.id .placed (db .orders) (db' .orders) := by
    rw [orders]
    exact .withStatus updatedAt stamp _
  have step :=
    step_of_charged captured.toCharged (Option.isSome_iff_exists.2 ⟨row, found⟩) set.terms.keeps
    (captured.others _ (by decide))
  have paid : BackedAt db' order.id := by
    obtain ⟨row', found', sameTerms⟩ := set.terms.keeps _ row found
    obtain ⟨id, now, isFree, transactions⟩ := captured.transactions
    have isCharge := Table.get_mem (Table.get_insert_self isFree)
    rw [← transactions] at isCharge
    have sameId : RowKey.id row'.id = RowKey.id order.id := Table.get_key found'
    simp only [orderTerms, Prod.mk.injEq] at sameTerms
    refine ⟨row', found', fun _ => ⟨_, isCharge, ?_⟩⟩
    simp [isPaymentOf, KashierWebhookService.chargeInput, CreateTransactionInput.row,
      RowKey.id.inj sameId, sameTerms, amount, currency]
  exact ⟨step.funded funded (orders_of_set set funded step.moves (fun _ => paid) fun isDelivered =>
    by cases isDelivered), step.moves⟩

theorem kept_of_refused {order : Order} {session : PaymentSession} {providerTransactionId : String}
    (funded : Funded db) (refused : PaymentRefused order session providerTransactionId db db')
    (there : (orderOf db order.id).isSome = true) : Funded db' ∧ Moves db db' := by
  have orders : db' .orders = db .orders := refused.others _ (by decide)
  have step := step_of_charged refused.toCharged there (by rw [orders]; exact .refl _ _)
    (refused.others _ (by decide))
  exact ⟨step.funded funded (orders_of_same orders), step.moves⟩

theorem kept_of_confirmed {refund : Transaction} (funded : Funded db)
    (confirmed : Confirmed refund db db') : Funded db' ∧ Moves db db' := by
  obtain ⟨updatedAt, flagged⟩ := confirmed.transactions
  have step : Step db db' := by
    refine ⟨?_, ?_, ?_, (Booked.succeeds _ _ updatedAt).trans (.flagged flagged), confirmed.grows⟩
    · rw [confirmed.others _ (by decide)]
      exact .refl _ _
    · rw [confirmed.others _ (by decide)]
      exact .refl _ _ _
    · rw [confirmed.others _ (by decide)]
      exact .refl _ _ _
  exact ⟨step.funded funded (orders_of_same (confirmed.others _ (by decide))), step.moves⟩

/-! ## A settlement -/

/-- What is known of a state that a settlement has seen. -/
structure Seen (order : Order) (db before : Database) : Prop where
  funded : Funded before
  moves : Moves before db
  found : ∃ row, orderOf before order.id = some row ∧ orderTerms row = orderTerms order

theorem collection_of_pending {orderId : ℕ} {tx : Transaction}
    (isPending : isPendingCash orderId tx = true) : isCollectionOf orderId tx = true := by
  simp only [isPendingCash, isCollectionOf, decide_eq_true_eq] at isPending ⊢
  exact ⟨isPending.2.1, isPending.1⟩

/-- A collection of the order that was there at some state is the one that is there now. -/
theorem only_of_seen {order row : Order} {before : Database} {tx tx' : Transaction}
    (seen : Seen order db before) (sameId : row.id = order.id)
    (member : tx ∈ (before .transactions).rows) (isCollection : isCollectionOf order.id tx = true)
    (only : OnlyCollection db row tx') : tx.id = tx'.id := by
  obtain ⟨after, found, terms, _⟩ := seen.moves.transactions _ tx (Table.get_of_mem member)
  simp only [transactionTerms, Prod.mk.injEq] at terms
  have stillCollection : isCollectionOf row.id after = true := by
    rw [isCollectionOf, terms.1, terms.2.1, sameId]
    exact isCollection
  have sameKey : RowKey.id after.id = RowKey.id tx.id := Table.get_key found
  rw [← only.only after (Table.get_mem found) stillCollection]
  exact (RowKey.id.inj sameKey).symm

/-- A settlement leaves the cash of its order collected. -/
theorem cashIn_of_collected {order row : Order} {V : Database → Prop} {charges : Table Transaction}
    (moves : Moves db db') (cash : CashCollected V order (db .transactions) charges)
    (kept : Table.Evolves TransactionMoves charges (db' .transactions))
    (seen : ∀ before, V before → Seen order db before) (due : CashDue db row)
    (there : (orderOf db row.id).isSome = true) (sameId : row.id = order.id)
    (sameTerms : orderTerms row = orderTerms order) : CashIn db' row := by
  intro isCash
  obtain ⟨tx, only, _⟩ := due isCash
  obtain ⟨tx', only', _⟩ := only.later moves there rfl rfl
  have sameMethod : row.paymentMethod = order.paymentMethod := congrArg Prod.fst sameTerms
  cases cash with
  | online notCash _ => exact absurd (sameMethod.symm.trans isCash) notCash
  | collects before pending updatedAt since member isPending changed =>
    refine ⟨tx', only', ?_⟩
    have isSame :=
      only_of_seen (seen before since) sameId member (collection_of_pending isPending) only
    have found : (db .transactions).get (RowKey.id tx.id) = some tx := Table.get_of_mem only.member
    -- The row that was collected is the only collection of the order.
    have collected : charges.get (RowKey.id tx.id) =
        some (Transaction.withStatus .succeeded updatedAt tx) := by
      rw [changed, isSame]
      exact Table.get_modify_self found rfl rfl
    obtain ⟨last, foundLast, terms, status⟩ := kept _ _ collected
    have isCollection : isCollectionOf row.id last = true := by
      simp only [transactionTerms, Prod.mk.injEq] at terms
      rw [isCollectionOf, terms.1, terms.2.1]
      exact only.isCollection
    rw [← only'.only last (Table.get_mem foundLast) isCollection]
    exact status.elim id id
  | nothing before since nobody _ =>
    obtain ⟨funded, moves', old, foundOld, sameOld⟩ := seen before since
    have oldId : RowKey.id old.id = RowKey.id order.id := Table.get_key foundOld
    have isCashOld : old.paymentMethod = .cod :=
      (congrArg Prod.fst (sameOld.trans sameTerms.symm)).trans isCash
    obtain ⟨first, onlyFirst, status⟩ := (funded.orders old (Table.get_mem foundOld)).due isCashOld
    have isCollection := onlyFirst.isCollection
    have isIn : CashIn before old := by
      refine fun _ => ⟨first, onlyFirst, status.resolve_left fun isPending => ?_⟩
      have notPending := nobody first onlyFirst.member
      rw [RowKey.id.inj oldId] at isCollection
      simp only [isCollectionOf, decide_eq_true_eq] at isCollection
      simp [isPendingCash, isCollection, isPending] at notPending
    have thereOld : (orderOf before old.id).isSome = true := by
      rw [RowKey.id.inj oldId, foundOld]
      rfl
    exact isIn.later (moves'.trans moves) thereOld (sameId.trans (RowKey.id.inj oldId).symm)
      (sameTerms.trans sameOld.symm) isCash
  | vanished before before' pending since since' member isPending isGone _ =>
    obtain ⟨funded, moves', old, foundOld, sameOld⟩ := seen before' since'
    have oldId : RowKey.id old.id = RowKey.id order.id := Table.get_key foundOld
    have isCashOld : old.paymentMethod = .cod :=
      (congrArg Prod.fst (sameOld.trans sameTerms.symm)).trans isCash
    obtain ⟨first, onlyFirst, _⟩ := (funded.orders old (Table.get_mem foundOld)).due isCashOld
    -- Both are the one collection of the order, so it was there.
    have isSame :=
      only_of_seen (seen before since) sameId member (collection_of_pending isPending) only
    have isFirst := only_of_seen ⟨funded, moves', old, foundOld, sameOld⟩ sameId onlyFirst.member
      (RowKey.id.inj oldId ▸ onlyFirst.isCollection) only
    have found : (before' .transactions).get (RowKey.id first.id) = some first :=
      Table.get_of_mem onlyFirst.member
    rw [isFirst, ← isSame, isGone] at found
    cases found

theorem booked_of_collected {charges charges' : Table Transaction}
    (collected : Collected charges charges') : Booked db db' charges charges' := by
  rcases collected with rfl | ⟨id, updatedAt, rfl⟩
  · exact .refl _
  · exact .succeeds charges _ updatedAt

theorem kept_of_settled {order row : Order} {branch : CoreBranch} {delivery : Delivery}
    {commission agentEarning : ℤ} {V : Database → Prop} (funded : Funded db)
    (settled : Settled order branch delivery commission agentEarning V db db')
    (found : orderOf db order.id = some row) (sameTerms : orderTerms row = orderTerms order)
    (backed : BackedAt db order.id) (seen : ∀ before, V before → Seen order db before) :
    Funded db' ∧ Moves db db' := by
  obtain ⟨stamp, deliveries⟩ := settled.deliveries
  obtain ⟨updatedAt, updatedAt', stamp', orders⟩ := settled.orders
  obtain ⟨charges, id, now, cash, _, transactions⟩ := settled.transactions
  have set : OrderSet order.id .delivered (db .orders) (db' .orders) := by
    have kept : ∀ row, orderTerms (Order.withCommission commission updatedAt row) =
        orderTerms row := fun _ => rfl
    rw [orders]
    refine (OrderSet.withStatus updatedAt' stamp' _).after (.modify kept _ _) fun id' other => ?_
    exact Table.get_modify_of_ne (by simpa using other)
  have there' : (orderOf db' order.id).isSome = true :=
    settled.grows.rows _ _ (Option.isSome_iff_exists.2 ⟨row, found⟩)
  -- The commission follows the collection, if there was one.
  have commissioned : Booked db db' charges (db' .transactions) := by
    rw [transactions]
    refine .insert (fun orderId ofOrder => ?_) _
    obtain rfl : order.id = orderId := Option.some.inj ofOrder
    exact ⟨there', fun impossible => nomatch impossible⟩
  have step : Step db db' := by
    refine ⟨set.terms.keeps, ?_, ?_, (booked_of_collected cash.collected).trans commissioned,
      settled.grows⟩
    · have kept : ∀ row : Delivery, (Delivery.withEarning agentEarning row).orderId =
          row.orderId := fun _ => rfl
      rw [deliveries]
      exact ((Table.Same.modify (Ledger.orderId_withStatus _ _) _ _).trans
        (.modify kept _ _)).adds _
    · rw [settled.others _ (by decide)]
      exact .refl _ _ _
  have sameId : RowKey.id row.id = RowKey.id order.id := Table.get_key found
  have rowId := RowKey.id.inj sameId
  refine ⟨step.funded funded (orders_of_set set funded step.moves (fun _ => backed.later step.moves)
    fun _ row' found' => ?_),
    step.moves⟩
  have there : (orderOf db row.id).isSome = true := by
    rw [rowId, found]
    rfl
  -- The cash of the order is in.
  have isIn := cashIn_of_collected step.moves cash commissioned.evolves seen
    (funded.orders row (Table.get_mem found)).due there rowId
    sameTerms
  obtain ⟨kept, foundKept, sameTerms'⟩ := set.terms.keeps _ row found
  have isKept : kept = row' := Option.some.inj (foundKept.symm.trans found')
  subst isKept
  have keptId : RowKey.id kept.id = RowKey.id order.id := Table.get_key found'
  exact isIn.later (.refl db') (by rwa [rowId]) ((RowKey.id.inj keptId).trans rowId.symm) sameTerms'

end

end SwiftBite.Verified.Funding
