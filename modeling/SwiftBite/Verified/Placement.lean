import SwiftBite.Verified.StatusWrite

/-! # The transaction of a placement

What `OrderService.placeOrder` commits, for any protocol: the order with its items, the
collection to come of a cash order, and the cancellation that follows a refused reservation.
-/

set_option autoImplicit false

namespace SwiftBite.Verified

open Store Protocol Statement OrderService

/-- The collection that a cash order waits for. -/
def collectionInput (branch : CoreBranch) (customerId : ℕ) (codProvider : Option ℕ)
    (order : Order) : CreateTransactionInput where
  orderId := some order.id
  transactionType := .codCollection
  method := .cod
  providerId := codProvider
  status := .pending
  amount := order.total
  currency := branch.currency
  srcAccId := some customerId
  dstAccId := some branch.restaurantOwnerId

/-- What is left of a placement when the branch and the address have passed their checks. -/
theorem placeOrder_checked {core : Core} {customerId : ℕ} {data : CreateOrderRequest}
    {branch : CoreBranch} {address : CoreCustomerAddress} {branchProducts : List CoreBranchProduct}
    (answered : core.getBranch data.branchId = .ok branch)
    (accepts : branch.acceptOrders = true ∧ branch.restaurantActive = true)
    (located : core.getCustomerAddress data.customerAddressId = .ok address)
    (isOwn : address.userId = customerId)
    (listed : core.getBranchProducts data.branchId (data.items.map OrderItemInput.productId) =
      .ok branchProducts) :
    placeOrder core customerId data = (do
      throwIf (shortfalls branchProducts data.items ≠ [])
        (.outOfStockError (shortfalls branchProducts data.items))
      let publicId ← uuidv4
      let placed ← insertOrder branch address branchProducts customerId publicId data
      reserve core placed.1 data
      pure placed) := by
  rw [placeOrder, answered, located, listed]
  refine (throwIf_bind_of_not ?_).trans (throwIf_bind_of_not ?_)
  · simp [accepts]
  · simp [isOwn]

/-- The rows of the order's items. -/
def placedItems (branchProducts : List CoreBranchProduct) (data : CreateOrderRequest) (orderId : ℕ)
    (ids : List ℕ) (now : ℕ) : List (RowOf .orderItems) :=
  List.zipWith (fun item id => item.row orderId id now) (itemInputs branchProducts data.items) ids

/-- What a placement commits. -/
structure Placed (branch : CoreBranch) (address : CoreCustomerAddress)
    (branchProducts : List CoreBranchProduct) (customerId publicId : ℕ) (data : CreateOrderRequest)
    (order : Order) (db db' : Database) : Prop where
  row : ∃ id now, order =
    (orderInput branch address branchProducts customerId publicId data).row id now
  free : (db .orders).conflicts order = false
  orders : db' .orders = (db .orders).insert order
  items : ∃ ids now, ids.length = (itemInputs branchProducts data.items).length ∧
    insertable (db .orderItems) (placedItems branchProducts data order.id ids now) = true ∧
    db' .orderItems =
      (placedItems branchProducts data order.id ids now).foldl Table.insert (db .orderItems)
  cash : data.paymentMethod = .cod → ∃ codProvider id now,
    (db .transactions).conflicts
      ((collectionInput branch customerId codProvider order).row id now) = false ∧
    db' .transactions =
      (db .transactions).insert ((collectionInput branch customerId codProvider order).row id now)
  online : data.paymentMethod ≠ .cod → db' .transactions = db .transactions
  silent : data.paymentMethod ≠ .cod → db' .eventsOutbox = db .eventsOutbox
  /-- A cash order is announced at once. -/
  tells : story (db' .eventsOutbox) = story (db .eventsOutbox) ++
    if data.paymentMethod = .cod then [⟨order.id, "order.placed", order.status⟩] else []
  others : ∀ t, t ∉ [TableName.orders, .orderItems, .transactions, .eventsOutbox] → db' t = db t
  grows : db.Grows db'

section

variable {allow : Local RowOf RowKey → Database → List SqlWrite → Prop} {V : Database → Prop}
  {db : Database}
  {began : ℕ} {ws : List SqlWrite} {seen : List (Sigma RowOf)}

theorem atomic_nextvals (t : TableName) (n : ℕ)
    {Q : Except Err (List ℕ) → Local RowOf RowKey → Prop} {l : Local RowOf RowKey}
    (next : ∀ ids : List ℕ, ids.length = n → Q (.ok ids) l) (fails : ∀ err l, Q (.error err) l) :
    (nextvals t n).Atomic allow V db Q l := by
  induction n generalizing Q with
  | zero => exact next [] rfl
  | succ n inductionHypothesis =>
    refine .bind (.sure (fun x => ?_) (fails _ _))
    refine .bind (inductionHypothesis (fun ids isLength => ?_) fails)
    exact next _ (by simp [isLength])

theorem atomic_idle {β : Type} {prog : Service β} {Q : Except Err β → Local RowOf RowKey → Prop}
    {l : Local RowOf RowKey} (quiet : prog.Quiet idle) (next : ∀ result, Q result l) :
    prog.Atomic allow V db Q l := by
  refine .quiet quiet fun result ws' rows none hidden => ?_
  rw [List.eq_nil_iff_forall_not_mem.2 none, List.eq_nil_iff_forall_not_mem.2 hidden,
    Local.grow_nil]
  exact next result

/-- The writes of a placement, in their order. -/
theorem placed_of_writes {branch : CoreBranch} {address : CoreCustomerAddress}
    {branchProducts : List CoreBranchProduct} {customerId publicId : ℕ} {data : CreateOrderRequest}
    {order : Order} {ids : List ℕ} {now : ℕ} {charges outbox : List SqlWrite}
    (row : ∃ id now,
      order = (orderInput branch address branchProducts customerId publicId data).row id now)
    (free : (db .orders).conflicts order = false)
    (isLength : ids.length = (itemInputs branchProducts data.items).length)
    (isInsertable :
      insertable (db .orderItems) (placedItems branchProducts data order.id ids now) = true)
    (chargesTable : ∀ w ∈ charges, w.table = .transactions)
    (outboxTable : ∀ w ∈ outbox, w.table = .eventsOutbox)
    (cash : data.paymentMethod = .cod → ∃ codProvider id now,
      (db .transactions).conflicts
        ((collectionInput branch customerId codProvider order).row id now) = false ∧
      charges = [.insert TableName.transactions
        ((collectionInput branch customerId codProvider order).row id now)])
    (online : data.paymentMethod ≠ .cod → charges = [])
    (silent : data.paymentMethod ≠ .cod → outbox = [])
    (tells :
      story (db.applyAll ([.insert TableName.orders order] ++
        (placedItems branchProducts data order.id ids now).map (.insert TableName.orderItems) ++
        charges ++ outbox) .eventsOutbox) =
      story (db.applyAll ([.insert TableName.orders order] ++
        (placedItems branchProducts data order.id ids now).map (.insert TableName.orderItems) ++
        charges) .eventsOutbox) ++
      if data.paymentMethod = .cod then [⟨order.id, "order.placed", order.status⟩] else []) :
    Placed branch address branchProducts customerId publicId data order db
      (db.applyAll ([.insert TableName.orders order] ++
      (placedItems branchProducts data order.id ids now).map (.insert TableName.orderItems) ++
        charges ++ outbox)) := by
  have itemsTable : ∀ w ∈ ((placedItems branchProducts data order.id ids now).map
      (.insert TableName.orderItems) : List SqlWrite),
      w.table = .orderItems := by
    intro w member
    obtain ⟨row, _, rfl⟩ := List.mem_map.1 member
    rfl
  have orders : ∀ t, t ≠ .orders →
      db.applyAll [(.insert TableName.orders order : SqlWrite)] t = db t := fun t other =>
    Db.applyAll_other (by simpa [Write.table] using Ne.symm other) db
  -- The order, its items, the collection, what an online order leaves alone, the story.
  refine ⟨row, free, ?_, ⟨ids, now, isLength, isInsertable, ?_⟩, fun isCod => ?_, fun notCod => ?_,
    fun notCod => ?_, ?_, fun t other => ?_,
    Db.grows_applyAll _ _⟩
  · rw [Db.applyAll_append_table outboxTable (by decide),
      Db.applyAll_append_table chargesTable (by decide),
      Db.applyAll_append_table itemsTable (by decide)]
    simp [Db.apply]
  · rw [Db.applyAll_append_table outboxTable (by decide),
      Db.applyAll_append_table chargesTable (by decide),
      Db.applyAll_append_inserts, orders _ (by decide)]
  · obtain ⟨codProvider, id, now', isFree, isCharges⟩ := cash isCod
    refine ⟨codProvider, id, now', isFree, ?_⟩
    rw [Db.applyAll_append_table outboxTable (by decide), isCharges, Db.applyAll_concat_insert,
      Db.applyAll_append_table itemsTable (by decide), orders _ (by decide)]
  · rw [Db.applyAll_append_table outboxTable (by decide), online notCod, List.append_nil,
      Db.applyAll_append_table itemsTable (by decide), orders _ (by decide)]
  · rw [silent notCod, List.append_nil, Db.applyAll_append_table chargesTable (by decide),
      Db.applyAll_append_table itemsTable (by decide),
      orders _ (by decide)]
  · rwa [Db.applyAll_append_table chargesTable (by decide),
      Db.applyAll_append_table itemsTable (by decide), orders _ (by decide)] at tells
  · simp only [List.mem_cons, List.not_mem_nil, or_false, not_or] at other
    obtain ⟨notOrders, notItems, notTransactions, notOutbox⟩ := other
    rw [Db.applyAll_append_table outboxTable (Ne.symm notOutbox),
      Db.applyAll_append_table chargesTable (Ne.symm notTransactions),
      Db.applyAll_append_table itemsTable (Ne.symm notItems), orders _ notOrders]

section Footprints

variable {writes : SqlWrite → Prop} {moves : Shared → Shared → Prop} [Ticking moves]

theorem quiet_placeCod (branch : CoreBranch) (customerId : ℕ) (order : Order)
    (items : List OrderItem)
    (charges : ∀ w : SqlWrite, w.table ∈ [TableName.transactions, .eventsOutbox] → writes w) :
    (placeCod branch customerId order items).Quiet ⟨writes, fun _ => True, moves⟩ := by
  refine (quiet_findPaymentProviderByName .trx "cod").bind fun _ =>
    (quiet_createTransaction _ fun _ => charges _ (by simp [Write.table])).bind fun _ =>
      quiet_uuidv4.bind fun _ => ?_
  exact quiet_insertOutboxEvent _ (fun _ => charges _ (by simp [Write.table])) fun _ => trivial

theorem quiet_bulkInsertItems (orderId : ℕ) (items : List BulkInsertItemInput)
    (inserts : ∀ row : OrderItem, writes (.insert TableName.orderItems row)) :
    (bulkInsertItems .trx orderId items).Quiet ⟨writes, fun _ => True, moves⟩ :=
  (quiet_nextvals _ _).bind fun _ =>
    Prog.Quiet.exec (.insertAll (fun _ _ _ => inserts _) fun _ => trivial)

/-- The transaction of a placement writes the order, its items, its charge and its event. -/
theorem harmless_insertOrder (branch : CoreBranch) (address : CoreCustomerAddress)
    (branchProducts : List CoreBranchProduct) (customerId publicId : ℕ) (data : CreateOrderRequest)
    (placing : ∀ w : SqlWrite,
      w.table ∈ [TableName.orders, .orderItems, .transactions, .eventsOutbox] → writes w) :
    (insertOrder branch address branchProducts customerId publicId data).Harmless
      ⟨writes, fun _ => True, moves⟩ := by
  refine .transaction
    (Prog.Harmless.bind ((quiet_nextval _).harmless.bind fun id => ?_) fun order => ?_)
  · exact .exec (.insert (fun _ => placing _ (by simp [Write.table])) fun _ => trivial)
  · refine (quiet_bulkInsertItems _ _ fun _ => placing _ (by simp [Write.table])).harmless.bind
      fun items => ?_
    dsimp only
    split
    · exact (quiet_placeCod _ _ _ _ fun w isCharge => placing w (by simp_all)).harmless.bind
        fun _ => trivial
    · exact trivial

/-- A placement may cancel its order again. -/
theorem harmless_placeOrder (core : Core) (customerId : ℕ) (data : CreateOrderRequest)
    (placing : ∀ w : SqlWrite,
      w.table ∈ [TableName.orders, .orderItems, .transactions, .eventsOutbox] → writes w) :
    (placeOrder core customerId data).Harmless ⟨writes, fun _ => True, moves⟩ := by
  refine Prog.Quiet.ofExcept.harmless.bind fun branch =>
    (quiet_throwIf _ _).harmless.bind fun _ => ?_
  refine Prog.Quiet.ofExcept.harmless.bind fun address =>
    (quiet_throwIf _ _).harmless.bind fun _ => ?_
  refine Prog.Quiet.ofExcept.harmless.bind fun branchProducts =>
    (quiet_throwIf _ _).harmless.bind fun _ => ?_
  refine quiet_uuidv4.harmless.bind fun publicId =>
    (harmless_insertOrder _ _ _ _ _ _ placing).bind fun placed => ?_
  refine Prog.Harmless.bind ?_ fun _ => trivial
  unfold reserve
  split
  · exact trivial
  · refine Prog.Harmless.bind (quiet_nowIso.harmless.bind fun _ =>
      (quiet_orderStampTime _).harmless.bind fun _ => ?_) fun _ => trivial
    exact .exec (.updateByKey (placing _ (by simp [Write.table])) fun _ => trivial)

end Footprints

/-- The collection and the event of a cash order. -/
theorem atomic_placeCod {branch : CoreBranch} {customerId : ℕ} {order : Order}
    {items : List OrderItem} {Q : Except Err Unit → Local RowOf RowKey → Prop}
    (others : ∀ w ∈ ws, w.table ≠ .transactions)
    (next : ∀ codProvider id now outbox seen', (∀ w ∈ outbox, w.table = .eventsOutbox) →
      (db .transactions).conflicts
        ((collectionInput branch customerId codProvider order).row id now) = false →
      story (db.applyAll (ws ++ [.insert TableName.transactions
        ((collectionInput branch customerId codProvider order).row id now)] ++ outbox)
        .eventsOutbox) =
      story (db.applyAll (ws ++ [.insert TableName.transactions
        ((collectionInput branch customerId codProvider order).row id now)]) .eventsOutbox) ++
        [⟨order.id, "order.placed", order.status⟩] →
      Q (.ok ()) ⟨some ⟨began, ws ++ [.insert TableName.transactions
        ((collectionInput branch customerId codProvider order).row id now)] ++ outbox⟩, seen'⟩)
    (fails : ∀ err l, Q (.error err) l) :
    (placeCod branch customerId order items).Atomic allow V db Q ⟨some ⟨began, ws⟩, seen⟩ := by
  refine .bind (atomic_idle (quiet_findPaymentProviderByName .trx "cod") fun result => ?_)
  cases result with
  | error err => exact fails _ _
  | ok codProvider =>
    refine .bind (.bind (.sure (fun x => ?_) (fails _ _)))
    refine .insert (fun now before since _ isFree => ?_) (fails _ _)
    rw [Db.applyAll_other others] at isFree
    refine .bind (.sure (fun x' => ?_) (fails _ _))
    exact atomic_insertOutboxEvent (fun outbox seen' outboxTable tells =>
      next codProvider _ now outbox _ outboxTable isFree tells) fails

end

section

variable {Γ : Type} {P : Protocol (K := RowKey) RowOf Shared Err Operation Reply Γ} {i : ℕ}
  {op : Operation}
  {s : Sit RowOf Shared Operation Γ} {Q : Sit RowOf Shared Operation Γ → Prop}

theorem wp_insertOrder (lawful : P.Lawful) (free : P.Free i op Later) {branch : CoreBranch}
    {address : CoreCustomerAddress} {branchProducts : List CoreBranchProduct}
    {customerId publicId : ℕ} {data : CreateOrderRequest} {seen : List (Sigma RowOf)}
    {R : Except Err (Order × List OrderItem) → Local RowOf RowKey →
      Sit RowOf Shared Operation Γ → Prop}
    (places : ∀ order items s' seen' db', P.Env i op ⟨none, []⟩ s s' → P.Alongside i op s' →
      Placed branch address branchProducts customerId publicId data order s'.db db' →
      P.After i op s' ⟨none, seen'⟩ db' s'.side (R (.ok (order, items)) ⟨none, seen'⟩))
    (fails : ∀ err seen' s', P.Env i op ⟨none, []⟩ s s' → R (.error err) ⟨none, seen'⟩ s') :
    P.wp i op (insertOrder branch address branchProducts customerId publicId data) R
      ⟨none, seen⟩ s := by
  refine wp_transaction_atomic (b := anything) lawful free ?_ (fun s₁ began env₁ beside => ?_) fails
  · refine Prog.Quiet.bind ((quiet_nextval _).bind fun _ => ?_) fun order =>
      (quiet_bulkInsertItems _ _ fun _ => trivial).bind fun items => ?_
    · exact Prog.Quiet.exec (.insert (fun _ => trivial) fun _ => trivial)
    · dsimp only
      split
      · exact (quiet_placeCod _ _ _ _ fun _ _ => trivial).bind fun _ => .pure
      · exact .pure
  refine .bind (.bind (.sure (fun x => ?_) fun _ impossible => by cases impossible))
  refine .insert (fun now before since _ isFree => ?_) fun _ impossible => by cases impossible
  refine .bind (.bind (atomic_nextvals .orderItems _ (fun ids isLength => ?_)
    fun _ _ _ impossible => by cases impossible))
  refine .insertAll (fun now' isInsertable => ?_) fun _ impossible => by cases impossible
  rw [Db.applyAll_concat_insert_ne _ _ _ (by decide), Db.applyAll_nil] at isInsertable
  dsimp only
  split
  next isCod =>
    -- Cash: the collection is recorded and the order announced in the same transaction.
    refine .bind (atomic_placeCod ?_
      (fun codProvider id now'' outbox seen' outboxTable isFree' tells => ?_)
      fun _ _ _ impossible => by cases impossible)
    · intro w member
      simp only [List.nil_append, List.singleton_append, List.mem_cons, List.mem_map] at member
      rcases member with rfl | ⟨row, _, rfl⟩
      · exact fun impossible => by cases impossible
      · exact fun impossible => by cases impossible
    · rintro value isValue
      cases isValue
      refine places _ _ s₁ _ _ env₁ beside
        (placed_of_writes ⟨_, now, rfl⟩ isFree isLength isInsertable ?_ outboxTable
        (fun _ => ⟨codProvider, id, now'', isFree', rfl⟩) (fun notCod => absurd isCod notCod)
        (fun notCod => absurd isCod notCod) (by rw [if_pos isCod]; exact tells))
      simp [Write.table]
  next notCod =>
    rintro value isValue
    cases isValue
    -- Online: the order and its items are all there is.
    refine places _ _ s₁ _ _ env₁ beside ?_
    have placed : Placed branch address branchProducts customerId publicId data _ s₁.db _ :=
      placed_of_writes
      ⟨_, now, rfl⟩ isFree isLength isInsertable
      (fun w none => absurd none List.not_mem_nil) (fun w none => absurd none List.not_mem_nil)
      (fun isCod => absurd isCod notCod) (fun _ => rfl) (fun _ => rfl) (by simp [notCod])
    rwa [List.append_nil, List.append_nil] at placed

/-- What is known when a placement commits at `s'`. -/
structure Placing (P : Protocol (K := RowKey) RowOf Shared Err Operation Reply Γ) (core : Core)
    (i : ℕ) (op : Operation) (customerId : ℕ) (data : CreateOrderRequest) (branch : CoreBranch)
    (order : Order) (s s' : Sit RowOf Shared Operation Γ) (db' : Database) : Prop where
  answered : core.getBranch data.branchId = .ok branch
  accepts : branch.acceptOrders = true ∧ branch.restaurantActive = true
  until' : P.Env i op ⟨none, []⟩ s s'
  beside : P.Alongside i op s'
  placed : ∃ address branchProducts publicId,
    core.getCustomerAddress data.customerAddressId = .ok address ∧
    address.userId = customerId ∧
    core.getBranchProducts data.branchId (data.items.map OrderItemInput.productId) =
      .ok branchProducts ∧
    shortfalls branchProducts data.items = [] ∧
    Placed branch address branchProducts customerId publicId data order s'.db db'

/-- The order is placed, and is cancelled again if its stock cannot be reserved. -/
structure MayCompensate (P : Protocol (K := RowKey) RowOf Shared Err Operation Reply Γ) (i : ℕ)
    (op : Operation) (orderId : ℕ) (Q : Sit RowOf Shared Operation Γ → Prop)
    (s : Sit RowOf Shared Operation Γ) : Prop where
  commits : ∀ row updatedAt stamp s', P.Env i op ⟨none, []⟩ s s' → P.Alongside i op s' →
    orderOf s'.db orderId = some row →
    (∃ seen, P.allow ⟨none, seen⟩ s'.db [.update TableName.orders (RowKey.id orderId)
      (Order.withStatus .cancelled updatedAt stamp)]) →
    P.After i op s' ⟨none, []⟩
      (s'.db.apply (.update TableName.orders (RowKey.id orderId)
      (Order.withStatus .cancelled updatedAt stamp))) s'.side Q
  stops : ∀ s', P.Env i op ⟨none, []⟩ s s' → Q s'

theorem wp_reserve (lawful : P.Lawful) (free : P.Free i op Later) {core : Core} {order : Order}
    {data : CreateOrderRequest} {seen : List (Sigma RowOf)} (holds : P.inv s)
    (self : s.live i = some op) (may : MayCompensate P i op order.id Q s) :
    P.wp i op (reserve core order data) (fun _ _ s' => Q s') ⟨none, seen⟩ s := by
  unfold reserve
  split
  next => exact may.stops s (.refl lawful holds self)
  next err _ =>
    refine wp_do (wp_do (wp_nowIso lawful free holds fun updatedAt s₁ env₁ => ?_))
    refine wp_do (wp_orderStampTime lawful free .cancelled env₁.inv env₁.self
      fun stamp s₂ env₂ => ?_)
    have until₂ := (env₁.trans lawful env₂).released []
    refine wp_updateByKey_conn lawful env₂.inv (fun beside row isRow allowed => ?_)
      (fun _ s₃ env₃ => ?_) fun _ s₃ env₃ => ?_
    · exact (may.commits row updatedAt stamp s₂ until₂ beside isRow ⟨_, allowed⟩).released _
    · exact may.stops s₃ (until₂.trans lawful (env₃.released []))
    · exact may.stops s₃ (until₂.trans lawful (env₃.released []))

theorem wp_placeOrder (lawful : P.Lawful) (free : P.Free i op Later) {core : Core} {customerId : ℕ}
    {data : CreateOrderRequest} (holds : P.inv s) (self : s.live i = some op)
    (stops : ∀ s', P.Env i op ⟨none, []⟩ s s' → Q s')
    (places : ∀ branch order s' db', Placing P core i op customerId data branch order s s' db' →
      P.After i op s' ⟨none, []⟩ db' s'.side (MayCompensate P i op order.id Q)) :
    P.wp i op (placeOrder core customerId data) (fun _ _ s' => Q s') .start s := by
  have here : Q s := stops s (.refl lawful holds self)
  refine wp_do (wp_ofExcept ?_)
  cases answered : core.getBranch data.branchId with
  | error err => exact here
  | ok branch =>
    refine wp_do (wp_throwIf (fun accepts => wp_do (wp_ofExcept ?_)) fun _ => here)
    simp only [not_or, Bool.not_eq_false] at accepts
    cases located : core.getCustomerAddress data.customerAddressId with
    | error err => exact here
    | ok address =>
      refine wp_do (wp_throwIf (fun isOwn => wp_do (wp_ofExcept ?_)) fun _ => here)
      cases listed : core.getBranchProducts data.branchId
        (data.items.map OrderItemInput.productId) with
      | error err => exact here
      | ok branchProducts =>
        refine wp_do (wp_throwIf (fun inStock => ?_) fun _ => here)
        refine wp_do (wp_uuidv4 lawful free holds fun publicId s₁ env₁ => wp_do ?_)
        have until₁ := env₁.released []
        refine wp_insertOrder lawful free (fun order items s₂ seen' db' env₂ beside placed => ?_)
          fun _ _ s₂ env₂ =>
          stops s₂ (until₁.trans lawful env₂)
        have after := places branch order s₂ db' ⟨answered, accepts, until₁.trans lawful env₂,
          beside, address, branchProducts,
          publicId, located, of_not_not isOwn, listed, of_not_not inStock, placed⟩
        refine (after.released seen').imp fun s₃ inv₃ self₃ may =>
          wp_do (wp_mono ?_ (wp_reserve lawful free inv₃ self₃ may))
        intro result l s₄ ends
        cases result with
        | error err => exact ends
        | ok _ => exact ends

end

end SwiftBite.Verified
