import SwiftBite.Store.Added
import SwiftBite.Store.Follow
import SwiftBite.Verified.Alone
import SwiftBite.Verified.PaymentSteps
import SwiftBite.Verified.Placement

/-! # Placements that fail

The order is committed before its stock is reserved.  What undoes it then is one update of its
status: neither the collection that a cash order waits for nor the event that announces it is
taken back.
-/

set_option autoImplicit false

namespace SwiftBite.Verified.FailedPlacements

open Store Prog Protocol OrderService

/-- The order is cancelled, nothing is to be collected for it, and who was told of it is told
that. -/
structure NothingLive (db db' : Database) (order : Order) : Prop where
  cancelled : order.status = .cancelled
  uncollected : ∀ row : Transaction, (db .transactions).Added (db' .transactions) row →
    row.orderId = some order.id →
    row.transactionType = .codCollection → row.status ≠ .pending
  told : ∀ event : OutboxEvent, (db .eventsOutbox).Added (db' .eventsOutbox) event →
    event.aggregateId = order.id →
    event.eventType = "order.placed" → ∃ later : OutboxEvent,
      (db .eventsOutbox).Added (db' .eventsOutbox) later ∧ event.id < later.id ∧
      later.aggregateId = order.id ∧ later.eventType = "order.status_changed" ∧
      statusIn later.payload = some .cancelled

/-- There is no new order, or nothing of it is live. -/
def LeavesNothing (db db' : Database) : Prop :=
  ∀ order : Order, (db .orders).Added (db' .orders) order → NothingLive db db' order

/-- What a placement does until its commit. -/
def place (core : Core) (customerId : ℕ) (data : CreateOrderRequest) :
    Service (Order × List OrderItem) := do
  let branch ← .ofExcept (core.getBranch data.branchId)
  throwIf (branch.acceptOrders = false ∨ branch.restaurantActive = false)
    .BranchNotAcceptingOrdersError
  let address ← .ofExcept (core.getCustomerAddress data.customerAddressId)
  throwIf (address.userId ≠ customerId) .AddressNotOwnedError
  let branchProducts ← .ofExcept
      (core.getBranchProducts data.branchId (data.items.map OrderItemInput.productId))
  throwIf (shortfalls branchProducts data.items ≠ [])
    (.outOfStockError (shortfalls branchProducts data.items))
  let publicId ← uuidv4
  insertOrder branch address branchProducts customerId publicId data

theorem placeOrder_eq (core : Core) (customerId : ℕ) (data : CreateOrderRequest) :
    placeOrder core customerId data = place core customerId data >>= fun placed =>
      reserve core placed.1 data >>= fun _ => pure placed := by
  simp only [placeOrder, place, Bind.bind, Prog.bind_assoc]

/-- The order was committed, and it is a cash order or a statement after the commit failed. -/
def Residue (core : Core) (customerId : ℕ) (data : CreateOrderRequest) (choices : List Choice)
    (db : Database) (x : Shared) : Prop :=
  ∃ before after middle placed, choices = before ++ after ∧
  (place core customerId data).follow before .start db x = some middle ∧
    middle.result = .ok placed ∧ (data.paymentMethod = .cod ∨ .fault ∈ after)

section

variable {core : Core} {customerId : ℕ} {data : CreateOrderRequest} {db db' : Database} {x : Shared}
  {choices : List Choice}

/-! ## Until the commit -/

/-- A placement that throws before its commit has changed nothing. -/
abbrev PlacedOrNothing (customerId : ℕ) (data : CreateOrderRequest) (db : Database)
    (result : Except Err (Order × List OrderItem)) (db' : Database) : Prop :=
  match result with
  | .error _ => db' = db
  | .ok placed =>
    ∃ branch address branchProducts publicId,
      Placed branch address branchProducts customerId publicId data placed.1 db db'

theorem solo_insertOrder (branch : CoreBranch) (address : CoreCustomerAddress)
    (branchProducts : List CoreBranchProduct) (publicId : ℕ) :
    (insertOrder branch address branchProducts customerId publicId data).solo freely
      (fun result _ db' _ => PlacedOrNothing customerId data db result db') .start db x := by
  refine solo_of_undisturbed fun s isDb => ?_
  refine wp_insertOrder undisturbed_lawful (undisturbed_free _)
    (fun order items s' seen' db' env _ placed => ?_) fun err seen' s' env => ?_
  · have same : db = s'.db := isDb.symm.trans env.drift.1.1
    refine after_alone (.inr trivial) trivial fun s'' (same' : db' = s''.db) => ?_
    exact ⟨branch, address, branchProducts, publicId, same' ▸ same ▸ placed⟩
  · exact (isDb.symm.trans env.drift.1.1 : db = s'.db).symm

theorem solo_place :
    (place core customerId data).solo freely
      (fun result _ db' _ => PlacedOrNothing customerId data db result db') .start db x := by
  refine solo_do (solo_ofExcept ?_)
  cases core.getBranch data.branchId with
  | error err => rfl
  | ok branch =>
    refine solo_do (solo_throwIf (fun _ => solo_do (solo_ofExcept ?_)) fun _ => rfl)
    cases core.getCustomerAddress data.customerAddressId with
    | error err => rfl
    | ok address =>
      refine solo_do (solo_throwIf (fun _ => solo_do (solo_ofExcept ?_)) fun _ => rfl)
      cases core.getBranchProducts data.branchId (data.items.map OrderItemInput.productId) with
      | error err => rfl
      | ok branchProducts =>
        refine solo_do (solo_throwIf (fun _ => solo_do (solo_sure ?_)) fun _ => rfl)
        exact solo_insertOrder branch address branchProducts x.uuids

/-! ## After the commit -/

theorem leavesNothing_self : LeavesNothing db db := fun _ added => absurd added Table.not_added_self

/-- The reservation is refused: the order is cancelled, unless the update fails. -/
theorem reserve_cases {orderId : ℕ} {order : Order} (isId : order.id = orderId)
    {l : Local RowOf RowKey} {placed : Order × List OrderItem} (isPlaced : placed.1 = order)
    (found : orderOf db orderId = some order)
    {ending : Ending (K := RowKey) RowOf Shared Err (Order × List OrderItem)} {err : Err}
    (threw : ending.result = .error err)
    (played : (reserve core placed.1 data >>= fun _ =>
      pure placed : Service (Order × List OrderItem)).follow choices l db x = some ending) :
    (.fault ∈ choices ∧ ending.db = db) ∨ (.fault ∉ choices ∧ ∃ updatedAt stamp,
      ending.db = db.apply (.update TableName.orders (RowKey.id orderId)
        (Order.withStatus .cancelled updatedAt stamp))) := by
  subst isPlaced isId
  rw [reserve] at played
  cases answered : core.reserveStock data.branchId
    (data.items.map fun item => (item.productId, item.quantity)) with
  | ok _ =>
    rw [answered] at played
    obtain ⟨rfl, rfl⟩ := follow_done played
    cases threw
  | error refused =>
    rw [answered] at played
    obtain ⟨c₀, rest₀, rfl, _, afterClock⟩ := follow_sure played
    obtain ⟨c₁, rest₁, rfl, _, afterStamp⟩ := follow_sure afterClock
    obtain ⟨c₂, rest₂, rfl, ⟨rfl, afterUpdate⟩ | ⟨l', updated, afterUpdate⟩⟩ :=
      follow_updateByKey found afterStamp
    · obtain ⟨rfl, rfl⟩ := follow_done afterUpdate
      exact .inl ⟨by simp, rfl⟩
    · obtain ⟨rfl, rfl⟩ := follow_done afterUpdate
      refine .inr ⟨?_, _, _, rfl⟩
      simp_all [eq_comm]

/-! ## The order -/

section

variable {branch : CoreBranch} {address : CoreCustomerAddress}
  {branchProducts : List CoreBranchProduct} {publicId : ℕ} {order row : Order}
  (placed : Placed branch address branchProducts customerId publicId data order db db')

include placed

theorem orders_added : Table.AddedOnly (db .orders) (db' .orders) order := by
  rw [placed.orders]
  exact Table.addedOnly_insert placed.free

theorem not_cancelled : order.status ≠ .cancelled := by
  obtain ⟨id, now, rfl⟩ := placed.row
  simp only [CreateOrderInput.row, orderInput]
  split <;> simp

/-- What happens to the orders later does not take the collection of a cash order back. -/
theorem cash_is_live (isCod : data.paymentMethod = .cod) {db'' : Database}
    (same : db'' .transactions = db' .transactions) (sameId : row.id = order.id) :
    ¬ NothingLive db db'' row := by
  intro nothingLive
  obtain ⟨codProvider, id, now, free, charged⟩ := placed.cash isCod
  have added : (db .transactions).Added (db'' .transactions)
      ((collectionInput branch customerId codProvider order).row id now) := by
    rw [same, charged]
    exact (Table.addedOnly_insert free).added
  exact nothingLive.uncollected _ added (congrArg some sameId.symm) rfl rfl

theorem online_nothingLive (isOnline : data.paymentMethod ≠ .cod)
    (isCancelled : row.status = .cancelled) {db'' : Database}
    (transactions : db'' .transactions = db' .transactions)
    (outbox : db'' .eventsOutbox = db' .eventsOutbox) : NothingLive db db'' row where
  cancelled := isCancelled
  uncollected tx added := by
    rw [transactions, placed.online isOnline] at added
    exact absurd added Table.not_added_self
  told event added := by
    rw [outbox, placed.silent isOnline] at added
    exact absurd added Table.not_added_self

end

end

/-- Whichever statements fail, and whatever the core service answers. -/
theorem failed_placement_leaves_nothing_iff (core : Core) (customerId : ℕ)
    (data : CreateOrderRequest) (db : Database) (x : Shared) (choices : List Choice)
    (ending : Ending (K := RowKey) RowOf Shared Err (Order × List OrderItem)) (err : Err)
    (played : (placeOrder core customerId data).follow choices .start db x = some ending)
    (threw : ending.result = .error err) :
    LeavesNothing db ending.db ↔ ¬ Residue core customerId data choices db x := by
  rw [placeOrder_eq] at played
  obtain ⟨before, after, middle, rfl, isMiddle, onward⟩ := follow_bind played
  have committed := solo_follow solo_place (fun _ => trivial) isMiddle
  cases result : middle.result with
  | error err' =>
    -- the call has thrown before its commit
    rw [followRest, result] at onward
    rw [result] at committed
    obtain ⟨rfl, rfl⟩ := follow_done onward
    refine ⟨fun _ => ?_, fun _ => ?_⟩
    · rintro ⟨before', after', middle', placed, same, isMiddle', isPlaced, _⟩
      obtain ⟨_, rfl⟩ := follow_split same isMiddle isMiddle'
      cases result.symm.trans isPlaced
    · rw [show middle.db = db from committed]
      exact leavesNothing_self
  | ok placed =>
    rw [followRest, result] at onward
    rw [result] at committed
    obtain ⟨branch, address, branchProducts, publicId, isPlaced⟩ := committed
    have residue : Residue core customerId data (before ++ after) db x ↔
        data.paymentMethod = .cod ∨ .fault ∈ after := by
      constructor
      · rintro ⟨before', after', middle', placed', same, isMiddle', _, left⟩
        obtain ⟨rfl, _⟩ := follow_split same isMiddle isMiddle'
        exact left
      · exact fun left => ⟨before, after, middle, placed, rfl, isMiddle, result, left⟩
    have only := orders_added isPlaced
    rw [residue]
    obtain ⟨failed, same⟩ | ⟨succeeded, updatedAt, stamp, isUpdated⟩ :=
      reserve_cases rfl rfl only.added.1 threw onward
    · -- the order stays as it was placed
      refine ⟨fun nothing => ?_, fun none => absurd (.inr failed) none⟩
      rw [same] at nothing
      exact absurd (nothing placed.1 only.added).cancelled (not_cancelled isPlaced)
    · have onlyCancelled :=
        only.modify (Order.identity_withStatus .cancelled updatedAt stamp placed.1).1
        (Order.identity_withStatus .cancelled updatedAt stamp placed.1).2
      have isOrders : ending.db .orders = (middle.db .orders).modify (key placed.1)
          (Order.withStatus .cancelled updatedAt stamp) := by
        rw [isUpdated, Db.apply_update_self]
        rfl
      rw [← isOrders] at onlyCancelled
      have others : ∀ t, t ≠ .orders → ending.db t = middle.db t := fun t other => by
        rw [isUpdated]
        exact Db.apply_update_ne _ _ _ other
      constructor
      · rintro nothing (isCod | isFault)
        · refine cash_is_live isPlaced isCod (others .transactions (by decide)) ?_
            (nothing _ onlyCancelled.added)
          exact RowKey.id.inj (Order.identity_withStatus .cancelled updatedAt stamp placed.1).1
        · exact succeeded isFault
      · intro none order added
        obtain rfl := (onlyCancelled order).1 added
        exact online_nothingLive isPlaced (fun isCod => none (.inl isCod)) rfl
          (others .transactions (by decide)) (others .eventsOutbox (by decide))

/-! ## The stock is gone -/

/-- The core service refuses to reserve the stock. -/
def soldOut : Core :=
  { Sample.core with reserveStock := fun _ _ => .error (Err.outOfStockError []) }

def placeTea (paymentMethod : PaymentMethod) : Service (Order × List OrderItem) :=
  placeOrder soldOut 7 ⟨6, 8, paymentMethod, [⟨1, 1⟩]⟩

/-- The order and its collection, when the call has thrown. -/
def remains (ending : Ending (K := RowKey) RowOf Shared Err (Order × List OrderItem)) :
    Option (Option OrderStatus × Option (Option ℕ × TransactionType × TransactionStatus)) :=
  match ending.result with
  | .ok _ => none
  | .error _ => some ((orderOf ending.db 10).map Order.status,
      (transactionOf ending.db 10).map fun row => (row.orderId, row.transactionType, row.status))

theorem threw_of_remains {ending : Ending (K := RowKey) RowOf Shared Err (Order × List OrderItem)}
    {left : Option OrderStatus × Option (Option ℕ × TransactionType × TransactionStatus)}
    (isLeft : remains ending = some left) : ∃ err, ending.result = .error err := by
  unfold remains at isLeft
  split at isLeft
  · cases isLeft
  next err threw => exact ⟨err, threw⟩

/-- One statement after the other is made: an online order is committed after seven of them, a cash
order after thirteen. -/
def unfailing (n : ℕ) : List Choice := List.replicate n (.pick 0)

theorem online_order_is_cancelled :
    ∃ ending,
    (placeTea .online).follow (unfailing 10) .start Database.empty Sample.shared = some ending ∧
    LeavesNothing Database.empty ending.db := by
  have ends : ((placeTea .online).follow (unfailing 10) .start Database.empty Sample.shared).bind
      remains = some (some .cancelled, none) := by
    decide +kernel
  obtain ⟨ending, played, isLeft⟩ := Option.bind_eq_some_iff.1 ends
  obtain ⟨err, threw⟩ := threw_of_remains isLeft
  refine ⟨ending, played, (failed_placement_leaves_nothing_iff soldOut 7
    ⟨6, 8, .online, [⟨1, 1⟩]⟩ Database.empty Sample.shared (unfailing 10) ending err
    played threw).2 ?_⟩
  rintro ⟨before, after, middle, placed, split, _, _, isCod | isFault⟩
  · cases isCod
  · have impossible : Choice.fault ∈ unfailing 10 := split ▸ List.mem_append_right before isFault
    simp [unfailing] at impossible

/-- The cash of a cancelled order is still to be collected. -/
theorem cash_order_stays_live :
    ∃ ending,
      (placeTea .cod).follow (unfailing 16) .start Database.empty Sample.shared = some ending ∧
    (∃ err, ending.result = .error err) ∧ ¬ LeavesNothing Database.empty ending.db := by
  have ends :
      ((placeTea .cod).follow (unfailing 16) .start Database.empty Sample.shared).bind remains =
      some (some .cancelled, some (some 10, .codCollection, .pending)) := by decide +kernel
  obtain ⟨ending, played, isLeft⟩ := Option.bind_eq_some_iff.1 ends
  obtain ⟨err, threw⟩ := threw_of_remains isLeft
  refine ⟨ending, played, ⟨err, threw⟩, fun nothing => ?_⟩
  simp only [remains, threw, Option.some.injEq, Prod.mk.injEq, Option.map_eq_some_iff] at isLeft
  obtain ⟨⟨order, isOrder, _⟩, row, isRow, ofOrder, isCollection, pending⟩ := isLeft
  have orderKey : RowKey.id 10 = key order := (Table.get_key isOrder).symm
  have rowKey : RowKey.id 10 = key row := (Table.get_key isRow).symm
  have nothingLive := nothing order ⟨orderKey ▸ isOrder, orderKey ▸ rfl⟩
  exact nothingLive.uncollected row ⟨rowKey ▸ isRow, rowKey ▸ rfl⟩
    (ofOrder.trans (congrArg some (RowKey.id.inj orderKey))) isCollection pending

end SwiftBite.Verified.FailedPlacements
