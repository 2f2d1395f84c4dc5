import SwiftBite.Verified.DeliverySteps
import SwiftBite.Verified.Ledger

/-! # One settlement for each order

Only one delivery of an order is under way, and only while the order is unsettled.  A call
that has given a delivery up may replace it; the ghost component records which call that is
for each order.  All of this rests on updates that find the status that was read: the
services themselves do not check it.
-/

set_option autoImplicit false

namespace SwiftBite.Verified.OneSettlement

open Store Protocol Verified DeliveryService
open SwiftBite.Verified.Ledger (Moves balanceIn)

def isCommissionFor (orderId : ℕ) (tx : Transaction) : Bool :=
  decide (tx.transactionType = .commission ∧ tx.orderId = some orderId)

def isEarningFor (orderId : ℕ) (row : AgentEarning) : Bool := decide (row.orderId = orderId)

structure Unsettled (db : Database) (orderId : ℕ) : Prop where
  commissions : (db .transactions).count (isCommissionFor orderId) = 0
  earnings : (db .agentEarnings).count (isEarningFor orderId) = 0

structure AtMostOnce (db : Database) (orderId : ℕ) : Prop where
  commissions : (db .transactions).count (isCommissionFor orderId) ≤ 1
  earnings : (db .agentEarnings).count (isEarningFor orderId) ≤ 1

/-- No delivery of the order is under way. -/
def NoneActive (db : Database) (orderId : ℕ) : Prop :=
  ∀ a ∈ (db .deliveries).rows, a.orderId = orderId → a.status.active = false

def Ready (db : Database) (orderId : ℕ) : Prop :=
  ∃ row, orderOf db orderId = some row ∧ row.status = .ready

/-- The invariant; `holder` is the call that may replace the order's delivery. -/
structure Coherent (db : Database) (holder : ℕ → Option ℕ) : Prop where
  oneActive : ∀ a ∈ (db .deliveries).rows, ∀ b ∈ (db .deliveries).rows, a.orderId = b.orderId →
    a.status.active = true → b.status.active = true → a = b
  active : ∀ a ∈ (db .deliveries).rows, a.status.active = true →
    holder a.orderId = none ∧ Unsettled db a.orderId
  held : ∀ orderId, holder orderId ≠ none → Unsettled db orderId
  ready : ∀ orderId, Ready db orderId →
    holder orderId = none ∧ Unsettled db orderId ∧ NoneActive db orderId
  once : ∀ orderId, AtMostOnce db orderId

/-! ## What a step may change -/

/-- Deliveries under way come from deliveries under way. -/
def ActiveFrom (deliveries deliveries' : Table Delivery) : Prop :=
  ∀ a' ∈ deliveries'.rows, a'.status.active = true →
    ∃ a ∈ deliveries.rows, a.id = a'.id ∧ a.orderId = a'.orderId ∧ a.status.active = true

theorem ActiveFrom.refl (deliveries : Table Delivery) : ActiveFrom deliveries deliveries :=
  fun a member isActive => ⟨a, member, rfl, rfl, isActive⟩

theorem ActiveFrom.modify {deliveries : Table Delivery} {id : ℕ} {f : Delivery → Delivery}
    (kept : ∀ row, (f row).id = row.id ∧ (f row).orderId = row.orderId)
    (was : ∀ row ∈ deliveries.rows, row.id = id → (f row).status.active = true →
      row.status.active = true) : ActiveFrom deliveries (deliveries.modify (RowKey.id id) f) := by
  intro a' member isActive
  obtain ⟨a, member', rfl⟩ := Table.mem_modify.1 member
  refine ⟨a, member', ?_⟩
  by_cases same : key a = RowKey.id id
  · have sameId : a.id = id := by simpa [key] using same
    revert isActive
    rw [Table.rewrite_of_eq same]
    unfold Table.keepIdentity
    split
    · intro isActive
      exact ⟨(kept a).1.symm, (kept a).2.symm, was a member' sameId isActive⟩
    · exact fun isActive => ⟨rfl, rfl, isActive⟩
  · rw [Table.rewrite_of_ne same] at isActive ⊢
    exact ⟨rfl, rfl, isActive⟩

theorem ActiveFrom.trans {deliveries deliveries' deliveries'' : Table Delivery}
    (first : ActiveFrom deliveries deliveries') (second : ActiveFrom deliveries' deliveries'') :
    ActiveFrom deliveries deliveries'' := by
  intro a'' member isActive
  obtain ⟨a', member', sameId', sameOrder', isActive'⟩ := second a'' member isActive
  obtain ⟨a, member, sameId, sameOrder, isActive⟩ := first a' member' isActive'
  exact ⟨a, member, sameId.trans sameId', sameOrder.trans sameOrder', isActive⟩

/-- A change of orders that makes none of them ready. -/
theorem ready_of_modify {orders : Table Order} {k k' : RowKey} {f : Order → Order} {row' : Order}
    (never : ∀ row, (f row).status = .ready → row.status = .ready)
    (found : (orders.modify k f).get k' = some row') (isReady : row'.status = .ready) :
    ∃ row, orders.get k' = some row ∧ row.status = .ready := by
  rw [Table.get_modify] at found
  obtain ⟨row, found', rfl⟩ := Option.map_eq_some_iff.1 found
  refine ⟨row, found', ?_⟩
  exact Table.rewrite_induction
    (motive := fun changed : Order => changed.status = .ready → row.status = .ready) id
    (never row) isReady

theorem coherent_step {db db' : Database} {holder holder' : ℕ → Option ℕ}
    (coherent : Coherent db holder) (deliveries : ActiveFrom (db .deliveries) (db' .deliveries))
    (orders : ∀ orderId, Ready db' orderId → Ready db orderId)
    (settled : ∀ orderId, Unsettled db orderId →
      Unsettled db' orderId ∨ holder' orderId = none ∧ NoneActive db' orderId ∧ ¬ Ready db' orderId)
    (held : ∀ orderId, holder' orderId = holder orderId ∨ Unsettled db' orderId ∧
      NoneActive db' orderId ∧ ¬ Ready db' orderId) (once : ∀ orderId, AtMostOnce db' orderId) :
    Coherent db' holder' := by
  have noneActive : ∀ orderId, NoneActive db orderId → NoneActive db' orderId := by
    intro orderId none a' member sameOrder
    by_contra isActive
    rw [Bool.not_eq_false] at isActive
    obtain ⟨a, member', _, sameOrder', isActive'⟩ := deliveries a' member isActive
    rw [none a member' (sameOrder'.trans sameOrder)] at isActive'
    cases isActive'
  -- An active delivery of the new state was active before and of the same order.
  refine ⟨fun a' ha b' hb same aActive bActive => ?_, fun a' member isActive => ?_,
    fun orderId isHeld => ?_,
    fun orderId isReady => ?_, once⟩
  · obtain ⟨a, ha', aId, aOrder, aActive'⟩ := deliveries a' ha aActive
    obtain ⟨b, hb', bId, bOrder, bActive'⟩ := deliveries b' hb bActive
    have isSame := coherent.oneActive a ha' b hb' (by rw [aOrder, bOrder, same]) aActive' bActive'
    subst isSame
    refine Table.eq_of_key ha hb ?_
    show RowKey.id a'.id = RowKey.id b'.id
    rw [← aId, ← bId]
  · obtain ⟨a, member', _, sameOrder, isActive'⟩ := deliveries a' member isActive
    have before := coherent.active a member' isActive'
    rw [sameOrder] at before
    have busy : ¬ NoneActive db' a'.orderId := by
      intro none
      rw [none a' member rfl] at isActive
      cases isActive
    constructor
    · rcases held a'.orderId with same | ⟨_, none, _⟩
      · rw [same]; exact before.1
      · exact absurd none busy
    · rcases settled a'.orderId before.2 with unsettled | ⟨_, none, _⟩
      · exact unsettled
      · exact absurd none busy
  · rcases held orderId with same | ⟨unsettled, _⟩
    · rw [same] at isHeld
      rcases settled orderId (coherent.held orderId isHeld) with unsettled | ⟨none, _⟩
      · exact unsettled
      · rw [same] at none
        exact absurd none isHeld
    · exact unsettled
  · obtain ⟨free, unsettled, none⟩ := coherent.ready orderId (orders orderId isReady)
    refine ⟨?_, ?_, noneActive orderId none⟩
    · rcases held orderId with same | ⟨_, _, notReady⟩
      · rw [same]; exact free
      · exact absurd isReady notReady
    · rcases settled orderId unsettled with stays | ⟨_, _, notReady⟩
      · exact stays
      · exact absurd isReady notReady

/-! ## The four commits -/

section Commits

variable {db : Database} {holder : ℕ → Option ℕ}

theorem kept_withStatus (status : DeliveryStatus) (stamp : Option ℕ) (row : Delivery) :
    (Delivery.withStatus status stamp row).id = row.id ∧
    (Delivery.withStatus status stamp row).orderId = row.orderId := by
  cases status <;> exact ⟨rfl, rfl⟩

@[simp] theorem status_withStatus (status : DeliveryStatus) (stamp : Option ℕ) (row : Delivery) :
    (Delivery.withStatus status stamp row).status = status := rfl

theorem not_ready_of_active (coherent : Coherent db holder) {row : Delivery}
    (member : row ∈ (db .deliveries).rows) (isActive : row.status.active = true) :
    ¬ Ready db row.orderId := by
  intro isReady
  have none := (coherent.ready _ isReady).2.2 row member rfl
  rw [none] at isActive
  cases isActive

/-- Once its active delivery has become inactive, the order has none. -/
theorem noneActive_of_inactive {db' : Database} (coherent : Coherent db holder)
    (deliveries : ActiveFrom (db .deliveries) (db' .deliveries)) {row row' : Delivery}
    (member : row ∈ (db .deliveries).rows) (isActive : row.status.active = true)
    (found : deliveryOf db' row.id = some row') (isOver : row'.status.active = false) :
    NoneActive db' row.orderId := by
  intro a' member' sameOrder
  by_contra isActive'
  rw [Bool.not_eq_false] at isActive'
  obtain ⟨a, among, sameId, sameOrder', wasActive⟩ := deliveries a' member' isActive'
  have isRow : a = row :=
    coherent.oneActive a among row member (sameOrder'.trans sameOrder) wasActive isActive
  have same : deliveryOf db' a'.id = some a' := Table.get_of_mem member'
  rw [← sameId, isRow, found] at same
  cases same
  rw [isOver] at isActive'
  cases isActive'

theorem unsettled_congr {db db' : Database} (transactions : db' .transactions = db .transactions)
    (earnings : db' .agentEarnings = db .agentEarnings) {orderId : ℕ}
    (unsettled : Unsettled db orderId) : Unsettled db' orderId :=
  ⟨by rw [transactions]; exact unsettled.commissions, by rw [earnings]; exact unsettled.earnings⟩

theorem once_congr {db db' : Database} (transactions : db' .transactions = db .transactions)
    (earnings : db' .agentEarnings = db .agentEarnings) {orderId : ℕ}
    (once : AtMostOnce db orderId) : AtMostOnce db' orderId :=
  ⟨by rw [transactions]; exact once.commissions, by rw [earnings]; exact once.earnings⟩

theorem coherent_of_assignment {delivery : Delivery} {assignedAt updatedAt : ℕ}
    (coherent : Coherent db holder) (free : (db .deliveries).conflicts delivery = false)
    (unsettled : Unsettled db delivery.orderId) (idle : NoneActive db delivery.orderId) :
    Coherent (db.applyAll (assignmentWrites delivery assignedAt updatedAt))
      (Function.update holder delivery.orderId none) := by
  have transactions := assignmentWrites_other db delivery assignedAt updatedAt
    (t := .transactions) (by decide) (by decide)
  have earnings := assignmentWrites_other db delivery assignedAt updatedAt
    (t := .agentEarnings) (by decide) (by decide)
  have rows : ∀ a ∈ (db.applyAll (assignmentWrites delivery assignedAt updatedAt) .deliveries).rows,
      a ∈ (db .deliveries).rows ∨ a = delivery := by
    intro a member
    rw [assignmentWrites_deliveries] at member
    exact Table.mem_insert member
  -- No order becomes ready, and the assigned one is not.
  have readyBefore : ∀ orderId,
      Ready (db.applyAll (assignmentWrites delivery assignedAt updatedAt)) orderId →
      Ready db orderId ∧ orderId ≠ delivery.orderId := by
    rintro orderId ⟨row', found, isReady⟩
    rw [orderOf, assignmentWrites_orders] at found
    obtain ⟨row, found', wasReady⟩ := ready_of_modify (fun _ isAssigned =>
      absurd (show OrderStatus.assigned = .ready from isAssigned) (by decide)) found isReady
    refine ⟨⟨row, found', wasReady⟩, ?_⟩
    rintro rfl
    rw [Table.get_modify_self found' rfl rfl] at found
    cases found
    cases isReady
  refine ⟨fun a ha b hb same aActive bActive => ?_, fun a member isActive => ?_,
    fun orderId isHeld => ?_,
    fun orderId isReady => ?_, fun orderId =>
      once_congr transactions earnings (coherent.once orderId)⟩
  · rcases rows a ha with aOld | rfl
    · rcases rows b hb with bOld | rfl
      · exact coherent.oneActive a aOld b bOld same aActive bActive
      · rw [idle a aOld same] at aActive
        cases aActive
    · rcases rows b hb with bOld | rfl
      · rw [idle b bOld same.symm] at bActive
        cases bActive
      · rfl
  · rcases rows a member with old | rfl
    · have before := coherent.active a old isActive
      have other : a.orderId ≠ delivery.orderId := by
        intro same
        rw [idle a old same] at isActive
        cases isActive
      rw [Function.update_of_ne other]
      exact ⟨before.1, unsettled_congr transactions earnings before.2⟩
    · exact ⟨Function.update_self _ _ _, unsettled_congr transactions earnings unsettled⟩
  · have other : orderId ≠ delivery.orderId := by
      rintro rfl
      exact isHeld (Function.update_self _ _ _)
    rw [Function.update_of_ne other] at isHeld
    exact unsettled_congr transactions earnings (coherent.held orderId isHeld)
  · obtain ⟨wasReady, other⟩ := readyBefore orderId isReady
    obtain ⟨holderNone, open', none'⟩ := coherent.ready orderId wasReady
    rw [Function.update_of_ne other]
    refine ⟨holderNone, unsettled_congr transactions earnings open', ?_⟩
    intro a member sameOrder
    rcases rows a member with old | rfl
    · exact none' a old sameOrder
    · exact absurd sameOrder.symm other

/-- A delivery under way takes its next status. -/
theorem coherent_of_status {row : Delivery} {status : DeliveryStatus} {stamp : Option ℕ} (i : ℕ)
    (coherent : Coherent db holder) (found : deliveryOf db row.id = some row)
    (isActive : row.status.active = true) :
    Coherent (db.apply (.update TableName.deliveries (RowKey.id row.id)
      (Delivery.withStatus status stamp) : SqlWrite))
      (if status.active = true then holder else Function.update holder row.orderId (some i)) := by
  have member : row ∈ (db .deliveries).rows := Table.get_mem found
  have was : ∀ a ∈ (db .deliveries).rows, a.id = row.id →
      (Delivery.withStatus status stamp a).status.active = true →
      a.status.active = true := by
    intro a among sameId _
    have isRow : a = row :=
      Table.eq_of_key among member (show RowKey.id a.id = RowKey.id row.id by rw [sameId])
    rw [isRow]
    exact isActive
  have deliveries := ActiveFrom.modify (kept_withStatus status stamp) was
  have others := fun (t : TableName) (other : t ≠ .deliveries) =>
    Db.apply_update_ne db (RowKey.id row.id) (Delivery.withStatus status stamp) other
  have orders : ∀ orderId, Ready (db.apply (.update TableName.deliveries (RowKey.id row.id)
      (Delivery.withStatus status stamp) : SqlWrite)) orderId → Ready db orderId := by
    rintro orderId ⟨order, isOrder, isReady⟩
    exact ⟨order, by rw [orderOf, others _ (by decide)] at isOrder; exact isOrder, isReady⟩
  have settled : ∀ orderId, Unsettled db orderId →
      Unsettled (db.apply (.update TableName.deliveries (RowKey.id row.id)
      (Delivery.withStatus status stamp) : SqlWrite)) orderId := fun orderId =>
    unsettled_congr (others _ (by decide)) (others _ (by decide))
  refine coherent_step coherent (by rw [Db.apply_update_self]; exact deliveries) orders
    (fun orderId unsettled => .inl (settled orderId unsettled)) (fun orderId => ?_)
    fun orderId => once_congr (others _ (by decide)) (others _ (by decide)) (coherent.once orderId)
  split
  next => exact .inl rfl
  next isOver =>
    -- The order whose delivery has ended goes over to the call; the others keep their holder.
    by_cases same : orderId = row.orderId
    · subst same
      refine .inr ⟨settled _ (coherent.active row member isActive).2, ?_, fun isReady =>
        not_ready_of_active coherent member isActive (orders _ isReady)⟩
      have ended : deliveryOf (db.apply
          (.update TableName.deliveries (RowKey.id row.id) (Delivery.withStatus status stamp) :
          SqlWrite)) row.id = some (Delivery.withStatus status stamp row) := by
        rw [deliveryOf, Db.apply_update_self]
        exact Table.get_modify_self found (by cases status <;> rfl) rfl
      exact noneActive_of_inactive coherent (by rw [Db.apply_update_self]; exact deliveries) member
        isActive ended
        (by simpa using isOver)
    · exact .inl (Function.update_of_ne same _ _)

theorem coherent_of_pick {orderId updatedAt : ℕ} {stamp : Option ℕ}
    (coherent : Coherent db holder) :
    Coherent (db.apply (.update TableName.orders (RowKey.id orderId)
      (Order.withStatus .picked updatedAt stamp) : SqlWrite))
      holder := by
  have others := fun (t : TableName) (other : t ≠ .orders) =>
    Db.apply_update_ne db (RowKey.id orderId) (Order.withStatus .picked updatedAt stamp) other
  refine coherent_step coherent (by rw [others _ (by decide)]; exact .refl _) ?_
    (fun orderId unsettled =>
    .inl (unsettled_congr (others _ (by decide)) (others _ (by decide)) unsettled))
    (fun _ => .inl rfl) fun orderId =>
      once_congr (others _ (by decide)) (others _ (by decide)) (coherent.once orderId)
  rintro orderId' ⟨row', found, isReady⟩
  rw [orderOf, Db.apply_update_self] at found
  exact ready_of_modify (fun _ isPicked =>
    absurd (show OrderStatus.picked = .ready from isPicked) (by decide)) found isReady

theorem commissions_of_settled {order : Order} {branch : CoreBranch} {delivery : Delivery}
    {commission agentEarning : ℤ} {V : Database → Prop} {db' : Database}
    (settled : Settled order branch delivery commission agentEarning V db db') (o : ℕ) :
    (db' .transactions).count (isCommissionFor o) =
      (db .transactions).count (isCommissionFor o) + if order.id = o then 1 else 0 := by
  obtain ⟨charges, id, now, cash, free, transactions⟩ := settled.transactions
  have collected := cash.collected
  rw [transactions, Table.count_insert free, Ledger.count_collected collected fun _ _ _ => rfl]
  simp [isCommissionFor, commissionInput, CreateTransactionInput.row]

theorem coherent_of_settled {order : Order} {branch : CoreBranch} {delivery row : Delivery}
    {commission agentEarning : ℤ} {V : Database → Prop} {db' : Database}
    (coherent : Coherent db holder)
    (settled : Settled order branch delivery commission agentEarning V db db')
    (found : deliveryOf db delivery.id = some row) (isActive : row.status.active = true)
    (ofOrder : row.orderId = order.id) : Coherent db' holder := by
  have member : row ∈ (db .deliveries).rows := Table.get_mem found
  have sameId : row.id = delivery.id := by
    have sameKey : RowKey.id row.id = RowKey.id delivery.id := Table.get_key found
    simpa using sameKey
  obtain ⟨stamp, deliveries⟩ := settled.deliveries
  obtain ⟨time, time', stamp', orders⟩ := settled.orders
  have commissions := commissions_of_settled settled
  have earnings : ∀ o, (db' .agentEarnings).count (isEarningFor o) ≤
      (db .agentEarnings).count (isEarningFor o) + if order.id = o then 1 else 0 := by
    intro o
    rcases settled.earnings with ⟨_, same⟩ | ⟨id', now', free', inserted⟩
    · rw [same]
      omega
    · rw [inserted, Table.count_insert free']
      by_cases same : order.id = o
      · simp [isEarningFor, earningInput, CreateAgentEarningInput.row, same]
      · simp [isEarningFor, earningInput, CreateAgentEarningInput.row, same]
  -- The delivery was under way, so its order was open.
  have unsettled : Unsettled db order.id := by
    rw [← ofOrder]
    exact (coherent.active row member isActive).2
  have free' : holder order.id = none := by
    rw [← ofOrder]
    exact (coherent.active row member isActive).1
  have activeFrom : ActiveFrom (db .deliveries) (db' .deliveries) := by
    rw [deliveries]
    refine ActiveFrom.trans (.modify (kept_withStatus .delivered stamp) fun _ _ _ isActive =>
      by cases isActive)
      (.modify (fun _ => ⟨rfl, rfl⟩) fun _ _ _ isActive => isActive)
  have readyBefore : ∀ orderId, Ready db' orderId → Ready db orderId := by
    rintro orderId ⟨row'', isOrder, isReady⟩
    rw [orderOf, orders] at isOrder
    obtain ⟨row', found', isReady'⟩ := ready_of_modify
      (fun _ isDelivered =>
      absurd (show OrderStatus.delivered = .ready from isDelivered) (by decide)) isOrder isReady
    exact ready_of_modify (f := Order.withCommission commission time)
      (fun _ isReady => isReady) found' isReady'
  have ended : deliveryOf db' row.id =
      some (Delivery.withEarning agentEarning (Delivery.withStatus .delivered stamp row)) := by
    rw [deliveryOf, deliveries, sameId]
    exact Table.get_modify_self (Table.get_modify_self found rfl rfl) rfl rfl
  have done := noneActive_of_inactive coherent activeFrom member isActive ended rfl
  rw [ofOrder] at done
  have notReady : ¬ Ready db' order.id := by
    rw [← ofOrder]
    exact fun isReady => not_ready_of_active coherent member isActive (readyBefore _ isReady)
  refine coherent_step coherent activeFrom readyBefore (fun o open' => ?_)
    (fun _ => .inl rfl) fun o => ?_
  · by_cases same : order.id = o
    · subst same
      exact .inr ⟨free', done, notReady⟩
    · have more := commissions o
      have more' := earnings o
      rw [if_neg same] at more more'
      exact .inl ⟨by rw [more, open'.commissions], Nat.le_zero.1 (more'.trans_eq open'.earnings)⟩
  · have more := commissions o
    have more' := earnings o
    have before := coherent.once o
    by_cases same : order.id = o
    · subst same
      rw [if_pos rfl, unsettled.commissions] at more
      rw [if_pos rfl, unsettled.earnings] at more'
      exact ⟨by omega, by omega⟩
    · rw [if_neg same] at more more'
      exact ⟨more.trans_le before.commissions, more'.trans before.earnings⟩

/-- A change of the database that the invariant does not look at. -/
theorem coherent_congr {db' : Database} (coherent : Coherent db holder)
    (deliveries : ActiveFrom (db .deliveries) (db' .deliveries))
    (orders : ∀ orderId, Ready db' orderId → Ready db orderId)
    (transactions : db' .transactions = db .transactions)
    (earnings : db' .agentEarnings = db .agentEarnings) : Coherent db' holder :=
  coherent_step coherent deliveries orders
    (fun _ unsettled => .inl (unsettled_congr transactions earnings unsettled))
    (fun _ => .inl rfl) fun orderId => once_congr transactions earnings (coherent.once orderId)

theorem coherent_of_cancelled {order : Order} {db' : Database} (coherent : Coherent db holder)
    (written : StatusWritten order .cancelled db db') : Coherent db' holder := by
  obtain ⟨updatedAt, stamp, orders⟩ := written.orders
  refine coherent_congr coherent ?_ ?_ (written.others _ (by decide) (by decide))
    (written.others _ (by decide) (by decide))
  · rw [written.others .deliveries (by decide) (by decide)]
    exact .refl _
  · rintro orderId ⟨row', found, isReady⟩
    rw [orderOf, orders] at found
    exact ready_of_modify (fun _ isCancelled =>
      absurd (show OrderStatus.cancelled = .ready from isCancelled) (by decide)) found isReady

end Commits

/-- Deliveries are cancelled, one by one. -/
def Cancels (w : SqlWrite) : Prop := ∃ k, w = .update TableName.deliveries k Delivery.cancel

theorem activeFrom_of_cancels {db : Database} {ws : List SqlWrite} (cancels : ∀ w ∈ ws, Cancels w) :
    ActiveFrom (db .deliveries) (db.applyAll ws .deliveries) := by
  induction ws generalizing db with
  | nil => exact .refl _
  | cons w ws inductionHypothesis =>
    obtain ⟨k, rfl⟩ := cancels w List.mem_cons_self
    rw [Db.applyAll_cons]
    refine ActiveFrom.trans ?_
      (inductionHypothesis fun w' member => cancels w' (List.mem_cons_of_mem _ member))
    rw [Db.apply_update_self]
    intro a' member isActive
    obtain ⟨a, member', rfl⟩ := Table.mem_modify.1 member
    -- A cancelled delivery is not active, so this one is another.
    by_cases same : key a = k
    · have cancelled : Table.keepIdentity a a.cancel = a.cancel := Table.keepIdentity_eq rfl rfl
      rw [Table.rewrite_of_eq same, cancelled] at isActive
      cases isActive
    · rw [Table.rewrite_of_ne same] at isActive ⊢
      exact ⟨a, member', rfl, rfl, isActive⟩

theorem others_of_cancels {db : Database} {ws : List SqlWrite} (cancels : ∀ w ∈ ws, Cancels w)
    {t : TableName} (other : t ≠ .deliveries) : db.applyAll ws t = db t := by
  refine Db.applyAll_other (fun w member => ?_) db
  obtain ⟨k, rfl⟩ := cancels w member
  exact Ne.symm other

/-! ## Credits -/

/-- The restaurant of an order gets what the order's first commission leaves. -/
def Credits (db db' : Database) (orderId restaurantId : ℕ) (currency : String) : Prop :=
  ∃ order tx, orderOf db orderId = some order ∧ order.restaurantId = restaurantId ∧
  order.currency = currency ∧
    (db .transactions).count (isCommissionFor orderId) = 0 ∧ tx ∈ (db' .transactions).rows ∧
    isCommissionFor orderId tx = true ∧
    balanceIn (db' .restaurantBalances) restaurantId currency =
      balanceIn (db .restaurantBalances) restaurantId currency + (order.subtotal - tx.amount)

/-- A balance changes only by the credit of an order, and commissions stay. -/
structure Credited (db db' : Database) : Prop where
  balances : ∀ restaurantId currency,
    balanceIn (db' .restaurantBalances) restaurantId currency =
      balanceIn (db .restaurantBalances) restaurantId currency ∨
      ∃ orderId, Credits db db' orderId restaurantId currency
  commissions : ∀ orderId,
    (db .transactions).count (isCommissionFor orderId) ≤
      (db' .transactions).count (isCommissionFor orderId)

theorem Credited.same {db db' : Database}
    (balances : db' .restaurantBalances = db .restaurantBalances)
    (transactions : db' .transactions = db .transactions) : Credited db db' :=
  ⟨fun _ _ => .inl (by rw [balances]), fun _ => by rw [transactions]⟩

theorem credited_of_settled {order orderRow : Order} {branch : CoreBranch} {delivery : Delivery}
    {commission agentEarning : ℤ} {V : Database → Prop} {db db' : Database}
    (settled : Settled order branch delivery commission agentEarning V db db')
    (isOrder : orderOf db order.id = some orderRow)
    (sameMoney : Ledger.money orderRow = Ledger.money order)
    (unsettled : Unsettled db order.id) : Credited db db' := by
  obtain ⟨charges, id, now, cash, free, transactions⟩ := settled.transactions
  have collected := cash.collected
  obtain ⟨locked, posted⟩ := settled.balances
  simp only [Ledger.money, Prod.mk.injEq] at sameMoney
  refine ⟨fun r c => ?_, fun o => (commissions_of_settled settled o).symm ▸ Nat.le_add_right _ _⟩
  have posting := Ledger.balanceIn_posted posted r c
  by_cases same : order.restaurantId = r ∧ order.currency = c
  · refine .inr ⟨order.id, orderRow,
      (commissionInput order branch delivery commission).row id now, isOrder,
      sameMoney.1.trans same.1, sameMoney.2.1.trans same.2, unsettled.commissions, ?_,
      by simp [isCommissionFor, commissionInput,
      CreateTransactionInput.row], ?_⟩
    · rw [transactions, Table.rows_insert free]
      exact List.mem_append_right _ (List.mem_singleton.2 rfl)
    · rw [posting, if_pos same, sameMoney.2.2]
      rfl
  · rw [if_neg same, Int.add_zero] at posting
    exact .inl posting

/-! ## What the commits leave alone -/

theorem moves_of_assignment (db : Database) (delivery : Delivery) (assignedAt updatedAt : ℕ) :
    Moves db (db.applyAll (assignmentWrites delivery assignedAt updatedAt)) := by
  refine ⟨?_, ?_, Db.grows_applyAll db (assignmentWrites delivery assignedAt updatedAt)⟩
  · rw [assignmentWrites_orders]
    exact .modify (g := Order.withAgent delivery.agentId assignedAt updatedAt) (fun _ => rfl) _ _
  · rw [assignmentWrites_deliveries]
    exact .insert _ _ _

theorem moves_of_status (db : Database) (id : ℕ) (status : DeliveryStatus) (stamp : Option ℕ) :
    Moves db (db.apply (.update TableName.deliveries (RowKey.id id)
      (Delivery.withStatus status stamp) : SqlWrite)) := by
  refine ⟨?_, ?_, Db.grows_apply db _⟩
  · rw [Db.apply_update_ne db _ _ (show TableName.orders ≠ .deliveries by decide)]
    exact .refl _ _
  · rw [Db.apply_update_self]
    exact .modify (Ledger.orderId_withStatus status stamp) _ _

theorem moves_of_orderStatus (db : Database) (id : ℕ) (status : OrderStatus) (updatedAt : ℕ)
    (stamp : Option ℕ) :
    Moves db (db.apply (.update TableName.orders (RowKey.id id)
      (Order.withStatus status updatedAt stamp) : SqlWrite)) := by
  refine ⟨?_, ?_, Db.grows_apply db _⟩
  · rw [Db.apply_update_self]
    exact .modify (Ledger.money_withStatus status updatedAt stamp) _ _
  · rw [Db.apply_update_ne db _ _ (show TableName.deliveries ≠ .orders by decide)]
    exact .refl _ _

theorem orderId_cancel (row : Delivery) : row.cancel.orderId = row.orderId := rfl

theorem same_of_cancels {α : Type} {f : Delivery → α}
    (kept : ∀ row, f (Delivery.cancel row) = f row) {db : Database} {ws : List SqlWrite}
    (cancels : ∀ w ∈ ws, Cancels w) :
    Table.Same f (db .deliveries) (db.applyAll ws .deliveries) := by
  induction ws generalizing db with
  | nil => exact .refl _ _
  | cons w ws inductionHypothesis =>
    obtain ⟨k, rfl⟩ := cancels w List.mem_cons_self
    rw [Db.applyAll_cons]
    refine Table.Same.trans ?_
      (inductionHypothesis fun w' member => cancels w' (List.mem_cons_of_mem _ member))
    rw [Db.apply_update_self]
    exact .modify kept _ _

theorem moves_of_cancels (db : Database) {ws : List SqlWrite} (cancels : ∀ w ∈ ws, Cancels w) :
    Moves db (db.applyAll ws) := by
  refine ⟨?_, (same_of_cancels orderId_cancel cancels).keeps, Db.grows_applyAll db ws⟩
  rw [others_of_cancels cancels (by decide)]
  exact .refl _ _

theorem moves_of_written {order : Order} {target : OrderStatus} {db db' : Database}
    (written : StatusWritten order target db db') : Moves db db' := by
  obtain ⟨updatedAt, stamp, orders⟩ := written.orders
  refine ⟨?_, ?_, written.grows⟩
  · rw [orders]
    exact .modify (Ledger.money_withStatus target updatedAt stamp) _ _
  · rw [written.others .deliveries (by decide) (by decide)]
    exact .refl _ _

/-! ## The calls -/

/-- The requests of the delivery side. -/
def ServesDeliveries : Operation → Prop
  | .assign .. | .tryAutoAssign .. | .reassign .. | .updateDeliveryStatus .. => True
  | _ => False

/-- The same, with agents going offline and the cancellation of orders. -/
def ServesDeliverySide : Operation → Prop
  | .offline .. => True
  | .updateOrderStatus _ _ targetStatus _ => targetStatus = .cancelled
  | op => ServesDeliveries op

abbrev Holders := ℕ → Option ℕ

def protocol : Protocol (K := RowKey) RowOf Shared Err Operation Reply Holders where
  inv s := Coherent s.db s.ghost
  guar i _ w w' := (∀ orderId j, j ≠ i → w.ghost orderId = some j → w'.ghost orderId = some j) ∧
    Moves w.db w'.db ∧
    Credited w.db w'.db
  rely i _ w w' := (∀ orderId, w.ghost orderId = some i → w'.ghost orderId = some i) ∧
    Moves w.db w'.db
  post _ _ _ _ := True
  allow := Fresh
  faulty _ := True
  admits := ServesDeliverySide
  apart _ _ _ := True

theorem lawful : protocol.Lawful where
  guar_refl _ _ w := ⟨fun _ _ _ => id, .refl w.db, .same rfl rfl⟩
  rely_refl _ _ w := ⟨fun _ => id, .refl w.db⟩
  rely_trans first second :=
    ⟨fun orderId holds => second.1 orderId (first.1 orderId holds), first.2.trans second.2⟩
  rely_of_guar other _ _ _ guar := ⟨fun orderId => guar.1 orderId _ other, guar.2.1⟩
  post_stable _ _ _ _ := trivial
  inv_spawn holds _ _ := holds
  inv_crash _ _ holds := ⟨holds, trivial⟩

theorem free (i : ℕ) (op : Operation) : protocol.Free i op Later :=
  fun s _ _ holds =>
    ⟨holds, ⟨fun _ _ _ => id, .refl s.db, .same rfl rfl⟩, ⟨fun _ => id, .refl s.db⟩⟩

theorem persists (i : ℕ) (op : Operation) : Persists protocol i op :=
  fun _ _ t k rely there => rely.2.grows.rows t k there

section Calls

variable {i : ℕ} {op : Operation} {s : Sit RowOf Shared Operation Holders}

/-- The end of every call: the invariant holds. -/
abbrev ends (s : Sit RowOf Shared Operation Holders) : Prop := Coherent s.db s.ghost

theorem after_assignment {delivery : Delivery} {assignedAt updatedAt : ℕ}
    {seen : List (Sigma RowOf)} {row : Order} (holds : Coherent s.db s.ghost)
    (assigning : Assigning protocol seen s.db delivery row)
    (unsettled : Unsettled s.db delivery.orderId) (idle : NoneActive s.db delivery.orderId)
    (own : s.ghost delivery.orderId = none ∨ s.ghost delivery.orderId = some i) :
    protocol.After i op s ⟨none, []⟩
      (s.db.applyAll (assignmentWrites delivery assignedAt updatedAt)) s.side ends := by
  refine ⟨Function.update s.ghost delivery.orderId none,
    coherent_of_assignment holds assigning.free unsettled idle,
    ⟨fun orderId j other isHeld => ?_, moves_of_assignment _ _ _ _, .same ?_ ?_⟩,
    fun s' env => env.inv⟩
  · have different : orderId ≠ delivery.orderId := by
      rintro rfl
      rcases own with none | mine
      · rw [none] at isHeld
        cases isHeld
      · rw [mine] at isHeld
        cases isHeld
        exact other rfl
    show Function.update s.ghost delivery.orderId none orderId = some j
    rw [Function.update_of_ne different]
    exact isHeld
  · exact assignmentWrites_other (t := .restaurantBalances) s.db delivery assignedAt
      updatedAt (by decide) (by decide)
  · exact assignmentWrites_other (t := .transactions) s.db delivery assignedAt
      updatedAt (by decide) (by decide)

/-- An order that is still ready as it was read. -/
theorem mayAssign_ready {order : Order} (isOrder : orderOf s.db order.id = some order)
    (isReady : order.status = .ready) :
    MayAssign protocol i op [⟨TableName.orders, order⟩] order.id ends s where
  there s' env := persists i op s s' _ _ env.drift.1 (Option.isSome_iff_exists.2 ⟨order, isOrder⟩)
  stops s' env := env.inv
  commits delivery assignedAt updatedAt row s' env _ sameOrder assigning := by
    obtain ⟨began, before, f, found', fresh⟩ := assigning.allowed
    have shown : (⟨some ⟨began, [.insert TableName.deliveries delivery]⟩,
        [⟨TableName.deliveries, delivery⟩, ⟨TableName.orders, order⟩]⟩ : Local RowOf
          RowKey).lastSeen TableName.orders
          (RowKey.id delivery.orderId) = some order := by
      rw [sameOrder, Local.lastSeen_cons_table _ _ _ _ (by decide)]
      exact lastSeen_order _ order []
    have stillReady : row.status = .ready :=
      (fresh _ (List.mem_singleton.2 rfl) row order found' shown).symm.trans isReady
    obtain ⟨holderNone, unsettled, idle⟩ :=
      env.inv.ready delivery.orderId ⟨row, assigning.order, stillReady⟩
    exact after_assignment env.inv assigning unsettled idle (.inl holderNone)

/-- An order whose delivery the call has given up. -/
theorem mayAssign_holder {orderId : ℕ} (there : (orderOf s.db orderId).isSome = true)
    (isHolder : s.ghost orderId = some i) (seen : List (Sigma RowOf)) :
    MayAssign protocol i op seen orderId ends s where
  there s' env := persists i op s s' _ _ env.drift.1 there
  stops s' env := env.inv
  commits delivery assignedAt updatedAt row s' env _ sameOrder assigning := by
    have mine : s'.ghost delivery.orderId = some i := by
      rw [sameOrder]
      exact env.drift.1.1 orderId isHolder
    have idle : NoneActive s'.db delivery.orderId := by
      intro a member isOrder
      by_contra isActive
      rw [Bool.not_eq_false] at isActive
      have taken := (env.inv.active a member isActive).1
      rw [isOrder, mine] at taken
      cases taken
    have unsettled := env.inv.held delivery.orderId (by rw [mine]; exact Option.some_ne_none i)
    exact after_assignment env.inv assigning unsettled idle (.inr mine)

/-- A delivery under way takes its next status; when it is given up, the call becomes its
order's holder. -/
theorem after_status {row : Delivery} {status : DeliveryStatus} {stamp : Option ℕ}
    {Φ : Sit RowOf Shared Operation Holders → Prop} (holds : Coherent s.db s.ghost)
    (found : deliveryOf s.db row.id = some row) (isActive : row.status.active = true)
    (next : ∀ s', Coherent s'.db s'.ghost → Moves s.db s'.db →
      (status.active = false → s'.ghost row.orderId = some i) → Φ s') :
    protocol.After i op s ⟨none, []⟩
      (s.db.apply (.update TableName.deliveries (RowKey.id row.id)
        (Delivery.withStatus status stamp))) s.side Φ := by
  have free := (holds.active row (Table.get_mem found) isActive).1
  have moves := moves_of_status s.db row.id status stamp
  refine ⟨if status.active = true then s.ghost else Function.update s.ghost row.orderId (some i),
    coherent_of_status i holds found isActive,
    ⟨fun orderId j other isHeld => ?_, moves, .same ?_ ?_⟩, fun s' env => ?_⟩
  · show (if status.active = true then s.ghost else Function.update s.ghost row.orderId (some i))
        orderId = some j
    split
    next => exact isHeld
    next =>
      rw [Function.update_of_ne]
      · exact isHeld
      · rintro rfl
        rw [free] at isHeld
        cases isHeld
  · exact Db.apply_update_ne s.db (RowKey.id row.id) (Delivery.withStatus status stamp)
      (show TableName.restaurantBalances ≠ .deliveries by decide)
  · exact Db.apply_update_ne s.db (RowKey.id row.id) (Delivery.withStatus status stamp)
      (show TableName.transactions ≠ .deliveries by decide)
  · refine next s' env.inv (moves.trans env.drift.1.2) fun isOver => env.drift.1.1 row.orderId ?_
    show (if status.active = true then s.ghost else Function.update s.ghost row.orderId (some i))
        row.orderId = some i
    rw [isOver, if_neg Bool.false_ne_true, Function.update_self]

/-- The row that the update finds is the one that was read: its status has not changed, and its
order never does. -/
theorem row_of_fresh {delivery row : Delivery} {seen : List (Sigma RowOf)}
    {change : Delivery → Delivery} {s' : Sit RowOf Shared Operation Holders}
    (read : deliveryOf s.db delivery.id = some delivery)
    (updating : Updating protocol i op (⟨TableName.deliveries, delivery⟩ :: seen) delivery.id
      change row s s') :
    row.id = delivery.id ∧ row.status = delivery.status ∧ row.orderId = delivery.orderId := by
  have sameKey : RowKey.id row.id = RowKey.id delivery.id := Table.get_key updating.found
  have sameStatus : delivery.status = row.status :=
    updating.allowed _ (List.mem_singleton.2 rfl) row delivery updating.found
      (lastSeen_delivery _ delivery seen)
  obtain ⟨row', found', sameOrder⟩ := updating.env.drift.1.2.deliveries _ _ read
  have isRow : row' = row := Option.some.inj (found'.symm.trans updating.found)
  exact ⟨by simpa using sameKey, sameStatus.symm, by rw [← isRow]; exact sameOrder⟩

theorem wp_assignCall {env : Config} {core : Core} {orderPublicId : ℕ} {agentId : Option ℕ}
    (holds : Coherent s.db s.ghost) :
    protocol.wp i op (assign env core orderPublicId agentId) (fun _ _ s' => ends s') .start s :=
  wp_assign lawful (free i op) holds (fun _ env => env.inv) fun _ _ isOrder isReady =>
    mayAssign_ready isOrder isReady

theorem wp_tryAutoAssignCall {env : Config} {core : Core} {orderId : ℕ}
    (holds : Coherent s.db s.ghost) :
    protocol.wp i op (tryAutoAssign env core orderId) (fun _ _ s' => ends s') .start s :=
  wp_tryAutoAssign lawful (free i op) holds (fun _ env => env.inv) fun _ _ isOrder isReady =>
    mayAssign_ready isOrder isReady

theorem wp_reassignCall {env : Config} {core : Core} {orderPublicId : ℕ} {seen : List (Sigma RowOf)}
    (holds : Coherent s.db s.ghost) :
    protocol.wp i op (reassign env core orderPublicId) (fun _ _ s' => ends s') ⟨none, seen⟩ s := by
  refine wp_reassign lawful (free i op) (persists i op) holds (fun _ env => env.inv) ?_
  intro order active row stamp s₀ s₁ _ isOrder until₀ _ read ofOrder isActive updating
  obtain ⟨sameId, sameStatus, sameOrder⟩ := row_of_fresh read updating
  have found := updating.found
  rw [← sameId] at found ⊢
  refine after_status updating.env.inv found (by rw [sameStatus]; exact isActive) ?_
  intro s₂ _ moves isHolder seen
  have there : ∀ t k, ((s.db t).get k).isSome = true → ((s₂.db t).get k).isSome = true :=
    fun t k there =>
    moves.grows.rows t k
      (persists i op _ _ t k updating.env.drift.1 (persists i op _ _ t k until₀.drift.1 there))
  refine mayAssign_holder (there _ _ (Option.isSome_iff_exists.2 ⟨order, isOrder⟩)) ?_ seen
  rw [← ofOrder, ← sameOrder]
  exact isHolder rfl

/-- A settlement of a delivery that is still picked up. -/
theorem after_settlement {env : Config} {core : Core} {delivery row : Delivery} {order : Order}
    {branch : CoreBranch} {s₀ s₁ : Sit RowOf Shared Operation Holders} {db' : Database}
    (read : deliveryOf s.db delivery.id = some delivery) (isPicked : delivery.status = .picked)
    (until₀ : protocol.Env i op ⟨none, []⟩ s s₀) (until₁ : protocol.Env i op ⟨none, []⟩ s₀ s₁)
    (settling : Settling protocol env core i op [⟨TableName.deliveries, delivery⟩] delivery order
      branch row s₀ s₁ db') : protocol.After i op s₁ ⟨none, []⟩ db' s₁.side ends := by
  obtain ⟨began, before, f, found', fresh⟩ := settling.allowed
  have shown : (⟨some ⟨began, []⟩, [⟨TableName.orders, order⟩, ⟨TableName.deliveries, delivery⟩]⟩ :
      Local RowOf RowKey).lastSeen TableName.deliveries (RowKey.id delivery.id) =
        some delivery := by
    rw [Local.lastSeen_cons_table _ _ _ _ (by decide)]
    exact lastSeen_delivery _ delivery []
  have sameStatus := fresh _ (List.mem_singleton.2 rfl) row delivery found' shown
  have isActive : row.status.active = true := by
    rw [← sameStatus, isPicked]
    rfl
  have moved := until₀.drift.1.2.trans until₁.drift.1.2
  have sameKey : RowKey.id order.id = RowKey.id delivery.orderId := Table.get_key settling.read
  have isOrder : order.id = delivery.orderId := by simpa using sameKey
  have ofOrder : row.orderId = order.id := by
    obtain ⟨row', found, sameOrder⟩ := moved.deliveries _ _ read
    rw [isOrder, ← sameOrder, Option.some.inj (settling.found.symm.trans found)]
  obtain ⟨orderRow, foundOrder, sameMoney⟩ : ∃ orderRow, orderOf s₁.db order.id = some orderRow ∧
      Ledger.money orderRow = Ledger.money order := by
    rw [isOrder]
    exact until₁.drift.1.2.orders.keeps _ _ settling.read
  have unsettled := (until₁.inv.active row (Table.get_mem settling.found) isActive).2
  rw [ofOrder] at unsettled
  exact ⟨s₁.ghost, coherent_of_settled until₁.inv settling.settled settling.found isActive ofOrder,
    ⟨fun _ _ _ isHeld => isHeld, Ledger.moves_of_settled settling.settled,
      credited_of_settled settling.settled foundOrder sameMoney unsettled⟩, fun s' env => env.inv⟩

theorem mayPick (orderId : ℕ) : MayPick protocol i op orderId ends s where
  stops s' env := env.inv
  commits row updatedAt stamp s' env _ _ _ :=
    ⟨s'.ghost, coherent_of_pick env.inv,
      ⟨fun _ _ _ isHeld => isHeld, moves_of_orderStatus s'.db orderId .picked updatedAt stamp,
        .same
          (Db.apply_update_ne s'.db (RowKey.id orderId) (Order.withStatus .picked updatedAt stamp)
            (show TableName.restaurantBalances ≠ .orders by decide))
          (Db.apply_update_ne s'.db (RowKey.id orderId) (Order.withStatus .picked updatedAt stamp)
            (show TableName.transactions ≠ .orders by decide))⟩, fun _ env => env.inv⟩

theorem wp_updateStatusCall {env : Config} {core : Core} {deliveryId actorUserId : ℕ}
    {target : DeliveryStatus} (holds : Coherent s.db s.ghost) :
    protocol.wp i op (updateStatus env core deliveryId actorUserId target)
      (fun _ _ s' => ends s') .start s := by
  refine wp_deliveryUpdateStatus lawful (free i op) (persists i op) holds
    (fun _ env => env.inv) ?_ ?_
  · intro delivery order branch row s₀ s₁ db' _ _ read isPicked until₀ until₁ _ settling
    exact after_settlement read isPicked until₀ until₁ settling
  · intro delivery row stamp s₁ _ _ read _ isLegal notDelivered updating
    obtain ⟨sameId, sameStatus, sameOrder⟩ := row_of_fresh read updating
    have isActive : row.status.active = true := by
      rw [sameStatus]
      revert isLegal
      cases delivery.status <;> cases target <;> decide
    have found := updating.found
    rw [← sameId] at found ⊢
    refine after_status updating.env.inv found isActive fun s₂ coherent moves isHolder => ?_
    -- Only a rejection leaves the order to the call.
    cases target with
    | picked => exact mayPick delivery.orderId
    | rejected =>
      refine ⟨fun s₃ seen env₃ there => mayAssign_holder there ?_ seen, fun s₃ env₃ => env₃.inv⟩
      rw [← sameOrder]
      exact env₃.drift.1.1 _ (isHolder rfl)
    | _ => exact fun s' env => env.inv

/-- The release of a cancelled order's delivery. -/
theorem tolerates_cancels : protocol.Tolerates i op (within Cancels fun _ => True) := by
  intro s ws cancels holds
  have moves := moves_of_cancels s.db cancels
  have transactions : s.db.applyAll ws .transactions = s.db .transactions :=
    others_of_cancels cancels (by decide)
  refine ⟨coherent_congr holds (activeFrom_of_cancels cancels)
    (fun orderId isReady => ?_) transactions
    (others_of_cancels cancels (by decide)),
    ⟨fun _ _ _ => id, moves, .same (others_of_cancels cancels (by decide)) transactions⟩,
    ⟨fun _ => id, moves⟩⟩
  simpa only [Ready, orderOf,
    others_of_cancels cancels (show TableName.orders ≠ .deliveries by decide)] using isReady

theorem wp_cancelCall {core : Core} {publicId : ℕ} {actor : RequestActor}
    (holds : Coherent s.db s.ghost) :
    protocol.wp i op (OrderService.updateStatus core publicId .cancelled actor)
      (fun _ _ s' => ends s') .start s := by
  refine wp_updateOrderStatus lawful (free i op) holds
    (fun result order listed row s₁ seen' db' _ _ env₁ _ _ _ writing => ?_)
    fun _ _ _ env => env.inv
  have written := writing.written
  refine ⟨s₁.ghost, coherent_of_cancelled env₁.inv written,
    ⟨fun _ _ _ => id, moves_of_written written,
    .same (written.others _ (by decide) (by decide)) (written.others _ (by decide) (by decide))⟩,
      fun s₂ env₂ => ?_⟩
  refine wp_harmless lawful (free i op) tolerates_cancels
    (harmless_releaseDelivery order .cancelled fun k => ⟨k, rfl⟩) ?_ env₂.inv env₂.self ?_
  · exact fun w none => absurd none List.not_mem_nil
  · intro result l s₃ inv₃ _ _
    cases result with
    | error err => exact inv₃
    | ok _ => exact inv₃

theorem tolerates_presence :
    protocol.Tolerates i op (within (fun w => w.table = .agentPresence) fun _ => True) := by
  intro s ws ofPresence holds
  have others : ∀ t, t ≠ .agentPresence → s.db.applyAll ws t = s.db t := fun t other =>
    Db.applyAll_other (fun w member => by rw [ofPresence w member]; exact Ne.symm other) s.db
  have moves : Moves s.db (s.db.applyAll ws) := by
    refine ⟨?_, ?_, Db.grows_applyAll s.db ws⟩
    · rw [others _ (by decide)]
      exact .refl _ _
    · rw [others _ (by decide)]
      exact .refl _ _
  refine ⟨coherent_congr holds ?_ (fun orderId isReady => ?_) (others _ (by decide))
    (others _ (by decide)),
    ⟨fun _ _ _ => id, moves, .same (others _ (by decide)) (others _ (by decide))⟩,
    ⟨fun _ => id, moves⟩⟩
  · show ActiveFrom (s.db .deliveries) (s.db.applyAll ws .deliveries)
    rw [others _ (by decide)]
    exact .refl _
  · simpa only [Ready, orderOf, others .orders (by decide)] using isReady

theorem wp_offlineCall {env : Config} {core : Core} {agentId : ℕ} (holds : Coherent s.db s.ghost)
    (self : s.live i = some op) :
    protocol.wp i op (PresenceService.offline env core agentId) (fun _ _ s' => ends s') .start s :=
  wp_offline lawful (free i op) tolerates_presence holds self (fun _ inv _ => inv)
    fun _ _ _ inv _ => wp_reassignCall inv

end Calls

theorem verified (env : Config) : protocol.Verified (code env) := by
  intro i op s s' holds _ admitted _ started
  cases op with
  | assign core orderPublicId agentId =>
    refine wp_do (wp_mono ?_ (wp_assignCall started.inv))
    intro result l s'' ends
    cases result with
    | error err => exact ⟨ends, trivial⟩
    | ok delivery => exact ⟨ends, trivial⟩
  | tryAutoAssign core orderId =>
    refine wp_do (wp_mono ?_ (wp_tryAutoAssignCall started.inv))
    intro result l s'' ends
    cases result with
    | error err => exact ⟨ends, trivial⟩
    | ok _ => exact ⟨ends, trivial⟩
  | reassign core orderPublicId =>
    refine wp_do (wp_mono ?_ (wp_reassignCall started.inv))
    intro result l s'' ends
    cases result with
    | error err => exact ⟨ends, trivial⟩
    | ok delivery => exact ⟨ends, trivial⟩
  | updateDeliveryStatus core deliveryId actorUserId targetStatus =>
    refine wp_map (wp_mono ?_ (wp_updateStatusCall started.inv))
    exact fun _ _ _ ends => ⟨ends, trivial⟩
  | offline core agentId =>
    refine wp_do (wp_mono ?_ (wp_offlineCall started.inv started.self))
    intro result l s'' ends
    cases result with
    | error err => exact ⟨ends, trivial⟩
    | ok _ => exact ⟨ends, trivial⟩
  | updateOrderStatus core publicId targetStatus actor =>
    obtain rfl : targetStatus = .cancelled := admitted
    refine wp_map (wp_mono ?_ (wp_cancelCall started.inv))
    exact fun _ _ _ ends => ⟨ends, trivial⟩
  | _ => exact admitted.elim

/-! ## Runs -/

/-- The runs of the delivery side without a stale update. -/
def FreshDeliveries (p : Region) (e : Event Operation) : Prop :=
  Serves ServesDeliveries e ∧ FreshEvent p e

theorem admissible (p : Region) (e : Event Operation) (serves : Serves ServesDeliverySide e)
    (fresh : FreshEvent p e) : protocol.Admissible p e := by
  cases e with
  | spawn op => exact ⟨serves, fun _ _ _ => ⟨trivial, trivial⟩⟩
  | step i choice =>
    exact ⟨fun _ _ _ _ _ _ _ => trivial,
      fun call found => ⟨fun _ => trivial, fun out acts => fresh call out found acts⟩⟩
  | crash i => exact fun _ _ => trivial

theorem servesDeliverySide_of_servesDeliveries (op : Operation) (serves : ServesDeliveries op) :
    ServesDeliverySide op := by
  cases op with
  | updateOrderStatus => exact serves.elim
  | offline => exact serves.elim
  | _ => exact serves

theorem admissible_deliveries (p : Region) (e : Event Operation) (fresh : FreshDeliveries p e) :
    protocol.Admissible p e :=
  admissible p e (fresh.1.mono servesDeliverySide_of_servesDeliveries) fresh.2

/-- Every order is settled at most once, in all runs from a state. -/
structure SettledOnce (env : Config) (allowed : Region → Event Operation → Prop)
    (start : Region) : Prop where
  once : ∀ p, Pool.Reach (code env) allowed start p → ∀ orderId, AtMostOnce p.db orderId
  credited : ∀ p p' e, Pool.Reach (code env) allowed start p → allowed p e →
    p.next (code env) e = some p' →
    Credited p.db p'.db
  neverTwice : ∀ p p' q q' e e', Pool.Reach (code env) allowed start p → allowed p e →
    p.next (code env) e = some p' →
    Pool.Reach (code env) allowed p' q → allowed q e' → q.next (code env) e' = some q' →
    ∀ orderId restaurantId currency restaurantId' currency',
      Credits p.db p'.db orderId restaurantId currency →
      ¬ Credits q.db q'.db orderId restaurantId' currency'

theorem credited_of_admissible {env : Config} {p p' : Region} {e : Event Operation}
    {ghost : Holders} (sound : protocol.Sound p ghost) (condition : protocol.Admissible p e)
    (moves : p.next (code env) e = some p') : Credited p.db p'.db := by
  have conforms := (sound_next lawful (verified env) sound condition moves).2
  cases e with
  | spawn op => exact .same (by rw [conforms.1]) (by rw [conforms.1])
  | crash i => exact .same (by rw [conforms.1]) (by rw [conforms.1])
  | step i choice =>
    obtain ⟨call, _, _, _, _, guar⟩ := conforms
    exact guar.2.2

theorem fresh_deliveries_settle_once (env : Config) (db : Database) (x : Shared)
    (coherent : Coherent db fun _ => none) : SettledOnce env FreshDeliveries (Pool.quiet db x) := by
  have sound : ∀ p, Pool.Reach (code env) FreshDeliveries (Pool.quiet db x) p →
      ∃ ghost, protocol.Sound p ghost :=
    fun p reached => sound_of_reach lawful (verified env) admissible_deliveries
      (sound_quiet (fun _ => none) coherent) reached
  have credited : ∀ p p' e, Pool.Reach (code env) FreshDeliveries (Pool.quiet db x) p →
      FreshDeliveries p e →
      p.next (code env) e = some p' → Credited p.db p'.db := by
    intro p p' e reached allowed moves
    obtain ⟨ghost, isSound⟩ := sound p reached
    exact credited_of_admissible isSound (admissible_deliveries p e allowed) moves
  have kept : ∀ p p' orderId, Pool.Reach (code env) FreshDeliveries (Pool.quiet db x) p →
      Pool.Reach (code env) FreshDeliveries p p' →
      (p.db .transactions).count (isCommissionFor orderId) ≤
        (p'.db .transactions).count (isCommissionFor orderId) := by
    intro p p' orderId reached further
    induction further with
    | refl => exact le_rfl
    | step before condition moves inductionHypothesis =>
      exact inductionHypothesis.trans
        ((credited _ _ _ (reached.trans before) condition moves).commissions orderId)
  refine ⟨fun p reached orderId => ?_, credited, ?_⟩
  · obtain ⟨ghost, isSound⟩ := sound p reached
    exact isSound.inv.once orderId
  · rintro p p' q q' e e' reached allowed moves further _ _ orderId _ _ _ _
      ⟨_, tx, _, _, _, _, member, isCommission, _⟩
      ⟨_, _, _, _, _, none, _⟩
    -- The commission of the first credit is still there.
    have least := kept p' q orderId (reached.step allowed moves) further
    rw [none] at least
    have noCommission := Table.count_eq_zero.1 (Nat.le_zero.1 least) tx member
    rw [noCommission] at isCommission
    cases isCommission

/-- A region in which nothing has been delivered yet. -/
theorem coherent_of_undelivered {db : Database} (deliveries : db .deliveries = Table.empty)
    (transactions : db .transactions = Table.empty) (earnings : db .agentEarnings = Table.empty) :
    Coherent db fun _ => none := by
  have unsettled : ∀ orderId, Unsettled db orderId := fun orderId => by
    constructor
    · rw [transactions]
      rfl
    · rw [earnings]
      rfl
  have noDelivery : ∀ a, a ∉ (db .deliveries).rows := by
    intro a member
    rw [deliveries] at member
    cases member
  exact {
    oneActive := fun a member => absurd member (noDelivery a)
    active := fun a member => absurd member (noDelivery a)
    held := fun orderId isHeld => absurd rfl isHeld
    ready := fun orderId _ => ⟨rfl, unsettled orderId, fun a member => absurd member (noDelivery a)⟩
    once := fun orderId => ⟨(unsettled orderId).commissions.trans_le (Nat.zero_le 1),
      (unsettled orderId).earnings.trans_le (Nat.zero_le 1)⟩ }

/-- Call `i` starts and makes its next actions. -/
def calls (i : ℕ) (op : Operation) (actions : ℕ) : List (Event Operation) :=
  .spawn op :: List.replicate actions (Sample.act i)

/-- An agent takes a delivery from assigned to delivered, in the calls from `i` on. -/
def carriedOut (i deliveryId agentId : ℕ) : List (Event Operation) :=
  calls i (.updateDeliveryStatus Sample.core deliveryId agentId .accepted) 4 ++
  calls (i + 1) (.updateDeliveryStatus Sample.core deliveryId agentId .picked) 7 ++
  calls (i + 2) (.updateDeliveryStatus Sample.core deliveryId agentId .delivered) 30

instance : DecidablePred ServesDeliveries
  | .assign .. | .tryAutoAssign .. | .reassign .. | .updateDeliveryStatus .. =>
    inferInstanceAs (Decidable True)
  | .placeOrder .. | .updateOrderStatus .. | .initPayment .. | .refund .. | .webhook .. | .online ..
  | .offline ..
  | .ping .. | .recordPayout .. | .sleep .. => inferInstanceAs (Decidable False)

instance (p : Region) (e : Event Operation) : Decidable (FreshDeliveries p e) :=
  inferInstanceAs (Decidable (_ ∧ _))

/-- An order is assigned and delivered. -/
theorem delivered_order_is_settled_once :
    ∃ p,
      Pool.Reach (code Sample.env) FreshDeliveries (Pool.quiet (Sample.db .ready) Sample.shared) p ∧
      statusOf 1 p = some .delivered ∧ (p.db .transactions).count (isCommissionFor 1) = 1 ∧
      (p.db .agentEarnings).count (isEarningFor 1) = 1 ∧ AtMostOnce p.db 1 := by
  have played : (Pool.play (code Sample.env) (fun p e => decide (FreshDeliveries p e))
      (calls 0 (.assign Sample.core 100 (some 2)) 11 ++ carriedOut 1 10 2)
      (Pool.quiet (Sample.db .ready) Sample.shared)).map
        (fun p => (statusOf 1 p, (p.db .transactions).count (isCommissionFor 1),
        (p.db .agentEarnings).count (isEarningFor 1))) =
      some (some .delivered, 1, 1) := by decide +kernel
  obtain ⟨p, isRun, isEnd⟩ := Option.map_eq_some_iff.1 played
  simp only [Prod.mk.injEq] at isEnd
  obtain ⟨isDelivered, commission, earning⟩ := isEnd
  have reached : Pool.Reach (code Sample.env) FreshDeliveries
      (Pool.quiet (Sample.db .ready) Sample.shared) p :=
    Pool.reach_of_play (fun _ _ => of_decide_eq_true) isRun
  have settledOnce := fresh_deliveries_settle_once Sample.env (Sample.db .ready) Sample.shared
    (coherent_of_undelivered rfl rfl rfl)
  exact ⟨p, reached, isDelivered, commission, earning, settledOnce.once p reached 1⟩

/-! ## Without freshness -/

/-- Two operators assign the same order: the second has found it ready and without a
delivery before the first commits.  Then both agents deliver. -/
def assignedTwice : List (Event Operation) :=
  [.spawn (.assign Sample.core 100 (some 2)), .spawn (.assign Sample.core 100 (some 3)),
    Sample.act 1, Sample.act 1] ++
  List.replicate 11 (Sample.act 0) ++ List.replicate 9 (Sample.act 1) ++ carriedOut 2 10 2 ++
    carriedOut 5 11 3

def DeliveriesOnly (_ : Region) (e : Event Operation) : Prop :=
  Serves ServesDeliveries e ∧ Faultless e

instance (p : Region) (e : Event Operation) : Decidable (DeliveriesOnly p e) :=
  inferInstanceAs (Decidable (_ ∧ _))

theorem stale_assignments_settle_twice :
    ¬ SettledOnce Sample.env DeliveriesOnly (Pool.quiet (Sample.db .ready) Sample.shared) := by
  intro settledOnce
  have twice : (Pool.play (code Sample.env) (fun p e => decide (DeliveriesOnly p e)) assignedTwice
      (Pool.quiet (Sample.db .ready) Sample.shared)).map
        (fun p => (p.db .transactions).count (isCommissionFor 1)) = some 2 := by decide +kernel
  obtain ⟨p, played, isTwo⟩ := Option.map_eq_some_iff.1 twice
  have once :=
    (settledOnce.once p (Pool.reach_of_play (fun _ _ => of_decide_eq_true) played) 1).commissions
  omega

end SwiftBite.Verified.OneSettlement
