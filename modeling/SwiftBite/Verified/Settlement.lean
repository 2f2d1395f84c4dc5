import SwiftBite.Verified.Story

/-! # The settlement and payout transactions

What `settle` and `recordPayout` commit, table by table, when their transactions are taken
as atomic.  The two share `lockRestaurantBalance`, which opens an account that is missing.
-/

set_option autoImplicit false

namespace SwiftBite.Verified

open Store Protocol Statement DeliveryService

abbrev accountOf (db : Database) (restaurantId : ℕ) (currency : String) :
    Option RestaurantBalance :=
  (db .restaurantBalances).get (RowKey.account restaurantId currency)

/-- The pending cash collection is settled, or there was none. -/
def Collected (charges charges' : Table Transaction) : Prop :=
  charges' = charges ∨ ∃ id updatedAt,
    charges' = charges.modify (RowKey.id id) (Transaction.withStatus .succeeded updatedAt)

def isPendingCash (orderId : ℕ) (tx : Transaction) : Bool :=
  decide (tx.orderId = some orderId ∧ tx.transactionType = .codCollection ∧ tx.status = .pending)

/-- What a settlement does about the cash of its order; `V` are the states since it began. -/
inductive CashCollected (V : Database → Prop) (order : Order)
    (charges charges' : Table Transaction) : Prop where
  | online (notCash : order.paymentMethod ≠ .cod) (same : charges' = charges)
  | collects (before : Database) (row : Transaction) (updatedAt : ℕ) (since : V before)
      (member : row ∈ (before .transactions).rows) (pending : isPendingCash order.id row = true)
      (changed : charges' =
      charges.modify (RowKey.id row.id) (Transaction.withStatus .succeeded updatedAt))
  /-- No collection was pending. -/
  | nothing (before : Database) (since : V before)
      (nobody : ∀ row ∈ (before .transactions).rows, isPendingCash order.id row = false)
      (same : charges' = charges)
  /-- The collection that was found pending was not there any more. -/
  | vanished (before before' : Database) (row : Transaction) (since : V before) (since' : V before')
      (member : row ∈ (before .transactions).rows) (pending : isPendingCash order.id row = true)
      (gone : (before' .transactions).get (RowKey.id row.id) = none)
      (same : charges' = charges)

theorem CashCollected.collected {V : Database → Prop} {order : Order}
    {charges charges' : Table Transaction} (cash : CashCollected V order charges charges') :
    Collected charges charges' := by
  cases cash with
  | online _ same => exact .inl same
  | collects _ row updatedAt _ _ _ changed => exact .inr ⟨row.id, updatedAt, changed⟩
  | nothing _ _ _ same => exact .inl same
  | vanished _ _ _ _ _ _ _ _ same => exact .inl same

theorem CashCollected.mono {V V' : Database → Prop} {order : Order}
    {charges charges' : Table Transaction} (cash : CashCollected V order charges charges')
    (wider : ∀ before, V before → V' before) : CashCollected V' order charges charges' := by
  cases cash with
  | online notCash same => exact .online notCash same
  | collects before row updatedAt since member pending changed =>
    exact .collects before row updatedAt (wider before since) member pending changed
  | nothing before since nobody same => exact .nothing before (wider before since) nobody same
  | vanished before before' row since since' member pending gone same =>
    exact .vanished before before' row (wider before since)
      (wider before' since') member pending gone same

/-- The account is opened, or it was there. -/
def Opened (restaurantId : ℕ) (currency : String)
    (accounts accounts' : Table RestaurantBalance) : Prop :=
  accounts' = accounts ∨
  ∃ now, accounts.conflicts (RestaurantBalance.opening restaurantId currency now) = false ∧
    accounts' = accounts.insert (RestaurantBalance.opening restaurantId currency now)

def commissionInput (order : Order) (branch : CoreBranch) (delivery : Delivery) (commission : ℤ) :
    CreateTransactionInput where
  orderId := some order.id
  transactionType := .commission
  method := .system
  status := .succeeded
  amount := commission
  currency := order.currency
  srcAccId := some branch.restaurantOwnerId
  idempotencyKey := some (.commission delivery.id)

def earningInput (order : Order) (delivery : Delivery) (agentEarning : ℤ) :
    CreateAgentEarningInput where
  agentId := delivery.agentId
  orderId := order.id
  deliveryId := delivery.id
  amount := agentEarning
  currency := order.currency

def payoutInput (restaurantId : ℕ) (amount : ℤ) (currency idempotencyKey : String) :
    CreateTransactionInput where
  orderId := none
  transactionType := .payout
  method := .bankTransfer
  status := .succeeded
  amount := amount
  currency := currency
  srcAccId := none
  dstAccId := some restaurantId
  idempotencyKey := some (.payout restaurantId idempotencyKey)

/-- A change of an account's balance. -/
def Posted (restaurantId : ℕ) (currency : String) (amount : ℤ) (locked : RestaurantBalance)
    (accounts accounts' : Table RestaurantBalance) : Prop :=
  ∃ opened updatedAt, Opened restaurantId currency accounts opened ∧
    opened.get (RowKey.account restaurantId currency) = some locked ∧
    accounts' = opened.modify (RowKey.account restaurantId currency)
      (RestaurantBalance.withBalance (locked.balance + amount) updatedAt)

/-- What a settlement commits; `V` are the states since it began. -/
structure Settled (order : Order) (branch : CoreBranch) (delivery : Delivery)
    (commission agentEarning : ℤ) (V : Database → Prop) (db db' : Database) : Prop where
  deliveries : ∃ stamp, db' .deliveries =
    ((db .deliveries).modify (RowKey.id delivery.id) (Delivery.withStatus .delivered stamp)).modify
      (RowKey.id delivery.id) (Delivery.withEarning agentEarning)
  orders : ∃ updatedAt updatedAt' stamp, db' .orders =
    ((db .orders).modify (RowKey.id order.id) (Order.withCommission commission updatedAt)).modify
      (RowKey.id order.id) (Order.withStatus .delivered updatedAt' stamp)
  transactions : ∃ charges id now, CashCollected V order (db .transactions) charges ∧
    charges.conflicts ((commissionInput order branch delivery commission).row id now) = false ∧
    db' .transactions =
      charges.insert ((commissionInput order branch delivery commission).row id now)
  balances : ∃ locked, Posted order.restaurantId order.currency (order.subtotal - commission) locked
    (db .restaurantBalances) (db' .restaurantBalances)
  earnings : (∃ before, V before ∧ before.Indexed .agentEarnings (.earningDelivery delivery.id)) ∧
      db' .agentEarnings = db .agentEarnings ∨
    ∃ id now, (db .agentEarnings).conflicts
      ((earningInput order delivery agentEarning).row id now) = false ∧
      db' .agentEarnings =
        (db .agentEarnings).insert ((earningInput order delivery agentEarning).row id now)
  tells : story (db' .eventsOutbox) =
    story (db .eventsOutbox) ++ [⟨order.id, "order.status_changed", .delivered⟩]
  others : ∀ t, t ∉ [TableName.deliveries, .orders, .transactions, .restaurantBalances,
    .agentEarnings, .eventsOutbox] →
    db' t = db t
  grows : db.Grows db'

theorem Settled.mono {order : Order} {branch : CoreBranch} {delivery : Delivery}
    {commission agentEarning : ℤ} {V V' : Database → Prop} {db db' : Database}
    (settled : Settled order branch delivery commission agentEarning V db db')
    (wider : ∀ before, V before → V' before) :
    Settled order branch delivery commission agentEarning V' db db' :=
  ⟨settled.deliveries, settled.orders,
    let ⟨charges, id, now, cash, inserted⟩ := settled.transactions
    ⟨charges, id, now, cash.mono wider, inserted⟩, settled.balances,
    settled.earnings.imp_left fun ⟨⟨before, since, indexed⟩, same⟩ =>
      ⟨⟨before, wider before since, indexed⟩, same⟩,
    settled.tells, settled.others, settled.grows⟩

/-- What a payout commits, if it commits. -/
inductive PaidOut (restaurantId : ℕ) (amount : ℤ) (currency idempotencyKey : String)
    (db db' : Database) : Prop where
  /-- The payout was recorded before. -/
  | again (opened : Opened restaurantId currency (db .restaurantBalances) (db' .restaurantBalances))
      (others : ∀ t, t ≠ .restaurantBalances → db' t = db t) (grows : db.Grows db')
  | paid (locked : RestaurantBalance) (id now : ℕ) (covered : amount ≤ locked.balance)
      (posted : Posted restaurantId currency (-amount) locked (db .restaurantBalances)
      (db' .restaurantBalances))
      (free : (db .transactions).conflicts
      ((payoutInput restaurantId amount currency idempotencyKey).row id now) = false)
      (transactions : db' .transactions =
        (db .transactions).insert
          ((payoutInput restaurantId amount currency idempotencyKey).row id now))
      (others : ∀ t, t ≠ .restaurantBalances → t ≠ .transactions → db' t = db t)
      (grows : db.Grows db')

/-- What a payout returns: a transaction with its key that it has found since it began, or the
one that it has recorded. -/
structure Receipt (V : Database → Prop) (restaurantId : ℕ) (idempotencyKey : String)
    (result : Transaction) (db' : Database) : Prop where
  keyed : result.idempotencyKey = some (.payout restaurantId idempotencyKey)
  known : result ∈ (db' .transactions).rows ∨ ∃ before, V before ∧
    result ∈ (before .transactions).rows

section

variable {allow : Local RowOf RowKey → Database → List SqlWrite → Prop} {V : Database → Prop}
  {db : Database}
  {began : ℕ} {ws : List SqlWrite} {seen : List (Sigma RowOf)}

theorem atomic_deliveryStampTime (status : DeliveryStatus)
    {Q : Except Err (Option ℕ) → Local RowOf RowKey → Prop} {l : Local RowOf RowKey}
    (next : ∀ stamp, Q (.ok stamp) l) (fails : ∀ err l, Q (.error err) l) :
    status.stampTime.Atomic allow V db Q l := by
  unfold DeliveryStatus.stampTime
  split
  · exact .map (.sure (fun x => next _) (fails _ _))
  · exact next none

theorem atomic_orderStampTime (status : OrderStatus)
    {Q : Except Err (Option ℕ) → Local RowOf RowKey → Prop} {l : Local RowOf RowKey}
    (next : ∀ stamp, Q (.ok stamp) l) (fails : ∀ err l, Q (.error err) l) :
    status.stampTime.Atomic allow V db Q l := by
  unfold OrderStatus.stampTime
  split
  · exact .map (.sure (fun x => next _) (fails _ _))
  · exact next none

/-- The rest of `lockRestaurantBalance`, once the account is open. -/
def lockOpened (restaurantId : ℕ) (currency : String) : Service RestaurantBalance := do
  match ← .exec .trx
    (lockByKey TableName.restaurantBalances (RowKey.account restaurantId currency)) with
  | some row => pure row
  | none => throw .infrastructure

theorem atomic_lockRestaurantBalance {restaurantId : ℕ} {currency : String}
    {Q : Except Err RestaurantBalance → Local RowOf RowKey → Prop}
    (next : ∀ ws' seen' locked, (∀ w ∈ ws', w.table = .restaurantBalances) →
      Opened restaurantId currency (db.applyAll ws .restaurantBalances)
        (db.applyAll (ws ++ ws') .restaurantBalances) →
      accountOf (db.applyAll (ws ++ ws')) restaurantId currency = some locked →
      Entry.row TableName.restaurantBalances (RowKey.account restaurantId currency) ∈
      (entriesOf ws' : List (Entry TableName RowKey UniqueKey)) →
      Q (.ok locked) ⟨some ⟨began, ws ++ ws'⟩, seen'⟩)
    (fails : ∀ err l, Q (.error err) l) :
    (lockRestaurantBalance .trx restaurantId currency).Atomic allow V db Q
      ⟨some ⟨began, ws⟩, seen⟩ := by
  have locks : ∀ ws' seen', (∀ w ∈ ws', w.table = .restaurantBalances) →
      Opened restaurantId currency (db.applyAll ws .restaurantBalances)
        (db.applyAll (ws ++ ws') .restaurantBalances) →
      (lockOpened restaurantId currency).Atomic allow V db Q ⟨some ⟨began, ws ++ ws'⟩, seen'⟩ := by
    intro ws' seen' tables opened
    refine .bind (.lockByKey (fun row found => ?_)
      (fun before since absent => fails _ _) (fails _ _))
    have following :=
      next (ws' ++ [.lock TableName.restaurantBalances (RowKey.account restaurantId currency)])
      (⟨TableName.restaurantBalances, row⟩ :: seen') row
    simp only [← List.append_assoc, Db.applyAll_concat_lock] at following
    refine following (fun w member => ?_) opened found ?_
    · rcases List.mem_append.1 member with old | new
      · exact tables w old
      · rw [List.mem_singleton.1 new]; rfl
    · simp [entriesOf, Write.entries]
  refine .bind (.insertIgnore (fun before since old _ _ => ?_)
    (fun now before since _ _ free => ?_) (fails _ _))
  · have same := locks [] seen (by simp) (.inl (by rw [List.append_nil]))
    rwa [List.append_nil] at same
  · refine locks [_] _ (by simp [Write.table]) (.inr ⟨now, free, ?_⟩)
    exact Db.applyAll_concat_insert db ws _ _

theorem atomic_setRestaurantBalance {restaurantId : ℕ} {currency : String} {balance : ℤ}
    {Q : Except Err Unit → Local RowOf RowKey → Prop}
    (held : Entry.row TableName.restaurantBalances (RowKey.account restaurantId currency) ∈
      (entriesOf ws : List (Entry TableName RowKey UniqueKey)))
    (there : (accountOf (db.applyAll ws) restaurantId currency).isSome = true)
    (next : ∀ updatedAt seen',
      Q (.ok ()) ⟨some ⟨began, ws ++ [.update TableName.restaurantBalances
        (RowKey.account restaurantId currency)
        (RestaurantBalance.withBalance balance updatedAt)]⟩, seen'⟩)
    (fails : ∀ err l, Q (.error err) l) :
    (setRestaurantBalance .trx restaurantId currency balance).Atomic allow V db Q
      ⟨some ⟨began, ws⟩, seen⟩ := by
  refine .bind (.sure (fun x => ?_) (fails _ _))
  refine .bind (.updateByKey (fun before row since _ _ _ => next _ _)
    (fun before since absent => ?_) (fails _ _))
  rw [since.row held] at absent
  rw [accountOf, absent] at there
  cases there

theorem atomic_collectCash {order : Order} {Q : Except Err Unit → Local RowOf RowKey → Prop}
    (others : ∀ w ∈ ws, w.table ≠ .transactions)
    (next : ∀ ws' seen', (∀ w ∈ ws', w.table = .transactions) →
      CashCollected V order (db.applyAll ws .transactions) (db.applyAll (ws ++ ws') .transactions) →
      Q (.ok ()) ⟨some ⟨began, ws ++ ws'⟩, seen'⟩)
    (fails : ∀ err l, Q (.error err) l) :
    (collectCash order).Atomic allow V db Q ⟨some ⟨began, ws⟩, seen⟩ := by
  have nothing : ∀ seen', (∀ charges, CashCollected V order charges charges) →
      Q (.ok ()) ⟨some ⟨began, ws⟩, seen'⟩ := by
    intro seen' unchanged
    have same := next [] seen' (by simp) (by rw [List.append_nil]; exact unchanged _)
    rwa [List.append_nil] at same
  unfold collectCash
  split
  next isCod =>
    refine .bind (.selectFirst (fun before since row member => ?_)
      (fun before since nobody => ?_) (fails _ _))
    · obtain ⟨among, pending⟩ := List.mem_filter.1 member
      rw [Db.applyAll_other others] at among
      refine .bind (.bind (.sure (fun x => ?_) (fails _ _)))
      refine .updateByKey (fun _ old _ _ _ _ => ?_) (fun before' since' gone => ?_) (fails _ _)
      · refine next [_] _ (by simp [Write.table])
          (.collects before row (toMillis x.now) since.since among pending ?_)
        exact Db.applyAll_concat_update db ws _ _ _
      · rw [Db.applyAll_other others] at gone
        exact nothing _ fun _ =>
          .vanished before before' row since.since since'.since among pending gone rfl
    · rw [Db.applyAll_other others, List.filter_eq_nil_iff] at nobody
      exact nothing _ fun _ => .nothing before since.since
        (fun row member => by simpa [isPendingCash] using nobody row member) rfl
  next notCod => exact nothing seen fun _ => .online notCod rfl

theorem atomic_createAgentEarning {data : CreateAgentEarningInput}
    {Q : Except Err (Option AgentEarning) → Local RowOf RowKey → Prop}
    (next : ∀ result ws' seen', (∀ w ∈ ws', w.table = .agentEarnings) →
      ((∃ before, V before ∧
          (before.applyAll ws).Indexed .agentEarnings (.earningDelivery data.deliveryId)) ∧
        db.applyAll (ws ++ ws') .agentEarnings = db.applyAll ws .agentEarnings ∨
      ∃ id now, (db.applyAll ws .agentEarnings).conflicts (data.row id now) = false ∧
        db.applyAll (ws ++ ws') .agentEarnings =
          (db.applyAll ws .agentEarnings).insert (data.row id now)) →
      Q (.ok result) ⟨some ⟨began, ws ++ ws'⟩, seen'⟩)
    (fails : ∀ err l, Q (.error err) l) :
    (createAgentEarning .trx data).Atomic allow V db Q ⟨some ⟨began, ws⟩, seen⟩ := by
  refine .bind (.sure (fun x => ?_) (fails _ _))
  refine .bind (.insertIgnore (fun before since old among isTarget => ?_)
    (fun now before since _ _ free => ?_) (fails _ _))
  · have indexed :
        (before.applyAll ws).Indexed .agentEarnings (.earningDelivery data.deliveryId) := by
      refine ⟨old, among, List.mem_singleton.2 ?_⟩
      rw [← of_decide_eq_true isTarget]
    have same : ∀ result seen', Q (.ok result) ⟨some ⟨began, ws⟩, seen'⟩ := by
      intro result seen'
      have stays := next result
        [] seen' (by simp) (.inl ⟨⟨before, since.since, indexed⟩, by rw [List.append_nil]⟩)
      rwa [List.append_nil] at stays
    exact .selectFirst (fun _ _ _ _ => same _ _) (fun _ _ _ => same _ _) (fails _ _)
  · refine next _ [_] _ (by simp [Write.table]) (.inr ⟨_, now, free, ?_⟩)
    exact Db.applyAll_concat_insert db ws _ _

/-- The writes of a settlement, table by table. -/
theorem settled_of_writes {order : Order} {branch : CoreBranch} {delivery : Delivery}
    {commission agentEarning : ℤ} {stamp stamp' : Option ℕ} {time₁ time₂ time₃ id now : ℕ}
    {locked : RestaurantBalance} {cash account earning outbox start : List SqlWrite}
    (isStart : start = [] ++ [.update TableName.deliveries
      (RowKey.id delivery.id) (Delivery.withStatus .delivered stamp)] ++
      [.update TableName.orders (RowKey.id order.id) (Order.withCommission commission time₁)] ++
      [.update TableName.orders (RowKey.id order.id) (Order.withStatus .delivered time₂ stamp')])
    (cashTable : ∀ w ∈ cash, w.table = .transactions)
    (collected : CashCollected V order (db.applyAll start .transactions)
      (db.applyAll (start ++ cash) .transactions))
    (free : (db.applyAll (start ++ cash) .transactions).conflicts
      ((commissionInput order branch delivery commission).row id now) = false)
    (accountTable : ∀ w ∈ account, w.table = .restaurantBalances)
    (opened : Opened order.restaurantId order.currency
      (db.applyAll (start ++ cash ++ [.insert TableName.transactions
        ((commissionInput order branch delivery commission).row id now)]) .restaurantBalances)
      (db.applyAll (start ++ cash ++ [.insert TableName.transactions
        ((commissionInput order branch delivery commission).row id now)] ++ account)
        .restaurantBalances))
    (isLocked : accountOf (db.applyAll (start ++ cash ++ [.insert TableName.transactions
        ((commissionInput order branch delivery commission).row id now)] ++ account))
      order.restaurantId order.currency = some locked)
    (earningTable : ∀ w ∈ earning, w.table = .agentEarnings) {middle : List SqlWrite}
    (isMiddle : middle = start ++ cash ++
      [.insert TableName.transactions
        ((commissionInput order branch delivery commission).row id now)] ++ account ++
      [.update TableName.restaurantBalances (RowKey.account order.restaurantId order.currency)
        (RestaurantBalance.withBalance (locked.balance + (order.subtotal - commission)) time₃)] ++
      [.update TableName.deliveries (RowKey.id delivery.id) (Delivery.withEarning agentEarning)])
    (earned :
      (∃ before, V before ∧
        (before.applyAll middle).Indexed .agentEarnings (.earningDelivery delivery.id)) ∧
        db.applyAll (middle ++ earning) .agentEarnings = db.applyAll middle .agentEarnings ∨
      ∃ id now, (db.applyAll middle .agentEarnings).conflicts
          ((earningInput order delivery agentEarning).row id now) = false ∧
        db.applyAll (middle ++ earning) .agentEarnings = (db.applyAll middle .agentEarnings).insert
          ((earningInput order delivery agentEarning).row id now))
    (outboxTable : ∀ w ∈ outbox, w.table = .eventsOutbox)
    (tells : story (db.applyAll (middle ++ earning ++ outbox) .eventsOutbox) =
      story (db.applyAll (middle ++ earning) .eventsOutbox) ++
        [⟨order.id, "order.status_changed", .delivered⟩]) :
    Settled order branch delivery commission agentEarning V db
      (db.applyAll (middle ++ earning ++ outbox)) := by
  subst isStart isMiddle
  simp (disch := decide) only [accountOf, Db.applyAll_append_table cashTable,
    Db.applyAll_append_table accountTable,
    Db.applyAll_append_table earningTable, Db.applyAll_concat_insert_ne,
    Db.applyAll_concat_update_ne, Db.applyAll_nil]
    at collected opened free isLocked earned tells
  -- The delivery, the order, the commission, the balance, the earning, and nothing else.
  refine ⟨⟨stamp, ?_⟩, ⟨time₁, time₂, stamp', ?_⟩, ⟨_, id, now, collected, free, ?_⟩,
    ⟨locked, _, time₃, opened, isLocked, ?_⟩,
    ?_, tells, ?_, Db.grows_applyAll db _⟩
  · simp (disch := decide) only [Db.applyAll_append_table outboxTable,
      Db.applyAll_append_table earningTable,
      Db.applyAll_append_table accountTable, Db.applyAll_append_table cashTable,
      Db.applyAll_concat_insert_ne,
      Db.applyAll_concat_update_ne, Db.applyAll_concat_update, Db.applyAll_nil]
  · simp (disch := decide) only [Db.applyAll_append_table outboxTable,
      Db.applyAll_append_table earningTable,
      Db.applyAll_append_table accountTable, Db.applyAll_append_table cashTable,
      Db.applyAll_concat_insert_ne,
      Db.applyAll_concat_update_ne, Db.applyAll_concat_update, Db.applyAll_nil]
  · simp (disch := decide) only [Db.applyAll_append_table outboxTable,
      Db.applyAll_append_table earningTable,
      Db.applyAll_append_table accountTable, Db.applyAll_concat_update_ne,
      Db.applyAll_concat_insert]
  · simp (disch := decide) only [Db.applyAll_append_table outboxTable,
      Db.applyAll_append_table earningTable,
      Db.applyAll_concat_update_ne, Db.applyAll_concat_update]
  · simp (disch := decide) only [Db.applyAll_append_table outboxTable]
    refine earned.imp_left ?_
    rintro ⟨⟨before, since, indexed⟩, same⟩
    simp (disch := decide) only [Db.Indexed, Db.applyAll_append_table cashTable,
      Db.applyAll_append_table accountTable,
      Db.applyAll_concat_insert_ne, Db.applyAll_concat_update_ne, Db.applyAll_nil] at indexed
    exact ⟨⟨before, since, indexed⟩, same⟩
  · intro t outside
    simp only [List.mem_cons, List.not_mem_nil, or_false, not_or] at outside
    obtain ⟨notDeliveries, notOrders, notTransactions, notBalances, notEarnings, notOutbox⟩ :=
      outside
    rw [Db.applyAll_append_table outboxTable (Ne.symm notOutbox),
      Db.applyAll_append_table earningTable (Ne.symm notEarnings),
      Db.applyAll_concat_update_ne _ _ _ _ (Ne.symm notDeliveries),
      Db.applyAll_concat_update_ne _ _ _ _ (Ne.symm notBalances),
      Db.applyAll_append_table accountTable (Ne.symm notBalances),
      Db.applyAll_concat_insert_ne _ _ _ (Ne.symm notTransactions),
      Db.applyAll_append_table cashTable (Ne.symm notTransactions),
      Db.applyAll_concat_update_ne _ _ _ _ (Ne.symm notOrders),
      Db.applyAll_concat_update_ne _ _ _ _ (Ne.symm notOrders),
      Db.applyAll_concat_update_ne _ _ _ _ (Ne.symm notDeliveries),
      Db.applyAll_nil]

/-- Two events, of which one is about the order. -/
theorem atomic_announceSettlement {order : Order} {delivery : Delivery}
    {Q : Except Err Unit → Local RowOf RowKey → Prop}
    (next : ∀ outbox seen', (∀ w ∈ outbox, w.table = .eventsOutbox) →
      story (db.applyAll (ws ++ outbox) .eventsOutbox) =
      story (db.applyAll ws .eventsOutbox) ++ [⟨order.id, "order.status_changed", .delivered⟩] →
      Q (.ok ()) ⟨some ⟨began, ws ++ outbox⟩, seen'⟩) (fails : ∀ err l, Q (.error err) l) :
    (announceSettlement order delivery).Atomic allow V db Q ⟨some ⟨began, ws⟩, seen⟩ := by
  refine .bind (.sure (fun x₁ => ?_) (fails _ _))
  refine .bind (.sure (fun x₂ => ?_) (fails _ _))
  refine .bind (atomic_insertOutboxEvent (fun first seen₁ isFirst firstTells => ?_) fails)
  refine .bind (.sure (fun x₃ => ?_) (fails _ _))
  refine .bind (.sure (fun x₄ => ?_) (fails _ _))
  refine atomic_insertOutboxEvent (fun second seen₂ isSecond secondTells => ?_) fails
  rw [List.append_assoc] at secondTells ⊢
  refine next _ _ (fun w member => (List.mem_append.1 member).elim (isFirst w) (isSecond w)) ?_
  rw [secondTells, firstTells]
  simp [tellingsOf, tellingOf, statusIn]

/-- The settlement, from the two rows that it updates. -/
theorem atomic_settle {order : Order} {branch : CoreBranch} {delivery : Delivery}
    {commission agentEarning : ℤ} {Q : Except Err (Option Delivery) → Local RowOf RowKey → Prop}
    (delivered : ∀ before, V before → (deliveryOf before delivery.id).isSome = true)
    (ordered : ∀ before, V before → (orderOf before order.id).isSome = true)
    (next : ∀ result total seen' row before f,
      Settled order branch delivery commission agentEarning V db (db.applyAll total) →
      deliveryOf db delivery.id = some row → V before → deliveryOf before delivery.id = some row →
      allow ⟨some ⟨began, []⟩, seen⟩ before [.update TableName.deliveries
      (RowKey.id delivery.id) f] → Q (.ok result) ⟨some ⟨began, total⟩, seen'⟩)
    (fails : ∀ err l, Q (.error err) l) :
    (settle order branch delivery commission agentEarning).Atomic allow V db Q
      ⟨some ⟨began, []⟩, seen⟩ := by
  have kept : ∀ {t : TableName} {k : RowKey} {before : Database} (ws : List SqlWrite),
      ((before t).get k).isSome = true → ((before.applyAll ws) t).get k ≠ none := fun ws there =>
    Option.isSome_iff_ne_none.1 (Db.isSome_get_applyAll ws there)
  -- The delivery.
  refine .bind (.bind (atomic_deliveryStampTime .delivered (fun stamp => ?_) fails))
  refine .updateByKey (fun before row since found' found allowed => ?_)
    (fun before since absent => ?_) (fails _ _)
  swap
  · exact absurd absent (kept [] (delivered before since.since))
  -- The order, twice.
  refine .bind (.bind (.sure (fun x₁ => ?_) (fails _ _)))
  refine .bind (.updateByKey (fun _ _ _ _ _ _ => ?_) (fun before' since' absent => ?_) (fails _ _))
  swap
  · exact absurd absent (kept _ (ordered before' since'.since))
  refine .bind (.bind (.sure (fun x₂ => ?_) (fails _ _)))
  refine .bind (atomic_orderStampTime .delivered (fun stamp' => ?_) fails)
  refine .updateByKey (fun _ _ _ _ _ _ => ?_) (fun before' since' absent => ?_) (fails _ _)
  swap
  · exact absurd absent (kept _ (ordered before' since'.since))
  -- The cash, and the commission.
  refine .bind (atomic_collectCash (by simp [Write.table])
    (fun cash seen₁ cashTable collected => ?_) fails)
  refine .bind (.bind (.sure (fun x₃ => ?_) (fails _ _)))
  refine .insert (fun now₃ _ _ _ free => ?_) (fails _ _)
  -- The restaurant's account.
  refine .bind (.bind (atomic_lockRestaurantBalance
    (fun account seen₂ locked accountTable opened isLocked held => ?_) fails))
  refine atomic_setRestaurantBalance ?_ ?_ (fun updatedAt seen₃ => ?_) fails
  · simp only [entriesOf, List.flatMap_append, List.mem_append]
    exact .inr held
  · rw [isLocked]; rfl
  -- The agent's earning.
  refine .bind
    (.bind (.updateByKey (fun _ _ _ _ _ _ => ?_) (fun before' since' absent => ?_) (fails _ _)))
  swap
  · exact absurd absent (kept _ (delivered before' since'.since))
  refine .bind (atomic_createAgentEarning
    (fun result earning seen₄ earningTable earned => ?_) fails)
  refine .bind (atomic_announceSettlement (fun outbox seen₅ outboxTable tells => ?_) fails)
  have settled : Settled order branch delivery commission agentEarning V db (db.applyAll _) :=
    settled_of_writes rfl cashTable collected free accountTable opened isLocked earningTable rfl
      earned outboxTable tells
  exact next _ _ _ row before _ settled found since.since found' allowed

theorem atomic_payOut {restaurantId : ℕ} {amount : ℤ} {currency idempotencyKey : String}
    {Q : Except Err Transaction → Local RowOf RowKey → Prop}
    (next : ∀ result total seen', PaidOut restaurantId amount currency idempotencyKey db
      (db.applyAll total) → Receipt V restaurantId idempotencyKey result (db.applyAll total) →
      Q (.ok result) ⟨some ⟨began, total⟩, seen'⟩) (fails : ∀ err l, Q (.error err) l) :
    (FinanceService.payOut restaurantId amount currency idempotencyKey).Atomic allow V db Q
      ⟨some ⟨began, []⟩, seen⟩ := by
  refine .bind (atomic_lockRestaurantBalance
    (fun account seen₁ locked accountTable opened isLocked held => ?_) fails)
  refine .bind (.selectFirst (fun before since row found => ?_)
    (fun before since _ => ?_) (fails _ _))
  · -- A payout with this key is there already.
    have kept : before.applyAll ([] ++ account) .transactions = before .transactions :=
      Db.applyAll_append_table accountTable (by decide) before
    obtain ⟨member, keyed⟩ := List.mem_filter.1 found
    refine next row _ _ (.again opened (fun t other => ?_) (Db.grows_applyAll db _))
      ⟨of_decide_eq_true keyed, .inr ⟨before, since.since, ?_⟩⟩
    · exact Db.applyAll_append_table accountTable (Ne.symm other) db
    · rwa [kept] at member
  · refine .bind ?_
    unfold throwIf
    split
    next short => exact fails _ _
    next enough =>
      -- The balance is enough: it goes down, and the payout is recorded.
      refine .bind (atomic_setRestaurantBalance ?_ ?_ (fun updatedAt seen₂ => ?_) fails)
      · simpa only [List.nil_append] using held
      · rw [isLocked]; rfl
      refine .bind (.sure (fun x => ?_) (fails _ _))
      refine .insert (fun now before since _ free => ?_) (fails _ _)
      simp (disch := decide) only [Db.applyAll_append_table accountTable,
        Db.applyAll_concat_update_ne, Db.applyAll_nil] at free
      have recorded : db.applyAll ([] ++ account ++
          [.update TableName.restaurantBalances (RowKey.account restaurantId currency)
          (RestaurantBalance.withBalance (locked.balance - amount) updatedAt)] ++
          [.insert TableName.transactions ((payoutInput restaurantId amount currency
            idempotencyKey).row (x.seq .transactions) now)])
          .transactions = (db .transactions).insert
            ((payoutInput restaurantId amount currency idempotencyKey).row
            (x.seq .transactions) now) := by
        simp (disch := decide) only [Db.applyAll_append_table accountTable,
          Db.applyAll_concat_update_ne,
          Db.applyAll_concat_insert, Db.applyAll_nil]
      refine next _ _ _ (.paid locked _ now (Int.not_lt.1 enough)
        ⟨_, updatedAt, opened, isLocked, ?_⟩ free recorded ?_
        (Db.grows_applyAll db _)) ⟨rfl, .inl ?_⟩
      · simp (disch := decide) only [Db.applyAll_concat_insert_ne, Db.applyAll_concat_update,
          Int.sub_eq_add_neg]
      rotate_left
      · exact (congrArg (fun table => _ ∈ Table.rows table) recorded).mpr
          (Table.mem_insert_self free)
      · intro t notBalances notTransactions
        rw [Db.applyAll_concat_insert_ne _ _ _ (Ne.symm notTransactions),
          Db.applyAll_concat_update_ne _ _ _ _ (Ne.symm notBalances),
          Db.applyAll_append_table accountTable (Ne.symm notBalances),
          Db.applyAll_nil]

end

/-! ## The calls -/

section Moves

variable {writes : SqlWrite → Prop} {moves : Shared → Shared → Prop} [Ticking moves]

omit [Ticking moves] in
theorem quiet_lockRestaurantBalance (restaurantId : ℕ) (currency : String)
    (balances : ∀ w : SqlWrite, w.table = .restaurantBalances → writes w) :
    (lockRestaurantBalance .trx restaurantId currency).Quiet ⟨writes, fun _ => True, moves⟩ := by
  refine (Prog.Quiet.exec (.insertIgnore (fun _ => balances _ rfl) fun _ => trivial)).bind fun _ =>
    ?_
  refine (Prog.Quiet.exec (.lockByKey (balances _ rfl) fun _ => trivial)).bind fun row => ?_
  cases row with
  | none => exact .throw
  | some row => exact .pure

theorem quiet_setRestaurantBalance (restaurantId : ℕ) (currency : String) (balance : ℤ)
    (balances : ∀ w : SqlWrite, w.table = .restaurantBalances → writes w) :
    (setRestaurantBalance .trx restaurantId currency balance).Quiet
      ⟨writes, fun _ => True, moves⟩ :=
  quiet_nowIso.bind fun _ => (Prog.Quiet.exec (.updateByKey (balances _ rfl) fun _ => trivial)).bind
    fun _ => .pure

theorem quiet_createTransaction (data : CreateTransactionInput)
    (inserts : ∀ row : Transaction, writes (.insert TableName.transactions row)) :
    (createTransaction .trx data).Quiet ⟨writes, fun _ => True, moves⟩ :=
  (quiet_nextval _).bind fun _ => Prog.Quiet.exec (.insert (fun _ => inserts _) fun _ => trivial)

theorem quiet_collectCash (order : Order) : (collectCash order).Quiet (anyWrite moves) := by
  unfold collectCash
  split
  · refine (Prog.Quiet.read (.selectFirst fun _ => trivial) .selectFirst).bind fun row => ?_
    cases row with
    | none => exact .pure
    | some row =>
      exact (quiet_updateTransactionStatus _ _ (fun _ => trivial) fun _ => trivial).bind
        fun _ => .pure
  · exact .pure

theorem quiet_createAgentEarning (data : CreateAgentEarningInput) :
    (createAgentEarning .trx data).Quiet (anyWrite moves) := by
  refine (quiet_nextval _).bind fun _ => ?_
  refine (Prog.Quiet.exec (.insertIgnore (fun _ => trivial) fun _ => trivial)).bind fun row => ?_
  cases row with
  | none => exact Prog.Quiet.read (.selectFirst fun _ => trivial) .selectFirst
  | some row => exact .pure

theorem quiet_settle (order : Order) (branch : CoreBranch) (delivery : Delivery)
    (commission agentEarning : ℤ) :
    (settle order branch delivery commission agentEarning).Quiet (anyWrite moves) := by
  refine Prog.Quiet.bind ((quiet_deliveryStampTime _).bind fun _ => ?_) fun updatedDelivery => ?_
  · exact Prog.Quiet.exec (.updateByKey trivial fun _ => trivial)
  refine Prog.Quiet.bind (quiet_nowIso.bind fun _ => ?_) fun _ => ?_
  · exact (Prog.Quiet.exec (.updateByKey trivial fun _ => trivial)).bind fun _ => .pure
  refine Prog.Quiet.bind
    (quiet_nowIso.bind fun _ => (quiet_orderStampTime _).bind fun _ => ?_) fun _ => ?_
  · exact Prog.Quiet.exec (.updateByKey trivial fun _ => trivial)
  refine (quiet_collectCash order).bind fun _ =>
    (quiet_createTransaction _ fun _ => trivial).bind fun _ => Prog.Quiet.bind ?_ fun _ => ?_
  · exact (quiet_lockRestaurantBalance _ _ fun _ _ => trivial).bind fun _ =>
      quiet_setRestaurantBalance _ _ _ fun _ _ => trivial
  refine Prog.Quiet.bind ?_ fun _ => (quiet_createAgentEarning _).bind fun _ => ?_
  · exact (Prog.Quiet.exec (.updateByKey trivial fun _ => trivial)).bind fun _ => .pure
  exact (quiet_announceSettlement order delivery (fun _ => trivial) fun _ => trivial).bind
    fun _ => .pure

theorem quiet_payOut (restaurantId : ℕ) (amount : ℤ) (currency idempotencyKey : String)
    (accounts : ∀ w : SqlWrite,
      w.table ∈ [TableName.restaurantBalances, .transactions] → writes w) :
    (FinanceService.payOut restaurantId amount currency idempotencyKey).Quiet
      ⟨writes, fun _ => True, moves⟩ := by
  have balances : ∀ w : SqlWrite, w.table = .restaurantBalances → writes w :=
    fun w isBalance => accounts w (by simp [isBalance])
  refine (quiet_lockRestaurantBalance _ _ balances).bind fun locked => ?_
  refine (Prog.Quiet.read (.selectFirst fun _ => trivial) .selectFirst).bind fun row => ?_
  cases row with
  | some existing => exact .pure
  | none =>
    exact (quiet_throwIf _ _).bind fun _ =>
      (quiet_setRestaurantBalance _ _ _ balances).bind fun _ =>
      quiet_createTransaction _ fun _ => accounts _ (by simp [Write.table])

/-- A payout writes the balance and the ledger. -/
theorem harmless_recordPayout (restaurantId : ℕ) (amount : ℤ) (currency idempotencyKey : String)
    (accounts : ∀ w : SqlWrite,
      w.table ∈ [TableName.restaurantBalances, .transactions] → writes w) :
    (FinanceService.recordPayout restaurantId amount currency idempotencyKey).Harmless
      ⟨writes, fun _ => True, moves⟩ :=
  .transaction (quiet_payOut _ _ _ _ accounts).harmless

end Moves

section

variable {Γ : Type} {P : Protocol (K := RowKey) RowOf Shared Err Operation Reply Γ} {i : ℕ}
  {op : Operation}
  {s : Sit RowOf Shared Operation Γ}

theorem wp_recordPayout (lawful : P.Lawful) (free : P.Free i op Later) {restaurantId : ℕ}
    {amount : ℤ} {currency idempotencyKey : String} {seen : List (Sigma RowOf)}
    {Q : Except Err Transaction → Local RowOf RowKey → Sit RowOf Shared Operation Γ → Prop}
    (commits : ∀ result s' seen' db', P.Env i op ⟨none, []⟩ s s' →
      P.Alongside i op s' → PaidOut restaurantId amount currency idempotencyKey s'.db db' →
      Receipt (P.Between i op s s') restaurantId idempotencyKey result db' →
      P.After i op s' ⟨none, seen'⟩ db' s'.side (Q (.ok result) ⟨none, seen'⟩))
    (fails : ∀ err seen' s', P.Env i op ⟨none, []⟩ s s' → Q (.error err) ⟨none, seen'⟩ s') :
    P.wp i op (FinanceService.recordPayout restaurantId amount currency idempotencyKey) Q
      ⟨none, seen⟩ s := by
  refine wp_transaction_atomic lawful free (quiet_payOut _ _ _ _ fun _ _ => trivial)
    (fun s₁ began env₁ beside => ?_) fails
  refine atomic_payOut (fun result total seen' paid receipt => ?_) fun err l value impossible =>
    nomatch impossible
  rintro value isValue
  cases isValue
  exact commits result s₁ seen' _ env₁ beside paid receipt

/-- Rows stay while a call waits. -/
def Persists (P : Protocol (K := RowKey) RowOf Shared Err Operation Reply Γ) (i : ℕ)
    (op : Operation) : Prop :=
  ∀ (s s' : Sit RowOf Shared Operation Γ) (t : TableName) (k : RowKey),
    P.rely i op s.toWorld s'.toWorld →
    ((s.db t).get k).isSome = true → ((s'.db t).get k).isSome = true

/-- What is known when a settlement that began at `s` commits at `s'`. -/
structure Settling (P : Protocol (K := RowKey) RowOf Shared Err Operation Reply Γ) (env : Config)
    (core : Core) (i : ℕ) (op : Operation) (seen : List (Sigma RowOf)) (delivery : Delivery)
    (order : Order) (branch : CoreBranch) (row : Delivery) (s s' : Sit RowOf Shared Operation Γ)
    (db' : Database) : Prop where
  read : orderOf s.db delivery.orderId = some order
  answered : core.getBranch order.branchId = .ok branch
  settled : Settled order branch delivery (commissionOf order branch) (agentEarningOf env branch)
    (P.Between i op s s') s'.db db'
  found : deliveryOf s'.db delivery.id = some row
  /-- The run may make the update of the delivery. -/
  allowed : ∃ (began : ℕ) (before : Database) (f : Delivery → Delivery),
    deliveryOf before delivery.id = some row ∧
    P.allow ⟨some ⟨began, []⟩, ⟨TableName.orders, order⟩ :: seen⟩ before
      [.update TableName.deliveries (RowKey.id delivery.id) f]

theorem wp_settleDelivery (lawful : P.Lawful) (free : P.Free i op Later)
    (persists : Persists P i op) {env : Config} {core : Core} {delivery : Delivery}
    {seen : List (Sigma RowOf)}
    {Q : Except Err (Option Delivery) → Local RowOf RowKey → Sit RowOf Shared Operation Γ → Prop}
    (holds : P.inv s) (there : (deliveryOf s.db delivery.id).isSome = true)
    (commits : ∀ result order branch row s' seen' db', P.Env i op ⟨none, []⟩ s s' →
      P.Alongside i op s' → Settling P env core i op seen delivery order branch row s s' db' →
      P.After i op s' ⟨none, seen'⟩ db' s'.side (Q (.ok result) ⟨none, seen'⟩))
    (fails : ∀ err seen' s', P.Env i op ⟨none, []⟩ s s' → Q (.error err) ⟨none, seen'⟩ s') :
    P.wp i op (settleDelivery env core delivery) Q ⟨none, seen⟩ s := by
  refine wp_do (wp_selectByKey lawful (fun isTrx => nomatch isTrx) holds ?_ ?_ fun _ s' env =>
    fails _ _ s' (env.released []))
  swap
  · exact fun _ s' env => fails _ _ s' (env.released [])
  intro _ order read s₀ env₀
  have isOrder : RowKey.id order.id = RowKey.id delivery.orderId := Table.get_key read
  refine wp_do (wp_ofExcept ?_)
  cases answered : core.getBranch order.branchId with
  | error err => exact fails err _ s₀ (env₀.released [])
  | ok branch =>
    -- From here on the order and the branch are known.
    have until₀ : P.Env i op ⟨none, []⟩ s s₀ := env₀.released []
    have between :
        ∀ (t : TableName) (k : RowKey) (s₁ : Sit RowOf Shared Operation Γ) (before : Database),
        P.Between i op s₀ s₁ before → ((s.db t).get k).isSome = true →
        ((before t).get k).isSome = true := by
      rintro t k s₁ before ⟨m, rfl, first, _⟩ some
      exact persists s m t k (until₀.trans lawful first).drift.1 some
    refine wp_do (wp_transaction_atomic lawful free (quiet_settle _ _ _ _ _)
      (fun s₁ began env₁ beside => ?_) ?_)
    swap
    · exact fun err seen' s' env => fails err seen' s' (until₀.trans lawful env)
    refine atomic_settle (fun before since => between _ _ _ _ since there) (fun before since => ?_)
      (fun result total seen' row before f settled found _ found' allowed => ?_)
      fun err l value impossible => nomatch impossible
    · rw [orderOf, isOrder]
      have isRead : (s.db .orders).get (RowKey.id delivery.orderId) = some order := read
      refine between _ _ _ _ since ?_
      rw [isRead]
      rfl
    · rintro value isValue
      cases isValue
      have wider : ∀ before, P.Between i op s₀ s₁ before → P.Between i op s s₁ before := by
        rintro before ⟨m, isBefore, first, second⟩
        exact ⟨m, isBefore, until₀.trans lawful first, second⟩
      obtain ⟨ghost, inv, guar, rest⟩ :=
        commits result order branch row s₁ seen' _ (until₀.trans lawful env₁) beside
        ⟨read, answered, settled.mono wider, found, began, before, f, found', allowed⟩
      refine ⟨ghost, inv, guar, fun s₂ env₂ => wp_do ?_⟩
      -- The transaction has committed; that the agent is freed in Redis may fail.
      refine wp_orElse lawful free (quiet_redis _) env₂.inv env₂.self fun _ s₃ env₃ => ?_
      exact rest s₃ (env₂.trans lawful env₃)

end

end SwiftBite.Verified
