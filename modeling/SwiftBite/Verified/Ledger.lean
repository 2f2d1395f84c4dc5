import SwiftBite.Verified.Settlement

/-! # The restaurant ledger

The balance of a restaurant is what its settled orders have left to it, less what has been
paid out.  Settlements and payouts keep this in every interleaving, because each of them
locks the account, sets it to a value computed from the locked row, and records the same
amount as a transaction under a key of its own.
-/

set_option autoImplicit false

namespace SwiftBite.Verified.Ledger

open Store Protocol Verified DeliveryService

/-! ## The ledger -/

/-- What a commission leaves to the restaurant of its order. -/
def creditOf (db : Database) (restaurantId : ℕ) (currency : String) (tx : Transaction) : ℤ :=
  match tx.transactionType, tx.orderId.bind (orderOf db) with
  | .commission, some order =>
    if order.restaurantId = restaurantId ∧ order.currency = currency then order.subtotal - tx.amount
    else 0
  | _, _ => 0

def payoutOf (restaurantId : ℕ) (currency : String) (tx : Transaction) : ℤ :=
  if tx.transactionType = .payout ∧ tx.dstAccId = some restaurantId ∧
    tx.currency = currency then tx.amount else 0

/-- The balance of an account; an account that was never opened has none. -/
def balanceIn (accounts : Table RestaurantBalance) (restaurantId : ℕ) (currency : String) : ℤ :=
  ((accounts.get (RowKey.account restaurantId currency)).map RestaurantBalance.balance).getD 0

def isCommissionOf (deliveryId : ℕ) (tx : Transaction) : Bool :=
  decide (tx.transactionType = .commission ∧ tx.idempotencyKey = some (.commission deliveryId))

def isEarningOf (deliveryId : ℕ) (row : AgentEarning) : Bool := row.deliveryId = deliveryId

structure Conserved (db : Database) : Prop where
  balance : ∀ restaurantId currency, balanceIn (db .restaurantBalances) restaurantId currency =
    (db .transactions).total (creditOf db restaurantId currency) -
      (db .transactions).total (payoutOf restaurantId currency)
  nonneg : ∀ restaurantId currency, 0 ≤ balanceIn (db .restaurantBalances) restaurantId currency
  /-- Each commission belongs to a delivery of its order. -/
  keyed : ∀ tx ∈ (db .transactions).rows, tx.transactionType = .commission → ∃ id delivery,
    tx.idempotencyKey = some (.commission id) ∧ deliveryOf db id = some delivery ∧
    tx.orderId = some delivery.orderId
  once : ∀ deliveryId, (db .transactions).count (isCommissionOf deliveryId) ≤ 1
  earned : ∀ deliveryId,
    (db .agentEarnings).count (isEarningOf deliveryId) =
      (db .transactions).count (isCommissionOf deliveryId)

structure Consistent (db : Database) : Prop extends Conserved db where
  subtotals : ∀ id order, orderOf db id = some order → 0 ≤ order.subtotal

/-! ## What the ledger depends on -/

def money (order : Order) : ℕ × String × ℤ := (order.restaurantId, order.currency, order.subtotal)

/-- What settlements and payouts leave alone. -/
structure Moves (db db' : Database) : Prop where
  orders : Table.Same money (db .orders) (db' .orders)
  deliveries : Table.Keeps Delivery.orderId (db .deliveries) (db' .deliveries)
  grows : db.Grows db'

theorem Moves.refl (db : Database) : Moves db db := ⟨.refl _ _, .refl _ _, .refl _⟩

theorem Moves.trans {db db' db'' : Database} (first : Moves db db')
    (second : Moves db' db'') : Moves db db'' :=
  ⟨first.orders.trans second.orders, first.deliveries.trans second.deliveries,
    first.grows.trans second.grows⟩

section Table

theorem money_withStatus (status : OrderStatus) (updatedAt : ℕ) (stamp : Option ℕ) (row : Order) :
    money (Order.withStatus status updatedAt stamp row) = money row := by
  cases status <;> rfl

theorem orderId_withStatus (status : DeliveryStatus) (stamp : Option ℕ) (row : Delivery) :
    (Delivery.withStatus status stamp row).orderId = row.orderId := by
  cases status <;> rfl

theorem creditOf_congr {db db' : Database} (same : Table.Same money (db .orders) (db' .orders))
    (restaurantId : ℕ) (currency : String) (tx : Transaction) :
    creditOf db' restaurantId currency tx = creditOf db restaurantId currency tx := by
  unfold creditOf
  cases tx.orderId with
  | none => rfl
  | some id =>
    have there := same (RowKey.id id)
    simp only [Option.bind_some, orderOf]
    cases found : (db .orders).get (RowKey.id id) with
    | none =>
      rw [found] at there
      rw [Option.map_eq_none_iff.1 there]
    | some order =>
      rw [found] at there
      obtain ⟨order', found', isSame⟩ := Option.map_eq_some_iff.1 there
      rw [found']
      simp only [money, Prod.mk.injEq] at isSame
      cases tx.transactionType <;> simp [isSame]

/-- A quantity that does not look at the status of a transaction. -/
theorem total_collected {charges charges' : Table Transaction}
    (collected : Collected charges charges') {amount : Transaction → ℤ}
    (kept : ∀ status updatedAt row,
      amount (Transaction.withStatus status updatedAt row) = amount row) :
    charges'.total amount = charges.total amount := by
  rcases collected with rfl | ⟨id, updatedAt, rfl⟩
  · rfl
  · rw [Table.total_modify]
    exact Table.total_congr fun row _ => Table.rewrite_congr (kept _ _) row

theorem count_collected {charges charges' : Table Transaction}
    (collected : Collected charges charges') {p : Transaction → Bool}
    (kept : ∀ status updatedAt row, p (Transaction.withStatus status updatedAt row) = p row) :
    charges'.count p = charges.count p := by
  rcases collected with rfl | ⟨id, updatedAt, rfl⟩
  · rfl
  · rw [Table.count_modify]
    congr 1
    funext row
    exact Table.rewrite_congr (kept _ _) row

theorem mem_collected {charges charges' : Table Transaction}
    (collected : Collected charges charges') {tx : Transaction} (member : tx ∈ charges'.rows) :
    ∃ old ∈ charges.rows, old.transactionType = tx.transactionType ∧
      old.orderId = tx.orderId ∧ old.idempotencyKey = tx.idempotencyKey := by
  rcases collected with rfl | ⟨id, updatedAt, rfl⟩
  · exact ⟨tx, member, rfl, rfl, rfl⟩
  · obtain ⟨old, member', rfl⟩ := Table.mem_modify.1 member
    refine ⟨old, member', ?_⟩
    exact Table.rewrite_induction
      (motive := fun changed : Transaction => old.transactionType = changed.transactionType ∧
      old.orderId = changed.orderId ∧
      old.idempotencyKey = changed.idempotencyKey) ⟨rfl, rfl, rfl⟩ ⟨rfl, rfl, rfl⟩

theorem balanceIn_opened {restaurantId : ℕ} {currency : String}
    {accounts opened : Table RestaurantBalance}
    (isOpened : Opened restaurantId currency accounts opened) (restaurantId' : ℕ)
    (currency' : String) :
    balanceIn opened restaurantId' currency' = balanceIn accounts restaurantId' currency' := by
  rcases isOpened with rfl | ⟨now, free, rfl⟩
  · rfl
  · unfold balanceIn
    by_cases same : RowKey.account restaurantId currency = RowKey.account restaurantId' currency'
    · have added := Table.get_insert_self free
      have absent := Table.get_eq_none_of_free free
      simp only [key, RestaurantBalance.opening, same] at added absent
      rw [RestaurantBalance.opening, added, absent]
      rfl
    · rw [Table.get_insert_of_ne same]

theorem balanceIn_posted {restaurantId : ℕ} {currency : String} {amount : ℤ}
    {locked : RestaurantBalance} {accounts accounts' : Table RestaurantBalance}
    (posted : Posted restaurantId currency amount locked accounts accounts') (restaurantId' : ℕ)
    (currency' : String) :
    balanceIn accounts' restaurantId' currency' = balanceIn accounts restaurantId' currency' +
      if restaurantId = restaurantId' ∧ currency = currency' then amount else 0 := by
  obtain ⟨opened, updatedAt, isOpened, isLocked, rfl⟩ := posted
  rw [← balanceIn_opened isOpened]
  unfold balanceIn
  by_cases same : restaurantId = restaurantId' ∧ currency = currency'
  · obtain ⟨rfl, rfl⟩ := same
    rw [Table.get_modify_self isLocked rfl rfl, isLocked]
    simp [RestaurantBalance.withBalance]
  · have other : RowKey.account restaurantId' currency' ≠ RowKey.account restaurantId currency := by
      intro eq
      cases eq
      exact same ⟨rfl, rfl⟩
    rw [Table.get_modify_of_ne other, if_neg same, Int.add_zero]

theorem locked_eq_balanceIn {restaurantId : ℕ} {currency : String} {amount : ℤ}
    {locked : RestaurantBalance} {accounts accounts' : Table RestaurantBalance}
    (posted : Posted restaurantId currency amount locked accounts accounts') :
    locked.balance = balanceIn accounts restaurantId currency := by
  obtain ⟨opened, updatedAt, isOpened, isLocked, _⟩ := posted
  rw [← balanceIn_opened isOpened, balanceIn, isLocked]
  rfl

end Table

/-! ## The two transactions -/

theorem commission_le (order : Order) (branch : CoreBranch) (subtotal : 0 ≤ order.subtotal)
    (rate : branch.commissionBps ≤ 10000) : commissionOf order branch ≤ order.subtotal := by
  have scaled : (order.subtotal : ℚ) * branch.commissionBps / 10000 ≤ order.subtotal := by
    rw [div_le_iff₀ (by norm_num)]
    exact mul_le_mul_of_nonneg_left rate (by exact_mod_cast subtotal)
  have floored : ((commissionOf order branch : ℤ) : ℚ) ≤ order.subtotal :=
    (Rat.floor_le _).trans scaled
  exact_mod_cast floored

theorem moves_of_settled {order : Order} {branch : CoreBranch} {delivery : Delivery}
    {commission agentEarning : ℤ} {V : Database → Prop} {db db' : Database}
    (settled : Settled order branch delivery commission agentEarning V db db') : Moves db db' := by
  obtain ⟨time, time', stamp', orders⟩ := settled.orders
  obtain ⟨stamp, deliveries⟩ := settled.deliveries
  refine ⟨?_, ?_, settled.grows⟩
  · rw [orders]
    exact (Table.Same.modify (g := Order.withCommission commission time) (fun _ => rfl) _ _).trans
      (Table.Same.modify (money_withStatus _ _ _) _ _)
  · rw [deliveries]
    exact (Table.Keeps.modify (orderId_withStatus _ _) _ _).trans
      (Table.Keeps.modify (g := Delivery.withEarning agentEarning) (fun _ => rfl) _ _)

theorem moves_of_paidOut {restaurantId : ℕ} {amount : ℤ} {currency idempotencyKey : String}
    {db db' : Database}
    (paidOut : PaidOut restaurantId amount currency idempotencyKey db db') : Moves db db' := by
  have unchanged : db' .orders = db .orders ∧ db' .deliveries = db .deliveries ∧ db.Grows db' := by
    cases paidOut with
    | again opened others grows => exact ⟨others _ (by decide), others _ (by decide), grows⟩
    | paid locked id now covered posted free transactions others grows =>
      exact ⟨others _ (by decide) (by decide), others _ (by decide) (by decide), grows⟩
  obtain ⟨orders, deliveries, grows⟩ := unchanged
  exact ⟨by rw [orders]; exact .refl _ _, by rw [deliveries]; exact .refl _ _, grows⟩

theorem subtotals_of_moves {db db' : Database} (moves : Moves db db')
    (subtotals : ∀ id order, orderOf db id = some order → 0 ≤ order.subtotal) :
    ∀ id order, orderOf db' id = some order → 0 ≤ order.subtotal := by
  intro id order found
  have there := moves.orders (RowKey.id id)
  rw [show (db' .orders).get (RowKey.id id) = some order from found] at there
  obtain ⟨old, found', isSame⟩ := Option.map_eq_some_iff.1 there.symm
  have nonneg := subtotals id old found'
  simp only [money, Prod.mk.injEq] at isSame
  omega

theorem keyed_of_moves {db db' : Database} (moves : Moves db db') {tx : Transaction}
    (keyed : ∃ id delivery, tx.idempotencyKey = some (.commission id) ∧
      deliveryOf db id = some delivery ∧ tx.orderId = some delivery.orderId) :
    ∃ id delivery, tx.idempotencyKey = some (.commission id) ∧ deliveryOf db' id = some delivery ∧
      tx.orderId = some delivery.orderId := by
  obtain ⟨id, delivery, isKey, found, isOrder⟩ := keyed
  obtain ⟨delivery', found', same⟩ := moves.deliveries _ _ found
  exact ⟨id, delivery', isKey, found', by rw [same]; exact isOrder⟩

theorem consistent_of_settled {order row : Order} {branch : CoreBranch}
    {delivery deliveryRow : Delivery} {commission agentEarning : ℤ} {V : Database → Prop}
    {db db' : Database} (consistent : Consistent db)
    (settled : Settled order branch delivery commission agentEarning V db db')
    (isOrder : orderOf db order.id = some row) (sameMoney : money row = money order)
    (isDelivery : deliveryOf db delivery.id = some deliveryRow)
    (ofOrder : deliveryRow.orderId = order.id) (covered : commission ≤ order.subtotal)
    (since : ∀ before, V before → ∀ u, before.Indexed .agentEarnings u →
      db.Indexed .agentEarnings u) : Consistent db' := by
  have moves := moves_of_settled settled
  obtain ⟨charges, id, now, cash, free, transactions⟩ := settled.transactions
  have collected := cash.collected
  obtain ⟨locked, posted⟩ := settled.balances
  have credits : ∀ r c, (db' .transactions).total (creditOf db' r c) =
      (db .transactions).total (creditOf db r c) +
      if order.restaurantId = r ∧ order.currency = c then order.subtotal - commission else 0 := by
    intro r c
    have congr : creditOf db' r c = creditOf db r c :=
      funext fun tx => creditOf_congr moves.orders r c tx
    rw [congr, transactions, Table.total_insert free, total_collected collected fun _ _ _ => rfl]
    simp only [money, Prod.mk.injEq] at sameMoney
    simp [creditOf, commissionInput, CreateTransactionInput.row, isOrder, sameMoney]
  have payouts : ∀ r c, (db' .transactions).total (payoutOf r c) =
      (db .transactions).total (payoutOf r c) := by
    intro r c
    rw [transactions, Table.total_insert free, total_collected collected fun _ _ _ => rfl]
    simp [payoutOf, commissionInput, CreateTransactionInput.row]
  have commissions : ∀ d, (db' .transactions).count (isCommissionOf d) =
      (db .transactions).count (isCommissionOf d) + if delivery.id = d then 1 else 0 := by
    intro d
    rw [transactions, Table.count_insert free, count_collected collected fun _ _ _ => rfl]
    simp [isCommissionOf, commissionInput, CreateTransactionInput.row]
  -- The key of the new commission was free, so the delivery had neither a commission nor an
  -- earning.
  have noCommission : (db .transactions).count (isCommissionOf delivery.id) = 0 := by
    rw [← count_collected collected (p := isCommissionOf delivery.id) fun _ _ _ => rfl,
      Table.count_eq_zero]
    intro tx member
    have apart := Table.apart_of_not_clashes (Table.conflicts_eq_false.1 free tx member)
    by_contra isCommission
    simp only [Bool.not_eq_false, isCommissionOf, decide_eq_true_eq] at isCommission
    have old : UniqueKey.idempotency (.commission delivery.id) ∈ uniques tx := by
      simp [uniques, isCommission.2]
    exact apart.2 old (by simp [uniques, commissionInput, CreateTransactionInput.row])
  have noEarning : (db .agentEarnings).count (isEarningOf delivery.id) = 0 :=
    (consistent.earned _).trans noCommission
  have earnings : ∀ d, (db' .agentEarnings).count (isEarningOf d) =
      (db .agentEarnings).count (isEarningOf d) + if delivery.id = d then 1 else 0 := by
    intro d
    rcases settled.earnings with ⟨⟨before, isSince, indexed⟩, _⟩ | ⟨id', now', free', inserted⟩
    · obtain ⟨earning, member, entry⟩ := since before isSince _ indexed
      have isEarning := Table.count_eq_zero.1 noEarning earning member
      simp only [uniques, List.mem_singleton, UniqueKey.earningDelivery.injEq] at entry
      simp [isEarningOf, ← entry] at isEarning
    · rw [inserted, Table.count_insert free']
      by_cases same : delivery.id = d
      · simp [isEarningOf, earningInput, CreateAgentEarningInput.row, same]
      · simp [isEarningOf, earningInput, CreateAgentEarningInput.row, same]
  refine
    { balance := fun r c => ?_
      nonneg := fun r c => ?_
      keyed := fun tx member isCommission => ?_
      once := fun d => ?_
      earned := fun d => ?_
      subtotals := subtotals_of_moves moves consistent.subtotals }
  · rw [balanceIn_posted posted, consistent.balance, credits, payouts]
    ring
  · have before := consistent.nonneg r c
    rw [balanceIn_posted posted]
    split <;> omega
  · refine keyed_of_moves moves ?_
    rw [transactions] at member
    rcases Table.mem_insert member with old | rfl
    · obtain ⟨tx', member', isType, isOrderId, isKey⟩ := mem_collected collected old
      rw [← isKey, ← isOrderId]
      exact consistent.keyed tx' member' (isType.trans isCommission)
    · exact ⟨delivery.id, deliveryRow, rfl, isDelivery, congrArg some ofOrder.symm⟩
  · have listed : ∀ tx : Transaction, isCommissionOf d tx = true →
        UniqueKey.idempotency (.commission d) ∈ uniques tx := by
      intro tx isCommission
      simp only [isCommissionOf, decide_eq_true_eq] at isCommission
      simp [uniques, isCommission.2]
    exact Table.count_le_one listed
  · rw [earnings, commissions, consistent.earned]

theorem consistent_of_paidOut {restaurantId : ℕ} {amount : ℤ} {currency idempotencyKey : String}
    {db db' : Database} (consistent : Consistent db)
    (paidOut : PaidOut restaurantId amount currency idempotencyKey db db') : Consistent db' := by
  have moves := moves_of_paidOut paidOut
  have congr : ∀ r c, creditOf db' r c = creditOf db r c := fun r c =>
    funext fun tx => creditOf_congr moves.orders r c tx
  have subtotals := subtotals_of_moves moves consistent.subtotals
  cases paidOut with
  | again opened others grows =>
    -- The key is known: at most an empty account has been opened.
    have transactions := others .transactions (by decide)
    have earnings := others .agentEarnings (by decide)
    refine
      { balance := fun r c => ?_
        nonneg := fun r c => ?_
        keyed := fun tx member isCommission => ?_
        once := fun d => ?_
        earned := fun d => ?_
        subtotals }
    · rw [balanceIn_opened opened, congr, transactions]
      exact consistent.balance r c
    · rw [balanceIn_opened opened]
      exact consistent.nonneg r c
    · rw [transactions] at member
      exact keyed_of_moves moves (consistent.keyed tx member isCommission)
    · rw [transactions]
      exact consistent.once d
    · rw [transactions, earnings]
      exact consistent.earned d
  | paid locked id now covered posted free transactions others grows =>
    have earnings := others .agentEarnings (by decide) (by decide)
    -- A payout is no commission.
    have commissions : ∀ d, (db' .transactions).count (isCommissionOf d) =
        (db .transactions).count (isCommissionOf d) := by
      intro d
      rw [transactions, Table.count_insert free]
      simp [isCommissionOf, payoutInput, CreateTransactionInput.row]
    refine
      { balance := fun r c => ?_
        nonneg := fun r c => ?_
        keyed := fun tx member isCommission => ?_
        once := fun d => ?_
        earned := fun d => ?_
        subtotals }
    · rw [balanceIn_posted posted, congr, transactions, Table.total_insert free,
        Table.total_insert free, consistent.balance]
      simp only [creditOf, payoutOf, payoutInput, CreateTransactionInput.row,
        Option.some.injEq, true_and]
      split <;> ring
    · have before := consistent.nonneg r c
      -- The locked balance covers the payout.
      have isLocked := locked_eq_balanceIn posted
      rw [balanceIn_posted posted]
      split
      next same =>
        obtain ⟨rfl, rfl⟩ := same
        omega
      next => omega
    · rw [transactions] at member
      rcases Table.mem_insert member with old | rfl
      · exact keyed_of_moves moves (consistent.keyed tx old isCommission)
      · cases isCommission
    · rw [commissions]
      exact consistent.once d
    · rw [commissions, earnings]
      exact consistent.earned d

/-! ## The calls -/

/-- Settlements with answers of the core service in range, and payouts. -/
def SettlesOrPays : Operation → Prop
  | .updateDeliveryStatus core _ _ targetStatus => targetStatus = .delivered ∧ ∀ branchId branch,
      core.getBranch branchId = .ok branch → 0 ≤ branch.commissionBps ∧ branch.commissionBps ≤ 10000
  | .recordPayout .. => True
  | _ => False

def protocol : Protocol (K := RowKey) RowOf Shared Err Operation Reply Unit where
  inv s := Consistent s.db
  guar _ _ w w' := Moves w.db w'.db
  rely _ _ w w' := Moves w.db w'.db
  post _ _ _ _ := True
  allow _ _ _ := True
  faulty _ := True
  admits := SettlesOrPays
  apart _ _ _ := True

theorem lawful : protocol.Lawful where
  guar_refl _ _ w := .refl w.db
  rely_refl _ _ w := .refl w.db
  rely_trans first second := first.trans second
  rely_of_guar _ _ _ _ guar := guar
  post_stable _ _ _ _ := trivial
  inv_spawn holds _ _ := holds
  inv_crash _ _ holds := ⟨holds, trivial⟩

theorem free (i : ℕ) (op : Operation) : protocol.Free i op Later :=
  fun s _ _ holds => ⟨holds, .refl s.db, .refl s.db⟩

theorem persists (i : ℕ) (op : Operation) : Persists protocol i op :=
  fun _ _ t k rely there => rely.grows.rows t k there

section Calls

variable {i : ℕ} {op : Operation} {s : Sit RowOf Shared Operation Unit}

theorem wp_payout {restaurantId : ℕ} {amount : ℤ} {currency idempotencyKey : String} :
    protocol.wp i op (FinanceService.recordPayout restaurantId amount currency idempotencyKey)
      (fun _ _ s' => Consistent s'.db) .start s := by
  refine wp_recordPayout lawful (free i op) (fun result s' seen' db' env _ paidOut _ => ?_)
    fun _ _ s' env => env.inv
  exact ⟨(), consistent_of_paidOut env.inv paidOut, moves_of_paidOut paidOut,
    fun s'' env' => env'.inv⟩

theorem wp_deliver {env : Config} {core : Core} {deliveryId actorUserId : ℕ}
    (holds : Consistent s.db)
    (rates : ∀ branchId branch, core.getBranch branchId = .ok branch →
      0 ≤ branch.commissionBps ∧ branch.commissionBps ≤ 10000) :
    protocol.wp i op (DeliveryService.updateStatus env core deliveryId actorUserId .delivered)
      (fun _ _ s' => Consistent s'.db) .start s := by
  refine wp_do (wp_selectByKey lawful (fun isTrx => nomatch isTrx) holds ?_ ?_
    fun _ s' env => env.inv)
  swap
  · exact fun _ s' env => env.inv
  intro _ delivery read s₁ env₁
  refine wp_do (wp_throwIf (fun _ => wp_do (wp_throwIf (fun _ => ?_) fun _ => env₁.inv))
    fun _ => env₁.inv)
  have isDelivery : RowKey.id delivery.id = RowKey.id deliveryId := Table.get_key read
  have there : ∃ row, deliveryOf s₁.db delivery.id = some row ∧ row.orderId = delivery.orderId := by
    rw [deliveryOf, isDelivery]
    exact env₁.drift.1.deliveries _ _ read
  obtain ⟨row₁, found₁, sameOrder₁⟩ := there
  refine wp_settleDelivery lawful (free i op) (persists i op) env₁.inv (by rw [found₁]; rfl) ?_
    fun _ _ s' env => env.inv
  intro result order branch row s₂ seen' db' env₂ _ settling
  have isOrder : RowKey.id order.id = RowKey.id delivery.orderId := Table.get_key settling.read
  -- The order keeps its money, and the delivery its order, since they were read.
  have sameMoney := env₂.drift.1.orders (RowKey.id delivery.orderId)
  rw [show (s₁.db .orders).get (RowKey.id delivery.orderId) =
    some order from settling.read] at sameMoney
  obtain ⟨orderRow, foundOrder, isSame⟩ := Option.map_eq_some_iff.1 sameMoney
  obtain ⟨row₂, found₂, sameOrder₂⟩ := env₂.drift.1.deliveries _ _ found₁
  have isRow : row₂ = row := Option.some.inj (found₂.symm.trans settling.found)
  have covered : commissionOf order branch ≤ order.subtotal :=
    commission_le order branch (env₁.inv.subtotals _ _ settling.read)
      (rates _ _ settling.answered).2
  refine ⟨(), ?_, moves_of_settled settling.settled, fun s' env => env.inv⟩
  have foundRow : orderOf s₂.db order.id = some orderRow := by
    rw [orderOf, isOrder]
    exact foundOrder
  refine consistent_of_settled env₂.inv settling.settled foundRow isSame
    settling.found ?_ covered ?_
  · have sameIds : order.id = delivery.orderId := by simpa using isOrder
    rw [← isRow, sameOrder₂, sameOrder₁, sameIds]
  · rintro before ⟨m, rfl, _, second⟩ u indexed
    exact second.drift.1.grows.entries _ u indexed

end Calls

theorem verified (env : Config) : protocol.Verified (code env) := by
  intro i op s s' holds _ admitted _ started
  cases op with
  | updateDeliveryStatus core deliveryId actorUserId targetStatus =>
    obtain ⟨rfl, rates⟩ := admitted
    refine wp_map (wp_mono ?_ (wp_deliver started.inv rates))
    exact fun _ _ _ consistent => ⟨consistent, trivial⟩
  | recordPayout restaurantId amount currency idempotencyKey =>
    refine wp_map (wp_mono ?_ wp_payout)
    exact fun _ _ _ consistent => ⟨consistent, trivial⟩
  | _ => exact admitted.elim

/-! ## Runs -/

/-- Settlements and payouts, with any faults and crashes. -/
def SettlementRuns (_ : Region) (e : Event Operation) : Prop := Serves SettlesOrPays e

theorem admissible (p : Region) (e : Event Operation) (allowed : SettlementRuns p e) :
    protocol.Admissible p e := by
  cases e with
  | spawn op => exact ⟨allowed, fun _ _ _ => ⟨trivial, trivial⟩⟩
  | step i choice =>
    exact ⟨fun _ _ _ _ _ _ _ => trivial,
      fun call found => ⟨fun _ => trivial, fun out acts => trivial⟩⟩
  | crash i => exact fun _ _ => trivial

theorem ledger_is_conserved (env : Config) (db : Database) (x : Shared) (consistent : Consistent db)
    (p : Region)
    (reached : Pool.Reach (code env) SettlementRuns (Pool.quiet db x) p) : Conserved p.db := by
  obtain ⟨ghost, sound⟩ :=
    sound_of_reach lawful (verified env) admissible (sound_quiet () consistent) reached
  exact sound.inv.toConserved

/-- A region that has settled nothing yet. -/
theorem consistent_of_unsettled {db : Database} (transactions : db .transactions = Table.empty)
    (balances : db .restaurantBalances = Table.empty) (earnings : db .agentEarnings = Table.empty)
    (subtotals : ∀ order ∈ (db .orders).rows, 0 ≤ order.subtotal) : Consistent db := by
  refine
    { balance := fun r c => ?_
      nonneg := fun r c => ?_
      keyed := fun tx member => ?_
      once := fun d => ?_
      earned := fun d => ?_
      subtotals := fun id order found => subtotals order (Table.get_mem found) }
  · rw [balances, transactions]
    simp [balanceIn, Table.total]
  · rw [balances]
    simp [balanceIn]
  · rw [transactions] at member
    cases member
  · rw [transactions]
    simp [Table.count]
  · rw [transactions, earnings]
    rfl

theorem ledger_of_one_delivery : ∃ p, Pool.Reach (code Sample.env) SettlementRuns
    (Pool.quiet (Sample.dbOnTheWay .picked .picked) Sample.shared) p ∧ Conserved p.db ∧
    balanceIn (p.db .restaurantBalances) 5 "EGP" = 900 := by
  have rates : ∀ branchId branch, Sample.core.getBranch branchId = .ok branch →
      0 ≤ branch.commissionBps ∧ branch.commissionBps ≤ 10000 := by
    intro branchId branch answered
    cases answered
    norm_num [Sample.branch]
  have first : Pool.Reach (code Sample.env) SettlementRuns
      (Pool.quiet (Sample.dbOnTheWay .picked .picked) Sample.shared) _ :=
    Pool.Reach.step .refl (e := .spawn (.updateDeliveryStatus Sample.core 1 2 .delivered))
      ⟨rfl, rates⟩ rfl
  have played : (Pool.play (code Sample.env) (fun _ e => decide (Serves (fun _ => False) e))
      (List.replicate 30 (Sample.act 0)) ⟨Sample.dbOnTheWay .picked .picked, Sample.shared,
        [⟨.updateDeliveryStatus Sample.core 1 2 .delivered,
          code Sample.env (.updateDeliveryStatus Sample.core 1 2 .delivered), .start⟩]⟩).map
        (fun p => balanceIn (p.db .restaurantBalances) 5 "EGP") = some 900 := by decide +kernel
  obtain ⟨p, isRun, isBalance⟩ := Option.map_eq_some_iff.1 played
  have rest : Pool.Reach (code Sample.env) SettlementRuns _ p :=
    Pool.reach_of_play
      (fun _ _ checked => Serves.mono (fun _ => False.elim) (of_decide_eq_true checked)) isRun
  have reached := first.trans rest
  have unsettled : Consistent (Sample.dbOnTheWay .picked .picked) :=
    consistent_of_unsettled rfl rfl rfl (by decide)
  exact ⟨p, reached, ledger_is_conserved Sample.env _ Sample.shared unsettled p reached, isBalance⟩

end SwiftBite.Verified.Ledger
