import SwiftBite.Verified.Chains
import SwiftBite.Verified.Ledger
import SwiftBite.Verified.WriteCatalogue

/-! # Accounts among all operations

The ledger equation, with every operation of the region beside settlements and payouts, and with
any answers of the core service: whatever else is written, no other operation touches an account,
records a commission or records a payout.
-/

set_option autoImplicit false

namespace SwiftBite.Verified.Accounts

open Store Protocol Verified DeliveryService Ledger

/-! ## The equation -/

structure Balanced (db : Database) : Prop where
  balance : ∀ restaurantId currency, balanceIn (db .restaurantBalances) restaurantId currency =
    (db .transactions).total (creditOf db restaurantId currency) -
      (db .transactions).total (payoutOf restaurantId currency)
  /-- What a commission is worth to a restaurant is settled: its order is there. -/
  anchored : ∀ (tx : Transaction) orderId, tx ∈ (db .transactions).rows →
    tx.transactionType = .commission →
    tx.orderId = some orderId → (orderOf db orderId).isSome = true

structure Goes (db db' : Database) : Prop where
  grows : db.Grows db'
  orders : Table.Keeps money (db .orders) (db' .orders)

theorem Goes.refl (db : Database) : Goes db db := ⟨.refl db, .refl _ _⟩

theorem Goes.trans {db db' db'' : Database} (first : Goes db db')
    (second : Goes db' db'') : Goes db db'' :=
  ⟨first.grows.trans second.grows, first.orders.trans second.orders⟩

section

variable {db db' : Database}

theorem there_of_keeps (keeps : Table.Keeps money (db .orders) (db' .orders)) {id : ℕ}
    (there : (orderOf db id).isSome = true) : (orderOf db' id).isSome = true := by
  obtain ⟨order, found⟩ := Option.isSome_iff_exists.1 there
  obtain ⟨order', found', _⟩ := keeps _ _ found
  exact Option.isSome_iff_exists.2 ⟨order', found'⟩

/-- The credit of a commission stays as long as orders keep their money. -/
theorem creditOf_of_keeps (keeps : Table.Keeps money (db .orders) (db' .orders)) {tx : Transaction}
    (anchored : ∀ orderId, tx.transactionType = .commission → tx.orderId = some orderId →
      (orderOf db orderId).isSome = true) (restaurantId : ℕ) (currency : String) :
    creditOf db' restaurantId currency tx = creditOf db restaurantId currency tx := by
  cases isType : tx.transactionType with
  | commission =>
    cases isOrder : tx.orderId with
    | none => simp [creditOf, isOrder]
    | some orderId =>
      obtain ⟨order, found⟩ := Option.isSome_iff_exists.1 (anchored orderId isType isOrder)
      obtain ⟨order', found', same⟩ := keeps _ _ found
      have found' : orderOf db' orderId = some order' := found'
      simp only [money, Prod.mk.injEq] at same
      simp [creditOf, isType, isOrder, found, found', same]
  | _ => simp [creditOf, isType]

theorem total_of_keeps (balanced : Balanced db)
    (keeps : Table.Keeps money (db .orders) (db' .orders)) (restaurantId : ℕ) (currency : String) :
    (db .transactions).total (creditOf db' restaurantId currency) =
      (db .transactions).total (creditOf db restaurantId currency) :=
  Table.total_congr fun tx member => creditOf_of_keeps keeps
    (fun orderId => balanced.anchored tx orderId member) restaurantId currency

/-! ## Other writes -/

/-- What counts of a transaction. -/
def entry (tx : Transaction) : TransactionType × Option ℕ × ℤ × Option ℕ × String :=
  (tx.transactionType, tx.orderId, tx.amount, tx.dstAccId, tx.currency)

theorem creditOf_of_entry {a b : Transaction} (same : entry a = entry b) (restaurantId : ℕ)
    (currency : String) :
    creditOf db restaurantId currency a = creditOf db restaurantId currency b := by
  simp only [entry, Prod.mk.injEq] at same
  simp [creditOf, same]

theorem payoutOf_of_entry {a b : Transaction} (same : entry a = entry b) (restaurantId : ℕ)
    (currency : String) : payoutOf restaurantId currency a = payoutOf restaurantId currency b := by
  simp only [entry, Prod.mk.injEq] at same
  simp [payoutOf, same]

/-- Orders come and change, and keep their money. -/
theorem balanced_of_orders (balanced : Balanced db)
    (keeps : Table.Keeps money (db .orders) (db' .orders))
    (balances : db' .restaurantBalances = db .restaurantBalances)
    (transactions : db' .transactions = db .transactions) : Balanced db' where
  balance restaurantId currency := by
    rw [balances, transactions, total_of_keeps balanced keeps]
    exact balanced.balance restaurantId currency
  anchored tx orderId member isType isOrder := by
    rw [transactions] at member
    exact there_of_keeps keeps (balanced.anchored tx orderId member isType isOrder)

/-- A transaction changes in what does not count. -/
theorem balanced_of_update {k : RowKey} {f : Transaction → Transaction} (balanced : Balanced db)
    (kept : ∀ tx, entry (f tx) = entry tx) :
    Balanced (db.apply (.update TableName.transactions k f)) := by
  have others : ∀ t, t ≠ .transactions → db.apply (.update TableName.transactions k f) t = db t :=
    fun t other => Db.apply_other db other.symm
  have orders := others .orders (by decide)
  have same : ∀ tx, entry (Table.rewrite k f tx) = entry tx := fun tx => Table.rewrite_congr kept tx
  have congr : ∀ restaurantId currency,
      creditOf (db.apply (.update TableName.transactions k f)) restaurantId currency =
      creditOf db restaurantId currency := by
    intro restaurantId currency
    exact funext fun tx => creditOf_congr (by rw [orders]; exact .refl _ _) restaurantId currency tx
  refine ⟨fun restaurantId currency => ?_, fun tx orderId member isType isOrder => ?_⟩
  · rw [others .restaurantBalances (by decide), congr, Db.apply_update_self, Table.total_modify,
      Table.total_modify]
    simp only [creditOf_of_entry (same _), payoutOf_of_entry (same _)]
    exact balanced.balance restaurantId currency
  · rw [Db.apply_update_self] at member
    obtain ⟨old, isOld, rfl⟩ := Table.mem_modify.1 member
    have sameEntry := same old
    simp only [entry, Prod.mk.injEq] at sameEntry
    rw [orderOf, orders]
    exact balanced.anchored old orderId isOld (sameEntry.1.symm.trans isType)
      (sameEntry.2.1.symm.trans isOrder)

/-- A transaction that is neither a commission nor a payout counts for nothing. -/
theorem balanced_of_insert {data : CreateTransactionInput} {id now : ℕ} (balanced : Balanced db)
    (permitted : Permitted False False data) :
    Balanced (db.apply (.insert TableName.transactions (data.row id now))) := by
  have others : ∀ t, t ≠ .transactions →
      db.apply (.insert TableName.transactions (data.row id now)) t = db t :=
    fun t other => Db.apply_other db other.symm
  have orders := others .orders (by decide)
  -- Neither sum counts the new row.
  have noCredit : ∀ restaurantId currency,
      creditOf db restaurantId currency (data.row id now) = 0 := by
    intro restaurantId currency
    have notCommission : data.transactionType ≠ .commission := permitted.commission
    cases isType : data.transactionType <;> simp_all [creditOf, CreateTransactionInput.row]
  have noPayout : ∀ restaurantId currency,
      payoutOf restaurantId currency (data.row id now) = 0 := by
    intro restaurantId currency
    have notPayout : data.transactionType ≠ .payout := permitted.payout
    simp [payoutOf, CreateTransactionInput.row, notPayout]
  cases conflicts : (db .transactions).conflicts (data.row id now) with
  | true =>
    -- A conflicting insert changes nothing.
    refine balanced_of_orders balanced ?_ (others _ (by decide)) ?_
    · rw [orders]
      exact .refl _ _
    · rw [Db.apply_insert_self, Table.insert_of_conflicts conflicts]
  | false =>
    have congr : ∀ restaurantId currency,
        creditOf (db.apply (.insert TableName.transactions (data.row id now))) restaurantId
          currency = creditOf db restaurantId currency := by
      intro restaurantId currency
      exact funext fun tx =>
        creditOf_congr (by rw [orders]; exact .refl _ _) restaurantId currency tx
    refine ⟨fun restaurantId currency => ?_, fun tx orderId member isType isOrder => ?_⟩
    · rw [others .restaurantBalances (by decide), congr, Db.apply_insert_self,
        Table.total_insert conflicts, Table.total_insert conflicts,
        noCredit, noPayout, Int.add_zero, Int.add_zero]
      exact balanced.balance restaurantId currency
    · rw [Db.apply_insert_self] at member
      rw [orderOf, orders]
      rcases Table.mem_insert member with old | rfl
      · exact balanced.anchored tx orderId old isType isOrder
      · exact absurd isType permitted.commission

theorem kept_of_aside {w : SqlWrite} {t : TableName} (inTable : w.table = t)
    (aside : t ∉ [TableName.orders, .transactions, .restaurantBalances]) (balanced : Balanced db) :
    Balanced (db.apply w) ∧ Table.Keeps money (db .orders) (db.apply w .orders) := by
  have others : ∀ t' ∈ [TableName.orders, .transactions, .restaurantBalances],
      db.apply w t' = db t' := by
    intro t' among
    refine Db.apply_other db ?_
    rw [inTable]
    rintro rfl
    exact aside among
  have keeps : Table.Keeps money (db .orders) (db.apply w .orders) := by
    rw [others .orders (by simp)]
    exact .refl _ _
  exact ⟨balanced_of_orders balanced keeps (others _ (by simp)) (others _ (by simp)), keeps⟩

theorem kept_of_order_write {w : SqlWrite} (inTable : w.table = .orders)
    (keeps : Table.Keeps money (db .orders) (db.apply w .orders)) (balanced : Balanced db) :
    Balanced (db.apply w) ∧ Table.Keeps money (db .orders) (db.apply w .orders) := by
  have others : ∀ t, t ≠ .orders → db.apply w t = db t :=
    fun t other => Db.apply_other db (by rw [inTable]; exact other.symm)
  exact ⟨balanced_of_orders balanced keeps (others _ (by decide)) (others _ (by decide)), keeps⟩

theorem kept_of_order_update {k : RowKey} {f : Order → Order}
    (kept : ∀ row, money (f row) = money row) (balanced : Balanced db) :
    Balanced (db.apply (.update TableName.orders k f)) ∧
    Table.Keeps money (db .orders) (db.apply (.update TableName.orders k f) .orders) := by
  refine kept_of_order_write rfl ?_ balanced
  rw [Db.apply_update_self]
  exact .modify kept _ _

theorem orders_of_transaction {w : SqlWrite} (inTable : w.table = .transactions) :
    Table.Keeps money (db .orders) (db.apply w .orders) := by
  rw [Db.apply_other db (by rw [inTable]; decide)]
  exact .refl _ _

/-- What is written outside of settlements and payouts keeps the equation. -/
theorem kept_of_write {placed : CreateOrderInput → Prop} {w : SqlWrite}
    (listed : Catalogue placed False False w) (balanced : Balanced db) :
    Balanced (db.apply w) ∧ Table.Keeps money (db .orders) (db.apply w .orders) := by
  cases listed with
  | lock t k => exact ⟨balanced, .refl _ _⟩
  | order data id now =>
    refine kept_of_order_write rfl ?_ balanced
    rw [Db.apply_insert_self]
    exact .insert _ _ _
  | orderStatus k status updatedAt stamp =>
    exact kept_of_order_update (money_withStatus status updatedAt stamp) balanced
  | orderAgent => exact kept_of_order_update (fun _ => rfl) balanced
  | orderCommission _ _ _ impossible => exact impossible.elim
  | transaction data id now permitted =>
    exact ⟨balanced_of_insert balanced permitted, orders_of_transaction rfl⟩
  | transactionStatus => exact ⟨balanced_of_update balanced fun _ => rfl, orders_of_transaction rfl⟩
  | transactionReference =>
    exact ⟨balanced_of_update balanced fun _ => rfl, orders_of_transaction rfl⟩
  | transactionRefunded =>
    exact ⟨balanced_of_update balanced fun _ => rfl, orders_of_transaction rfl⟩
  | restaurantBalance _ impossible => exact (impossible.elim id id).elim
  | balance _ _ _ impossible => exact (impossible.elim id id).elim
  | agentEarning _ impossible => exact impossible.elim
  | deliveryEarning _ _ impossible => exact impossible.elim
  | orderItem => exact kept_of_aside (t := .orderItems) rfl (by decide) balanced
  | paymentSession | sessionStatus =>
    exact kept_of_aside (t := .paymentSessions) rfl (by decide) balanced
  | webhookEvent | webhookProcessed =>
    exact kept_of_aside (t := .paymentWebhookEvents) rfl (by decide) balanced
  | delivery | deliveryStatus | deliveryCancelled =>
    exact kept_of_aside (t := .deliveries) rfl (by decide) balanced
  | agentPresence | presencePut | presenceOffline | presenceMoved =>
    exact kept_of_aside (t := .agentPresence) rfl (by decide) balanced
  | outboxEvent => exact kept_of_aside (t := .eventsOutbox) rfl (by decide) balanced

theorem kept_of_writes {placed : CreateOrderInput → Prop} {ws : List SqlWrite}
    (listed : ∀ w ∈ ws, Catalogue placed False False w) (balanced : Balanced db) :
    Balanced (db.applyAll ws) ∧ Goes db (db.applyAll ws) := by
  suffices both : Balanced (db.applyAll ws) ∧
      Table.Keeps money (db .orders) (db.applyAll ws .orders) from
    ⟨both.1, Db.grows_applyAll db ws, both.2⟩
  induction ws generalizing db with
  | nil => exact ⟨balanced, .refl _ _⟩
  | cons w ws inductionHypothesis =>
    obtain ⟨first, rest⟩ := List.forall_mem_cons.1 listed
    obtain ⟨balanced₁, keeps₁⟩ := kept_of_write first balanced
    obtain ⟨balanced₂, keeps₂⟩ := inductionHypothesis rest balanced₁
    exact ⟨balanced₂, keeps₁.trans keeps₂⟩

/-! ## Settlements and payouts -/

theorem balanced_of_settled {order row : Order} {branch : CoreBranch} {delivery : Delivery}
    {commission agentEarning : ℤ} {V : Database → Prop} (balanced : Balanced db)
    (settled : Settled order branch delivery commission agentEarning V db db')
    (isOrder : orderOf db order.id = some row) (sameMoney : money row = money order) :
    Balanced db' ∧ Goes db db' := by
  have moves := moves_of_settled settled
  obtain ⟨charges, id, now, cash, free, transactions⟩ := settled.transactions
  obtain ⟨locked, posted⟩ := settled.balances
  have collected := cash.collected
  simp only [money, Prod.mk.injEq] at sameMoney
  refine ⟨⟨fun restaurantId currency => ?_, fun tx orderId member isType isOrderId => ?_⟩,
    settled.grows, moves.orders.keeps⟩
  · have congr : creditOf db' restaurantId currency = creditOf db restaurantId currency :=
      funext fun tx => creditOf_congr moves.orders restaurantId currency tx
    -- The balance grows by what the commission leaves of the subtotal.
    have credit : creditOf db restaurantId currency
        ((commissionInput order branch delivery commission).row id now) =
        if order.restaurantId = restaurantId ∧ order.currency = currency
        then order.subtotal - commission else 0 := by
      simp [creditOf, commissionInput, CreateTransactionInput.row, isOrder, sameMoney]
    have payout : payoutOf restaurantId currency
        ((commissionInput order branch delivery commission).row id now) = 0 := by
      simp [payoutOf, commissionInput, CreateTransactionInput.row]
    rw [balanceIn_posted posted, balanced.balance, congr, transactions, Table.total_insert free,
      Table.total_insert free, credit, payout,
      total_collected collected fun _ _ _ => rfl, total_collected collected fun _ _ _ => rfl]
    omega
  · refine there_of_keeps moves.orders.keeps ?_
    rw [transactions] at member
    rcases Table.mem_insert member with old | rfl
    · obtain ⟨tx', member', sameType, sameOrder, _⟩ := mem_collected collected old
      exact balanced.anchored tx' orderId member' (sameType.trans isType)
        (sameOrder.trans isOrderId)
    · cases isOrderId
      rw [isOrder]
      rfl

theorem balanced_of_paidOut {restaurantId : ℕ} {amount : ℤ} {currency idempotencyKey : String}
    (balanced : Balanced db)
    (paidOut : PaidOut restaurantId amount currency idempotencyKey db db') :
    Balanced db' ∧ Goes db db' := by
  have moves := moves_of_paidOut paidOut
  have congr : ∀ r c, creditOf db' r c = creditOf db r c :=
    fun r c => funext fun tx => creditOf_congr moves.orders r c tx
  refine ⟨⟨fun r c => ?_, fun tx orderId member isType isOrderId =>
    there_of_keeps moves.orders.keeps ?_⟩, moves.grows, moves.orders.keeps⟩
  · cases paidOut with
    | again opened others grows =>
      rw [balanceIn_opened opened, congr, others .transactions (by decide)]
      exact balanced.balance r c
    | paid locked id now covered posted free transactions others grows =>
      rw [balanceIn_posted posted, congr, transactions, Table.total_insert free,
        Table.total_insert free, balanced.balance]
      simp only [creditOf, payoutOf, payoutInput, CreateTransactionInput.row,
        Option.some.injEq, true_and]
      split <;> omega
  · cases paidOut with
    | again opened others grows =>
      rw [others .transactions (by decide)] at member
      exact balanced.anchored tx orderId member isType isOrderId
    | paid locked id now covered posted free transactions others grows =>
      rw [transactions] at member
      rcases Table.mem_insert member with old | rfl
      · exact balanced.anchored tx orderId old isType isOrderId
      · cases isType

end

/-! ## The calls -/

def protocol : Protocol (K := RowKey) RowOf Shared Err Operation Reply Unit where
  inv s := Balanced s.db
  guar _ _ w w' := Goes w.db w'.db
  rely _ _ w w' := Goes w.db w'.db
  post _ _ _ _ := True
  allow _ _ _ := True
  faulty _ := True
  admits _ := True
  apart _ _ _ := True

theorem lawful : protocol.Lawful where
  guar_refl _ _ w := .refl w.db
  rely_refl _ _ w := .refl w.db
  rely_trans first second := first.trans second
  rely_of_guar _ _ _ _ guar := guar
  post_stable _ _ _ _ := trivial
  inv_spawn holds _ _ := holds
  inv_crash _ _ holds := ⟨holds, trivial⟩

theorem free (i : ℕ) (op : Operation) : protocol.Free i op Later :=
  fun s _ _ holds => ⟨holds, .refl s.db, .refl s.db⟩

theorem persists (i : ℕ) (op : Operation) : Persists protocol i op :=
  fun _ _ _ _ rely there => rely.grows.rows _ _ there

theorem tolerates (i : ℕ) (op : Operation) :
    protocol.Tolerates i op (catalogued (fun _ => True) False False) := by
  intro s ws listed balanced
  obtain ⟨balanced', goes⟩ := kept_of_writes listed balanced
  exact ⟨balanced', goes, goes⟩

section Calls

variable {i : ℕ} {op : Operation} {s : Sit RowOf Shared Operation Unit}

theorem wp_paying {restaurantId : ℕ} {amount : ℤ} {currency idempotencyKey : String} :
    protocol.wp i op (FinanceService.recordPayout restaurantId amount currency idempotencyKey)
      (fun _ _ s' => Balanced s'.db) .start s := by
  refine wp_recordPayout lawful (free i op) (fun result s' seen' db' env _ paidOut _ => ?_)
    fun _ _ s' env => env.inv
  obtain ⟨balanced, goes⟩ := balanced_of_paidOut env.inv paidOut
  exact ⟨(), balanced, goes, fun s'' env' => env'.inv⟩

theorem wp_settling {env : Config} {core : Core} {deliveryId actorUserId : ℕ}
    (balanced : Balanced s.db) :
    protocol.wp i op (DeliveryService.updateStatus env core deliveryId actorUserId .delivered)
      (fun _ _ s' => Balanced s'.db) .start s := by
  refine wp_agentRequest lawful (free i op) (persists i op) balanced (fun _ env => env.inv) ?_ ?_
  · intro delivery order branch row s₀ s₁ db' _ _ _ _ until₀ until₁ _ settling
    -- The order keeps its money since it was read.
    obtain ⟨orderRow, foundOrder, sameMoney⟩ := until₁.drift.1.orders _ _ settling.read
    have isOrder : RowKey.id order.id = RowKey.id delivery.orderId := Table.get_key settling.read
    have foundRow : orderOf s₁.db order.id = some orderRow := by
      rw [orderOf, isOrder]
      exact foundOrder
    obtain ⟨balanced', goes⟩ := balanced_of_settled until₁.inv settling.settled foundRow sameMoney
    exact ⟨(), balanced', goes, fun s' env => env.inv⟩
  · intro delivery row stamp s₁ _ _ _ _ _ notDelivered
    exact absurd rfl notDelivered

end Calls

theorem verified (env : Config) : protocol.Verified (code env) := by
  intro i op s s' _ _ _ _ started
  refine wp_mono (fun _ _ s'' (balanced : Balanced s''.db) => ⟨balanced, trivial⟩) ?_
  by_cases settles : WriteCatalogue.Settles op
  · cases op with
    | updateDeliveryStatus core deliveryId actorUserId target =>
      cases target with
      | delivered => exact wp_map (wp_settling started.inv)
      | _ => exact settles.elim
    | _ => exact settles.elim
  · by_cases pays : WriteCatalogue.PaysOut op
    · cases op with
      | recordPayout restaurantId amount currency idempotencyKey => exact wp_map wp_paying
      | _ => exact pays.elim
    · exact wp_harmless lawful (free i op) (tolerates i op)
        (WriteCatalogue.harmless_run env op (WriteCatalogue.places_any op) settles pays)
        (fun w none => absurd none List.not_mem_nil) started.inv started.self
        fun _ _ _ balanced _ _ => balanced

theorem admissible (p : Region) (e : Event Operation) (_ : Chains.anything p e) :
    protocol.Admissible p e := by
  cases e with
  | spawn op => exact ⟨trivial, fun _ _ _ => ⟨trivial, trivial⟩⟩
  | step i choice =>
    exact ⟨fun _ _ _ _ _ _ _ => trivial,
      fun call found => ⟨fun _ => trivial, fun out acts => trivial⟩⟩
  | crash i => exact fun _ _ => trivial

theorem balanced_of_run {env : Config} {x : Shared} {p : Region}
    (reached : Pool.Reach (code env) Chains.anything (Pool.quiet Database.empty x) p) :
    Balanced p.db := by
  have empty : Balanced Database.empty :=
    ⟨fun _ _ => rfl, fun _ _ none => absurd none List.not_mem_nil⟩
  obtain ⟨_, sound⟩ :=
    sound_of_reach lawful (verified env) admissible (sound_quiet () empty) reached
  exact sound.inv

end SwiftBite.Verified.Accounts
