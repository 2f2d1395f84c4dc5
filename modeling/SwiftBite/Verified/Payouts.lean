import SwiftBite.Store.Decisive
import SwiftBite.Verified.Ledger

/-! # Payouts under one key

The lock on the account keeps apart two payouts in one currency, and the unique key all
others; the transaction then has all of a payout or nothing of it.  A payout that was found
is returned as it was recorded, because nothing writes to it afterwards.
-/

set_option autoImplicit false

namespace SwiftBite.Verified.Payouts

open Store Protocol Verified FinanceService

/-- The payout of a restaurant under a key. -/
structure PayoutRecorded (db : Database) (restaurantId : ℕ) (idempotencyKey : String)
    (tx : Transaction) : Prop where
  member : tx ∈ (db .transactions).rows
  isPayout : tx.transactionType = .payout
  keyed : tx.idempotencyKey = some (.payout restaurantId idempotencyKey)

/-- No other transaction has the key of a payout. -/
def WellKeyed (db : Database) : Prop :=
  ∀ tx ∈ (db .transactions).rows, ∀ restaurantId idempotencyKey,
  tx.idempotencyKey = some (.payout restaurantId idempotencyKey) → tx.transactionType = .payout

/-- The account of the payout's currency is reduced by its amount, and no other account. -/
def Deducted (restaurantId : ℕ) (tx : Transaction) (db db' : Database) : Prop :=
  ∀ restaurantId' currency, Ledger.balanceIn (db' .restaurantBalances) restaurantId' currency =
    Ledger.balanceIn (db .restaurantBalances) restaurantId' currency -
      if restaurantId = restaurantId' ∧ tx.currency = currency then tx.amount else 0

/-- No balance changes; an account may be opened. -/
def SameBalances (db db' : Database) : Prop := ∀ restaurantId currency,
  Ledger.balanceIn (db' .restaurantBalances) restaurantId currency =
    Ledger.balanceIn (db .restaurantBalances) restaurantId currency

theorem PayoutRecorded.unique {db : Database} {restaurantId : ℕ} {idempotencyKey : String}
    {tx tx' : Transaction} (recorded : PayoutRecorded db restaurantId idempotencyKey tx)
    (recorded' : PayoutRecorded db restaurantId idempotencyKey tx') : tx = tx' := by
  have entry : ∀ row : Transaction,
      row.idempotencyKey = some (.payout restaurantId idempotencyKey) →
      UniqueKey.idempotency (.payout restaurantId idempotencyKey) ∈ uniques row := by
    intro row keyed
    simp [uniques, keyed]
  exact Table.eq_of_unique recorded.member recorded'.member (entry tx recorded.keyed)
    (entry tx' recorded'.keyed)

/-! ## What settlements and payouts leave -/

structure Lasts (db db' : Database) : Prop where
  kinds : Table.Keeps Transaction.transactionType (db .transactions) (db' .transactions)
  payouts : ∀ tx ∈ (db .transactions).rows, tx.transactionType = .payout →
    tx ∈ (db' .transactions).rows
  grows : db.Grows db'

theorem Lasts.refl (db : Database) : Lasts db db := ⟨.refl _ _, fun _ member _ => member, .refl db⟩

theorem Lasts.trans {db db' db'' : Database} (first : Lasts db db')
    (second : Lasts db' db'') : Lasts db db'' :=
  ⟨first.kinds.trans second.kinds,
    fun tx member isPayout => second.payouts tx (first.payouts tx member isPayout) isPayout,
    first.grows.trans second.grows⟩

theorem PayoutRecorded.later {db db' : Database} {restaurantId : ℕ} {idempotencyKey : String}
    {tx : Transaction} (recorded : PayoutRecorded db restaurantId idempotencyKey tx)
    (lasts : Lasts db db') : PayoutRecorded db' restaurantId idempotencyKey tx :=
  ⟨lasts.payouts tx recorded.member recorded.isPayout, recorded.isPayout, recorded.keyed⟩

section PaidOut

variable {restaurantId : ℕ} {amount : ℤ} {currency idempotencyKey : String} {db db' : Database}

theorem lasts_of_paidOut (paidOut : PaidOut restaurantId amount currency idempotencyKey db db') :
    Lasts db db' := by
  cases paidOut with
  | again opened others grows =>
    have same := others .transactions (by decide)
    exact ⟨by rw [same]; exact .refl _ _, fun tx member _ => by rwa [same], grows⟩
  | paid locked id now covered posted free transactions others grows =>
    refine ⟨by rw [transactions]; exact .insert _ _ _, fun tx member _ => ?_, grows⟩
    rw [transactions]
    exact Table.mem_insert_of_mem member

theorem wellKeyed_of_paidOut (wellKeyed : WellKeyed db)
    (paidOut : PaidOut restaurantId amount currency idempotencyKey db db') : WellKeyed db' := by
  intro tx member r k keyed
  cases paidOut with
  | again opened others grows =>
    rw [others .transactions (by decide)] at member
    exact wellKeyed tx member r k keyed
  | paid locked id now covered posted free transactions others grows =>
    rw [transactions] at member
    rcases Table.mem_insert member with old | rfl
    · exact wellKeyed tx old r k keyed
    · rfl

/-- A payout that was not there before has been paid from its account. -/
theorem recorded_or_deducted (paidOut : PaidOut restaurantId amount currency idempotencyKey db db')
    {r : ℕ} {k : String} {tx : Transaction} (recorded : PayoutRecorded db' r k tx) :
    PayoutRecorded db r k tx ∨ Deducted r tx db db' := by
  obtain ⟨member, isPayout, keyed⟩ := recorded
  cases paidOut with
  | again opened others grows =>
    rw [others .transactions (by decide)] at member
    exact .inl ⟨member, isPayout, keyed⟩
  | paid locked id now covered posted free transactions others grows =>
    rw [transactions] at member
    rcases Table.mem_insert member with old | rfl
    · exact .inl ⟨old, isPayout, keyed⟩
    · simp only [payoutInput, CreateTransactionInput.row, Option.some.injEq,
        IdempotencyKey.payout.injEq] at keyed
      obtain ⟨rfl, rfl⟩ := keyed
      refine .inr fun r' c' => ?_
      rw [Ledger.balanceIn_posted posted]
      simp only [payoutInput, CreateTransactionInput.row]
      by_cases own : restaurantId = r' ∧ currency = c'
      · simp only [own, and_self, if_true]
        ring
      · simp only [own, if_false]
        ring

/-- A payout whose key was taken changes no balance. -/
theorem sameBalances_of_recorded
    (paidOut : PaidOut restaurantId amount currency idempotencyKey db db') {tx : Transaction}
    (recorded : PayoutRecorded db restaurantId idempotencyKey tx) :
    SameBalances db db' ∧ db' .transactions = db .transactions := by
  cases paidOut with
  | again opened others grows =>
    exact ⟨Ledger.balanceIn_opened opened, others .transactions (by decide)⟩
  | paid locked id now covered posted free transactions others grows =>
    -- The unique key refuses the second transaction.
    have apart := Table.apart_of_not_clashes (Table.conflicts_eq_false.1 free tx recorded.member)
    have entry : UniqueKey.idempotency (.payout restaurantId idempotencyKey) ∈ uniques tx := by
      simp [uniques, recorded.keyed]
    exact absurd (by simp [uniques, payoutInput, CreateTransactionInput.row]) (apart.2 entry)

end PaidOut

section Settled

variable {V : Database → Prop} {order : Order} {charges charges' : Table Transaction}

/-- The collected cash is no payout. -/
theorem cash_ne_payout (cash : CashCollected V order charges charges')
    (since : ∀ before, V before →
      Table.Keeps Transaction.transactionType (before .transactions) charges) :
    charges' = charges ∨ ∃ id updatedAt,
      charges' = charges.modify (RowKey.id id) (Transaction.withStatus .succeeded updatedAt) ∧
      ∀ tx ∈ charges.rows, tx.transactionType = .payout → key tx ≠ RowKey.id id := by
  cases cash with
  | online _ same => exact .inl same
  | nothing _ _ _ same => exact .inl same
  | vanished _ _ _ _ _ _ _ _ same => exact .inl same
  | collects before row updatedAt isSince member pending changed =>
    refine .inr ⟨row.id, updatedAt, changed, fun tx among isPayout isRow => ?_⟩
    simp only [isPendingCash, decide_eq_true_eq] at pending
    obtain ⟨row', found, sameType⟩ := since before isSince _ row (Table.get_of_mem member)
    have isSame : tx = row' := by
      have isTx := Table.get_of_mem among
      rw [isRow] at isTx
      exact Option.some.inj (isTx.symm.trans found)
    rw [← isSame, isPayout, pending.2.1] at sameType
    cases sameType

/-- The settlement's changes of the transactions, seen from a payout. -/
theorem payouts_of_cash (cash : CashCollected V order charges charges')
    (since : ∀ before, V before →
      Table.Keeps Transaction.transactionType (before .transactions) charges) {tx : Transaction}
    (isPayout : tx.transactionType = .payout) : tx ∈ charges'.rows ↔ tx ∈ charges.rows := by
  rcases cash_ne_payout cash since with rfl | ⟨id, updatedAt, rfl, others⟩
  · rfl
  rw [Table.mem_modify]
  constructor
  · rintro ⟨old, member, rfl⟩
    have sameType : (Table.rewrite (RowKey.id id) (Transaction.withStatus .succeeded updatedAt)
        old).transactionType =
        old.transactionType :=
      Table.rewrite_congr (g := Transaction.transactionType)
        (f := Transaction.withStatus .succeeded updatedAt) (fun _ => rfl) old
    rwa [Table.rewrite_of_ne (others old member (sameType ▸ isPayout))]
  · exact fun member => ⟨tx, member, Table.rewrite_of_ne (others tx member isPayout)⟩

theorem kinds_of_collected (collected : Collected charges charges') :
    Table.Keeps Transaction.transactionType charges charges' := by
  rcases collected with rfl | ⟨id, updatedAt, rfl⟩
  · exact .refl _ _
  · exact .modify (g := Transaction.withStatus .succeeded updatedAt) (fun _ => rfl) _ _

variable {branch : CoreBranch} {delivery : Delivery} {commission agentEarning : ℤ}
  {db db' : Database}

/-- A settlement neither adds a payout nor changes one. -/
theorem payouts_of_settled
    (settled : Settled order branch delivery commission agentEarning V db db')
    (since : ∀ before, V before → Lasts before db) {tx : Transaction}
    (isPayout : tx.transactionType = .payout) :
    tx ∈ (db' .transactions).rows ↔ tx ∈ (db .transactions).rows := by
  obtain ⟨charges, id, now, cash, free, transactions⟩ := settled.transactions
  rw [transactions,
    ← payouts_of_cash cash (fun before isSince => (since before isSince).kinds) isPayout]
  constructor
  · intro member
    rcases Table.mem_insert member with old | rfl
    · exact old
    · cases isPayout
  · exact Table.mem_insert_of_mem

theorem lasts_of_settled (settled : Settled order branch delivery commission agentEarning V db db')
    (since : ∀ before, V before → Lasts before db) : Lasts db db' := by
  refine ⟨?_, fun tx member isPayout => (payouts_of_settled settled since isPayout).2 member,
    settled.grows⟩
  obtain ⟨charges, id, now, cash, free, transactions⟩ := settled.transactions
  rw [transactions]
  exact (kinds_of_collected cash.collected).trans (.insert _ _ _)

theorem wellKeyed_of_settled (wellKeyed : WellKeyed db)
    (settled : Settled order branch delivery commission agentEarning V db db') : WellKeyed db' := by
  obtain ⟨charges, id, now, cash, free, transactions⟩ := settled.transactions
  intro tx member r k keyed
  rw [transactions] at member
  rcases Table.mem_insert member with old | rfl
  · obtain ⟨tx', member', isType, _, isKey⟩ := Ledger.mem_collected cash.collected old
    exact isType ▸ wellKeyed tx' member' r k (isKey.trans keyed)
  · cases keyed

end Settled

/-! ## The calls -/

/-- Settlements and payouts. -/
def SettlesOrPays : Operation → Prop
  | .updateDeliveryStatus _ _ _ targetStatus => targetStatus = .delivered
  | .recordPayout .. => True
  | _ => False

/-- What one event of a call may do. -/
def Changes (db db' : Database) : Operation → Prop
  | .recordPayout restaurantId amount currency idempotencyKey =>
    db' = db ∨ PaidOut restaurantId amount currency idempotencyKey db db'
  | _ =>
    ∀ tx ∈ (db' .transactions).rows, tx.transactionType = .payout → tx ∈ (db .transactions).rows

theorem Changes.refl (db : Database) (op : Operation) : Changes db db op := by
  cases op with
  | recordPayout => exact .inl rfl
  | _ => exact fun _ member _ => member

/-- A payout that has returned shows what is recorded. -/
def Shown (db : Database) (op : Operation) (result : Except Err Reply) : Prop :=
  ∀ restaurantId amount currency idempotencyKey reply,
    op = .recordPayout restaurantId amount currency idempotencyKey →
    result = .ok reply →
    ∃ tx, reply = .transaction tx ∧ PayoutRecorded db restaurantId idempotencyKey tx

def protocol : Protocol (K := RowKey) RowOf Shared Err Operation Reply Unit where
  inv s := WellKeyed s.db
  guar _ op w w' := Lasts w.db w'.db ∧ Changes w.db w'.db op
  rely _ _ w w' := Lasts w.db w'.db
  post _ op result w := Shown w.db op result
  allow _ _ _ := True
  faulty _ := True
  admits := SettlesOrPays
  apart _ _ _ := True

theorem lawful : protocol.Lawful where
  guar_refl _ op w := ⟨.refl w.db, .refl w.db op⟩
  rely_refl _ _ w := .refl w.db
  rely_trans first second := first.trans second
  rely_of_guar _ _ _ _ guar := guar.1
  post_stable _ _ guar shown r a c k reply isOp isReply := by
    obtain ⟨tx, isTx, recorded⟩ := shown r a c k reply isOp isReply
    exact ⟨tx, isTx, recorded.later guar.1⟩
  inv_spawn holds _ _ := holds
  inv_crash _ _ holds := ⟨holds, fun _ _ _ _ _ _ isReply => nomatch isReply⟩

theorem free (i : ℕ) (op : Operation) : protocol.Free i op Later :=
  fun s _ _ holds => ⟨holds, lawful.guar_refl i op s.toWorld, .refl s.db⟩

theorem persists (i : ℕ) (op : Operation) : Persists protocol i op :=
  fun _ _ t k rely there => rely.grows.rows t k there

section Calls

variable {i : ℕ} {s : Sit RowOf Shared Operation Unit}

theorem recorded_of_receipt {op : Operation} {restaurantId : ℕ} {idempotencyKey : String}
    {result : Transaction} {s' : Sit RowOf Shared Operation Unit} {db' : Database}
    (lasts : Lasts s'.db db') (wellKeyed : WellKeyed db')
    (receipt : Receipt (protocol.Between i op s s') restaurantId idempotencyKey result db') :
    PayoutRecorded db' restaurantId idempotencyKey result := by
  have member : result ∈ (db' .transactions).rows := by
    rcases receipt.known with there | ⟨before, ⟨m, rfl, first, second⟩, found⟩
    · exact there
    · have isPayout := first.inv result found _ _ receipt.keyed
      exact lasts.payouts result (second.drift.1.payouts result found isPayout) isPayout
  exact ⟨member, wellKeyed result member _ _ receipt.keyed, receipt.keyed⟩

theorem wp_payout {restaurantId : ℕ} {amount : ℤ} {currency idempotencyKey : String} :
    protocol.wp i (.recordPayout restaurantId amount currency idempotencyKey)
      (FinanceService.recordPayout restaurantId amount currency idempotencyKey)
      (fun result _ s' => WellKeyed s'.db ∧ ∀ tx, result = .ok tx →
        PayoutRecorded s'.db restaurantId idempotencyKey tx) .start s := by
  refine wp_recordPayout lawful (free i _) (fun result s' seen' db' env _ paidOut receipt => ?_) ?_
  · have lasts := lasts_of_paidOut paidOut
    have wellKeyed := wellKeyed_of_paidOut env.inv paidOut
    have recorded := recorded_of_receipt lasts wellKeyed receipt
    refine ⟨(), wellKeyed, ⟨lasts, .inr paidOut⟩, fun s'' env' => ⟨env'.inv, fun tx isTx => ?_⟩⟩
    cases isTx
    exact recorded.later env'.drift.1
  · exact fun _ _ s' env => ⟨env.inv, fun tx isTx => nomatch isTx⟩

theorem wp_deliver {env : Config} {core core' : Core} {deliveryId actorUserId : ℕ} {op : Operation}
    (settles : op = .updateDeliveryStatus core' deliveryId actorUserId .delivered)
    (holds : WellKeyed s.db) :
    protocol.wp i op (DeliveryService.updateStatus env core deliveryId actorUserId .delivered)
      (fun _ _ s' => WellKeyed s'.db) .start s := by
  refine wp_do (wp_selectByKey lawful (fun isTrx => nomatch isTrx) holds ?_ ?_
    fun _ s' env => env.inv)
  swap
  · exact fun _ s' env => env.inv
  intro _ delivery read s₁ env₁
  refine wp_do (wp_throwIf (fun _ => wp_do (wp_throwIf (fun _ => ?_) fun _ => env₁.inv))
    fun _ => env₁.inv)
  have isDelivery : RowKey.id delivery.id = RowKey.id deliveryId := Table.get_key read
  have there : (deliveryOf s₁.db delivery.id).isSome = true := by
    rw [deliveryOf, isDelivery]
    exact persists i op s s₁ _ _ env₁.drift.1 (Option.isSome_iff_exists.2 ⟨delivery, read⟩)
  refine wp_settleDelivery lawful (free i op) (persists i op) env₁.inv there ?_
    fun _ _ s' env => env.inv
  intro result order branch row s₂ seen' db' env₂ _ settling
  have since : ∀ before, protocol.Between i op s₁ s₂ before → Lasts before s₂.db := by
    rintro before ⟨m, rfl, _, second⟩
    exact second.drift.1
  refine ⟨(), wellKeyed_of_settled env₂.inv settling.settled,
    ⟨lasts_of_settled settling.settled since, ?_⟩, fun s' env => env.inv⟩
  rw [settles]
  exact fun tx member isPayout => (payouts_of_settled settling.settled since isPayout).1 member

end Calls

theorem verified (env : Config) : protocol.Verified (code env) := by
  intro i op s s' holds _ admitted _ started
  cases op with
  | updateDeliveryStatus core deliveryId actorUserId targetStatus =>
    obtain rfl := admitted
    refine wp_map (wp_mono ?_ (wp_deliver rfl started.inv))
    exact fun _ _ _ wellKeyed => ⟨wellKeyed, fun _ _ _ _ _ isOp => nomatch isOp⟩
  | recordPayout restaurantId amount currency idempotencyKey =>
    refine wp_map (wp_mono ?_ wp_payout)
    rintro result l s₁ ⟨wellKeyed, recorded⟩
    refine ⟨wellKeyed, fun r a c k reply isOp isReply => ?_⟩
    cases isOp
    cases result with
    | ok tx => cases isReply; exact ⟨tx, rfl, recorded tx rfl⟩
    | error err => cases isReply
  | _ => exact admitted.elim

theorem decisive (env : Config) (op : Operation)
    (pays : ∃ restaurantId amount currency idempotencyKey,
      op = .recordPayout restaurantId amount currency idempotencyKey) :
    (code env op).Decisive fun _ => False := by
  obtain ⟨restaurantId, amount, currency, idempotencyKey, rfl⟩ := pays
  have quiet : (FinanceService.payOut restaurantId amount currency idempotencyKey).Quiet anything :=
    quiet_payOut restaurantId amount currency idempotencyKey fun _ _ => trivial
  exact .map (.transaction quiet)

/-! ## Runs -/

/-- Settlements and payouts, with any faults and crashes. -/
def Payments (_ : Region) (e : Event Operation) : Prop := Serves SettlesOrPays e

theorem admissible (p : Region) (e : Event Operation) (allowed : Payments p e) :
    protocol.Admissible p e := by
  cases e with
  | spawn op => exact ⟨allowed, fun _ _ _ => ⟨trivial, trivial⟩⟩
  | step i choice =>
    exact ⟨fun _ _ _ _ _ _ _ => trivial,
      fun call found => ⟨fun _ => trivial, fun out acts => trivial⟩⟩
  | crash i => exact fun _ _ => trivial

/-- A call of `recordPayout` for a restaurant under a key. -/
def Pays (restaurantId : ℕ) (idempotencyKey : String) (op : Operation) : Prop :=
  ∃ amount currency, op = .recordPayout restaurantId amount currency idempotencyKey

/-- One event of any call, seen from the payouts under a key. -/
theorem recorded_of_conforms {p p' : Region} {e : Event Operation}
    (conforms : protocol.Conforms p e p') {restaurantId : ℕ} {idempotencyKey : String}
    {tx : Transaction} :
    (PayoutRecorded p.db restaurantId idempotencyKey tx →
      PayoutRecorded p'.db restaurantId idempotencyKey tx) ∧
      (PayoutRecorded p'.db restaurantId idempotencyKey tx →
        PayoutRecorded p.db restaurantId idempotencyKey tx ∨
        Deducted restaurantId tx p.db p'.db) := by
  cases e with
  | spawn op => rw [conforms.1]; exact ⟨id, .inl⟩
  | crash i => rw [conforms.1]; exact ⟨id, .inl⟩
  | step i choice =>
    obtain ⟨call, ghost, ghost', found, _, lasts, changes⟩ := conforms
    refine ⟨fun recorded => recorded.later lasts, fun recorded => ?_⟩
    cases isOp : call.op with
    | recordPayout r amount currency k =>
      rw [isOp] at changes
      rcases changes with same | paidOut
      · exact .inl ((show p'.db = p.db from same) ▸ recorded)
      · exact recorded_or_deducted paidOut recorded
    | _ =>
      rw [isOp] at changes
      exact .inl ⟨changes tx recorded.member recorded.isPayout, recorded.isPayout, recorded.keyed⟩

/-- Once the payout is there, another call with its key changes no balance. -/
theorem same_of_recorded {p p' : Region} {i : ℕ} {choice : Choice}
    {call : Call RowOf Shared Err Operation Reply} {restaurantId : ℕ} {idempotencyKey : String}
    {tx : Transaction} (conforms : protocol.Conforms p (.step i choice) p')
    (found : p.calls[i]? = some call) (pays : Pays restaurantId idempotencyKey call.op)
    (recorded : PayoutRecorded p.db restaurantId idempotencyKey tx) :
    SameBalances p.db p'.db ∧ p'.db .transactions = p.db .transactions := by
  obtain ⟨amount, currency, isOp⟩ := pays
  obtain ⟨call', _, _, found', _, _, changes⟩ := conforms
  obtain rfl : call = call' := Option.some.inj (found.symm.trans found')
  rw [isOp] at changes
  rcases changes with same | paidOut
  · rw [show p'.db = p.db from same]
    exact ⟨fun _ _ => rfl, rfl⟩
  · exact sameBalances_of_recorded paidOut recorded

/-- A payout that throws has left the committed state alone in each of its events. -/
theorem same_of_thrown {env : Config} {p p' p'' : Region} {i : ℕ} {choice : Choice}
    {call after : Call RowOf Shared Err Operation Reply} {restaurantId : ℕ}
    {idempotencyKey : String} {err : Err}
    (deciding : p.Deciding (fun _ => False) fun op => ∃ r a c k, op = .recordPayout r a c k)
    (moves : p.next (code env) (.step i choice) = some p') (found : p.calls[i]? = some call)
    (pays : Pays restaurantId idempotencyKey call.op)
    (later : Pool.Reach (code env) Payments p' p'') (isAfter : p''.calls[i]? = some after)
    (thrown : after.prog = .done (.error err)) : p'.db = p.db := by
  obtain ⟨amount, currency, isOp⟩ := pays
  obtain ⟨before, next, isBefore, isNext, _, event⟩ := Pool.deciding_step deciding moves
  obtain rfl : before = call := Option.some.inj (isBefore.symm.trans found)
  rcases event ⟨_, _, _, _, isOp⟩ with ⟨ws, none, same⟩ | ⟨⟨reply, returned⟩, _⟩
  · cases ws with
    | nil => exact same
    | cons w ws => exact (none w List.mem_cons_self).elim
  · -- A call that has returned does not throw later.
    have stays := Pool.done_of_reach later isNext returned
    obtain rfl : next = after := Option.some.inj (stays.symm.trans isAfter)
    rw [returned] at thrown
    cases thrown

theorem payouts_are_exactly_once (env : Config) (db : Database) (x : Shared)
    (wellKeyed : WellKeyed db) (p : Region)
    (reached : Pool.Reach (code env) Payments (Pool.quiet db x) p) (restaurantId : ℕ)
    (idempotencyKey : String) :
    (∀ tx tx', PayoutRecorded p.db restaurantId idempotencyKey tx →
      PayoutRecorded p.db restaurantId idempotencyKey tx' → tx = tx') ∧
    (∀ call ∈ p.calls, Pays restaurantId idempotencyKey call.op →
      ∀ reply, call.prog = .done (.ok reply) →
      ∃ tx, reply = .transaction tx ∧ PayoutRecorded p.db restaurantId idempotencyKey tx) ∧
    ∀ e p', Payments p e → p.next (code env) e = some p' →
      (∀ tx, (PayoutRecorded p.db restaurantId idempotencyKey tx →
        PayoutRecorded p'.db restaurantId idempotencyKey tx) ∧
        (PayoutRecorded p'.db restaurantId idempotencyKey tx →
          PayoutRecorded p.db restaurantId idempotencyKey tx ∨
          Deducted restaurantId tx p.db p'.db)) ∧
      ∀ i choice call, e = .step i choice → p.calls[i]? = some call →
      Pays restaurantId idempotencyKey call.op →
        (∀ tx, PayoutRecorded p.db restaurantId idempotencyKey tx →
          SameBalances p.db p'.db ∧ p'.db .transactions = p.db .transactions) ∧
        ∀ p'' after err, Pool.Reach (code env) Payments p' p'' → p''.calls[i]? = some after →
          after.prog = .done (.error err) → p'.db = p.db := by
  obtain ⟨ghost, sound⟩ :=
    sound_of_reach lawful (verified env) admissible (sound_quiet () wellKeyed) reached
  refine ⟨fun _ _ => PayoutRecorded.unique, fun call member pays reply returned => ?_,
    fun e p' permitted moves => ?_⟩
  · obtain ⟨i, found⟩ := List.getElem?_of_mem member
    obtain ⟨amount, currency, isOp⟩ := pays
    exact (sound.fine i call found).2 _ returned restaurantId amount currency idempotencyKey
      reply isOp rfl
  · obtain ⟨_, conforms⟩ := sound_next lawful (verified env) sound (admissible p e permitted) moves
    refine ⟨fun tx => recorded_of_conforms conforms, fun i choice call isStep found pays => ?_⟩
    subst isStep
    refine ⟨fun tx => same_of_recorded conforms found pays,
      fun p'' after err later isAfter thrown => ?_⟩
    exact same_of_thrown (Pool.deciding_of_reach (decisive env) reached) moves found pays later
      isAfter thrown

/-- An account that holds money. -/
def sampleDb : Database :=
  Database.empty.apply (.insert TableName.restaurantBalances ⟨5, "EGP", 900, 0⟩ : SqlWrite)

/-- Two calls with one key. -/
def sampleSchedule : List (Event Operation) :=
  [.spawn (.recordPayout 5 300 "EGP" "may"), .spawn (.recordPayout 5 300 "EGP" "may")] ++
    List.replicate 3 (Sample.act 0) ++ [Sample.act 1] ++ List.replicate 6 (Sample.act 0) ++
      List.replicate 4 (Sample.act 1)

instance : DecidablePred SettlesOrPays
  | .updateDeliveryStatus _ _ _ targetStatus =>
    inferInstanceAs (Decidable (targetStatus = .delivered))
  | .recordPayout .. => inferInstanceAs (Decidable True)
  | .placeOrder .. | .updateOrderStatus .. | .initPayment .. | .refund .. | .webhook .. | .assign ..
  | .tryAutoAssign ..
  | .reassign .. | .online .. | .offline .. | .ping .. | .sleep .. =>
    inferInstanceAs (Decidable False)

instance (restaurantId : ℕ) (idempotencyKey : String) :
    DecidablePred (Pays restaurantId idempotencyKey)
  | .recordPayout restaurantId' amount currency idempotencyKey' =>
    decidable_of_iff (restaurantId' = restaurantId ∧ idempotencyKey' = idempotencyKey)
      ⟨fun ⟨sameRestaurant, sameKey⟩ => ⟨amount, currency, by rw [sameRestaurant, sameKey]⟩,
        fun ⟨_, _, isOp⟩ => by cases isOp; exact ⟨rfl, rfl⟩⟩
  | .placeOrder .. | .updateOrderStatus .. | .initPayment .. | .refund .. | .webhook .. | .assign ..
  | .tryAutoAssign ..
  | .reassign .. | .updateDeliveryStatus .. | .online .. | .offline .. | .ping .. | .sleep .. =>
    .isFalse fun ⟨_, _, isOp⟩ => nomatch isOp

/-- The call has returned. -/
def returned (call : Call (K := RowKey) RowOf Shared Err Operation Reply) : Bool :=
  match call.prog with
  | .done (.ok _) => true
  | _ => false

theorem payout_of_two_calls :
    ∃ p tx, Pool.Reach (code Sample.env) Payments (Pool.quiet sampleDb Sample.shared) p ∧
    p.calls.length = 2 ∧ (∀ call ∈ p.calls, call.prog = .done (.ok (.transaction tx))) ∧
    PayoutRecorded p.db 5 "may" tx ∧
    Ledger.balanceIn (p.db .restaurantBalances) 5 "EGP" = 600 := by
  have played :
      (Pool.play (code Sample.env) (fun _ e => decide (Serves SettlesOrPays e)) sampleSchedule
        (Pool.quiet sampleDb Sample.shared)).map (fun p =>
          (p.calls.length, p.calls.all fun call => decide (Pays 5 "may" call.op) && returned call,
            Ledger.balanceIn (p.db .restaurantBalances) 5 "EGP")) =
      some (2, true, 600) := by decide +kernel
  obtain ⟨p, isRun, outcome⟩ := Option.map_eq_some_iff.1 played
  simp only [Prod.mk.injEq, List.all_eq_true, Bool.and_eq_true, decide_eq_true_eq] at outcome
  obtain ⟨two, ended, balance⟩ := outcome
  have reached : Pool.Reach (code Sample.env) Payments (Pool.quiet sampleDb Sample.shared) p :=
    Pool.reach_of_play
      (fun _ _ checked => show Serves SettlesOrPays _ from of_decide_eq_true checked) isRun
  have wellKeyed : WellKeyed sampleDb := fun tx member => nomatch (show tx ∈ [] from member)
  obtain ⟨unique, answers, _⟩ :=
    payouts_are_exactly_once Sample.env sampleDb Sample.shared wellKeyed p reached 5 "may"
  have settled : ∀ call ∈ p.calls, ∃ tx, call.prog = .done (.ok (.transaction tx)) ∧
      PayoutRecorded p.db 5 "may" tx := by
    intro call member
    obtain ⟨pays, isReturned⟩ := ended call member
    unfold returned at isReturned
    split at isReturned
    next reply isDone =>
      obtain ⟨tx, rfl, recorded⟩ := answers call member pays reply isDone
      exact ⟨tx, isDone, recorded⟩
    next => cases isReturned
  obtain ⟨first, isFirst⟩ := List.exists_mem_of_length_pos (by omega : 0 < p.calls.length)
  obtain ⟨tx, _, recorded⟩ := settled first isFirst
  refine ⟨p, tx, reached, two, fun call member => ?_, recorded, balance⟩
  obtain ⟨tx', isDone, recorded'⟩ := settled call member
  rw [isDone, unique tx tx' recorded recorded']

end SwiftBite.Verified.Payouts
