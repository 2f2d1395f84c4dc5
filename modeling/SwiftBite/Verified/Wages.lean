import SwiftBite.Verified.Chains
import SwiftBite.Verified.WriteCatalogue

/-! # What agents earn

A settlement leaves three records: the earning of the delivery, the agent's row in `agent_earnings`
and the commission in `transactions`.  They agree in every committed state, and none of them is
ever there without the others.
-/

set_option autoImplicit false

namespace SwiftBite.Verified.Wages

open Store Protocol Verified DeliveryService

/-! ## The records of a settlement -/

structure Matched (db : Database) : Prop where
  earned : ∀ earning : AgentEarning, earning ∈ (db .agentEarnings).rows →
    ∃ delivery, deliveryOf db earning.deliveryId = some delivery ∧
    delivery.orderId = earning.orderId ∧ delivery.agentId = earning.agentId ∧
    delivery.earningAmount = some earning.amount
  paid : ∀ id delivery amount, deliveryOf db id = some delivery →
    delivery.earningAmount = some amount →
    ∃ earning : AgentEarning, earning ∈ (db .agentEarnings).rows ∧ earning.deliveryId = id
  charged : ∀ earning : AgentEarning, earning ∈ (db .agentEarnings).rows →
    ∃ tx : Transaction, tx ∈ (db .transactions).rows ∧
    tx.idempotencyKey = some (.commission earning.deliveryId) ∧ tx.orderId = some earning.orderId ∧
    tx.transactionType = .commission
  booked : ∀ (tx : Transaction) deliveryId, tx ∈ (db .transactions).rows →
    tx.idempotencyKey = some (.commission deliveryId) →
    ∃ earning : AgentEarning, earning ∈ (db .agentEarnings).rows ∧ earning.deliveryId = deliveryId

/-- Rows stay, and deliveries stay with their orders and agents. -/
def link (delivery : Delivery) : ℕ × ℕ := (delivery.orderId, delivery.agentId)

structure Moves (db db' : Database) : Prop where
  grows : db.Grows db'
  deliveries : Table.Keeps link (db .deliveries) (db' .deliveries)

theorem Moves.refl (db : Database) : Moves db db := ⟨.refl db, .refl _ _⟩

theorem Moves.trans {db db' db'' : Database} (first : Moves db db')
    (second : Moves db' db'') : Moves db db'' :=
  ⟨first.grows.trans second.grows, first.deliveries.trans second.deliveries⟩

def wage (delivery : Delivery) : (ℕ × ℕ) × Option ℤ := (link delivery, delivery.earningAmount)

def booking (tx : Transaction) : Option IdempotencyKey × Option ℕ × TransactionType :=
  (tx.idempotencyKey, tx.orderId, tx.transactionType)

theorem keeps_of_wage {table table' : Table Delivery} (keeps : Table.Keeps wage table table') :
    Table.Keeps link table table' := by
  intro k row found
  obtain ⟨row', found', same⟩ := keeps k row found
  exact ⟨row', found', congrArg Prod.fst same⟩

section

variable {db db' : Database}

/-- Deliveries come without an earning, and other transactions are no commissions. -/
theorem kept_of_adds (matched : Matched db) (earnings : db' .agentEarnings = db .agentEarnings)
    (deliveries : Table.Adds wage (fun w => w.2 = none) (db .deliveries) (db' .deliveries))
    (transactions : Table.Adds booking (fun b => ∀ deliveryId, b.1 ≠ some (.commission deliveryId))
      (db .transactions) (db' .transactions)) : Matched db' where
  earned := by
    intro earning member
    rw [earnings] at member
    obtain ⟨delivery, found, ofOrder, ofAgent, amount⟩ := matched.earned earning member
    obtain ⟨delivery', found', same⟩ := deliveries.keeps _ _ found
    simp only [wage, link, Prod.mk.injEq] at same
    exact ⟨delivery', found', same.1.1.trans ofOrder, same.1.2.trans ofAgent, same.2.trans amount⟩
  paid := by
    intro id delivery' amount found' isAmount
    rw [earnings]
    rcases deliveries.origin _ _ found' with ⟨delivery, found, same⟩ | new
    · simp only [wage, Prod.mk.injEq] at same
      exact matched.paid id delivery amount found (same.2.trans isAmount)
    · exact absurd (isAmount.symm.trans new) (by simp)
  charged := by
    intro earning member
    rw [earnings] at member
    obtain ⟨tx, found, isKey, ofOrder, isCommission⟩ := matched.charged earning member
    obtain ⟨tx', found', same⟩ := transactions.keeps _ _ (Table.get_of_mem found)
    simp only [booking, Prod.mk.injEq] at same
    exact ⟨tx', Table.get_mem found', same.1.trans isKey, same.2.1.trans ofOrder,
      same.2.2.trans isCommission⟩
  booked := by
    intro tx' deliveryId member' isKey
    rw [earnings]
    rcases transactions.origin _ _ (Table.get_of_mem member') with ⟨tx, found, same⟩ | new
    · simp only [booking, Prod.mk.injEq] at same
      exact matched.booked tx deliveryId (Table.get_mem found) (same.1.trans isKey)
    · exact absurd isKey (new deliveryId)

/-! ## Other writes -/

theorem adds_refl {α ρ : Type} [Keyed ρ RowKey UniqueKey] (f : ρ → α) (new : α → Prop)
    {table table' : Table ρ} (same : table' = table) : Table.Adds f new table table' :=
  same ▸ .refl f new table

theorem kept_of_aside {w : SqlWrite} {t : TableName} (inTable : w.table = t)
    (aside : t ∉ [TableName.deliveries, .agentEarnings, .transactions]) (matched : Matched db) :
    Matched (db.apply w) ∧ Table.Keeps link (db .deliveries) (db.apply w .deliveries) := by
  have others : ∀ t' ∈ [TableName.deliveries, .agentEarnings, .transactions],
      db.apply w t' = db t' := by
    intro t' among
    refine Db.apply_other db ?_
    rw [inTable]
    rintro rfl
    exact aside among
  have deliveries := others .deliveries (by simp)
  refine ⟨kept_of_adds matched (others _ (by simp)) (adds_refl _ _ deliveries)
    (adds_refl _ _ (others _ (by simp))), ?_⟩
  rw [deliveries]
  exact .refl _ _

theorem kept_of_deliveries {w : SqlWrite} (inTable : w.table = .deliveries) (matched : Matched db)
    (deliveries : Table.Adds wage (fun w => w.2 = none) (db .deliveries) (db.apply w .deliveries)) :
    Matched (db.apply w) ∧ Table.Keeps link (db .deliveries) (db.apply w .deliveries) := by
  have others : ∀ t, t ≠ .deliveries → db.apply w t = db t :=
    fun t other => Db.apply_other db (by rw [inTable]; exact other.symm)
  exact ⟨kept_of_adds matched (others _ (by decide)) deliveries
    (adds_refl _ _ (others _ (by decide))), keeps_of_wage deliveries.keeps⟩

theorem kept_of_transactions {w : SqlWrite} (inTable : w.table = .transactions)
    (matched : Matched db)
    (transactions : Table.Adds booking (fun b => ∀ deliveryId, b.1 ≠ some (.commission deliveryId))
      (db .transactions) (db.apply w .transactions)) :
    Matched (db.apply w) ∧ Table.Keeps link (db .deliveries) (db.apply w .deliveries) := by
  have others : ∀ t, t ≠ .transactions → db.apply w t = db t :=
    fun t other => Db.apply_other db (by rw [inTable]; exact other.symm)
  have deliveries := others .deliveries (by decide)
  refine ⟨kept_of_adds matched (others _ (by decide)) (adds_refl _ _ deliveries) transactions, ?_⟩
  rw [deliveries]
  exact .refl _ _

theorem kept_of_delivery_update {k : RowKey} {f : Delivery → Delivery}
    (kept : ∀ row, wage (f row) = wage row) (matched : Matched db) :
    Matched (db.apply (.update TableName.deliveries k f)) ∧
      Table.Keeps link (db .deliveries)
        (db.apply (.update TableName.deliveries k f) .deliveries) := by
  refine kept_of_deliveries rfl matched ?_
  rw [Db.apply_update_self]
  exact (Table.Same.modify kept _ _).adds _

theorem kept_of_transaction_update {k : RowKey} {f : Transaction → Transaction}
    (kept : ∀ row, booking (f row) = booking row) (matched : Matched db) :
    Matched (db.apply (.update TableName.transactions k f)) ∧
      Table.Keeps link (db .deliveries)
        (db.apply (.update TableName.transactions k f) .deliveries) := by
  refine kept_of_transactions rfl matched ?_
  rw [Db.apply_update_self]
  exact (Table.Same.modify kept _ _).adds _

theorem wage_withStatus (status : DeliveryStatus) (stamp : Option ℕ) (delivery : Delivery) :
    wage (Delivery.withStatus status stamp delivery) = wage delivery := by
  cases status <;> rfl

/-- What is written outside of settlements keeps the records as they are. -/
theorem kept_of_write {placed : CreateOrderInput → Prop} {w : SqlWrite}
    (listed : Catalogue placed False True w) (matched : Matched db) :
    Matched (db.apply w) ∧ Table.Keeps link (db .deliveries) (db.apply w .deliveries) := by
  cases listed with
  | lock t k => exact ⟨matched, .refl _ _⟩
  | delivery data id now =>
    refine kept_of_deliveries rfl matched ?_
    rw [Db.apply_insert_self]
    exact .insert _ rfl
  | deliveryStatus k status stamp =>
    exact kept_of_delivery_update (wage_withStatus status stamp) matched
  | deliveryCancelled => exact kept_of_delivery_update (fun _ => rfl) matched
  | transaction data id now permitted =>
    refine kept_of_transactions rfl matched ?_
    rw [Db.apply_insert_self]
    exact .insert _ permitted.keyed
  | transactionStatus => exact kept_of_transaction_update (fun _ => rfl) matched
  | transactionReference => exact kept_of_transaction_update (fun _ => rfl) matched
  | transactionRefunded => exact kept_of_transaction_update (fun _ => rfl) matched
  | agentEarning _ impossible => exact impossible.elim
  | deliveryEarning _ _ impossible => exact impossible.elim
  | orderCommission _ _ _ impossible => exact impossible.elim
  | order | orderStatus | orderAgent => exact kept_of_aside (t := .orders) rfl (by decide) matched
  | orderItem => exact kept_of_aside (t := .orderItems) rfl (by decide) matched
  | paymentSession | sessionStatus =>
    exact kept_of_aside (t := .paymentSessions) rfl (by decide) matched
  | webhookEvent | webhookProcessed =>
    exact kept_of_aside (t := .paymentWebhookEvents) rfl (by decide) matched
  | restaurantBalance | balance =>
    exact kept_of_aside (t := .restaurantBalances) rfl (by decide) matched
  | agentPresence | presencePut | presenceOffline | presenceMoved =>
    exact kept_of_aside (t := .agentPresence) rfl (by decide) matched
  | outboxEvent => exact kept_of_aside (t := .eventsOutbox) rfl (by decide) matched

theorem kept_of_writes {placed : CreateOrderInput → Prop} {ws : List SqlWrite}
    (listed : ∀ w ∈ ws, Catalogue placed False True w) (matched : Matched db) :
    Matched (db.applyAll ws) ∧ Moves db (db.applyAll ws) := by
  suffices both : Matched (db.applyAll ws) ∧
      Table.Keeps link (db .deliveries) (db.applyAll ws .deliveries) from
    ⟨both.1, Db.grows_applyAll db ws, both.2⟩
  induction ws generalizing db with
  | nil => exact ⟨matched, .refl _ _⟩
  | cons w ws inductionHypothesis =>
    obtain ⟨first, rest⟩ := List.forall_mem_cons.1 listed
    obtain ⟨matched₁, keeps₁⟩ := kept_of_write first matched
    obtain ⟨matched₂, keeps₂⟩ := inductionHypothesis rest matched₁
    exact ⟨matched₂, keeps₁.trans keeps₂⟩

/-! ## Settlements -/

/-- Nothing with the key of the commission was there. -/
theorem unbooked {order : Order} {branch : CoreBranch} {delivery : Delivery} {commission : ℤ}
    {id now : ℕ} {charges : Table Transaction}
    (free : charges.conflicts ((commissionInput order branch delivery commission).row id now) =
      false) {tx : Transaction} (member : tx ∈ charges.rows) :
    tx.idempotencyKey ≠ some (.commission delivery.id) := by
  intro isKey
  have apart := Table.apart_of_not_clashes (Table.conflicts_eq_false.1 free tx member)
  have listed : UniqueKey.idempotency (.commission delivery.id) ∈
      (uniques tx : List UniqueKey) := by
    show _ ∈ tx.idempotencyKey.toList.map UniqueKey.idempotency
    rw [isKey]
    exact List.mem_singleton.2 rfl
  exact apart.2 listed (List.mem_singleton.2 rfl)

theorem same_of_collected {charges charges' : Table Transaction}
    (collected : Collected charges charges') : Table.Same booking charges charges' := by
  rcases collected with rfl | ⟨id, updatedAt, rfl⟩
  · exact .refl _ _
  · exact Table.Same.modify (g := Transaction.withStatus .succeeded updatedAt)
      (fun _ => rfl) charges _

theorem kept_of_settled {order : Order} {branch : CoreBranch} {delivery row : Delivery}
    {commission agentEarning : ℤ} {V : Database → Prop} (matched : Matched db)
    (settled : Settled order branch delivery commission agentEarning V db db')
    (since : ∀ before, V before → before.Grows db) (found : deliveryOf db delivery.id = some row)
    (isLink : link row = link delivery) (isOrder : order.id = delivery.orderId) :
    Matched db' ∧ Moves db db' := by
  obtain ⟨charges, txId, txNow, cash, freeTx, transactions⟩ := settled.transactions
  obtain ⟨stamp, deliveries⟩ := settled.deliveries
  have sameCharges := same_of_collected cash.collected
  -- The delivery has no earning yet: there would be a commission.
  have first : ∀ earning : AgentEarning, earning ∈ (db .agentEarnings).rows →
      earning.deliveryId ≠ delivery.id := by
    intro earning member isDelivery
    obtain ⟨tx, isTx, isKey, _⟩ := matched.charged earning member
    obtain ⟨tx', isTx', same⟩ := sameCharges.keeps _ _ (Table.get_of_mem isTx)
    simp only [booking, Prod.mk.injEq] at same
    exact unbooked freeTx (Table.get_mem isTx') (same.1.trans (isDelivery ▸ isKey))
  obtain ⟨id, now, freeEarning, earnings⟩ : ∃ id now, (db .agentEarnings).conflicts
      ((earningInput order delivery agentEarning).row id now) = false ∧
      db' .agentEarnings =
        (db .agentEarnings).insert ((earningInput order delivery agentEarning).row id now) := by
    refine settled.earnings.resolve_left ?_
    rintro ⟨⟨before, isBefore, indexed⟩, _⟩
    obtain ⟨earning, member, isUnique⟩ := (since before isBefore).entries _ _ indexed
    exact first earning member (UniqueKey.earningDelivery.inj (List.mem_singleton.1 isUnique)).symm
  have isNew : (earningInput order delivery agentEarning).row id now ∈
      (db' .agentEarnings).rows := by
    rw [earnings]
    exact Table.mem_insert_self freeEarning
  have old : ∀ earning ∈ (db .agentEarnings).rows, earning ∈ (db' .agentEarnings).rows := by
    intro earning member
    rw [earnings]
    exact Table.mem_insert_of_mem member
  have others : ∀ id, id ≠ delivery.id → deliveryOf db' id = deliveryOf db id := by
    intro id other
    have otherKey : RowKey.id id ≠ RowKey.id delivery.id := fun same => other (RowKey.id.inj same)
    rw [deliveryOf, deliveries, Table.get_modify_of_ne otherKey, Table.get_modify_of_ne otherKey]
  have this : ∃ row', deliveryOf db' delivery.id = some row' ∧ link row' = link delivery ∧
      row'.earningAmount = some agentEarning := by
    refine ⟨Delivery.withEarning agentEarning
      (Delivery.withStatus .delivered stamp row), ?_, ?_, rfl⟩
    · rw [deliveryOf, deliveries]
      exact Table.get_modify_self (Table.get_modify_self found rfl rfl) rfl rfl
    · exact (congrArg Prod.fst (wage_withStatus .delivered stamp row)).trans isLink
  refine ⟨⟨?_, ?_, ?_, ?_⟩, settled.grows, ?_⟩
  · intro earning member
    rw [earnings] at member
    rcases Table.mem_insert member with before | rfl
    · obtain ⟨delivery', found', agrees⟩ := matched.earned earning before
      exact ⟨delivery', (others _ (first earning before)).trans found', agrees⟩
    · obtain ⟨row', found', isLink', amount⟩ := this
      simp only [link, Prod.mk.injEq] at isLink'
      exact ⟨row', found', isLink'.1.trans isOrder.symm, isLink'.2, amount⟩
  · intro id' delivery' amount found' isAmount
    by_cases same : id' = delivery.id
    · exact ⟨_, isNew, same.symm⟩
    · obtain ⟨earning, member, ofDelivery⟩ :=
        matched.paid id' delivery' amount ((others id' same).symm.trans found') isAmount
      exact ⟨earning, old earning member, ofDelivery⟩
  · intro earning member
    rw [earnings] at member
    rw [transactions]
    rcases Table.mem_insert member with before | rfl
    · obtain ⟨tx, isTx, agrees⟩ := matched.charged earning before
      obtain ⟨tx', isTx', same⟩ := sameCharges.keeps _ _ (Table.get_of_mem isTx)
      simp only [booking, Prod.mk.injEq] at same
      exact ⟨tx', Table.mem_insert_of_mem (Table.get_mem isTx'), same.1.trans agrees.1,
        same.2.1.trans agrees.2.1, same.2.2.trans agrees.2.2⟩
    · exact ⟨_, Table.mem_insert_self freeTx, rfl, rfl, rfl⟩
  · intro tx deliveryId member isKey
    rw [transactions] at member
    rcases Table.mem_insert member with before | rfl
    · have there := (sameCharges (key tx)).symm
      rw [Table.get_of_mem before] at there
      obtain ⟨tx', isTx', same⟩ := Option.map_eq_some_iff.1 there
      simp only [booking, Prod.mk.injEq] at same
      obtain ⟨earning, isEarning, ofDelivery⟩ :=
        matched.booked tx' deliveryId (Table.get_mem isTx') (same.1.trans isKey)
      exact ⟨earning, old earning isEarning, ofDelivery⟩
    · cases isKey
      exact ⟨_, isNew, rfl⟩
  · rw [deliveries]
    exact (keeps_of_wage (Table.Keeps.modify (wage_withStatus .delivered stamp) _ _)).trans
      (Table.Keeps.modify (g := Delivery.withEarning agentEarning) (fun _ => rfl) _ _)

end

/-! ## The calls -/

def protocol : Protocol (K := RowKey) RowOf Shared Err Operation Reply Unit where
  inv s := Matched s.db
  guar _ _ w w' := Moves w.db w'.db
  rely _ _ w w' := Moves w.db w'.db
  post _ _ _ _ := True
  allow _ _ _ := True
  faulty _ := True
  admits _ := True
  apart _ _ _ := True

section Calls

theorem lawful : protocol.Lawful where
  guar_refl _ _ w := .refl w.db
  rely_refl _ _ w := .refl w.db
  rely_trans first second := first.trans second
  rely_of_guar _ _ _ _ guar := guar
  post_stable _ _ _ _ := trivial
  inv_spawn holds _ _ := holds
  inv_crash _ _ holds := ⟨holds, trivial⟩

theorem free (i : ℕ) (op : Operation) : protocol.Free i op Later :=
  fun s _ _ holds => ⟨holds, .refl s.db, .refl s.db⟩

theorem persists (i : ℕ) (op : Operation) : Persists protocol i op :=
  fun _ _ _ _ rely there => rely.grows.rows _ _ there

theorem tolerates (i : ℕ) (op : Operation) :
    protocol.Tolerates i op (catalogued (fun _ => True) False True) := by
  intro s ws listed matched
  obtain ⟨matched', moves⟩ := kept_of_writes listed matched
  exact ⟨matched', moves, moves⟩

theorem wp_settling {env : Config} {core : Core} {i deliveryId actorUserId : ℕ} {op : Operation}
    {s : Sit RowOf Shared Operation Unit} (matched : Matched s.db) :
    protocol.wp i op (DeliveryService.updateStatus env core deliveryId actorUserId .delivered)
      (fun _ _ s' => Matched s'.db) .start s := by
  refine wp_agentRequest lawful (free i op) (persists i op) matched (fun _ env => env.inv) ?_ ?_
  · intro delivery order branch row s₀ s₁ db' _ _ read _ until₀ until₁ _ settling
    have isOrder : order.id = delivery.orderId := RowKey.id.inj (Table.get_key settling.read)
    obtain ⟨row', found', isLink⟩ := (until₀.drift.1.trans until₁.drift.1).deliveries _ _ read
    have isRow : row' = row := Option.some.inj (found'.symm.trans settling.found)
    have kept : Matched db' ∧ Moves s₁.db db' := by
      refine kept_of_settled until₁.inv settling.settled ?_ settling.found (isRow ▸ isLink) isOrder
      rintro before ⟨m, rfl, _, second⟩
      exact second.drift.1.grows
    exact ⟨(), kept.1, kept.2, fun s' env => env.inv⟩
  · intro delivery row stamp s₁ _ _ _ _ _ notDelivered
    exact absurd rfl notDelivered

end Calls

theorem verified (env : Config) : protocol.Verified (code env) := by
  intro i op s s' _ _ _ _ started
  refine wp_mono (fun _ _ s'' (matched : Matched s''.db) => ⟨matched, trivial⟩) ?_
  by_cases settles : WriteCatalogue.Settles op
  · cases op with
    | updateDeliveryStatus core deliveryId actorUserId target =>
      cases target with
      | delivered => exact wp_map (wp_settling started.inv)
      | _ => exact settles.elim
    | _ => exact settles.elim
  · -- All other requests keep to the writes that leave the records alone.
    refine wp_harmless lawful (free i op) (tolerates i op)
      (WriteCatalogue.harmless_run env op (WriteCatalogue.places_any op) settles fun _ => trivial)
      (fun w none => absurd none List.not_mem_nil) started.inv started.self
      fun _ _ _ matched _ _ => matched

theorem admissible (p : Region) (e : Event Operation) (_ : Chains.anything p e) :
    protocol.Admissible p e := by
  cases e with
  | spawn op => exact ⟨trivial, fun _ _ _ => ⟨trivial, trivial⟩⟩
  | step i choice =>
    exact ⟨fun _ _ _ _ _ _ _ => trivial,
      fun call found => ⟨fun _ => trivial, fun out acts => trivial⟩⟩
  | crash i => exact fun _ _ => trivial

theorem matched_of_run {env : Config} {x : Shared} {p : Region}
    (reached : Pool.Reach (code env) Chains.anything (Pool.quiet Database.empty x) p) :
    Matched p.db := by
  have empty : Matched Database.empty :=
    ⟨fun _ none => absurd none List.not_mem_nil, fun _ _ _ none => (by cases none),
      fun _ none => absurd none List.not_mem_nil,
      fun _ _ none => absurd none List.not_mem_nil⟩
  obtain ⟨_, sound⟩ :=
    sound_of_reach lawful (verified env) admissible (sound_quiet () empty) reached
  exact sound.inv

/-! ## All or none -/

/-- All three records of a settlement, and no second one of a kind. -/
structure SettlementRecorded (db : Database) (deliveryId : ℕ) (delivery : Delivery)
    (earning : AgentEarning) (tx : Transaction) : Prop where
  isDelivery : deliveryOf db deliveryId = some delivery
  isEarning : ∀ other : AgentEarning, other ∈ (db .agentEarnings).rows ∧
    other.deliveryId = deliveryId ↔ other = earning
  isCommission : ∀ other : Transaction, other ∈ (db .transactions).rows ∧
    other.idempotencyKey = some (.commission deliveryId) ↔ other = tx
  amount : delivery.earningAmount = some earning.amount
  agent : earning.agentId = delivery.agentId
  order : earning.orderId = delivery.orderId
  booked : tx.orderId = some delivery.orderId ∧ tx.transactionType = .commission

/-- None of them. -/
structure Unrecorded (db : Database) (deliveryId : ℕ) : Prop where
  delivery : ∀ delivery, deliveryOf db deliveryId = some delivery → delivery.earningAmount = none
  earning : ∀ earning : AgentEarning, earning ∈ (db .agentEarnings).rows →
    earning.deliveryId ≠ deliveryId
  commission : ∀ tx : Transaction, tx ∈ (db .transactions).rows →
    tx.idempotencyKey ≠ some (.commission deliveryId)

theorem recorded_of_earning {db : Database} (matched : Matched db) {earning : AgentEarning}
    (member : earning ∈ (db .agentEarnings).rows) :
    ∃ delivery tx, SettlementRecorded db earning.deliveryId delivery earning tx := by
  obtain ⟨delivery, found, ofOrder, ofAgent, amount⟩ := matched.earned earning member
  obtain ⟨tx, isTx, isKey, txOrder, isCommission⟩ := matched.charged earning member
  refine ⟨delivery, tx, found, fun other => ⟨?_, ?_⟩, fun other => ⟨?_, ?_⟩, amount, ofAgent.symm,
    ofOrder.symm, ofOrder ▸ txOrder, isCommission⟩
  · rintro ⟨isOther, same⟩
    exact Table.eq_of_unique isOther member
      (List.mem_singleton.2 (congrArg UniqueKey.earningDelivery same.symm))
      (List.mem_singleton.2 rfl)
  · rintro rfl
    exact ⟨member, rfl⟩
  · rintro ⟨isOther, same⟩
    have listed : ∀ tx : Transaction, tx.idempotencyKey = some (.commission earning.deliveryId) →
        UniqueKey.idempotency (.commission earning.deliveryId) ∈ (uniques tx : List UniqueKey) := by
      intro tx isKey
      show _ ∈ tx.idempotencyKey.toList.map UniqueKey.idempotency
      rw [isKey]
      exact List.mem_singleton.2 rfl
    exact Table.eq_of_unique isOther isTx (listed other same) (listed tx isKey)
  · rintro rfl
    exact ⟨isTx, isKey⟩

/-- In every state of all runs, whatever interleaves, fails or crashes, a delivery has either all
three records of its settlement, once and in agreement, or none of them. -/
theorem all_records_or_none {env : Config} {x : Shared} {p : Region}
    (reached : Pool.Reach (code env) Chains.anything (Pool.quiet Database.empty x) p)
    (deliveryId : ℕ) :
    (∃ delivery earning tx, SettlementRecorded p.db deliveryId delivery earning tx) ∨
    Unrecorded p.db deliveryId := by
  have matched := matched_of_run reached
  by_cases has : ∃ earning : AgentEarning, earning ∈ (p.db .agentEarnings).rows ∧
    earning.deliveryId = deliveryId
  · obtain ⟨earning, member, rfl⟩ := has
    obtain ⟨delivery, tx, recorded⟩ := recorded_of_earning matched member
    exact .inl ⟨delivery, earning, tx, recorded⟩
  · refine .inr ⟨fun delivery found => ?_, fun earning member same => has ⟨earning, member, same⟩,
      fun tx member isKey => ?_⟩
    · cases amount : delivery.earningAmount with
      | none => rfl
      | some amount => exact absurd (matched.paid deliveryId delivery _ found amount) has
    · exact has (matched.booked tx deliveryId member isKey)

/-! ## A delivered order -/

/-- An administrator's request. -/
def administers (publicId : ℕ) (target : OrderStatus) : Operation :=
  .updateOrderStatus Sample.core publicId target ⟨1, .systemAdmin, none, none, []⟩

/-- Call `i` from its start to its end. -/
def call (i : ℕ) (op : Operation) (actions : ℕ) : List (Event Operation) :=
  .spawn op :: List.replicate actions (Sample.act i)

/-- A cash order on its way from placement to delivery, in the calls from number `i` on. -/
def fulfilling (i publicId deliveryId : ℕ) : List (Event Operation) :=
  call i (.placeOrder Sample.core 7 ⟨6, 8, .cod, [⟨1, 2⟩]⟩) 13 ++
  call (i + 1) (administers publicId .accepted) 9 ++
  call (i + 2) (administers publicId .preparing) 8 ++
  call (i + 3) (administers publicId .ready) 9 ++
  call (i + 4) (.assign Sample.core publicId (some 2)) 11 ++
  call (i + 5) (.updateDeliveryStatus Sample.core deliveryId 2 .accepted) 4 ++
  call (i + 6) (.updateDeliveryStatus Sample.core deliveryId 2 .picked) 7 ++
  call (i + 7) (.updateDeliveryStatus Sample.core deliveryId 2 .delivered) 32

def delivering : List (Event Operation) := fulfilling 0 500 10

/-- The same agent delivers two orders, one after the other. -/
def deliveringTwo : List (Event Operation) := delivering ++ fulfilling 8 507 11

theorem delivered_order_is_recorded :
    ∃ (p : Region) (delivery : Delivery) (earning : AgentEarning) (tx : Transaction),
    SettlementRecorded p.db 10 delivery earning tx := by
  have run : (Pool.play (code Sample.env) (fun _ _ => true) delivering
      (Pool.quiet Database.empty Sample.shared)).map
      (fun p => (p.db .agentEarnings).rows.map AgentEarning.deliveryId) = some [10] := by
    decide +kernel
  obtain ⟨p, played, isDelivered⟩ := Option.map_eq_some_iff.1 run
  obtain ⟨earning, _, rows, isTen, _⟩ := List.map_eq_cons_iff.1 isDelivered
  have member : earning ∈ (p.db .agentEarnings).rows := by
    rw [rows]
    exact List.mem_cons_self
  rcases all_records_or_none (Pool.reach_of_play (fun _ _ _ => trivial) played) 10
    with ⟨delivery, earning, tx, recorded⟩ | unrecorded
  · exact ⟨p, delivery, earning, tx, recorded⟩
  · exact absurd isTen (unrecorded.earning earning member)

end SwiftBite.Verified.Wages
