import SwiftBite.Verified.ArchivalRows
import SwiftBite.Verified.Chains
import SwiftBite.Verified.MoneySums

/-! # References

The columns that the migrations declare as foreign keys: most rows refer to their order, and some
to a row of another table or of their own.  The services insert a row before they refer to it and
remove none, so in every state of all runs each reference leads to a row, and to one of the same
order.
-/

set_option autoImplicit false

namespace SwiftBite.Verified.References

open Store Protocol Verified ArchivalRows OneSettlement DeliveryService

/-! ## Foreign keys -/

/-- The column of a row that refers to something else than its order. -/
def referenceOf : (t : TableName) → RowOf t → Option ℕ
  | .transactions, (tx : Transaction) => tx.refundedPaymentId
  | .deliveries, (delivery : Delivery) => delivery.reassignedFrom
  | .agentEarnings, (earning : AgentEarning) => some earning.deliveryId
  | _, _ => none

/-- The table that this column refers to. -/
def targetOf : TableName → TableName
  | .agentEarnings => .deliveries
  | t => t

/-- What a row refers to. -/
def columns (t : TableName) (row : RowOf t) : Option ℕ × Option ℕ :=
  (parentOf t row, referenceOf t row)

/-- A row refers to rows that are there; but of a reassigned delivery only the order is said
here. -/
structure Refers (db : Database) (t : TableName) (row : RowOf t) : Prop where
  order : ∀ o, parentOf t row = some o → (orderOf db o).isSome = true
  reference : t ≠ .deliveries → ∀ r, referenceOf t row = some r →
    ∃ row', (db (targetOf t)).get (RowKey.id r) = some row' ∧
    parentOf (targetOf t) row' = parentOf t row

def Related (db : Database) : Prop := ∀ t, ∀ row ∈ (db t).rows, Refers db t row

/-- Rows stay, with their order. -/
def Moves (db db' : Database) : Prop := ∀ t, Table.Keeps (parentOf t) (db t) (db' t)

theorem Moves.refl (db : Database) : Moves db db := fun _ => .refl _ _

theorem Moves.trans {db db' db'' : Database} (first : Moves db db')
    (second : Moves db' db'') : Moves db db'' :=
  fun t => (first t).trans (second t)

section

variable {db db' : Database} {t : TableName}

theorem Moves.there (moves : Moves db db') {k : RowKey} (there : ((db t).get k).isSome = true) :
    ((db' t).get k).isSome = true := by
  obtain ⟨row, found⟩ := Option.isSome_iff_exists.1 there
  obtain ⟨row', found', _⟩ := moves t k row found
  exact Option.isSome_iff_exists.2 ⟨row', found'⟩

theorem Refers.later {row : RowOf t} (refers : Refers db t row)
    (moves : Moves db db') : Refers db' t row := by
  refine ⟨fun o isParent => moves.there (refers.order o isParent), fun other r isReference => ?_⟩
  obtain ⟨row', found, sameOrder⟩ := refers.reference other r isReference
  obtain ⟨row'', found', same⟩ := moves _ _ _ found
  exact ⟨row'', found', same.trans sameOrder⟩

theorem Refers.congr {row row' : RowOf t} (refers : Refers db t row)
    (same : columns t row = columns t row') : Refers db t row' := by
  simp only [columns, Prod.mk.injEq] at same
  obtain ⟨order, reference⟩ := refers
  rw [same.1] at order reference
  rw [same.2] at reference
  exact ⟨order, reference⟩

/-- A row that refers to its order alone. -/
theorem refers_of_order {row : RowOf t} {o : ℕ} (isParent : parentOf t row = some o)
    (isReference : referenceOf t row = none)
    (there : (orderOf db o).isSome = true) : Refers db t row := by
  refine ⟨fun o' isParent' => ?_, fun _ r isReference' => ?_⟩
  · rw [isParent] at isParent'
    cases isParent'
    exact there
  · rw [isReference] at isReference'
    cases isReference'

/-- Rows of these tables refer to nothing. -/
theorem columns_of_unlinked (unlinked : ¬ Child t) (row : RowOf t) :
    columns t row = (none, none) := by
  cases t <;> first | rfl | exact absurd (by decide) unlinked

/-! ## What a commit does to a table -/

/-- Rows stay with their order; those that are new, or refer to something else than before, refer to
rows of `after`. -/
structure Extends (after : Database) (t : TableName) (table table' : Table (RowOf t)) : Prop where
  keeps : Table.Keeps (parentOf t) table table'
  origin : ∀ row ∈ table'.rows, (∃ old ∈ table.rows, columns t old = columns t row) ∨
    Refers after t row

variable {after : Database} {table table' table'' : Table (RowOf t)}

namespace Extends

theorem refl (after : Database) (table : Table (RowOf t)) : Extends after t table table :=
  ⟨.refl _ _, fun row member => .inl ⟨row, member, rfl⟩⟩

theorem trans (first : Extends after t table table') (second : Extends after t table' table'') :
    Extends after t table table'' := by
  refine ⟨first.keeps.trans second.keeps, fun row member => ?_⟩
  rcases second.origin row member with ⟨old, among, same⟩ | refers
  · rcases first.origin old among with ⟨older, amongOld, same'⟩ | refers
    · exact .inl ⟨older, amongOld, same'.trans same⟩
    · exact .inr (refers.congr same)
  · exact .inr refers

theorem insert {row : RowOf t} (refers : Refers after t row) :
    Extends after t table (table.insert row) := by
  refine ⟨.insert _ _ _, fun row' member => ?_⟩
  rcases Table.mem_insert member with old | rfl
  · exact .inl ⟨row', old, rfl⟩
  · exact .inr refers

theorem insertAll {rows : List (RowOf t)} (refers : ∀ row ∈ rows, Refers after t row) :
    Extends after t table (rows.foldl Table.insert table) := by
  induction rows generalizing table with
  | nil => exact refl _ _
  | cons row rows inductionHypothesis =>
    obtain ⟨first, rest⟩ := List.forall_mem_cons.1 refers
    exact (insert first).trans (inductionHypothesis rest)

theorem of_same (same : Table.Same (columns t) table table') : Extends after t table table' := by
  refine ⟨fun k row found => ?_, fun row member => .inl ?_⟩
  · obtain ⟨row', found', isSame⟩ := same.keeps k row found
    exact ⟨row', found', (Prod.mk.inj isSame).1⟩
  · have there := (same (key row)).symm
    rw [Table.get_of_mem member] at there
    obtain ⟨old, found, isSame⟩ := Option.map_eq_some_iff.1 there
    exact ⟨old, Table.get_mem found, isSame⟩

/-- An update of other columns. -/
theorem modify {k : RowKey} {f : RowOf t → RowOf t}
    (kept : ∀ row, columns t (f row) = columns t row) : Extends after t table (table.modify k f) :=
  of_same (.modify kept table k)

/-- No row of the table refers to anything. -/
theorem of_unlinked (unlinked : ¬ Child t)
    (stay : ∀ k, (table.get k).isSome = true → (table'.get k).isSome = true) :
    Extends after t table table' := by
  have nowhere := columns_of_unlinked unlinked
  refine ⟨fun k row found => ?_,
    fun row _ => .inr ⟨fun o isParent => ?_, fun _ r isReference => ?_⟩⟩
  · obtain ⟨row', found'⟩ :=
      Option.isSome_iff_exists.1 (stay k (Option.isSome_iff_exists.2 ⟨row, found⟩))
    exact ⟨row', found', (Prod.mk.inj ((nowhere row').trans (nowhere row).symm)).1⟩
  · rw [(Prod.mk.inj (nowhere row)).1] at isParent
    cases isParent
  · rw [(Prod.mk.inj (nowhere row)).2] at isReference
    cases isReference

end Extends

theorem kept_of_tables (related : Related db) (grows : db.Grows db')
    (tables : ∀ t, Child t → Extends db' t (db t) (db' t)) : Related db' ∧ Moves db db' := by
  have all : ∀ t, Extends db' t (db t) (db' t) := by
    intro t
    by_cases child : Child t
    · exact tables t child
    · exact .of_unlinked child (grows.rows t)
  have moves : Moves db db' := fun t => (all t).keeps
  refine ⟨fun t row member => ?_, moves⟩
  rcases (all t).origin row member with ⟨old, among, same⟩ | refers
  · exact ((related t old among).later moves).congr same
  · exact refers

/-- Writes to tables whose rows refer to nothing. -/
theorem kept_of_aside (related : Related db) (aside : ∀ t, Child t → db' t = db t)
    (grows : db.Grows db') : Related db' ∧ Moves db db' := by
  refine kept_of_tables related grows fun t child => ?_
  rw [aside t child]
  exact .refl _ _

/-- A change of one table. -/
theorem kept_of_table (related : Related db) (grows : db.Grows db')
    (extends' : Extends db' t (db t) (db' t)) (others : ∀ t', t' ≠ t → db' t' = db t') :
    Related db' ∧ Moves db db' := by
  refine kept_of_tables related grows fun t' _ => ?_
  by_cases same : t' = t
  · subst same
    exact extends'
  · rw [others t' same]
    exact .refl _ _

theorem kept_of_update {k : RowKey} {f : RowOf t → RowOf t} (related : Related db)
    (kept : ∀ row, columns t (f row) = columns t row) :
    Related (db.apply (.update t k f)) ∧ Moves db (db.apply (.update t k f)) := by
  refine kept_of_table related (Db.grows_apply _ _) ?_ fun t' other =>
    Db.apply_update_ne db _ _ other
  rw [Db.apply_update_self]
  exact .modify kept

theorem kept_of_insert {row : RowOf t} (related : Related db) (refers : Refers db t row) :
    Related (db.apply (.insert t row)) ∧ Moves db (db.apply (.insert t row)) := by
  have moves : Moves db (db.apply (.insert t row)) := by
    intro t'
    by_cases same : t' = t
    · subst same
      rw [Db.apply_insert_self]
      exact .insert _ _ _
    · rw [Db.apply_insert_ne db _ same]
      exact .refl _ _
  refine kept_of_table related (Db.grows_apply _ _) ?_ fun t' other => Db.apply_insert_ne db _ other
  rw [Db.apply_insert_self]
  exact .insert (refers.later moves)

end

/-! ## The commits -/

section

variable {db db' : Database}

theorem columns_withStatus (status : TransactionStatus) (updatedAt : ℕ) (tx : Transaction) :
    columns .transactions (Transaction.withStatus status updatedAt tx) = columns .transactions tx :=
  rfl

theorem columns_session (status : PaymentSessionStatus) (updatedAt : ℕ) (session : PaymentSession) :
    columns .paymentSessions (PaymentSession.withStatus status updatedAt session) =
      columns .paymentSessions session :=
  rfl

theorem columns_delivery (status : DeliveryStatus) (stamp : Option ℕ) (delivery : Delivery) :
    columns .deliveries (Delivery.withStatus status stamp delivery) =
      columns .deliveries delivery := by
  cases status <;> rfl

theorem orderId_withStatus (status : TransactionStatus) (updatedAt : ℕ) (tx : Transaction) :
    Transaction.orderId (Transaction.withStatus status updatedAt tx) = Transaction.orderId tx := rfl

theorem orderId_refunded (refundId updatedAt : ℕ) (tx : Transaction) :
    Transaction.orderId (Transaction.refunded refundId updatedAt tx) = Transaction.orderId tx := rfl

theorem orderId_withEarning (earningAmount : ℤ) (delivery : Delivery) :
    Delivery.orderId (Delivery.withEarning earningAmount delivery) = Delivery.orderId delivery :=
  rfl

/-- A transaction that refers to its order alone is recorded. -/
theorem refers_of_input {data : CreateTransactionInput} {id now o : ℕ}
    (ofOrder : data.orderId = some o) (there : (orderOf db o).isSome = true) :
    Refers db .transactions (data.row id now) :=
  refers_of_order ofOrder rfl there

theorem kept_of_placed {branch : CoreBranch} {address : CoreCustomerAddress}
    {branchProducts : List CoreBranchProduct} {customerId publicId : ℕ} {data : CreateOrderRequest}
    {order : Order} (related : Related db)
    (placed : Placed branch address branchProducts customerId publicId data order db db') :
    Related db' ∧ Moves db db' := by
  have there : (orderOf db' order.id).isSome = true := by
    rw [orderOf, placed.orders]
    exact Option.isSome_iff_exists.2 ⟨order, Table.get_insert_self placed.free⟩
  refine kept_of_tables related placed.grows fun t child => ?_
  by_cases isItems : t = .orderItems
  · subst isItems
    obtain ⟨ids, now, _, _, items⟩ := placed.items
    rw [items]
    refine .insertAll fun row member => refers_of_order (o := order.id) ?_ rfl there
    exact congrArg some (MoneySums.mem_placedItems member).1
  by_cases isTransactions : t = .transactions
  · subst isTransactions
    by_cases isCash : data.paymentMethod = .cod
    · obtain ⟨codProvider, id, now, _, inserted⟩ := placed.cash isCash
      rw [inserted]
      exact .insert (refers_of_input rfl there)
    · rw [placed.online isCash]
      exact .refl _ _
  rw [placed.others t (by cases t <;> simp_all)]
  exact .refl _ _

/-- The session's status is written, and a charge is recorded. -/
theorem kept_of_charged {order : Order} {session : PaymentSession} {providerTransactionId : String}
    {sessionStatus : PaymentSessionStatus} {status : TransactionStatus} (related : Related db)
    (charged : Charged order session providerTransactionId sessionStatus status db db')
    (there : (orderOf db order.id).isSome = true)
    (others : ∀ t, t ∉ [TableName.paymentSessions, .transactions, .orders, .eventsOutbox,
      .paymentWebhookEvents] → db' t = db t) : Related db' ∧ Moves db db' := by
  have there' : (orderOf db' order.id).isSome = true := charged.grows.rows _ _ there
  refine kept_of_tables related charged.grows fun t child => ?_
  by_cases isSessions : t = .paymentSessions
  · subst isSessions
    obtain ⟨updatedAt, updated⟩ := charged.sessions
    rw [updated]
    exact .modify (columns_session sessionStatus updatedAt)
  by_cases isTransactions : t = .transactions
  · subst isTransactions
    obtain ⟨id, now, _, inserted⟩ := charged.transactions
    rw [inserted]
    exact .insert (refers_of_input rfl there')
  rw [others t (by cases t <;> simp_all)]
  exact .refl _ _

/-- A charge is flagged with a refund of its order. -/
theorem extends_of_flagged {after : Database} {table : Table Transaction} {refund : Transaction}
    {charge updatedAt : ℕ}
    (orders : ∀ old ∈ table.rows, ∀ o, Transaction.orderId old = some o →
      (orderOf after o).isSome = true)
    (isRefund : (transactionOf after refund.id).map Transaction.orderId = some refund.orderId)
    (isCharge : (table.get (RowKey.id charge)).map Transaction.orderId = some refund.orderId) :
    Extends after .transactions table
      (table.modify (RowKey.id charge) (Transaction.refunded refund.id updatedAt)) := by
  have keeps : ∀ tx, parentOf .transactions (Transaction.refunded refund.id updatedAt tx) =
      parentOf .transactions tx := fun _ => rfl
  refine ⟨.modify keeps _ _, fun row member => ?_⟩
  obtain ⟨old, among, rfl⟩ := Table.mem_modify.1 member
  by_cases same : key old = RowKey.id charge
  · have changed : Table.rewrite (RowKey.id charge) (Transaction.refunded refund.id updatedAt) old =
        Transaction.refunded refund.id updatedAt old := by
      rw [Table.rewrite_of_eq same]
      exact Table.keepIdentity_eq rfl rfl
    rw [changed]
    have found : table.get (RowKey.id charge) = some old := Table.get_eq_some.2 ⟨among, same⟩
    rw [found] at isCharge
    obtain ⟨row, isRow, ofOrder⟩ := Option.map_eq_some_iff.1 isRefund
    refine .inr ⟨orders old among, fun _ r isReference => ?_⟩
    cases isReference
    exact ⟨row, isRow, ofOrder.trans (Option.some.inj isCharge).symm⟩
  · rw [Table.rewrite_of_ne same]
    exact .inl ⟨old, among, rfl⟩

theorem orderId_later (moves : Moves db db') {id : ℕ} {orderId : Option ℕ}
    (known : (transactionOf db id).map Transaction.orderId = some orderId) :
    (transactionOf db' id).map Transaction.orderId = some orderId := by
  obtain ⟨row, found, isOrder⟩ := Option.map_eq_some_iff.1 known
  obtain ⟨row', found', same⟩ := moves .transactions _ row found
  rw [transactionOf, found']
  exact congrArg some (Eq.trans same isOrder)

theorem kept_of_flagged {refund : Transaction} {charge updatedAt : ℕ} (related : Related db)
    (isRefund : (transactionOf db refund.id).map Transaction.orderId = some refund.orderId)
    (isCharge : (transactionOf db charge).map Transaction.orderId = some refund.orderId) :
    Related (db.apply (.update TableName.transactions (RowKey.id charge)
      (Transaction.refunded refund.id updatedAt))) ∧
      Moves db (db.apply (.update TableName.transactions (RowKey.id charge)
        (Transaction.refunded refund.id updatedAt))) := by
  have others : ∀ t, t ≠ .transactions →
      db.apply (.update TableName.transactions (RowKey.id charge)
        (Transaction.refunded refund.id updatedAt)) t = db t :=
    fun t other => Db.apply_update_ne db _ _ other
  refine kept_of_table related (Db.grows_apply _ _) ?_ others
  rw [Db.apply_update_self]
  refine extends_of_flagged (fun old among o isParent => ?_) ?_ isCharge
  · rw [orderOf, others _ (by decide)]
    exact (related .transactions old among).order o isParent
  · rw [transactionOf, Db.apply_update_self,
      Table.map_get_modify (orderId_refunded refund.id updatedAt)]
    exact isRefund

theorem kept_of_confirmed {refund : Transaction} {V : Database → Prop} (related : Related db)
    (confirmed : ConfirmedFor V refund db db') (since : ∀ before, V before → Moves before db)
    (isRefund : (transactionOf db refund.id).map Transaction.orderId = some refund.orderId) :
    Related db' ∧ Moves db db' := by
  obtain ⟨confirmedAt, flags⟩ := confirmed.flags
  refine kept_of_tables related confirmed.grows fun t child => ?_
  by_cases isTransactions : t = .transactions
  · subst isTransactions
    have succeeds : Extends db' .transactions (db .transactions)
        ((db .transactions).modify (RowKey.id refund.id)
        (Transaction.withStatus .succeeded confirmedAt)) :=
      .modify (columns_withStatus .succeeded confirmedAt)
    have still := Table.map_get_modify (orderId_withStatus .succeeded confirmedAt)
      (db .transactions) (RowKey.id refund.id)
    rcases flags with same | ⟨before, charge, updatedAt, isBefore, ofOrder, same⟩
    · rw [same]
      exact succeeds
    · rw [same]
      refine succeeds.trans (extends_of_flagged (fun old among o isParent => ?_) ?_ ?_)
      · rw [orderOf, confirmed.others .orders (by decide)]
        obtain ⟨older, amongOlder, rfl⟩ := Table.mem_modify.1 among
        refine (related .transactions older amongOlder).order o ?_
        rw [← isParent]
        exact (Table.rewrite_congr (orderId_withStatus .succeeded confirmedAt) older).symm
      · rw [transactionOf, same, Table.map_get_modify (orderId_refunded refund.id updatedAt), still]
        exact isRefund
      · -- The charge was found earlier, and keeps its order.
        rw [still]
        exact orderId_later (since before isBefore) ofOrder
  · rw [confirmed.others t (by cases t <;> simp_all)]
    exact .refl _ _

theorem kept_of_assigned {delivery : Delivery} (related : Related db)
    (there : (orderOf db delivery.orderId).isSome = true) (assignedAt updatedAt : ℕ) :
    Related (db.applyAll (assignmentWrites delivery assignedAt updatedAt)) ∧
      Moves db (db.applyAll (assignmentWrites delivery assignedAt updatedAt)) := by
  have grows : db.Grows (db.applyAll (assignmentWrites delivery assignedAt updatedAt)) :=
    Db.grows_applyAll _ _
  refine kept_of_tables related grows fun t child => ?_
  by_cases isDeliveries : t = .deliveries
  · subst isDeliveries
    rw [assignmentWrites_deliveries]
    refine .insert ⟨fun o isParent => ?_, fun other => absurd rfl other⟩
    cases isParent
    exact grows.rows _ _ there
  · rw [assignmentWrites_other _ _ _ _ isDeliveries (by rintro rfl; exact absurd child (by decide))]
    exact .refl _ _

theorem kept_of_settled {order : Order} {branch : CoreBranch} {delivery : Delivery}
    {commission agentEarning : ℤ} {V : Database → Prop} (related : Related db)
    (settled : Settled order branch delivery commission agentEarning V db db')
    (isOrder : (orderOf db order.id).isSome = true)
    (isDelivery : (deliveryOf db delivery.id).map Delivery.orderId = some order.id) :
    Related db' ∧ Moves db db' := by
  -- The order is there before and after, whatever the settlement writes beside it.
  have there : (orderOf db' order.id).isSome = true := settled.grows.rows _ _ isOrder
  refine kept_of_tables related settled.grows fun t child => ?_
  by_cases isDeliveries : t = .deliveries
  · subst isDeliveries
    obtain ⟨stamp, updated⟩ := settled.deliveries
    rw [updated]
    exact (Extends.modify (columns_delivery .delivered stamp)).trans (.modify fun _ => rfl)
  by_cases isTransactions : t = .transactions
  · subst isTransactions
    obtain ⟨charges, id, now, cash, _, inserted⟩ := settled.transactions
    rw [inserted]
    refine Extends.trans ?_ (.insert (refers_of_input rfl there))
    rcases cash.collected with rfl | ⟨collection, updatedAt, rfl⟩
    · exact .refl _ _
    · exact .modify (columns_withStatus .succeeded updatedAt)
  by_cases isEarnings : t = .agentEarnings
  · subst isEarnings
    rcases settled.earnings with ⟨_, same⟩ | ⟨id, now, _, inserted⟩
    · rw [same]
      exact .refl _ _
    · rw [inserted]
      refine .insert ⟨fun o isParent => ?_, fun _ r isReference => ?_⟩
      · cases isParent
        exact there
      · cases isReference
        obtain ⟨stamp, updated⟩ := settled.deliveries
        have still : (deliveryOf db' delivery.id).map Delivery.orderId = some order.id := by
          rw [deliveryOf, updated, Table.map_get_modify (orderId_withEarning agentEarning),
            Table.map_get_modify (Ledger.orderId_withStatus .delivered stamp)]
          exact isDelivery
        obtain ⟨row, found, ofOrder⟩ := Option.map_eq_some_iff.1 still
        exact ⟨row, found, congrArg some ofOrder⟩
  rw [settled.others t (by cases t <;> simp_all)]
  exact .refl _ _

end

/-! ## The calls -/

def protocol : Protocol (K := RowKey) RowOf Shared Err Operation Reply Unit where
  inv s := Related s.db
  guar _ _ w w' := Moves w.db w'.db
  rely _ _ w w' := Moves w.db w'.db
  post _ _ _ _ := True
  allow _ _ _ := True
  faulty _ := True
  admits _ := True
  apart _ _ _ := True

section Calls

theorem lawful : protocol.Lawful where
  guar_refl _ _ w := .refl w.db
  rely_refl _ _ w := .refl w.db
  rely_trans first second := first.trans second
  rely_of_guar _ _ _ _ guar := guar
  post_stable _ _ _ _ := trivial
  inv_spawn holds _ _ := holds
  inv_crash _ _ holds := ⟨holds, trivial⟩

theorem free (i : ℕ) (op : Operation) : protocol.Free i op Later :=
  fun s _ _ holds => ⟨holds, .refl s.db, .refl s.db⟩

theorem persists (i : ℕ) (op : Operation) : Persists protocol i op :=
  fun _ _ _ _ rely there => rely.there there

variable {i : ℕ} {op : Operation} {s s' : Sit RowOf Shared Operation Unit}

abbrev ends (s : Sit RowOf Shared Operation Unit) : Prop := Related s.db

/-- A commit that keeps the invariant. -/
theorem after_kept {db' : Database} {Φ : Sit RowOf Shared Operation Unit → Prop}
    (kept : Related db' ∧ Moves s.db db')
    (next : ∀ s', Moves db' s'.db → Related s'.db → s'.live i = some op → Φ s') :
    protocol.After i op s ⟨none, []⟩ db' s.side Φ :=
  ⟨(), kept.1, kept.2, fun s' env => next s' env.drift.1 env.inv env.self⟩

/-- Writes to one table whose rows refer to nothing. -/
theorem tolerates (i : ℕ) (op : Operation) {table : TableName} (unlinked : ¬ Child table) :
    protocol.Tolerates i op (within (fun w => w.table = table) fun _ => True) := by
  intro s ws inTable holds
  have kept : Related (s.db.applyAll ws) ∧ Moves s.db (s.db.applyAll ws) := by
    refine kept_of_aside holds (fun t child => ?_) (Db.grows_applyAll s.db ws)
    refine Db.applyAll_other (fun w among isTable => unlinked ?_) s.db
    rw [← inTable w among, isTable]
    exact child
  exact ⟨kept.1, kept.2, kept.2⟩

theorem tolerates_cancels : protocol.Tolerates i op (within Cancels fun _ => True) := by
  intro s ws cancels holds
  have kept : Related (s.db.applyAll ws) ∧ Moves s.db (s.db.applyAll ws) := by
    have kept : ∀ row, columns .deliveries (Delivery.cancel row) =
        columns .deliveries row := fun _ => rfl
    exact kept_of_table holds (Db.grows_applyAll s.db ws) (.of_same (same_of_cancels kept cancels))
      fun t other =>
      others_of_cancels cancels other
  exact ⟨kept.1, kept.2, kept.2⟩

theorem mayAssign {orderId : ℕ} {seen : List (Sigma RowOf)}
    (there : (orderOf s.db orderId).isSome = true) :
    MayAssign protocol i op seen orderId ends s where
  there s' env := env.drift.1.there there
  commits delivery assignedAt updatedAt row s' env _ ofOrder _ := by
    subst ofOrder
    exact after_kept (kept_of_assigned env.inv (env.drift.1.there there) assignedAt updatedAt)
      fun _ _ related _ => related
  stops s' env := env.inv

theorem wp_placeOrderCall {core : Core} {customerId : ℕ} {data : CreateOrderRequest}
    (holds : Related s.db) (self : s.live i = some op) :
    protocol.wp i op (OrderService.placeOrder core customerId data)
      (fun _ _ s' => ends s') .start s := by
  refine wp_placeOrder lawful (free i op) holds self (fun _ env => env.inv)
    fun branch order s₁ db' placing => ?_
  obtain ⟨address, branchProducts, publicId, _, _, _, _, placed⟩ := placing.placed
  refine after_kept (kept_of_placed placing.until'.inv placed) fun s₂ _ _ _ =>
    ⟨?_, fun _ env => env.inv⟩
  intro row updatedAt stamp s₃ env _ _ _
  exact after_kept (kept_of_update (t := .orders) env.inv fun _ => rfl) fun _ _ related _ => related

theorem wp_updateOrderStatusCall {core : Core} {publicId : ℕ} {target : OrderStatus}
    {actor : RequestActor} (holds : Related s.db) :
    protocol.wp i op (OrderService.updateStatus core publicId target actor)
      (fun _ _ s' => ends s') .start s := by
  refine wp_updateOrderStatus lawful (free i op) holds
    (fun result order listed row s₁ seen' db' _ _ env₁ _ _ _ writing => ?_)
    fun _ _ _ env => env.inv
  have written := writing.written
  have kept : Related db' ∧ Moves s₁.db db' := by
    refine kept_of_aside env₁.inv (fun t child => written.others t ?_ ?_) written.grows
    · rintro rfl
      exact absurd child (by decide)
    · rintro rfl
      exact absurd child (by decide)
  refine (after_kept kept fun s₂ _ related self =>
    ?_ : protocol.After i op s₁ ⟨none, []⟩ db' s₁.side _).released seen'
  refine wp_harmless lawful (free i op) tolerates_cancels
    (harmless_releaseDelivery order target fun k => ⟨k, rfl⟩) ?_ related self ?_
  · exact fun w none => absurd none List.not_mem_nil
  · intro result l s₃ inv₃ _ _
    cases result <;> exact inv₃

theorem wp_initCall {core : Core} {orderPublicId customerId : ℕ} (holds : Related s.db) :
    protocol.wp i op (PaymentService.init core orderPublicId customerId)
      (fun _ _ s' => ends s') .start s := by
  refine wp_init lawful (free i op) holds (fun _ env => env.inv) fun order session s₁ opening => ?_
  refine after_kept (kept_of_insert opening.until'.inv ?_) fun _ _ related _ => related
  refine refers_of_order (congrArg some opening.ofOrder) rfl (opening.until'.drift.1.there ?_)
  exact Option.isSome_iff_exists.2 ⟨order, opening.readOrder⟩

theorem processes (payload : WebhookPayload) : Processes protocol i op payload ends s where
  captures order session row s₀ s₁ s₂ db' _ _ paying captured := by
    have there := Option.isSome_iff_exists.2 ⟨order, paying.readOrder⟩
    exact after_kept (kept_of_charged paying.until₂.inv captured.toCharged
      (paying.until₂.drift.1.there (paying.until₁.drift.1.there there)) captured.others)
      fun _ _ related _ => related
  refuses order session row s₀ s₁ s₂ db' _ paying refused := by
    have there := Option.isSome_iff_exists.2 ⟨order, paying.readOrder⟩
    exact after_kept (kept_of_charged paying.until₂.inv refused.toCharged
      (paying.until₂.drift.1.there (paying.until₁.drift.1.there there))
      fun t other => refused.others t (by simp_all)) fun _ _ related _ => related
  confirms refund s₁ s₂ db' confirming confirmed := by
    refine after_kept (kept_of_confirmed confirming.until₂.inv confirmed ?_ ?_)
      fun _ _ related _ => related
    · rintro before ⟨m, rfl, first, second⟩
      exact second.drift.1
    · obtain ⟨row, found, same⟩ := confirming.until₂.drift.1 .transactions _ _ confirming.readRefund
      rw [transactionOf, found]
      exact congrArg some same
  stops s' env := env.inv

theorem maySettle {charge refund : Transaction}
    (isRefund : (transactionOf s.db refund.id).map Transaction.orderId = some refund.orderId)
    (isCharge : (transactionOf s.db charge.id).map Transaction.orderId = some refund.orderId) :
    MaySettle protocol i op charge refund ends s where
  there s' env := by
    obtain ⟨row, found, _⟩ := Option.map_eq_some_iff.1 isRefund
    exact env.drift.1.there (Option.isSome_iff_exists.2 ⟨row, found⟩)
  refers reference updatedAt row s' env _ :=
    after_kept (kept_of_update env.inv fun _ => rfl) fun _ _ related _ => related
  fails updatedAt row s' env _ :=
    after_kept (kept_of_update env.inv fun _ => rfl) fun _ _ related _ => related
  succeeds updatedAt row s' env _ := by
    have kept := kept_of_update (t := .transactions) (k := RowKey.id refund.id) env.inv
      (columns_withStatus .succeeded updatedAt)
    refine after_kept kept fun s₂ moves _ _ => ⟨?_, fun s₃ env₃ => env₃.inv⟩
    intro flaggedAt row' s₃ env₃ _
    have since : Moves s.db s₃.db := ((env.drift.1.trans kept.2).trans moves).trans env₃.drift.1
    exact after_kept
      (kept_of_flagged env₃.inv (orderId_later since isRefund) (orderId_later since isCharge))
      fun _ _ related _ => related
  stops s' env := env.inv

theorem wp_refundCall {core : Core} {paymentId : ℕ} {amount : Option ℤ} {reason : String}
    (holds : Related s.db) :
    protocol.wp i op (PaymentService.refund core paymentId amount reason)
      (fun _ _ s' => ends s') .start s := by
  refine wp_refundRequest lawful (free i op) holds (fun _ env => env.inv)
    fun charge refund s₁ _ refunding => ?_
  have isCharge : (transactionOf s₁.db charge.id).map Transaction.orderId =
      some charge.orderId := by
    refine orderId_later refunding.until'.drift.1 ?_
    rw [refunding.readCharge]
    rfl
  have there : ∀ o, charge.orderId = some o → (orderOf s₁.db o).isSome = true := by
    obtain ⟨row, found, same⟩ := Option.map_eq_some_iff.1 isCharge
    rw [← same]
    exact (refunding.until'.inv .transactions row (Table.get_mem found)).order
  obtain ⟨uuid, id, now, isRow⟩ := refunding.row
  have sameOrder : refund.orderId = charge.orderId := by
    rw [isRow]
    rfl
  have refers : Refers s₁.db .transactions refund := by
    refine ⟨fun o isParent => there o (sameOrder.symm.trans isParent), fun _ r isReference => ?_⟩
    rw [isRow] at isReference
    cases isReference
  have kept := kept_of_insert refunding.until'.inv refers
  refine after_kept kept fun s₂ moves _ _ => maySettle (orderId_later moves ?_) ?_
  · rw [transactionOf, Db.apply_insert_self]
    exact congrArg (Option.map Transaction.orderId) (Table.get_insert_self refunding.free)
  · rw [sameOrder]
    exact orderId_later (kept.2.trans moves) isCharge

theorem wp_recordPayoutCall {restaurantId : ℕ} {amount : ℤ} {currency idempotencyKey : String} :
    protocol.wp i op (FinanceService.recordPayout restaurantId amount currency idempotencyKey)
      (fun _ _ s' => ends s') .start s := by
  refine wp_recordPayout lawful (free i op) (fun result s₁ seen' db' env₁ _ paidOut _ => ?_)
    fun _ _ s₁ env₁ => env₁.inv
  have kept : Related db' ∧ Moves s₁.db db' := by
    cases paidOut with
    | again opened others grows =>
      refine kept_of_aside env₁.inv (fun t child => others t ?_) grows
      rintro rfl
      exact absurd child (by decide)
    | paid locked id now covered posted free transactions others grows =>
      refine kept_of_tables env₁.inv grows fun t child => ?_
      by_cases isTransactions : t = .transactions
      · subst isTransactions
        rw [transactions]
        exact .insert ⟨fun o isParent => (by cases isParent),
          fun _ r isReference => (by cases isReference)⟩
      · rw [others t (by rintro rfl; exact absurd child (by decide)) isTransactions]
        exact .refl _ _
  exact (after_kept kept fun _ _ related _ =>
    related : protocol.After i op s₁ ⟨none, []⟩ db' s₁.side _).released seen'

theorem wp_assignCall {env : Config} {core : Core} {orderPublicId : ℕ} {agentId : Option ℕ}
    (holds : Related s.db) :
    protocol.wp i op (assign env core orderPublicId agentId) (fun _ _ s' => ends s') .start s :=
  wp_assign lawful (free i op) holds (fun _ env => env.inv) fun order _ read _ =>
    mayAssign (Option.isSome_iff_exists.2 ⟨order, read⟩)

theorem wp_tryAutoAssignCall {env : Config} {core : Core} {orderId : ℕ} (holds : Related s.db) :
    protocol.wp i op (tryAutoAssign env core orderId) (fun _ _ s' => ends s') .start s :=
  wp_tryAutoAssign lawful (free i op) holds (fun _ env => env.inv) fun order _ read _ =>
    mayAssign (Option.isSome_iff_exists.2 ⟨order, read⟩)

/-- The order of a delivery. -/
theorem there_of_delivery {delivery : Delivery} (related : Related s.db)
    (read : deliveryOf s.db delivery.id = some delivery) :
    (orderOf s.db delivery.orderId).isSome = true :=
  (related .deliveries delivery (Table.get_mem read)).order _ rfl

theorem wp_reassignCall {env : Config} {core : Core} {orderPublicId : ℕ} {seen : List (Sigma RowOf)}
    (holds : Related s.db) :
    protocol.wp i op (reassign env core orderPublicId) (fun _ _ s' => ends s') ⟨none, seen⟩ s := by
  refine wp_reassign lawful (free i op) (persists i op) holds (fun _ env => env.inv) ?_
  intro order active row stamp s₀ s₁ _ _ until₀ _ read ofOrder _ updating
  have there := updating.env.drift.1.there (there_of_delivery until₀.inv read)
  have kept := kept_of_update (t := .deliveries) (k := RowKey.id active.id) updating.env.inv
    (columns_delivery .reassigned stamp)
  refine after_kept kept fun s₂ moves _ _ seen => ?_
  rw [← ofOrder]
  exact mayAssign ((kept.2.trans moves).there there)

theorem mayPick {orderId : ℕ} : MayPick protocol i op orderId ends s where
  stops _ env := env.inv
  commits _ _ _ _ env _ _ _ :=
    after_kept (kept_of_update (t := .orders) env.inv fun _ => rfl) fun _ _ related _ => related

theorem wp_updateStatusCall {env : Config} {core : Core} {deliveryId actorUserId : ℕ}
    {target : DeliveryStatus} (holds : Related s.db) :
    protocol.wp i op (updateStatus env core deliveryId actorUserId target)
      (fun _ _ s' => ends s') .start s := by
  refine wp_deliveryUpdateStatus lawful (free i op) (persists i op) holds
    (fun _ env => env.inv) ?_ ?_
  · intro delivery order branch row s₀ s₁ db' _ _ read _ until₀ until₁ _ settling
    have sameKey : RowKey.id order.id = RowKey.id delivery.orderId := Table.get_key settling.read
    refine after_kept (kept_of_settled until₁.inv settling.settled ?_ ?_)
      fun _ _ related _ => related
    · rw [orderOf, sameKey]
      exact until₁.drift.1.there (Option.isSome_iff_exists.2 ⟨order, settling.read⟩)
    · obtain ⟨row', found, same⟩ := (until₀.drift.1.trans until₁.drift.1) .deliveries _ _ read
      rw [deliveryOf, found, Option.map_some, RowKey.id.inj sameKey]
      exact congrArg some (Option.some.inj same)
  · intro delivery row stamp s₁ _ _ read _ _ _ updating
    have there := updating.env.drift.1.there (there_of_delivery holds read)
    have kept := kept_of_update (t := .deliveries) (k := RowKey.id delivery.id) updating.env.inv
      (columns_delivery target stamp)
    refine after_kept kept fun s₂ moves _ _ => ?_
    have there₂ := (kept.2.trans moves).there there
    cases target with
    | picked => exact mayPick
    | rejected =>
      exact ⟨fun s₃ seen env₃ _ => mayAssign (env₃.drift.1.there there₂), fun s₃ env₃ => env₃.inv⟩
    | _ => exact fun s' env => env.inv

theorem wp_presence {β : Type} {prog : Service β} (harmless : prog.Harmless presenceOnly)
    (holds : Related s.db) (self : s.live i = some op) :
    protocol.wp i op prog (fun _ _ s' => ends s') .start s :=
  wp_harmless lawful (free i op) (tolerates i op (by decide)) harmless
    (fun w none => absurd none List.not_mem_nil) holds self
    fun _ _ _ inv _ _ => inv

end Calls

theorem verified (env : Config) : protocol.Verified (code env) := by
  intro i op s s' _ _ _ _ started
  have holds := started.inv
  refine wp_mono (fun _ _ s'' (related : ends s'') => ⟨related, trivial⟩) ?_
  cases op with
  | placeOrder core customerId data => exact wp_returning (wp_placeOrderCall holds started.self)
  | updateOrderStatus core publicId target actor => exact wp_map (wp_updateOrderStatusCall holds)
  | initPayment core orderPublicId customerId => exact wp_map (wp_initCall holds)
  | refund core paymentId amount reason => exact wp_map (wp_refundCall holds)
  | webhook payload signature signatureValid =>
    exact wp_returning
      (wp_process lawful (free i _) (persists i _) (tolerates i _ (by decide)) holds started.self
      (processes payload))
  | assign core orderPublicId agentId => exact wp_returning (wp_assignCall holds)
  | tryAutoAssign core orderId => exact wp_returning (wp_tryAutoAssignCall holds)
  | reassign core orderPublicId => exact wp_returning (wp_reassignCall holds)
  | updateDeliveryStatus core deliveryId actorUserId target =>
    exact wp_map (wp_updateStatusCall holds)
  | online agentId point =>
    exact wp_returning (wp_presence (harmless_online agentId point) holds started.self)
  | offline core agentId =>
    exact wp_returning (wp_offline lawful (free i _) (tolerates i _ (by decide)) holds started.self
      (fun _ inv _ => inv)
      fun _ _ _ inv _ => wp_reassignCall inv)
  | ping agentId point =>
    exact wp_returning (wp_presence (harmless_ping agentId point) holds started.self)
  | recordPayout restaurantId amount currency idempotencyKey => exact wp_map wp_recordPayoutCall
  | sleep duration => exact wp_returning (wp_presence (harmless_sleep duration) holds started.self)

/-! ## Runs -/

theorem admissible (p : Region) (e : Event Operation) (_ : Chains.anything p e) :
    protocol.Admissible p e := by
  cases e with
  | spawn op => exact ⟨trivial, fun _ _ _ => ⟨trivial, trivial⟩⟩
  | step i choice =>
    exact ⟨fun _ _ _ _ _ _ _ => trivial,
      fun call found => ⟨fun _ => trivial, fun out acts => trivial⟩⟩
  | crash i => exact fun _ _ => trivial

theorem related_of_run {env : Config} {x : Shared} {p : Region}
    (reached : Pool.Reach (code env) Chains.anything (Pool.quiet Database.empty x) p) :
    Related p.db := by
  have empty : Related Database.empty := fun _ _ none => absurd none List.not_mem_nil
  obtain ⟨_, sound⟩ :=
    sound_of_reach lawful (verified env) admissible (sound_quiet () empty) reached
  exact sound.inv

/-- What a row refers to is there, and is of the same order. -/
structure Joined (db : Database) (t : TableName) (row : RowOf t) : Prop where
  order : ∀ o, parentOf t row = some o → ∃ order ∈ (db .orders).rows, Order.id order = o
  reference : ∀ r, referenceOf t row = some r →
    ∃ row' ∈ (db (targetOf t)).rows, Archival.rowId row' = r ∧
    parentOf (targetOf t) row' = parentOf t row
  /-- A delivery replaces an older one. -/
  older : t = .deliveries → ∀ r, referenceOf t row = some r → r < Archival.rowId row

theorem rowId_of_get {db : Database} {t : TableName} {row : RowOf t} {r : ℕ}
    (found : (db t).get (RowKey.id r) = some row) : Archival.rowId row = r := by
  have isKey : (key row : RowKey) = RowKey.id r := Table.get_key found
  rw [Archival.rowId, isKey]

/-- In every state of all runs, no reference dangles. -/
theorem joined_of_run {env : Config} {x : Shared} {p : Region}
    (reached : Pool.Reach (code env) Chains.anything (Pool.quiet Database.empty x) p)
    (t : TableName) : ∀ row ∈ (p.db t).rows, Joined p.db t row := by
  intro row member
  have refers := related_of_run reached t row member
  have order : ∀ o, parentOf t row = some o →
      ∃ order ∈ (p.db .orders).rows, Order.id order = o := by
    intro o isParent
    obtain ⟨order, found⟩ := Option.isSome_iff_exists.1 (refers.order o isParent)
    exact ⟨order, Table.get_mem found, RowKey.id.inj (Table.get_key found)⟩
  by_cases isDelivery : t = .deliveries
  · subst isDelivery
    have linked : Chains.Linked env.maxReassignmentAttempts p.db p.side :=
      (Chains.sound_of_run reached).inv
    refine ⟨order, fun r isFrom => ?_, fun _ r isFrom => (linked.older row member r isFrom).1⟩
    obtain ⟨_, row', found, sameOrder⟩ := linked.older row member r isFrom
    exact ⟨row', Table.get_mem found, rowId_of_get found, congrArg some sameOrder⟩
  · refine ⟨order, fun r isReference => ?_, fun impossible => absurd impossible isDelivery⟩
    obtain ⟨row', found, sameOrder⟩ := refers.reference isDelivery r isReference
    exact ⟨row', Table.get_mem found, rowId_of_get found, sameOrder⟩

end SwiftBite.Verified.References
