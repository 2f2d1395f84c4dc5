import Mathlib.Order.Interval.Finset.Nat
import SwiftBite.Store.Possible
import SwiftBite.Verified.ArchivalKeys
import SwiftBite.Verified.WebhookAlone

/-! # Archived refunds

Over the databases that the services leave, archival violates no foreign key if and only if each
refunded charge goes with its refund.  One refunded order and 999 cash orders after it are enough to
part the two.
-/

set_option autoImplicit false

namespace SwiftBite.Verified.ArchivedRefunds

open Store Prog Archival ArchivalRows ArchivalPasses ArchivalReruns ArchivalKeys References
  WebhookAlone OrderService

/-! ## Cash orders -/

/-- The tables in which a cash order inserts. -/
def stocked : List TableName := [.orders, .orderItems, .transactions, .eventsOutbox]

/-- If the entry is a UUID, it has been given out. -/
def Given (x : Shared) : UniqueKey → Prop
  | .orderPublicId uuid | .outboxEvent uuid => uuid < x.uuids
  | _ => True

instance (x : Shared) : DecidablePred (Given x)
  | .orderPublicId uuid | .outboxEvent uuid => inferInstanceAs (Decidable (uuid < x.uuids))
  | .providerSession _ | .idempotency _ | .earningDelivery _ | .webhookEvent .. =>
    inferInstanceAs (Decidable True)

/-- The next ids and UUIDs are not in use. -/
structure Unused (db : Database) (x : Shared) : Prop where
  ids : ∀ t ∈ stocked, ∀ row ∈ (db t).rows, rowId row < x.seq t
  uuids : ∀ t ∈ stocked, ∀ row ∈ (db t).rows, ∀ entry ∈ uniques row, Given x entry

section

variable {db : Database} {x : Shared} {t : TableName}

theorem Unused.fresh (unused : Unused db x) (among : t ∈ stocked) {entry : UniqueKey}
    (isNew : ¬ Given x entry) : ¬ db.Indexed t entry := by
  rintro ⟨row, member, isEntry⟩
  exact isNew (unused.uuids t among row member entry isEntry)

theorem Unused.uuid (unused : Unused db x) : Unused db { x with uuids := x.uuids + 1 } := by
  refine ⟨unused.ids, fun t among row member entry isEntry => ?_⟩
  have given := unused.uuids t among row member entry isEntry
  cases entry with
  | orderPublicId uuid => exact Nat.lt_succ_of_lt given
  | outboxEvent uuid => exact Nat.lt_succ_of_lt given
  | _ => trivial

/-- A row with the next id. -/
theorem Unused.free (unused : Unused db x) (among : t ∈ stocked) {row : RowOf t}
    (isNext : rowId row = x.seq t) (fresh : ∀ entry ∈ uniques row, ¬ db.Indexed t entry) :
    (db t).conflicts row = false := by
  rw [← Bool.not_eq_true, Db.conflicts_eq_true]
  rintro (there | ⟨entry, isEntry, indexed⟩)
  · obtain ⟨other, found⟩ := Option.ne_none_iff_exists'.1 there
    have below := unused.ids t among other (Table.get_mem found)
    rw [rowId, Table.get_key found, ← rowId, isNext] at below
    exact lt_irrefl _ below
  · exact fresh entry isEntry indexed

theorem Unused.insert (unused : Unused db x) {row : RowOf t} (isNext : rowId row = x.seq t)
    (given : ∀ entry ∈ uniques row, Given x entry) :
    Unused (db.apply (.insert t row)) (drawn t x) := by
  have cases : ∀ t', ∀ row' ∈ (db.apply (.insert t row) t').rows, row' ∈ (db t').rows ∨
      ∃ same : t = t', row' = same ▸ row := by
    intro t' row' member
    by_cases same : t' = t
    · subst same
      rw [Db.apply_insert_self] at member
      exact (Table.mem_insert member).imp_right fun isRow => ⟨rfl, isRow⟩
    · rw [Db.apply_insert_ne db row same] at member
      exact .inl member
  constructor
  · intro t' among row' member
    rcases cases t' row' member with old | ⟨rfl, rfl⟩
    · exact (unused.ids t' among row' old).trans_le ((later_drawn t x).seq t')
    · rw [isNext]
      exact seq_drawn t x
  · intro t' among row' member entry isEntry
    rcases cases t' row' member with old | ⟨rfl, rfl⟩
    · exact unused.uuids t' among row' old entry isEntry
    · exact given entry isEntry

/-! ### Insertions -/

variable {l : Local RowOf RowKey} {began : ℕ} {ws : List SqlWrite} {seen : List (Sigma RowOf)}
  {orderId : ℕ}

theorem can_uuidv4 {Q : Except Err ℕ → Local RowOf RowKey → Database → Shared → Prop}
    (next : Q (.ok x.uuids) l db { x with uuids := x.uuids + 1 }) : uuidv4.can Q l db x :=
  can_sure next

theorem Unused.insert_trx (unused : Unused (db.applyAll ws) x) {row : RowOf t}
    (isNext : rowId row = x.seq t) (given : ∀ entry ∈ uniques row, Given x entry) :
    Unused (db.applyAll (ws ++ [.insert t row])) (drawn t x) := by
  rw [Db.applyAll_append]
  exact unused.insert isNext given

theorem can_createOrder {data : CreateOrderInput}
    {Q : Except Err Order → Local RowOf RowKey → Database → Shared → Prop}
    (unused : Unused (db.applyAll ws) x) (given : data.publicId < x.uuids)
    (fresh : ¬ (db.applyAll ws).Indexed TableName.orders (.orderPublicId data.publicId))
    (next : ∀ seen' order, order = data.row (x.seq .orders) began →
      (db.applyAll ws .orders).conflicts order = false →
      Unused (db.applyAll (ws ++ [.insert TableName.orders order])) (drawn .orders x) →
      Q (.ok order) ⟨some ⟨began, ws ++ [.insert TableName.orders order]⟩, seen'⟩ db
        (drawn .orders x)) :
    (createOrder .trx data).can Q ⟨some ⟨began, ws⟩, seen⟩ db x := by
  have free : (db.applyAll ws .orders).conflicts (data.row (x.seq .orders) began) = false := by
    refine unused.free (by decide) rfl fun entry isEntry => ?_
    rw [List.mem_singleton.1 isEntry]
    exact fresh
  refine can_do (can_sure (can_insert_trx free rfl fun seen' =>
    next seen' _ rfl free (unused.insert_trx rfl fun entry isEntry => ?_)))
  rw [List.mem_singleton.1 isEntry]
  exact given

/-- An order of one line. -/
theorem can_bulkInsertItems {data : BulkInsertItemInput}
    {Q : Except Err (List OrderItem) → Local RowOf RowKey → Database → Shared → Prop}
    (unused : Unused (db.applyAll ws) x)
    (known : ((db.applyAll ws .orders).get (RowKey.id orderId)).isSome = true)
    (next : ∀ seen' item, item = data.row orderId (x.seq .orderItems) began →
      Unused (db.applyAll (ws ++ [.insert TableName.orderItems item])) (drawn .orderItems x) →
      Q (.ok [item]) ⟨some ⟨began, ws ++ [.insert TableName.orderItems item]⟩, seen'⟩ db
        (drawn .orderItems x)) :
    (bulkInsertItems .trx orderId [data]).can Q ⟨some ⟨began, ws⟩, seen⟩ db x := by
  have free :
      (db.applyAll ws .orderItems).conflicts (data.row orderId (x.seq .orderItems) began) = false :=
    unused.free (by decide) rfl fun entry isEntry => by cases isEntry
  refine can_do (can_do (can_sure (can_do ?_)))
  show (Prog.exec .trx
      (Statement.insertAll TableName.orderItems [(TableName.orders, RowKey.id orderId)] fun now =>
    [data.row orderId (x.seq .orderItems) now]) : Service (List OrderItem)).can Q
      ⟨some ⟨began, ws⟩, seen⟩ db (drawn .orderItems x)
  refine can_insertAll_trx ?_ ?_ fun seen' =>
    next seen' _ rfl (unused.insert_trx rfl fun entry isEntry => by cases isEntry)
  · simp [Statement.insertable, free]
  · simp [Statement.referencesHold, known]

theorem can_createTransaction {data : CreateTransactionInput}
    {Q : Except Err Transaction → Local RowOf RowKey → Database → Shared → Prop}
    (unused : Unused (db.applyAll ws) x) (isOrder : data.orderId = some orderId)
    (unkeyed : data.idempotencyKey = none)
    (known : ((db.applyAll ws .orders).get (RowKey.id orderId)).isSome = true)
    (next : ∀ seen' tx, tx = data.row (x.seq .transactions) began →
      (db.applyAll ws .transactions).conflicts tx = false →
      Unused (db.applyAll (ws ++ [.insert TableName.transactions tx])) (drawn .transactions x) →
      Q (.ok tx) ⟨some ⟨began, ws ++ [.insert TableName.transactions tx]⟩, seen'⟩ db
        (drawn .transactions x)) :
    (createTransaction .trx data).can Q ⟨some ⟨began, ws⟩, seen⟩ db x := by
  have noEntry : ∀ entry : UniqueKey,
      entry ∉ (uniques (data.row (x.seq .transactions) began) : List UniqueKey) := by
    simp [uniques, CreateTransactionInput.row, unkeyed]
  have free :
      (db.applyAll ws .transactions).conflicts (data.row (x.seq .transactions) began) = false :=
    unused.free (by decide) rfl fun entry isEntry => absurd isEntry (noEntry entry)
  refine can_do (can_sure (can_insert_trx free ?_ fun seen' =>
    next seen' _ rfl free (unused.insert_trx rfl fun entry isEntry => ?_)))
  · simp [Statement.referencesHold, isOrder, known]
  · exact absurd isEntry (noEntry entry)

theorem can_insertOutboxEvent {data : OutboxEventInput}
    {Q : Except Err Unit → Local RowOf RowKey → Database → Shared → Prop}
    (unused : Unused (db.applyAll ws) x) (given : data.eventId < x.uuids)
    (fresh : ¬ (db.applyAll ws).Indexed TableName.eventsOutbox (.outboxEvent data.eventId))
    (next : ∀ seen' event,
      Unused (db.applyAll (ws ++ [.insert TableName.eventsOutbox event])) (drawn .eventsOutbox x) →
      Q (.ok ()) ⟨some ⟨began, ws ++ [.insert TableName.eventsOutbox event]⟩, seen'⟩ db
        (drawn .eventsOutbox x)) :
    (insertOutboxEvent .trx data).can Q ⟨some ⟨began, ws⟩, seen⟩ db x := by
  have free :
      (db.applyAll ws .eventsOutbox).conflicts (data.row (x.seq .eventsOutbox) began) = false := by
    refine unused.free (by decide) rfl fun entry isEntry => ?_
    rw [List.mem_singleton.1 isEntry]
    exact fresh
  refine can_do (can_sure (can_do (can_insert_trx free rfl fun seen' =>
    next seen' _ (unused.insert_trx rfl fun entry isEntry => ?_))))
  rw [List.mem_singleton.1 isEntry]
  exact given

/-! ### The order -/

/-- One line of tea, to be paid in cash. -/
def cash : CreateOrderRequest := ⟨6, 8, .cod, [⟨1, 1⟩]⟩

/-- What a cash order leaves. -/
structure Taken (db : Database) (x : Shared) (db' : Database) (x' : Shared) : Prop where
  writes : ∃ (order : Order) (item : OrderItem) (collection : Transaction) (event : OutboxEvent),
    db' = db.applyAll [.insert TableName.orders order, .insert TableName.orderItems item,
      .insert TableName.transactions collection,
      .insert TableName.eventsOutbox event] ∧
    order.id = x.seq .orders ∧ item.id = x.seq .orderItems ∧ order.createdAt = x.now ∧
    (db .orders).conflicts order = false ∧
    collection.id = x.seq .transactions ∧ collection.orderId = some order.id ∧
    (db .transactions).conflicts collection = false
  unused : Unused db' x'
  next : x'.seq .transactions = x.seq .transactions + 1
  later : Later x x'
  now : x'.now = x.now

theorem can_takeCash (unused : Unused db x) :
    (Operation.run Sample.env (.placeOrder Sample.core 7 cash)).can
    (fun _ l db' x' => l.txn = none ∧ Taken db x db' x') .start db x := by
  refine can_do ?_
  have steps : placeOrder Sample.core 7 cash = uuidv4 >>= fun publicId =>
      insertOrder Sample.branch ⟨7, 0, 0, "1 Nile Street"⟩ [⟨1, "tea", none, 500, 10, true⟩] 7
        publicId cash >>= fun placed =>
        reserve Sample.core placed.1 cash >>= fun _ => pure placed := rfl
  rw [steps]
  refine can_do (can_uuidv4 (can_do
    (can_mono ?_ (can_transaction (Q := fun _ l db' x' => l.txn = none ∧ Taken db x db' x') ?_))))
  · rintro result l db' x' ⟨placed, rfl, ends⟩
    exact ends
  -- The order, its item, the collection and the event, each under an id that is free.
  refine can_do (can_createOrder unused.uuid (Nat.lt_succ_self _)
    (unused.fresh (by decide) (lt_irrefl _)) fun _ order isOrder free unused₁ => ?_)
  have known : ∀ ws : List SqlWrite, ((db.applyAll (.insert TableName.orders order :: ws)
      .orders).get (RowKey.id order.id)).isSome = true := by
    intro ws
    refine Db.isSome_get_applyAll ws ?_
    have found : ((db .orders).insert order).get (RowKey.id order.id) = some order :=
      Table.get_insert_self free
    rw [Db.apply_insert_self, found]
    rfl
  refine can_do (can_bulkInsertItems unused₁ (known []) fun _ item isItem unused₂ => ?_)
  refine can_do (can_do (can_select_trx (can_do (can_createTransaction unused₂ rfl rfl (known [_])
    fun _ collection isCollection free' unused₃ => ?_))))
  refine can_do (can_uuidv4 (can_insertOutboxEvent unused₃.uuid (Nat.lt_succ_self _)
    (unused₃.fresh (by decide) (lt_irrefl _)) fun _ event unused₄ => ?_))
  -- The collection is the first row that goes into `transactions`.
  have same : db.applyAll [.insert TableName.orders order, .insert TableName.orderItems item]
      .transactions = db .transactions :=
    Db.applyAll_other (by simp [Write.table]) db
  refine ⟨_, rfl, rfl, ⟨order, item, collection, event, rfl, ?_, ?_, ?_, free, ?_, ?_, ?_⟩,
    unused₄, ?_, ?_, rfl⟩
  · rw [isOrder]
    rfl
  · rw [isItem]
    rfl
  · rw [isOrder]
    rfl
  · rw [isCollection]
    rfl
  · rw [isCollection]
    rfl
  · rw [← same]
    exact free'
  · rfl
  · exact (later_uuid x).trans ((later_drawn .orders _).trans
      ((later_drawn .orderItems _).trans ((later_drawn .transactions _).trans
      ((later_uuid _).trans (later_drawn .eventsOutbox _)))))

end

/-! ## Many orders after a refund -/

/-- A charge, its refund, and `n` transactions in all. -/
structure Piled (n : ℕ) (p : Region) : Prop where
  idle : p.Idle = true
  free : ∀ call ∈ p.calls, call.loc.txn.isNone = true
  unused : Unused p.db p.side
  positive : Positive p.db
  sequences : ∀ t ∈ stocked, 0 < p.side.seq t
  now : p.side.now = Sample.shared.now
  created : ∀ order ∈ (p.db .orders).rows, Order.createdAt order = Sample.shared.now
  owned : ∀ tx ∈ (p.db .transactions).rows, (Transaction.orderId tx).isSome = true
  ids : ((p.db .transactions).rows.map fun tx : Transaction => tx.id) = List.range' 10 n
  next : p.side.seq .transactions = 10 + n
  refunded : ∃ charge ∈ (p.db .transactions).rows, Transaction.id charge = 10 ∧
    Transaction.refundedPaymentId charge = some 11

section

variable {p : Region} {n : ℕ}

theorem positive_insert {db : Database} (positive : Positive db) {t : TableName} {row : RowOf t}
    (new : Moved t → 0 < rowId row) : Positive (db.apply (.insert t row)) := by
  intro t' moved row' member
  by_cases same : t' = t
  · subst same
    rw [Db.apply_insert_self] at member
    rcases Table.mem_insert member with old | rfl
    · exact positive t' moved row' old
    · exact new moved
  · rw [Db.apply_insert_ne db row same] at member
    exact positive t' moved row' member

theorem piled_takeCash (piled : Piled n p) :
    ∃ p', Pool.Reach (code Sample.env) Chains.anything p p' ∧ Piled (n + 1) p' := by
  have free : ∀ call ∈ p.calls, call.loc.held = [] := by
    intro call member
    rw [Local.held, Local.writes, Option.isNone_iff_eq_none.1 (piled.free call member)]
    rfl
  obtain ⟨result, l, db', x', ⟨closed, taken⟩, reached⟩ :=
    Pool.reach_of_spawn (code Sample.env) Chains.anything (.placeOrder Sample.core 7 cash)
    free trivial (fun _ _ => trivial) (can_takeCash piled.unused)
  refine ⟨_, reached, ?_⟩
  obtain ⟨order, item, collection, event, isDb, orderId, itemId, created, freeOrder, collectionId,
    owner, freeCollection⟩ := taken.writes
  have orders : (db' .orders).rows = (p.db .orders).rows ++ [order] := by
    rw [isDb, Db.applyAll_cons, Db.applyAll_other (by simp [Write.table]), Db.apply_insert_self,
      Table.rows_insert freeOrder]
  have transactions : (db' .transactions).rows = (p.db .transactions).rows ++ [collection] := by
    have before : p.db.applyAll [.insert TableName.orders order, .insert TableName.orderItems item]
        .transactions = p.db .transactions :=
      Db.applyAll_other (by simp [Write.table]) p.db
    have last := Db.applyAll_concat_insert_ne p.db
      [.insert TableName.orders order, .insert TableName.orderItems item,
      .insert TableName.transactions collection] event
        (show TableName.eventsOutbox ≠ .transactions by decide)
    rw [← Table.rows_insert freeCollection, isDb, ← before, ← Db.applyAll_concat_insert]
    exact congrArg Table.rows last
  have positive : ∀ t ∈ stocked, 0 < p.side.seq t := piled.sequences
  constructor
  · simpa [Pool.Idle, Pool.Ended] using piled.idle
  · intro call member
    rcases List.mem_append.1 member with old | new
    · exact piled.free call old
    · rw [List.mem_singleton.1 new, closed]
      rfl
  · exact taken.unused
  · rw [isDb]
    refine positive_insert (positive_insert (positive_insert
      (positive_insert piled.positive fun _ => ?_) fun _ => ?_) fun _ => ?_) fun moved => ?_
    · exact (positive .orders (by decide)).trans_eq orderId.symm
    · exact (positive .orderItems (by decide)).trans_eq itemId.symm
    · exact (positive .transactions (by decide)).trans_eq collectionId.symm
    · exact absurd moved (by decide)
  · exact fun t among => (positive t among).trans_le (taken.later.seq t)
  · exact taken.now.trans piled.now
  · intro order' member
    rw [orders] at member
    rcases List.mem_append.1 member with old | new
    · exact piled.created order' old
    · rw [List.mem_singleton.1 new, created, piled.now]
  · intro tx member
    rw [transactions] at member
    rcases List.mem_append.1 member with old | new
    · exact piled.owned tx old
    · rw [List.mem_singleton.1 new, owner]
      rfl
  · rw [transactions, List.map_append, piled.ids, List.range'_concat]
    simp [collectionId, piled.next]
  · show x'.seq .transactions = 10 + (n + 1)
    rw [taken.next, piled.next]
    omega
  · obtain ⟨charge, member, refunded⟩ := piled.refunded
    exact ⟨charge, by rw [transactions]; exact List.mem_append_left _ member, refunded⟩

end

/-- An online order is placed, paid and refunded. -/
def refundedOrder : List (Event Operation) :=
  .spawn (.placeOrder Sample.core 7 ⟨6, 8, .online, [⟨1, 1⟩]⟩) :: List.replicate 7 (Sample.act 0) ++
  .spawn (.initPayment Sample.core 500 7) :: List.replicate 5 (Sample.act 1) ++
  .spawn (.webhook ⟨some "pay", some "SUCCESS", .uuid 500, some "a", none⟩ "" true) ::
    List.replicate 23 (Sample.act 2) ++
  .spawn (.refund Sample.core 10 none "cold") :: List.replicate 6 (Sample.act 3) ++
  .spawn (.webhook ⟨some "refund", some "SUCCESS", .uuid 500, some "a", none⟩ "" true) ::
    List.replicate 14 (Sample.act 4)

instance (db : Database) (x : Shared) : Decidable (Unused db x) :=
  decidable_of_iff ((∀ t ∈ stocked, ∀ row ∈ (db t).rows, rowId row < x.seq t) ∧
    ∀ t ∈ stocked, ∀ row ∈ (db t).rows, ∀ entry ∈ (uniques row : List UniqueKey), Given x entry)
    ⟨fun both => ⟨both.1, both.2⟩, fun unused => ⟨unused.ids, unused.uuids⟩⟩

theorem piled_refundedOrder :
    ∃ p, Pool.Reach (code Sample.env) Chains.anything (Pool.quiet Database.empty Sample.shared) p ∧
    Piled 2 p := by
  have played : (Pool.play (code Sample.env) (fun _ _ => true) refundedOrder
      (Pool.quiet Database.empty Sample.shared)).map (fun p =>
      decide ((p.Idle = true ∧ (∀ call ∈ p.calls, call.loc.txn.isNone = true) ∧ Unused p.db p.side ∧
        (∀ t ∈ PASS1_INSERT_ORDER, ∀ row ∈ (p.db t).rows, 0 < rowId row) ∧ ∀ t ∈ stocked,
          0 < p.side.seq t) ∧
        p.side.now = Sample.shared.now ∧
        (∀ order ∈ (p.db .orders).rows, Order.createdAt order = Sample.shared.now) ∧
        (∀ tx ∈ (p.db .transactions).rows, (Transaction.orderId tx).isSome = true) ∧
        ((p.db .transactions).rows.map fun tx : Transaction => tx.id) = List.range' 10 2 ∧
        p.side.seq .transactions = 12 ∧
        ∃ charge ∈ (p.db .transactions).rows, Transaction.id charge = 10 ∧
        Transaction.refundedPaymentId charge = some 11)) = some true := by
    decide +kernel
  obtain ⟨p, isRun, holds⟩ := Option.map_eq_some_iff.1 played
  obtain ⟨⟨idle, free, unused, positive, sequences⟩, now, created, owned, ids, next, refunded⟩ :=
    of_decide_eq_true holds
  exact ⟨p, Pool.reach_of_play (fun _ _ _ => trivial) isRun, idle, free, unused, positive,
    sequences, now, created, owned, ids, next, refunded⟩

theorem piled_after (n : ℕ) :
    ∃ p, Pool.Reach (code Sample.env) Chains.anything (Pool.quiet Database.empty Sample.shared) p ∧
    Piled (2 + n) p := by
  induction n with
  | zero => exact piled_refundedOrder
  | succ n inductionHypothesis =>
    obtain ⟨p, reached, piled⟩ := inductionHypothesis
    obtain ⟨p', onward, piled'⟩ := piled_takeCash piled
    exact ⟨p', reached.trans onward, piled'⟩

/-! ## Archival -/

/-- Nothing stands in the way of a first execution. -/
structure Unhindered (host : Host) (cutoff : ℕ) (start : World) : Prop where
  new : NewToArchive cutoff start
  clear : ClearOfArchive cutoff start
  runtime : 0 < host.maxRuntimeMin
  unlocked : start.holder = none
  year : cutoffIso start.now = cutoff

/-- Archival of what the services have left violates no foreign key, if each refunded charge goes
with its refund; and an execution that nothing hinders violates one otherwise. -/
theorem archival_keeps_the_keys_iff (env : Config) (x : Shared) (p : Region)
    (reached : Pool.Reach (code env) Chains.anything (Pool.quiet Database.empty x) p) (host : Host)
    (cutoff : ℕ) (start : World) (isHot : start.hot = p.db) (idle : start.runs = [])
    (positive : Positive start.hot) (intact : Intact start.archive) :
    (Aligned cutoff start.toSite → NeverTrips host cutoff start) ∧
      (Unhindered host cutoff start → NeverTrips host cutoff start →
        Aligned cutoff start.toSite) := by
  have joined : ∀ t, ∀ row ∈ (start.hot t).rows, Joined start.hot t row := by
    rw [isHot]
    exact joined_of_run reached
  refine ⟨neverTrips_of_aligned positive idle joined intact, fun unhindered never => ?_⟩
  exact aligned_of_neverTrips positive idle joined never unhindered.new unhindered.clear
    unhindered.runtime unhindered.unlocked unhindered.year

/-- The first archival of a region. -/
def firstArchival (p : Region) (now : ℕ) : World where
  hot := p.db
  archive := Database.empty
  now := now
  lock := none
  runs := []

section

variable {p : Region} {n cutoff now : ℕ}

theorem unhindered_first (p : Region) (now : ℕ) :
    Unhindered ArchivalLoss.host (cutoffIso now) (firstArchival p now) where
  new _ _ _ stored := by cases stored
  clear _ _ _ _ _ among := absurd among List.not_mem_nil
  runtime := by decide
  unlocked := rfl
  year := rfl

theorem intact_empty : Intact Database.empty where
  order _ _ member := absurd member List.not_mem_nil
  reference _ _ member := absurd member List.not_mem_nil

theorem aligned_of_few {site : Site}
    (few : (eligibleIds site.hot cutoff .transactions).card < BATCH_SIZE) :
    Aligned cutoff site := by
  refine ⟨fun charge _ _ refund _ => .inr (.inr ?_), fun charge _ _ refund _ => ?_⟩
  · rw [insertedIn, batchNumber_of_few _ few]
    exact Nat.zero_le _
  · rw [deletedIn, batchNumber_of_few _ few]
    exact Nat.zero_le _

variable (piled : Piled n p)
  (joined : ∀ row ∈ (p.db .transactions).rows, Joined p.db .transactions row)
  (late : Sample.shared.now < cutoff)

include piled joined late

theorem eligible_of_piled :
    ∀ tx ∈ (p.db .transactions).rows, eligible p.db cutoff .transactions tx = true := by
  intro tx member
  obtain ⟨o, isOrder⟩ := Option.isSome_iff_exists.1 (piled.owned tx member)
  obtain ⟨order, among, isId⟩ := (joined tx member).order o isOrder
  rw [eligible_child (by decide), byParentOrder_iff]
  refine ⟨order, among, by rw [isId]; exact isOrder.symm, ?_⟩
  rw [orderEligible, piled.created order among, decide_eq_true_eq]
  exact late

theorem eligibleIds_of_piled : eligibleIds p.db cutoff .transactions = Finset.Ico 10 (10 + n) := by
  ext id
  have listed : id ∈ (p.db .transactions).rows.map (fun tx : Transaction => tx.id) ↔
      id ∈ List.range' 10 n := by rw [piled.ids]
  rw [List.mem_range'_1, List.mem_map] at listed
  rw [mem_eligibleIds, Finset.mem_Ico, ← listed]
  constructor
  · rintro ⟨tx, member, _, isId⟩
    exact ⟨tx, member, isId⟩
  · rintro ⟨tx, member, isId⟩
    exact ⟨tx, member, eligible_of_piled piled joined late tx member, isId⟩

/-- Of `n` transactions, so many have a higher id. -/
theorem deletedIn_of_piled {id : ℕ} (least : 10 ≤ id) :
    deletedIn p.db cutoff .transactions id = (10 + n - (id + 1)) / BATCH_SIZE := by
  have higher : before (· > ·) (Finset.Ico 10 (10 + n)) id = Finset.Ico (id + 1) (10 + n) := by
    ext id'
    simp only [mem_before, Finset.mem_Ico]
    omega
  rw [deletedIn, eligibleIds_of_piled piled joined late, batchNumber, higher, Nat.card_Ico]

end

theorem year_of_1971 : Sample.shared.now < cutoffIso (Calendar.yearStart 1971) :=
  (show Sample.shared.now < Calendar.yearStart 1971 by decide).trans_le
    (Calendar.yearStart_mono (Calendar.le_yearOf le_rfl))

/-- One refund, and nothing else. -/
theorem refunded_order_is_archived :
    ∃ p, Pool.Reach (code Sample.env) Chains.anything (Pool.quiet Database.empty Sample.shared) p ∧
    Piled 2 p ∧ NeverTrips ArchivalLoss.host (cutoffIso (Calendar.yearStart 1971)) (firstArchival p
      (Calendar.yearStart 1971)) := by
  obtain ⟨p, reached, piled⟩ := piled_refundedOrder
  refine ⟨p, reached, piled, ?_⟩
  refine (archival_keeps_the_keys_iff Sample.env Sample.shared p reached ArchivalLoss.host
    (cutoffIso (Calendar.yearStart 1971))
    (firstArchival p (Calendar.yearStart 1971)) rfl rfl piled.positive intact_empty).1
    (aligned_of_few ?_)
  show (eligibleIds p.db _ .transactions).card < BATCH_SIZE
  rw [eligibleIds_of_piled piled (joined_of_run reached .transactions) year_of_1971]
  decide

/-- A refunded order, and 999 cash orders after it: the delete pass leaves the charge for its second
batch. -/
theorem charge_outlives_its_refund :
    ∃ p, Pool.Reach (code Sample.env) Chains.anything (Pool.quiet Database.empty Sample.shared) p ∧
    p.Idle = true ∧ Positive p.db ∧
    ¬ NeverTrips ArchivalLoss.host (cutoffIso (Calendar.yearStart 1971))
      (firstArchival p (Calendar.yearStart 1971)) := by
  obtain ⟨p, reached, piled⟩ := piled_after 999
  have joined := joined_of_run reached
  refine ⟨p, reached, piled.idle, piled.positive, fun never => ?_⟩
  have unhindered := unhindered_first p (Calendar.yearStart 1971)
  have aligned := aligned_of_neverTrips piled.positive rfl joined never unhindered.new
    unhindered.clear unhindered.runtime
    unhindered.unlocked unhindered.year
  obtain ⟨charge, member, isCharge, isRefund⟩ := piled.refunded
  have notBefore : deletedIn p.db _ .transactions charge.id ≤ deletedIn p.db _ .transactions 11 :=
    aligned.deleted charge member
      (eligible_of_piled piled (joined .transactions) year_of_1971 charge member) 11 isRefund
  rw [isCharge, deletedIn_of_piled piled (joined .transactions) year_of_1971 le_rfl,
    deletedIn_of_piled piled (joined .transactions) year_of_1971 (by decide)] at notBefore
  exact absurd notBefore (by decide)

end SwiftBite.Verified.ArchivedRefunds
