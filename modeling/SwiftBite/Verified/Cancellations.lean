import SwiftBite.Verified.AloneStatus
import SwiftBite.Verified.OneSettlement

/-! # Cancelled orders and the delivery side

A cancellation checks the order as it has read it, writes the status, and releases the delivery in a
later statement.  The calls of the delivery side write the order's status without looking at it
again. So a cancelled order stays as it is only while no such call for it runs beside its
cancellation; the ghost component records the cancellations that still have to release the delivery.
-/

set_option autoImplicit false

namespace SwiftBite.Verified.Cancellations

open Store Protocol Verified Statement DeliveryService OneSettlement
open SwiftBite.Verified.Ledger (balanceIn)

/-- A status of orders that may have deliveries. -/
def dispatched : OrderStatus → Bool
  | .assigned | .picked | .delivered | .cancelled => true
  | _ => false

abbrev statusIn (db : Database) (id : ℕ) : Option OrderStatus := (orderOf db id).map Order.status

abbrev Cancelled (db : Database) (id : ℕ) : Prop := statusIn db id = some .cancelled

/-- The order's deliveries come from deliveries of it, and those under way from some under way. -/
def JobsFrom (orderId : ℕ) (deliveries deliveries' : Table Delivery) : Prop :=
  ∀ a' ∈ deliveries'.rows, a'.orderId = orderId →
    ∃ a ∈ deliveries.rows, a.id = a'.id ∧ a.orderId = orderId ∧
    (a'.status.active = true → a.status.active = true)

/-- Nothing happens to the order: its status stays, it gets no delivery, and it is not settled.  A
balance changes only when another order is settled. -/
structure Frozen (orderId : ℕ) (db db' : Database) : Prop where
  status : statusIn db' orderId = statusIn db orderId
  jobs : JobsFrom orderId (db .deliveries) (db' .deliveries)
  commissions : (db' .transactions).count (isCommissionFor orderId) =
    (db .transactions).count (isCommissionFor orderId)
  earnings : (db' .agentEarnings).count (isEarningFor orderId) =
    (db .agentEarnings).count (isEarningFor orderId)
  balances : (∀ restaurantId currency,
      balanceIn (db' .restaurantBalances) restaurantId currency =
        balanceIn (db .restaurantBalances) restaurantId currency) ∨
    ∃ other, other ≠ orderId ∧
      (db .transactions).count (isCommissionFor other) <
        (db' .transactions).count (isCommissionFor other)

/-- The order has deliveries only once it was assigned. -/
def Orderly (db : Database) (orderId : ℕ) : Prop :=
  ∀ order, orderOf db orderId = some order → ∀ d ∈ (db .deliveries).rows, d.orderId = orderId →
  dispatched order.status = true

/-! ## The deliveries of an order -/

namespace JobsFrom

variable {orderId : ℕ} {deliveries deliveries' deliveries'' : Table Delivery}

theorem refl (orderId : ℕ) (deliveries : Table Delivery) : JobsFrom orderId deliveries deliveries :=
  fun a member ofOrder => ⟨a, member, rfl, ofOrder, id⟩

theorem trans (first : JobsFrom orderId deliveries deliveries')
    (second : JobsFrom orderId deliveries' deliveries'') :
    JobsFrom orderId deliveries deliveries'' := by
  intro a'' member ofOrder
  obtain ⟨a', member', sameId', ofOrder', was'⟩ := second a'' member ofOrder
  obtain ⟨a, member, sameId, ofOrder, was⟩ := first a' member' ofOrder'
  exact ⟨a, member, sameId.trans sameId', ofOrder, was ∘ was'⟩

theorem insert {delivery : Delivery} (other : delivery.orderId ≠ orderId) :
    JobsFrom orderId deliveries (deliveries.insert delivery) := by
  intro a' member ofOrder
  rcases Table.mem_insert member with old | rfl
  · exact ⟨a', old, rfl, ofOrder, id⟩
  · exact absurd ofOrder other

/-- A delivery is rewritten, and is under way only if it was, unless it is another order's. -/
theorem modify {id : ℕ} {f : Delivery → Delivery} (kept : ∀ row, (f row).orderId = row.orderId)
    (was : ∀ row ∈ deliveries.rows, row.id = id → row.orderId = orderId →
      (f row).status.active = true → row.status.active = true) :
    JobsFrom orderId deliveries (deliveries.modify (RowKey.id id) f) := by
  intro a' member ofOrder
  obtain ⟨a, member', rfl⟩ := Table.mem_modify.1 member
  have sameOrder : (Table.rewrite (RowKey.id id) f a).orderId = a.orderId :=
    Table.rewrite_congr kept a
  have sameId : (Table.rewrite (RowKey.id id) f a).id = a.id :=
    RowKey.id.inj (Table.key_rewrite (RowKey.id id) f a)
  have ofOrder' : a.orderId = orderId := sameOrder.symm.trans ofOrder
  refine ⟨a, member', sameId.symm, ofOrder', ?_⟩
  by_cases same : a.id = id
  · have isKey : key a = RowKey.id id := congrArg RowKey.id same
    rw [Table.rewrite_of_eq isKey]
    unfold Table.keepIdentity
    split
    · exact was a member' same ofOrder'
    · exact fun isActive => isActive
  · have notKey : key a ≠ RowKey.id id := fun isKey => same (RowKey.id.inj isKey)
    rw [Table.rewrite_of_ne notKey]
    exact fun isActive => isActive

end JobsFrom

theorem noneActive_of_jobs {db db' : Database} {orderId : ℕ} (none : NoneActive db orderId)
    (jobs : JobsFrom orderId (db .deliveries) (db' .deliveries)) : NoneActive db' orderId := by
  intro a' member ofOrder
  obtain ⟨a, member', _, ofOrder', was⟩ := jobs a' member ofOrder
  by_contra isActive
  rw [Bool.not_eq_false] at isActive
  rw [none a member' ofOrder'] at was
  exact Bool.false_ne_true (was isActive)

/-! ## What other orders' calls commit -/

namespace Frozen

variable {db db' : Database} {orderId : ℕ}

theorem refl (db : Database) (orderId : ℕ) : Frozen orderId db db :=
  ⟨rfl, .refl _ _, rfl, rfl, .inl fun _ _ => rfl⟩

/-- Orders and deliveries change, and the money does not. -/
theorem aside (status : statusIn db' orderId = statusIn db orderId)
    (jobs : JobsFrom orderId (db .deliveries) (db' .deliveries))
    (transactions : db' .transactions = db .transactions)
    (earnings : db' .agentEarnings = db .agentEarnings)
    (balances : db' .restaurantBalances = db .restaurantBalances) : Frozen orderId db db' :=
  ⟨status, jobs, by rw [transactions], by rw [earnings], .inl fun _ _ => by rw [balances]⟩

theorem status_of_modify {n : ℕ} {f : Order → Order} (other : n ≠ orderId)
    (orders : db' .orders = (db .orders).modify (RowKey.id n) f) :
    statusIn db' orderId = statusIn db orderId := by
  have different : RowKey.id orderId ≠ RowKey.id n := fun same => other (RowKey.id.inj same).symm
  rw [statusIn, orderOf, orders, Table.get_modify_of_ne different]

theorem of_assignment {delivery : Delivery} {assignedAt updatedAt : ℕ}
    (other : delivery.orderId ≠ orderId) :
    Frozen orderId db (db.applyAll (assignmentWrites delivery assignedAt updatedAt)) := by
  have kept : ∀ t, t ≠ .deliveries → t ≠ .orders →
      db.applyAll (assignmentWrites delivery assignedAt updatedAt) t = db t :=
    fun t => assignmentWrites_other db delivery assignedAt updatedAt
  refine aside (status_of_modify other (assignmentWrites_orders db delivery assignedAt updatedAt))
    ?_ (kept _ (by decide) (by decide))
    (kept _ (by decide) (by decide)) (kept _ (by decide) (by decide))
  rw [assignmentWrites_deliveries]
  exact .insert other

/-- Only deliveries change. -/
theorem of_deliveries (jobs : JobsFrom orderId (db .deliveries) (db' .deliveries))
    (others : ∀ t, t ≠ .deliveries → db' t = db t) : Frozen orderId db db' :=
  aside (by rw [statusIn, orderOf, others _ (by decide)]) jobs (others _ (by decide))
    (others _ (by decide)) (others _ (by decide))

/-- The status of one order changes. -/
theorem of_order {n : ℕ} {f : Order → Order} (other : n ≠ orderId)
    (orders : db' .orders = (db .orders).modify (RowKey.id n) f)
    (others : ∀ t, t ≠ .orders → t ≠ .eventsOutbox → db' t = db t) : Frozen orderId db db' := by
  refine aside (status_of_modify other orders) ?_ (others _ (by decide) (by decide))
    (others _ (by decide) (by decide))
    (others _ (by decide) (by decide))
  rw [others _ (by decide) (by decide)]
  exact .refl _ _

theorem of_settled {order : Order} {branch : CoreBranch} {delivery : Delivery}
    {commission agentEarning : ℤ} {V : Database → Prop}
    (settled : Settled order branch delivery commission agentEarning V db db')
    (other : order.id ≠ orderId) : Frozen orderId db db' := by
  obtain ⟨stamp, deliveries⟩ := settled.deliveries
  obtain ⟨updatedAt, updatedAt', stamp', orders⟩ := settled.orders
  have commissions := commissions_of_settled settled
  have different : RowKey.id orderId ≠ RowKey.id order.id :=
    fun same => other (RowKey.id.inj same).symm
  refine ⟨?_, ?_, ?_, ?_, .inr ⟨order.id, other, ?_⟩⟩
  · rw [statusIn, orderOf, orders, Table.get_modify_of_ne different,
      Table.get_modify_of_ne different]
  · rw [deliveries]
    refine .trans (.modify (Ledger.orderId_withStatus .delivered stamp) fun _ _ _ _ => ?_)
      (.modify (fun _ => rfl) fun _ _ _ _ isActive => isActive)
    exact fun isActive => by cases isActive
  · rw [commissions orderId, if_neg other, Nat.add_zero]
  · rcases settled.earnings with ⟨_, same⟩ | ⟨id, now, free, inserted⟩
    · rw [same]
    · rw [inserted, Table.count_insert free]
      simp [isEarningFor, earningInput, CreateAgentEarningInput.row, other]
  · rw [commissions order.id, if_pos rfl]
    exact Nat.lt_succ_self _

end Frozen

/-! ## The calls for an order -/

/-- An order, as calls refer to it. -/
structure Ref where
  id : ℕ
  publicId : ℕ

/-- A call of the delivery side for the order. -/
def Handles (ref : Ref) (db : Database) : Operation → Prop
  | .assign _ publicId _ | .reassign _ publicId => publicId = ref.publicId
  | .tryAutoAssign _ orderId => orderId = ref.id
  | .updateDeliveryStatus _ deliveryId _ _ =>
    (deliveryOf db deliveryId).map Delivery.orderId = some ref.id
  | _ => False

/-- A request to cancel the order. -/
def Cancelling (ref : Ref) : Operation → Prop
  | .updateOrderStatus _ publicId target _ => publicId = ref.publicId ∧ target = .cancelled
  | _ => False

/-- Requests to cancel orders, and the calls of the delivery side. -/
def Listed : Operation → Prop
  | .updateOrderStatus _ _ target _ => target = .cancelled
  | .assign .. | .tryAutoAssign .. | .reassign .. | .updateDeliveryStatus .. => True
  | _ => False

/-- One of the two cancels the order, and the other serves its delivery. -/
def Clash (ref : Ref) (db : Database) (op other : Operation) : Prop :=
  (Handles ref db op ∧ Cancelling ref other) ∨ (Cancelling ref op ∧ Handles ref db other)

/-- Rows stay, with what tells whom a call is for. -/
structure Keeps (db db' : Database) : Prop where
  orders : Table.Keeps Order.publicId (db .orders) (db' .orders)
  deliveries : Table.Keeps Delivery.orderId (db .deliveries) (db' .deliveries)
  grows : db.Grows db'

theorem Keeps.refl (db : Database) : Keeps db db := ⟨.refl _ _, .refl _ _, .refl _⟩

theorem Keeps.trans {db db' db'' : Database} (first : Keeps db db')
    (second : Keeps db' db'') : Keeps db db'' :=
  ⟨first.orders.trans second.orders, first.deliveries.trans second.deliveries,
    first.grows.trans second.grows⟩

theorem map_of_keeps {α ρ : Type} [Keyed ρ RowKey UniqueKey] {f : ρ → α} {table table' : Table ρ}
    (keeps : Table.Keeps f table table') {k : RowKey} {a : α}
    (known : (table.get k).map f = some a) : (table'.get k).map f = some a := by
  obtain ⟨row, found, isValue⟩ := Option.map_eq_some_iff.1 known
  obtain ⟨row', found', same⟩ := keeps _ row found
  rw [found', Option.map_some, same, isValue]

theorem Handles.later {ref : Ref} {db db' : Database} {op : Operation} (handles : Handles ref db op)
    (keeps : Keeps db db') : Handles ref db' op := by
  cases op with
  | updateDeliveryStatus => exact map_of_keeps keeps.deliveries handles
  | assign | reassign | tryAutoAssign => exact handles
  | _ => exact handles.elim

/-! ## The protocol -/

/-- The cancellations that have written the status and not yet released the delivery. -/
abbrev Releasing := Set ℕ

abbrev Situation := Sit RowOf Shared Operation Releasing

structure Consistent (ref : Ref) (s : Situation) : Prop where
  named : (orderOf s.db ref.id).map Order.publicId = some ref.publicId
  orderly : Orderly s.db ref.id
  released : Cancelled s.db ref.id → NoneActive s.db ref.id ∨ ∃ i, i ∈ s.ghost
  releasing : ∀ i ∈ s.ghost, ∃ op, s.live i = some op ∧ Cancelling ref op

/-- What a call may do. -/
structure Does (ref : Ref) (i : ℕ) (op : Operation)
    (w w' : World RowOf Shared Releasing) : Prop where
  keeps : Keeps w.db w'.db
  cancels : Cancelled w'.db ref.id → Cancelled w.db ref.id ∨ Cancelling ref op
  frozen : Cancelled w.db ref.id → Frozen ref.id w.db w'.db
  jobs : ¬ Handles ref w.db op → JobsFrom ref.id (w.db .deliveries) (w'.db .deliveries)
  others : ∀ j, j ≠ i → (j ∈ w'.ghost ↔ j ∈ w.ghost)

/-- What a call may count on. -/
structure Leaves (ref : Ref) (i : ℕ) (op : Operation)
    (w w' : World RowOf Shared Releasing) : Prop where
  keeps : Keeps w.db w'.db
  cancels : Handles ref w.db op → Cancelled w'.db ref.id → Cancelled w.db ref.id
  jobs : Cancelling ref op → JobsFrom ref.id (w.db .deliveries) (w'.db .deliveries)
  own : i ∈ w'.ghost ↔ i ∈ w.ghost

def protocol (ref : Ref) : Protocol (K := RowKey) RowOf Shared Err Operation Reply Releasing where
  inv := Consistent ref
  guar := Does ref
  rely := Leaves ref
  post _ _ _ _ := True
  allow _ _ _ := True
  faulty op := ¬ Cancelling ref op
  admits := Listed
  apart db op other := ¬ Clash ref db op other

section Protocol

variable {ref : Ref} {i : ℕ} {op : Operation} {s : Situation}

theorem Does.refl (w : World RowOf Shared Releasing) : Does ref i op w w :=
  ⟨.refl _, .inl, fun _ => .refl _ _, fun _ => .refl _ _, fun _ _ => .rfl⟩

theorem Leaves.refl (w : World RowOf Shared Releasing) : Leaves ref i op w w :=
  ⟨.refl _, fun _ => id, fun _ => .refl _ _, .rfl⟩

theorem Leaves.trans {w w' w'' : World RowOf Shared Releasing} (first : Leaves ref i op w w')
    (second : Leaves ref i op w' w'') : Leaves ref i op w w'' :=
  ⟨first.keeps.trans second.keeps,
    fun handles => first.cancels handles ∘ second.cancels (handles.later first.keeps),
    fun cancelling => (first.jobs cancelling).trans (second.jobs cancelling),
      second.own.trans first.own⟩

theorem not_releasing_of_spare (holds : Consistent ref s)
    (spare : s.live i = none) : i ∉ s.ghost := by
  intro releasing
  obtain ⟨op, isLive, _⟩ := holds.releasing i releasing
  cases spare.symm.trans isLive

theorem not_releasing (holds : Consistent ref s) (self : s.live i = some op)
    (never : ¬ Cancelling ref op) : i ∉ s.ghost := by
  intro releasing
  obtain ⟨op', isLive, cancelling⟩ := holds.releasing i releasing
  cases self.symm.trans isLive
  exact never cancelling

/-- A call that has nothing to release may end. -/
theorem Consistent.retire (holds : Consistent ref s) (done : i ∉ s.ghost) :
    Consistent ref (s.retire i) := by
  refine ⟨holds.named, holds.orderly, holds.released, fun j releasing => ?_⟩
  have other : j ≠ i := fun same => done (same ▸ releasing)
  obtain ⟨op, isLive, cancelling⟩ := holds.releasing j releasing
  exact ⟨op, (Sit.retire_live_ne s other).trans isLive, cancelling⟩

theorem Consistent.spawn (holds : Consistent ref s) (spare : s.live i = none) :
    Consistent ref (s.spawn i op) := by
  refine ⟨holds.named, holds.orderly, holds.released, fun j releasing => ?_⟩
  have other : j ≠ i := fun same => not_releasing_of_spare holds spare (same ▸ releasing)
  obtain ⟨op', isLive, cancelling⟩ := holds.releasing j releasing
  exact ⟨op', (Sit.spawn_live_ne s op other).trans isLive, cancelling⟩

theorem lawful (ref : Ref) : (protocol ref).Lawful where
  guar_refl _ _ := .refl
  rely_refl _ _ := .refl
  rely_trans := .trans
  rely_of_guar different apart _ _ guar :=
    ⟨guar.keeps, fun handles isCancelled =>
      (guar.cancels isCancelled).resolve_right fun cancelling => apart (.inl ⟨handles, cancelling⟩),
      fun cancelling => guar.jobs fun handles => apart (.inr ⟨cancelling, handles⟩),
        guar.others _ different⟩
  post_stable _ _ _ _ := trivial
  inv_spawn holds spare _ := holds.spawn spare
  inv_crash faulty self holds := ⟨holds.retire (not_releasing holds self faulty), trivial⟩

theorem free (ref : Ref) (i : ℕ) (op : Operation) : (protocol ref).Free i op Later :=
  fun _ _ _ holds => ⟨⟨holds.named, holds.orderly, holds.released, holds.releasing⟩,
    ⟨.refl _, .inl, fun _ => .refl _ _, fun _ => .refl _ _, fun _ _ => .rfl⟩,
    ⟨.refl _, fun _ => id, fun _ => .refl _ _, .rfl⟩⟩

theorem persists (ref : Ref) (i : ℕ) (op : Operation) : Persists (protocol ref) i op :=
  fun _ _ t k rely there => rely.keeps.grows.rows t k there

end Protocol

/-! ## The calls of the delivery side -/

section Calls

variable {ref : Ref} {i : ℕ} {op : Operation} {s : Situation} {db' : Database}

/-- The end of a call of the delivery side. -/
abbrev ends (ref : Ref) (i : ℕ) (op : Operation) (s : Situation) : Prop :=
  Consistent ref s ∧ s.live i = some op

/-- A commit that keeps the invariant, and what it does. -/
structure Kept (ref : Ref) (i : ℕ) (op : Operation) (s : Situation) (db' : Database) : Prop where
  inv : Consistent ref ⟨⟨db', s.side, s.ghost⟩, s.live⟩
  does : Does ref i op s.toWorld ⟨db', s.side, s.ghost⟩

theorem Kept.after {Φ : Situation → Prop} (kept : Kept ref i op s db')
    (next : ∀ s', (protocol ref).Env i op ⟨none, []⟩ ⟨⟨db', s.side, s.ghost⟩, s.live⟩ s' → Φ s') :
    (protocol ref).After i op s ⟨none, []⟩ db' s.side Φ :=
  ⟨s.ghost, kept.inv, kept.does, next⟩

theorem kept_of_frozen (holds : Consistent ref s) (frozen : Frozen ref.id s.db db')
    (keeps : Keeps s.db db') : Kept ref i op s db' := by
  refine ⟨⟨map_of_keeps keeps.orders holds.named, fun order found d' member ofOrder => ?_,
    fun isCancelled => ?_, holds.releasing⟩,
    keeps, fun isCancelled => .inl (frozen.status.symm.trans isCancelled), fun _ => frozen, fun _ =>
      frozen.jobs, fun _ _ => .rfl⟩
  · have isStatus : statusIn s.db ref.id = some order.status := by
      rw [← frozen.status, statusIn, found]
      rfl
    obtain ⟨order', found', sameStatus⟩ := Option.map_eq_some_iff.1 isStatus
    obtain ⟨d, member', _, ofOrder', _⟩ := frozen.jobs d' member ofOrder
    rw [← sameStatus]
    exact holds.orderly order' found' d member' ofOrder'
  · exact (holds.released (frozen.status.symm.trans isCancelled)).imp_left fun none =>
      noneActive_of_jobs none frozen.jobs

/-- A call for the order, as long as it is not cancelled. -/
theorem kept_of_handled (holds : Consistent ref s) (handles : Handles ref s.db op)
    (isOpen : ¬ Cancelled s.db ref.id) (staysOpen : ¬ Cancelled db' ref.id)
    (orderly : Orderly db' ref.id) (keeps : Keeps s.db db') : Kept ref i op s db' :=
  ⟨⟨map_of_keeps keeps.orders holds.named, orderly, fun isCancelled => absurd isCancelled staysOpen,
    holds.releasing⟩,
    keeps, fun isCancelled => absurd isCancelled staysOpen, fun isCancelled =>
      absurd isCancelled isOpen,
    fun not => absurd handles not, fun _ _ => .rfl⟩

/-- The call may write order `n`: if it is the order of the protocol, the call is known to serve it
and it is not cancelled. -/
def Safe (ref : Ref) (op : Operation) (db : Database) (n : ℕ) : Prop :=
  n = ref.id → Handles ref db op ∧ ¬ Cancelled db ref.id

theorem Safe.later {w w' : World RowOf Shared Releasing} {n : ℕ} (safe : Safe ref op w.db n)
    (leaves : Leaves ref i op w w') : Safe ref op w'.db n := by
  intro same
  obtain ⟨handles, isOpen⟩ := safe same
  exact ⟨handles.later leaves.keeps, fun isCancelled => isOpen (leaves.cancels handles isCancelled)⟩

theorem Safe.committed {n : ℕ} (safe : Safe ref op s.db n) (kept : Kept ref i op s db')
    (never : ¬ Cancelling ref op) : Safe ref op db' n := by
  intro same
  obtain ⟨handles, isOpen⟩ := safe same
  exact ⟨handles.later kept.does.keeps,
    fun isCancelled => (kept.does.cancels isCancelled).elim isOpen never⟩

/-- Nobody who serves a delivery of the order meets a cancellation of it. -/
theorem noneActive_of_handled (holds : Consistent ref s) (self : s.live i = some op)
    (beside : (protocol ref).Alongside i op s) (handles : Handles ref s.db op)
    (isCancelled : Cancelled s.db ref.id) : NoneActive s.db ref.id := by
  refine (holds.released isCancelled).resolve_right ?_
  rintro ⟨j, releasing⟩
  obtain ⟨other, isLive, cancelling⟩ := holds.releasing j releasing
  have different : j ≠ i := by
    rintro rfl
    cases self.symm.trans isLive
    cases op <;> first | exact handles.elim | exact cancelling.elim
  exact beside j other different isLive (.inl ⟨handles, cancelling⟩)

theorem safe_of_active (holds : Consistent ref s) (self : s.live i = some op)
    (beside : (protocol ref).Alongside i op s) {d : Delivery}
    (found : deliveryOf s.db d.id = some d) (isActive : d.status.active = true)
    (handles : d.orderId = ref.id → Handles ref s.db op) : Safe ref op s.db d.orderId := by
  intro ofOrder
  refine ⟨handles ofOrder, fun isCancelled => ?_⟩
  have none := noneActive_of_handled holds self beside (handles ofOrder) isCancelled d
    (Table.get_mem found) ofOrder
  exact Bool.false_ne_true (none.symm.trans isActive)

/-- The status that is written, if the order is the one of the protocol. -/
theorem statusIn_of_modify {db : Database} {n : ℕ} {row : Order} {f : Order → Order}
    {status : OrderStatus} (found : orderOf db n = some row)
    (orders : db' .orders = (db .orders).modify (RowKey.id n) f)
    (identity : key (f row) = key row ∧ uniques (f row) = uniques row)
    (isStatus : (f row).status = status) : statusIn db' n = some status := by
  rw [statusIn, orderOf, orders, Table.get_modify_self found identity.1 identity.2,
    Option.map_some, isStatus]

theorem orderly_of_status {db : Database} {n : ℕ} {status : OrderStatus}
    (isStatus : statusIn db n = some status)
    (isDispatched : dispatched status = true) : Orderly db n := by
  intro order found _ _ _
  rw [statusIn, found, Option.map_some, Option.some.injEq] at isStatus
  rw [isStatus]
  exact isDispatched

theorem not_cancelled_of_status {db : Database} {n : ℕ} {status : OrderStatus}
    (isStatus : statusIn db n = some status) (other : status ≠ .cancelled) : ¬ Cancelled db n :=
  fun isCancelled => other (Option.some.inj (isStatus.symm.trans isCancelled))

/-- The order moves on by a call that serves it. -/
theorem kept_of_status {status : OrderStatus} (holds : Consistent ref s)
    (safe : Safe ref op s.db ref.id) (isStatus : statusIn db' ref.id = some status)
    (isDispatched : dispatched status = true) (other : status ≠ .cancelled)
    (keeps : Keeps s.db db') : Kept ref i op s db' :=
  kept_of_handled holds (safe rfl).1 (safe rfl).2 (not_cancelled_of_status isStatus other)
    (orderly_of_status isStatus isDispatched) keeps

theorem kept_of_assignment {delivery : Delivery} {assignedAt updatedAt : ℕ} {row : Order}
    (holds : Consistent ref s) (safe : Safe ref op s.db delivery.orderId)
    (found : orderOf s.db delivery.orderId = some row) :
    Kept ref i op s (s.db.applyAll (assignmentWrites delivery assignedAt updatedAt)) := by
  have orders := assignmentWrites_orders s.db delivery assignedAt updatedAt
  have keeps : Keeps s.db (s.db.applyAll (assignmentWrites delivery assignedAt updatedAt)) := by
    refine ⟨?_, ?_, Db.grows_applyAll _ _⟩
    · rw [orders]
      exact .modify (g := Order.withAgent delivery.agentId assignedAt updatedAt) (fun _ => rfl) _ _
    · rw [assignmentWrites_deliveries]
      exact .insert _ _ _
  by_cases same : delivery.orderId = ref.id
  · have isStatus :
        statusIn (s.db.applyAll (assignmentWrites delivery assignedAt updatedAt)) delivery.orderId =
        some .assigned :=
      statusIn_of_modify found orders ⟨rfl, rfl⟩ rfl
    rw [same] at isStatus safe
    exact kept_of_status holds safe isStatus rfl (by decide) keeps
  · exact kept_of_frozen holds (.of_assignment same) keeps

theorem kept_of_deliveryStatus {row : Delivery} {status : DeliveryStatus} {stamp : Option ℕ}
    (holds : Consistent ref s) (safe : Safe ref op s.db row.orderId)
    (found : deliveryOf s.db row.id = some row) :
    Kept ref i op s (s.db.apply
      (.update TableName.deliveries (RowKey.id row.id) (Delivery.withStatus status stamp))) := by
  have sameOrders := Ledger.orderId_withStatus status stamp
  have others := fun (t : TableName) (other : t ≠ .deliveries) =>
    Db.apply_update_ne s.db (RowKey.id row.id) (Delivery.withStatus status stamp) other
  have deliveries := Db.apply_update_self s.db TableName.deliveries (RowKey.id row.id)
    (Delivery.withStatus status stamp)
  have keeps : Keeps s.db (s.db.apply
      (.update TableName.deliveries (RowKey.id row.id) (Delivery.withStatus status stamp))) := by
    refine ⟨?_, ?_, Db.grows_apply _ _⟩
    · rw [others _ (by decide)]
      exact .refl _ _
    · rw [deliveries]
      exact .modify sameOrders _ _
  by_cases same : row.orderId = ref.id
  · obtain ⟨handles, isOpen⟩ := safe same
    refine kept_of_handled holds handles isOpen ?_ ?_ keeps
    · rwa [Cancelled, statusIn, orderOf, others _ (by decide)]
    · intro order isOrder d' member ofOrder
      rw [orderOf, others _ (by decide)] at isOrder
      rw [deliveries] at member
      obtain ⟨d, member', rfl⟩ := Table.mem_modify.1 member
      exact holds.orderly order isOrder d member'
        ((Table.rewrite_congr sameOrders d).symm.trans ofOrder)
  · refine kept_of_frozen holds (.of_deliveries ?_ others) keeps
    rw [deliveries]
    refine .modify sameOrders fun d member sameId ofOrder => ?_
    have isRow : d = row := Table.eq_of_key member (Table.get_mem found) (congrArg RowKey.id sameId)
    exact absurd (isRow ▸ ofOrder) same

theorem kept_of_pick {n updatedAt : ℕ} {stamp : Option ℕ} {row : Order} (holds : Consistent ref s)
    (safe : Safe ref op s.db n) (found : orderOf s.db n = some row) :
    Kept ref i op s (s.db.apply
      (.update TableName.orders (RowKey.id n) (Order.withStatus .picked updatedAt stamp))) := by
  have others := fun (t : TableName) (other : t ≠ .orders) =>
    Db.apply_update_ne s.db (RowKey.id n) (Order.withStatus .picked updatedAt stamp) other
  have orders := Db.apply_update_self s.db TableName.orders (RowKey.id n)
    (Order.withStatus .picked updatedAt stamp)
  have keeps : Keeps s.db (s.db.apply
      (.update TableName.orders (RowKey.id n) (Order.withStatus .picked updatedAt stamp))) := by
    refine ⟨?_, ?_, Db.grows_apply _ _⟩
    · rw [orders]
      exact .modify (g := Order.withStatus .picked updatedAt stamp) (fun _ => rfl) _ _
    · rw [others _ (by decide)]
      exact .refl _ _
  by_cases same : n = ref.id
  · have isStatus : statusIn (s.db.apply
        (.update TableName.orders (RowKey.id n) (Order.withStatus .picked updatedAt stamp))) n =
        some .picked := statusIn_of_modify found orders (Order.identity_withStatus _ _ _ _) rfl
    subst same
    exact kept_of_status holds safe isStatus rfl (by decide) keeps
  · exact kept_of_frozen holds (.of_order same orders fun t other _ => others t other) keeps

theorem kept_of_settled {order row : Order} {branch : CoreBranch} {delivery : Delivery}
    {commission agentEarning : ℤ} {V : Database → Prop} (holds : Consistent ref s)
    (safe : Safe ref op s.db order.id)
    (settled : Settled order branch delivery commission agentEarning V s.db db')
    (found : orderOf s.db order.id = some row) : Kept ref i op s db' := by
  obtain ⟨stamp, deliveries⟩ := settled.deliveries
  obtain ⟨updatedAt, updatedAt', stamp', orders⟩ := settled.orders
  have keeps : Keeps s.db db' := by
    refine ⟨?_, ?_, settled.grows⟩
    · rw [orders]
      exact .trans (.modify (g := Order.withCommission commission updatedAt) (fun _ => rfl) _ _)
        (.modify (g := Order.withStatus .delivered updatedAt' stamp') (fun _ => rfl) _ _)
    · rw [deliveries]
      exact .trans (.modify (Ledger.orderId_withStatus .delivered stamp) _ _)
        (.modify (g := Delivery.withEarning agentEarning) (fun _ => rfl) _ _)
  by_cases same : order.id = ref.id
  · have isStatus : statusIn db' order.id = some .delivered := by
      rw [statusIn, orderOf, orders,
        Table.get_modify_self (Table.get_modify_self found rfl rfl) rfl rfl]
      rfl
    rw [same] at isStatus safe
    exact kept_of_status holds safe isStatus rfl (by decide) keeps
  · exact kept_of_frozen holds (.of_settled settled same) keeps

/-! ### The requests -/

theorem publicId_of_read {order : Order} (holds : Consistent ref s)
    (read : orderOf s.db order.id = some order) (same : order.id = ref.id) :
    order.publicId = ref.publicId := by
  have named := holds.named
  rw [← same, read, Option.map_some, Option.some.injEq] at named
  exact named

theorem mayAssign {n : ℕ} {seen : List (Sigma RowOf)} (there : (orderOf s.db n).isSome = true)
    (safe : Safe ref op s.db n) : MayAssign (protocol ref) i op seen n (ends ref i op) s where
  there s' env := persists ref i op s s' _ _ env.drift.1 there
  stops s' env := ⟨env.inv, env.self⟩
  commits delivery assignedAt updatedAt row s' env _ sameOrder assigning := by
    have safe' := safe.later env.drift.1
    rw [← sameOrder] at safe'
    exact (kept_of_assignment env.inv safe' assigning.order).after fun s'' env' =>
      ⟨env'.inv, env'.self⟩

theorem not_cancelled_of_ready {order : Order} (read : orderOf s.db order.id = some order)
    (isReady : order.status = .ready) (same : order.id = ref.id) : ¬ Cancelled s.db ref.id := by
  have isStatus : statusIn s.db ref.id = some .ready := by
    rw [← same, statusIn, read, Option.map_some, isReady]
  exact not_cancelled_of_status isStatus (by decide)

theorem wp_assignCall {env : Config} {core : Core} {publicId : ℕ} {agentId : Option ℕ}
    (holds : Consistent ref s) :
    (protocol ref).wp i (.assign core publicId agentId) (assign env core publicId agentId)
      (fun _ _ s' => ends ref i (.assign core publicId agentId) s') .start s := by
  refine wp_assign (lawful ref) (free ref i _) holds (fun _ env => ⟨env.inv, env.self⟩)
    fun order isPublic read isReady => ?_
  refine mayAssign (Option.isSome_iff_exists.2 ⟨order, read⟩) fun same =>
    ⟨?_, not_cancelled_of_ready read isReady same⟩
  exact isPublic.symm.trans (publicId_of_read holds read same)

theorem wp_tryAutoAssignCall {env : Config} {core : Core} {orderId : ℕ} (holds : Consistent ref s) :
    (protocol ref).wp i (.tryAutoAssign core orderId) (tryAutoAssign env core orderId)
      (fun _ _ s' => ends ref i (.tryAutoAssign core orderId) s') .start s := by
  refine wp_tryAutoAssign (lawful ref) (free ref i _) holds (fun _ env => ⟨env.inv, env.self⟩)
    fun order sameId read isReady => ?_
  refine mayAssign (Option.isSome_iff_exists.2 ⟨order, read⟩) fun same =>
    ⟨?_, not_cancelled_of_ready read isReady same⟩
  exact sameId.symm.trans same

theorem orderId_later {w w' : World RowOf Shared Releasing} {d row : Delivery}
    (leaves : Leaves ref i op w w') (read : deliveryOf w.db d.id = some d)
    (found : deliveryOf w'.db d.id = some row) : row.id = d.id ∧ row.orderId = d.orderId := by
  obtain ⟨row', found', sameOrder⟩ := leaves.keeps.deliveries _ d read
  cases found'.symm.trans found
  exact ⟨RowKey.id.inj (Table.get_key found), sameOrder⟩

/-- A delivery under way is given its next status by a call that has found it so. -/
theorem after_status {d row : Delivery} {status : DeliveryStatus} {stamp : Option ℕ}
    {seen : List (Sigma RowOf)} {s₁ : Situation} {change : Delivery → Delivery}
    {Φ : Situation → Prop} (safe : Safe ref op s.db d.orderId)
    (read : deliveryOf s.db d.id = some d)
    (updating : Updating (protocol ref) i op seen d.id change row s s₁)
    (never : ¬ Cancelling ref op)
    (next : ∀ s₂, Safe ref op s₂.db d.orderId →
      (∀ n, (orderOf s₁.db n).isSome = true → (orderOf s₂.db n).isSome = true) →
      (protocol ref).Env i op ⟨none, []⟩ s₂ s₂ → Φ s₂) :
    (protocol ref).After i op s₁ ⟨none, []⟩
      (s₁.db.apply (.update TableName.deliveries (RowKey.id d.id)
        (Delivery.withStatus status stamp))) s₁.side Φ := by
  obtain ⟨sameId, sameOrder⟩ := orderId_later updating.env.drift.1 read updating.found
  have found := updating.found
  have safe₁ := safe.later updating.env.drift.1
  rw [← sameId] at found ⊢
  rw [← sameOrder] at safe₁
  have kept : Kept ref i op s₁ (s₁.db.apply
      (.update TableName.deliveries (RowKey.id row.id) (Delivery.withStatus status stamp))) :=
    kept_of_deliveryStatus updating.env.inv safe₁ found
  refine kept.after fun s₂ env₂ =>
    next s₂ ?_ (fun n there => ?_) (.refl (lawful ref) env₂.inv env₂.self)
  · rw [← sameOrder]
    exact (safe₁.committed kept never).later env₂.drift.1
  · exact env₂.drift.1.keeps.grows.rows _ _ (kept.does.keeps.grows.rows _ _ there)

theorem wp_reassignCall {env : Config} {core : Core} {publicId : ℕ} (holds : Consistent ref s) :
    (protocol ref).wp i (.reassign core publicId) (reassign env core publicId)
      (fun _ _ s' => ends ref i (.reassign core publicId) s') .start s := by
  refine wp_reassign (lawful ref) (free ref i _) (persists ref i _) holds
    (fun _ env => ⟨env.inv, env.self⟩) ?_
  intro order active row stamp s₀ s₁ isPublic isOrder until₀ beside read ofOrder isActive updating
  have safe : Safe ref (.reassign core publicId) s₀.db active.orderId := by
    refine safe_of_active until₀.inv until₀.self beside read isActive fun same => ?_
    exact isPublic.symm.trans (publicId_of_read holds isOrder (ofOrder.symm.trans same))
  refine after_status safe read updating id fun s₂ safe₂ there env₂ seen => ?_
  rw [← ofOrder]
  refine mayAssign (there _ ?_) safe₂
  rw [ofOrder]
  exact (until₀.trans (lawful ref) updating.env).drift.1.keeps.grows.rows .orders _
    (Option.isSome_iff_exists.2 ⟨order, isOrder⟩)

theorem mayPick {n : ℕ} (safe : Safe ref op s.db n) :
    MayPick (protocol ref) i op n (ends ref i op) s where
  stops _ env := ⟨env.inv, env.self⟩
  commits _ _ _ _ env _ found _ :=
    (kept_of_pick env.inv (safe.later env.drift.1) found).after fun _ env' => ⟨env'.inv, env'.self⟩

theorem wp_updateStatusCall {env : Config} {core : Core} {deliveryId actorUserId : ℕ}
    {target : DeliveryStatus} (holds : Consistent ref s)
    (self : s.live i = some (.updateDeliveryStatus core deliveryId actorUserId target)) :
    (protocol ref).wp i (.updateDeliveryStatus core deliveryId actorUserId target)
      (updateStatus env core deliveryId actorUserId target)
      (fun _ _ s' => ends ref i (.updateDeliveryStatus core deliveryId actorUserId target) s')
        .start s := by
  -- An active delivery of the order shows that it has not been cancelled and released.
  have safe : ∀ d, d.id = deliveryId →
      (protocol ref).Alongside i (.updateDeliveryStatus core deliveryId actorUserId target) s →
      deliveryOf s.db d.id = some d → d.status.active = true →
      Safe ref (.updateDeliveryStatus core deliveryId actorUserId target) s.db d.orderId := by
    intro d isId beside read isActive
    refine safe_of_active holds self beside read isActive fun same => ?_
    show (deliveryOf s.db deliveryId).map Delivery.orderId = some ref.id
    rw [← isId, read, Option.map_some, same]
  refine wp_deliveryUpdateStatus (lawful ref) (free ref i _) (persists ref i _) holds
    (fun _ env => ⟨env.inv, env.self⟩) ?_ ?_
  · intro d order branch row s₀ s₁ db' isId beside read isPicked until₀ until₁ _ settling
    have safe₁ :=
      ((safe d isId beside read (by rw [isPicked]; rfl)).later until₀.drift.1).later until₁.drift.1
    have isOrder : order.id = d.orderId := RowKey.id.inj (Table.get_key settling.read)
    rw [← isOrder] at safe₁
    obtain ⟨orderRow, found, _⟩ := until₁.drift.1.keeps.orders _ _ settling.read
    rw [← isOrder] at found
    exact (kept_of_settled until₁.inv safe₁ settling.settled found).after fun s₂ env₂ =>
      ⟨env₂.inv, env₂.self⟩
  · intro d row stamp s₁ isId beside read _ isLegal _ updating
    have isActive : d.status.active = true := by
      revert isLegal
      cases d.status <;> cases target <;> decide
    refine after_status (safe d isId beside read isActive) read updating id
      fun s₂ safe₂ there env₂ => ?_
    cases target with
    | picked => exact mayPick safe₂
    | rejected =>
      exact ⟨fun s₃ seen env₃ there₃ => mayAssign there₃ (safe₂.later env₃.drift.1),
        fun s₃ env₃ => ⟨env₃.inv, env₃.self⟩⟩
    | _ => exact fun s₃ env₃ => ⟨env₃.inv, env₃.self⟩

/-! ### The request to cancel -/

def releases (rows : List Delivery) : List SqlWrite :=
  rows.map fun row => .update TableName.deliveries (RowKey.id row.id) Delivery.cancel

theorem cancels_releases (rows : List Delivery) : ∀ w ∈ releases rows, Cancels w := by
  intro w member
  obtain ⟨row, _, rfl⟩ := List.mem_map.1 member
  exact ⟨_, rfl⟩

theorem jobs_of_releases {db : Database} (n : ℕ) (rows : List Delivery) :
    JobsFrom n (db .deliveries) (db.applyAll (releases rows) .deliveries) := by
  induction rows generalizing db with
  | nil => exact .refl _ _
  | cons row rows inductionHypothesis =>
    rw [releases, List.map_cons, Db.applyAll_cons]
    refine .trans ?_ inductionHypothesis
    rw [Db.apply_update_self]
    exact .modify orderId_cancel fun _ _ _ _ isActive => by cases isActive

/-- A row that is released is over. -/
theorem inactive_of_releases {db : Database} {rows : List Delivery} {row d : Delivery}
    (member : row ∈ rows) (found : deliveryOf (db.applyAll (releases rows)) row.id = some d) :
    d.status.active = false := by
  induction rows generalizing db with
  | nil => cases member
  | cons first rows inductionHypothesis =>
    rw [releases, List.map_cons, Db.applyAll_cons] at found
    by_cases among : row ∈ rows
    · exact inductionHypothesis among found
    · obtain rfl := (List.mem_cons.1 member).resolve_right among
      by_contra isActive
      rw [Bool.not_eq_false] at isActive
      obtain ⟨a, memberA, sameId, _, wasActive⟩ :=
        activeFrom_of_cancels (cancels_releases rows) d (Table.get_mem found) isActive
      rw [Db.apply_update_self] at memberA
      obtain ⟨b, _, rfl⟩ := Table.mem_modify.1 memberA
      have isKey : key b = RowKey.id row.id := by
        rw [← Table.key_rewrite (RowKey.id row.id) Delivery.cancel b]
        exact (congrArg RowKey.id sameId).trans (Table.get_key found)
      have cancelled : Table.keepIdentity b b.cancel = b.cancel := Table.keepIdentity_eq rfl rfl
      rw [Table.rewrite_of_eq isKey, cancelled] at wasActive
      cases wasActive

theorem noneActive_of_releases {db : Database} {n : ℕ} {rows : List Delivery}
    (all : ∀ a ∈ (db .deliveries).rows, Delivery.orderId a = n → a.status.active = true →
      a ∈ rows) :
    NoneActive (db.applyAll (releases rows)) n := by
  intro d member ofOrder
  by_contra isActive
  rw [Bool.not_eq_false] at isActive
  obtain ⟨a, memberA, sameId, sameOrder, wasActive⟩ :=
    activeFrom_of_cancels (cancels_releases rows) d member isActive
  have found : deliveryOf (db.applyAll (releases rows)) a.id = some d := by
    rw [sameId]
    exact Table.get_of_mem member
  have isOver := inactive_of_releases (all a memberA (sameOrder.trans ofOrder) wasActive) found
  exact Bool.false_ne_true (isOver.symm.trans isActive)

/-- The statement that cancels the deliveries under way takes those that were so when it began and
still are. -/
theorem wp_cancelActiveDeliveryForOrder {orderId : ℕ} {seen : List (Sigma RowOf)}
    {Q : Except Err (Option ℕ) → Local RowOf RowKey → Situation → Prop} (holds : Consistent ref s)
    (cancels : ∀ freed (rows : List Delivery) s₁ seen', (protocol ref).Env i op ⟨none, []⟩ s s₁ →
      (∀ row ∈ rows, row ∈ (s₁.db .deliveries).rows ∧ Delivery.orderId row = orderId) →
      (∀ d ∈ (s.db .deliveries).rows, Delivery.orderId d = orderId → d.status.active = true →
      ∀ row, deliveryOf s₁.db d.id = some row → row.orderId = orderId →
      row.status.active = true → row ∈ rows) → (protocol ref).After i op s₁ ⟨none, seen'⟩
      (s₁.db.applyAll (releases rows)) s₁.side (Q (.ok freed) ⟨none, seen'⟩))
    (fails : ¬ Cancelling ref op → ∀ s', (protocol ref).Env i op ⟨none, []⟩ s s' →
      Q (.error .infrastructure) ⟨none, seen⟩ s') :
    (protocol ref).wp i op (cancelActiveDeliveryForOrder .pool orderId) Q ⟨none, seen⟩ s := by
  refine wp_do (wp_select (lawful ref) (fun isTrx => by cases isTrx) holds (fun s₁ env₁ => ?_)
    fun faulty s₁ env₁ => ?_)
  swap
  · exact fails faulty s₁ (env₁.released [])
  refine wp_do (wp_exec_conn (fun _ effect member _ => ?_) fun may s₂ env₂ => ?_)
  · cases List.mem_singleton.1 member
    refine cancels _ _ s₁ _ (env₁.released []) (fun row among => ?_)
      fun d inTable ofOrder isActive row found ofOrder' isActive' => ?_
    · obtain ⟨k, _, isRow⟩ := List.mem_filterMap.1 among
      obtain ⟨found, isMatch⟩ := Option.filter_eq_some_iff.1 isRow
      simp only [Bool.and_eq_true, decide_eq_true_eq] at isMatch
      exact ⟨Table.get_mem found, isMatch.1⟩
    · refine List.mem_filterMap.2 ⟨RowKey.id d.id, ?_, ?_⟩
      · exact List.mem_map.2 ⟨d, List.mem_filter.2 ⟨inTable, by simp [ofOrder, isActive]⟩, rfl⟩
      · exact Option.filter_eq_some_iff.2 ⟨found, by simp [ofOrder', isActive']⟩
  · rcases may with constraint | faulty
    · cases List.mem_singleton.1 constraint
    · exact fails faulty s₂ ((env₁.trans (lawful ref) env₂).released [])

/-- The end of a cancellation: it has nothing to release, or has released it. -/
abbrev finished (ref : Ref) (i : ℕ) (s : Situation) : Prop := Consistent ref s ∧ i ∉ s.ghost

theorem finished_later {l : Local RowOf RowKey} {s' : Situation} (idle : i ∉ s.ghost)
    (env : (protocol ref).Env i op l s s') : finished ref i s' :=
  ⟨env.inv, fun releasing => idle (env.drift.1.own.1 releasing)⟩

/-- The release of an order: of another one, or of this one by the cancellation that owes it. -/
theorem wp_release {order : Order} {seen : List (Sigma RowOf)} (holds : Consistent ref s)
    (owes : i ∈ s.ghost → order.status = .assigned ∧ order.id = ref.id ∧ Cancelling ref op) :
    (protocol ref).wp i op (OrderService.releaseDelivery order .cancelled)
      (fun _ _ s' => finished ref i s') ⟨none, seen⟩ s := by
  unfold OrderService.releaseDelivery
  split
  next isRelease =>
    refine wp_do (wp_cancelActiveDeliveryForOrder holds (fun freed rows s₁ seen' env₁ _ all => ?_)
      fun faulty s' env => ?_)
    · have others : ∀ t, t ≠ .deliveries → s₁.db.applyAll (releases rows) t = s₁.db t :=
        fun _ other => others_of_cancels (cancels_releases rows) other
      have keeps : Keeps s₁.db (s₁.db.applyAll (releases rows)) := by
        refine ⟨?_, (same_of_cancels orderId_cancel (cancels_releases rows)).keeps,
          Db.grows_applyAll _ _⟩
        rw [others _ (by decide)]
        exact .refl _ _
      have kept : Kept ref i op s₁ (s₁.db.applyAll (releases rows)) :=
        kept_of_frozen env₁.inv (.of_deliveries (jobs_of_releases _ rows) others) keeps
      -- Since the cancellation no delivery is new, so the release reaches every active one.
      have released : i ∈ s₁.ghost → NoneActive (s₁.db.applyAll (releases rows)) ref.id := by
        intro releasing
        obtain ⟨_, same, cancelling⟩ := owes (env₁.drift.1.own.1 releasing)
        refine noneActive_of_releases fun a member ofOrder isActive => ?_
        obtain ⟨d, before, sameId, ofOrder', wasActive⟩ :=
          env₁.drift.1.jobs cancelling a member ofOrder
        refine all d before (ofOrder'.trans same.symm) (wasActive isActive) a ?_
          (ofOrder.trans same.symm) isActive
        rw [sameId]
        exact Table.get_of_mem member
      -- The call owes no release any more.
      refine ⟨s₁.ghost \ {i}, ⟨kept.inv.named, kept.inv.orderly, fun isCancelled => ?_,
        fun j releasing => kept.inv.releasing j releasing.1⟩,
        ⟨kept.does.keeps, kept.does.cancels, kept.does.frozen, kept.does.jobs, fun j other => ?_⟩,
        fun s₂ env₂ => ?_⟩
      · by_cases own : i ∈ s₁.ghost
        · exact .inl (released own)
        · rcases kept.inv.released isCancelled with none | ⟨j, releasing⟩
          · exact .inl none
          · exact .inr ⟨j, releasing, fun same => own (same ▸ releasing)⟩
      · exact ⟨fun releasing => releasing.1, fun releasing => ⟨releasing, other⟩⟩
      · have idle : i ∉ s₂.ghost := fun releasing => (env₂.drift.1.own.1 releasing).2 rfl
        show (protocol ref).wp i op (freeNamed freed) _ _ _
        unfold freeNamed
        split
        next => exact ⟨env₂.inv, idle⟩
        next agentId _ =>
          exact wp_orElse (lawful ref) (free ref i op) (quiet_redis _) env₂.inv env₂.self
            fun _ s' env => finished_later idle env
    · exact finished_later (fun releasing => faulty (owes releasing).2.2) env
  next isKept => exact ⟨holds, fun releasing => isKept ⟨rfl, (owes releasing).1⟩⟩

theorem publicId_withStatus (status : OrderStatus) (updatedAt : ℕ) (stamp : Option ℕ)
    (row : Order) : (Order.withStatus status updatedAt stamp row).publicId = row.publicId := by
  cases status <;> rfl

theorem keeps_of_written {db : Database} {order : Order} {target : OrderStatus}
    (written : StatusWritten order target db db') : Keeps db db' := by
  obtain ⟨updatedAt, stamp, orders⟩ := written.orders
  refine ⟨?_, ?_, written.grows⟩
  · rw [orders]
    exact .modify (g := Order.withStatus target updatedAt stamp)
      (publicId_withStatus target updatedAt stamp) _ _
  · rw [written.others _ (by decide) (by decide)]
    exact .refl _ _

theorem does_of_cancelled {order row : Order} {ghost : Releasing} (cancelling : Cancelling ref op)
    (same : order.id = ref.id) (found : orderOf s.db order.id = some row)
    (written : StatusWritten order .cancelled s.db db')
    (others : ∀ j, j ≠ i → (j ∈ ghost ↔ j ∈ s.ghost)) :
    Does ref i op s.toWorld ⟨db', s.side, ghost⟩ ∧ Cancelled db' ref.id := by
  obtain ⟨updatedAt, stamp, orders⟩ := written.orders
  have isCancelled : Cancelled db' ref.id := by
    rw [← same]
    exact statusIn_of_modify found orders (Order.identity_withStatus _ _ _ _) rfl
  have deliveries : db' .deliveries = s.db .deliveries := written.others _ (by decide) (by decide)
  have jobs : JobsFrom ref.id (s.db .deliveries) (db' .deliveries) := by
    rw [deliveries]
    exact .refl _ _
  refine ⟨⟨keeps_of_written written, fun _ => .inr cancelling, fun before => ?_, fun _ => jobs,
    others⟩, isCancelled⟩
  exact .aside (isCancelled.trans before.symm) jobs (written.others _ (by decide) (by decide))
    (written.others _ (by decide) (by decide))
      (written.others _ (by decide) (by decide))

/-- An order that a request cancels has no delivery yet, or is assigned. -/
theorem undispatched_of_request {actor : RequestActor} {listed : OrderActor} {source : OrderStatus}
    (isActor : orderActor actor = some listed) (allowed : source.allows .cancelled listed = true)
    (unassigned : source ≠ .assigned) : dispatched source = false := by
  have others := (source_of_request isActor allowed).resolve_left fun assigned =>
      unassigned assigned.1
  revert others allowed
  cases source <;> cases listed <;> decide

theorem wp_cancelCall {core : Core} {publicId : ℕ} {actor : RequestActor} (holds : Consistent ref s)
    (idle : i ∉ s.ghost) :
    (protocol ref).wp i (.updateOrderStatus core publicId .cancelled actor)
      (OrderService.updateStatus core publicId .cancelled actor)
      (fun _ _ s' => finished ref i s') .start s := by
  refine wp_updateOrderStatus (lawful ref) (free ref i _) holds ?_ fun _ _ s' env =>
    finished_later idle env
  intro result order listed row s₁ seen' db' isPublic read env₁ _ isActor allowed writing
  have idle₁ := (finished_later idle env₁).2
  have returns : ∀ {s₂ : Situation}, (i ∈ s₂.ghost → order.status = .assigned ∧ order.id = ref.id ∧
      Cancelling ref (.updateOrderStatus core publicId .cancelled actor)) → Consistent ref s₂ →
      (protocol ref).wp i (.updateOrderStatus core publicId .cancelled actor)
        (OrderService.releaseDelivery order .cancelled)
        ((protocol ref).bindPost i (.updateOrderStatus core publicId .cancelled actor)
        (fun _ => pure result)
          fun _ _ s' => finished ref i s') ⟨none, seen'⟩ s₂ := by
    intro s₂ owes holds₂
    refine wp_mono (fun outcome _ _ ends => ?_) (wp_release holds₂ owes)
    cases outcome <;> exact ends
  by_cases same : order.id = ref.id
  swap
  · obtain ⟨updatedAt, stamp, orders⟩ := writing.written.orders
    have kept : Kept ref i (.updateOrderStatus core publicId .cancelled actor) s₁ db' :=
      kept_of_frozen env₁.inv
      (.of_order same orders writing.written.others) (keeps_of_written writing.written)
    refine ⟨s₁.ghost, kept.inv, kept.does, fun s₂ env₂ => returns (fun releasing => ?_) env₂.inv⟩
    exact absurd (env₂.drift.1.own.1 releasing) idle₁
  have cancelling : Cancelling ref (.updateOrderStatus core publicId .cancelled actor) :=
    ⟨isPublic.symm.trans (publicId_of_read holds read same), rfl⟩
  by_cases isAssigned : order.status = .assigned
  · -- From here on the delivery has to be released by this call.
    have others : ∀ j, j ≠ i → (j ∈ insert i s₁.ghost ↔ j ∈ s₁.ghost) :=
      fun j other => by simp [other]
    obtain ⟨does, isCancelled⟩ :=
      does_of_cancelled cancelling same writing.found writing.written others
    refine ⟨insert i s₁.ghost,
      ⟨map_of_keeps does.keeps.orders env₁.inv.named, orderly_of_status isCancelled rfl,
      fun _ => .inr ⟨i, Set.mem_insert _ _⟩, fun j releasing => ?_⟩, does,
        fun s₂ env₂ => returns (fun _ => ⟨isAssigned, same, cancelling⟩) env₂.inv⟩
    rcases releasing with rfl | before
    · exact ⟨_, env₁.self, cancelling⟩
    · exact env₁.inv.releasing j before
  · have others : ∀ j, j ≠ i → (j ∈ s₁.ghost ↔ j ∈ s₁.ghost) := fun _ _ => .rfl
    obtain ⟨does, isCancelled⟩ :=
      does_of_cancelled cancelling same writing.found writing.written others
    have isUndispatched := undispatched_of_request isActor allowed isAssigned
    have none : NoneActive db' ref.id := by
      intro d member ofOrder
      rw [writing.written.others _ (by decide) (by decide)] at member
      obtain ⟨d₀, member₀, _, ofOrder₀, _⟩ := env₁.drift.1.jobs cancelling d member ofOrder
      have isDispatched := holds.orderly order (same ▸ read) d₀ member₀ ofOrder₀
      exact absurd (isUndispatched.symm.trans isDispatched) (by decide)
    refine ⟨s₁.ghost, ⟨map_of_keeps does.keeps.orders env₁.inv.named,
      orderly_of_status isCancelled rfl, fun _ => .inl none,
      env₁.inv.releasing⟩, does, fun s₂ env₂ => returns (fun releasing => ?_) env₂.inv⟩
    exact absurd (env₂.drift.1.own.1 releasing) idle₁

/-- A call that cancels nothing here owes no release. -/
theorem finished_of_ends (never : ¬ Cancelling ref op)
    (ended : ends ref i op s) : finished ref i s :=
  ⟨ended.1, not_releasing ended.1 ended.2 never⟩

end Calls

theorem verified (ref : Ref) (env : Config) : (protocol ref).Verified (code env) := by
  intro i op s s' holds spare admitted _ started
  have idle : i ∉ s'.ghost :=
    fun releasing => not_releasing_of_spare holds spare (started.drift.1.own.1 releasing)
  refine wp_mono (fun _ _ s'' (ended : finished ref i s'') => ⟨ended.1.retire ended.2, trivial⟩) ?_
  cases op with
  | assign core publicId agentId =>
    exact wp_returning (wp_mono (fun _ _ _ => finished_of_ends id) (wp_assignCall started.inv))
  | tryAutoAssign core orderId =>
    exact wp_returning
      (wp_mono (fun _ _ _ => finished_of_ends id) (wp_tryAutoAssignCall started.inv))
  | reassign core publicId =>
    exact wp_returning (wp_mono (fun _ _ _ => finished_of_ends id) (wp_reassignCall started.inv))
  | updateDeliveryStatus core deliveryId actorUserId target =>
    exact wp_map (wp_mono (fun _ _ _ => finished_of_ends id)
      (wp_updateStatusCall started.inv started.self))
  | updateOrderStatus core publicId target actor =>
    obtain rfl : target = .cancelled := admitted
    exact wp_map (wp_cancelCall started.inv idle)
  | _ => exact admitted.elim

/-! ## Runs -/

/-- No call that serves a delivery of the order is under way together with a request to cancel
it. -/
def Separate (ref : Ref) (p : Region) : Event Operation → Prop
  | .spawn op => ∀ j other, p.live j = some other → ¬ Clash ref p.db op other
  | .step _ _ =>
    ∀ j k op other, p.live j = some op → p.live k = some other → ¬ Clash ref p.db op other
  | .crash _ => True

/-- No request to cancel the order fails on its way. -/
def Unbroken (ref : Ref) (p : Region) : Event Operation → Prop
  | .spawn _ => True
  | .step i choice => choice = .fault → ∀ call, p.calls[i]? = some call → ¬ Cancelling ref call.op
  | .crash i => ∀ call, p.calls[i]? = some call → ¬ Cancelling ref call.op

/-- Cancellations and the delivery side, where those for the order keep out of each other's way. -/
structure TakesTurns (ref : Ref) (p : Region) (e : Event Operation) : Prop where
  serves : Serves Listed e
  separate : Separate ref p e
  unbroken : Unbroken ref p e

theorem Clash.symm {ref : Ref} {db : Database} {op other : Operation}
    (clash : Clash ref db op other) : Clash ref db other op :=
  (Or.symm clash).imp And.symm And.symm

theorem admissible {ref : Ref} (p : Region) (e : Event Operation) (inTurn : TakesTurns ref p e) :
    (protocol ref).Admissible p e := by
  obtain ⟨serves, separate, unbroken⟩ := inTurn
  cases e with
  | spawn op =>
    exact ⟨serves, fun j other going =>
      ⟨separate j other going, fun clash => separate j other going clash.symm⟩⟩
  | step i choice =>
    exact ⟨fun j k op other _ going going' => separate j k op other going going', fun call found =>
      ⟨fun isFault => unbroken isFault call found, fun _ _ => trivial⟩⟩
  | crash i => exact unbroken

/-- Once cancelled, the order stays so: no event brings it another status, another delivery or a
settlement, and when the calls have ended none of its deliveries is under way. -/
structure StaysCancelled (env : Config) (orderId : ℕ) (allowed : Region → Event Operation → Prop)
    (start : Region) : Prop where
  frozen : ∀ p p' e, Pool.Reach (code env) allowed start p → allowed p e →
    p.next (code env) e = some p' →
    Cancelled p.db orderId → Frozen orderId p.db p'.db
  remains : ∀ p q, Pool.Reach (code env) allowed start p → Pool.Reach (code env) allowed p q →
    Cancelled p.db orderId →
    Cancelled q.db orderId ∧ JobsFrom orderId (p.db .deliveries) (q.db .deliveries) ∧
    (q.db .transactions).count (isCommissionFor orderId) =
      (p.db .transactions).count (isCommissionFor orderId) ∧
    (q.db .agentEarnings).count (isEarningFor orderId) =
      (p.db .agentEarnings).count (isEarningFor orderId)
  released : ∀ p, Pool.Reach (code env) allowed start p → p.Idle = true → Cancelled p.db orderId →
    NoneActive p.db orderId

theorem frozen_of_sound {ref : Ref} {env : Config} {p p' : Region} {e : Event Operation}
    {ghost : Releasing} (sound : (protocol ref).Sound p ghost) (inTurn : TakesTurns ref p e)
    (moves : p.next (code env) e = some p') (isCancelled : Cancelled p.db ref.id) :
    Frozen ref.id p.db p'.db := by
  have conforms :=
    (sound_next (lawful ref) (verified ref env) sound (admissible p e inTurn) moves).2
  cases e with
  | step i choice =>
    obtain ⟨_, _, _, _, _, does⟩ := conforms
    exact does.frozen isCancelled
  | spawn | crash =>
    rw [conforms.1]
    exact .refl _ _

/-- When the calls have ended, no cancellation has to release anything. -/
theorem released_of_idle {ref : Ref} {p : Region} {ghost : Releasing}
    (sound : (protocol ref).Sound p ghost) (idle : p.Idle = true)
    (isCancelled : Cancelled p.db ref.id) : NoneActive p.db ref.id := by
  refine (sound.inv.released isCancelled).resolve_right ?_
  rintro ⟨i, releasing⟩
  obtain ⟨op, isLive, _⟩ := sound.inv.releasing i releasing
  obtain ⟨call, found, running, _⟩ := Pool.live_eq_some isLive
  rw [Pool.ended_of_idle idle found] at running
  cases running

theorem cancelled_orders_stay_cancelled (env : Config) (db : Database) (x : Shared) (order : Order)
    (found : orderOf db order.id = some order) (orderly : Orderly db order.id)
    (released : Cancelled db order.id → NoneActive db order.id) :
    StaysCancelled env order.id (TakesTurns ⟨order.id, order.publicId⟩) (Pool.quiet db x) := by
  have consistent : Consistent ⟨order.id, order.publicId⟩ ⟨⟨db, x, ∅⟩, fun _ => none⟩ :=
    ⟨congrArg (Option.map Order.publicId) found, orderly,
      fun isCancelled => .inl (released isCancelled), fun _ none => none.elim⟩
  have sound : ∀ p,
      Pool.Reach (code env) (TakesTurns ⟨order.id, order.publicId⟩) (Pool.quiet db x) p →
      ∃ ghost, (protocol ⟨order.id, order.publicId⟩).Sound p ghost :=
    fun p reached =>
      sound_of_reach (lawful _) (verified _ env) admissible (sound_quiet ∅ consistent) reached
  have frozen : ∀ p p' e,
      Pool.Reach (code env) (TakesTurns ⟨order.id, order.publicId⟩) (Pool.quiet db x) p →
      TakesTurns ⟨order.id, order.publicId⟩ p e → p.next (code env) e = some p' →
      Cancelled p.db order.id →
      Frozen order.id p.db p'.db := by
    intro p p' e reached inTurn moves isCancelled
    obtain ⟨ghost, isSound⟩ := sound p reached
    exact frozen_of_sound isSound inTurn moves isCancelled
  refine ⟨frozen, fun p q reached further isCancelled => ?_, fun p reached idle isCancelled => ?_⟩
  · -- Each event leaves the order as it is, and so do all of them.
    induction further with
    | refl => exact ⟨isCancelled, .refl _ _, rfl, rfl⟩
    | step before inTurn moves inductionHypothesis =>
      obtain ⟨still, jobs, commissions, earnings⟩ := inductionHypothesis
      have next := frozen _ _ _ (reached.trans before) inTurn moves still
      exact ⟨next.status.trans still, jobs.trans next.jobs, next.commissions.trans commissions,
        next.earnings.trans earnings⟩
  · obtain ⟨ghost, isSound⟩ := sound p reached
    exact released_of_idle isSound idle isCancelled

instance : DecidablePred Listed
  | .updateOrderStatus _ _ target _ => inferInstanceAs (Decidable (target = .cancelled))
  | .assign .. | .tryAutoAssign .. | .reassign .. | .updateDeliveryStatus .. =>
    inferInstanceAs (Decidable True)
  | .placeOrder .. | .initPayment .. | .refund .. | .webhook .. | .online .. | .offline ..
  | .ping .. | .recordPayout .. | .sleep .. =>
    inferInstanceAs (Decidable False)

/-- No call gets in the way of another while only one is under way. -/
theorem takesTurns_of_consecutive {ref : Ref} {p : Region} {e : Event Operation}
    (alone : Consecutive Listed p e) : TakesTurns ref p e := by
  refine ⟨alone.serves, ?_, ?_⟩
  · cases e with
    | spawn op =>
      intro j other running
      obtain ⟨call, found, going, _⟩ := Pool.live_eq_some running
      cases (Pool.ended_of_idle alone.1 found).symm.trans going
    | step i choice =>
      intro j k op other first second
      obtain rfl := alone.eq_of_live first
      obtain rfl := alone.eq_of_live second
      cases first.symm.trans second
      cases op <;> rintro (⟨handles, cancels⟩ | ⟨cancels, handles⟩) <;>
        first | exact handles.elim | exact cancels.elim
    | crash i => trivial
  · cases e with
    | spawn op => trivial
    | step i choice => exact fun isFault => absurd isFault alone.1
    | crash i => exact alone.elim

/-- The order is assigned and cancelled; then the agent accepts it in vain. -/
def cancelledOnTheWay : List (Event Operation) × List (Event Operation) :=
  (.spawn (.assign Sample.core 100 (some 2)) :: List.replicate 11 (Sample.act 0) ++
    .spawn (.updateOrderStatus Sample.core 100 .cancelled Sample.admin) ::
      List.replicate 12 (Sample.act 1),
    [.spawn (.updateDeliveryStatus Sample.core 10 2 .accepted), Sample.act 2])

theorem order_cancelled_on_the_way_stays_cancelled :
    ∃ p q, Pool.Reach (code Sample.env) (TakesTurns ⟨1, 100⟩)
      (Pool.quiet (Sample.db .ready) Sample.shared) p ∧
      Pool.Reach (code Sample.env) (TakesTurns ⟨1, 100⟩) p q ∧ q.calls.length = 3 ∧ q.Idle = true ∧
      (p.db .deliveries).rows.map (fun row : Delivery => row.orderId) = [1] ∧ NoneActive p.db 1 ∧
      Cancelled q.db 1 := by
  have played :
      ((Pool.play (code Sample.env) (fun p e => decide (Consecutive Listed p e)) cancelledOnTheWay.1
      (Pool.quiet (Sample.db .ready) Sample.shared)).bind fun p =>
        (Pool.play (code Sample.env) (fun p e => decide (Consecutive Listed p e))
          cancelledOnTheWay.2 p).map fun q =>
          (p.Idle, statusIn p.db 1, (p.db .deliveries).rows.map (fun row : Delivery => row.orderId),
            q.calls.length, q.Idle)) =
      some (true, some .cancelled, [1], 3, true) := by decide +kernel
  obtain ⟨p, firstRun, rest⟩ := Option.bind_eq_some_iff.1 played
  obtain ⟨q, secondRun, isEnd⟩ := Option.map_eq_some_iff.1 rest
  simp only [Prod.mk.injEq] at isEnd
  obtain ⟨idle, isCancelled, deliveries, calls, idle'⟩ := isEnd
  have first : Pool.Reach (code Sample.env) (TakesTurns ⟨1, 100⟩)
      (Pool.quiet (Sample.db .ready) Sample.shared) p :=
    Pool.reach_of_play
      (fun _ _ checked => takesTurns_of_consecutive (of_decide_eq_true checked)) firstRun
  have second : Pool.Reach (code Sample.env) (TakesTurns ⟨1, 100⟩) p q :=
    Pool.reach_of_play
      (fun _ _ checked => takesTurns_of_consecutive (of_decide_eq_true checked)) secondRun
  have stays := cancelled_orders_stay_cancelled Sample.env (Sample.db .ready) Sample.shared
    (Sample.order .ready) rfl
    (fun _ _ _ none => absurd none List.not_mem_nil) fun _ _ none => absurd none List.not_mem_nil
  exact ⟨p, q, first, second, calls, idle', deliveries, stays.released p first idle isCancelled,
    (stays.remains p q first second isCancelled).1⟩

/-! ### A cancellation that has read too early -/

/-- Requests to cancel orders and the calls of the delivery side, none of which fails. -/
def Unfailing (_ : Region) (e : Event Operation) : Prop := Serves Listed e ∧ Faultless e

instance (p : Region) (e : Event Operation) : Decidable (Unfailing p e) :=
  inferInstanceAs (Decidable (_ ∧ _))

/-- The restaurant cancels the order, which it has found ready; before it writes, the order is
assigned. -/
def cancelledTooLate : List (Event Operation) :=
  [.spawn (.updateOrderStatus Sample.core 100 .cancelled Sample.owner),
    .spawn (.assign Sample.core 100 (some 2)), Sample.act 0] ++
  List.replicate 11 (Sample.act 1) ++ List.replicate 8 (Sample.act 0)

theorem stale_cancellation_keeps_its_delivery :
    ¬ StaysCancelled Sample.env 1 Unfailing (Pool.quiet (Sample.db .ready) Sample.shared) := by
  intro stays
  have ends : (Pool.play (code Sample.env) (fun p e => decide (Unfailing p e)) cancelledTooLate
      (Pool.quiet (Sample.db .ready) Sample.shared)).map (fun p => (p.Idle, statusIn p.db 1,
        (p.db .deliveries).rows.map fun row : Delivery => (row.orderId, row.status))) =
      some (true, some .cancelled, [(1, .assigned)]) := by decide +kernel
  obtain ⟨p, played, isEnd⟩ := Option.map_eq_some_iff.1 ends
  simp only [Prod.mk.injEq] at isEnd
  obtain ⟨idle, isCancelled, deliveries⟩ := isEnd
  obtain ⟨d, _, isRows, isDelivery, _⟩ := List.map_eq_cons_iff.1 deliveries
  simp only [Prod.mk.injEq] at isDelivery
  have none :=
    stays.released p (Pool.reach_of_play (fun _ _ => of_decide_eq_true) played) idle isCancelled d
    (by simp [isRows]) isDelivery.1
  rw [isDelivery.2] at none
  cases none

end SwiftBite.Verified.Cancellations
