import SwiftBite.Service.OrderDetail
import SwiftBite.Verified.Runs
import SwiftBite.Verified.WriteCatalogue

/-! # What a run leaves on record

Two consequences of the catalogue of writes, for all runs.  No row goes away, the columns that an
insert fixes stay as they are, and a column that marks an event stays set.  And in every row the
columns that belong to a status agree with the status, so the history of an order shows the
status that the order is in.

The runs are those of the region's operations.  Archival, which deletes rows, and the drain of the
outbox, which counts its attempts in the rows of the events, are not part of them.
-/

set_option autoImplicit false

namespace SwiftBite.Verified.Records

open Store

/-! ## Rows endure -/

/-- The row without the columns that some statement changes: what its insert fixed for good. -/
def fixed : (t : TableName) → RowOf t → RowOf t
  | .orders, (row : Order) =>
    { row with
      status := .placed, commission := 0, deliveryAgentId := none, updatedAt := 0,
      acceptedAt := none, rejectedAt := none, readyAt := none, assignedAt := none,
      pickedAt := none, deliveredAt := none, cancelledAt := none }
  | .transactions, (row : Transaction) =>
    { row with
      providerReferenceId := none, status := .pending, isRefunded := false,
      refundedPaymentId := none, updatedAt := 0 }
  | .paymentSessions, (row : PaymentSession) => { row with status := .initialized, updatedAt := 0 }
  | .paymentWebhookEvents, (row : WebhookEvent) =>
    { row with processedAt := none, processError := none }
  | .deliveries, (row : Delivery) =>
    { row with
      status := .assigned, earningAmount := none, acceptedAt := none, rejectedAt := none,
      pickedAt := none, deliveredAt := none, reassignedAt := none }
  | .restaurantBalances, (row : RestaurantBalance) => { row with balance := 0, updatedAt := 0 }
  | .agentPresence, (row : AgentPresence) =>
    { row with
      isOnline := false, lastLat := none, lastLng := none, lastSeenAt := 0, updatedAt := 0 }
  | .orderItems, row => row
  | .agentEarnings, row => row
  | .eventsOutbox, row => row

/-- Which of the columns that mark an event are set. -/
def marks : (t : TableName) → RowOf t → List Bool
  | .orders, (row : Order) =>
    [row.deliveryAgentId.isSome, row.acceptedAt.isSome, row.rejectedAt.isSome, row.readyAt.isSome,
      row.assignedAt.isSome,
      row.pickedAt.isSome, row.deliveredAt.isSome, row.cancelledAt.isSome]
  | .transactions, (row : Transaction) => [row.isRefunded, row.refundedPaymentId.isSome]
  | .paymentWebhookEvents, (row : WebhookEvent) => [row.processedAt.isSome]
  | .deliveries, (row : Delivery) =>
    [row.earningAmount.isSome, row.acceptedAt.isSome, row.rejectedAt.isSome, row.pickedAt.isSome,
      row.deliveredAt.isSome,
      row.reassignedAt.isSome]
  | _, _ => []

/-- A mark that is set stays set. -/
def Stays (old new : Bool) : Prop := old = true → new = true

structure Follows (t : TableName) (old new : RowOf t) : Prop where
  fixed : fixed t new = fixed t old
  marks : List.Forall₂ Stays (marks t old) (marks t new)

theorem stays_refl (marks : List Bool) : List.Forall₂ Stays marks marks := by
  induction marks with
  | nil => exact .nil
  | cons mark marks inductionHypothesis => exact .cons id inductionHypothesis

theorem stays_trans {a b c : List Bool} (first : List.Forall₂ Stays a b)
    (second : List.Forall₂ Stays b c) : List.Forall₂ Stays a c := by
  induction first generalizing c with
  | nil => exact second
  | cons stays _ inductionHypothesis =>
    cases second with
    | cons stays' rest => exact .cons (fun set => stays' (stays set)) (inductionHypothesis rest)

theorem follows_refl (t : TableName) (row : RowOf t) : Follows t row row := ⟨rfl, stays_refl _⟩

theorem follows_trans (t : TableName) (a b c : RowOf t) (first : Follows t a b)
    (second : Follows t b c) : Follows t a c :=
  ⟨second.fixed.trans first.fixed, stays_trans first.marks second.marks⟩

/-- Columns aside, an update of a status sets the mark of the status and touches no other. -/
theorem follows_orderStatus {status : OrderStatus} {updatedAt : ℕ} {stamp : Option ℕ}
    (stamped : stamp.isSome = status.hasTimestampColumn) (row : Order) :
    Follows .orders row (Order.withStatus status updatedAt stamp row) := by
  cases status <;>
    exact ⟨rfl, by
      simp_all [marks, Order.withStatus, Order.stamp, Stays, OrderStatus.hasTimestampColumn]⟩

theorem follows_deliveryStatus {status : DeliveryStatus} {stamp : Option ℕ}
    (stamped : stamp.isSome = status.hasTimestampColumn) (row : Delivery) :
    Follows .deliveries row (Delivery.withStatus status stamp row) := by
  cases status <;>
    exact ⟨rfl, by
      simp_all [marks, Delivery.withStatus, Delivery.stamp, Stays,
        DeliveryStatus.hasTimestampColumn]⟩

theorem moves_of_catalogue {placed : CreateOrderInput → Prop} {settles pays : Prop} {w : SqlWrite}
    (listed : Catalogue placed settles pays w) : w.Moves Follows := by
  cases listed with
  | orderStatus k status updatedAt stamp other stamped => exact follows_orderStatus stamped
  | deliveryStatus k status stamp stamped => exact follows_deliveryStatus stamped
  | orderAgent => exact fun row => ⟨rfl, by simp [marks, Order.withAgent, Stays]⟩
  | orderCommission => exact fun row => ⟨rfl, stays_refl _⟩
  | transactionStatus => exact fun row => ⟨rfl, stays_refl _⟩
  | transactionReference => exact fun row => ⟨rfl, stays_refl _⟩
  | transactionRefunded => exact fun row => ⟨rfl, by simp [marks, Transaction.refunded, Stays]⟩
  | sessionStatus => exact fun row => ⟨rfl, stays_refl _⟩
  | webhookProcessed => exact fun row => ⟨rfl, by simp [marks, WebhookEvent.processed, Stays]⟩
  | deliveryCancelled => exact fun row => ⟨rfl, stays_refl _⟩
  | deliveryEarning => exact fun row => ⟨rfl, by simp [marks, Delivery.withEarning, Stays]⟩
  | balance => exact fun row => ⟨rfl, stays_refl _⟩
  | presencePut => exact fun row => ⟨rfl, stays_refl _⟩
  | presenceOffline => exact fun row => ⟨rfl, stays_refl _⟩
  | presenceMoved => exact fun row => ⟨rfl, stays_refl _⟩
  | _ => trivial

theorem follows_of_reach {env : Config} {allowed : Region → Event Operation → Prop} {db : Database}
    {x : Shared} {p p' : Region} (reached : Pool.Reach (code env) allowed (Pool.quiet db x) p)
    (later : Pool.Reach (code env) allowed p p') : Db.Evolves Follows p.db p'.db := by
  have harmless : ∀ p op, allowed p (.spawn op) →
      (code env op).Harmless (catalogued (fun _ => True) True True) :=
    fun _ op _ => WriteCatalogue.harmless_run env op (WriteCatalogue.places_any op)
      (fun _ => trivial) fun _ => trivial
  obtain ⟨audited, _⟩ := Pool.journal_of_reach harmless (Pool.audited_quiet db x) reached
  exact Pool.evolves_of_reach follows_refl follows_trans
    (fun _ => moves_of_catalogue) harmless audited later

/-- Between two states of a run of the operations, whatever interleaves, fails or crashes, no row
goes away, what its insert fixed stays as it is, and what was marked stays marked. -/
theorem rows_endure (env : Config) {allowed : Region → Event Operation → Prop} {db : Database}
    {x : Shared} {p p' : Region} (reached : Pool.Reach (code env) allowed (Pool.quiet db x) p)
    (later : Pool.Reach (code env) allowed p p') : Db.Evolves Follows p.db p'.db :=
  follows_of_reach reached later

/-- A cash order is placed, and an administrator accepts it. -/
def placing : List (Event Operation) :=
  .spawn (.placeOrder Sample.core 7 ⟨6, 8, .cod, [⟨1, 2⟩]⟩) :: List.replicate 13 (Sample.act 0)

def accepting : List (Event Operation) :=
  .spawn (.updateOrderStatus Sample.core 500 .accepted ⟨1, .systemAdmin, none, none, []⟩) ::
    List.replicate 9 (Sample.act 1)

theorem accepted_order_endures :
    ∃ p p',
      Pool.Reach (code Sample.env) (fun _ _ => True) (Pool.quiet Database.empty Sample.shared) p ∧
    Pool.Reach (code Sample.env) (fun _ _ => True) p p' ∧
    (p.db .orders).rows.map Order.status = [.placed] ∧
      (p'.db .orders).rows.map Order.status = [.accepted] ∧ Db.Evolves Follows p.db p'.db := by
  have first : (Pool.play (code Sample.env) (fun _ _ => true) placing
      (Pool.quiet Database.empty Sample.shared)).map
      (fun p => ((p.db .orders).rows.map Order.status,
      (Pool.play (code Sample.env) (fun _ _ => true) accepting p).map
        fun p' => (p'.db .orders).rows.map Order.status)) =
        some ([.placed], some [.accepted]) := by decide +kernel
  obtain ⟨p, placed, statuses⟩ := Option.map_eq_some_iff.1 first
  obtain ⟨isPlaced, then'⟩ := Prod.mk.inj statuses
  obtain ⟨p', accepted, isAccepted⟩ := Option.map_eq_some_iff.1 then'
  have reached := Pool.reach_of_play (fun _ _ _ => trivial) placed
  have later := Pool.reach_of_play (fun _ _ _ => trivial) accepted
  exact ⟨p, p', reached, later, isPlaced, isAccepted, rows_endure Sample.env reached later⟩

/-! ## Statuses and their columns -/

/-- The column that `tsColumn` names for the status of a delivery. -/
def stampOf (delivery : Delivery) : DeliveryStatus → Option ℕ
  | .accepted => delivery.acceptedAt
  | .rejected => delivery.rejectedAt
  | .picked => delivery.pickedAt
  | .delivered => delivery.deliveredAt
  | .reassigned => delivery.reassignedAt
  | .assigned | .cancelled => none

/-- The columns of a row agree with each other. -/
def Agrees : (t : TableName) → RowOf t → Prop
  | .orders, (row : Order) =>
    (row.status.hasTimestampColumn = true → (row.stampOf row.status).isSome = true) ∧
      row.assignedAt.isSome = row.deliveryAgentId.isSome
  | .transactions, (row : Transaction) => row.isRefunded = row.refundedPaymentId.isSome
  | .paymentWebhookEvents, (row : WebhookEvent) =>
    row.processError.isSome = true → row.processedAt.isSome = true
  | .deliveries, (row : Delivery) =>
    row.status.hasTimestampColumn = true → (stampOf row row.status).isSome = true
  | .eventsOutbox, (row : OutboxEvent) => row.dispatchedAt = none ∧ row.attempts = 0
  | _, _ => True

theorem agrees_orderStatus {status : OrderStatus} {updatedAt : ℕ} {stamp : Option ℕ}
    (other : status ≠ .assigned) (stamped : stamp.isSome = status.hasTimestampColumn) (row : Order)
    (agrees : Agrees .orders row) :
    Agrees .orders (Order.withStatus status updatedAt stamp row) := by
  cases status <;>
    simp_all [Agrees, Order.withStatus, Order.stamp, Order.stampOf, OrderStatus.hasTimestampColumn]

theorem agrees_deliveryStatus {status : DeliveryStatus} {stamp : Option ℕ}
    (stamped : stamp.isSome = status.hasTimestampColumn) (row : Delivery) :
    Agrees .deliveries (Delivery.withStatus status stamp row) := by
  cases status <;> simp_all [Agrees, Delivery.withStatus, Delivery.stamp, stampOf,
    DeliveryStatus.hasTimestampColumn]

theorem upholds_of_catalogue {placed : CreateOrderInput → Prop} {settles pays : Prop} {w : SqlWrite}
    (listed : Catalogue placed settles pays w) : w.Upholds Agrees := by
  cases listed with
  | order data id now fresh =>
    exact ⟨fun has => absurd (has.symm.trans fresh) (by decide), rfl⟩
  | transaction => exact rfl
  | webhookEvent => exact fun failed => absurd failed (by simp [RecordWebhookEventInput.row])
  | delivery =>
    exact fun has =>
      absurd has (by simp [CreateDeliveryInput.row, DeliveryStatus.hasTimestampColumn])
  | outboxEvent => exact ⟨rfl, rfl⟩
  | orderStatus k status updatedAt stamp other stamped => exact agrees_orderStatus other stamped
  | orderAgent => exact fun row _ => ⟨fun _ => rfl, rfl⟩
  | transactionRefunded => exact fun row _ => rfl
  | webhookProcessed => exact fun row _ _ => rfl
  | deliveryStatus k status stamp stamped => exact fun row _ => agrees_deliveryStatus stamped row
  | deliveryCancelled =>
    exact fun row _ has => absurd has (by simp [Delivery.cancel, DeliveryStatus.hasTimestampColumn])
  | orderCommission => exact fun row agrees => agrees
  | transactionStatus => exact fun row agrees => agrees
  | transactionReference => exact fun row agrees => agrees
  | deliveryEarning => exact fun row agrees => agrees
  | sessionStatus => exact fun row agrees => agrees
  | balance => exact fun row agrees => agrees
  | presencePut => exact fun row agrees => agrees
  | presenceOffline => exact fun row agrees => agrees
  | presenceMoved => exact fun row agrees => agrees
  | _ => trivial

theorem agrees_of_reach (env : Config) {allowed : Region → Event Operation → Prop} {x : Shared}
    {p : Region}
    (reached : Pool.Reach (code env) allowed (Pool.quiet Database.empty x) p) :
    Db.Upright Agrees p.db :=
  Pool.upright_of_reach (fun _ => upholds_of_catalogue)
    (fun _ op _ => WriteCatalogue.harmless_run env op (WriteCatalogue.places_any op)
    (fun _ => trivial) fun _ => trivial) (Pool.audited_quiet _ x) reached
    fun _ _ member => absurd member List.not_mem_nil

/-- In every state of every run the history of an order has an entry for the status that the order
is in, if that status has a timestamp column, and an entry for its assignment exactly when the
order names an agent. -/
theorem history_shows_status (env : Config) {allowed : Region → Event Operation → Prop} {x : Shared}
    {p : Region} (reached : Pool.Reach (code env) allowed (Pool.quiet Database.empty x) p)
    (order : Order) (member : order ∈ (p.db .orders).rows) :
    (order.status ≠ .pendingPayment → order.status ≠ .preparing →
      order.status ∈ (buildHistory order).map Prod.fst) ∧
      (OrderStatus.assigned ∈ (buildHistory order).map Prod.fst ↔
        order.deliveryAgentId.isSome = true) := by
  obtain ⟨stamped, named⟩ := agrees_of_reach env reached .orders order member
  refine ⟨fun unpaid preparing => ?_, ?_⟩
  · cases isStatus : order.status with
    | pendingPayment => exact absurd isStatus unpaid
    | preparing => exact absurd isStatus preparing
    | placed => exact List.mem_cons_self
    | _ =>
      rw [isStatus] at stamped
      obtain ⟨stamp, found⟩ := Option.isSome_iff_exists.1 (stamped rfl)
      exact List.mem_map_of_mem (mem_buildHistory found)
  · rw [← named]
    simp only [buildHistory, historyStatuses, List.map_cons, List.mem_cons, List.mem_map,
      List.mem_filterMap]
    constructor
    · rintro (isPlaced | ⟨entry, ⟨status, _, isEntry⟩, isAssigned⟩)
      · cases isPlaced
      · obtain ⟨stamp, found, rfl⟩ := Option.map_eq_some_iff.1 isEntry
        subst isAssigned
        exact Option.isSome_iff_exists.2 ⟨stamp, found⟩
    · intro set
      obtain ⟨stamp, found⟩ := Option.isSome_iff_exists.1 set
      exact .inr ⟨(.assigned, toMillis stamp),
        ⟨.assigned, by simp, by simp [Order.stampOf, found]⟩, rfl⟩

theorem history_of_accepted_order :
    ∃ p order,
      Pool.Reach (code Sample.env) (fun _ _ => True) (Pool.quiet Database.empty Sample.shared) p ∧
    order ∈ (p.db .orders).rows ∧ order.status = .accepted ∧
    OrderStatus.accepted ∈ (buildHistory order).map Prod.fst := by
  have run : (Pool.play (code Sample.env) (fun _ _ => true) (placing ++ accepting)
      (Pool.quiet Database.empty Sample.shared)).map
      (fun p => (p.db .orders).rows.map Order.status) = some [.accepted] := by decide +kernel
  obtain ⟨p, played, statuses⟩ := Option.map_eq_some_iff.1 run
  obtain ⟨order, _, rows, isStatus, _⟩ := List.map_eq_cons_iff.1 statuses
  have member : order ∈ (p.db .orders).rows := by
    rw [rows]
    exact List.mem_cons_self
  have reached := Pool.reach_of_play (fun _ _ _ => trivial) played
  have shown := (history_shows_status Sample.env reached order member).1
    (by simp [isStatus]) (by simp [isStatus])
  rw [isStatus] at shown
  exact ⟨p, order, reached, member, isStatus, shown⟩

end SwiftBite.Verified.Records
