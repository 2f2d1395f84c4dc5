import SwiftBite.Store.Atomic
import SwiftBite.Verified.Runs

/-! # The story of an order in the outbox

What the events of the outbox tell of the orders, in the order of their insertion, and what
one more event adds to it.
-/

set_option autoImplicit false

namespace SwiftBite.Verified

open Store Protocol Statement

/-- What an event tells of an order: its kind, and the status that it carries. -/
structure Telling where
  orderId : ℕ
  eventType : String
  status : OrderStatus
  deriving DecidableEq

/-- The status in the payload. -/
def statusIn : OutboxPayload → Option OrderStatus
  | .orderStatusChanged _ _ _ status .. | .orderPlaced _ _ _ _ _ _ _ _ status .. => some status
  | .paymentCaptured .. | .deliveryCompleted .. => none

/-- Only placements and changes of status tell of an order. -/
def tellingOf (aggregateType : String) (aggregateId : ℕ) (eventType : String)
    (payload : OutboxPayload) : Option Telling :=
  if aggregateType = "order" ∧ eventType ∈ ["order.placed", "order.status_changed"] then
    (statusIn payload).map fun status => ⟨aggregateId, eventType, status⟩
  else none

def story (outbox : Table OutboxEvent) : List Telling :=
  outbox.rows.filterMap fun event =>
    tellingOf event.aggregateType event.aggregateId event.eventType event.payload

/-- What an event that is inserted tells. -/
def tellingsOf (data : OutboxEventInput) : List Telling :=
  (tellingOf data.aggregateType data.aggregateId data.eventType data.payload).toList

/-- The last status that is told of an order. -/
def lastTold (orderId : ℕ) (tellings : List Telling) : Option OrderStatus :=
  ((tellings.filter fun telling => telling.orderId = orderId).getLast?).map Telling.status

section

variable {orderId : ℕ} {tellings : List Telling} {telling : Telling}

theorem lastTold_append_self (isOrder : telling.orderId = orderId) :
    lastTold orderId (tellings ++ [telling]) = some telling.status := by
  simp [lastTold, List.filter_append, isOrder]

theorem lastTold_append_other (other : telling.orderId ≠ orderId) :
    lastTold orderId (tellings ++ [telling]) = lastTold orderId tellings := by
  simp [lastTold, List.filter_append, other]

theorem story_insert {outbox : Table OutboxEvent} {data : OutboxEventInput} {id now : ℕ}
    (free : outbox.conflicts (data.row id now) = false) :
    story (outbox.insert (data.row id now)) = story outbox ++ tellingsOf data := by
  unfold story tellingsOf
  rw [Table.rows_insert free, List.filterMap_append]
  cases told : tellingOf data.aggregateType data.aggregateId data.eventType data.payload <;>
    simp [told, OutboxEventInput.row]

end

section

variable {allow : Local RowOf RowKey → Database → List SqlWrite → Prop} {V : Database → Prop}
  {db : Database}
  {began : ℕ} {ws : List SqlWrite} {seen : List (Sigma RowOf)}

/-- The event adds what it tells to the story. -/
theorem atomic_insertOutboxEvent {data : OutboxEventInput}
    {Q : Except Err Unit → Local RowOf RowKey → Prop}
    (next : ∀ outbox seen', (∀ w ∈ outbox, w.table = .eventsOutbox) →
      story (db.applyAll (ws ++ outbox) .eventsOutbox) = story (db.applyAll ws .eventsOutbox) ++
      tellingsOf data → Q (.ok ()) ⟨some ⟨began, ws ++ outbox⟩, seen'⟩)
    (fails : ∀ err l, Q (.error err) l) :
    (insertOutboxEvent .trx data).Atomic allow V db Q ⟨some ⟨began, ws⟩, seen⟩ := by
  refine .bind (.sure (fun x => ?_) (fails _ _))
  refine .bind (.insert (fun now before since _ free => ?_) (fails _ _))
  refine next [_] _ (by simp [Write.table]) ?_
  rw [Db.applyAll_concat_insert, story_insert free]

end

end SwiftBite.Verified
