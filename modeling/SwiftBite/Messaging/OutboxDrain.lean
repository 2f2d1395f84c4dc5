import SwiftBite.Repository.Order
import SwiftBite.Store.Machine

/-! # The outbox drain

`drainOutboxForRegion`: a transaction locks a batch of undispatched events, publishes them one
by one, and marks what it could publish.  Any number of drains run at once, each statement of
theirs and each publish is a step of its own, and other transactions insert events meanwhile.
-/

set_option autoImplicit false

namespace SwiftBite

open Store

deriving instance DecidableEq for OutboxEvent

namespace OutboxDrain

/-- What is published for an event. -/
structure Message where
  routingKey : String
  eventId : ℕ
  eventType : String
  occurredAt : ℕ
  payload : OutboxPayload
  deriving DecidableEq

def message (event : OutboxEvent) : Message :=
  ⟨event.eventType, event.eventId, event.eventType, event.createdAt, event.payload⟩

/-- An `UPDATE` of a drain, which its commit makes visible. -/
inductive Write where
  | failed (id : ℕ) (error : String)
  | dispatched (ids : List ℕ) (now : ℕ)

def failedRow (error : String) (row : OutboxEvent) : OutboxEvent :=
  { row with attempts := row.attempts + 1, lastError := some error }

def dispatchedRow (now : ℕ) (row : OutboxEvent) : OutboxEvent :=
  { row with dispatchedAt := some now }

/-- What `markOutboxEventFailed` and `markOutboxEventsDispatched` do to the table. -/
def Write.apply (table : Table OutboxEvent) : Write → Table OutboxEvent
  | .failed id error => table.modify (.id id) (failedRow error)
  | .dispatched ids now =>
    ids.foldl (fun table id => table.modify (.id id) (dispatchedRow now)) table

/-- Where a drain is. -/
inductive Stage where
  | idle
  /-- In the `SELECT .. FOR UPDATE SKIP LOCKED`: the rows of its snapshot that it has yet to look
  at. -/
  | claiming (candidates : List OutboxEvent)
  /-- In the loop: the events left, and whether the broker has taken the message of the first. -/
  | publishing (rest : List OutboxEvent) (accepted : Bool)
  /-- In the `catch` of the loop. -/
  | failing (event : OutboxEvent) (error : String) (rest : List OutboxEvent)
  | committing
  | committed
  | rolledBack
  | crashed
  deriving DecidableEq

/-- The drain's transaction is open, and holds its locks. -/
def Stage.live : Stage → Bool
  | .claiming _ | .publishing _ _ | .failing _ _ _ | .committing => true
  | .idle | .committed | .rolledBack | .crashed => false

/-- The drain ended without its commit being answered. -/
def Stage.broken : Stage → Bool
  | .rolledBack | .crashed => true
  | _ => false

structure Drain where
  stage : Stage
  /-- The rows that the `SELECT` has locked so far. -/
  batch : List OutboxEvent
  dispatchedIds : List ℕ
  writes : List Write

/-- One `publish` that resolved. -/
structure Publish where
  drain : ℕ
  event : OutboxEvent
  deriving DecidableEq

structure State where
  /-- `events_outbox`, as it is committed. -/
  table : Table OutboxEvent
  drain : ℕ → Drain
  /-- Which drain has a row locked. -/
  locks : ℕ → Option ℕ
  /-- The messages that the broker has taken. -/
  broker : List Message
  /-- The publishes that resolved, in their order. -/
  published : List Publish

def State.start : State := ⟨.empty, fun _ => ⟨.idle, [], [], []⟩, fun _ => none, [], []⟩

inductive Action where
  /-- `BEGIN`, and the snapshot of the `SELECT`. -/
  | claim (candidates : List OutboxEvent)
  /-- The `SELECT` looks at its next row. -/
  | lockNext
  /-- The `SELECT` returns its rows. -/
  | claimed
  | accept
  | resolve
  | reject (error : String)
  | markFailed
  | markDispatched (now : ℕ)
  | commit
  /-- `COMMIT` fails or is never answered, whether or not it took effect. -/
  | commitFails (applied : Bool)
  /-- A statement fails. -/
  | rollback
  | crash
  deriving DecidableEq

inductive Event where
  /-- A transaction that began at `now` commits the events it inserted. -/
  | insert (now : ℕ) (inputs : List (ℕ × OutboxEventInput))
  | drain (d : ℕ) (action : Action)

def undispatched (table : Table OutboxEvent) : List OutboxEvent :=
  table.rows.filter fun row => row.dispatchedAt.isNone

/-- The inserts of one transaction; `none` when one of them breaks a unique index. -/
def insertAll (now : ℕ) :
    List (ℕ × OutboxEventInput) → Table OutboxEvent → Option (Table OutboxEvent)
  | [], table => some table
  | (id, data) :: inputs, table =>
    if table.conflicts (data.row id now) then none
    else insertAll now inputs (table.insert (data.row id now))

section

variable (batchSize : ℕ) (s : State)

def State.withDrain (d : ℕ) (drain : Drain) : State :=
  { s with drain := Function.update s.drain d drain }

def State.moved (d : ℕ) (stage : Stage) : State := s.withDrain d { s.drain d with stage := stage }

/-- The transaction of a drain is over. -/
def State.ended (d : ℕ) (stage : Stage) : State :=
  { s.moved d stage with locks := fun id => if s.locks id = some d then none else s.locks id }

def State.applied (d : ℕ) : State :=
  { s with table := (s.drain d).writes.foldl Write.apply s.table }

/-- The `SELECT` looks at a row: it skips what another transaction has locked, and what is gone
from its condition since the snapshot. -/
def State.look (d : ℕ) (candidate : OutboxEvent) (rest : List OutboxEvent) : State :=
  if (s.locks candidate.id).isSome then s.moved d (.claiming rest)
  else
    match s.table.get (.id candidate.id) with
    | none => s.moved d (.claiming rest)
    | some row =>
      if row.dispatchedAt.isSome then s.moved d (.claiming rest)
      else
        { s.withDrain d
            { s.drain d with stage := .claiming rest, batch := (s.drain d).batch ++ [row] } with
          locks := Function.update s.locks candidate.id (some d) }

/-- What an action of a drain does; `none` when it cannot happen. -/
def act (d : ℕ) (action : Action) : Option State :=
  match action, (s.drain d).stage with
  | .claim candidates, .idle =>
    -- `ORDER BY created_at`: rows of one instant come in any order.
    if candidates.Perm (undispatched s.table) ∧
        candidates.Pairwise (fun a b => a.createdAt ≤ b.createdAt) then
      some (s.moved d (.claiming candidates))
    else none
  | .lockNext, .claiming (candidate :: rest) =>
    if (s.drain d).batch.length < batchSize then some (s.look d candidate rest) else none
  | .claimed, .claiming candidates =>
    if candidates = [] ∨ batchSize ≤ (s.drain d).batch.length then
      some (s.moved d (.publishing (s.drain d).batch false))
    else none
  | .accept, .publishing (event :: rest) _ =>
    some { s.moved d (.publishing (event :: rest) true) with broker := s.broker ++ [message event] }
  | .resolve, .publishing (event :: rest) true =>
    some
      { s.withDrain d
          { s.drain d with
            stage := .publishing rest false,
            dispatchedIds := (s.drain d).dispatchedIds ++ [event.id] } with
        published := s.published ++ [⟨d, event⟩] }
  | .reject error, .publishing (event :: rest) _ => some (s.moved d (.failing event error rest))
  -- The loop goes on with the next event, and the failed one stays undispatched.
  | .markFailed, .failing event error rest =>
    some (s.withDrain d
      { s.drain d with
        stage := .publishing rest false,
        writes := (s.drain d).writes ++ [.failed event.id error] })
  | .markDispatched now, .publishing [] _ =>
    some (s.withDrain d
      { s.drain d with
        stage := .committing,
        writes := (s.drain d).writes ++ [.dispatched (s.drain d).dispatchedIds now] })
  -- What the loop published is out already, whatever becomes of the transaction.
  | .commit, .committing => some ((s.applied d).ended d .committed)
  | .commitFails true, .committing => some ((s.applied d).ended d .rolledBack)
  | .commitFails false, .committing => some (s.ended d .rolledBack)
  | .rollback, .claiming _ => some (s.ended d .rolledBack)
  | .rollback, .failing _ _ _ => some (s.ended d .rolledBack)
  | .rollback, .publishing [] _ => some (s.ended d .rolledBack)
  | .crash, stage => if stage.live then some (s.ended d .crashed) else none
  | _, _ => none

/-- What an event does; `none` when it cannot happen. -/
def next : Event → Option State
  | .insert now inputs => (insertAll now inputs s.table).map fun table => { s with table := table }
  | .drain d action => act batchSize s d action

/-- The states reached from the empty table by events that all meet a condition. -/
abbrev Reach (condition : State → Event → Prop) : State → Prop :=
  Store.Machine.Reach (next batchSize) condition .start

end

end OutboxDrain

end SwiftBite
