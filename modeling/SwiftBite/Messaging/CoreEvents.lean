import SwiftBite.Data.Shared

/-! # The consumer of core events

`startCoreEventsConsumer` and `RabbitMQClient.consume`: a message is looked up in Redis,
handed to the handler of its event type, and acknowledged or dead-lettered in the end.  The
steps of different messages interleave, and the process may die between any two of them.
-/

set_option autoImplicit false

namespace SwiftBite

namespace CoreEvents

structure CoreEventEnvelope where
  eventId : String
  eventType : String
  payload : String
  deriving DecidableEq

/-- The event types that `registerCoreEventHandlers` registers. -/
def handlers : List String :=
  ["product.stock.changed", "product.price.changed", "branch.updated", "branch.deactivated",
    "restaurant.suspended"]

def dedupeKey (envelope : CoreEventEnvelope) : String := "core-events:dedupe:" ++ envelope.eventId

/-- How far a message is. -/
inductive Phase where
  | queued
  /-- The callback has the message, and has not looked it up yet. -/
  | received
  /-- The handler of its event type runs. -/
  | handling
  /-- The callback has returned: `ch.ack(msg)` comes next. -/
  | returned
  /-- The callback has thrown: `ch.nack(msg, false, false)` comes next. -/
  | thrown
  | acked
  /-- In the dead-letter queue. -/
  | dead
  deriving DecidableEq

/-- The broker has given the message out and has had no answer. -/
def Phase.unacknowledged : Phase → Bool
  | .received | .handling | .returned | .thrown => true
  | .queued | .acked | .dead => false

/-- What the client gets from `trySet`. -/
inductive SetAnswer where
  | answered
  /-- An error, whether or not Redis has run the command. -/
  | failed (applied : Bool)
  deriving DecidableEq

structure State where
  phase : ℕ → Phase
  /-- The dedupe keys in Redis. -/
  marks : String → Bool
  /-- A handler has completed for the event id. -/
  completed : String → Bool

def State.start : State := ⟨fun _ => .queued, fun _ => false, fun _ => false⟩

inductive Event where
  | deliver (i : ℕ)
  | trySet (i : ℕ) (answer : SetAnswer)
  /-- The handler returns, or throws. -/
  | handled (i : ℕ) (success : Bool)
  | ack (i : ℕ)
  | nack (i : ℕ)
  /-- The process that has the message dies, and the broker queues the message again. -/
  | crash (i : ℕ)
  /-- A dead letter is put back into the queue. -/
  | replay (i : ℕ)
  /-- `DEDUPE_TTL_SECONDS` are over. -/
  | expire (key : String)
  deriving DecidableEq

section

variable (message : ℕ → Option CoreEventEnvelope) (s : State)

def State.moved (s : State) (i : ℕ) (phase : Phase) : State :=
  { s with phase := Function.update s.phase i phase }

/-- What the callback does once it has the answer of `trySet`. -/
def dispatch (i : ℕ) (envelope : CoreEventEnvelope) : State :=
  -- `SET .. NX` found the key: whoever set it may still be at work, or have failed.
  if s.marks (dedupeKey envelope) then s.moved i .returned
  -- The key is there before the handler has begun.
  else if envelope.eventType ∈ handlers then
    { s.moved i .handling with marks := Function.update s.marks (dedupeKey envelope) true }
  else { s.moved i .returned with marks := Function.update s.marks (dedupeKey envelope) true }

/-- What an event does; `none` when it cannot happen.  A message without an envelope is no JSON. -/
def next : Event → Option State
  | .deliver i =>
    -- `JSON.parse` throws before the callback has looked anything up.
    if s.phase i = .queued then
      some (s.moved i (if (message i).isSome then .received else .thrown))
    else none
  | .trySet i answer =>
    match message i with
    | none => none
    | some envelope =>
      if s.phase i = .received then
        match answer with
        | .answered => some (dispatch s i envelope)
        | .failed applied =>
          some { s.moved i .thrown with
            marks :=
              if applied then Function.update s.marks (dedupeKey envelope) true else s.marks }
      else none
  | .handled i success =>
    match message i with
    | none => none
    | some envelope =>
      if s.phase i = .handling then
        if success then
          some { s.moved i .returned with
            completed := Function.update s.completed envelope.eventId true }
        -- Nobody takes the key away again.
        else some (s.moved i .thrown)
      else none
  | .ack i => if s.phase i = .returned then some (s.moved i .acked) else none
  | .nack i => if s.phase i = .thrown then some (s.moved i .dead) else none
  | .crash i => if (s.phase i).unacknowledged then some (s.moved i .queued) else none
  | .replay i => if s.phase i = .dead then some (s.moved i .queued) else none
  | .expire key => some { s with marks := Function.update s.marks key false }

end

end CoreEvents

end SwiftBite
