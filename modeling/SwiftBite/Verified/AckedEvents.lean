import SwiftBite.Messaging.CoreEvents
import SwiftBite.Store.Machine

/-! # Core events are acknowledged once they took effect

The dedupe key is set before the handler runs.  When the handler then fails or its process
dies, the key stays, and the message is taken for processed when it comes back.  Whether that
happens depends on what became of the delivery that has set the key.
-/

set_option autoImplicit false

namespace SwiftBite.Verified.AckedEvents

open Store CoreEvents

/-- The handler has completed for the event of each acknowledged message that has one. -/
def TookEffect (message : ℕ → Option CoreEventEnvelope) (s : State) : Prop :=
  ∀ i envelope, message i = some envelope → envelope.eventType ∈ handlers → s.phase i = .acked →
    s.completed envelope.eventId = true

/-! ## What became of a delivery -/

/-- What has become of the delivery that has set a dedupe key. -/
inductive Standing where
  /-- The key is not set. -/
  | free
  | handling (i : ℕ)
  /-- The handler has returned. -/
  | done
  /-- The handler has thrown or its process has died, there is none, or the answer of Redis was
  lost. -/
  | left
  deriving DecidableEq

/-- The history of a run. -/
structure Past where
  standing : String → Standing
  /-- Copies that were skipped, and the deliveries that were being handled then. -/
  waits : List (ℕ × ℕ)

def Past.start : Past := ⟨fun _ => .free, []⟩

namespace Past

variable (message : ℕ → Option CoreEventEnvelope) (s : State) (past : Past)

def stands (key : String) (standing : Standing) : Past :=
  { past with standing := Function.update past.standing key standing }

@[simp] theorem standing_stands (key : String) (standing : Standing) :
    (past.stands key standing).standing = Function.update past.standing key standing := rfl

/-- A delivery ends without effect; an earlier one may have had it. -/
def abandon (envelope : CoreEventEnvelope) : Past :=
  past.stands (dedupeKey envelope) (if s.completed envelope.eventId then .done else .left)

/-- A delivery is not handled any more. -/
def finish (i : ℕ) : Past := { past with waits := past.waits.filter fun wait => wait.2 ≠ i }

/-- A message does not wait any more. -/
def quit (i : ℕ) : Past := { past with waits := past.waits.filter fun wait => wait.1 ≠ i }

/-- A message is looked up. -/
def look (i : ℕ) (envelope : CoreEventEnvelope) (answer : SetAnswer) : Past :=
  if s.marks (dedupeKey envelope) then
    match answer, past.standing (dedupeKey envelope) with
    | .answered, .handling k =>
      if envelope.eventType ∈ handlers ∧ s.completed envelope.eventId = false
      then { past with waits := (i, k) :: past.waits } else past
    | _, _ => past
  else match answer with
    | .answered =>
      if envelope.eventType ∈ handlers then past.stands (dedupeKey envelope) (.handling i)
      else past.abandon s envelope
    | .failed true => past.abandon s envelope
    | .failed false => past

/-- The handler of a message throws, or its process dies. -/
def fail (i : ℕ) (envelope : CoreEventEnvelope) : Past :=
  if past.standing (dedupeKey envelope) = .handling i then past.abandon s envelope else past

def succeed (i : ℕ) (envelope : CoreEventEnvelope) : Past :=
  if past.standing (dedupeKey envelope) = .handling i then past.stands (dedupeKey envelope) .done
  else past

def follow : Event → Past
  | .trySet i answer => (message i).elim past fun envelope => past.look s i envelope answer
  | .handled i true => (message i).elim past fun envelope => (past.succeed i envelope).finish i
  | .handled i false => (message i).elim past fun envelope => (past.fail s i envelope).finish i
  | .crash i => ((message i).elim past fun envelope => (past.fail s i envelope).finish i).quit i
  | .expire key => past.stands key .free
  | .deliver _ | .ack _ | .nack _ | .replay _ => past

end Past

/-- The consumer, with the history of its run. -/
def nextTraced (message : ℕ → Option CoreEventEnvelope) (traced : State × Past)
    (e : Event) : Option (State × Past) :=
  (next message traced.1 e).map fun s' => (s', traced.2.follow message traced.1 e)

/-- No message that has a handler is looked up while its key stands from a delivery without effect.
When a copy was skipped because another delivery was being handled, that delivery does not
fail and its process does not die, and it is through before the copy is acknowledged. -/
def NotLeftBehind (message : ℕ → Option CoreEventEnvelope) (traced : State × Past) : Event → Prop
  | .trySet i .answered =>
    ∀ envelope ∈ message i, envelope.eventType ∈ handlers →
      traced.2.standing (dedupeKey envelope) ≠ .left
  | .handled i false | .crash i => ∀ wait ∈ traced.2.waits, wait.2 ≠ i
  | .ack i => ∀ wait ∈ traced.2.waits, wait.1 ≠ i
  | _ => True

instance (message : ℕ → Option CoreEventEnvelope) (traced : State × Past) :
    DecidablePred (NotLeftBehind message traced)
  | .trySet i .answered =>
    inferInstanceAs (Decidable (∀ envelope ∈ message i, envelope.eventType ∈ handlers → _ ≠ _))
  | .handled i false | .crash i => inferInstanceAs (Decidable (∀ wait ∈ traced.2.waits, wait.2 ≠ i))
  | .ack i => inferInstanceAs (Decidable (∀ wait ∈ traced.2.waits, wait.1 ≠ i))
  | .trySet _ (.failed _) | .handled _ true | .deliver _ | .nack _ | .replay _ | .expire _ =>
    inferInstanceAs (Decidable True)

/-! ## The invariant -/

/-- What the keys stand for. -/
structure Keys (message : ℕ → Option CoreEventEnvelope) (s : State)
    (standing : String → Standing) : Prop where
  handling : ∀ key k, standing key = .handling k → s.phase k = .handling ∧ ∃ envelope,
    message k = some envelope ∧ dedupeKey envelope = key
  done : ∀ envelope, standing (dedupeKey envelope) = .done → s.completed envelope.eventId = true
  marked : ∀ key, s.marks key = true → standing key ≠ .free

/-- What the copies wait for. -/
structure Copies (message : ℕ → Option CoreEventEnvelope) (s : State)
    (waits : List (ℕ × ℕ)) : Prop where
  acked : TookEffect message s
  returned : ∀ i envelope, message i = some envelope → envelope.eventType ∈ handlers →
    s.phase i = .returned →
    s.completed envelope.eventId = true ∨
      ∃ k awaited, (i, k) ∈ waits ∧ message k = some awaited ∧ awaited.eventId = envelope.eventId
  waits : ∀ wait ∈ waits, s.phase wait.1 = .returned ∧ s.phase wait.2 = .handling

section

variable {message : ℕ → Option CoreEventEnvelope} {s s' : State} {past : Past} {i : ℕ}
  {envelope : CoreEventEnvelope} {phase : Phase}
  {standing : String → Standing} {waits : List (ℕ × ℕ)}

theorem eventId_of_dedupeKey {envelope envelope' : CoreEventEnvelope}
    (same : dedupeKey envelope = dedupeKey envelope') : envelope.eventId = envelope'.eventId :=
  (String.append_right_inj _).1 same

@[simp] theorem phase_moved_self (i : ℕ) (phase : Phase) : (s.moved i phase).phase i = phase :=
  Function.update_self ..

theorem phase_moved_of_ne {i j : ℕ} {phase : Phase} (other : j ≠ i) :
    (s.moved i phase).phase j = s.phase j :=
  Function.update_of_ne other ..

/-! ### Keys -/

theorem Keys.moved (keys : Keys message s standing) (none : ∀ key, standing key ≠ .handling i) :
    Keys message (s.moved i phase) standing := by
  refine ⟨fun key k isHandling => ?_, keys.done, keys.marked⟩
  obtain ⟨isPhase, rest⟩ := keys.handling key k isHandling
  have other : k ≠ i := by
    rintro rfl
    exact none key isHandling
  exact ⟨(phase_moved_of_ne other).trans isPhase, rest⟩

theorem Keys.not_handling (keys : Keys message s standing) (idle : s.phase i ≠ .handling)
    (key : String) : standing key ≠ .handling i :=
  fun isHandling => idle (keys.handling key i isHandling).1

/-- One key is set, or stands for something else. -/
theorem Keys.update {key : String} {value : Standing} {marks : String → Bool}
    (keys : Keys message s standing)
    (handling : ∀ k, value = .handling k → s.phase k = .handling ∧ ∃ envelope,
      message k = some envelope ∧ dedupeKey envelope = key)
    (done : value = .done → ∀ envelope, dedupeKey envelope = key →
      s.completed envelope.eventId = true) (marked : value = .free → marks key = false)
    (others : ∀ key', key' ≠ key → marks key' = s.marks key') :
    Keys message { s with marks := marks } (Function.update standing key value) := by
  refine ⟨fun key' k isHandling => ?_, fun envelope isDone => ?_, fun key' isMarked isFree => ?_⟩
  · by_cases same : key' = key
    · subst same
      rw [Function.update_self] at isHandling
      exact handling k isHandling
    · rw [Function.update_of_ne same] at isHandling
      exact keys.handling key' k isHandling
  · by_cases same : dedupeKey envelope = key
    · rw [same, Function.update_self] at isDone
      exact done isDone envelope same
    · rw [Function.update_of_ne same] at isDone
      exact keys.done envelope isDone
  · by_cases same : key' = key
    · subst same
      rw [Function.update_self] at isFree
      exact absurd (isMarked.symm.trans (marked isFree)) (by decide)
    · rw [Function.update_of_ne same] at isFree
      exact keys.marked key' ((others key' same).symm.trans isMarked) isFree

theorem Keys.abandon {marks : String → Bool} (keys : Keys message s past.standing)
    (others : ∀ key, key ≠ dedupeKey envelope → marks key = s.marks key) :
    Keys message { s with marks := marks } (past.abandon s envelope).standing := by
  refine keys.update (fun k isHandling => ?_) (fun isDone envelope' same => ?_)
    (fun isFree => ?_) others
  · split at isHandling <;> cases isHandling
  · split at isDone
    next completed => exact (eventId_of_dedupeKey same).symm ▸ completed
    next => cases isDone
  · split at isFree <;> cases isFree

/-- A delivery is handled under the key of its event only. -/
theorem Keys.not_handling_of_ends {standing' : String → Standing} (keys : Keys message s standing)
    (isMessage : message i = some envelope)
    (others : ∀ key, key ≠ dedupeKey envelope → standing' key = standing key)
    (ends : standing' (dedupeKey envelope) ≠ .handling i) (key : String) :
    standing' key ≠ .handling i := by
  by_cases same : key = dedupeKey envelope
  · rw [same]
    exact ends
  · rw [others key same]
    intro isHandling
    obtain ⟨_, envelope', isMessage', isKey⟩ := keys.handling key i isHandling
    exact same (by rw [← isKey, Option.some.inj (isMessage'.symm.trans isMessage)])

theorem Keys.fail (keys : Keys message s past.standing) (isMessage : message i = some envelope) :
    Keys message s (past.fail s i envelope).standing ∧
    ∀ key, (past.fail s i envelope).standing key ≠ .handling i := by
  unfold Past.fail
  split
  next =>
    refine ⟨keys.abandon fun _ _ => rfl,
      keys.not_handling_of_ends isMessage (fun key other => Function.update_of_ne other ..) ?_⟩
    simp only [Past.abandon, Past.standing_stands, Function.update_self]
    split <;> simp
  next other => exact ⟨keys, keys.not_handling_of_ends isMessage (fun _ _ => rfl) other⟩

theorem Keys.succeed (keys : Keys message s past.standing) (isMessage : message i = some envelope)
    (completed : s.completed envelope.eventId = true) :
    Keys message s (past.succeed i envelope).standing ∧
    ∀ key, (past.succeed i envelope).standing key ≠ .handling i := by
  unfold Past.succeed
  split
  next =>
    refine ⟨keys.update (fun _ impossible => nomatch impossible) (fun _ envelope' same => ?_)
      (fun impossible => nomatch impossible) fun _ _ => rfl,
      keys.not_handling_of_ends isMessage (fun key other => Function.update_of_ne other ..) ?_⟩
    · exact (eventId_of_dedupeKey same).symm ▸ completed
    · simp
  next other => exact ⟨keys, keys.not_handling_of_ends isMessage (fun _ _ => rfl) other⟩

/-! ### Copies -/

/-- A message moves that nobody waits for, and that does not wait. -/
theorem Copies.moved (copies : Copies message s waits) (waitsNot : ∀ wait ∈ waits, wait.1 ≠ i)
    (unawaited : ∀ wait ∈ waits, wait.2 ≠ i)
    (enters : phase = .returned ∨ phase = .acked → ∀ envelope, message i = some envelope →
      envelope.eventType ∈ handlers → s.completed envelope.eventId = true) :
    Copies message (s.moved i phase) waits := by
  refine ⟨fun j envelope isMessage registered isAcked => ?_,
    fun j envelope isMessage registered isReturned => ?_, fun wait member => ?_⟩
  · by_cases same : j = i
    · subst same
      rw [phase_moved_self] at isAcked
      exact enters (.inr isAcked) envelope isMessage registered
    · rw [phase_moved_of_ne same] at isAcked
      exact copies.acked j envelope isMessage registered isAcked
  · by_cases same : j = i
    · subst same
      rw [phase_moved_self] at isReturned
      exact .inl (enters (.inl isReturned) envelope isMessage registered)
    · rw [phase_moved_of_ne same] at isReturned
      exact copies.returned j envelope isMessage registered isReturned
  · rw [phase_moved_of_ne (waitsNot wait member), phase_moved_of_ne (unawaited wait member)]
    exact copies.waits wait member

theorem Copies.waitsNot (copies : Copies message s waits) (notReturned : s.phase i ≠ .returned) :
    ∀ wait ∈ waits, wait.1 ≠ i := by
  rintro wait member rfl
  exact notReturned (copies.waits wait member).1

theorem Copies.unawaited (copies : Copies message s waits) (notHandling : s.phase i ≠ .handling) :
    ∀ wait ∈ waits, wait.2 ≠ i := by
  rintro wait member rfl
  exact notHandling (copies.waits wait member).2

/-- The copy is skipped while another delivery of its event is handled. -/
theorem Copies.skip {k : ℕ} {awaited : CoreEventEnvelope} (copies : Copies message s waits)
    (isReceived : s.phase i = .received) (isHandling : s.phase k = .handling)
    (isMessage : message i = some envelope) (isAwaited : message k = some awaited)
    (sameEvent : awaited.eventId = envelope.eventId) :
    Copies message (s.moved i .returned) ((i, k) :: waits) := by
  have waitsNot := copies.waitsNot (i := i) (by rw [isReceived]; decide)
  have unawaited := copies.unawaited (i := i) (by rw [isReceived]; decide)
  have other : k ≠ i := by
    rintro rfl
    rw [isReceived] at isHandling
    cases isHandling
  refine ⟨fun j envelope' isMessage' registered isAcked => ?_,
    fun j envelope' isMessage' registered isReturned => ?_, fun wait member => ?_⟩
  · by_cases same : j = i
    · subst same
      rw [phase_moved_self] at isAcked
      cases isAcked
    · rw [phase_moved_of_ne same] at isAcked
      exact copies.acked j envelope' isMessage' registered isAcked
  · by_cases same : j = i
    · subst same
      rw [← Option.some.inj (isMessage.symm.trans isMessage')]
      exact .inr ⟨k, awaited, List.mem_cons_self, isAwaited, sameEvent⟩
    · rw [phase_moved_of_ne same] at isReturned
      refine (copies.returned j envelope' isMessage' registered isReturned).imp_right
        fun ⟨k', awaited', among, rest⟩ => ?_
      exact ⟨k', awaited', List.mem_cons_of_mem _ among, rest⟩
  · rcases List.mem_cons.1 member with rfl | old
    · exact ⟨phase_moved_self i .returned, (phase_moved_of_ne other).trans isHandling⟩
    · rw [phase_moved_of_ne (waitsNot wait old), phase_moved_of_ne (unawaited wait old)]
      exact copies.waits wait old

/-- The event of a delivery has taken effect, so nobody has to wait for the delivery any more. -/
theorem Copies.finish (copies : Copies message s waits) (isMessage : message i = some envelope)
    (completed : s.completed envelope.eventId = true) :
    Copies message s (waits.filter fun wait => wait.2 ≠ i) := by
  refine ⟨copies.acked, fun j envelope' isMessage' registered isReturned => ?_,
    fun wait member => copies.waits wait (List.mem_filter.1 member).1⟩
  rcases copies.returned j envelope' isMessage' registered isReturned with completed'
    | ⟨k, awaited, among, isAwaited, sameEvent⟩
  · exact .inl completed'
  · by_cases same : k = i
    · subst same
      rw [← Option.some.inj (isMessage.symm.trans isAwaited)] at sameEvent
      exact .inl (sameEvent ▸ completed)
    · exact .inr ⟨k, awaited, List.mem_filter.2 ⟨among, by simpa using same⟩, isAwaited, sameEvent⟩

/-- The process that has the message dies. -/
theorem Copies.crash (copies : Copies message s waits) (unawaited : ∀ wait ∈ waits, wait.2 ≠ i) :
    Copies message (s.moved i .queued) (waits.filter fun wait => wait.1 ≠ i) := by
  refine ⟨fun j envelope isMessage registered isAcked => ?_,
    fun j envelope isMessage registered isReturned => ?_, fun wait member => ?_⟩
  · by_cases same : j = i
    · subst same
      rw [phase_moved_self] at isAcked
      cases isAcked
    · rw [phase_moved_of_ne same] at isAcked
      exact copies.acked j envelope isMessage registered isAcked
  · by_cases same : j = i
    · subst same
      rw [phase_moved_self] at isReturned
      cases isReturned
    · rw [phase_moved_of_ne same] at isReturned
      refine (copies.returned j envelope isMessage registered isReturned).imp_right
        fun ⟨k, awaited, among, rest⟩ => ?_
      exact ⟨k, awaited, List.mem_filter.2 ⟨among, by simpa using same⟩, rest⟩
  · obtain ⟨old, other⟩ := List.mem_filter.1 member
    rw [phase_moved_of_ne (by simpa using other), phase_moved_of_ne (unawaited wait old)]
    exact copies.waits wait old

/-! ### Steps -/

theorem Keys.completes (keys : Keys message s standing) (id : String) :
    Keys message { s with completed := Function.update s.completed id true } standing := by
  refine ⟨keys.handling, fun envelope isDone => ?_, keys.marked⟩
  by_cases same : envelope.eventId = id
  · simp [same]
  · simpa [same] using keys.done envelope isDone

theorem Copies.completes (copies : Copies message s waits) (id : String) :
    Copies message { s with completed := Function.update s.completed id true } waits := by
  have kept : ∀ other, s.completed other = true →
      Function.update s.completed id true other = true := by
    intro other completed
    by_cases same : other = id
    · simp [same]
    · simpa [same] using completed
  refine ⟨fun j envelope isMessage registered isAcked => ?_,
    fun j envelope isMessage registered isReturned => ?_, copies.waits⟩
  · exact kept _ (copies.acked j envelope isMessage registered isAcked)
  · exact (copies.returned j envelope isMessage registered isReturned).imp_left (kept _)

/-- Keys are set, and nothing happens to the messages. -/
theorem Copies.marks (copies : Copies message s waits) (marks : String → Bool) :
    Copies message { s with marks := marks } waits :=
  ⟨copies.acked, copies.returned, copies.waits⟩

/-- What holds of a state and its history. -/
structure Traced (message : ℕ → Option CoreEventEnvelope) (traced : State × Past) : Prop where
  keys : Keys message traced.1 traced.2.standing
  copies : Copies message traced.1 traced.2.waits

theorem traced_start (message : ℕ → Option CoreEventEnvelope) :
    Traced message (.start, .start) where
  keys := ⟨fun _ _ impossible => (nomatch impossible), fun _ impossible => (nomatch impossible),
    fun _ impossible => (nomatch impossible)⟩
  copies :=
    ⟨fun _ _ _ _ impossible => (nomatch impossible), fun _ _ _ _ impossible => (nomatch impossible),
    fun _ none => absurd none List.not_mem_nil⟩

/-- A message moves that is neither handled nor skipped. -/
theorem traced_moved (traced : Traced message (s, past)) (notHandling : s.phase i ≠ .handling)
    (notReturned : s.phase i ≠ .returned) (enters : phase ≠ .returned ∧ phase ≠ .acked) :
    Traced message (s.moved i phase, past) where
  keys := traced.keys.moved (traced.keys.not_handling notHandling)
  copies := traced.copies.moved (traced.copies.waitsNot notReturned)
    (traced.copies.unawaited notHandling) fun isPhase =>
    (isPhase.elim enters.1 enters.2).elim

theorem traced_failed (traced : Traced message (s, past)) (isReceived : s.phase i = .received)
    (applied : Bool) :
    Traced message
      ({ s.moved i .thrown with
        marks := if applied then Function.update s.marks (dedupeKey envelope) true else s.marks },
        past.look s i envelope (.failed applied)) := by
  have moved : Traced message (s.moved i .thrown, past) :=
    traced_moved traced (by simp [isReceived]) (by simp [isReceived]) (by simp)
  obtain ⟨keys, copies⟩ := moved
  have others : ∀ key, key ≠ dedupeKey envelope →
      Function.update s.marks (dedupeKey envelope) true key = s.marks key :=
    fun key other => Function.update_of_ne other ..
  unfold Past.look
  by_cases marked : s.marks (dedupeKey envelope) = true
  · -- The key was set before.
    have same : Function.update s.marks (dedupeKey envelope) true = s.marks := by
      rw [← marked, Function.update_eq_self]
    rw [if_pos marked, same, ite_self]
    exact ⟨keys, copies⟩
  · rw [if_neg marked]
    cases applied with
    | true => exact ⟨keys.abandon others, copies.marks _⟩
    | false => exact ⟨keys, copies⟩

theorem traced_answered (traced : Traced message (s, past)) (isMessage : message i = some envelope)
    (isReceived : s.phase i = .received)
    (condition : envelope.eventType ∈ handlers → past.standing (dedupeKey envelope) ≠ .left) :
    Traced message (dispatch s i envelope, past.look s i envelope .answered) := by
  have only : ∀ envelope', message i = some envelope' → envelope' = envelope :=
    fun envelope' isMessage' =>
    Option.some.inj (isMessage'.symm.trans isMessage)
  obtain ⟨keys, copies⟩ := traced
  have notHandling : s.phase i ≠ .handling := by simp [isReceived]
  have waitsNot := copies.waitsNot (i := i) (by simp [isReceived])
  have unawaited := copies.unawaited notHandling
  have keysMoved : ∀ phase, Keys message (s.moved i phase) past.standing :=
    fun _ => keys.moved (keys.not_handling notHandling)
  have others : ∀ key, key ≠ dedupeKey envelope →
      Function.update s.marks (dedupeKey envelope) true key = s.marks key :=
    fun key other => Function.update_of_ne other ..
  unfold dispatch Past.look
  split
  next marked =>
    have isSet := keys.marked _ marked
    split
    next k _ isHandling =>
      -- skipped while another delivery is handled
      obtain ⟨isPhase, awaited, isAwaited, sameKey⟩ := keys.handling _ k isHandling
      split
      next =>
        exact ⟨keysMoved .returned,
          copies.skip isReceived isPhase isMessage isAwaited (eventId_of_dedupeKey sameKey)⟩
      next harmless =>
        refine ⟨keysMoved .returned,
          copies.moved waitsNot unawaited fun _ envelope' isMessage' registered => ?_⟩
        rw [only envelope' isMessage'] at registered ⊢
        simpa [registered] using harmless
    next notHandled =>
      refine ⟨keysMoved .returned,
        copies.moved waitsNot unawaited fun _ envelope' isMessage' registered => ?_⟩
      rw [only envelope' isMessage'] at registered ⊢
      cases stands : past.standing (dedupeKey envelope) with
      | free => exact absurd stands isSet
      | handling k => exact absurd stands (notHandled k rfl)
      | done => exact keys.done envelope stands
      | left => exact absurd stands (condition registered)
  next =>
    split
    next registered =>
      refine ⟨(keysMoved .handling).update (fun k isHandling => ?_)
        (fun impossible => nomatch impossible) (fun impossible => nomatch impossible)
        others, (copies.moved waitsNot unawaited fun impossible => by simp at impossible).marks _⟩
      cases isHandling
      exact ⟨phase_moved_self i .handling, envelope, isMessage, rfl⟩
    next unregistered =>
      refine ⟨(keysMoved .returned).abandon others,
        (copies.moved waitsNot unawaited fun _ envelope' isMessage' registered => ?_).marks _⟩
      rw [only envelope' isMessage'] at registered
      exact absurd registered unregistered

theorem waits_fail (past : Past) (s : State) (i : ℕ) (envelope : CoreEventEnvelope) :
    (past.fail s i envelope).waits = past.waits := by
  unfold Past.fail
  split <;> rfl

theorem waits_succeed (past : Past) (i : ℕ) (envelope : CoreEventEnvelope) :
    (past.succeed i envelope).waits = past.waits := by
  unfold Past.succeed
  split <;> rfl

/-- The handler of a message ends; when it fails nobody waits for it. -/
theorem traced_handled (traced : Traced message (s, past)) (isMessage : message i = some envelope)
    (isHandling : s.phase i = .handling) :
    Traced message ({ s.moved i .returned with
      completed := Function.update s.completed envelope.eventId true },
      (past.succeed i envelope).finish i) ∧
    ((∀ wait ∈ past.waits, wait.2 ≠ i) →
      Traced message (s.moved i .thrown, (past.fail s i envelope).finish i)) := by
  obtain ⟨keys, copies⟩ := traced
  have waitsNot := copies.waitsNot (i := i) (by simp [isHandling])
  constructor
  · have completed : Function.update s.completed envelope.eventId true envelope.eventId = true :=
      Function.update_self ..
    obtain ⟨keys', none⟩ := (keys.completes envelope.eventId).succeed isMessage completed
    have copies' := (copies.completes envelope.eventId).finish isMessage completed
    refine ⟨keys'.moved none, ?_⟩
    rw [Past.finish, waits_succeed]
    refine copies'.moved (fun wait member => waitsNot wait (List.mem_filter.1 member).1)
      (fun wait member => by simpa using (List.mem_filter.1 member).2)
      fun _ envelope' isMessage' _ => ?_
    rw [← Option.some.inj (isMessage.symm.trans isMessage')]
    exact completed
  · intro unawaited
    obtain ⟨keys', none⟩ := keys.fail isMessage
    refine ⟨keys'.moved none, ?_⟩
    rw [Past.finish, waits_fail, List.filter_eq_self.2 fun wait member =>
      by simpa using unawaited wait member]
    exact copies.moved waitsNot unawaited fun impossible => by simp at impossible

theorem traced_crash (traced : Traced message (s, past))
    (unawaited : ∀ wait ∈ past.waits, wait.2 ≠ i) :
    Traced message (s.moved i .queued, past.follow message s (.crash i)) := by
  obtain ⟨keys, copies⟩ := traced
  cases isMessage : message i with
  | none =>
    have isPast : past.follow message s (.crash i) = past.quit i := by simp [Past.follow, isMessage]
    rw [isPast]
    refine ⟨keys.moved fun key isHandling => ?_, copies.crash unawaited⟩
    obtain ⟨_, envelope, isMessage', _⟩ := keys.handling key i isHandling
    rw [isMessage] at isMessage'
    cases isMessage'
  | some envelope =>
    have isPast : past.follow message s (.crash i) =
        ((past.fail s i envelope).finish i).quit i := by simp [Past.follow, isMessage]
    obtain ⟨keys', none⟩ := keys.fail isMessage
    rw [isPast]
    refine ⟨keys'.moved none, ?_⟩
    show Copies message (s.moved i .queued)
      (((past.fail s i envelope).waits.filter fun wait => wait.2 ≠ i).filter fun wait => wait.1 ≠ i)
    have same : (past.waits.filter fun wait => wait.2 ≠ i) = past.waits :=
      List.filter_eq_self.2 fun wait member => by simpa using unawaited wait member
    rw [waits_fail, same]
    exact copies.crash unawaited

theorem traced_next {traced traced' : State × Past} {e : Event} (holds : Traced message traced)
    (condition : NotLeftBehind message traced e)
    (steps : nextTraced message traced e = some traced') : Traced message traced' := by
  obtain ⟨s, past⟩ := traced
  obtain ⟨s', moves, rfl⟩ := Option.map_eq_some_iff.1 steps
  cases e with
  | deliver i =>
    simp only [next, Option.ite_none_right_eq_some, Option.some.injEq] at moves
    obtain ⟨isQueued, rfl⟩ := moves
    exact traced_moved holds (by simp [isQueued]) (by simp [isQueued]) (by split <;> simp)
  | trySet i answer =>
    simp only [next] at moves
    split at moves
    · cases moves
    next envelope isMessage =>
      split at moves
      next isReceived =>
        have isPast : past.follow message s (.trySet i answer) = past.look s i envelope answer := by
          simp [Past.follow, isMessage]
        rw [isPast]
        cases answer with
        | answered =>
          cases moves
          exact traced_answered holds isMessage isReceived fun registered =>
            condition envelope isMessage registered
        | failed applied =>
          cases moves
          exact traced_failed holds isReceived applied
      · cases moves
  | handled i success =>
    simp only [next] at moves
    split at moves
    · cases moves
    next envelope isMessage =>
      split at moves
      next isHandling =>
        obtain ⟨succeeds, fails⟩ := traced_handled holds isMessage isHandling
        cases success with
        | true =>
          cases moves
          simpa [Past.follow, isMessage] using succeeds
        | false =>
          cases moves
          simpa [Past.follow, isMessage] using fails condition
      · cases moves
  | ack i =>
    simp only [next, Option.ite_none_right_eq_some, Option.some.injEq] at moves
    obtain ⟨isReturned, rfl⟩ := moves
    -- By the condition the copy waits for no handler any more, so its event is completed.
    have notHandling : s.phase i ≠ .handling := by simp [isReturned]
    refine ⟨holds.keys.moved (holds.keys.not_handling notHandling),
      holds.copies.moved condition (holds.copies.unawaited notHandling) ?_⟩
    intro _ envelope isMessage registered
    refine (holds.copies.returned i envelope isMessage registered isReturned).resolve_right
      fun ⟨k, awaited, among, _⟩ => ?_
    exact condition (i, k) among rfl
  | nack i =>
    simp only [next, Option.ite_none_right_eq_some, Option.some.injEq] at moves
    obtain ⟨isThrown, rfl⟩ := moves
    exact traced_moved holds (by simp [isThrown]) (by simp [isThrown]) (by simp)
  | crash i =>
    simp only [next, Option.ite_none_right_eq_some, Option.some.injEq] at moves
    obtain ⟨_, rfl⟩ := moves
    exact traced_crash holds condition
  | replay i =>
    simp only [next, Option.ite_none_right_eq_some, Option.some.injEq] at moves
    obtain ⟨isDead, rfl⟩ := moves
    exact traced_moved holds (by simp [isDead]) (by simp [isDead]) (by simp)
  | expire key =>
    simp only [next, Option.some.injEq] at moves
    subst moves
    refine ⟨holds.keys.update (fun _ impossible => nomatch impossible)
      (fun impossible => nomatch impossible) (fun _ => Function.update_self ..)
      fun _ other => Function.update_of_ne other .., holds.copies.marks _⟩

end

theorem acknowledged_events_took_effect (message : ℕ → Option CoreEventEnvelope) (s : State)
    (past : Past)
    (reached : Machine.Reach (nextTraced message) (NotLeftBehind message)
      (.start, .start) (s, past)) : TookEffect message s :=
  (reached.invariant (traced_start message) fun _ _ _ => traced_next).copies.acked

/-! ## Messages that come back, and copies -/

/-- Two copies of one event, of a kind that has a handler. -/
def stockChanged (i : ℕ) : Option CoreEventEnvelope :=
  if i < 2 then some ⟨"e", "product.stock.changed", "payload"⟩ else none

/-- The handler throws, and the dead letter is replayed when its key is gone.  The copy comes
while the handler runs again, and is acknowledged before the first message is. -/
def replayed : List Event :=
  [.deliver 0, .trySet 0 .answered, .handled 0 false, .nack 0,
    .expire "core-events:dedupe:e", .replay 0,
    .deliver 0, .trySet 0 .answered, .deliver 1, .trySet 1 .answered, .handled 0 true,
    .ack 1, .ack 0]

theorem replayed_event_took_effect :
    ∃ s past,
    Machine.Reach (nextTraced stockChanged) (NotLeftBehind stockChanged)
      (.start, .start) (s, past) ∧
      s.phase 0 = .acked ∧ s.phase 1 = .acked ∧ TookEffect stockChanged s := by
  let check (traced : State × Past) (e : Event) : Bool :=
    decide (NotLeftBehind stockChanged traced e)
  have ends : (Machine.play (nextTraced stockChanged) check replayed (.start, .start)).any
      (fun traced => decide (traced.1.phase 0 = .acked ∧ traced.1.phase 1 = .acked)) = true := by
    decide +kernel
  obtain ⟨⟨s, past⟩, played, isEnd⟩ := (Option.any_eq_true _ _).1 ends
  have acked : s.phase 0 = .acked ∧ s.phase 1 = .acked := of_decide_eq_true isEnd
  have reached := Machine.reach_of_play (fun _ _ checked => of_decide_eq_true checked) played
  exact ⟨s, past, reached, acked.1, acked.2,
    acknowledged_events_took_effect stockChanged s past reached⟩

/-- The process dies while the handler runs, or the handler throws and the dead letter is
replayed while its key is set, or the handler throws after a copy was skipped. -/
def leftBehind : List (List Event) :=
  [[.deliver 0, .trySet 0 .answered, .crash 0, .deliver 0, .trySet 0 .answered, .ack 0],
    [.deliver 0, .trySet 0 .answered, .handled 0 false, .nack 0, .replay 0, .deliver 0,
      .trySet 0 .answered, .ack 0],
    [.deliver 0, .trySet 0 .answered, .deliver 1, .trySet 1 .answered, .ack 1, .handled 0 false]]

/-- After the history an event is acknowledged that has had no effect. -/
def EndsWithoutEffect (history : List Event) : Prop :=
  ∃ s, Machine.Reach (next stockChanged) (fun _ _ => True) .start s ∧
    Machine.play (next stockChanged) (fun _ _ => true) history .start = some s ∧
    ¬ TookEffect stockChanged s

theorem returning_events_are_acknowledged_without_effect : leftBehind.Forall EndsWithoutEffect := by
  rw [List.forall_iff_forall_mem]
  have ends : ∀ history ∈ leftBehind,
      (Machine.play (next stockChanged) (fun _ _ => true) history .start).any
      (fun s => decide ((s.phase 0 = .acked ∨ s.phase 1 = .acked) ∧ s.completed "e" = false)) =
      true := by decide +kernel
  intro history member
  obtain ⟨s, played, isEnd⟩ := (Option.any_eq_true _ _).1 (ends history member)
  obtain ⟨isAcked, notCompleted⟩ : (s.phase 0 = .acked ∨ s.phase 1 = .acked) ∧
      s.completed "e" = false := of_decide_eq_true isEnd
  refine ⟨s, Machine.reach_of_play (fun _ _ _ => trivial) played, played, fun tookEffect => ?_⟩
  have completed : s.completed "e" = true := by
    rcases isAcked with isAcked | isAcked
    · exact tookEffect 0 ⟨"e", "product.stock.changed", "payload"⟩ rfl (by decide) isAcked
    · exact tookEffect 1 ⟨"e", "product.stock.changed", "payload"⟩ rfl (by decide) isAcked
  rw [notCompleted] at completed
  cases completed

end SwiftBite.Verified.AckedEvents
