import SwiftBite.Http.Idempotency
import Mathlib.Data.List.Induction

/-! # One handler for each idempotency key

The middleware looks a key up before the handler and stores the response after it, so two
requests with one key exclude each other only when the second comes after the first has
been stored.
-/

set_option autoImplicit false

namespace SwiftBite.Verified.OneHandler

open Idempotency

/-- The Redis key under which a request looks for a response and leaves its own. -/
def storedKey (request : Request) : Option String := request.headerKey.map request.cacheKey

/-- The handlers that ended in success, of the requests with this key. -/
def successes (request : ℕ → Request) (key : String) (es : List Event) : ℕ :=
  es.countP fun
    | .respond i status _ => succeeds status && decide (storedKey (request i) = some key)
    | _ => false

/-- Redis answers, stores what it is given and forgets nothing. -/
def Available : Event → Prop
  | .lookup _ redisUp _ => redisUp = true
  | .cacheStored _ done => done = true
  | .expire _ => False
  | _ => True

/-- The response is sent and not yet in Redis. -/
def Pending : Phase → Prop
  | .sent _ _ cachePending _ => cachePending = true
  | _ => False

/-- The handler runs, or its response is not yet in Redis. -/
def Busy (phase : Phase) : Prop := phase = .handling ∨ Pending phase

@[simp] theorem pending_sent (status : ℕ) (body : String) (cachePending rowPending : Bool) :
    Pending (.sent status body cachePending rowPending) ↔ cachePending = true := Iff.rfl

@[simp] theorem not_pending_over : ¬ Pending .over := id

@[simp] theorem pending_sentPhase (status : ℕ) (body : String) (cachePending rowPending : Bool) :
    Pending (sentPhase status body cachePending rowPending) ↔ cachePending = true := by
  cases cachePending <;> cases rowPending <;> simp [sentPhase]

@[simp] theorem sentPhase_ne_handling (status : ℕ) (body : String)
    (cachePending rowPending : Bool) :
    sentPhase status body cachePending rowPending ≠ .handling := by
  cases cachePending <;> cases rowPending <;> simp [sentPhase]

section

variable {Digest : Type} [DecidableEq Digest]

/-- A request looks its key up only while no other with this key is busy. -/
def Apart (request : ℕ → Request) (s : State Digest) : Event → Prop
  | .lookup i _ _ => ∀ j, storedKey (request j) = storedKey (request i) → ¬ Busy (s.phase j)
  | _ => True

/-- `count` handlers have succeeded. -/
structure Handled (request : ℕ → Request) (key : String) (count : ℕ) (s : State Digest) : Prop where
  alone : ∀ i j, storedKey (request i) = some key → storedKey (request j) = some key →
    Busy (s.phase i) →
    Busy (s.phase j) → i = j
  none : count = 0 → ∀ i, storedKey (request i) = some key → ¬ Pending (s.phase i)
  one : count ≤ 1
  /-- After a success no handler runs, and its response is in Redis or on its way. -/
  done : count = 1 → (∀ i, storedKey (request i) = some key → s.phase i ≠ .handling) ∧
    ((s.cache key).isSome = true ∨ ∃ i, storedKey (request i) = some key ∧ Pending (s.phase i))

variable {options : IdempotencyOptions} {sha256 : String → Digest} {request : ℕ → Request}
  {key : String}
  {s s' : State Digest} {count : ℕ}

omit [DecidableEq Digest] in
theorem handled_start : Handled request key 0 (.start Digest) where
  alone i j _ _ busy := by cases busy with
    | inl handling => cases handling
    | inr pending => exact pending.elim
  none _ i _ pending := pending
  one := Nat.zero_le 1
  done impossible := by cases impossible

omit [DecidableEq Digest] in
/-- A request with another key, or one that does not become busy. -/
theorem handled_of_quiet {i : ℕ} {phase : Phase} (handled : Handled request key count s)
    (phases : s'.phase = Function.update s.phase i phase)
    (cache : (s.cache key).isSome = true → (s'.cache key).isSome = true)
    (idle : storedKey (request i) = some key → (Busy phase → Busy (s.phase i)) ∧
      (phase = .handling → s.phase i = .handling) ∧ (Pending phase → Pending (s.phase i)) ∧
      (Pending (s.phase i) → Pending phase ∨ (s'.cache key).isSome = true)) :
    Handled request key count s' := by
  have was : ∀ j, storedKey (request j) = some key → (Busy (s'.phase j) → Busy (s.phase j)) ∧
      (s'.phase j = .handling → s.phase j = .handling) ∧
      (Pending (s'.phase j) → Pending (s.phase j)) := by
    intro j isKey
    rw [phases]
    by_cases same : j = i
    · subst same
      rw [Function.update_self]
      exact ⟨(idle isKey).1, (idle isKey).2.1, (idle isKey).2.2.1⟩
    · rw [Function.update_of_ne same]
      exact ⟨id, id, id⟩
  refine ⟨fun a b isKey isKey' busy busy' => ?_, fun isNone j isKey pending => ?_, handled.one,
    fun isOne => ⟨fun j isKey handling => ?_, ?_⟩⟩
  · exact handled.alone a b isKey isKey' ((was a isKey).1 busy) ((was b isKey').1 busy')
  · exact handled.none isNone j isKey ((was j isKey).2.2 pending)
  · exact (handled.done isOne).1 j isKey ((was j isKey).2.1 handling)
  · rcases (handled.done isOne).2 with inCache | ⟨j, isKey, pending⟩
    · exact .inl (cache inCache)
    · by_cases same : j = i
      · subst same
        rcases (idle isKey).2.2.2 pending with stays | inCache
        · exact .inr ⟨j, isKey, by rw [phases, Function.update_self]; exact stays⟩
        · exact .inl inCache
      · exact .inr ⟨j, isKey, by rw [phases, Function.update_of_ne same]; exact pending⟩

/-- A key that Redis knows is not handled again. -/
theorem decisionFor_of_cached {i : ℕ} {tableUp : Bool} (isKey : storedKey (request i) = some key)
    (cached : (s.cache key).isSome = true) :
    decisionFor options sha256 request s i true tableUp ≠ .handle := by
  obtain ⟨header, isHeader, rfl⟩ := Option.map_eq_some_iff.1 isKey
  obtain ⟨entry, found⟩ := Option.isSome_iff_exists.1 cached
  have idempotent : (request i).method ∈ IDEMPOTENT_METHODS := by
    by_contra other
    rw [Request.headerKey, if_neg other] at isHeader
    cases isHeader
  simp only [decisionFor, decideRequest, redisAnswer, isHeader, Option.bind_some, found,
    if_true, idempotent,
    not_true_eq_false, if_false]
  split
  · exact fun impossible => nomatch impossible
  · exact fun impossible => nomatch impossible

theorem handled_lookup {i : ℕ} {tableUp : Bool} (handled : Handled request key count s)
    (apart : ∀ j, storedKey (request j) = storedKey (request i) → ¬ Busy (s.phase j)) :
    Handled request key count (lookup options sha256 request s i true tableUp) := by
  by_cases isKey : storedKey (request i) = some key
  · have idle : ∀ j, storedKey (request j) = some key → ¬ Busy (s.phase j) :=
      fun j isKey' => apart j (isKey'.trans isKey.symm)
    have phase : ∀ j, j ≠ i →
        (lookup options sha256 request s i true tableUp).phase j = s.phase j :=
      fun j other => Function.update_of_ne other _ _
    have self : ¬ Pending ((lookup options sha256 request s i true tableUp).phase i) := by
      simp only [lookup, Function.update_self]
      split
      · exact id
      · exact id
    refine ⟨fun a b isA isB busyA busyB => ?_, fun _ j isJ pending => ?_, handled.one,
      fun isOne => ⟨fun j isJ handling => ?_, ?_⟩⟩
    · by_cases sameA : a = i
      · by_cases sameB : b = i
        · rw [sameA, sameB]
        · rw [phase b sameB] at busyB
          exact absurd busyB (idle b isB)
      · rw [phase a sameA] at busyA
        exact absurd busyA (idle a isA)
    · by_cases same : j = i
      · subst same
        exact self pending
      · rw [phase j same] at pending
        exact idle j isJ (.inr pending)
    · by_cases same : j = i
      · subst same
        -- The response of the handler that succeeded is in Redis.
        have cached : (s.cache key).isSome = true := by
          rcases (handled.done isOne).2 with inCache | ⟨j', isKey', pending⟩
          · exact inCache
          · exact absurd (.inr pending) (idle j' isKey')
        simp only [lookup, Function.update_self,
          if_neg (decisionFor_of_cached isKey cached)] at handling
        cases handling
      · rw [phase j same] at handling
        exact idle j isJ (.inl handling)
    · rcases (handled.done isOne).2 with inCache | ⟨j, isKey', pending⟩
      · exact .inl inCache
      · exact absurd (.inr pending) (idle j isKey')
  · exact handled_of_quiet handled rfl id fun same => absurd same isKey

omit [DecidableEq Digest] in
theorem handled_respond {i status : ℕ} {body : String} (handled : Handled request key count s)
    (running : s.phase i = .handling) :
    Handled request key (successes request key [.respond i status body] + count)
      (respond options request s i status body) := by
  by_cases isKey : storedKey (request i) = some key
  · -- While a handler of this key runs, none has succeeded.
    have isNone : count = 0 := by
      by_contra notZero
      have isOne : count = 1 := by
        have least := handled.one
        omega
      exact (handled.done isOne).1 i isKey running
    subst isNone
    by_cases success : succeeds status = true
    · have counted : successes request key [.respond i status body] = 1 := by
        simp [successes, isKey, success]
      rw [counted]
      have idle : ∀ j, j ≠ i → storedKey (request j) = some key → ¬ Busy (s.phase j) :=
        fun j other isJ busy =>
        other (handled.alone j i isJ isKey busy (.inl running))
      have sent : Pending ((respond options request s i status body).phase i) := by
        simp [respond, success, Pending]
      have phase : ∀ j, j ≠ i → (respond options request s i status body).phase j = s.phase j :=
        fun j other => Function.update_of_ne other _ _
      refine ⟨fun a b isA isB busyA busyB => ?_, fun impossible =>
        by omega, Nat.le_refl 1, fun _ => ⟨fun j isJ handling => ?_, .inr ⟨i, isKey, sent⟩⟩⟩
      · by_cases sameA : a = i
        · by_cases sameB : b = i
          · rw [sameA, sameB]
          · rw [phase b sameB] at busyB
            exact absurd busyB (idle b sameB isB)
        · rw [phase a sameA] at busyA
          exact absurd busyA (idle a sameA isA)
      · by_cases same : j = i
        · subst same
          rw [handling] at sent
          exact sent
        · rw [phase j same] at handling
          exact idle j same isJ (.inl handling)
    · have counted : successes request key [.respond i status body] = 0 := by
        simp [successes, success]
      rw [counted]
      refine handled_of_quiet handled rfl id fun _ => ?_
      rw [if_neg success, running]
      exact ⟨fun _ => .inl rfl, fun _ => rfl, fun impossible => impossible.elim,
        fun impossible => impossible.elim⟩
  · have counted : successes request key [.respond i status body] = 0 := by
      simp [successes, isKey]
    rw [counted, Nat.zero_add]
    exact handled_of_quiet handled rfl id fun same => absurd same isKey

omit [DecidableEq Digest] in
theorem handled_cacheStored {i status : ℕ} {body : String} {rowPending : Bool}
    (handled : Handled request key count s) (sent : s.phase i = .sent status body true rowPending) :
    Handled request key count { s with
      cache := writeCache sha256 request s i status body
      phase := Function.update s.phase i (sentPhase status body false rowPending) } := by
  have written : (s.cache key).isSome = true ∨ storedKey (request i) = some key →
      (writeCache sha256 request s i status body key).isSome = true := by
    cases isHeader : (request i).headerKey with
    | none => simp [writeCache, storedKey, isHeader]
    | some header =>
      intro cached
      simp only [writeCache, storedKey, isHeader, Option.map_some, Option.some.injEq] at cached ⊢
      by_cases same : key = (request i).cacheKey header
      · rw [same, Function.update_self]
        rfl
      · rw [Function.update_of_ne same]
        exact cached.resolve_right (Ne.symm same)
  refine handled_of_quiet handled rfl (fun cached => written (.inl cached)) fun isKey => ?_
  rw [sent]
  simp [Busy, written (.inr isKey)]

omit [DecidableEq Digest] in
theorem handled_rowStored {i status : ℕ} {body : String} {cachePending : Bool}
    {rows : String → Digest → Option (IdempotencyRow Digest)}
    (handled : Handled request key count s)
    (sent : s.phase i = .sent status body cachePending true) :
    Handled request key count { s with
      rows := rows
      phase := Function.update s.phase i (sentPhase status body cachePending false) } := by
  refine handled_of_quiet handled rfl id fun _ => ?_
  rw [sent]
  cases cachePending with
  | true => simp [Busy]
  | false => simp [Busy]

theorem handled_next {e : Event} (handled : Handled request key count s) (available : Available e)
    (apart : Apart request s e) (moves : next options sha256 request s e = some s') :
    Handled request key (successes request key [e] + count) s' := by
  cases e with
  | lookup i redisUp tableUp =>
    cases available
    simp only [next] at moves
    split at moves
    next =>
      cases moves
      simpa [successes] using handled_lookup handled apart
    next => cases moves
  | respond i status body =>
    simp only [next] at moves
    split at moves
    next running =>
      cases moves
      exact handled_respond handled running
    next => cases moves
  | cacheStored i done =>
    cases available
    simp only [next] at moves
    split at moves
    next status body rowPending sent =>
      cases moves
      simpa [successes] using handled_cacheStored handled sent
    next => cases moves
  | rowStored i done =>
    simp only [next] at moves
    split at moves
    next status body cachePending sent =>
      cases moves
      simpa [successes] using handled_rowStored handled sent
    next => cases moves
  | expire expired => exact available.elim

theorem handled_run {es : List Event}
    (runs : run options sha256 request es (.start Digest) = some s)
    (available : ∀ e ∈ es, Available e)
    (apart : Throughout options sha256 request (Apart request) es) :
    Handled request key (successes request key es) s := by
  induction es using List.reverseRecOn generalizing s with
  | nil =>
    cases runs
    exact handled_start
  | append_singleton es e inductionHypothesis =>
    rw [run_append, Option.bind_eq_some_iff] at runs
    obtain ⟨middle, before, moves⟩ := runs
    simp only [run, Option.bind_fun_some] at moves
    have handled : Handled request key (successes request key es) middle := by
      refine inductionHypothesis before
        (fun e' member => available e' (List.mem_append_left _ member)) ?_
      intro first e' rest s' split before'
      exact apart first e' (rest ++ [e]) s' (by rw [split]; simp) before'
    have counted : successes request key (es ++ [e]) =
        successes request key [e] + successes request key es := by
      simp [successes, List.countP_append, Nat.add_comm]
    rw [counted]
    refine handled_next handled (available e (by simp)) (apart es e [] middle rfl before) moves

/-- Of the requests with one key, at most one handler succeeds in any history. -/
def HandledOnce (options : IdempotencyOptions) (sha256 : String → Digest) (request : ℕ → Request)
    (condition : State Digest → Event → Prop) : Prop :=
  ∀ es s key, run options sha256 request es (.start Digest) = some s → (∀ e ∈ es, Available e) →
    Throughout options sha256 request condition es → successes request key es ≤ 1

theorem apart_requests_are_handled_once (options : IdempotencyOptions) (sha256 : String → Digest)
    (request : ℕ → Request) : HandledOnce options sha256 request (Apart request) :=
  fun _ _ _ runs available apart => (handled_run runs available apart).one

end

/-! ## Overlapping requests -/

def strict : IdempotencyOptions := { strict := true }

/-- An order placed with a key. -/
def doubleClick : Request where
  method := "POST"
  originalUrl := "/api/orders"
  region := some "eg"
  userId := some 7
  idempotencyKey := some "key"
  body := "\x7b\x7d"

/-- Both requests find nothing under the key, and both handlers succeed. -/
def bothHandled : List Event :=
  [.lookup 0 true true, .lookup 1 true true, .respond 0 201 "order 1", .respond 1 201 "order 2"]

theorem overlapping_requests_are_handled_twice :
    ¬ HandledOnce strict (id : String → String) (fun _ => doubleClick) fun _ _ => True := by
  intro once
  have possible : (run strict (id : String → String) (fun _ => doubleClick) bothHandled
      (.start String)).isSome = true := by
    decide
  obtain ⟨s, runs⟩ := Option.isSome_iff_exists.1 possible
  have available : ∀ e ∈ bothHandled, Available e := by
    simp [bothHandled, Available]
  have bounded := once bothHandled s (doubleClick.cacheKey "key") runs available
    fun _ _ _ _ _ _ => trivial
  have twice : successes (fun _ => doubleClick) (doubleClick.cacheKey "key") bothHandled =
      2 := by decide
  omega

end SwiftBite.Verified.OneHandler
