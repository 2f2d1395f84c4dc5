import SwiftBite.Http.Idempotency

/-! # The idempotency keys of different users

A history is compared with the one from which a user's requests have been removed.  The two
stay related as long as the entries that the removed requests touch are not read or written
by anybody else.
-/

set_option autoImplicit false

namespace SwiftBite.Verified.UserIsolation

open Idempotency

/-- Two requests with the same entry in Redis, or the same row in the table of a region. -/
def Collide (options : IdempotencyOptions) (r r' : Request) : Prop :=
  ∃ key key', r.headerKey = some key ∧ r'.headerKey = some key' ∧
    (r.cacheKey key = r'.cacheKey key' ∨
      r.rowKey key = r'.rowKey key' ∧ ∃ region, r.fallback options = some region ∧
      r'.fallback options = some region)

/-- The event is no step of a request of the user. -/
def notOf (request : ℕ → Request) (userId : ℕ) (e : Event) : Bool :=
  match e.request with
  | some i => decide ((request i).userId ≠ some userId)
  | none => true

/-- The history without the requests of a user. -/
def without (request : ℕ → Request) (userId : ℕ) (es : List Event) : List Event :=
  es.filter (notOf request userId)

/-- The request makes a step in the history. -/
def Occurs (es : List Event) (i : ℕ) : Prop := ∃ e ∈ es, e.request = some i

/-- No request of the user collides with another user's request in the history. -/
def KeysApart (options : IdempotencyOptions) (request : ℕ → Request) (userId : ℕ)
    (es : List Event) : Prop :=
  ∀ i j, Occurs es i → Occurs es j → (request i).userId = some userId →
  (request j).userId ≠ some userId →
    ¬ Collide options (request i) (request j)

section

variable {Digest : Type} [DecidableEq Digest]

/-- The two histories agree on what is not the user's. -/
structure Related (options : IdempotencyOptions) (sha256 : String → Digest) (request : ℕ → Request)
    (userId : ℕ) (occurs : ℕ → Prop) (s s' : State Digest) : Prop where
  phase : ∀ i, (request i).userId ≠ some userId → s'.phase i = s.phase i
  decided : ∀ i, (request i).userId ≠ some userId → s'.decided i = s.decided i
  cache : ∀ key, (∀ i header, occurs i → (request i).userId = some userId →
    (request i).headerKey = some header →
    (request i).cacheKey header ≠ key) → s'.cache key = s.cache key
  rows : ∀ region digest,
    (∀ i header, occurs i → (request i).userId = some userId → (request i).headerKey = some header →
    (request i).fallback options = some region → sha256 ((request i).rowKey header) ≠ digest) →
      s'.rows region digest = s.rows region digest

variable {options : IdempotencyOptions} {sha256 : String → Digest} {request : ℕ → Request}
  {userId : ℕ}
  {occurs : ℕ → Prop} {s s' t : State Digest}

omit [DecidableEq Digest] in
theorem related_refl : Related options sha256 request userId occurs s s :=
  ⟨fun _ _ => rfl, fun _ _ => rfl, fun _ _ => rfl, fun _ _ _ => rfl⟩

/-! ## A step of the user -/

omit [DecidableEq Digest] in
theorem writeCache_of_ne {i status : ℕ} {body key : String}
    (other : ∀ header, (request i).headerKey = some header → (request i).cacheKey header ≠ key) :
    writeCache sha256 request s i status body key = s.cache key := by
  unfold writeCache
  cases isHeader : (request i).headerKey with
  | none => rfl
  | some header => exact Function.update_of_ne (Ne.symm (other header isHeader)) _ _

theorem writeRow_of_ne {i status : ℕ} {body region : String} {digest : Digest}
    (other : ∀ header, (request i).headerKey = some header →
      (request i).fallback options = some region → sha256 ((request i).rowKey header) ≠ digest) :
    writeRow options sha256 request s i status body region digest = s.rows region digest := by
  unfold writeRow
  cases isHeader : (request i).headerKey with
  | none => rfl
  | some header =>
    cases isFallback : (request i).fallback options with
    | none => rfl
    | some ownRegion =>
      cases taken : s.rows ownRegion (sha256 ((request i).rowKey header)) with
      | some row => simp only [taken]
      | none =>
        simp only [taken]
        by_cases same : region = ownRegion
        · subst same
          rw [Function.update_self,
            Function.update_of_ne (Ne.symm (other header isHeader isFallback))]
        · rw [Function.update_of_ne same]

theorem related_own {e : Event} {i : ℕ}
    (related : Related options sha256 request userId occurs s s') (isRequest : e.request = some i)
    (isUser : (request i).userId = some userId) (isOccurring : occurs i)
    (moves : next options sha256 request s e = some t) :
    Related options sha256 request userId occurs t s' := by
  -- What the step writes at its own request, the others do not see.
  have elsewhere : ∀ {α : Type} (f : ℕ → α) (value : α) (j : ℕ), (request j).userId ≠ some userId →
      Function.update f i value j = f j := by
    intro α f value j other
    refine Function.update_of_ne ?_ _ _
    rintro rfl
    exact other isUser
  cases e with
  | lookup i' redisUp tableUp =>
    cases isRequest
    simp only [next] at moves
    split at moves
    next =>
      cases moves
      refine ⟨fun j other => ?_, fun j other => ?_, related.cache, related.rows⟩
      · rw [related.phase j other]
        exact (elsewhere _ _ j other).symm
      · rw [related.decided j other]
        exact (elsewhere _ _ j other).symm
    next => cases moves
  | respond i' status body =>
    cases isRequest
    simp only [next] at moves
    split at moves
    next =>
      cases moves
      refine ⟨fun j other => ?_, related.decided, related.cache, related.rows⟩
      rw [related.phase j other]
      exact (elsewhere _ _ j other).symm
    next => cases moves
  | cacheStored i' done =>
    cases isRequest
    simp only [next] at moves
    split at moves
    next status body rowPending _ =>
      cases moves
      refine ⟨fun j other => ?_, related.decided, fun key foreign => ?_, related.rows⟩
      · rw [related.phase j other]
        exact (elsewhere _ _ j other).symm
      · rw [related.cache key foreign]
        cases done with
        | true =>
          exact (writeCache_of_ne fun header isHeader =>
            foreign i header isOccurring isUser isHeader).symm
        | false => rfl
    next => cases moves
  | rowStored i' done =>
    cases isRequest
    simp only [next] at moves
    split at moves
    next status body cachePending _ =>
      cases moves
      refine ⟨fun j other => ?_, related.decided, related.cache, fun region digest foreign => ?_⟩
      · rw [related.phase j other]
        exact (elsewhere _ _ j other).symm
      · rw [related.rows region digest foreign]
        cases done with
        | true =>
          exact (writeRow_of_ne fun header isHeader isFallback =>
            foreign i header isOccurring isUser isHeader isFallback).symm
        | false => rfl
    next => cases moves
  | expire key => cases isRequest

/-! ## A step of another user -/

theorem decisionFor_related {i : ℕ} {redisUp tableUp : Bool}
    (related : Related options sha256 request userId occurs s s')
    (ownEntry : ∀ j header header', occurs j → (request j).userId = some userId →
      (request j).headerKey = some header → (request i).headerKey = some header' →
      (request j).cacheKey header ≠ (request i).cacheKey header')
    (ownRow : ∀ j header header' region, occurs j → (request j).userId = some userId →
      (request j).headerKey = some header → (request i).headerKey = some header' →
      (request j).fallback options = some region → (request i).fallback options = some region →
      sha256 ((request j).rowKey header) ≠ sha256 ((request i).rowKey header')) :
    decisionFor options sha256 request s' i redisUp tableUp =
      decisionFor options sha256 request s i redisUp tableUp := by
  have redis : redisAnswer request s' i redisUp = redisAnswer request s i redisUp := by
    unfold redisAnswer
    cases isHeader : (request i).headerKey with
    | none => rfl
    | some header =>
      have same :=
        related.cache ((request i).cacheKey header) fun j header' isOccurring isUser isHeader' =>
        ownEntry j header' header isOccurring isUser isHeader' isHeader
      simp only [Option.bind_some, same]
  have table : tableAnswer options sha256 request s' i tableUp =
      tableAnswer options sha256 request s i tableUp := by
    unfold tableAnswer
    cases isFallback : (request i).fallback options with
    | none => rfl
    | some region =>
      cases isHeader : (request i).headerKey with
      | none => rfl
      | some header =>
        have same := related.rows region (sha256 ((request i).rowKey header))
          fun j header' isOccurring isUser isHeader' inRegion =>
          ownRow j header' header region isOccurring isUser isHeader' isHeader inRegion isFallback
        simp only [Option.bind_some, same]
  rw [decisionFor, decisionFor, redis, table]

theorem update_related {α : Type} {f f' : ℕ → α} {i j : ℕ} (value : α) (same : f' j = f j) :
    Function.update f' i value j = Function.update f i value j := by
  by_cases self : j = i
  · rw [self, Function.update_self, Function.update_self]
  · rw [Function.update_of_ne self, Function.update_of_ne self, same]

omit [DecidableEq Digest] in
theorem writeCache_related {i status : ℕ} {body key : String} (same : s'.cache key = s.cache key) :
    writeCache sha256 request s' i status body key =
      writeCache sha256 request s i status body key := by
  unfold writeCache
  cases (request i).headerKey with
  | none => exact same
  | some header =>
    dsimp only
    by_cases self : key = (request i).cacheKey header
    · rw [self, Function.update_self, Function.update_self]
    · rw [Function.update_of_ne self, Function.update_of_ne self, same]

theorem writeRow_related {i status : ℕ} {body region : String} {digest : Digest}
    (own : ∀ header ownRegion, (request i).headerKey = some header → (request i).fallback options =
      some ownRegion → s'.rows ownRegion (sha256 ((request i).rowKey header)) =
      s.rows ownRegion (sha256 ((request i).rowKey header)))
    (same : s'.rows region digest = s.rows region digest) :
    writeRow options sha256 request s' i status body region digest =
      writeRow options sha256 request s i status body region digest := by
  unfold writeRow
  cases isHeader : (request i).headerKey with
  | none => exact same
  | some header =>
    cases isFallback : (request i).fallback options with
    | none => exact same
    | some ownRegion =>
      simp only [own header ownRegion isHeader isFallback]
      cases s.rows ownRegion (sha256 ((request i).rowKey header)) with
      | some row => exact same
      | none =>
        dsimp only
        by_cases sameRegion : region = ownRegion
        · subst sameRegion
          rw [Function.update_self, Function.update_self]
          by_cases sameDigest : digest = sha256 ((request i).rowKey header)
          · rw [sameDigest, Function.update_self, Function.update_self]
          · rw [Function.update_of_ne sameDigest, Function.update_of_ne sameDigest, same]
        · rw [Function.update_of_ne sameRegion, Function.update_of_ne sameRegion, same]

theorem related_other {e : Event} (injective : Function.Injective sha256)
    (related : Related options sha256 request userId occurs s s')
    (isOther : ∀ i, e.request = some i → (request i).userId ≠ some userId)
    (apart : ∀ i, e.request = some i → ∀ j, occurs j → (request j).userId = some userId →
      ¬ Collide options (request j) (request i))
    (moves : next options sha256 request s e = some t) :
    ∃ t', next options sha256 request s' e = some t' ∧
    Related options sha256 request userId occurs t t' := by
  -- No row that a request of the user can reach has the key of a request of another.
  have ownRow : ∀ i, e.request = some i → ∀ header region, (request i).headerKey = some header →
      (request i).fallback options = some region → ∀ j header', occurs j →
      (request j).userId = some userId →
      (request j).headerKey = some header' → (request j).fallback options = some region →
      sha256 ((request j).rowKey header') ≠ sha256 ((request i).rowKey header) := by
    intro i isRequest header region isHeader isFallback j header' isOccurring isUser
      isHeader' inRegion same
    exact apart i isRequest j isOccurring isUser ⟨header', header, isHeader', isHeader,
      .inr ⟨injective same, region, inRegion, isFallback⟩⟩
  cases e with
  | lookup i redisUp tableUp =>
    have other := isOther i rfl
    simp only [next, related.phase i other] at moves ⊢
    split at moves
    next =>
      cases moves
      refine ⟨_, rfl, ?_⟩
      have decision : decisionFor options sha256 request s' i redisUp tableUp =
          decisionFor options sha256 request s i redisUp tableUp := by
        refine decisionFor_related related
          (fun j header header' isOccurring isUser isHeader isHeader' same => ?_)
          fun j header header' region isOccurring isUser isHeader isHeader' inRegion isFallback =>
            ownRow i rfl header' region isHeader' isFallback j header isOccurring isUser
              isHeader inRegion
        exact apart i rfl j isOccurring isUser ⟨header, header', isHeader, isHeader', .inl same⟩
      refine ⟨fun j isOther' => ?_, fun j isOther' => ?_, related.cache, related.rows⟩
      · simp only [lookup, decision]
        exact update_related _ (related.phase j isOther')
      · simp only [lookup, decision]
        exact update_related _ (related.decided j isOther')
    next => cases moves
  | respond i status body =>
    simp only [next, related.phase i (isOther i rfl)] at moves ⊢
    split at moves
    next =>
      cases moves
      refine ⟨_, rfl, fun j isOther' => ?_, related.decided, related.cache, related.rows⟩
      exact update_related _ (related.phase j isOther')
    next => cases moves
  | cacheStored i done =>
    simp only [next, related.phase i (isOther i rfl)] at moves ⊢
    split at moves
    next status body rowPending _ =>
      cases moves
      refine ⟨_, rfl, fun j isOther' => update_related _ (related.phase j isOther'),
        related.decided, fun key foreign => ?_,
        related.rows⟩
      cases done with
      | true => exact writeCache_related (related.cache key foreign)
      | false => exact related.cache key foreign
    next => cases moves
  | rowStored i done =>
    simp only [next, related.phase i (isOther i rfl)] at moves ⊢
    split at moves
    next status body cachePending _ =>
      cases moves
      refine ⟨_, rfl, fun j isOther' => update_related _ (related.phase j isOther'),
        related.decided, related.cache,
        fun region digest foreign => ?_⟩
      cases done with
      | true =>
        refine writeRow_related (fun header ownRegion isHeader isFallback => ?_)
          (related.rows region digest foreign)
        exact related.rows _ _ fun j header' isOccurring isUser isHeader' inRegion =>
          ownRow i rfl header ownRegion isHeader isFallback j header' isOccurring isUser
            isHeader' inRegion
      | false => exact related.rows region digest foreign
    next => cases moves
  | expire key =>
    cases moves
    refine ⟨_, rfl, related.phase, related.decided, fun key' foreign => ?_, related.rows⟩
    show Function.update s'.cache key none key' = Function.update s.cache key none key'
    by_cases same : key' = key
    · rw [same, Function.update_self, Function.update_self]
    · rw [Function.update_of_ne same, Function.update_of_ne same, related.cache key' foreign]

/-! ## Histories -/

theorem related_run {es : List Event} (injective : Function.Injective sha256)
    (related : Related options sha256 request userId occurs s s')
    (occurring : ∀ i, Occurs es i → occurs i)
    (apart : ∀ i j, occurs i → occurs j → (request i).userId = some userId →
      (request j).userId ≠ some userId → ¬ Collide options (request i) (request j))
    (runs : run options sha256 request es s = some t) :
    ∃ t', run options sha256 request (without request userId es) s' = some t' ∧
      Related options sha256 request userId occurs t t' := by
  induction es generalizing s s' with
  | nil =>
    cases runs
    exact ⟨s', rfl, related⟩
  | cons e es inductionHypothesis =>
    obtain ⟨middle, moves, rest⟩ := Option.bind_eq_some_iff.1 runs
    have later : ∀ i, Occurs es i → occurs i := fun i ⟨e', member, isRequest⟩ =>
      occurring i ⟨e', List.mem_cons_of_mem e member, isRequest⟩
    have now : ∀ i, e.request = some i → occurs i :=
      fun i isRequest => occurring i ⟨e, List.mem_cons_self, isRequest⟩
    -- A step of another user is made in both runs, one of the user's own in the first only.
    by_cases kept : notOf request userId e = true
    · have isOther : ∀ i, e.request = some i → (request i).userId ≠ some userId := by
        intro i isRequest
        simpa [notOf, isRequest] using kept
      obtain ⟨middle', moves', related'⟩ := related_other injective related isOther
        (fun i isRequest j isOccurring isUser => apart j i isOccurring (now i isRequest) isUser
        (isOther i isRequest)) moves
      obtain ⟨t', rest', related''⟩ := inductionHypothesis related' later rest
      refine ⟨t', ?_, related''⟩
      simp only [without, List.filter_cons_of_pos kept, run, moves', Option.bind_some]
      exact rest'
    · obtain ⟨i, isRequest, isUser⟩ : ∃ i, e.request = some i ∧
          (request i).userId = some userId := by
        unfold notOf at kept
        split at kept
        next i isRequest => exact ⟨i, isRequest, by simpa using kept⟩
        next => exact absurd rfl kept
      have related' := related_own related isRequest isUser (now i isRequest) moves
      obtain ⟨t', rest', related''⟩ := inductionHypothesis related' later rest
      refine ⟨t', ?_, related''⟩
      simp only [without, List.filter_cons_of_neg kept]
      exact rest'

/-- Without one user's requests, the middleware decides another user's requests as it did. -/
def Isolated (options : IdempotencyOptions) (sha256 : String → Digest) (request : ℕ → Request)
    (condition : ℕ → List Event → Prop) : Prop :=
  ∀ userA userB es s, userA ≠ userB → condition userA es →
  run options sha256 request es (.start Digest) = some s →
    ∃ s', run options sha256 request (without request userA es) (.start Digest) = some s' ∧
      ∀ i, (request i).userId = some userB → s'.decided i = s.decided i

theorem users_with_keys_apart_are_isolated (options : IdempotencyOptions) (sha256 : String → Digest)
    (injective : Function.Injective sha256) (request : ℕ → Request) :
    Isolated options sha256 request (KeysApart options request) := by
  intro userA userB es s different apart runs
  obtain ⟨s', runs', related⟩ :=
    related_run injective related_refl (fun _ isOccurring => isOccurring) apart runs
  refine ⟨s', runs', fun i isB => related.decided i ?_⟩
  rw [isB]
  exact fun same => different (Option.some.inj same).symm

end

/-! ## Two users -/

/-- An order of a user, in Egypt. -/
def orderOf (userId : ℕ) (key : String) : Request where
  method := "POST"
  originalUrl := "/api/orders"
  region := some "eg"
  userId := some userId
  idempotencyKey := some key
  body := "\x7b\x7d"

def withTable : IdempotencyOptions := { strict := true, persistToDb := true }

/-- Redis is down at the lookups while user 1 and then user 2 order. -/
def withoutRedis : List Event :=
  [.lookup 1 false true, .respond 1 201 "order of user 1", .rowStored 1 true, .lookup 2 false true]

theorem keysApart_of_other_keys :
    KeysApart withTable (fun i => orderOf i (toString i)) 1 withoutRedis := by
  rintro i j - ⟨e, member, isStep⟩ isFirst notFirst ⟨key, key', isKey, isKey', same⟩
  obtain rfl : i = 1 := Option.some.inj isFirst
  obtain rfl : j = 2 := by
    have either : j = 1 ∨ j = 2 := by
      simp only [withoutRedis, List.mem_cons, List.not_mem_nil, or_false] at member
      rcases member with rfl | rfl | rfl | rfl <;> cases isStep <;> simp
    exact either.resolve_left fun isOne => notFirst (by rw [isOne]; rfl)
  cases isKey
  cases isKey'
  revert same
  decide

theorem users_with_other_keys_are_isolated :
    ∃ s s', run withTable (id : String → String) (fun i => orderOf i (toString i)) withoutRedis
      (.start String) = some s ∧
      run withTable (id : String → String) (fun i => orderOf i (toString i))
        (without (fun i => orderOf i (toString i)) 1 withoutRedis)
        (.start String) = some s' ∧
      s.decided 2 = some .handle ∧ s'.decided 2 = s.decided 2 := by
  have handled : (run withTable (id : String → String) (fun i => orderOf i (toString i))
      withoutRedis (.start String)).map
      (fun s => s.decided 2) = some (some .handle) := by decide +kernel
  obtain ⟨s, runs, isHandled⟩ := Option.map_eq_some_iff.1 handled
  have isolated := users_with_keys_apart_are_isolated withTable id Function.injective_id fun i =>
      orderOf i (toString i)
  obtain ⟨s', runs', same⟩ := isolated 1 2 withoutRedis s (by decide) keysApart_of_other_keys runs
  exact ⟨s, s', runs, runs', isHandled, same 2 rfl⟩

/-- Under one key the second user gets the first one's response. -/
theorem users_share_the_table :
    ¬ Isolated withTable (id : String → String) (fun i => orderOf i "1") fun _ _ => True := by
  intro isolated
  have replayed : (run withTable (id : String → String) (fun i => orderOf i "1") withoutRedis
      (.start String)).map
      (fun s => s.decided 2) = some (some (.replay 200 "order of user 1")) := by decide
  obtain ⟨s, runs, isReplayed⟩ := Option.map_eq_some_iff.1 replayed
  obtain ⟨s', runs', same⟩ := isolated 1 2 withoutRedis s (by decide) trivial runs
  have handled : (run withTable (id : String → String) (fun i => orderOf i "1")
      (without (fun i => orderOf i "1") 1 withoutRedis)
      (.start String)).map (fun s => s.decided 2) = some (some .handle) := by decide
  rw [runs', Option.map_some, same 2 rfl, isReplayed] at handled
  cases handled

end SwiftBite.Verified.UserIsolation
