import SwiftBite.Http.IdempotencyInTime

/-! # One contract for two stores

What the middleware promises is a function of the history: the latest handled request with
the same method, URL and key counts, if it is recent.  What it does is a function of one of
two other histories: Redis has the latest response under its key that was handled while
Redis was up, and the table has the first one ever.
-/

set_option autoImplicit false

namespace SwiftBite.Verified.StoreContract

open Idempotency

/-- The options of the critical write paths. -/
def critical (ttlSeconds : ℕ) : TimedOptions := { strict := true, persistToDb := true, ttlSeconds }

/-! ## The contract -/

/-- What makes two requests the same operation. -/
def named (request : KeyedRequest) : String × String × String :=
  (request.method, request.originalUrl, request.idempotencyKey)

/-- The latest success of the same operation less than `ttlSeconds` ago. -/
def earlierSuccess (ttlSeconds : ℕ) (successes : List Success) (now : ℕ)
    (request : KeyedRequest) : Option Success :=
  successes.reverse.find? fun earlier =>
    decide (named earlier.visit.request = named request ∧
      now < earlier.answeredAt + ttlSeconds * 1000)

/-- The outcome that a success calls for. -/
def dueTo (earlier : Success) (status : ℕ) (visit : Visit) : Outcome :=
  if earlier.visit.request.body = visit.request.body then .replayed status earlier.visit.answer
  else .refused (Err.appError "IdempotencyConflict" 409)

/-- The outcome that the contract asks for. -/
def promised (ttlSeconds : ℕ) (successes : List Success) (now : ℕ) (visit : Visit) : Outcome :=
  match earlierSuccess ttlSeconds successes (now + visit.gap) visit.request with
  | none => .handled visit.status visit.answer
  | some earlier => dueTo earlier earlier.visit.status visit

section

variable {Digest : Type} [DecidableEq Digest]

/-- Every request of a sequence meets a condition when it is served. -/
def Throughout (ttlSeconds : ℕ) (sha256 : String → Digest) (client : Client)
    (holds : Timeline Digest → Visit → Prop) : Timeline Digest → List Visit → Prop
  | _, [] => True
  | t, visit :: visits =>
    holds t visit ∧ Throughout ttlSeconds sha256 client holds
      (t.serve (critical ttlSeconds) sha256 client visit).2 visits

/-- The request gets what the contract asks for. -/
def Kept (ttlSeconds : ℕ) (sha256 : String → Digest) (client : Client) (t : Timeline Digest)
    (visit : Visit) : Prop :=
  (t.serve (critical ttlSeconds) sha256 client visit).1 =
    promised ttlSeconds t.successes t.now visit

/-- Every request of a sequence gets what the contract asks for. -/
def Honoured (ttlSeconds : ℕ) (sha256 : String → Digest) (client : Client)
    (visits : List Visit) : Prop :=
  Throughout ttlSeconds sha256 client (Kept ttlSeconds sha256 client) (.start Digest) visits

/-! ## What the stores keep -/

def redisKey (client : Client) (request : KeyedRequest) : String :=
  (client.request request).cacheKey request.idempotencyKey

def tableKey (client : Client) (request : KeyedRequest) : String :=
  (client.request request).rowKey request.idempotencyKey

/-- The success whose response Redis has. -/
def keptByRedis (ttlSeconds : ℕ) (client : Client) (successes : List Success) (now : ℕ)
    (request : KeyedRequest) : Option Success :=
  (successes.reverse.find? fun earlier =>
    earlier.visit.redisUp && decide
      (redisKey client earlier.visit.request = redisKey client request)).filter fun earlier =>
      alive now (expiry ttlSeconds earlier.answeredAt)

/-- The success whose response the table has. -/
def keptByTable (client : Client) (successes : List Success)
    (request : KeyedRequest) : Option Success :=
  successes.find? fun earlier =>
    decide (tableKey client earlier.visit.request = tableKey client request)

/-- The success that the request finds in the store that it asks. -/
def found (ttlSeconds : ℕ) (client : Client) (successes : List Success) (now : ℕ)
    (visit : Visit) : Option Success :=
  if visit.redisUp then keptByRedis ttlSeconds client successes (now + visit.gap) visit.request
  else keptByTable client successes visit.request

/-- The store that is asked has the success that counts, or one that leads to the same outcome;
and that outcome is a 409 or has the status 200. -/
def StoreAgrees (ttlSeconds : ℕ) (client : Client) (t : Timeline Digest) (visit : Visit) : Prop :=
  match earlierSuccess ttlSeconds t.successes (t.now + visit.gap) visit.request,
    found ttlSeconds client t.successes t.now visit with
  | none, none => True
  | some earlier, some kept =>
    (kept.visit.request.body = visit.request.body ↔
      earlier.visit.request.body = visit.request.body) ∧
      (earlier.visit.request.body = visit.request.body →
        earlier.visit.status = 200 ∧ kept.visit.answer = earlier.visit.answer)
  | _, _ => False

/-- Whenever a request of the sequence is served, the store that it asks agrees with the history. -/
def StoresAgree (ttlSeconds : ℕ) (sha256 : String → Digest) (client : Client)
    (visits : List Visit) : Prop :=
  Throughout ttlSeconds sha256 client (StoreAgrees ttlSeconds client) (.start Digest) visits

/-- The stores hold what the history says. -/
structure Mirrors (ttlSeconds : ℕ) (sha256 : String → Digest) (client : Client)
    (t : Timeline Digest) : Prop where
  cache : ∀ key, t.stores.cache key = (t.successes.reverse.find? fun earlier =>
    earlier.visit.redisUp &&
      decide (redisKey client earlier.visit.request = key)).map fun earlier =>
      (⟨sha256 earlier.visit.request.body, earlier.visit.status, earlier.visit.answer⟩,
        expiry ttlSeconds earlier.answeredAt)
  rows : ∀ digest, t.stores.rows client.region digest = (t.successes.find? fun earlier =>
    decide (sha256 (tableKey client earlier.visit.request) = digest)).map fun earlier =>
      ⟨some client.userId, sha256 earlier.visit.request.body, earlier.visit.status,
        earlier.visit.answer⟩

section

variable {ttlSeconds : ℕ} {sha256 : String → Digest} {client : Client} {t : Timeline Digest}
  {visit : Visit}

@[simp] theorem headerKey_request (client : Client) (keyed : KeyedRequest) :
    (client.request keyed).headerKey = some keyed.idempotencyKey := by
  simp [Request.headerKey, Client.request, keyed.idempotent, truthy, keyed.present]

@[simp] theorem fallback_request (client : Client) (keyed : KeyedRequest) (ttlSeconds : ℕ) :
    (client.request keyed).fallback (critical ttlSeconds).toIdempotencyOptions =
      some client.region := by
  simp [Request.fallback, critical, Client.request, truthy, client.identified, client.resolved]

theorem mirrors_start : Mirrors ttlSeconds sha256 client (.start Digest) :=
  ⟨fun _ => rfl, fun _ => rfl⟩

theorem mirrors_handle (mirrors : Mirrors ttlSeconds sha256 client t) :
    Mirrors ttlSeconds sha256 client (t.handle (critical ttlSeconds) sha256 client visit) := by
  unfold Timeline.handle
  split
  swap
  · exact ⟨mirrors.cache, mirrors.rows⟩
  refine ⟨fun key => ?_, fun digest => ?_⟩
  · simp only [List.reverse_append, List.reverse_cons, List.reverse_nil, List.nil_append,
      List.singleton_append]
    cases isUp : visit.redisUp with
    | false => simp [Stores.setCache, isUp, mirrors.cache key]
    | true =>
      by_cases same : redisKey client visit.request = key
      · subst same
        simp [Stores.setCache, isUp, redisKey, critical]
      · have other : key ≠ (client.request visit.request).cacheKey visit.request.idempotencyKey :=
          Ne.symm same
        simp [Stores.setCache, isUp, same, Function.update_of_ne other, mirrors.cache key]
  · have there := mirrors.rows (sha256 (tableKey client visit.request))
    have asked : (client.request visit.request).rowKey visit.request.idempotencyKey =
        tableKey client visit.request := rfl
    rw [List.find?_append]
    cases isKnown : t.successes.find? fun earlier =>
        decide (sha256 (tableKey client earlier.visit.request) =
          sha256 (tableKey client visit.request)) with
    | some first =>
      rw [isKnown] at there
      -- The row that is there stays, and no later success has its key first.
      simp only [Stores.setRow, headerKey_request, fallback_request, asked, there, Option.map_some,
        mirrors.rows digest]
      by_cases same : sha256 (tableKey client visit.request) = digest
      · simp [← same, isKnown]
      · simp [same]
    | none =>
      rw [isKnown] at there
      simp only [Stores.setRow, headerKey_request, fallback_request, asked, there, Option.map_none,
        Function.update_self]
      by_cases same : sha256 (tableKey client visit.request) = digest
      · simp [← same, isKnown]
      · simp [same, Function.update_of_ne (Ne.symm same), mirrors.rows digest]

theorem mirrors_serve (mirrors : Mirrors ttlSeconds sha256 client t) :
    Mirrors ttlSeconds sha256 client (t.serve (critical ttlSeconds) sha256 client visit).2 := by
  unfold Timeline.serve
  split
  · exact ⟨mirrors.cache, mirrors.rows⟩
  · exact mirrors_handle mirrors
  · exact ⟨mirrors.cache, mirrors.rows⟩
  · exact ⟨mirrors.cache, mirrors.rows⟩

/-! ## What is answered -/

/-- Redis answers with the success that the history names. -/
theorem get_of_mirrors (mirrors : Mirrors ttlSeconds sha256 client t) (now : ℕ)
    (request : KeyedRequest) :
    t.stores.get now (redisKey client request) =
      (keptByRedis ttlSeconds client t.successes now request).map fun kept =>
      ⟨sha256 kept.visit.request.body, kept.visit.status, kept.visit.answer⟩ := by
  rw [Stores.get, mirrors.cache, keptByRedis]
  cases t.successes.reverse.find? _ with
  | none => rfl
  | some kept =>
    simp only [Option.map_some, Option.filter_some]
    split <;> rfl

theorem row_of_mirrors (injective : Function.Injective sha256)
    (mirrors : Mirrors ttlSeconds sha256 client t) (request : KeyedRequest) :
    t.stores.rows client.region (sha256 (tableKey client request)) =
      (keptByTable client t.successes request).map fun kept =>
      ⟨some client.userId, sha256 kept.visit.request.body, kept.visit.status,
        kept.visit.answer⟩ := by
  rw [mirrors.rows, keptByTable]
  simp only [injective.eq_iff]

/-- The outcome depends on the success that the asked store has; the status is always 200. -/
theorem serve_of_mirrors (injective : Function.Injective sha256)
    (mirrors : Mirrors ttlSeconds sha256 client t) :
    (t.serve (critical ttlSeconds) sha256 client visit).1 =
      match found ttlSeconds client t.successes t.now visit with
      | none => .handled visit.status visit.answer
      | some kept => dueTo kept 200 visit := by
  have redis := get_of_mirrors mirrors (t.now + visit.gap) visit.request
  have row := row_of_mirrors injective mirrors visit.request
  rw [redisKey] at redis
  rw [tableKey] at row
  have method : (client.request visit.request).method ∈ IDEMPOTENT_METHODS :=
    visit.request.idempotent
  have body : (client.request visit.request).body = visit.request.body := rfl
  -- Redis is asked, or the table while Redis is down.
  have decides : t.decision (critical ttlSeconds) sha256 client visit =
      match found ttlSeconds client t.successes t.now visit with
      | none => .handle
      | some kept =>
        if kept.visit.request.body = visit.request.body then .replay 200 kept.visit.answer
        else .refuse (Err.appError "IdempotencyConflict" 409) := by
    simp only [Timeline.decision, decideRequest, method, not_true_eq_false, if_false,
      headerKey_request, fallback_request,
      Option.bind_some, redis, row, body, found]
    cases visit.redisUp with
    | true =>
      cases keptByRedis ttlSeconds client t.successes (t.now + visit.gap) visit.request with
      | none => rfl
      | some kept => simp [injective.eq_iff]
    | false =>
      cases keptByTable client t.successes visit.request with
      | none => rfl
      | some kept => simp [decideFromTable, injective.eq_iff, eq_comm]
  unfold Timeline.serve
  rw [decides]
  cases found ttlSeconds client t.successes t.now visit with
  | none => rfl
  | some kept =>
    by_cases agree : kept.visit.request.body = visit.request.body
    · simp [dueTo, agree]
    · simp [dueTo, agree]

theorem dueTo_eq_iff {kept earlier : Success} :
    dueTo kept 200 visit = dueTo earlier earlier.visit.status visit ↔
      (kept.visit.request.body = visit.request.body ↔
        earlier.visit.request.body = visit.request.body) ∧
        (earlier.visit.request.body = visit.request.body →
          earlier.visit.status = 200 ∧ kept.visit.answer = earlier.visit.answer) := by
  unfold dueTo
  by_cases keptAgrees : kept.visit.request.body = visit.request.body
  · by_cases agrees : earlier.visit.request.body = visit.request.body
    · simp [keptAgrees, agrees, eq_comm]
    · simp [keptAgrees, agrees]
  · by_cases agrees : earlier.visit.request.body = visit.request.body
    · simp [keptAgrees, agrees]
    · simp [keptAgrees, agrees]

/-- One request gets what the contract asks for exactly when the asked store agrees. -/
theorem kept_iff (injective : Function.Injective sha256)
    (mirrors : Mirrors ttlSeconds sha256 client t) :
    Kept ttlSeconds sha256 client t visit ↔ StoreAgrees ttlSeconds client t visit := by
  rw [Kept, serve_of_mirrors injective mirrors, promised, StoreAgrees]
  cases earlierSuccess ttlSeconds t.successes (t.now + visit.gap) visit.request with
  | none =>
    cases found ttlSeconds client t.successes t.now visit with
    | none => simp
    | some kept =>
      simp only [dueTo]
      split <;> simp
  | some earlier =>
    cases found ttlSeconds client t.successes t.now visit with
    | none =>
      simp only [dueTo]
      split <;> simp
    | some kept => exact dueTo_eq_iff

theorem throughout_iff (injective : Function.Injective sha256)
    (mirrors : Mirrors ttlSeconds sha256 client t) (visits : List Visit) :
    Throughout ttlSeconds sha256 client (Kept ttlSeconds sha256 client) t visits ↔
      Throughout ttlSeconds sha256 client (StoreAgrees ttlSeconds client) t visits := by
  induction visits generalizing t with
  | nil => exact Iff.rfl
  | cons visit visits inductionHypothesis =>
    exact and_congr (kept_iff injective mirrors) (inductionHypothesis (mirrors_serve mirrors))

end

/-! ## Among the steps of other requests -/

section Interleaved

variable {options : TimedOptions} {sha256 : String → Digest} {client : Client} {t : Timeline Digest}
  {visit : Visit}
  {request : ℕ → Request} {i : ℕ} {s : State Digest}

omit [DecidableEq Digest] in
/-- An entry that is there later was there before, or has been written since. -/
theorem get_later {stores : Stores Digest} {now later : ℕ} (since : now ≤ later) {key : String}
    {entry : CachedEntry Digest} (there : stores.get later key = some entry) :
    stores.get now key = some entry := by
  rw [Stores.get, Option.map_eq_some_iff] at there ⊢
  obtain ⟨kept, isKept, rfl⟩ := there
  obtain ⟨inCache, isAlive⟩ := Option.filter_eq_some_iff.1 isKept
  refine ⟨kept, Option.filter_eq_some_iff.2 ⟨inCache, ?_⟩, rfl⟩
  cases isExpiry : kept.2 with
  | none => rfl
  | some time =>
    simp only [alive, isExpiry, Option.all_some, decide_eq_true_eq] at isAlive ⊢
    omega

/-- The state of the interleaved middleware in which a request arrives. -/
structure Arrives (client : Client) (t : Timeline Digest) (visit : Visit) (request : ℕ → Request)
    (i : ℕ) (s : State Digest) : Prop where
  isRequest : request i = client.request visit.request
  fresh : s.phase i = .fresh
  cache : s.cache = t.stores.get (t.now + visit.gap)
  rows : s.rows = t.stores.rows

theorem decisionFor_of_arrives (arrives : Arrives client t visit request i s) :
    decisionFor options.toIdempotencyOptions sha256 request s i visit.redisUp true =
      t.decision options sha256 client visit := by
  simp only [decisionFor, redisAnswer, tableAnswer, arrives.isRequest, arrives.cache, arrives.rows]
  rfl

/-- The interleaved middleware has decided so about request `i`, and has these stores but for what
has expired. -/
structure Reaches (after : Timeline Digest) (decision : Decision) (i : ℕ)
    (s : State Digest) : Prop where
  decided : s.decided i = some decision
  rows : s.rows = after.stores.rows
  cache : ∀ key entry, after.stores.get after.now key = some entry → s.cache key = some entry

omit [DecidableEq Digest] in
theorem get_setCache {stores : Stores Digest}
    {rows : String → Digest → Option (IdempotencyRow Digest)} {answeredAt : ℕ}
    (isUp : visit.redisUp = true) {key : String} {entry : CachedEntry Digest}
    (there : (⟨stores.setCache options sha256 client visit answeredAt, rows⟩ : Stores Digest).get
      answeredAt key = some entry) :
    (key = redisKey client visit.request ∧
      entry = ⟨sha256 visit.request.body, visit.status, visit.answer⟩) ∨
      (key ≠ redisKey client visit.request ∧ stores.get answeredAt key = some entry) := by
  by_cases same : key = redisKey client visit.request
  · subst same
    simp only [Stores.get, Stores.setCache, isUp, headerKey_request, redisKey, Function.update_self,
      Option.map_eq_some_iff] at there
    obtain ⟨kept, isKept, rfl⟩ := there
    obtain ⟨isEntry, _⟩ := Option.filter_eq_some_iff.1 isKept
    cases isEntry
    exact .inl ⟨rfl, rfl⟩
  · have other : key ≠ (client.request visit.request).cacheKey visit.request.idempotencyKey := same
    simp only [Stores.get, Stores.setCache, isUp, headerKey_request,
      Function.update_of_ne other] at there
    exact .inr ⟨same, there⟩

omit [DecidableEq Digest] in
theorem writeCache_eq (isRequest : request i = client.request visit.request) :
    writeCache sha256 request s i visit.status visit.answer =
      Function.update s.cache (redisKey client visit.request)
      (some ⟨sha256 visit.request.body, visit.status, visit.answer⟩) := by
  simp only [writeCache, isRequest, headerKey_request]
  rfl

theorem writeRow_eq (isRequest : request i = client.request visit.request)
    (rows : s.rows = t.stores.rows) :
    writeRow options.toIdempotencyOptions sha256 request s i visit.status visit.answer =
      t.stores.setRow options sha256 client visit := by
  simp only [writeRow, Stores.setRow, isRequest, rows]
  rfl

/-- What the handler's part leaves, when its response is a success. -/
theorem reaches_success {decision : Decision} {s' : State Digest}
    (isRequest : request i = client.request visit.request)
    (cache : ∀ later, t.now + visit.gap ≤ later → ∀ key entry, t.stores.get later key = some entry →
      s.cache key = some entry) (decided : s'.decided i = some decision)
    (rows : s'.rows = t.stores.setRow options sha256 client visit)
    (written : s'.cache =
      if visit.redisUp then writeCache sha256 request s i visit.status visit.answer else s.cache)
    (success : Idempotency.succeeds visit.status = true) :
    Reaches (t.handle options sha256 client visit) decision i s' := by
  have since : t.now + visit.gap ≤ t.now + visit.gap + visit.took := by omega
  simp only [Timeline.handle, success, if_true]
  refine ⟨decided, rows, fun key entry there => ?_⟩
  rw [written]
  cases isUp : visit.redisUp with
  | false =>
    simp only [Stores.get, Stores.setCache, isUp] at there
    exact cache _ since key entry there
  | true =>
    rw [if_pos rfl, writeCache_eq isRequest]
    obtain ⟨rfl, rfl⟩ | ⟨other, there⟩ := get_setCache isUp there
    · exact Function.update_self _ _ _
    · rw [Function.update_of_ne other]
      exact cache _ since key entry there

/-- The handler's part: its response, and the two writes if it is a success. -/
theorem handle_is_run {decision : Decision} (isRequest : request i = client.request visit.request)
    (running : s.phase i = .handling) (decided : s.decided i = some decision)
    (rows : s.rows = t.stores.rows)
    (cache : ∀ later, t.now + visit.gap ≤ later → ∀ key entry, t.stores.get later key = some entry →
      s.cache key = some entry) :
    ∃ es s', run options.toIdempotencyOptions sha256 request es s = some s' ∧
      Reaches (t.handle options sha256 client visit) decision i s' := by
  cases success : Idempotency.succeeds visit.status with
  | false =>
    refine ⟨[.respond i visit.status visit.answer],
      respond options.toIdempotencyOptions request s i visit.status visit.answer, ?_, ?_⟩
    · simp [run, next, running]
    · simp only [Timeline.handle, success, Bool.false_eq_true, if_false]
      exact ⟨decided, rows,
        cache _ (show t.now + visit.gap ≤ t.now + visit.gap + visit.took by omega)⟩
  | true =>
    -- The state once Redis has been written, with the write of the row pending or not.
    let cached (rowPending : Bool) : State Digest :=
      { s with
        cache :=
          if visit.redisUp then writeCache sha256 request s i visit.status visit.answer else s.cache
        phase := Function.update
          (Function.update s.phase i (.sent visit.status visit.answer true rowPending)) i
          (sentPhase visit.status visit.answer false rowPending) }
    cases isFallback : (client.request visit.request).fallback options.toIdempotencyOptions with
    | none =>
      refine ⟨[.respond i visit.status visit.answer, .cacheStored i visit.redisUp],
        cached false, ?_,
        reaches_success isRequest cache decided ?_ rfl success⟩
      · simp only [run, next, running, respond, success, isRequest, isFallback, Option.bind_some,
          Function.update_self, if_true]
        rfl
      · simp only [Stores.setRow, headerKey_request, isFallback]
        exact rows
    | some region =>
      refine ⟨[.respond i visit.status visit.answer, .cacheStored i visit.redisUp,
        .rowStored i true],
        { cached true with
          rows := writeRow options.toIdempotencyOptions sha256 request s i visit.status visit.answer
          phase := Function.update (cached true).phase i .over }, ?_,
        reaches_success isRequest cache decided (writeRow_eq isRequest rows) rfl success⟩
      have pending : (cached true).phase i = .sent visit.status visit.answer false true :=
        Function.update_self _ _ _
      have stored : run options.toIdempotencyOptions sha256 request
          [.respond i visit.status visit.answer, .cacheStored i visit.redisUp] s =
          some (cached true) := by
        simp only [run, next, running, respond, success, isRequest, isFallback, Option.bind_some,
          Function.update_self, if_true]
        rfl
      rw [show [Event.respond i visit.status visit.answer, .cacheStored i visit.redisUp,
        .rowStored i true] =
        [.respond i visit.status visit.answer, .cacheStored i visit.redisUp] ++
          [.rowStored i true] from rfl, run_append, stored]
      simp only [Option.bind_some, run, next, pending]
      rfl

/-- A request that is served alone makes the steps of the interleaved middleware. -/
theorem serve_is_run (arrives : Arrives client t visit request i s) :
    ∃ es s', run options.toIdempotencyOptions sha256 request es s = some s' ∧
      Reaches (t.serve options sha256 client visit).2
        (t.decision options sha256 client visit) i s' := by
  have decides : decisionFor options.toIdempotencyOptions sha256 request s i visit.redisUp true =
      t.decision options sha256 client visit := decisionFor_of_arrives arrives
  have looks : next options.toIdempotencyOptions sha256 request s (.lookup i visit.redisUp true) =
      some (lookup options.toIdempotencyOptions sha256 request s i visit.redisUp true) := by
    simp only [next, arrives.fresh]
  have decided :
      (lookup options.toIdempotencyOptions sha256 request s i visit.redisUp true).decided i =
      some (t.decision options sha256 client visit) := by
    simp [lookup, decides]
  have stays : ∀ later, t.now + visit.gap ≤ later →
      ∀ key entry, t.stores.get later key = some entry → s.cache key = some entry := by
    intro later since key entry there
    rw [arrives.cache]
    exact get_later since there
  -- Without the handler the look is all.
  have quiet : ∀ later, t.now + visit.gap ≤ later →
      Reaches { t with now := later } (t.decision options sha256 client visit) i
        (lookup options.toIdempotencyOptions sha256 request s i visit.redisUp true) :=
    fun later since => ⟨decided, arrives.rows, stays later since⟩
  have looked : run options.toIdempotencyOptions sha256 request [.lookup i visit.redisUp true] s =
      some (lookup options.toIdempotencyOptions sha256 request s i visit.redisUp true) := by
    simp [run, looks]
  unfold Timeline.serve
  cases isDecision : t.decision options sha256 client visit with
  | pass => rw [isDecision] at quiet; exact ⟨_, _, looked, quiet _ (by omega)⟩
  | replay status answer => rw [isDecision] at quiet; exact ⟨_, _, looked, quiet _ le_rfl⟩
  | refuse err => rw [isDecision] at quiet; exact ⟨_, _, looked, quiet _ le_rfl⟩
  | handle =>
    have running : (lookup options.toIdempotencyOptions sha256 request s i visit.redisUp true).phase
        i = .handling := by
      simp [lookup, decides, isDecision]
    have rest : ∃ es s', run options.toIdempotencyOptions sha256 request es
        (lookup options.toIdempotencyOptions sha256 request s i visit.redisUp true) = some s' ∧
          Reaches (t.handle options sha256 client visit) .handle i s' :=
      handle_is_run arrives.isRequest running (decided.trans (by rw [isDecision]))
        arrives.rows stays
    obtain ⟨es, s', steps, reaches⟩ := rest
    exact ⟨.lookup i visit.redisUp true :: es, s', by rw [run, looks]; exact steps, reaches⟩

end Interleaved

theorem contract_is_honoured_iff (ttlSeconds : ℕ) (sha256 : String → Digest)
    (injective : Function.Injective sha256) (client : Client) (visits : List Visit) :
    Honoured ttlSeconds sha256 client visits ↔ StoresAgree ttlSeconds sha256 client visits :=
  throughout_iff injective mirrors_start visits

end

/-! ## An order placed twice -/

instance decidableThroughout {Digest : Type} [DecidableEq Digest] (ttlSeconds : ℕ)
    (sha256 : String → Digest) (client : Client) (holds : Timeline Digest → Visit → Prop)
    [∀ t visit, Decidable (holds t visit)] :
    ∀ t visits, Decidable (Throughout ttlSeconds sha256 client holds t visits)
  | _, [] => .isTrue trivial
  | t, visit :: visits =>
    have := decidableThroughout ttlSeconds sha256 client holds
      (t.serve (critical ttlSeconds) sha256 client visit).2 visits
    inferInstanceAs (Decidable (_ ∧ _))

instance {Digest : Type} [DecidableEq Digest] (ttlSeconds : ℕ) (sha256 : String → Digest)
    (client : Client) (t : Timeline Digest) (visit : Visit) :
    Decidable (Kept ttlSeconds sha256 client t visit) :=
  inferInstanceAs (Decidable (_ = _))

instance {Digest : Type} [DecidableEq Digest] (ttlSeconds : ℕ) (sha256 : String → Digest)
    (client : Client) (visits : List Visit) :
    Decidable (Honoured ttlSeconds sha256 client visits) :=
  decidableThroughout _ _ _ _ _ _

def customer : Client := ⟨7, "eg", by decide, by decide⟩

def order : KeyedRequest := ⟨"POST", "/api/orders", "key", "\x7b\x7d", by decide, by decide⟩

/-- The customer sends the order twice, the second time while Redis is down; the handler would
answer so. -/
def sentTwice (status : ℕ) : List Visit :=
  [⟨order, true, 0, 50, status, "order 1"⟩, ⟨order, false, 1000, 50, status, "order 2"⟩]

theorem stores_agree_on_a_response_of_200 :
    StoresAgree 86400 (id : String → String) customer (sentTwice 200) :=
  (contract_is_honoured_iff 86400 id Function.injective_id customer
    (sentTwice 200)).1 (by decide +kernel)

/-- A created order is replayed as if it had not been created. -/
theorem response_of_201_is_replayed_as_200 :
    ¬ Honoured 86400 (id : String → String) customer (sentTwice 201) := by
  decide +kernel

end SwiftBite.Verified.StoreContract
