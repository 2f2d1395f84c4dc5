import SwiftBite.Data.Shared

/-! # The idempotency middleware

`idempotency(options)` and its two stores: Redis, and the table `idempotency_keys` when
Redis does not answer.  A request looks its key up, its handler runs, and the response is
stored after it has been sent, so the steps of different requests interleave.
-/

set_option autoImplicit false

namespace SwiftBite

namespace Idempotency

structure IdempotencyOptions where
  strict : Bool := false
  persistToDb : Bool := false

structure Request where
  method : String
  originalUrl : String
  region : Option String
  /-- `req.user?.userId` -/
  userId : Option ℕ
  /-- `req.header("Idempotency-Key")` -/
  idempotencyKey : Option String
  /-- `JSON.stringify(req.body ?? {})` -/
  body : String
  deriving DecidableEq

def IDEMPOTENT_METHODS : List String := ["POST", "PATCH", "PUT"]

/-- An empty string counts as absent. -/
def truthy (text : Option String) : Option String := text.filter (· ≠ "")

/-- The header of a request that the middleware looks at. -/
def Request.headerKey (request : Request) : Option String :=
  if request.method ∈ IDEMPOTENT_METHODS then truthy request.idempotencyKey else none

def Request.userText (request : Request) : String :=
  match request.userId with
  | some userId => toString userId
  | none => "anon"

/-- The key of the entry in Redis. -/
def Request.cacheKey (request : Request) (idempotencyKey : String) : String :=
  "idempotency:" ++ request.method ++ ":" ++ request.originalUrl ++ ":" ++ request.userText ++
    ":" ++ idempotencyKey

/-- What `hashKey` hashes. -/
def Request.rowKey (request : Request) (idempotencyKey : String) : String :=
  request.method ++ ":" ++ request.originalUrl ++ ":" ++ idempotencyKey

/-- `canUseDbFallback`, with the region whose table is used. -/
def Request.fallback (options : IdempotencyOptions) (request : Request) : Option String :=
  if options.persistToDb = true ∧ (request.userId.filter (· ≠ 0)).isSome = true then
    (truthy request.region).filter (· ≠ "all")
  else none

section

variable {Digest : Type} [DecidableEq Digest]

structure CachedEntry (Digest : Type) where
  fingerprint : Digest
  status : ℕ
  body : String

/-- A row of `idempotency_keys`, below its `key_hash`. -/
structure IdempotencyRow (Digest : Type) where
  userId : Option ℕ
  requestFingerprint : Digest
  responseStatus : ℕ
  responseBody : String

/-- What the middleware does with a request. -/
inductive Decision where
  /-- `next()`, and the response is not stored. -/
  | pass
  /-- `next()`, and a response of success is stored. -/
  | handle
  | replay (status : ℕ) (body : String)
  | refuse (err : Err)
  deriving DecidableEq

/-- What a store answers: nothing when it is down, else what it has. -/
abbrev Answer (α : Type) := Option (Option α)

/-- `tryGet`, and the decision on it. -/
def decideFromTable (options : IdempotencyOptions) (fingerprint : Digest)
    (table : Answer (IdempotencyRow Digest)) : Decision :=
  match table with
  | none =>
    if options.strict then .refuse (Err.appError "Idempotency check unavailable" 503) else .pass
  | some none => .handle
  | some (some row) =>
    -- The row's `user_id` is not compared.
    if fingerprint ≠ row.requestFingerprint then .refuse (Err.appError "IdempotencyConflict" 409)
    else .replay 200 row.responseBody

/-- The middleware, up to the call of the handler. -/
def decideRequest (options : IdempotencyOptions) (sha256 : String → Digest) (request : Request)
    (redis : Answer (CachedEntry Digest)) (table : Answer (IdempotencyRow Digest)) : Decision :=
  if request.method ∉ IDEMPOTENT_METHODS then .pass
  else match request.headerKey with
  | none =>
    if options.strict then .refuse (Err.appError "Idempotency-Key header is required" 400)
    else .pass
  | some _ =>
    match redis with
    | some (some entry) =>
      if entry.fingerprint ≠ sha256 request.body then
        .refuse (Err.appError "IdempotencyConflict" 409)
      else .replay 200 entry.body
    -- Redis answers: the table is not looked at, also when the entry has expired.
    | some none => .handle
    -- Redis is down.
    | none =>
      match request.fallback options with
      | none =>
        if options.strict then .refuse (Err.appError "Idempotency check unavailable" 503) else .pass
      | some _ => decideFromTable options (sha256 request.body) table

/-! ## Requests under way -/

/-- How far a request is. -/
inductive Phase where
  | fresh
  /-- The handler runs; its response will be stored. -/
  | handling
  /-- The response is sent; the two stores may still be written. -/
  | sent (status : ℕ) (body : String) (cachePending rowPending : Bool)
  /-- The middleware has nothing more to do. -/
  | over
  deriving DecidableEq

structure State (Digest : Type) where
  cache : String → Option (CachedEntry Digest)
  rows : String → Digest → Option (IdempotencyRow Digest)
  phase : ℕ → Phase
  decided : ℕ → Option Decision

def State.start (Digest : Type) : State Digest :=
  ⟨fun _ => none, fun _ _ => none, fun _ => .fresh, fun _ => none⟩

/-- The steps of request `i`, and the expiry of a key in Redis. -/
inductive Event where
  | lookup (i : ℕ) (redisUp tableUp : Bool)
  | respond (i : ℕ) (status : ℕ) (body : String)
  /-- `cacheProvider.set` is done, or has failed. -/
  | cacheStored (i : ℕ) (done : Bool)
  /-- `store` is done, or has failed. -/
  | rowStored (i : ℕ) (done : Bool)
  | expire (key : String)

/-- The request whose step it is. -/
def Event.request : Event → Option ℕ
  | .lookup i _ _ | .respond i _ _ | .cacheStored i _ | .rowStored i _ => some i
  | .expire _ => none

/-- `res.statusCode >= 200 && res.statusCode < 300` -/
def succeeds (status : ℕ) : Bool := decide (200 ≤ status ∧ status < 300)

section Steps

variable (options : IdempotencyOptions) (sha256 : String → Digest) (request : ℕ → Request)
  (s : State Digest)

def redisAnswer (i : ℕ) (up : Bool) : Answer (CachedEntry Digest) :=
  if up then some ((request i).headerKey.bind fun key => s.cache ((request i).cacheKey key))
  else none

def tableAnswer (i : ℕ) (up : Bool) : Answer (IdempotencyRow Digest) :=
  if up then
    some (((request i).fallback options).bind fun region => (request i).headerKey.bind fun key =>
      s.rows region (sha256 ((request i).rowKey key)))
  else none

def decisionFor (i : ℕ) (redisUp tableUp : Bool) : Decision :=
  decideRequest options sha256 (request i) (redisAnswer request s i redisUp)
    (tableAnswer options sha256 request s i tableUp)

def lookup (i : ℕ) (redisUp tableUp : Bool) : State Digest :=
  { s with
    phase :=
      Function.update s.phase i
        (if decisionFor options sha256 request s i redisUp tableUp = .handle then .handling
        else .over)
    decided :=
      Function.update s.decided i (some (decisionFor options sha256 request s i redisUp tableUp)) }

/-- The handler's `res.json(body)`. -/
def respond (i : ℕ) (status : ℕ) (body : String) : State Digest :=
  { s with
    phase := Function.update s.phase i
      (if succeeds status then .sent status body true ((request i).fallback options).isSome
        else .over) }

def writeCache (i : ℕ) (status : ℕ) (body : String) : String → Option (CachedEntry Digest) :=
  match (request i).headerKey with
  | none => s.cache
  | some key =>
    Function.update s.cache ((request i).cacheKey key)
      (some ⟨sha256 (request i).body, status, body⟩)

/-- `.onConflict("key_hash").ignore()` -/
def writeRow (i : ℕ) (status : ℕ) (body : String) :
    String → Digest → Option (IdempotencyRow Digest) :=
  match (request i).headerKey, (request i).fallback options with
  | some key, some region =>
    match s.rows region (sha256 ((request i).rowKey key)) with
    | some _ => s.rows
    | none =>
      Function.update s.rows region
        (Function.update (s.rows region) (sha256 ((request i).rowKey key))
        (some ⟨(request i).userId, sha256 (request i).body, status, body⟩))
  | _, _ => s.rows

/-- The phase when one of the two writes is no longer pending. -/
def sentPhase (status : ℕ) (body : String) (cachePending rowPending : Bool) : Phase :=
  if cachePending || rowPending then .sent status body cachePending rowPending else .over

/-- What an event does; `none` when it cannot happen. -/
def next : Event → Option (State Digest)
  | .lookup i redisUp tableUp =>
    match s.phase i with
    | .fresh => some (lookup options sha256 request s i redisUp tableUp)
    | _ => none
  | .respond i status body =>
    match s.phase i with
    | .handling => some (respond options request s i status body)
    | _ => none
  | .cacheStored i done =>
    match s.phase i with
    | .sent status body true rowPending =>
      some { s with
        cache := if done then writeCache sha256 request s i status body else s.cache
        phase := Function.update s.phase i (sentPhase status body false rowPending) }
    | _ => none
  | .rowStored i done =>
    match s.phase i with
    | .sent status body cachePending true =>
      some { s with
        rows := if done then writeRow options sha256 request s i status body else s.rows
        phase := Function.update s.phase i (sentPhase status body cachePending false) }
    | _ => none
  | .expire key => some { s with cache := Function.update s.cache key none }

end Steps

/-- The state after a history; `none` when it is impossible. -/
def run (options : IdempotencyOptions) (sha256 : String → Digest) (request : ℕ → Request) :
    List Event → State Digest → Option (State Digest)
  | [], s => some s
  | e :: es, s => (next options sha256 request s e).bind (run options sha256 request es)

theorem run_append (options : IdempotencyOptions) (sha256 : String → Digest) (request : ℕ → Request)
    (es es' : List Event) (s : State Digest) :
    run options sha256 request (es ++ es') s =
      (run options sha256 request es s).bind (run options sha256 request es') := by
  induction es generalizing s with
  | nil => rfl
  | cons e es inductionHypothesis =>
    simp only [List.cons_append, run, Option.bind_assoc]
    congr 1
    funext s'
    exact inductionHypothesis s'

/-- The events of a history meet a condition in the states in which they occur. -/
def Throughout (options : IdempotencyOptions) (sha256 : String → Digest) (request : ℕ → Request)
    (condition : State Digest → Event → Prop) (es : List Event) : Prop :=
  ∀ before e after s, es = before ++ e :: after →
  run options sha256 request before (.start Digest) = some s → condition s e

end

end Idempotency

end SwiftBite
