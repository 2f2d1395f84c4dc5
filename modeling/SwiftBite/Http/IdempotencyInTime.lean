import SwiftBite.Http.Idempotency

/-! # Idempotent requests one after another

The middleware with the times of its two stores: Redis drops an entry when its time to live
is over, and the table keeps a row for good, since nothing reads `expires_at`.  A request is
served before the next one arrives, and Redis is up or down for the whole of it.
-/

set_option autoImplicit false

namespace SwiftBite

namespace Idempotency

def DEFAULT_TTL_SECONDS : ℕ := 24 * 60 * 60

structure TimedOptions extends IdempotencyOptions where
  ttlSeconds : ℕ := DEFAULT_TTL_SECONDS

/-- A signed-in user whose requests go to one region. -/
structure Client where
  userId : ℕ
  region : String
  identified : userId ≠ 0
  resolved : region ≠ "" ∧ region ≠ "all"

/-- A request of which the middleware takes notice. -/
structure KeyedRequest where
  method : String
  originalUrl : String
  idempotencyKey : String
  /-- `JSON.stringify(req.body ?? {})` -/
  body : String
  idempotent : method ∈ IDEMPOTENT_METHODS
  present : idempotencyKey ≠ ""

def Client.request (client : Client) (keyed : KeyedRequest) : Request where
  method := keyed.method
  originalUrl := keyed.originalUrl
  region := some client.region
  userId := some client.userId
  idempotencyKey := some keyed.idempotencyKey
  body := keyed.body

/-- A request, with what its handler answers if it runs. -/
structure Visit where
  request : KeyedRequest
  redisUp : Bool
  /-- The milliseconds since the answer to the request before it. -/
  gap : ℕ
  /-- The milliseconds that the handler takes. -/
  took : ℕ
  status : ℕ
  answer : String

/-- What the client gets, and whether the handler has run. -/
inductive Outcome where
  | handled (status : ℕ) (answer : String)
  | replayed (status : ℕ) (answer : String)
  | refused (err : Err)
  deriving DecidableEq

section

variable {Digest : Type} [DecidableEq Digest]

structure Stores (Digest : Type) where
  /-- The entries, each with the time at which it expires. -/
  cache : String → Option (CachedEntry Digest × Option ℕ)
  rows : String → Digest → Option (IdempotencyRow Digest)

/-- `set(key, value, ttlSeconds)`: a time to live of 0 counts as none. -/
def expiry (ttlSeconds now : ℕ) : Option ℕ :=
  if ttlSeconds = 0 then none else some (now + ttlSeconds * 1000)

def alive (now : ℕ) (expiresAt : Option ℕ) : Bool := expiresAt.all fun time => decide (now < time)

/-- `get(key)` -/
def Stores.get (stores : Stores Digest) (now : ℕ) (key : String) : Option (CachedEntry Digest) :=
  ((stores.cache key).filter fun kept => alive now kept.2).map Prod.fst

/-- A handled request that was answered with success. -/
structure Success where
  visit : Visit
  answeredAt : ℕ

structure Timeline (Digest : Type) where
  stores : Stores Digest
  now : ℕ
  /-- The oldest first. -/
  successes : List Success

def Timeline.start (Digest : Type) : Timeline Digest := ⟨⟨fun _ => none, fun _ _ => none⟩, 0, []⟩

section Steps

variable (options : TimedOptions) (sha256 : String → Digest) (client : Client) (t : Timeline Digest)
  (visit : Visit)

def Timeline.decision : Decision :=
  let request := client.request visit.request
  decideRequest options.toIdempotencyOptions sha256 request
    (if visit.redisUp then
      some (request.headerKey.bind fun key =>
      t.stores.get (t.now + visit.gap) (request.cacheKey key))
    else none)
    (some ((request.fallback options.toIdempotencyOptions).bind fun region =>
    request.headerKey.bind fun key =>
      t.stores.rows region (sha256 (request.rowKey key))))

/-- `cacheProvider.set`, which fails while Redis is down. -/
def Stores.setCache (stores : Stores Digest) (answeredAt : ℕ) :
    String → Option (CachedEntry Digest × Option ℕ) :=
  match visit.redisUp, (client.request visit.request).headerKey with
  | true, some key =>
    Function.update stores.cache ((client.request visit.request).cacheKey key)
      (some (⟨sha256 visit.request.body, visit.status, visit.answer⟩,
      expiry options.ttlSeconds answeredAt))
  | _, _ => stores.cache

/-- `store`, which leaves a row that is there. -/
def Stores.setRow (stores : Stores Digest) : String → Digest → Option (IdempotencyRow Digest) :=
  match (client.request visit.request).headerKey,
    (client.request visit.request).fallback options.toIdempotencyOptions with
  | some key, some region =>
    match stores.rows region (sha256 ((client.request visit.request).rowKey key)) with
    | some _ => stores.rows
    | none =>
      Function.update stores.rows region
        (Function.update (stores.rows region) (sha256 ((client.request visit.request).rowKey key))
        (some ⟨some client.userId, sha256 visit.request.body, visit.status, visit.answer⟩))
  | _, _ => stores.rows

/-- The handler runs, and a response of success is stored. -/
def Timeline.handle : Timeline Digest :=
  let answeredAt := t.now + visit.gap + visit.took
  if succeeds visit.status then
    { stores := ⟨t.stores.setCache options sha256 client visit answeredAt,
    t.stores.setRow options sha256 client visit⟩
      now := answeredAt
      successes := t.successes ++ [⟨visit, answeredAt⟩] }
  else { t with now := answeredAt }

def Timeline.serve : Outcome × Timeline Digest :=
  match t.decision options sha256 client visit with
  | .pass => (.handled visit.status visit.answer, { t with now := t.now + visit.gap + visit.took })
  | .handle => (.handled visit.status visit.answer, t.handle options sha256 client visit)
  | .replay status answer => (.replayed status answer, { t with now := t.now + visit.gap })
  | .refuse err => (.refused err, { t with now := t.now + visit.gap })

end Steps

/-- The timeline after some requests. -/
def Timeline.after (options : TimedOptions) (sha256 : String → Digest) (client : Client)
    (visits : List Visit) : Timeline Digest :=
  visits.foldl (fun t visit => (t.serve options sha256 client visit).2) (.start Digest)

end

end Idempotency

end SwiftBite
