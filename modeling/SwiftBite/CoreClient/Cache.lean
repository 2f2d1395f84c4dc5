import SwiftBite.Data.Shared
import SwiftBite.Store.Growing

/-! # Cached answers of the core service

`getBranch`, `getBranchProducts` and `getPermissions`, which keep answers of the core service in
Redis for a while, and the handlers of the core events that remove them.  Any number of these run
at once, each command and each request is a step of its own, and the core service may answer
something else at any time.
-/

set_option autoImplicit false

namespace SwiftBite

open Store

namespace CoreClient

/-! ## Redis and the core service -/

/-- What `JSON.parse` makes of the text at a key. -/
inductive CacheValue where
  | branch (branch : CoreBranch)
  | product (product : CoreBranchProduct)
  | permissions (permissions : List String)
  /-- The text `1`. -/
  | flag

structure CacheEntry where
  value : CacheValue
  expiresAt : ℕ

/-- A `SET` with an expiry that Redis has carried out. -/
structure Stored where
  time : ℕ
  key : String
  value : CacheValue
  ttl : ℕ

/-- What the core service answers to requests of the moment. -/
structure CoreService where
  branch : ℕ → Except Err CoreBranch
  products : ℕ → List ℕ → Except Err (List CoreBranchProduct)
  permissions : String → Except Err (List String)

/-- What the core service has said. -/
inductive Fact where
  | branch (branchId : ℕ) (branch : CoreBranch)
  | product (branchId : ℕ) (product : CoreBranchProduct)
  | permissions (roleName : String) (permissions : List String)
  /-- The request for the permissions of a role has failed. -/
  | noPermissions (roleName : String)

/-- The clock is in milliseconds. -/
structure World where
  now : ℕ
  redis : String → Option CacheEntry
  core : CoreService
  /-- On record: what the core service has said, and what has been stored. -/
  told : List (ℕ × Fact)
  stored : List Stored

instance : Host World Err := ⟨World.now, .infrastructure⟩

namespace World

def start (now : ℕ) (core : CoreService) : World := ⟨now, fun _ => none, core, [], []⟩

/-- An entry is there until it expires. -/
def lookup (x : World) (key : String) : Option CacheValue :=
  (x.redis key).bind fun entry => if x.now < entry.expiresAt then some entry.value else none

def store (x : World) (key : String) (value : CacheValue) (ttl : ℕ) : World :=
  { x with
    redis := Function.update x.redis key (some ⟨value, x.now + ttl⟩)
    stored := ⟨x.now, key, value, ttl⟩ :: x.stored }

def remove (x : World) (key : String) : World :=
  { x with redis := Function.update x.redis key none }

def hear (x : World) (facts : List Fact) : World :=
  { x with told := facts.map (fun fact => (x.now, fact)) ++ x.told }

end World

/-- The region's database plays no part here. -/
abbrev NoRow : Empty → Type := fun _ => Unit

instance (t : Empty) : Keyed (NoRow t) Empty Empty := t.elim

abbrev Client (α : Type) : Type 1 := Prog (K := Empty) NoRow World Err α

/-! ## Commands and requests -/

/-- `cacheProvider.get` -/
def cacheGet (key : String) : Client (Option CacheValue) := .act fun x => (.ok (x.lookup key), x)

/-- `cacheProvider.set`, with a time to live in seconds. -/
def cacheSet (key : String) (value : CacheValue) (ttlSeconds : ℕ) : Client Unit :=
  .act fun x => (.ok (), x.store key value (ttlSeconds * 1000))

/-- `cacheProvider.del` -/
def cacheDel (key : String) : Client Unit := .act fun x => (.ok (), x.remove key)

/-- `.catch(() => fallback)` -/
def orFallback {α : Type} (action : Client α) (fallback : α) : Client α :=
  tryCatch action fun _ => pure fallback

/-- A request that `coreClientGet` makes: the attempt that decides it, and what is said in it. -/
def coreClientGet {α : Type} (ask : CoreService → Except Err α)
    (facts : Except Err α → List Fact) : Client α :=
  .side false (fun x => (ask x.core, x.hear (facts (ask x.core)))) .done

/-! ## Branches -/

def branchKey (branchId : ℕ) : String := "core:branch:" ++ toString branchId

def productKey (branchId productId : ℕ) : String :=
  "core:product:price:" ++ toString branchId ++ ":" ++ toString productId

def BRANCH_TTL_SECONDS : ℕ := 60

def PRODUCT_TTL_SECONDS : ℕ := 30

def fetchBranch (branchId : ℕ) : Client CoreBranch :=
  coreClientGet (fun core => core.branch branchId) fun
    | .ok branch => [.branch branchId branch]
    | .error _ => []

def getBranch (branchId : ℕ) : Client CoreBranch := do
  match ← cacheGet (branchKey branchId) with
  | some (.branch branch) => pure branch
  -- A value of another kind has not the fields that the caller reads.
  | some _ => throw .infrastructure
  | none => do
    let branch ← fetchBranch branchId
    orFallback (cacheSet (branchKey branchId) (.branch branch) BRANCH_TTL_SECONDS) ()
    pure branch

/-- The first loop of `getBranchProducts`: what the cache has, and what it has not. -/
def lookupProducts (branchId : ℕ) :
    List ℕ → List CoreBranchProduct → List ℕ → Client (List CoreBranchProduct × List ℕ)
  | [], results, missingIds => pure (results, missingIds)
  | productId :: productIds, results, missingIds => do
    match ← cacheGet (productKey branchId productId) with
    | some (.product product) =>
      lookupProducts branchId productIds (results ++ [product]) missingIds
    | some _ => throw .infrastructure
    -- An id that is asked for twice is missing twice.
    | none => lookupProducts branchId productIds results (missingIds ++ [productId])

def fetchProducts (branchId : ℕ) (productIds : List ℕ) : Client (List CoreBranchProduct) :=
  coreClientGet (fun core => core.products branchId productIds) fun
    | .ok products => products.map (.product branchId)
    | .error _ => []

/-- The second loop. -/
def storeProducts (branchId : ℕ) :
    List CoreBranchProduct → List CoreBranchProduct → Client (List CoreBranchProduct)
  | [], results => pure results
  | product :: fetched, results => do
    orFallback
      (cacheSet (productKey branchId product.productId) (.product product) PRODUCT_TTL_SECONDS) ()
    storeProducts branchId fetched (results ++ [product])

def getBranchProducts (branchId : ℕ) (productIds : List ℕ) : Client (List CoreBranchProduct) :=
  if productIds = [] then pure []
  else do
    let (results, missingIds) ← lookupProducts branchId productIds [] []
    if missingIds = [] then pure results
    else do
      let fetched ← fetchProducts branchId missingIds
      storeProducts branchId fetched results

/-! ## Permissions -/

def freshKey (roleName : String) : String := "core:rbac:perms:" ++ roleName

def staleKey (roleName : String) : String := "core:rbac:perms:stale:" ++ roleName

def FRESH_TTL_SECONDS : ℕ := 5 * 60

def STALE_TTL_SECONDS : ℕ := 60 * 60

def getPermissionsByRole (roleName : String) : Client (List String) :=
  coreClientGet (fun core => core.permissions roleName) fun
    | .ok permissions => [.permissions roleName permissions]
    | .error _ => [.noPermissions roleName]

/-- The body of the `try`. -/
def fetchPermissions (roleName : String) : Client (List String) := do
  let permissions ← getPermissionsByRole roleName
  orFallback (cacheSet (freshKey roleName) (.permissions permissions) FRESH_TTL_SECONDS) ()
  orFallback (cacheSet (staleKey roleName) (.permissions permissions) STALE_TTL_SECONDS) ()
  pure permissions

/-- The handler of the `catch`. -/
def staleOr (roleName : String) (err : Err) : Client (List String) := do
  match ← orFallback (cacheGet (staleKey roleName)) none with
  | some (.permissions permissions) => pure permissions
  | some _ => throw .infrastructure
  | none => throw err

def getPermissions (roleName : String) : Client (List String) := do
  match ← orFallback (cacheGet (freshKey roleName)) none with
  | some (.permissions permissions) => pure permissions
  | some _ => throw .infrastructure
  | none => tryCatch (fetchPermissions roleName) (staleOr roleName)

/-! ## Handlers of core events -/

def rejectOrdersKey (branchId : ℕ) : String := "branch:reject-orders:" ++ toString branchId

def restaurantKey (restaurantId : ℕ) : String := "core:restaurant:" ++ toString restaurantId

def REJECT_ORDERS_TTL_SECONDS : ℕ := 24 * 60 * 60

def handleBranchUpdated (branchId : ℕ) (isActive : Option Bool) : Client Unit := do
  cacheDel (branchKey branchId)
  if isActive = some true then cacheDel (rejectOrdersKey branchId) else pure ()

def handleBranchDeactivated (branchId : ℕ) : Client Unit := do
  -- Nothing in the repository reads the flag.
  cacheDel (branchKey branchId)
  cacheSet (rejectOrdersKey branchId) .flag REJECT_ORDERS_TTL_SECONDS

def handleProductStockChanged (branchId productId : ℕ) : Client Unit :=
  cacheDel (productKey branchId productId)

def handleProductPriceChanged (branchId productId : ℕ) : Client Unit :=
  cacheDel (productKey branchId productId)

def handleRestaurantSuspended (restaurantId : ℕ) : Client Unit :=
  cacheDel (restaurantKey restaurantId)

/-! ## What runs -/

inductive Task where
  | getBranch (branchId : ℕ)
  | getBranchProducts (branchId : ℕ) (productIds : List ℕ)
  | getPermissions (roleName : String)
  | branchUpdated (branchId : ℕ) (isActive : Option Bool)
  | branchDeactivated (branchId : ℕ)
  | productStockChanged (branchId productId : ℕ)
  | productPriceChanged (branchId productId : ℕ)
  | restaurantSuspended (restaurantId : ℕ)
  /-- Time passes. -/
  | wait (duration : ℕ)
  /-- Something changes in the core service. -/
  | coreChanges (core : CoreService)

/-- How a call ends, with the time at which it began. -/
inductive Answer where
  | nothing
  | branch (began : ℕ) (outcome : Except Err CoreBranch)
  | products (began : ℕ) (outcome : Except Err (List CoreBranchProduct))
  | permissions (began : ℕ) (outcome : Except Err (List String))

def clocked {α : Type} (call : Client α) : Client (ℕ × Except Err α) := do
  let began ← .sure fun x => (x.now, x)
  let outcome ← tryCatch (Except.ok <$> call) fun err => pure (.error err)
  pure (began, outcome)

def Task.run : Task → Client Answer
  | .getBranch branchId =>
    (fun reply => .branch reply.1 reply.2) <$> clocked (CoreClient.getBranch branchId)
  | .getBranchProducts branchId productIds =>
    (fun reply => .products reply.1 reply.2) <$>
      clocked (CoreClient.getBranchProducts branchId productIds)
  | .getPermissions roleName =>
    (fun reply => .permissions reply.1 reply.2) <$> clocked (CoreClient.getPermissions roleName)
  | .branchUpdated branchId isActive =>
    (fun _ => .nothing) <$> handleBranchUpdated branchId isActive
  | .branchDeactivated branchId => (fun _ => .nothing) <$> handleBranchDeactivated branchId
  | .productStockChanged branchId productId =>
    (fun _ => .nothing) <$> handleProductStockChanged branchId productId
  | .productPriceChanged branchId productId =>
    (fun _ => .nothing) <$> handleProductPriceChanged branchId productId
  | .restaurantSuspended restaurantId =>
    (fun _ => .nothing) <$> handleRestaurantSuspended restaurantId
  | .wait duration => .sure fun x => (.nothing, { x with now := x.now + duration })
  | .coreChanges core => .sure fun x => (.nothing, { x with core := core })

/-- The calls and the events at work. -/
abbrev Calls : Type 1 := Pool (K := Empty) NoRow World Err Task Answer

end CoreClient

end SwiftBite
