import SwiftBite.Service.Order

/-! # GET /restaurant/orders

The route's middlewares (`rbac`, `requireBranchAccess`, `withCache`) and its controller,
with the readings of the query's branch number that two of them make.
-/

set_option autoImplicit false

namespace SwiftBite

/-! ## Numbers read from text -/

/-- A JavaScript number, without rounding. -/
inductive JsNumber where
  | nan
  | infinity (negative : Bool)
  | number (value : ℚ)
  deriving DecidableEq

namespace JsNumber

def truthy : JsNumber → Bool
  | nan => false
  | infinity _ => true
  | number value => decide (value ≠ 0)

def isStrWhiteSpace (c : Char) : Bool :=
  (c.toNat ∈ [9, 10, 11, 12, 13, 32, 160, 5760, 8232, 8233, 8239, 8287, 12288, 65279]) ||
    (8192 ≤ c.toNat && c.toNat ≤ 8202)

def digitValue (c : Char) : ℕ :=
  if '0' ≤ c ∧ c ≤ '9' then c.toNat - '0'.toNat
  else if 'a' ≤ c ∧ c ≤ 'z' then c.toNat - 'a'.toNat + 10
  else if 'A' ≤ c ∧ c ≤ 'Z' then c.toNat - 'A'.toNat + 10
  else 36

def digits (radix : ℕ) (text : List Char) : List Char :=
  text.takeWhile fun c => decide (digitValue c < radix)

def digitsValue (radix : ℕ) (digits : List Char) : ℕ :=
  digits.foldl (fun value c => value * radix + digitValue c) 0

/-- The sign, and what follows it. -/
def sign : List Char → ℤ × List Char
  | '-' :: rest => (-1, rest)
  | '+' :: rest => (1, rest)
  | text => (1, text)

/-- The radix, and what follows a prefix `0x`. -/
def hexPrefix : List Char → ℕ × List Char
  | '0' :: 'x' :: rest | '0' :: 'X' :: rest => (16, rest)
  | text => (10, text)

/-- `parseInt(text)` -/
def parseInt (text : String) : JsNumber :=
  let (signValue, unsigned) := sign (text.toList.dropWhile isStrWhiteSpace)
  let (radix, rest) := hexPrefix unsigned
  match digits radix rest with
  | [] => nan
  | read => number (signValue * digitsValue radix read)

/-- Digits of a radix and nothing else. -/
def nonDecimal (radix : ℕ) (text : List Char) : JsNumber :=
  if text ≠ [] ∧ digits radix text = text then number (digitsValue radix text) else nan

/-- The exponent of a decimal literal. -/
def exponent : List Char → Option ℤ
  | [] => some 0
  | c :: rest =>
    let (signValue, unsigned) := sign rest
    if (c = 'e' ∨ c = 'E') ∧ unsigned ≠ [] ∧ digits 10 unsigned = unsigned then
      some (signValue * digitsValue 10 unsigned)
    else none

/-- `digits * 10 ** e` -/
def scale (digits e : ℤ) : ℚ :=
  if 0 ≤ e then ((digits * 10 ^ e.toNat : ℤ) : ℚ) else (digits : ℚ) / ((10 ^ (-e).toNat : ℕ) : ℚ)

/-- A decimal literal without its sign. -/
def decimal (signValue : ℤ) (text : List Char) : JsNumber :=
  if text = "Infinity".toList then infinity (decide (signValue < 0))
  else
    let whole := digits 10 text
    let rest := text.drop whole.length
    let fraction := match rest with
      | '.' :: after => digits 10 after
      | _ => []
    let rest := match rest with
      | '.' :: after => after.drop fraction.length
      | _ => rest
    match exponent rest with
    | some e =>
      if whole ++ fraction = [] then nan
      else number (scale (signValue * digitsValue 10 (whole ++ fraction)) (e - fraction.length))
    | none => nan

/-- `Number(text)` -/
def Number (text : String) : JsNumber :=
  match ((text.toList.dropWhile isStrWhiteSpace).reverse.dropWhile isStrWhiteSpace).reverse with
  | [] => number 0
  | '0' :: 'x' :: rest | '0' :: 'X' :: rest => nonDecimal 16 rest
  | '0' :: 'o' :: rest | '0' :: 'O' :: rest => nonDecimal 8 rest
  | '0' :: 'b' :: rest | '0' :: 'B' :: rest => nonDecimal 2 rest
  | text => let (signValue, unsigned) := sign text; decimal signValue unsigned

/-- `branchIds.includes(branchId)` -/
def among (branchId : JsNumber) (branchIds : List ℕ) : Bool :=
  branchIds.any fun id => decide (branchId = number id)

end JsNumber

/-! ## The route -/

namespace RestaurantOrders

open JsNumber

structure Request where
  user : RequestActor
  /-- `req.region` -/
  region : Option String
  originalUrl : String

/-- What does not change while requests are served: the permissions of the roles, the
branches, and how a URL's query is read. -/
structure Surroundings where
  getPermissions : String → Except Err (List String)
  getBranch : JsNumber → Except Err CoreBranch
  /-- `String(req.query.branchId)` -/
  branchIdText : String → String
  /-- `parsePaginationQuery` and `parseFilters` -/
  parseQuery : String → Except Err Unit

/-- An answer without orders. -/
inductive Refusal where
  /-- `res.status(403).json({ error })` -/
  | denied (error : String)
  /-- `next(err)` -/
  | error (err : Err)
  deriving DecidableEq

/-- What a request is answered. -/
inductive Answer (Body : Type) where
  /-- Status 200. -/
  | orders (body : Body)
  | refused (refusal : Refusal)
  deriving DecidableEq

section

variable {Body : Type} (around : Surroundings)

/-- `rbac({ resource: "orders", action: "read" })` -/
def rbac (request : Request) : Option Refusal :=
  match request.user.role with
  | .systemAdmin => none
  | .restaurantUser =>
    match around.getPermissions (request.user.restaurantRole.getD "undefined") with
    | .error err => some (.error err)
    | .ok permissions =>
      if hasPermission permissions "orders" "read" then none else some (.denied "Permission denied")
  | _ => some (.denied "Permission denied")

/-- `requireBranchAccess("branchId")`; the route has no parameter of that name. -/
def requireBranchAccess (request : Request) : Option Refusal :=
  if request.user.role = .systemAdmin then none
  else if request.user.restaurantRole = some "owner" then none
  else
    let branchId := parseInt (around.branchIdText request.originalUrl)
    -- Without a number the middleware lets the request through.
    if branchId.truthy = false then none
    else if branchId.among request.user.branchIds then none
    else some (.denied "You do not have access to this branch")

/-- The check of `listRestaurantOrders`. -/
def hasAccess (actor : RequestActor) (branch : CoreBranch) (branchId : JsNumber) : Bool :=
  decide (actor.role = .systemAdmin) ||
    (decide (actor.role = .restaurantUser ∧ actor.restaurantId = some branch.restaurantId) &&
      (decide (actor.restaurantRole = some "owner") || branchId.among actor.branchIds))

/-- `orderService.listRestaurantOrders`; `found` is what the databases return. -/
def listRestaurantOrders (branchId : JsNumber) (actor : RequestActor)
    (found : Except Err Body) : Except Err Body := do
  let branch ← around.getBranch branchId
  if hasAccess actor branch branchId then found else throw .UnAuthorizedError

/-- `orderController.listRestaurant` -/
def listRestaurant (request : Request) (found : Except Err Body) : Except Err Body := do
  match request.region with
  | none => throw (.appError "X-Region header is required" 400)
  | some region => do
    if region = "all" then throw (.appError "X-Region header is required" 400)
    else do
      let branchId := Number (around.branchIdText request.originalUrl)
      if branchId.truthy = false then throw (.appError "branchId query param is required" 400)
      else do
        around.parseQuery request.originalUrl
        listRestaurantOrders around branchId request.user found

/-- The key of `withCache`. -/
def cacheKey (request : Request) : String :=
  request.region.getD "global" ++ ":GET:" ++ request.originalUrl

abbrev Cache (Body : Type) := String → Option Body

/-- What befalls a request: whether Redis answers, what the databases return, and whether
the response is stored. -/
structure Circumstances (Body : Type) where
  redisUp : Bool
  found : Except Err Body
  stored : Bool

/-- `withCache(10)` before the controller. -/
def withCache (cache : Cache Body) (request : Request) (circumstances : Circumstances Body) :
    Answer Body × Cache Body :=
  if circumstances.redisUp = false then (.refused (.error .infrastructure), cache)
  else match cache (cacheKey request) with
  -- The key has no user in it, and the controller is not asked.
  | some body => (.orders body, cache)
  | none =>
    match listRestaurant around request circumstances.found with
    | .error err => (.refused (.error err), cache)
    | .ok body =>
      (.orders body,
        if circumstances.stored then Function.update cache (cacheKey request) (some body)
        else cache)

/-- The whole route. -/
def serve (cache : Cache Body) (request : Request) (circumstances : Circumstances Body) :
    Answer Body × Cache Body :=
  match rbac around request with
  | some refusal => (.refused refusal, cache)
  | none =>
    match requireBranchAccess around request with
    | some refusal => (.refused refusal, cache)
    | none => withCache around cache request circumstances

inductive Event (Body : Type) where
  | get (request : Request) (circumstances : Circumstances Body)
  | expire (key : String)

def next (cache : Cache Body) : Event Body → Cache Body
  | .get request circumstances => (serve around cache request circumstances).2
  | .expire key => Function.update cache key none

/-- The cache after a history. -/
def cacheAfter (es : List (Event Body)) : Cache Body := es.foldl (next around) fun _ => none

end

end RestaurantOrders

end SwiftBite
