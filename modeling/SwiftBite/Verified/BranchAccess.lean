import SwiftBite.Http.ResponseCache

/-! # Who sees a branch's orders

The service checks the access of a request that the cache cannot answer.  A request that
the cache answers has passed `rbac` and `requireBranchAccess` only.
-/

set_option autoImplicit false

namespace SwiftBite.Verified.BranchAccess

open JsNumber RestaurantOrders

section

variable {Body : Type} (around : Surroundings)

/-- The branch whose orders the controller lists. -/
def branchIdOf (request : Request) : JsNumber := Number (around.branchIdText request.originalUrl)

/-- The user passes the check of the service. -/
def Access (request : Request) : Prop :=
  request.user.role = .systemAdmin ∨
    ∃ branch, around.getBranch (branchIdOf around request) = .ok branch ∧
      hasAccess request.user branch (branchIdOf around request) = true

/-- A request that finds a response in the cache comes from an administrator, or from a
member of the restaurant that owns the branch who is an owner or has written a number that
`parseInt` and `Number` read alike. -/
def Trusted (cache : Cache Body) : Event Body → Prop
  | .get request _ => (cache (cacheKey request)).isSome = true → request.user.role = .systemAdmin ∨
      ∃ branch, around.getBranch (branchIdOf around request) = .ok branch ∧
        request.user.restaurantId = some branch.restaurantId ∧
        (request.user.restaurantRole = some "owner" ∨
          parseInt (around.branchIdText request.originalUrl) = branchIdOf around request ∧
            (branchIdOf around request).truthy = true)
  | .expire _ => True

/-- In every history whose requests meet the condition, orders go only to users with access. -/
def NeverWidens (condition : Cache Body → Event Body → Prop) : Prop :=
  ∀ es before request circumstances after body, es = before ++ .get request circumstances :: after →
    (∀ first e rest, es = first ++ e :: rest → condition (cacheAfter around first) e) →
    (serve around (cacheAfter around before) request circumstances).1 = .orders body →
    Access around request

variable {around}

theorem restaurantUser_of_rbac {request : Request} (passed : rbac around request = none)
    (notAdmin : request.user.role ≠ .systemAdmin) : request.user.role = .restaurantUser := by
  unfold rbac at passed
  split at passed
  next isAdmin => exact absurd isAdmin notAdmin
  next isUser => exact isUser
  next => cases passed

theorem among_of_requireBranchAccess {request : Request}
    (passed : requireBranchAccess around request = none)
    (notAdmin : request.user.role ≠ .systemAdmin)
    (notOwner : request.user.restaurantRole ≠ some "owner")
    (truthy : (parseInt (around.branchIdText request.originalUrl)).truthy = true) :
    (parseInt (around.branchIdText request.originalUrl)).among request.user.branchIds = true := by
  simp only [requireBranchAccess, if_neg notAdmin, if_neg notOwner, truthy, Bool.true_eq_false,
    if_false] at passed
  split at passed
  next included => exact included
  next => cases passed

/-- The service has checked a request that it answers itself. -/
theorem access_of_listRestaurant {request : Request} {found : Except Err Body} {body : Body}
    (listed : listRestaurant around request found = .ok body) : Access around request := by
  unfold listRestaurant at listed
  split at listed
  next => cases listed
  next region _ =>
    split at listed
    next => cases listed
    next =>
      dsimp only at listed
      split at listed
      next => cases listed
      next =>
        cases parsed : around.parseQuery request.originalUrl with
        | error err =>
          rw [parsed] at listed
          cases listed
        | ok _ =>
          rw [parsed] at listed
          simp only [bind, Except.bind, listRestaurantOrders] at listed
          cases answered : around.getBranch (Number (around.branchIdText request.originalUrl)) with
          | error err =>
            rw [answered] at listed
            cases listed
          | ok branch =>
            rw [answered] at listed
            dsimp only at listed
            split at listed
            next passes => exact .inr ⟨branch, answered, passes⟩
            next => cases listed

theorem access_of_trusted {cache : Cache Body} {request : Request}
    {circumstances : Circumstances Body} {body : Body}
    (trusted : Trusted around cache (.get request circumstances))
    (answered : (serve around cache request circumstances).1 = .orders body) :
    Access around request := by
  by_cases isAdmin : request.user.role = .systemAdmin
  · exact .inl isAdmin
  · unfold serve at answered
    split at answered
    next => cases answered
    next isMember =>
      split at answered
      next => cases answered
      next mayEnter =>
        unfold withCache at answered
        split at answered
        next => cases answered
        next =>
          split at answered
          next cached =>
            -- The two middlewares and the condition make up for the check of the service.
            obtain ⟨branch, isBranch, ofRestaurant, ownerOrRead⟩ :=
              (trusted (by rw [cached]; rfl)).resolve_left isAdmin
            refine .inr ⟨branch, isBranch, ?_⟩
            have isUser := restaurantUser_of_rbac isMember isAdmin
            by_cases isOwner : request.user.restaurantRole = some "owner"
            · simp [hasAccess, isUser, ofRestaurant, isOwner]
            · obtain ⟨sameNumber, truthy⟩ := ownerOrRead.resolve_left isOwner
              have included := among_of_requireBranchAccess mayEnter isAdmin
                isOwner (by rw [sameNumber]; exact truthy)
              rw [sameNumber] at included
              simp [hasAccess, isUser, ofRestaurant, included]
          next =>
            split at answered
            next => cases answered
            next listed => exact access_of_listRestaurant listed

end

/-! ## The owner of another restaurant -/

def ordersOfBranch : String := "/api/restaurant/orders?branchId=5"

/-- Branch 5 belongs to restaurant 3. -/
def branch : CoreBranch where
  id := 5
  restaurantId := 3
  restaurantOwnerId := 30
  restaurantActive := true
  acceptOrders := true
  deliveryFee := 0
  commissionBps := 0
  currency := "EGP"
  lat := 0
  lng := 0

def around : Surroundings where
  getPermissions _ := .ok ["orders:read"]
  getBranch branchId :=
    if branchId = .number 5 then .ok branch else throw (.appError "BranchNotFound" 404)
  branchIdText url := if url = ordersOfBranch then "5" else "undefined"
  parseQuery _ := .ok ()

/-- The owner of a restaurant asks for the orders of branch 5. -/
def ownerOf (restaurantId : ℕ) : Request where
  user :=
    { userId := 10 * restaurantId, role := .restaurantUser, restaurantId := some restaurantId,
      restaurantRole := some "owner" }
  region := some "eg"
  originalUrl := ordersOfBranch

def found : Circumstances String := ⟨true, .ok "orders of branch 5", true⟩

end SwiftBite.Verified.BranchAccess
