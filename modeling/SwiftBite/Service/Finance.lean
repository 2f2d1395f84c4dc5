import SwiftBite.Data.Schema
import SwiftBite.Data.Shared
import SwiftBite.Http.Records

/-! # What a restaurant sees of its money

The reads of `FinanceService`: the balances of a restaurant, and a page of its payouts in a range
of time.
-/

set_option autoImplicit false

namespace SwiftBite.FinanceService

open Store Pagination

def findRestaurantBalances (conn : Database) (restaurantId : ℕ) : List RestaurantBalance :=
  (conn .restaurantBalances).rows.filter fun account : RestaurantBalance =>
    account.restaurantId = restaurantId

def getBalance (conn : Database) (restaurantId : ℕ) : List RestaurantBalance :=
  findRestaurantBalances conn restaurantId

/-- The payouts to a restaurant from `start` to `stop`, which have milliseconds. -/
def payoutsIn (conn : Database) (restaurantId start stop : ℕ) : List Transaction :=
  (conn .transactions).rows.filter fun tx : Transaction =>
    tx.dstAccId = some restaurantId && tx.transactionType = .payout &&
    toMillis start ≤ tx.createdAt && tx.createdAt ≤ toMillis stop

def findPayouts (conn : Database) (restaurantId start stop : ℕ)
    (pagination : PaginationParams) : RecordPage Transaction :=
  recordPage Transaction.id Transaction.createdAt (payoutsIn conn restaurantId start stop)
    { pagination with sortBy := "created_at" }

theorem named_created_at : "" ∉ ["created_at", "created_at"] := by decide

def PAYOUT_SORT_FIELDS : PaginationQueryOptions :=
  ⟨["created_at"], "created_at", 20, named_created_at⟩

def listPayouts (conn : Database) (restaurantId start stop : ℕ)
    (query : Query) : RecordPage Transaction :=
  findPayouts conn restaurantId start stop (parsePaginationQuery query PAYOUT_SORT_FIELDS)

end SwiftBite.FinanceService
