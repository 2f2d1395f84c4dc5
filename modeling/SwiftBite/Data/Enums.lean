import Mathlib.Data.Nat.Notation

/-! # Enumerations -/

set_option autoImplicit false

namespace SwiftBite

inductive OrderStatus where
  | pendingPayment
  | placed
  | accepted
  | rejected
  | preparing
  | ready
  | assigned
  | picked
  | delivered
  | cancelled
  deriving DecidableEq, Repr

inductive PaymentMethod where
  | online
  | cod
  deriving DecidableEq, Repr

inductive DeliveryStatus where
  | assigned
  | accepted
  | rejected
  | picked
  | delivered
  | cancelled
  | reassigned
  deriving DecidableEq, Repr

inductive PaymentSessionStatus where
  | initialized
  | pending
  | authorized
  | captured
  | failed
  | expired
  | cancelled
  deriving DecidableEq, Repr

inductive TransactionType where
  | charge
  | refund
  | commission
  | payout
  | codCollection
  | adjustment
  deriving DecidableEq, Repr

inductive TransactionMethod where
  | online
  | cod
  | bankTransfer
  | system
  deriving DecidableEq, Repr

inductive TransactionStatus where
  | pending
  | succeeded
  | failed
  | reversed
  deriving DecidableEq, Repr

/-- The roles that the order service tells apart. -/
inductive Role where
  | systemAdmin
  | customer
  | restaurantUser
  | deliveryAgent
  deriving DecidableEq, Repr

inductive OrderActor where
  | customer
  | restaurant
  | system
  | agent
  | admin
  deriving DecidableEq, Repr

/-! ## Deliveries under way -/

/-- `ACTIVE_STATUSES` -/
def DeliveryStatus.active : DeliveryStatus → Bool
  | .assigned | .accepted | .picked => true
  | _ => false

/-- The session statuses that `findActivePaymentSessionByOrderId` looks for. -/
def PaymentSessionStatus.active : PaymentSessionStatus → Bool
  | .initialized | .pending => true
  | _ => false

end SwiftBite
