import SwiftBite.Repository.Order

/-! # Deliveries, restaurant balances, agent earnings and agent presence -/

set_option autoImplicit false

namespace SwiftBite

open Store Statement

/-- `Math.round` -/
def mathRound (x : ℚ) : ℤ := (x + 1 / 2).floor

/-! ## deliveries -/

structure CreateDeliveryInput where
  orderId : ℕ
  agentId : ℕ
  pickupLat : ℤ
  pickupLng : ℤ
  dropoffLat : ℤ
  dropoffLng : ℤ
  distanceMeters : Option ℚ
  currency : String
  reassignedFrom : Option ℕ

def CreateDeliveryInput.row (data : CreateDeliveryInput) (id now : ℕ) : Delivery where
  id := id
  orderId := data.orderId
  agentId := data.agentId
  status := .assigned
  pickupLat := data.pickupLat
  pickupLng := data.pickupLng
  dropoffLat := data.dropoffLat
  dropoffLng := data.dropoffLng
  distanceMeters := data.distanceMeters.map mathRound
  earningAmount := none
  currency := data.currency
  assignedAt := now
  acceptedAt := none
  rejectedAt := none
  pickedAt := none
  deliveredAt := none
  reassignedAt := none
  reassignedFrom := data.reassignedFrom

def createDelivery (conn : Conn) (data : CreateDeliveryInput) : Service Delivery := do
  let id ← nextval .deliveries
  .exec conn (insert TableName.deliveries
    ((TableName.orders, RowKey.id data.orderId) ::
      data.reassignedFrom.toList.map fun previous => (TableName.deliveries, RowKey.id previous))
    (data.row id))

def findDeliveryById (conn : Conn) (id : ℕ) : Service (Option Delivery) :=
  .exec conn (selectByKey TableName.deliveries (RowKey.id id))

def findActiveDeliveryByOrderId (conn : Conn) (orderId : ℕ) : Service (Option Delivery) :=
  .exec conn (selectFirst TableName.deliveries fun deliveries =>
    deliveries.rows.filter fun row : Delivery => row.orderId = orderId && row.status.active)

def findActiveDeliveryByAgentId (conn : Conn) (agentId : ℕ) : Service (Option Delivery) :=
  .exec conn (selectFirst TableName.deliveries fun deliveries =>
    deliveries.rows.filter fun row : Delivery => row.agentId = agentId && row.status.active)

/-- `tsColumn` has an entry. -/
def DeliveryStatus.hasTimestampColumn : DeliveryStatus → Bool
  | .accepted | .rejected | .picked | .delivered | .reassigned => true
  | _ => false

/-- `SET <the status's timestamp column> = time` -/
def Delivery.stamp (row : Delivery) (status : DeliveryStatus) (time : Option ℕ) : Delivery :=
  match status with
  | .accepted => { row with acceptedAt := time }
  | .rejected => { row with rejectedAt := time }
  | .picked => { row with pickedAt := time }
  | .delivered => { row with deliveredAt := time }
  | .reassigned => { row with reassignedAt := time }
  | _ => row

def Delivery.withStatus (status : DeliveryStatus) (stamp : Option ℕ) (row : Delivery) : Delivery :=
  { row.stamp status stamp with status := status }

/-- The time for the status's timestamp column, if it has one. -/
def DeliveryStatus.stampTime (status : DeliveryStatus) : Service (Option ℕ) :=
  if status.hasTimestampColumn then some <$> nowIso else pure none

def updateDeliveryStatus (conn : Conn) (id : ℕ) (status : DeliveryStatus) :
    Service (Option Delivery) := do
  let stamp ← status.stampTime
  .exec conn (updateByKey TableName.deliveries (RowKey.id id) (Delivery.withStatus status stamp))

def Delivery.cancel (row : Delivery) : Delivery := { row with status := .cancelled }

/-- The agent of a delivery that was cancelled.  The rows that match are found first and
each is checked again once it is locked. -/
def cancelActiveDeliveryForOrder (conn : Conn) (orderId : ℕ) : Service (Option ℕ) := do
  let keys ← .exec conn (select fun _ db =>
    ((db .deliveries).rows.filter fun row : Delivery =>
      row.orderId = orderId && row.status.active).map fun row : Delivery => RowKey.id row.id)
  let rows ← .exec conn (updateWhere TableName.deliveries keys
    (fun row : Delivery => row.orderId = orderId && row.status.active) Delivery.cancel)
  pure (rows.head?.map fun row : Delivery => row.agentId)

def Delivery.withEarning (earningAmount : ℤ) (row : Delivery) : Delivery :=
  { row with earningAmount := some earningAmount }

def setDeliveryEarning (conn : Conn) (id : ℕ) (earningAmount : ℤ) : Service Unit := do
  let _ ← .exec conn
      (updateByKey TableName.deliveries (RowKey.id id) (Delivery.withEarning earningAmount))

/-- A statement that never comes back. -/
def diverge {α : Type} (conn : Conn) : Service α := .stmt (β := α) conn (fun _ _ => []) .done

/-- `while (currentId !== null)` -/
def reassignmentChainLoop (conn : Conn) : ℕ → ℕ → ℕ → Service ℕ
  | 0, _, _ => diverge conn
  | bound + 1, currentId, count => do
    let row ← .exec conn (select fun _ db =>
      ((db .deliveries).get (RowKey.id currentId)).map fun row : Delivery => row.reassignedFrom)
    match row.join with
    | none => pure count
    | some previous => reassignmentChainLoop conn bound previous (count + 1)

/-- `reassigned_from` never changes and refers to a row that exists, so a walk longer than
the table comes back to a row and does not end: the number of rows bounds the loop. -/
def countReassignmentChain (conn : Conn) (deliveryId : ℕ) : Service ℕ := do
  let bound ← .exec conn (select fun _ db => (db .deliveries).rows.length)
  reassignmentChainLoop conn (bound + 1) deliveryId 1

def agentHasActiveDelivery (conn : Conn) (agentId : ℕ) : Service Bool := do
  let row ← findActiveDeliveryByAgentId conn agentId
  pure row.isSome

/-- The nearest online agents without an active delivery, seen in the last 90 seconds. -/
def findCandidateAgents (conn : Conn) (env : Config) (pickup : Point) (limit : ℕ) :
    Service (List CandidateAgent) :=
  .exec conn (select fun now db =>
    let online := (db .agentPresence).rows.filter fun ap : AgentPresence =>
      ap.isOnline && decide (now < ap.lastSeenAt + 90000000)
    let near := online.filterMap fun ap : AgentPresence =>
      match ap.lastLat, ap.lastLng with
      | some lat, some lng => some (⟨ap.agentId, env.stDistance pickup ⟨lat, lng⟩⟩ : CandidateAgent)
      | _, _ => none
    ((near.filter fun candidate => decide (candidate.distanceMeters ≤ env.radiusMeters) &&
      !(db .deliveries).rows.any fun d : Delivery =>
        d.agentId = candidate.agentId && d.status.active).insertionSort
        env.nearer).take limit)

/-! ## restaurant_balances -/

def RestaurantBalance.opening (restaurantId : ℕ) (currency : String)
    (now : ℕ) : RestaurantBalance :=
  { restaurantId, currency, balance := 0, updatedAt := now }

def lockRestaurantBalance (conn : Conn) (restaurantId : ℕ) (currency : String) :
    Service RestaurantBalance := do
  let _ ← .exec conn (insertIgnore TableName.restaurantBalances
    (fun row : RestaurantBalance => row.restaurantId = restaurantId && row.currency = currency) []
    (RestaurantBalance.opening restaurantId currency))
  let row ← .exec conn
      (lockByKey TableName.restaurantBalances (RowKey.account restaurantId currency))
  match row with
  | some row => pure row
  | none => throw .infrastructure

def RestaurantBalance.withBalance (balance : ℤ) (updatedAt : ℕ)
    (row : RestaurantBalance) : RestaurantBalance :=
  { row with balance := balance, updatedAt := updatedAt }

def setRestaurantBalance (conn : Conn) (restaurantId : ℕ) (currency : String)
    (balance : ℤ) : Service Unit := do
  let updatedAt ← nowIso
  let _ ← .exec conn
      (updateByKey TableName.restaurantBalances (RowKey.account restaurantId currency)
    (RestaurantBalance.withBalance balance updatedAt))

/-! ## agent_earnings -/

structure CreateAgentEarningInput where
  agentId : ℕ
  orderId : ℕ
  deliveryId : ℕ
  amount : ℤ
  currency : String

def CreateAgentEarningInput.row (data : CreateAgentEarningInput) (id now : ℕ) : AgentEarning where
  id := id
  agentId := data.agentId
  orderId := data.orderId
  deliveryId := data.deliveryId
  amount := data.amount
  currency := data.currency
  earnedAt := now

def findAgentEarningByDeliveryId (conn : Conn) (deliveryId : ℕ) : Service (Option AgentEarning) :=
  .exec conn (selectFirst TableName.agentEarnings fun earnings =>
    earnings.rows.filter fun row : AgentEarning => row.deliveryId = deliveryId)

def createAgentEarning (conn : Conn) (data : CreateAgentEarningInput) :
    Service (Option AgentEarning) := do
  let id ← nextval .agentEarnings
  let row ← .exec conn (insertIgnore TableName.agentEarnings
    (fun row : AgentEarning => row.deliveryId = data.deliveryId)
    [(TableName.orders, RowKey.id data.orderId), (TableName.deliveries, RowKey.id data.deliveryId)]
    (data.row id))
  match row with
  | some row => pure (some row)
  -- The delivery has an earning already; its amount is not compared.
  | none => findAgentEarningByDeliveryId conn data.deliveryId

/-! ## agent_presence -/

def AgentPresence.put (point : Point) (now : ℕ) (row : AgentPresence) : AgentPresence :=
  { row with
    isOnline := true, lastLat := some point.lat, lastLng := some point.lng, lastSeenAt := now,
    updatedAt := now }

def upsertAgentOnline (conn : Conn) (agentId : ℕ) (point : Point) : Service AgentPresence := do
  let now ← nowIso
  .exec conn (upsert TableName.agentPresence
    (fun _ => { agentId, isOnline := true, lastLat := some point.lat, lastLng := some point.lng,
                lastSeenAt := now, updatedAt := now : AgentPresence })
    (AgentPresence.put point now))

def AgentPresence.goOffline (now : ℕ) (row : AgentPresence) : AgentPresence :=
  { row with isOnline := false, lastSeenAt := now, updatedAt := now }

def setAgentPresenceOffline (conn : Conn) (agentId : ℕ) : Service Unit := do
  let now ← nowIso
  let _ ← .exec conn
      (updateByKey TableName.agentPresence (RowKey.id agentId) (AgentPresence.goOffline now))

def AgentPresence.move (point : Point) (now : ℕ) (row : AgentPresence) : AgentPresence :=
  { row with
    lastLat := some point.lat, lastLng := some point.lng, lastSeenAt := now, updatedAt := now }

def pingAgentPresence (conn : Conn) (agentId : ℕ) (point : Point) : Service Unit := do
  let now ← nowIso
  let _ ← .exec conn
      (updateByKey TableName.agentPresence (RowKey.id agentId) (AgentPresence.move point now))

def findAgentPresence (conn : Conn) (agentId : ℕ) : Service (Option AgentPresence) :=
  .exec conn (selectByKey TableName.agentPresence (RowKey.id agentId))

end SwiftBite
