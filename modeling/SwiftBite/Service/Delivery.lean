import SwiftBite.Service.Order

/-! # AssignmentService and DeliveryService -/

set_option autoImplicit false

namespace SwiftBite

open Store

structure AssignmentOrderContext where
  id : ℕ
  deliveryLat : ℤ
  deliveryLng : ℤ
  currency : String

def Order.assignmentContext (order : Order) : AssignmentOrderContext :=
  ⟨order.id, order.deliveryLat, order.deliveryLng, order.currency⟩

def CoreBranch.point (branch : CoreBranch) : Point := ⟨branch.lat, branch.lng⟩

def CANDIDATE_LIMIT : ℕ := 5

namespace AssignmentService

def createAssignment (order : AssignmentOrderContext) (branch : Point) (agentId : ℕ)
    (distanceMeters : Option ℚ) (reassignedFrom : Option ℕ) : Service Delivery := do
  let delivery ← .transaction do
    let delivery ← createDelivery .trx
      { orderId := order.id
        agentId
        pickupLat := branch.lat
        pickupLng := branch.lng
        dropoffLat := order.deliveryLat
        dropoffLng := order.deliveryLng
        distanceMeters
        currency := order.currency
        reassignedFrom }
    let _ ← setDeliveryAgent .trx order.id agentId
    pure delivery
  -- After the commit, and `.catch(() => {})`: the delivery stands also when the mark is not set.
  orElse (markAgentBusy agentId) ()
  pure delivery

/-- Redis first; PostgreSQL when Redis knows no candidate or does not answer. -/
def findCandidates (conn : Conn) (env : Config) (branch : Point) :
    Service (List CandidateAgent) := do
  let candidates ← orElse (findNearbyOnlineAgents env branch CANDIDATE_LIMIT) []
  if candidates = [] then findCandidateAgents conn env branch CANDIDATE_LIMIT else pure candidates

def tryAssign (env : Config) (order : AssignmentOrderContext) (branch : Point)
    (reassignedFrom : Option ℕ) : Service (Option Delivery) := do
  match ← findCandidates .pool env branch with
  -- The order stays `ready` (or `assigned`, when this follows a rejection).
  | [] => pure none
  | best :: _ =>
    some <$> createAssignment order branch best.agentId (some best.distanceMeters) reassignedFrom

def assignManual (order : AssignmentOrderContext) (branch : Point) (agentId : ℕ)
    (reassignedFrom : Option ℕ) : Service Delivery := do
  -- Neither whether the agent is online nor how far away is asked.
  let busy ← agentHasActiveDelivery .pool agentId
  throwIf (busy = true) .NoEligibleAgentsError
  createAssignment order branch agentId none reassignedFrom

end AssignmentService

/-- `TRANSITIONS` of the delivery. -/
def DeliveryStatus.transitions : DeliveryStatus → List DeliveryStatus
  | .assigned => [.accepted, .rejected]
  | .accepted => [.picked]
  | .picked => [.delivered]
  | _ => []

namespace DeliveryService

open AssignmentService

/-- The named agent, or the nearest one. -/
def assignOrder (env : Config) (order : Order) (branch : CoreBranch) (agentId : Option ℕ) :
    Service (Option Delivery) :=
  -- `agentId ?`: zero is no agent.
  match agentId.filter (· ≠ 0) with
  | some agentId => some <$> assignManual order.assignmentContext branch.point agentId none
  | none => tryAssign env order.assignmentContext branch.point none

def orNoEligibleAgents (core : Core) (delivery : Option Delivery) : Service Delivery :=
  match delivery with
  | none => throw .NoEligibleAgentsError
  | some delivery => do
    .ofExcept (core.getAgent delivery.agentId)
    pure delivery

def assign (env : Config) (core : Core) (orderPublicId : ℕ)
    (agentId : Option ℕ) : Service Delivery := do
  match ← OrderService.getOrderEntityByPublicId orderPublicId with
  | none => throw .OrderNotFoundError
  | some order => do
    throwIf (order.status ≠ .ready) .OrderNotReadyError
    let existing ← findActiveDeliveryByOrderId .pool order.id
    throwIf (existing.isSome = true) .OrderAlreadyHasActiveDeliveryError
    let branch ← .ofExcept (core.getBranch order.branchId)
    let delivery ← assignOrder env order branch agentId
    orNoEligibleAgents core delivery

def tryAutoAssign (env : Config) (core : Core) (orderId : ℕ) : Service Unit := do
  match ← OrderService.getOrderEntityById orderId with
  | none => pure ()
  | some order =>
    if order.status ≠ .ready then pure ()
    else do
      let existing ← findActiveDeliveryByOrderId .pool order.id
      if existing.isSome then pure ()
      else do
        let branch ← .ofExcept (core.getBranch order.branchId)
        let _ ← tryAssign env order.assignmentContext branch.point none

def reassign (env : Config) (core : Core) (orderPublicId : ℕ) : Service Delivery := do
  match ← OrderService.getOrderEntityByPublicId orderPublicId with
  | none => throw .OrderNotFoundError
  | some order => do
    match ← findActiveDeliveryByOrderId .pool order.id with
    | none => throw .NoActiveDeliveryError
    | some active => do
      let chainLength ← countReassignmentChain .pool active.id
      throwIf (chainLength ≥ env.maxReassignmentAttempts) .MaxReassignmentAttemptsReachedError
      -- The old delivery is given up before it is known whether anybody can take over.
      let _ ← updateDeliveryStatus .pool active.id .reassigned
      orElse (markAgentFree active.agentId) ()
      let branch ← .ofExcept (core.getBranch order.branchId)
      let newDelivery ← tryAssign env order.assignmentContext branch.point (some active.id)
      orNoEligibleAgents core newDelivery

def tryReassignAfterRejection (env : Config) (core : Core)
    (rejected : Delivery) : Service Unit := do
  let chainLength ← countReassignmentChain .pool rejected.id
  if chainLength ≥ env.maxReassignmentAttempts then pure ()
  else do
    match ← OrderService.getOrderEntityById rejected.orderId with
    | none => pure ()
    | some order => do
      let branch ← .ofExcept (core.getBranch order.branchId)
      let _ ← tryAssign env order.assignmentContext branch.point (some rejected.id)

/-- `Math.floor((order.subtotal * branch.commissionBps) / 10000)` -/
def commissionOf (order : Order) (branch : CoreBranch) : ℤ :=
  (order.subtotal * branch.commissionBps / 10000).floor

def agentEarningOf (env : Config) (branch : CoreBranch) : ℤ :=
  mathRound (branch.deliveryFee * env.agentShareRate)

/-- Cash is collected on delivery. -/
def collectCash (order : Order) : Service Unit :=
  if order.paymentMethod = .cod then do
    match ← findPendingCodCollectionByOrderId .trx order.id with
    -- No pending collection: the settlement goes on without one.
    | none => pure ()
    | some codTx => do let _ ← updateTransactionStatus .trx codTx.id .succeeded
  else pure ()

def creditRestaurant (order : Order) (commission : ℤ) : Service Unit := do
  let locked ← lockRestaurantBalance .trx order.restaurantId order.currency
  setRestaurantBalance .trx order.restaurantId order.currency
    (locked.balance + (order.subtotal - commission))

def announceSettlement (order : Order) (delivery : Delivery) : Service Unit := do
  let eventId ← uuidv4
  let updatedAt ← nowIso
  insertOutboxEvent .trx
    { aggregateType := "order"
      aggregateId := order.id
      eventType := "order.status_changed"
      eventId
      payload :=
        .orderStatusChanged order.publicId order.restaurantId order.branchId .delivered updatedAt
        (toMillis order.createdAt) order.currency }
  let eventId ← uuidv4
  let deliveredAt ← nowIso
  insertOutboxEvent .trx
    { aggregateType := "delivery"
      aggregateId := delivery.id
      eventType := "delivery.completed"
      eventId
      payload := .deliveryCompleted order.publicId delivery.id delivery.agentId deliveredAt }

/-- The body of the settlement's transaction. -/
def settle (order : Order) (branch : CoreBranch) (delivery : Delivery)
    (commission agentEarning : ℤ) : Service (Option Delivery) := do
  -- Both statuses are written by id alone, whatever the rows have come to since they were read.
  let updatedDelivery ← updateDeliveryStatus .trx delivery.id .delivered
  setOrderCommission .trx order.id commission
  let _ ← updateOrderStatus .trx order.id .delivered
  collectCash order
  -- The unique index on the key refuses a second settlement of the delivery.
  let _ ← createTransaction .trx
    { orderId := some order.id
      transactionType := .commission
      method := .system
      status := .succeeded
      amount := commission
      currency := order.currency
      srcAccId := some branch.restaurantOwnerId
      idempotencyKey := some (.commission delivery.id) }
  creditRestaurant order commission
  setDeliveryEarning .trx delivery.id agentEarning
  let _ ← createAgentEarning .trx
    { agentId := delivery.agentId
      orderId := order.id
      deliveryId := delivery.id
      amount := agentEarning
      currency := order.currency }
  announceSettlement order delivery
  pure updatedDelivery

def settleDelivery (env : Config) (core : Core) (delivery : Delivery) :
    Service (Option Delivery) := do
  match ← OrderService.getOrderEntityById delivery.orderId with
  | none => throw .OrderNotFoundError
  | some order => do
    let branch ← .ofExcept (core.getBranch order.branchId)
    let updatedDelivery ← .transaction
      (settle order branch delivery (commissionOf order branch) (agentEarningOf env branch))
    orElse (markAgentFree delivery.agentId) ()
    pure updatedDelivery

/-- What follows a delivery's new status. -/
def afterStatus (env : Config) (core : Core) (delivery : Delivery)
    (targetStatus : DeliveryStatus) : Service Unit :=
  if targetStatus = .picked then do
    let _ ← OrderService.applySystemStatusChange .pool delivery.orderId .picked
  else if targetStatus = .rejected then do
    orElse (markAgentFree delivery.agentId) ()
    tryReassignAfterRejection env core delivery
  else pure ()

def updateStatus (env : Config) (core : Core) (deliveryId actorUserId : ℕ)
    (targetStatus : DeliveryStatus) : Service (Option Delivery) := do
  match ← findDeliveryById .pool deliveryId with
  | none => throw .DeliveryNotFoundError
  | some delivery => do
    throwIf (delivery.agentId ≠ actorUserId) .UnAuthorizedError
    throwIf (delivery.status.transitions.contains targetStatus = false)
      (.invalidDeliveryTransitionError delivery.status targetStatus)
    if targetStatus = .delivered then settleDelivery env core delivery
    else do
      -- A statement by id alone: the transition was checked against the row as it was read.
      let updated ← updateDeliveryStatus .pool deliveryId targetStatus
      -- The order is read for the message to the customer and the branch only.
      let _ ← OrderService.getOrderEntityById delivery.orderId
      afterStatus env core delivery targetStatus
      pure updated

end DeliveryService

end SwiftBite
