import SwiftBite.Http.ResponseCache
import SwiftBite.Service.OrderDetail

/-! # Live updates

`ws-auth.ts`, `ws-server.ts` and `publisher.ts`: sockets connect with a token, subscribe to
channels, and get what the services publish on them.  Several servers share the sockets, and the
Redis adapter carries what one of them publishes to the others.  A subscription is decided while
other events happen, since the channel of a branch may have to be looked up.

Rooms and their relay are those of socket.io and of its Redis adapter.  What is written here is the
most that they do: a push reaches nobody outside of its room, and comes late or never to the
sockets of another server.
-/

set_option autoImplicit false

namespace SwiftBite

namespace WebSocket

/-! ## The handshake -/

/-- Where a handshake may carry a token: `auth.token` and `query.token` if they are strings, and the
header `cookie`. -/
structure Handshake where
  authToken : Option String
  queryToken : Option String
  cookie : Option String

inductive ConnectError where
  | WsNoTokenError
  | WsInvalidTokenError
  /-- `decodeURIComponent` has thrown, and the connection is closed. -/
  | URIError
  deriving DecidableEq

/-- The group of the first match of `/access_token=([^;]+)/`. -/
def matchAccessToken : List Char → Option (List Char)
  | [] => none
  | c :: rest =>
    let value := ((c :: rest).drop 13).takeWhile fun c => decide (c ≠ ';')
    if "access_token=".toList.isPrefixOf (c :: rest) ∧ value ≠ [] then some value
    else matchAccessToken rest

/-- The functions of other packages that a handshake needs. -/
structure Surroundings where
  decodeURIComponent : String → Option String
  verifyAccessToken : String → Option RequestActor

section

variable (around : Surroundings)

def extractToken (handshake : Handshake) : Except ConnectError (Option String) :=
  match handshake.authToken, handshake.queryToken with
  | some token, _ => pure (some token)
  | none, some token => pure (some token)
  | none, none =>
    match handshake.cookie.bind fun header => matchAccessToken header.toList with
    | none => pure none
    | some value =>
      match around.decodeURIComponent (String.ofList value) with
      | none => throw .URIError
      | some token => pure (some token)

/-- The middleware of `attachWsServer`. -/
def authenticate (handshake : Handshake) : Except ConnectError RequestActor := do
  match ← extractToken around handshake with
  | none => throw .WsNoTokenError
  | some token =>
    if token = "" then throw .WsNoTokenError
    else match around.verifyAccessToken token with
      | none => throw .WsInvalidTokenError
      | some user => pure user

end

/-! ## Channels -/

def customerChannel (userId : ℕ) : String := "customer:" ++ toString userId

def restaurantChannel (restaurantId : ℕ) : String := "restaurant:" ++ toString restaurantId

def branchChannel (branchId : ℕ) : String := "branch:" ++ toString branchId

def agentChannel (userId : ℕ) : String := "agent:" ++ toString userId

/-- `restaurantId`, unless it is missing or zero. -/
def restaurantOf (user : RequestActor) : Option ℕ :=
  user.restaurantId.filter fun id => decide (id ≠ 0)

def deriveAllowedChannels (user : RequestActor) : List String :=
  match user.role with
  | .customer => [customerChannel user.userId]
  | .restaurantUser =>
    match restaurantOf user with
    | none => []
    | some restaurantId => restaurantChannel restaurantId :: user.branchIds.map branchChannel
  | .deliveryAgent => [agentChannel user.userId]
  | .systemAdmin => ["admin:alerts"]

/-- `Number(match[1])` for a match of `BRANCH_CHANNEL`. -/
def matchBranchChannel (channel : String) : Option ℕ :=
  let number := channel.toList.drop 7
  if "branch:".toList.isPrefixOf channel.toList ∧ number ≠ [] ∧
    JsNumber.digits 10 number = number then
    some (JsNumber.digitsValue 10 number)
  else none

/-- The lookup fails closed. -/
def isChannelAllowed (getBranch : ℕ → Except Err CoreBranch) (user : RequestActor)
    (allowed : List String) (channel : String) : Bool :=
  if channel ∈ allowed then true
  else if user.role ≠ .restaurantUser ∨ user.restaurantRole ≠ some "owner" ∨
    restaurantOf user = none then false
  else match matchBranchChannel channel with
    | none => false
    | some branchId =>
      match getBranch branchId with
      | .ok branch => decide (user.restaurantId = some branch.restaurantId)
      | .error _ => false

/-! ## What is published -/

inductive Payload where
  | orderCreated (orderPublicId branchId : ℕ) (total : ℤ) (currency : String)
      (paymentMethod : PaymentMethod) (createdAt : ℕ)
  | orderStatus (orderPublicId : ℕ) (status : OrderStatus) (updatedAt : Option ℕ)
  | paymentFailed (orderPublicId : ℕ)
  | deliveryStatus (deliveryId orderPublicId : ℕ) (status : DeliveryStatus) (updatedAt : ℕ)
  | taskAssigned (deliveryId orderId : ℕ) (pickupLat pickupLng dropoffLat dropoffLng : ℤ)
      (distanceMeters : Option ℤ) (currency : String)
  | position (deliveryId orderPublicId : ℕ) (lat lng : ℤ)
  deriving DecidableEq

/-- The arguments of `publish`. -/
structure Push where
  channel : String
  event : String
  payload : Payload
  deriving DecidableEq

/-- The places of the services that publish, with the rows that they have at hand. -/
inductive Announcement where
  /-- `createOrder`, for a cash order. -/
  | orderPlaced (order : Order)
  /-- `updateStatus` -/
  | statusChanged (order : Order) (status : OrderStatus) (updatedAt : ℕ)
  /-- The webhook, once a payment is captured. -/
  | paymentCaptured (order : Order)
  /-- The webhook, once a payment has failed. -/
  | paymentFailed (order : Order)
  /-- `updateStatus` and `settleDelivery` of a delivery. -/
  | deliveryChanged (order : Order) (delivery : Delivery) (status : DeliveryStatus) (updatedAt : ℕ)
  /-- `createAssignment` -/
  | taskAssigned (order : Order) (delivery : Delivery)
  /-- `ping` -/
  | moved (order : Order) (delivery : Delivery) (lat lng : ℤ)

namespace Announcement

def order : Announcement → Order
  | orderPlaced order | statusChanged order _ _ | paymentCaptured order | paymentFailed order
  | deliveryChanged order _ _ _
  | taskAssigned order _ | moved order _ _ _ => order

def delivery : Announcement → Option Delivery
  | deliveryChanged _ delivery _ _ | taskAssigned _ delivery | moved _ delivery _ _ => some delivery
  | orderPlaced _ | statusChanged _ _ _ | paymentCaptured _ | paymentFailed _ => none

def orderCreatedPush (order : Order) : Push :=
  ⟨branchChannel order.branchId, "order.created",
    .orderCreated order.publicId order.branchId order.total order.currency order.paymentMethod
      (toMillis order.createdAt)⟩

/-- The calls of `publish`, one after the other. -/
def pushes : Announcement → List Push
  | orderPlaced order => [orderCreatedPush order]
  | statusChanged order status updatedAt =>
    let payload := .orderStatus order.publicId status (some (toMillis updatedAt))
    [⟨customerChannel order.customerId, "order.status_changed", payload⟩,
      ⟨branchChannel order.branchId, "order.status_changed", payload⟩]
  | paymentCaptured order =>
    [⟨customerChannel order.customerId, "order.status_changed",
      .orderStatus order.publicId .placed none⟩, orderCreatedPush order]
  | paymentFailed order =>
    [⟨customerChannel order.customerId, "payment.failed", .paymentFailed order.publicId⟩]
  | deliveryChanged order delivery status updatedAt =>
    let payload := .deliveryStatus delivery.id order.publicId status (toMillis updatedAt)
    [⟨customerChannel order.customerId, "delivery.status_changed", payload⟩,
      ⟨branchChannel order.branchId, "delivery.status_changed", payload⟩]
  | taskAssigned order delivery =>
    [⟨agentChannel delivery.agentId, "task.assigned",
      .taskAssigned delivery.id order.id delivery.pickupLat delivery.pickupLng delivery.dropoffLat
        delivery.dropoffLng
        delivery.distanceMeters delivery.currency⟩]
  | moved order delivery lat lng =>
    [⟨customerChannel order.customerId, "delivery.position",
      .position delivery.id order.publicId lat lng⟩]

end Announcement

/-! ## Sockets -/

/-- A call of the `subscribe` handler, and whether the client wants an acknowledgement. -/
structure Subscription where
  channel : String
  ack : Bool
  deriving DecidableEq

/-- What a client gets. -/
inductive Received where
  | hello (allowedChannels : List String)
  | subscribed (channel : String)
  | ack (ok : Bool) (error : Option String)
  | wsError (code message : String)
  /-- A push, with the server that published it. -/
  | push (origin : ℕ) (push : Push)
  deriving DecidableEq

structure Socket where
  /-- The server that the socket is connected to. -/
  server : ℕ
  user : RequestActor
  allowed : List String
  connected : Bool
  rooms : List String
  /-- The handlers that wait for `isChannelAllowed`. -/
  pending : List Subscription
  inbox : List Received

namespace Socket

/-- The `connection` handler. -/
def connect (server : ℕ) (user : RequestActor) : Socket :=
  ⟨server, user, deriveAllowedChannels user, true, [], [], [.hello (deriveAllowedChannels user)]⟩

/-- `socket.emit`; nothing reaches a socket that is gone. -/
def emit (socket : Socket) (messages : List Received) : Socket :=
  if socket.connected then { socket with inbox := socket.inbox ++ messages } else socket

def subscribe (socket : Socket) (subscription : Subscription) : Socket :=
  { socket with pending := socket.pending ++ [subscription] }

/-- A socket that is gone joins nothing any more. -/
def join (socket : Socket) (channel : String) : Socket :=
  if socket.connected = false ∨ channel ∈ socket.rooms then socket
  else { socket with rooms := channel :: socket.rooms }

def leave (socket : Socket) (channel : String) : Socket :=
  { socket with rooms := socket.rooms.filter fun room => decide (room ≠ channel) }

def disconnect (socket : Socket) : Socket := { socket with connected := false, rooms := [] }

/-- The rest of the `subscribe` handler. -/
def settle (socket : Socket) (subscription : Subscription) (allowed : Bool) : Socket :=
  let socket := { socket with pending := socket.pending.erase subscription }
  if allowed then
    (socket.join subscription.channel).emit
      (.subscribed subscription.channel :: if subscription.ack then [.ack true none] else [])
  else
    (socket.emit ((if subscription.ack then [.ack false (some "not permitted")] else []) ++
      [.wsError "unauthorized_channel" "Unauthorized channel subscription"])).disconnect

/-- `io.to(channel).emit(event, payload)`, for one socket. -/
def receive (socket : Socket) (origin : ℕ) (push : Push) : Socket :=
  if push.channel ∈ socket.rooms then socket.emit [.push origin push] else socket

end Socket

/-! ## The servers -/

structure Servers where
  sockets : ℕ → Option Socket
  /-- What the adapter has yet to bring to a server, with the servers that published it. -/
  wire : ℕ → List (ℕ × Push)
  /-- What has been announced, with the servers that did. -/
  announced : List (ℕ × Announcement)

def Servers.start : Servers := ⟨fun _ => none, fun _ => [], []⟩

inductive Event where
  | connect (id server : ℕ) (handshake : Handshake)
  | subscribe (id : ℕ) (subscription : Subscription)
  /-- `isChannelAllowed` returns; `getBranch` is what the core service answers meanwhile. -/
  | settle (id : ℕ) (subscription : Subscription) (getBranch : ℕ → Except Err CoreBranch)
  | unsubscribe (id : ℕ) (channel : String)
  /-- The client closes the connection, or it breaks. -/
  | disconnect (id : ℕ)
  | announce (server : ℕ) (announcement : Announcement)
  /-- The adapter of a server gets the next message from Redis. -/
  | arrive (server : ℕ)
  /-- Redis loses it. -/
  | lose (server : ℕ)

namespace Servers

/-- A server hands a push to the sockets it has in the room. -/
def hand (s : Servers) (server origin : ℕ) (push : Push) : Servers :=
  { s with
    sockets := fun id => (s.sockets id).map fun socket =>
      if socket.server = server then socket.receive origin push else socket }

/-- `publish` -/
def publish (s : Servers) (server : ℕ) (push : Push) : Servers :=
  { s.hand server server push with
    wire := fun other => if other = server then s.wire other else s.wire other ++ [(server, push)] }

def publishAll (s : Servers) (server : ℕ) (pushes : List Push) : Servers :=
  pushes.foldl (fun s push => s.publish server push) s

def put (s : Servers) (id : ℕ) (socket : Socket) : Servers :=
  { s with sockets := Function.update s.sockets id (some socket) }

/-- What an event does; `none` when it cannot happen. -/
def next (around : Surroundings) (s : Servers) : Event → Option Servers
  | .connect id server handshake =>
    match s.sockets id, authenticate around handshake with
    | none, .ok user => some (s.put id (.connect server user))
    | _, _ => none
  | .subscribe id subscription =>
    (s.sockets id).bind fun socket =>
      if socket.connected then some (s.put id (socket.subscribe subscription)) else none
  | .settle id subscription getBranch =>
    (s.sockets id).bind fun socket =>
      if subscription ∈ socket.pending then
        some (s.put id (socket.settle subscription
        (isChannelAllowed getBranch socket.user socket.allowed subscription.channel)))
      else none
  | .unsubscribe id channel =>
    (s.sockets id).bind fun socket =>
      if socket.connected then some (s.put id (socket.leave channel)) else none
  | .disconnect id => (s.sockets id).map fun socket => s.put id socket.disconnect
  | .announce server announcement =>
    some { s.publishAll server announcement.pushes with
      announced := s.announced ++ [(server, announcement)] }
  | .arrive server =>
    match s.wire server with
    | [] => none
    | (origin, push) :: rest =>
      some { s.hand server origin push with wire := Function.update s.wire server rest }
  | .lose server =>
    match s.wire server with
    | [] => none
    | _ :: rest => some { s with wire := Function.update s.wire server rest }

/-! ## The events, inverted -/

section

variable {around : Surroundings} {s s' : Servers}

/-- The ways in which an event happens, with what it needs. -/
inductive Step (around : Surroundings) (s : Servers) : Event → Servers → Prop
  | connect {id server : ℕ} {handshake : Handshake} {user : RequestActor}
      (free : s.sockets id = none) (accepted : authenticate around handshake = .ok user) :
      Step around s (.connect id server handshake) (s.put id (.connect server user))
  | subscribe {id : ℕ} {subscription : Subscription} {socket : Socket}
      (found : s.sockets id = some socket) (connected : socket.connected = true) :
      Step around s (.subscribe id subscription) (s.put id (socket.subscribe subscription))
  | settle {id : ℕ} {subscription : Subscription} {getBranch : ℕ → Except Err CoreBranch}
      {socket : Socket}
      (found : s.sockets id = some socket) (waits : subscription ∈ socket.pending) :
    Step around s (.settle id subscription getBranch)
      (s.put id (socket.settle subscription
      (isChannelAllowed getBranch socket.user socket.allowed subscription.channel)))
  | unsubscribe {id : ℕ} {channel : String} {socket : Socket} (found : s.sockets id = some socket)
      (connected : socket.connected = true) :
      Step around s (.unsubscribe id channel) (s.put id (socket.leave channel))
  | disconnect {id : ℕ} {socket : Socket} (found : s.sockets id = some socket) :
      Step around s (.disconnect id) (s.put id socket.disconnect)
  | announce {server : ℕ} {announcement : Announcement} :
      Step around s (.announce server announcement) { s.publishAll server announcement.pushes with
        announced := s.announced ++ [(server, announcement)] }
  | arrive {server origin : ℕ} {push : Push} {rest : List (ℕ × Push)}
      (waiting : s.wire server = (origin, push) :: rest) :
      Step around s (.arrive server) { s.hand server origin push with
        wire := Function.update s.wire server rest }
  | lose {server : ℕ} {message : ℕ × Push} {rest : List (ℕ × Push)}
      (waiting : s.wire server = message :: rest) :
      Step around s (.lose server) { s with wire := Function.update s.wire server rest }

theorem step_of_next {e : Event} (moves : s.next around e = some s') : Step around s e s' := by
  cases e with
  | connect id server handshake =>
    rw [next] at moves
    split at moves
    next free accepted =>
      cases moves
      exact .connect free accepted
    next => cases moves
  | subscribe id subscription =>
    obtain ⟨socket, found, moves⟩ := Option.bind_eq_some_iff.1 moves
    split at moves
    next connected =>
      cases moves
      exact .subscribe found connected
    next => cases moves
  | settle id subscription getBranch =>
    obtain ⟨socket, found, moves⟩ := Option.bind_eq_some_iff.1 moves
    split at moves
    next waits =>
      cases moves
      exact .settle found waits
    next => cases moves
  | unsubscribe id channel =>
    obtain ⟨socket, found, moves⟩ := Option.bind_eq_some_iff.1 moves
    split at moves
    next connected =>
      cases moves
      exact .unsubscribe found connected
    next => cases moves
  | disconnect id =>
    obtain ⟨socket, found, rfl⟩ := Option.map_eq_some_iff.1 moves
    exact .disconnect found
  | announce server announcement =>
    cases moves
    exact .announce
  | arrive server =>
    rw [next] at moves
    split at moves
    next => cases moves
    next waiting =>
      cases moves
      exact .arrive waiting
  | lose server =>
    rw [next] at moves
    split at moves
    next => cases moves
    next waiting =>
      cases moves
      exact .lose waiting

end

end Servers

end WebSocket

end SwiftBite
