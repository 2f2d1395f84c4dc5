import SwiftBite.Data.Texts
import SwiftBite.Http.WebSocket
import SwiftBite.Store.Machine
import SwiftBite.Verified.Records

/-! # Who hears what

A socket hears of an order only if its user may read the order with `GET /orders/:publicId`, or is
the agent of a delivery of the order: in every run of the region's calls and of the servers
together.  The reason is that a channel name says whose it is, so that the check made when a socket
joins a room is still good when something is published there.
-/

set_option autoImplicit false

namespace SwiftBite.Verified.WebSocketAccess

open Store WebSocket

/-! ## Names of channels -/

theorem digitsValue_eq (text : List Char) (digits : ∀ c ∈ text, c.isDigit = true) (init : ℕ) :
    text.foldl (fun value c => value * 10 + JsNumber.digitValue c) init =
      Nat.ofDigitChars 10 text init := by
  induction text generalizing init with
  | nil => rfl
  | cons c text inductionHypothesis =>
    obtain ⟨first, rest⟩ := List.forall_mem_cons.1 digits
    rw [List.foldl_cons, Nat.ofDigitChars_cons, inductionHypothesis rest]
    congr 1
    simp only [Char.isDigit, Bool.and_eq_true, decide_eq_true_eq] at first
    have isDecimal : '0' ≤ c ∧ c ≤ '9' := first
    rw [JsNumber.digitValue, if_pos isDecimal]
    ring

theorem digits_toDigits (n : ℕ) : JsNumber.digits 10 (Nat.toDigits 10 n) = Nat.toDigits 10 n := by
  refine List.takeWhile_eq_self_iff.2 fun c member => ?_
  have digit := Nat.isDigit_of_mem_toDigits (by decide) (by decide) member
  simp only [Char.isDigit, Bool.and_eq_true, decide_eq_true_eq] at digit
  have isDecimal : '0' ≤ c ∧ c ≤ '9' := digit
  have below : c.toNat ≤ 57 := isDecimal.2
  rw [JsNumber.digitValue, if_pos isDecimal]
  exact decide_eq_true (by show c.toNat - 48 < 10; omega)

theorem matchBranchChannel_branchChannel (branchId : ℕ) :
    matchBranchChannel (branchChannel branchId) = some branchId := by
  have text : (branchChannel branchId).toList = "branch:".toList ++ Nat.toDigits 10 branchId := by
    simp [branchChannel, String.toList_append, Nat.toString_eq_repr, Nat.repr]
  have number : (branchChannel branchId).toList.drop 7 = Nat.toDigits 10 branchId := by
    rw [text]; rfl
  have starts : "branch:".toList.isPrefixOf (branchChannel branchId).toList = true := by
    rw [text]
    exact List.isPrefixOf_iff_prefix.2 (List.prefix_append _ _)
  rw [matchBranchChannel, number, if_pos ⟨starts, Nat.toDigits_ne_nil, digits_toDigits branchId⟩,
    JsNumber.digitsValue,
    digitsValue_eq _ (fun c member => Nat.isDigit_of_mem_toDigits (by decide) (by decide) member),
    Nat.ofDigitChars_ten_toDigits]

theorem customerChannel_inj {a b : ℕ} : customerChannel a = customerChannel b ↔ a = b :=
  ⟨fun same => Texts.toString_injective ((String.append_right_inj _).1 same), congrArg _⟩

theorem branchChannel_inj {a b : ℕ} : branchChannel a = branchChannel b ↔ a = b :=
  ⟨fun same => Texts.toString_injective ((String.append_right_inj _).1 same), congrArg _⟩

theorem agentChannel_inj {a b : ℕ} : agentChannel a = agentChannel b ↔ a = b :=
  ⟨fun same => Texts.toString_injective ((String.append_right_inj _).1 same), congrArg _⟩

/-- The first letters tell the kinds of channels apart. -/
def letters (channel : String) : List Char := channel.toList.take 2

theorem letters_channel (n : ℕ) :
    letters (customerChannel n) = ['c', 'u'] ∧ letters (restaurantChannel n) = ['r', 'e'] ∧
    letters (branchChannel n) = ['b', 'r'] ∧ letters (agentChannel n) = ['a', 'g'] := by
  simp [letters, customerChannel, restaurantChannel, branchChannel, agentChannel,
    String.toList_append]

theorem letters_of_match {channel : String} {branchId : ℕ}
    (matched : matchBranchChannel channel = some branchId) : letters channel = ['b', 'r'] := by
  rw [matchBranchChannel] at matched
  split at matched
  next starts =>
    obtain ⟨rest, text⟩ := List.isPrefixOf_iff_prefix.1 starts.1
    rw [letters, ← text]
    rfl
  next => cases matched

/-! ## What a user may hear -/

section

variable {owner : ℕ → ℕ} {user : RequestActor} {channel : String}

/-- A user may hear a channel, going by the restaurants to which the branches belong. -/
def MayHear (owner : ℕ → ℕ) (user : RequestActor) (channel : String) : Prop :=
  channel ∈ deriveAllowedChannels user ∨
    user.role = .restaurantUser ∧ user.restaurantRole = some "owner" ∧
      ∃ branchId, matchBranchChannel channel = some branchId ∧
      user.restaurantId = some (owner branchId)

/-- The branches that a token lists belong to its restaurant. -/
def Issued (owner : ℕ → ℕ) (user : RequestActor) : Prop :=
  ∀ restaurantId, user.restaurantId = some restaurantId →
  ∀ branchId ∈ user.branchIds, owner branchId = restaurantId

/-- The core service says of each branch to which restaurant it belongs. -/
def Answers (owner : ℕ → ℕ) (getBranch : ℕ → Except Err CoreBranch) : Prop :=
  ∀ branchId branch, getBranch branchId = .ok branch → branch.restaurantId = owner branchId

theorem restaurantOf_eq_some {restaurantId : ℕ} (found : restaurantOf user = some restaurantId) :
    user.restaurantId = some restaurantId :=
  (Option.filter_eq_some_iff.1 found).1

theorem mem_allowed (listed : channel ∈ deriveAllowedChannels user) :
    user.role = .customer ∧ channel = customerChannel user.userId ∨
      user.role = .restaurantUser ∧ (∃ restaurantId, user.restaurantId = some restaurantId ∧
        (channel = restaurantChannel restaurantId ∨ ∃ branchId ∈ user.branchIds,
          channel = branchChannel branchId)) ∨
      user.role = .deliveryAgent ∧ channel = agentChannel user.userId ∨ user.role = .systemAdmin ∧
      channel = "admin:alerts" := by
  rw [deriveAllowedChannels] at listed
  cases isRole : user.role with
  | customer => simp_all
  | deliveryAgent => simp_all
  | systemAdmin => simp_all
  | restaurantUser =>
    rw [isRole] at listed
    dsimp only at listed
    split at listed
    next => cases listed
    next restaurantId found =>
      refine .inr (.inl ⟨rfl, restaurantId, restaurantOf_eq_some found, ?_⟩)
      rcases List.mem_cons.1 listed with isRestaurant | isBranch
      · exact .inl isRestaurant
      · obtain ⟨branchId, assigned, rfl⟩ := List.mem_map.1 isBranch
        exact .inr ⟨branchId, assigned, rfl⟩

theorem permits_of_allowed {getBranch : ℕ → Except Err CoreBranch}
    (answers : Answers owner getBranch)
    (allowed : isChannelAllowed getBranch user (deriveAllowedChannels user) channel = true) :
    MayHear owner user channel := by
  rw [isChannelAllowed] at allowed
  split at allowed
  next listed => exact .inl listed
  next =>
    split at allowed
    next => cases allowed
    next isOwner =>
      push Not at isOwner
      obtain ⟨role, restaurantRole, _⟩ := isOwner
      split at allowed
      next => cases allowed
      next branchId matched =>
        split at allowed
        next branch answered =>
          refine .inr ⟨role, restaurantRole, branchId, matched, ?_⟩
          rw [← answers branchId branch answered]
          exact of_decide_eq_true allowed
        next => cases allowed

theorem customer_of_permits {customerId : ℕ}
    (permits : MayHear owner user (customerChannel customerId)) :
    user.role = .customer ∧ user.userId = customerId := by
  have first := (letters_channel customerId).1
  rcases permits with listed | ⟨_, _, branchId, matched, _⟩
  · rcases mem_allowed listed with ⟨role, same⟩ | ⟨_, restaurantId, _, same | ⟨branchId, _, same⟩⟩
      | ⟨_, same⟩ | ⟨_, same⟩
    · exact ⟨role, (customerChannel_inj.1 same).symm⟩
    all_goals rw [same] at first
    · exact absurd (first.symm.trans (letters_channel restaurantId).2.1) (by decide)
    · exact absurd (first.symm.trans (letters_channel branchId).2.2.1) (by decide)
    · exact absurd (first.symm.trans (letters_channel user.userId).2.2.2) (by decide)
    · exact absurd first (by decide)
  · exact absurd (first.symm.trans (letters_of_match matched)) (by decide)

theorem staff_of_permits (issued : Issued owner user) {branchId : ℕ}
    (permits : MayHear owner user (branchChannel branchId)) :
    user.role = .restaurantUser ∧ user.restaurantId = some (owner branchId) ∧
      (user.restaurantRole = some "owner" ∨ branchId ∈ user.branchIds) := by
  have first := (letters_channel branchId).2.2.1
  rcases permits with listed | ⟨role, isOwner, branchId', matched, restaurant⟩
  · rcases mem_allowed listed with ⟨_, same⟩
      | ⟨role, restaurantId, restaurant, same | ⟨branchId', assigned, same⟩⟩ | ⟨_, same⟩ | ⟨_, same⟩
    · rw [same] at first
      exact absurd (first.symm.trans (letters_channel user.userId).1) (by decide)
    · rw [same] at first
      exact absurd (first.symm.trans (letters_channel restaurantId).2.1) (by decide)
    · -- The token lists the branch, and lists only branches of its own restaurant.
      cases branchChannel_inj.1 same
      refine ⟨role, ?_, .inr assigned⟩
      rw [restaurant, issued restaurantId restaurant branchId assigned]
    · rw [same] at first
      exact absurd (first.symm.trans (letters_channel user.userId).2.2.2) (by decide)
    · rw [same] at first
      exact absurd first (by decide)
  · rw [matchBranchChannel_branchChannel] at matched
    cases matched
    exact ⟨role, restaurant, .inl isOwner⟩

theorem agent_of_permits {agentId : ℕ} (permits : MayHear owner user (agentChannel agentId)) :
    user.role = .deliveryAgent ∧ user.userId = agentId := by
  have first := (letters_channel agentId).2.2.2
  rcases permits with listed | ⟨_, _, branchId, matched, _⟩
  · rcases mem_allowed listed with ⟨_, same⟩ | ⟨_, restaurantId, _, same | ⟨branchId, _, same⟩⟩
      | ⟨role, same⟩ | ⟨_, same⟩
    · rw [same] at first
      exact absurd (first.symm.trans (letters_channel user.userId).1) (by decide)
    · rw [same] at first
      exact absurd (first.symm.trans (letters_channel restaurantId).2.1) (by decide)
    · rw [same] at first
      exact absurd (first.symm.trans (letters_channel branchId).2.2.1) (by decide)
    · exact ⟨role, (agentChannel_inj.1 same).symm⟩
    · rw [same] at first
      exact absurd first (by decide)
  · exact absurd (first.symm.trans (letters_of_match matched)) (by decide)

/-- Someone who is no administrator may join the channel of an order's customer or of its branch
exactly if `assertReadAccess` admits that user to the order, as long as the branch can be looked
up. -/
theorem channels_match_read_access (owner : ℕ → ℕ) (user : RequestActor)
    (issued : Issued owner user) (staff : user.role ≠ .systemAdmin)
    (restaurant : user.restaurantId ≠ some 0) (getBranch : ℕ → Except Err CoreBranch)
    (answers : Answers owner getBranch) (order : Order)
    (owned : order.restaurantId = owner order.branchId)
    (found : ∃ branch, getBranch order.branchId = .ok branch) :
    (isChannelAllowed getBranch user (deriveAllowedChannels user)
      (customerChannel order.customerId) = true ∨
      isChannelAllowed getBranch user (deriveAllowedChannels user)
        (branchChannel order.branchId) = true) ↔
      OrderService.hasReadAccess order.customerId order.restaurantId order.branchId user =
        true := by
  simp only [OrderService.hasReadAccess, Bool.or_eq_true, Bool.and_eq_true, decide_eq_true_eq,
    List.contains_iff_mem]
  constructor
  · rintro (allowed | allowed)
    · exact .inl (.inr (customer_of_permits (permits_of_allowed answers allowed)))
    · obtain ⟨role, its, how⟩ := staff_of_permits issued (permits_of_allowed answers allowed)
      exact .inr ⟨⟨role, owned ▸ its⟩, how⟩
  · rintro ((admin | ⟨role, same⟩) | ⟨⟨role, its⟩, how⟩)
    · exact absurd admin staff
    · refine .inl ?_
      rw [isChannelAllowed, if_pos (by simp [deriveAllowedChannels, role, same])]
    · refine .inr ?_
      have truthy : restaurantOf user = some order.restaurantId :=
        Option.filter_eq_some_iff.2 ⟨its, by simpa [its] using restaurant⟩
      rw [isChannelAllowed]
      split
      next => rfl
      next unlisted =>
        -- A branch that the token lists is on the static list, so only the owner is left.
        have isOwner : user.restaurantRole = some "owner" := by
          refine how.resolve_right fun assigned => unlisted ?_
          simpa [deriveAllowedChannels, role, truthy] using Or.inr ⟨order.branchId, assigned, rfl⟩
        obtain ⟨branch, answered⟩ := found
        rw [if_neg (by simp [role, isOwner, truthy]), matchBranchChannel_branchChannel]
        simp [answered, its, owned, answers order.branchId branch answered]

def restaurantOwner : RequestActor :=
  { userId := 50, role := .restaurantUser, restaurantId := some 5, restaurantRole := some "owner" }

theorem owner_joins_branch :
    isChannelAllowed Sample.core.getBranch restaurantOwner (deriveAllowedChannels restaurantOwner)
      (customerChannel 7) = true ∨
      isChannelAllowed Sample.core.getBranch restaurantOwner (deriveAllowedChannels restaurantOwner)
        (branchChannel 6) = true :=
  (channels_match_read_access (fun _ => 5) restaurantOwner
    (fun _ _ _ none => absurd none List.not_mem_nil) (by decide) (by decide)
    Sample.core.getBranch (fun _ _ answered => by cases answered; rfl) (Sample.order .placed) rfl
    ⟨_, rfl⟩).2 (by decide)

end

/-! ## What the servers keep -/

section

variable {owner : ℕ → ℕ} {announced announced' : List (ℕ × Announcement)}

/-- The push belongs to an announcement of its server. -/
def Stems (announced : List (ℕ × Announcement)) (origin : ℕ) (push : Push) : Prop :=
  ∃ announcement, (origin, announcement) ∈ announced ∧ push ∈ announcement.pushes

theorem Stems.mono (more : announced ⊆ announced') {origin : ℕ} {push : Push}
    (stems : Stems announced origin push) : Stems announced' origin push := by
  obtain ⟨announcement, among, isPush⟩ := stems
  exact ⟨announcement, more among, isPush⟩

structure SoundSocket (owner : ℕ → ℕ) (announced : List (ℕ × Announcement))
    (socket : Socket) : Prop where
  allowed : socket.allowed = deriveAllowedChannels socket.user
  issued : Issued owner socket.user
  rooms : ∀ channel ∈ socket.rooms, MayHear owner socket.user channel
  inbox : ∀ origin push, .push origin push ∈ socket.inbox →
    MayHear owner socket.user push.channel ∧ Stems announced origin push

namespace SoundSocket

variable {socket : Socket}

theorem mono (more : announced ⊆ announced') (sound : SoundSocket owner announced socket) :
    SoundSocket owner announced' socket :=
  { sound with inbox := fun origin push got => ⟨(sound.inbox origin push got).1,
    (sound.inbox origin push got).2.mono more⟩ }

theorem connect {server : ℕ} {user : RequestActor} (issued : Issued owner user) :
    SoundSocket owner announced (.connect server user) where
  allowed := rfl
  issued := issued
  rooms := fun _ none => absurd none List.not_mem_nil
  inbox := fun _ _ got => by cases List.mem_singleton.1 got

theorem emit {messages : List Received} (sound : SoundSocket owner announced socket)
    (fine : ∀ origin push, .push origin push ∈ messages →
      MayHear owner socket.user push.channel ∧ Stems announced origin push) :
    SoundSocket owner announced (socket.emit messages) := by
  rw [Socket.emit]
  split
  · refine { sound with inbox := fun origin push got => ?_ }
    exact (List.mem_append.1 got).elim (sound.inbox origin push) (fine origin push)
  · exact sound

theorem join {channel : String} (sound : SoundSocket owner announced socket)
    (permits : MayHear owner socket.user channel) :
    SoundSocket owner announced (socket.join channel) := by
  rw [Socket.join]
  split
  · exact sound
  · refine { sound with rooms := fun room member => ?_ }
    rcases List.mem_cons.1 member with rfl | old
    · exact permits
    · exact sound.rooms room old

theorem leave {channel : String} (sound : SoundSocket owner announced socket) :
    SoundSocket owner announced (socket.leave channel) :=
  { sound with rooms := fun room member => sound.rooms room (List.mem_filter.1 member).1 }

theorem disconnect (sound : SoundSocket owner announced socket) :
    SoundSocket owner announced socket.disconnect :=
  { sound with rooms := fun _ none => absurd none List.not_mem_nil }

@[simp] theorem user_join (socket : Socket) (channel : String) :
    (socket.join channel).user = socket.user := by
  rw [Socket.join]
  split <;> rfl

theorem settle {subscription : Subscription} {allowed : Bool}
    (sound : SoundSocket owner announced socket)
    (permits : allowed = true → MayHear owner socket.user subscription.channel) :
    SoundSocket owner announced (socket.settle subscription allowed) := by
  have waiting : SoundSocket owner announced { socket with
      pending := socket.pending.erase subscription } := { sound with }
  rw [Socket.settle]
  cases allowed with
  | true =>
    refine (waiting.join (permits rfl)).emit fun origin push got => ?_
    cases subscription with
    | mk channel ack => cases ack <;> simp at got
  | false =>
    refine (waiting.emit fun origin push got => ?_).disconnect
    cases subscription with
    | mk channel ack => cases ack <;> simp at got

/-- What is published in a room reaches only sockets that may hear it. -/
theorem receive {origin : ℕ} {push : Push} (sound : SoundSocket owner announced socket)
    (stems : Stems announced origin push) :
    SoundSocket owner announced (socket.receive origin push) := by
  rw [Socket.receive]
  split
  next member =>
    refine sound.emit fun origin' push' got => ?_
    cases List.mem_singleton.1 got
    exact ⟨sound.rooms _ member, stems⟩
  next => exact sound

end SoundSocket

structure SoundServers (owner : ℕ → ℕ) (announced : List (ℕ × Announcement))
    (s : Servers) : Prop where
  sockets : ∀ id socket, s.sockets id = some socket → SoundSocket owner announced socket
  wire : ∀ server, ∀ message ∈ s.wire server, Stems announced message.1 message.2

namespace SoundServers

variable {s s' : Servers}

theorem start : SoundServers owner announced .start where
  sockets := fun _ _ found => by cases found
  wire := fun _ _ waits => absurd waits List.not_mem_nil

theorem mono (more : announced ⊆ announced') (sound : SoundServers owner announced s) :
    SoundServers owner announced' s :=
  ⟨fun id socket found => (sound.sockets id socket found).mono more,
    fun server message waits => (sound.wire server message waits).mono more⟩

theorem put {id : ℕ} {socket : Socket} (sound : SoundServers owner announced s)
    (new : SoundSocket owner announced socket) :
    SoundServers owner announced (s.put id socket) := by
  refine { sound with sockets := fun id' socket' found => ?_ }
  change Function.update s.sockets id (some socket) id' = some socket' at found
  by_cases same : id' = id
  · rw [same, Function.update_self] at found
    cases found
    exact new
  · rw [Function.update_of_ne same] at found
    exact sound.sockets id' socket' found

theorem hand {server origin : ℕ} {push : Push} (sound : SoundServers owner announced s)
    (stems : Stems announced origin push) :
    SoundServers owner announced (s.hand server origin push) := by
  refine { sound with sockets := fun id socket found => ?_ }
  obtain ⟨old, was, rfl⟩ := Option.map_eq_some_iff.1 found
  split
  · exact (sound.sockets id old was).receive stems
  · exact sound.sockets id old was

theorem publish {server : ℕ} {push : Push} (sound : SoundServers owner announced s)
    (stems : Stems announced server push) :
    SoundServers owner announced (s.publish server push) := by
  refine { sound.hand stems with wire := fun other message waits => ?_ }
  rw [Servers.publish] at waits
  dsimp only at waits
  split at waits
  · exact sound.wire other message waits
  · rcases List.mem_append.1 waits with old | new
    · exact sound.wire other message old
    · cases List.mem_singleton.1 new
      exact stems

theorem publishAll {server : ℕ} {pushes : List Push} (sound : SoundServers owner announced s)
    (stem : ∀ push ∈ pushes, Stems announced server push) :
    SoundServers owner announced (s.publishAll server pushes) := by
  induction pushes generalizing s with
  | nil => exact sound
  | cons push pushes inductionHypothesis =>
    obtain ⟨first, rest⟩ := List.forall_mem_cons.1 stem
    exact inductionHypothesis (sound.publish first) rest

theorem update_wire {server : ℕ} {rest : List (ℕ × Push)} (sound : SoundServers owner announced s)
    (fewer : rest ⊆ s.wire server) :
    SoundServers owner announced { s with wire := Function.update s.wire server rest } := by
  refine { sound with wire := fun other message waits => ?_ }
  dsimp only at waits
  by_cases same : other = server
  · rw [same, Function.update_self] at waits
    exact sound.wire server message (fewer waits)
  · rw [Function.update_of_ne same] at waits
    exact sound.wire other message waits

end SoundServers

/-- What an event relies on: the core service issues the tokens and answers the lookups. -/
def Trusted (owner : ℕ → ℕ) (around : Surroundings) : Event → Prop
  | .connect _ _ handshake => ∀ user, authenticate around handshake = .ok user → Issued owner user
  | .settle _ _ getBranch => Answers owner getBranch
  | _ => True

theorem sound_next {around : Surroundings} {s s' : Servers} {e : Event}
    (sound : SoundServers owner s.announced s) (trusted : Trusted owner around e)
    (moves : s.next around e = some s') : SoundServers owner s'.announced s' := by
  cases Servers.step_of_next moves with
  | connect free accepted => exact sound.put (.connect (trusted _ accepted))
  | @subscribe id _ socket found => exact sound.put { sound.sockets id socket found with }
  | @settle id _ _ socket found =>
    have known := sound.sockets id socket found
    refine sound.put (known.settle fun allowed => ?_)
    rw [known.allowed] at allowed
    exact permits_of_allowed trusted allowed
  | @unsubscribe id _ socket found => exact sound.put (sound.sockets id socket found).leave
  | @disconnect id socket found => exact sound.put (sound.sockets id socket found).disconnect
  | @announce server announcement =>
    have stem : ∀ push ∈ announcement.pushes,
        Stems (s.announced ++ [(server, announcement)]) server push :=
      fun push isPush => ⟨announcement, List.mem_append_right _ (List.mem_singleton.2 rfl), isPush⟩
    have published := (sound.mono (List.subset_append_left _ _)).publishAll stem
    exact ⟨published.sockets, published.wire⟩
  | @arrive server origin push rest waiting =>
    have stems : Stems s.announced origin push :=
      sound.wire server (origin, push) (by simp [waiting])
    have handed : SoundServers owner s.announced (s.hand server origin push) := sound.hand stems
    refine handed.update_wire ?_
    change rest ⊆ s.wire server
    rw [waiting]
    exact List.subset_cons_self _ _
  | lose waiting =>
    refine sound.update_wire ?_
    rw [waiting]
    exact List.subset_cons_self _ _

end

/-! ## The region and its servers -/

/-- The rows of an announcement are rows of the database, up to the columns that change. -/
structure Known (db : Database) (announcement : Announcement) : Prop where
  order : ∃ row ∈ (db .orders).rows, Records.fixed .orders announcement.order =
    Records.fixed .orders row
  delivery : ∀ delivery, announcement.delivery = some delivery →
    delivery.orderId = announcement.order.id ∧
    ∃ row ∈ (db .deliveries).rows, Records.fixed .deliveries delivery =
      Records.fixed .deliveries row

/-- The core service says of the branch of a new order to which restaurant it belongs. -/
def Consistent (owner : ℕ → ℕ) : Operation → Prop
  | .placeOrder core _ _ => Answers owner core.getBranch
  | _ => True

/-- What a server may do next to the region.  An announcement is not tied to the call that makes it:
a server may announce, at any time and as often as it likes, whatever rows of the database a call
could have at hand. -/
def Vouched (owner : ℕ → ℕ) (around : Surroundings) (p : Region) (e : WebSocket.Event) : Prop :=
  Trusted owner around e ∧ ∀ server announcement, e = .announce server announcement →
  Known p.db announcement

/-- A run of the calls of a region and of the servers, in any interleaving. -/
inductive Runs (env : Config) (owner : ℕ → ℕ) (around : Surroundings) : Region → Servers → Prop
  | start (x : Shared) : Runs env owner around (Pool.quiet Database.empty x) .start
  | region {p p' : Region} {s : Servers} {e : Store.Event Operation} :
      Runs env owner around p s → Serves (Consistent owner) e → p.next (code env) e = some p' →
      Runs env owner around p' s
  | server {p : Region} {s s' : Servers} {e : WebSocket.Event} :
      Runs env owner around p s → Vouched owner around p e → s.next around e = some s' →
      Runs env owner around p s'

section

variable {env : Config} {owner : ℕ → ℕ} {around : Surroundings} {p : Region} {s : Servers}

theorem fixed_known {t : TableName} {db db' : Database}
    (evolves : Db.Evolves Records.Follows db db') {row : RowOf t}
    (known : ∃ found ∈ (db t).rows, Records.fixed t row = Records.fixed t found) :
    ∃ found ∈ (db' t).rows, Records.fixed t row = Records.fixed t found := by
  obtain ⟨found, member, same⟩ := known
  obtain ⟨found', there, follows⟩ := evolves t _ _ (Table.get_of_mem member)
  exact ⟨found', Table.get_mem there, same.trans follows.fixed.symm⟩

theorem Known.later {db db' : Database} (evolves : Db.Evolves Records.Follows db db')
    {announcement : Announcement} (known : Known db announcement) : Known db' announcement where
  order := fixed_known evolves known.order
  delivery := fun delivery its =>
    ⟨(known.delivery delivery its).1, fixed_known evolves (known.delivery delivery its).2⟩

/-- The announcements, in every state of a run. -/
structure Story (env : Config) (owner : ℕ → ℕ) (p : Region) (s : Servers) : Prop where
  reached : ∃ x, Pool.Reach (code env) (fun _ e => Serves (Consistent owner) e)
    (Pool.quiet Database.empty x) p
  known : ∀ origin announcement, (origin, announcement) ∈ s.announced → Known p.db announcement
  sound : SoundServers owner s.announced s

theorem announced_next {s' : Servers} {e : WebSocket.Event} (moves : s.next around e = some s')
    {origin : ℕ} {announcement : Announcement} (among : (origin, announcement) ∈ s'.announced) :
    (origin, announcement) ∈ s.announced ∨ e = .announce origin announcement := by
  cases Servers.step_of_next moves with
  | announce =>
    rcases List.mem_append.1 among with old | isNew
    · exact .inl old
    · cases List.mem_singleton.1 isNew
      exact .inr rfl
  | _ => exact .inl among

theorem story_of_runs (runs : Runs env owner around p s) : Story env owner p s := by
  induction runs with
  | start x => exact ⟨⟨x, .refl⟩, fun _ _ among => absurd among List.not_mem_nil, .start⟩
  | region _ serves moves story =>
    obtain ⟨x, reached⟩ := story.reached
    have evolves := Records.follows_of_reach reached (Pool.Reach.refl.step serves moves)
    exact ⟨⟨x, reached.step serves moves⟩, fun origin announcement among =>
      (story.known origin announcement among).later evolves, story.sound⟩
  | server _ vouched moves story =>
    refine ⟨story.reached, fun origin announcement among => ?_,
      sound_next story.sound vouched.1 moves⟩
    rcases announced_next moves among with old | rfl
    · exact story.known origin announcement old
    · exact vouched.2 origin announcement rfl

/-- An order names the restaurant of its branch. -/
def Owned (owner : ℕ → ℕ) : (t : TableName) → RowOf t → Prop
  | .orders, (row : Order) => row.restaurantId = owner row.branchId
  | _, _ => True

theorem upholds_owned {w : SqlWrite}
    (listed : Catalogue (fun data => data.restaurantId = owner data.branchId) True True w) :
    w.Upholds (Owned owner) := by
  cases listed with
  | order data id now fresh meets => exact meets
  | orderStatus k status => cases status <;> exact fun row owned => owned
  | orderAgent => exact fun row owned => owned
  | orderCommission => exact fun row owned => owned
  | _ => first | trivial | exact fun row owned => owned

theorem owned_of_reach {x : Shared}
    (reached : Pool.Reach (code env) (fun _ e => Serves (Consistent owner) e)
      (Pool.quiet Database.empty x) p) : Db.Upright (Owned owner) p.db := by
  refine Pool.upright_of_reach
    (b := catalogued (fun data => data.restaurantId = owner data.branchId) True True)
    (fun _ => upholds_owned)
    (fun _ op consistent => ?_) (Pool.audited_quiet _ x) reached fun _ _ member =>
      absurd member List.not_mem_nil
  refine WriteCatalogue.harmless_run env op ?_ (fun _ => trivial) fun _ => trivial
  cases op with
  | placeOrder core customerId data =>
    exact fun branch _ _ _ answered => consistent data.branchId branch answered
  | _ => trivial

/-- Everything is published for the order's customer, for its branch, or for the agent of its
delivery. -/
theorem channel_of_push {announcement : Announcement} {push : Push}
    (isPush : push ∈ announcement.pushes) :
    push.channel = customerChannel announcement.order.customerId ∨
    push.channel = branchChannel announcement.order.branchId ∨
      ∃ delivery, announcement.delivery = some delivery ∧
      push.channel = agentChannel delivery.agentId := by
  cases announcement <;>
    simp only [Announcement.pushes, Announcement.orderCreatedPush, List.mem_cons, List.not_mem_nil,
      or_false] at isPush
  case taskAssigned order delivery =>
    subst isPush
    exact .inr (.inr ⟨delivery, rfl, rfl⟩)
  case orderPlaced order =>
    subst isPush
    exact .inr (.inl rfl)
  case paymentFailed order =>
    subst isPush
    exact .inl rfl
  case moved order delivery lat lng =>
    subst isPush
    exact .inl rfl
  all_goals
    rcases isPush with rfl | rfl
    · exact .inl rfl
    · exact .inr (.inl rfl)

/-- The order of an announcement, as the database has it: the announcement tells nobody else about
it than those who may read it, or the agent of one of its deliveries. -/
theorem readers_of_permits {db : Database} (owned : Db.Upright (Owned owner) db)
    {announcement : Announcement} (known : Known db announcement) {push : Push}
    (isPush : push ∈ announcement.pushes) {user : RequestActor} (issued : Issued owner user)
    (permits : MayHear owner user push.channel) :
    ∃ row : Order, row ∈ (db .orders).rows ∧
    Records.fixed .orders announcement.order = Records.fixed .orders row ∧
      (OrderService.assertReadAccess row.customerId row.restaurantId row.branchId user = .ok () ∨
        ∃ delivery : Delivery, delivery ∈ (db .deliveries).rows ∧ delivery.orderId = row.id ∧
        user.role = .deliveryAgent ∧
          user.userId = delivery.agentId) := by
  obtain ⟨row, member, same⟩ := known.order
  have customer : announcement.order.customerId = row.customerId :=
    (congrArg Order.customerId same :)
  have branch : announcement.order.branchId = row.branchId := (congrArg Order.branchId same :)
  have restaurant : row.restaurantId = owner row.branchId := owned .orders row member
  refine ⟨row, member, same, ?_⟩
  rcases channel_of_push isPush with isCustomer | isBranch | ⟨delivery, its, isAgent⟩
  · rw [isCustomer, customer] at permits
    obtain ⟨role, same⟩ := customer_of_permits permits
    exact .inl (if_pos (by simp [OrderService.hasReadAccess, role, same]))
  · rw [isBranch, branch] at permits
    obtain ⟨role, its, how⟩ := staff_of_permits issued permits
    exact .inl (if_pos (by simp [OrderService.hasReadAccess, role, its, restaurant, how]))
  · rw [isAgent] at permits
    obtain ⟨role, its'⟩ := agent_of_permits permits
    obtain ⟨ofOrder, found, among, sameDelivery⟩ := known.delivery delivery its
    have agent : delivery.agentId = found.agentId := (congrArg Delivery.agentId sameDelivery :)
    have order : delivery.orderId = found.orderId := (congrArg Delivery.orderId sameDelivery :)
    have id : announcement.order.id = row.id := (congrArg Order.id same :)
    exact .inr ⟨found, among, by rw [← order, ofOrder, id], role, its'.trans agent⟩

/-- Whoever has got a push, of whatever server and in whatever state of a run, could read its order
with `GET /orders/:publicId` in that state, or is the agent of one of its deliveries. -/
theorem heard_by_readers (runs : Runs env owner around p s) {id : ℕ} {socket : Socket}
    (found : s.sockets id = some socket) {origin : ℕ} {push : Push}
    (got : .push origin push ∈ socket.inbox) :
    ∃ announcement, (origin, announcement) ∈ s.announced ∧ push ∈ announcement.pushes ∧
      ∃ row : Order, row ∈ (p.db .orders).rows ∧
      Records.fixed .orders announcement.order = Records.fixed .orders row ∧
        (OrderService.assertReadAccess row.customerId row.restaurantId row.branchId socket.user =
          .ok () ∨
          ∃ delivery : Delivery, delivery ∈ (p.db .deliveries).rows ∧ delivery.orderId = row.id ∧
          socket.user.role = .deliveryAgent ∧
            socket.user.userId = delivery.agentId) := by
  have story := story_of_runs runs
  obtain ⟨x, reached⟩ := story.reached
  have sound := story.sound.sockets id socket found
  obtain ⟨permits, announcement, among, isPush⟩ := sound.inbox origin push got
  exact ⟨announcement, among, isPush,
    readers_of_permits (owned_of_reach reached) (story.known origin announcement among) isPush
      sound.issued permits⟩

theorem Runs.play {p' : Region} {schedule : List (Store.Event Operation)}
    (runs : Runs env owner around p s) (serves : ∀ e ∈ schedule, Serves (Consistent owner) e)
    (played : Pool.play (code env) (fun _ _ => true) schedule p = some p') :
    Runs env owner around p' s := by
  induction schedule generalizing p with
  | nil =>
    cases played
    exact runs
  | cons e schedule inductionHypothesis =>
    obtain ⟨first, rest⟩ := List.forall_mem_cons.1 serves
    obtain ⟨between, moves, played⟩ := Option.bind_eq_some_iff.1 played
    exact inductionHypothesis (runs.region first moves) rest played

end

/-! ## A customer who listens -/

def listener : RequestActor := { userId := 7, role := .customer }

/-- One token is valid, and no cookie is encoded. -/
def surroundings : Surroundings :=
  ⟨some, fun token => if token = "listener" then some listener else none⟩

def joining : List WebSocket.Event :=
  [.connect 0 0 ⟨none, none, some "theme=dark; access_token=listener"⟩,
    .subscribe 0 ⟨"customer:7", true⟩,
    .settle 0 ⟨"customer:7", true⟩ Sample.core.getBranch]

theorem consistent_placing : ∀ e ∈ Records.placing, Serves (Consistent fun _ => 5) e := by
  intro e member
  rcases List.mem_cons.1 member with rfl | step
  · rintro branchId branch answered
    cases answered
    rfl
  · cases List.eq_of_mem_replicate step
    trivial

theorem trusted_joining : ∀ e ∈ joining, Trusted (fun _ => 5) surroundings e := by
  have isListener :
      authenticate surroundings ⟨none, none, some "theme=dark; access_token=listener"⟩ =
      .ok listener := by rfl
  intro e member
  simp only [joining, List.mem_cons, List.not_mem_nil, or_false] at member
  rcases member with rfl | rfl | rfl
  · intro user accepted
    cases isListener.symm.trans accepted
    intro restaurantId none
    cases none
  · trivial
  · intro branchId branch answered
    cases answered
    rfl

theorem Runs.listen {env : Config} {owner : ℕ → ℕ} {around : Surroundings} {p : Region}
    {s s' : Servers} {es : List WebSocket.Event} (runs : Runs env owner around p s)
    (trusted : ∀ e ∈ es, Trusted owner around e)
    (silent : ∀ e ∈ es, ∀ server a, e ≠ .announce server a)
    (played : Machine.play (Servers.next around) (fun _ _ => true) es s = some s') :
    Runs env owner around p s' := by
  induction es generalizing s with
  | nil =>
    cases played
    exact runs
  | cons e es inductionHypothesis =>
    obtain ⟨first, rest⟩ := List.forall_mem_cons.1 trusted
    obtain ⟨quiet, silent⟩ := List.forall_mem_cons.1 silent
    obtain ⟨between, moves, played⟩ := Option.bind_eq_some_iff.1 played
    exact inductionHypothesis
      (runs.server ⟨first, fun server a is => absurd is (quiet server a)⟩ moves) rest silent played

theorem customer_hears_of_order :
    ∃ p s socket push, Runs Sample.env (fun _ => 5) surroundings p s ∧ s.sockets 0 = some socket ∧
    .push 0 push ∈ socket.inbox ∧ ∃ announcement, (0, announcement) ∈ s.announced ∧
    push ∈ announcement.pushes ∧
      ∃ row : Order, row ∈ (p.db .orders).rows ∧
      Records.fixed .orders announcement.order = Records.fixed .orders row ∧
        (OrderService.assertReadAccess row.customerId row.restaurantId row.branchId socket.user =
          .ok () ∨
          ∃ delivery : Delivery, delivery ∈ (p.db .deliveries).rows ∧ delivery.orderId = row.id ∧
          socket.user.role = .deliveryAgent ∧
            socket.user.userId = delivery.agentId) := by
  have first : (Pool.play (code Sample.env) (fun _ _ => true) Records.placing
      (Pool.quiet Database.empty Sample.shared)).map
      (fun p => (p.db .orders).rows.map Order.customerId) = some [7] := by decide +kernel
  have second : (Machine.play (Servers.next surroundings)
      (fun _ _ => true) joining Servers.start).map (fun s =>
      (s.sockets 0).map fun socket => (socket.server, socket.connected, socket.rooms)) =
        some (some (0, true, ["customer:7"])) := by
    decide +kernel
  obtain ⟨p, placed, customers⟩ := Option.map_eq_some_iff.1 first
  obtain ⟨order, _, rows, isSeven, _⟩ := List.map_eq_cons_iff.1 customers
  obtain ⟨s, joins, sockets⟩ := Option.map_eq_some_iff.1 second
  obtain ⟨socket, found, isMember⟩ := Option.map_eq_some_iff.1 sockets
  simp only [Prod.mk.injEq] at isMember
  obtain ⟨server, connected, rooms⟩ := isMember
  have member : order ∈ (p.db .orders).rows := by
    rw [rows]
    exact List.mem_cons_self
  have before := ((Runs.start Sample.shared).play consistent_placing placed).listen trusted_joining
    (by simp [joining]) joins
  -- The order's own row is announced, and the customer's socket is in the room.
  have runs := before.server (e := .announce 0 (.paymentFailed order)) ⟨trivial, by
    rintro server announcement is
    cases is
    exact ⟨⟨order, member, rfl⟩, fun _ none => by cases none⟩⟩ rfl
  have inRoom : customerChannel order.customerId ∈ socket.rooms := by
    rw [isSeven, rooms]
    decide
  have got : Received.push 0 ⟨customerChannel order.customerId, "payment.failed",
      .paymentFailed order.publicId⟩ ∈
      (socket.receive 0 ⟨customerChannel order.customerId, "payment.failed",
        .paymentFailed order.publicId⟩).inbox := by
    simp [Socket.receive, inRoom, Socket.emit, connected]
  have found' : ((s.publish 0 ⟨customerChannel order.customerId, "payment.failed",
      .paymentFailed order.publicId⟩).sockets 0) =
      some (socket.receive 0 ⟨customerChannel order.customerId, "payment.failed",
        .paymentFailed order.publicId⟩) := by
    simp [Servers.publish, Servers.hand, found, server]
  exact ⟨p, _, _, _, runs, found', got, heard_by_readers runs found' got⟩

end SwiftBite.Verified.WebSocketAccess
