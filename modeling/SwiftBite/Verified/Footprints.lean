import SwiftBite.Service.Operations
import SwiftBite.Store.Footprint

/-! # Footprints of the repository functions

What each repository function writes and shows, so that a proof about one table can pass
over the functions that work on the others.
-/

set_option autoImplicit false

namespace SwiftBite.Verified

open Store Statement

/-- The clock, the sequences and the UUIDs only go forward. -/
structure Later (x x' : Shared) : Prop where
  now : x.now ≤ x'.now
  seq : ∀ t, x.seq t ≤ x'.seq t
  uuids : x.uuids ≤ x'.uuids

theorem Later.refl (x : Shared) : Later x x := ⟨le_rfl, fun _ => le_rfl, le_rfl⟩

theorem Later.trans {x x' x'' : Shared} (first : Later x x')
    (second : Later x' x'') : Later x x'' :=
  ⟨first.now.trans second.now, fun t => (first.seq t).trans (second.seq t),
    first.uuids.trans second.uuids⟩

theorem later_nextval (t : TableName) (x : Shared) :
    Later x { x with seq := Function.update x.seq t (x.seq t + 1) } := by
  refine ⟨le_rfl, fun t' => ?_, le_rfl⟩
  by_cases same : t' = t
  · subst same
    simp
  · simp [same]

theorem later_uuid (x : Shared) : Later x { x with uuids := x.uuids + 1 } :=
  ⟨le_rfl, fun _ => le_rfl, Nat.le_succ _⟩

theorem later_sleep (x : Shared) (duration : ℕ) : Later x { x with now := x.now + duration } :=
  ⟨Nat.le_add_right _ _, fun _ => le_rfl, le_rfl⟩

theorem later_presence (x : Shared) (p : Presence) : Later x { x with presence := p } :=
  ⟨le_rfl, fun _ => le_rfl, le_rfl⟩

/-- `Later`, and the presence keys stay as they are. -/
structure Ticks (x x' : Shared) : Prop extends Later x x' where
  presence : x'.presence = x.presence

theorem Ticks.refl (x : Shared) : Ticks x x := ⟨.refl x, rfl⟩

theorem Ticks.trans {x x' x'' : Shared} (first : Ticks x x')
    (second : Ticks x' x'') : Ticks x x'' :=
  ⟨first.toLater.trans second.toLater, second.presence.trans first.presence⟩

/-- Moves of the shared state that include those of the clock, the sequences and the UUIDs. -/
class Ticking (moves : Shared → Shared → Prop) : Prop where
  ticks : ∀ {x x'}, Ticks x x' → moves x x'

instance : Ticking Later := ⟨Ticks.toLater⟩

instance : Ticking Ticks := ⟨id⟩

abbrev SqlWrite := Write RowOf RowKey

/-- Bounds of the services: any later shared state. -/
abbrev within (writes : SqlWrite → Prop) (shows : Sigma RowOf → Prop) :
    Bounds RowOf RowKey Shared :=
  ⟨writes, shows, Later⟩

/-- Nothing is written, any row may be shown. -/
abbrev reading : Bounds RowOf RowKey Shared := within (fun _ => False) (fun _ => True)

/-- Nothing is written and no row is shown. -/
abbrev idle : Bounds RowOf RowKey Shared := within (fun _ => False) (fun _ => False)

/-- Any write, any row; of the shared state only what `moves` says. -/
abbrev anyWrite (moves : Shared → Shared → Prop) : Bounds RowOf RowKey Shared :=
  ⟨fun _ => True, fun _ => True, moves⟩

/-- Any write, any row. -/
abbrev anything : Bounds RowOf RowKey Shared := within (fun _ => True) (fun _ => True)

section Footprints

variable {writes : SqlWrite → Prop} {shows : Sigma RowOf → Prop} {moves : Shared → Shared → Prop}

theorem quiet_throwIf (condition : Prop) [Decidable condition] (err : Err) :
    (throwIf condition err).Quiet ⟨writes, shows, moves⟩ := by
  unfold throwIf
  split
  · exact .throw
  · exact .pure

theorem quiet_orElse {α : Type} {action : Service α} {fallback : α}
    (quiet : action.Quiet ⟨writes, shows, moves⟩) :
    (orElse action fallback).Quiet ⟨writes, shows, moves⟩ :=
  quiet.tryCatch fun _ => .pure

/-! ## Reads -/

section Reads

variable (conn : Conn)

theorem quiet_findOrderByPublicId (publicId : ℕ)
    (orders : ∀ row : Order, shows ⟨TableName.orders, row⟩) :
    (findOrderByPublicId conn publicId).Quiet ⟨writes, shows, moves⟩ :=
  Prog.Quiet.read (.selectFirst orders) .selectFirst

theorem quiet_findOrderById (id : ℕ) (orders : ∀ row : Order, shows ⟨TableName.orders, row⟩) :
    (findOrderById conn id).Quiet ⟨writes, shows, moves⟩ :=
  Prog.Quiet.read (.selectByKey orders) .selectByKey

theorem quiet_findItemsByOrderIds (orderIds : List ℕ) :
    (findItemsByOrderIds conn orderIds).Quiet ⟨writes, shows, moves⟩ := by
  unfold findItemsByOrderIds
  split
  · exact .pure
  · exact Prog.Quiet.read .select .select

theorem quiet_findDeliveryById (id : ℕ)
    (deliveries : ∀ row : Delivery, shows ⟨TableName.deliveries, row⟩) :
    (findDeliveryById conn id).Quiet ⟨writes, shows, moves⟩ :=
  Prog.Quiet.read (.selectByKey deliveries) .selectByKey

theorem quiet_findActiveDeliveryByOrderId (orderId : ℕ)
    (deliveries : ∀ row : Delivery, shows ⟨TableName.deliveries, row⟩) :
    (findActiveDeliveryByOrderId conn orderId).Quiet ⟨writes, shows, moves⟩ :=
  Prog.Quiet.read (.selectFirst deliveries) .selectFirst

theorem quiet_findActiveDeliveryByAgentId (agentId : ℕ)
    (deliveries : ∀ row : Delivery, shows ⟨TableName.deliveries, row⟩) :
    (findActiveDeliveryByAgentId conn agentId).Quiet ⟨writes, shows, moves⟩ :=
  Prog.Quiet.read (.selectFirst deliveries) .selectFirst

theorem quiet_diverge {α : Type} : (diverge conn : Service α).Quiet ⟨writes, shows, moves⟩ :=
  ⟨fun _ _ _ member => absurd member List.not_mem_nil,
    fun _ _ _ _ member => absurd member List.not_mem_nil,
    fun _ => trivial⟩

theorem quiet_reassignmentChainLoop (bound currentId count : ℕ) :
    (reassignmentChainLoop conn bound currentId count).Quiet ⟨writes, shows, moves⟩ := by
  induction bound generalizing currentId count with
  | zero => exact quiet_diverge conn
  | succ bound inductionHypothesis =>
    refine (Prog.Quiet.read .select .select).bind fun row => ?_
    cases row.join with
    | none => exact .pure
    | some previous => exact inductionHypothesis previous (count + 1)

theorem quiet_countReassignmentChain (deliveryId : ℕ) :
    (countReassignmentChain conn deliveryId).Quiet ⟨writes, shows, moves⟩ :=
  (Prog.Quiet.read .select .select).bind fun _ => quiet_reassignmentChainLoop conn _ _ _

theorem quiet_findCandidateAgents (env : Config) (pickup : Point) (limit : ℕ) :
    (findCandidateAgents conn env pickup limit).Quiet ⟨writes, shows, moves⟩ :=
  Prog.Quiet.read .select .select

theorem quiet_findPaymentProviderByName (name : String) :
    (findPaymentProviderByName conn name).Quiet ⟨writes, shows, moves⟩ :=
  Prog.Quiet.read .select .select

theorem quiet_findAgentPresence (agentId : ℕ)
    (presence : ∀ row : AgentPresence, shows ⟨TableName.agentPresence, row⟩) :
    (findAgentPresence conn agentId).Quiet ⟨writes, shows, moves⟩ :=
  Prog.Quiet.read (.selectByKey presence) .selectByKey

end Reads

section Ticking

variable [Ticking moves]

/-! ## Shared state -/

theorem quiet_nowIso : nowIso.Quiet ⟨writes, shows, moves⟩ :=
  Prog.Quiet.sure fun x => Ticking.ticks (.refl x)

theorem quiet_uuidv4 : uuidv4.Quiet ⟨writes, shows, moves⟩ :=
  Prog.Quiet.sure fun x => Ticking.ticks ⟨later_uuid x, rfl⟩

theorem quiet_nextval (t : TableName) : (nextval t).Quiet ⟨writes, shows, moves⟩ :=
  Prog.Quiet.sure fun x => Ticking.ticks ⟨later_nextval t x, rfl⟩

theorem quiet_nextvals (t : TableName) (n : ℕ) : (nextvals t n).Quiet ⟨writes, shows, moves⟩ := by
  induction n with
  | zero => exact .pure
  | succ n inductionHypothesis =>
    exact (quiet_nextval t).bind fun _ => inductionHypothesis.bind fun _ => .pure

theorem quiet_findNearbyOnlineAgents (env : Config) (centre : Point) (limit : ℕ) :
    (findNearbyOnlineAgents env centre limit).Quiet ⟨writes, shows, moves⟩ :=
  (Prog.Quiet.act fun x => Ticking.ticks (.refl x)).bind fun _ =>
    (Prog.Quiet.act fun x => Ticking.ticks (.refl x)).bind fun _ => .pure

theorem quiet_findCandidates (conn : Conn) (env : Config) (branch : Point) :
    (AssignmentService.findCandidates conn env branch).Quiet ⟨writes, shows, moves⟩ := by
  refine (quiet_orElse (quiet_findNearbyOnlineAgents env branch _)).bind fun candidates => ?_
  split
  · exact quiet_findCandidateAgents conn env branch _
  · exact .pure

theorem quiet_withinWindow (order : Order) :
    (OrderService.withinWindow order).Quiet ⟨writes, shows, moves⟩ := by
  unfold OrderService.withinWindow
  split
  · exact .pure
  · exact Prog.Quiet.sure fun x => Ticking.ticks (.refl x)
  · exact .pure

theorem quiet_assertWindow (order : Order) (targetStatus : OrderStatus) (orderActor : OrderActor) :
    (OrderService.assertWindow order targetStatus orderActor).Quiet ⟨writes, shows, moves⟩ := by
  unfold OrderService.assertWindow
  split
  · exact (quiet_withinWindow order).bind fun _ => quiet_throwIf _ _
  · exact .pure

/-! ## Writes -/

theorem quiet_orderStampTime (status : OrderStatus) :
    status.stampTime.Quiet ⟨writes, shows, moves⟩ := by
  unfold OrderStatus.stampTime
  split
  · exact quiet_nowIso.map
  · exact .pure

theorem quiet_deliveryStampTime (status : DeliveryStatus) :
    status.stampTime.Quiet ⟨writes, shows, moves⟩ := by
  unfold DeliveryStatus.stampTime
  split
  · exact quiet_nowIso.map
  · exact .pure

theorem quiet_insertOutboxEvent (data : OutboxEventInput)
    (inserts : ∀ row : OutboxEvent, writes (.insert TableName.eventsOutbox row))
    (outbox : ∀ row : OutboxEvent, shows ⟨TableName.eventsOutbox, row⟩) :
    (insertOutboxEvent .trx data).Quiet ⟨writes, shows, moves⟩ :=
  (quiet_nextval _).bind fun _ =>
    (Prog.Quiet.exec (.insert (fun _ => inserts _) fun _ => outbox _)).bind fun _ => .pure

theorem quiet_updateTransactionStatus (id : ℕ) (status : TransactionStatus)
    (updates : ∀ updatedAt, writes
      (.update TableName.transactions (RowKey.id id) (Transaction.withStatus status updatedAt)))
    (transactions : ∀ row : Transaction, shows ⟨TableName.transactions, row⟩) :
    (updateTransactionStatus .trx id status).Quiet ⟨writes, shows, moves⟩ :=
  quiet_nowIso.bind fun _ => Prog.Quiet.exec (.updateByKey (updates _) fun _ => transactions _)

theorem quiet_announceSettlement (order : Order) (delivery : Delivery)
    (inserts : ∀ row : OutboxEvent, writes (.insert TableName.eventsOutbox row))
    (outbox : ∀ row : OutboxEvent, shows ⟨TableName.eventsOutbox, row⟩) :
    (DeliveryService.announceSettlement order delivery).Quiet ⟨writes, shows, moves⟩ :=
  quiet_uuidv4.bind fun _ => quiet_nowIso.bind fun _ =>
    (quiet_insertOutboxEvent _ inserts outbox).bind fun _ =>
    quiet_uuidv4.bind fun _ => quiet_nowIso.bind fun _ => quiet_insertOutboxEvent _ inserts outbox

end Ticking

/-! ## Redis -/

theorem quiet_redis (f : Presence → Presence) : (redis f).Quiet (within writes shows) :=
  Prog.Quiet.act fun x => later_presence x _

/-- The moves include every command on the presence keys that adds no position. -/
structure Commands (moves : Shared → Shared → Prop) : Prop where
  shrinks : ∀ (x : Shared) (p : Presence), p.geo ⊆ x.presence.geo → moves x { x with presence := p }

theorem commands_later : Commands Later := ⟨fun x p _ => later_presence x p⟩

/-- A command that adds no position. -/
theorem Commands.quiet_redis (commands : Commands moves) {f : Presence → Presence}
    (fewer : ∀ p : Presence, (f p).geo ⊆ p.geo) : (redis f).Quiet ⟨writes, shows, moves⟩ :=
  Prog.Quiet.act fun x => commands.shrinks x _ (fewer _)

theorem Commands.quiet_markAgentBusy [Ticking moves] (commands : Commands moves) (agentId : ℕ) :
    (orElse (markAgentBusy agentId) ()).Quiet ⟨writes, shows, moves⟩ := by
  refine quiet_orElse (commands.quiet_redis fun p => ?_)
  unfold Presence.sadd
  split <;> exact List.Subset.refl _

theorem Commands.quiet_markAgentFree [Ticking moves] (commands : Commands moves) (agentId : ℕ) :
    (orElse (markAgentFree agentId) ()).Quiet ⟨writes, shows, moves⟩ :=
  quiet_orElse (commands.quiet_redis (fun _ => by exact List.Subset.refl _))

theorem Commands.quiet_setAgentOnline [Ticking moves] (commands : Commands moves) (agentId : ℕ)
    (point : Point)
    (places : ∀ x : Shared, moves x { x with presence := x.presence.geoadd agentId point }) :
    (setAgentOnline agentId point).Quiet ⟨writes, shows, moves⟩ :=
  (Prog.Quiet.act places).bind fun _ => quiet_nowIso.bind fun _ =>
    (commands.quiet_redis (fun _ => by exact List.Subset.refl _)).bind fun _ =>
      commands.quiet_redis fun _ => by exact List.Subset.refl _

theorem Commands.quiet_setAgentOffline (commands : Commands moves) (agentId : ℕ) :
    (setAgentOffline agentId).Quiet ⟨writes, shows, moves⟩ :=
  (commands.quiet_redis fun _ => by exact fun _ member => (List.mem_filter.1 member).1).bind
    fun _ =>
    (commands.quiet_redis fun _ => by exact List.Subset.refl _).bind fun _ =>
      commands.quiet_redis fun _ => by exact List.Subset.refl _

theorem Commands.quiet_pingAgent [Ticking moves] (commands : Commands moves) (agentId : ℕ)
    (point : Point)
    (places : ∀ x : Shared, moves x { x with presence := x.presence.geoadd agentId point }) :
    (pingAgent agentId point).Quiet ⟨writes, shows, moves⟩ :=
  (Prog.Quiet.act places).bind fun _ => quiet_nowIso.bind fun _ => commands.quiet_redis fun _ =>
    by exact List.Subset.refl _

/-! ## Presence -/

/-- An agent who goes online writes the agent's own row. -/
theorem Commands.harmless_online [Ticking moves] (commands : Commands moves) (agentId : ℕ)
    (point : Point)
    (inserts : ∀ row : AgentPresence, row.agentId = agentId →
      writes (.insert TableName.agentPresence row))
    (updates : ∀ f, writes (.update TableName.agentPresence (RowKey.id agentId) f))
    (places : ∀ x : Shared, moves x { x with presence := x.presence.geoadd agentId point }) :
    (PresenceService.online agentId point).Harmless ⟨writes, fun _ => True, moves⟩ := by
  refine Prog.Harmless.bind (quiet_nowIso.harmless.bind fun now => ?_) fun _ =>
    (commands.quiet_setAgentOnline agentId point places).harmless
  exact Prog.Harmless.exec (.upsert (fun _ => updates _) (fun _ => inserts _ rfl) fun _ => trivial)

theorem Commands.harmless_ping [Ticking moves] (commands : Commands moves) (agentId : ℕ)
    (point : Point)
    (updates : ∀ now,
      writes (.update TableName.agentPresence (RowKey.id agentId) (AgentPresence.move point now)))
    (places : ∀ x : Shared, moves x { x with presence := x.presence.geoadd agentId point }) :
    (PresenceService.ping agentId point).Harmless ⟨writes, fun _ => True, moves⟩ := by
  refine (quiet_findAgentPresence .pool agentId fun _ => trivial).harmless.bind fun presence => ?_
  cases presence with
  | none => exact trivial
  | some presence =>
    refine (quiet_throwIf _ _).harmless.bind fun _ => Prog.Harmless.bind ?_ fun _ => ?_
    · refine quiet_nowIso.harmless.bind fun now => Prog.Harmless.bind ?_ fun _ => trivial
      exact Prog.Harmless.exec (.updateByKey (updates now) fun _ => trivial)
    · refine (commands.quiet_pingAgent agentId point places).harmless.bind fun _ => ?_
      refine (quiet_findActiveDeliveryByAgentId .pool agentId fun _ => trivial).harmless.bind
        fun active => ?_
      cases active with
      | none => exact trivial
      | some active =>
        exact (quiet_findOrderById .pool active.orderId fun _ => trivial).harmless.bind
          fun _ => trivial

/-! ## Assignments -/

theorem quiet_book [Ticking moves] (data : CreateDeliveryInput) (orderId agentId : ℕ)
    (inserts : ∀ id now, writes (.insert TableName.deliveries (data.row id now)))
    (updates : ∀ k f, writes (.update TableName.orders k f)) :
    (do
      let delivery ← createDelivery .trx data
      let _ ← setDeliveryAgent .trx orderId agentId
      pure delivery : Service Delivery).Quiet ⟨writes, fun _ => True, moves⟩ := by
  refine Prog.Quiet.bind ((quiet_nextval _).bind fun _ => ?_) fun delivery =>
    Prog.Quiet.bind (quiet_nowIso.bind fun _ => quiet_nowIso.bind fun _ => ?_) fun _ => .pure
  · exact Prog.Quiet.exec (.insert (fun _ => inserts _ _) fun _ => trivial)
  · exact Prog.Quiet.exec (.updateByKey (updates _ _) fun _ => trivial)

theorem Commands.harmless_tryAssign [Ticking moves] (commands : Commands moves) (env : Config)
    (order : AssignmentOrderContext) (branch : Point) (reassignedFrom : Option ℕ)
    (inserts : ∀ row : Delivery, writes (.insert TableName.deliveries row))
    (updates : ∀ k f, writes (.update TableName.orders k f)) :
    (AssignmentService.tryAssign env order branch reassignedFrom).Harmless
      ⟨writes, fun _ => True, moves⟩ := by
  refine (quiet_findCandidates .pool env branch).harmless.bind fun candidates => ?_
  split
  · exact trivial
  next best _ =>
    refine Prog.Harmless.map
      ((Prog.Harmless.transaction (quiet_book _ _ _ (fun _ _ => inserts _) updates).harmless).bind
      fun delivery => ?_)
    exact (commands.quiet_markAgentBusy best.agentId).harmless.bind fun _ => trivial

/-- A reassignment writes orders and deliveries. -/
theorem Commands.harmless_reassign [Ticking moves] (commands : Commands moves) (env : Config)
    (core : Core) (orderPublicId : ℕ)
    (inserts : ∀ row : Delivery, writes (.insert TableName.deliveries row))
    (updates : ∀ k f, writes (.update TableName.orders k f))
    (changes : ∀ k f, writes (.update TableName.deliveries k f)) :
    (DeliveryService.reassign env core orderPublicId).Harmless ⟨writes, fun _ => True, moves⟩ := by
  refine (quiet_findOrderByPublicId .pool orderPublicId fun _ => trivial).harmless.bind
    fun order => ?_
  cases order with
  | none => exact trivial
  | some order =>
    refine (quiet_findActiveDeliveryByOrderId .pool order.id fun _ => trivial).harmless.bind
      fun active => ?_
    cases active with
    | none => exact trivial
    | some active =>
      refine (quiet_countReassignmentChain .pool active.id).harmless.bind fun chainLength =>
        (quiet_throwIf _ _).harmless.bind fun _ => ?_
      refine Prog.Harmless.bind
        ((quiet_deliveryStampTime _).harmless.bind fun stamp => ?_) fun _ => ?_
      · exact Prog.Harmless.exec (.updateByKey (changes _ _) fun _ => trivial)
      refine (commands.quiet_markAgentFree active.agentId).harmless.bind fun _ =>
        Prog.Quiet.ofExcept.harmless.bind fun branch => ?_
      refine (commands.harmless_tryAssign env order.assignmentContext branch.point _ inserts
        updates).bind fun delivery => ?_
      cases delivery with
      | none => exact trivial
      | some delivery => exact Prog.Quiet.ofExcept.harmless.bind fun _ => trivial

theorem Commands.harmless_offline [Ticking moves] (commands : Commands moves) (env : Config)
    (core : Core) (agentId : ℕ)
    (leaves : ∀ now,
      writes (.update TableName.agentPresence (RowKey.id agentId) (AgentPresence.goOffline now)))
    (inserts : ∀ row : Delivery, writes (.insert TableName.deliveries row))
    (updates : ∀ k f, writes (.update TableName.orders k f))
    (changes : ∀ k f, writes (.update TableName.deliveries k f)) :
    (PresenceService.offline env core agentId).Harmless ⟨writes, fun _ => True, moves⟩ := by
  refine (quiet_findActiveDeliveryByAgentId .pool agentId fun _ => trivial).harmless.bind
    fun active => ?_
  refine (quiet_throwIf _ _).harmless.bind fun _ => Prog.Harmless.bind ?_ fun _ => ?_
  · refine quiet_nowIso.harmless.bind fun now => Prog.Harmless.bind ?_ fun _ => trivial
    exact Prog.Harmless.exec (.updateByKey (leaves now) fun _ => trivial)
  · refine (commands.quiet_setAgentOffline agentId).harmless.bind fun _ => ?_
    cases active with
    | none => exact trivial
    | some active =>
      refine (quiet_findOrderById .pool active.orderId fun _ => trivial).harmless.bind
        fun order => ?_
      cases order with
      | none => exact trivial
      | some order =>
        refine Prog.Harmless.tryCatch ?_ fun _ => trivial
        exact (commands.harmless_reassign env core order.publicId inserts updates changes).bind
          fun _ => trivial

end Footprints

/-! ## Rules for the shared state -/

section Rules

open Protocol

variable {Γ β : Type} {P : Protocol (K := RowKey) RowOf Shared Err Operation Reply Γ} {i : ℕ}
  {op : Operation}
  {l : Local RowOf RowKey} {s : Sit RowOf Shared Operation Γ}

theorem wp_idle (lawful : P.Lawful) (free : P.Free i op Later) {prog : Service β} {Q}
    (quiet : prog.Quiet idle) (holds : P.inv s) (self : s.live i = some op)
    (next : ∀ result s', P.Env i op l s s' → Q result l s') : P.wp i op prog Q l s := by
  refine wp_quiet lawful free quiet holds self fun result ws rows s' none hidden env => ?_
  rw [List.eq_nil_iff_forall_not_mem.2 none, List.eq_nil_iff_forall_not_mem.2 hidden,
    Local.grow_nil]
  exact next result s' env

theorem wp_reading (lawful : P.Lawful) (free : P.Free i op Later) {prog : Service β} {Q}
    (quiet : prog.Quiet reading) (holds : P.inv s) (self : s.live i = some op)
    (next : ∀ result rows s', P.Env i op l s s' → Q result (l.saw rows) s') :
    P.wp i op prog Q l s := by
  refine wp_quiet lawful free quiet holds self fun result ws rows s' none _ env => ?_
  rw [List.eq_nil_iff_forall_not_mem.2 none, ← Local.saw_eq_grow]
  exact next result rows s' env

/-- The fallback hides the error of the action. -/
theorem wp_orElse (lawful : P.Lawful) (free : P.Free i op Later) {action : Service β} {fallback : β}
    {Q} (quiet : action.Quiet idle) (holds : P.inv s) (self : s.live i = some op)
    (next : ∀ value s', P.Env i op l s s' → Q (.ok value) l s') :
    P.wp i op (orElse action fallback) Q l s := by
  refine wp_tryCatch (wp_idle lawful free quiet holds self fun result s' env => ?_)
  cases result with
  | ok value => exact next value s' env
  | error err => exact next fallback s' env

/-- What a program establishes whether it succeeds or not is left alone by what it returns. -/
theorem wp_returning {γ : Type} {prog : Service β} {f : β → γ}
    {Q : Sit RowOf Shared Operation Γ → Prop} (ends : P.wp i op prog (fun _ _ s' => Q s') l s) :
    P.wp i op (prog >>= fun value => pure (f value)) (fun _ _ s' => Q s') l s := by
  refine wp_do (wp_mono ?_ ends)
  intro result l' s' holds
  cases result <;> exact holds

theorem wp_nowIso (lawful : P.Lawful) (free : P.Free i op Later) {Q} (holds : P.inv s)
    (next : ∀ time s', P.Env i op l s s' → Q (.ok time) l s') : P.wp i op nowIso Q l s :=
  wp_sure lawful free (Later.refl _) holds (next _)

theorem wp_uuidv4 (lawful : P.Lawful) (free : P.Free i op Later) {Q} (holds : P.inv s)
    (next : ∀ uuid s', P.Env i op l s s' → Q (.ok uuid) l s') : P.wp i op uuidv4 Q l s :=
  wp_sure lawful free (later_uuid _) holds (next _)

theorem wp_nextval (lawful : P.Lawful) (free : P.Free i op Later) (t : TableName) {Q}
    (holds : P.inv s) (next : ∀ id s', P.Env i op l s s' → Q (.ok id) l s') :
    P.wp i op (nextval t) Q l s :=
  wp_sure lawful free (later_nextval t _) holds (next _)

theorem wp_throwIf {condition : Prop} [Decidable condition] {err : Err}
    {Q : Except Err Unit → Local RowOf RowKey → Sit RowOf Shared Operation Γ → Prop}
    (passes : ¬condition → Q (.ok ()) l s) (throws : condition → Q (.error err) l s) :
    P.wp i op (throwIf condition err) Q l s := by
  unfold throwIf
  split
  next fails => exact throws fails
  next holds => exact passes holds

theorem wp_orderStampTime (lawful : P.Lawful) (free : P.Free i op Later) (status : OrderStatus) {Q}
    (holds : P.inv s) (self : s.live i = some op)
    (next : ∀ stamp s', P.Env i op l s s' → Q (.ok stamp) l s') :
    P.wp i op status.stampTime Q l s := by
  unfold OrderStatus.stampTime
  split
  · exact wp_map (wp_nowIso lawful free holds fun time s' env => next _ s' env)
  · exact next none s (.refl lawful holds self)

theorem wp_deliveryStampTime (lawful : P.Lawful) (free : P.Free i op Later)
    (status : DeliveryStatus) {Q} (holds : P.inv s) (self : s.live i = some op)
    (next : ∀ stamp s', P.Env i op l s s' → Q (.ok stamp) l s') :
    P.wp i op status.stampTime Q l s := by
  unfold DeliveryStatus.stampTime
  split
  · exact wp_map (wp_nowIso lawful free holds fun time s' env => next _ s' env)
  · exact next none s (.refl lawful holds self)

end Rules

end SwiftBite.Verified
