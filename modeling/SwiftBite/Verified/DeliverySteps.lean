import SwiftBite.Verified.Assignment
import SwiftBite.Verified.StatusWrite

/-! # Reassignment and the agent's requests

The remaining calls of the delivery side, each cut down to what it commits: a delivery's new
status, the order's status when the agent picks it up, a settlement, and the assignment that
follows a delivery given up.
-/

set_option autoImplicit false

namespace SwiftBite.Verified

open Store Protocol Statement AssignmentService DeliveryService

section

variable {Γ : Type} {P : Protocol (K := RowKey) RowOf Shared Err Operation Reply Γ} {i : ℕ}
  {op : Operation}
  {s : Sit RowOf Shared Operation Γ} {env : Config} {Q : Sit RowOf Shared Operation Γ → Prop}

/-- A delivery of which the call knows the status, about to be updated at `s'`. -/
structure Updating (P : Protocol (K := RowKey) RowOf Shared Err Operation Reply Γ) (i : ℕ)
    (op : Operation) (seen : List (Sigma RowOf)) (id : ℕ) (change : Delivery → Delivery)
    (row : Delivery) (s s' : Sit RowOf Shared Operation Γ) : Prop where
  env : P.Env i op ⟨none, []⟩ s s'
  beside : P.Alongside i op s'
  found : deliveryOf s'.db id = some row
  allowed : P.allow ⟨none, seen⟩ s'.db [.update TableName.deliveries (RowKey.id id) change]

/-- `reassign`, up to the statement that gives the delivery up. -/
theorem wp_reassign (lawful : P.Lawful) (free : P.Free i op Later) (persists : Persists P i op)
    {core : Core} {orderPublicId : ℕ} {seen : List (Sigma RowOf)} (holds : P.inv s)
    (stops : ∀ s', P.Env i op ⟨none, []⟩ s s' → Q s')
    (replaces : ∀ order active row stamp s₀ s₁, order.publicId = orderPublicId →
      orderOf s.db order.id = some order → P.Env i op ⟨none, []⟩ s s₀ → P.Alongside i op s₀ →
      deliveryOf s₀.db active.id = some active → active.orderId = order.id →
      active.status.active = true →
      Updating P i op (⟨TableName.deliveries, active⟩ :: ⟨TableName.orders, order⟩ :: seen)
        active.id (Delivery.withStatus .reassigned stamp) row s₀ s₁ →
      P.After i op s₁ ⟨none, []⟩ (s₁.db.apply (.update TableName.deliveries
      (RowKey.id active.id) (Delivery.withStatus .reassigned stamp))) s₁.side fun s₂ => ∀ seen,
      MayAssign P i op seen order.id Q s₂) :
    P.wp i op (reassign env core orderPublicId) (fun _ _ s' => Q s') ⟨none, seen⟩ s := by
  refine wp_do (wp_selectFirst lawful (fun isTrx => nomatch isTrx) holds ?_ ?_ fun _ s' env =>
    stops s' (env.released []))
  swap
  · exact fun _ s' env => stops s' (env.released [])
  intro _ order member s₁ env₁
  have read : orderOf s.db order.id = some order := Table.get_of_mem (List.mem_filter.1 member).1
  have isPublic : order.publicId = orderPublicId := of_decide_eq_true (List.mem_filter.1 member).2
  have until₁ := env₁.released []
  refine wp_do (wp_selectFirst lawful (fun isTrx => nomatch isTrx) env₁.inv ?_ ?_ ?_)
  · intro beside₁ active isActive s₂ env₂
    obtain ⟨among, isActive⟩ := List.mem_filter.1 isActive
    have readActive : deliveryOf s₁.db active.id = some active := Table.get_of_mem among
    simp only [Bool.and_eq_true, decide_eq_true_eq] at isActive
    have until₂ := until₁.trans lawful (env₂.released [])
    refine wp_do (wp_idle lawful free (quiet_countReassignmentChain .pool active.id)
      env₂.inv env₂.self ?_)
    intro result s₃ env₃
    have until₃ := until₂.trans lawful (env₃.released [])
    have since₃ := (env₂.released []).trans lawful (env₃.released [])
    cases result with
    | error err => exact stops s₃ until₃
    | ok chainLength =>
      refine wp_do (wp_throwIf (fun _ => wp_do ?_) fun _ => stops s₃ until₃)
      refine wp_updateDeliveryStatus lawful free env₃.inv env₃.self (fun s₄ env₄ => ?_)
        (fun row stamp s₄ seen' env₄ beside found allowed => ?_) fun _ s₄ env₄ =>
          stops s₄ (until₃.trans lawful env₄)
      · exact persists _ _ _ _ (since₃.trans lawful env₄).drift.1
          (Option.isSome_iff_exists.2 ⟨active, readActive⟩)
      · -- The old delivery is rejected; a successor, if any, comes with its own transaction.
        have after := replaces order active row stamp s₁ s₄ isPublic read until₁ beside₁ readActive
          isActive.1 isActive.2
          ⟨since₃.trans lawful env₄, beside, found, allowed⟩
        refine (after.released seen').imp fun s₅ inv₅ self₅ may => wp_do ?_
        refine wp_orElse lawful free (quiet_redis _) inv₅ self₅ fun _ s₆ env₆ =>
          wp_do (wp_ofExcept ?_)
        have may₆ := (may seen').later lawful (env₆.released [])
        cases core.getBranch order.branchId with
        | error err => exact (may seen').stops s₆ (env₆.released [])
        | ok branch =>
          refine wp_do (wp_mono ?_ (wp_tryAssign lawful free env₆.inv env₆.self may₆))
          intro result l s₇ ends
          cases result with
          | error err => exact ends
          | ok delivery => exact wp_orNoEligibleAgents ends
  · exact fun _ s' env => stops s' (until₁.trans lawful (env.released []))
  · exact fun _ s' env => stops s' (until₁.trans lawful (env.released []))

/-- The agent's request has given the delivery up, and the order may get another, if it is there. -/
structure MayReplace (P : Protocol (K := RowKey) RowOf Shared Err Operation Reply Γ) (i : ℕ)
    (op : Operation) (orderId : ℕ) (Q : Sit RowOf Shared Operation Γ → Prop)
    (s : Sit RowOf Shared Operation Γ) : Prop where
  assigns : ∀ s' seen, P.Env i op ⟨none, []⟩ s s' → (orderOf s'.db orderId).isSome = true →
    MayAssign P i op seen orderId Q s'
  stops : ∀ s', P.Env i op ⟨none, []⟩ s s' → Q s'

/-- `tryReassignAfterRejection`, once the rejection is committed. -/
theorem wp_tryReassignAfterRejection (lawful : P.Lawful) (free : P.Free i op Later) {core : Core}
    {rejected : Delivery} {seen : List (Sigma RowOf)} {start : Sit RowOf Shared Operation Γ}
    (since : P.Env i op ⟨none, []⟩ start s) (may : MayReplace P i op rejected.orderId Q start) :
    P.wp i op (tryReassignAfterRejection env core rejected) (fun _ _ s' => Q s')
      ⟨none, seen⟩ s := by
  refine wp_do (wp_idle lawful free (quiet_countReassignmentChain .pool rejected.id) since.inv
    since.self ?_)
  intro result s₁ env₁
  have until₁ := since.trans lawful (env₁.released [])
  cases result with
  | error err => exact may.stops s₁ until₁
  | ok chainLength =>
    -- The chain is long enough, or the order is read and assigned again.
    show P.wp i op (if chainLength ≥ env.maxReassignmentAttempts then _ else _) _ _ s₁
    split
    next => exact may.stops s₁ until₁
    next =>
      refine wp_do (wp_selectByKey lawful (fun isTrx => by cases isTrx) env₁.inv
        (fun _ order read s₂ env₂ => ?_)
        (fun _ s₂ env₂ => ?_) fun _ s₂ env₂ => ?_)
      · have until₂ := until₁.trans lawful (env₂.released [])
        have isOrder : RowKey.id order.id = RowKey.id rejected.orderId := Table.get_key read
        have sameId : order.assignmentContext.id = rejected.orderId := by
          simpa [Order.assignmentContext] using isOrder
        have there : (orderOf s₁.db rejected.orderId).isSome = true :=
          Option.isSome_iff_exists.2 ⟨order, read⟩
        refine wp_do (wp_ofExcept ?_)
        cases core.getBranch order.branchId with
        | error err => exact may.stops s₂ until₂
        | ok branch =>
          have may₂ := (may.assigns s₁ (⟨TableName.orders, order⟩ :: seen) until₁ there).later
            lawful (env₂.released [])
          rw [← sameId] at may₂
          refine wp_do (wp_mono ?_ (wp_tryAssign lawful free env₂.inv env₂.self may₂))
          intro result l s₃ ends
          cases result with
          | error err => exact ends
          | ok delivery => exact ends
      · exact may.stops s₂ (until₁.trans lawful (env₂.released []))
      · exact may.stops s₂ (until₁.trans lawful (env₂.released []))

/-- The agent's request has picked the delivery up, and the order follows. -/
structure MayPick (P : Protocol (K := RowKey) RowOf Shared Err Operation Reply Γ) (i : ℕ)
    (op : Operation) (orderId : ℕ) (Q : Sit RowOf Shared Operation Γ → Prop)
    (s : Sit RowOf Shared Operation Γ) : Prop where
  commits : ∀ row updatedAt stamp s', P.Env i op ⟨none, []⟩ s s' → P.Alongside i op s' →
    orderOf s'.db orderId = some row →
    (∃ seen, P.allow ⟨none, seen⟩ s'.db
      [.update TableName.orders (RowKey.id orderId) (Order.withStatus .picked updatedAt stamp)]) →
    P.After i op s' ⟨none, []⟩
      (s'.db.apply (.update TableName.orders (RowKey.id orderId)
      (Order.withStatus .picked updatedAt stamp))) s'.side Q
  stops : ∀ s', P.Env i op ⟨none, []⟩ s s' → Q s'

/-- What a request of the agent must establish once the delivery has its new status. -/
def AfterStatus (P : Protocol (K := RowKey) RowOf Shared Err Operation Reply Γ) (i : ℕ)
    (op : Operation) (orderId : ℕ) (target : DeliveryStatus)
    (Q : Sit RowOf Shared Operation Γ → Prop) (s : Sit RowOf Shared Operation Γ) : Prop :=
  match target with
  | .picked => MayPick P i op orderId Q s
  | .rejected => MayReplace P i op orderId Q s
  | _ => ∀ s', P.Env i op ⟨none, []⟩ s s' → Q s'

theorem AfterStatus.stops {orderId : ℕ} {target : DeliveryStatus}
    (after : AfterStatus P i op orderId target Q s) : ∀ s', P.Env i op ⟨none, []⟩ s s' → Q s' := by
  cases target with
  | picked => exact MayPick.stops after
  | rejected => exact MayReplace.stops after
  | _ => exact after

theorem wp_afterStatus (lawful : P.Lawful) (free : P.Free i op Later) {core : Core}
    {delivery : Delivery} {target : DeliveryStatus} {seen : List (Sigma RowOf)} (holds : P.inv s)
    (self : s.live i = some op) {start : Sit RowOf Shared Operation Γ}
    (since : P.Env i op ⟨none, []⟩ start s)
    (after : AfterStatus P i op delivery.orderId target Q start) :
    P.wp i op (afterStatus env core delivery target) (fun _ _ s' => Q s') ⟨none, seen⟩ s := by
  unfold afterStatus
  split
  next isPicked =>
    subst isPicked
    have may : MayPick P i op delivery.orderId Q start := after
    refine wp_do (wp_applySystemStatusChange lawful free holds ?_ fun _ s' env' =>
      may.stops s' (since.trans lawful env'))
    intro row updatedAt stamp s' seen' env' beside found allowed
    have commits :=
      may.commits row updatedAt stamp s' (since.trans lawful env') beside found ⟨_, allowed⟩
    exact commits.released seen'
  next =>
    split
    next isRejected =>
      subst isRejected
      have may : MayReplace P i op delivery.orderId Q start := after
      refine wp_do (wp_orElse lawful free (quiet_redis _) holds self fun _ s₁ env₁ => ?_)
      exact wp_tryReassignAfterRejection lawful free (since.trans lawful (env₁.released [])) may
    next => exact after.stops s since

/-- What a request of the agent leaves to `afterStatus`. -/
structure Following (P : Protocol (K := RowKey) RowOf Shared Err Operation Reply Γ) (i : ℕ)
    (op : Operation) (env : Config) (core : Core) (delivery : Delivery) (target : DeliveryStatus)
    (Q : Sit RowOf Shared Operation Γ → Prop) (s : Sit RowOf Shared Operation Γ) : Prop where
  follows : ∀ s' seen, P.Env i op ⟨none, []⟩ s s' →
    P.wp i op (afterStatus env core delivery target) (fun _ _ s'' => Q s'') ⟨none, seen⟩ s'
  stops : ∀ s', P.Env i op ⟨none, []⟩ s s' → Q s'

/-- A request of the agent, up to `afterStatus`. -/
theorem wp_agentRequest (lawful : P.Lawful) (free : P.Free i op Later) (persists : Persists P i op)
    {core : Core} {deliveryId actorUserId : ℕ} {target : DeliveryStatus} (holds : P.inv s)
    (stops : ∀ s', P.Env i op ⟨none, []⟩ s s' → Q s')
    (settles : ∀ delivery order branch row s₀ s₁ db', delivery.id = deliveryId →
      P.Alongside i op s → deliveryOf s.db delivery.id = some delivery → delivery.status = .picked →
      P.Env i op ⟨none, []⟩ s s₀ → P.Env i op ⟨none, []⟩ s₀ s₁ → P.Alongside i op s₁ → Settling
      P env core i op [⟨TableName.deliveries, delivery⟩] delivery order branch row s₀ s₁ db' →
      P.After i op s₁ ⟨none, []⟩ db' s₁.side Q)
    (changes : ∀ delivery row stamp s₁, delivery.id = deliveryId → P.Alongside i op s →
      deliveryOf s.db delivery.id = some delivery → delivery.agentId = actorUserId →
      delivery.status.transitions.contains target = true → target ≠ .delivered → Updating P i op
      [⟨TableName.deliveries, delivery⟩] delivery.id (Delivery.withStatus target stamp) row s s₁ →
      P.After i op s₁ ⟨none, []⟩ (s₁.db.apply (.update TableName.deliveries (RowKey.id delivery.id)
      (Delivery.withStatus target stamp))) s₁.side (Following P i op env core delivery target Q)) :
    P.wp i op (DeliveryService.updateStatus env core deliveryId actorUserId target)
      (fun _ _ s' => Q s') .start s := by
  refine wp_do (wp_selectByKey lawful (fun isTrx => nomatch isTrx) holds ?_ ?_
    fun _ s' env => stops s' env)
  swap
  · exact fun _ s' env => stops s' env
  intro beside delivery isDelivery s₁ env₁
  have read : deliveryOf s.db delivery.id = some delivery :=
    Table.get_of_mem (Table.get_mem isDelivery)
  have sameId : delivery.id = deliveryId := by
    have sameKey : RowKey.id delivery.id = RowKey.id deliveryId := Table.get_key isDelivery
    simpa using sameKey
  have until₁ := env₁.released []
  have there : ∀ s', P.Env i op ⟨none, []⟩ s s' → (deliveryOf s'.db delivery.id).isSome = true :=
    fun s' env' =>
    persists s s' _ _ env'.drift.1 (Option.isSome_iff_exists.2 ⟨delivery, read⟩)
  -- The delivery is another agent's, or the target is not among its transitions.
  refine wp_do (wp_throwIf (fun isAgent =>
    wp_do (wp_throwIf (fun isLegal => ?_) fun _ => stops s₁ until₁)) fun _ => stops s₁ until₁)
  rw [Bool.not_eq_false] at isLegal
  split
  next isDelivered =>
    subst isDelivered
    -- Only a picked delivery may be delivered.
    have isPicked : delivery.status = .picked := by
      revert isLegal
      cases delivery.status <;> decide
    refine wp_settleDelivery lawful free persists env₁.inv (there s₁ until₁) ?_ fun _ _ s' env' =>
      stops s' (until₁.trans lawful env')
    intro result order branch row s₂ seen' db' env₂ beside₂ settling
    exact (settles delivery order branch row s₁ s₂ db' sameId beside read isPicked until₁ env₂
      beside₂ settling).released seen'
  next notDelivered =>
    subst sameId
    refine wp_do (wp_updateDeliveryStatus lawful free env₁.inv env₁.self
      (fun s' env' => there s' (until₁.trans lawful env'))
      (fun row stamp s₂ seen' env₂ beside₂ found allowed => ?_) fun _ s' env' =>
        stops s' (until₁.trans lawful env'))
    have after :=
      changes delivery row stamp s₂ rfl beside read (of_not_not isAgent) isLegal notDelivered
      ⟨until₁.trans lawful env₂, beside₂, found, allowed⟩
    -- The order is read once more, and then follows what the new status asks for.
    refine (after.released seen').imp fun s₃ inv₃ self₃ follows => wp_do ?_
    have shows : (OrderService.getOrderEntityById delivery.orderId).Quiet reading :=
      quiet_findOrderById .pool _ fun _ => trivial
    refine wp_reading lawful free shows inv₃ self₃ fun result rows s₄ env₄ => ?_
    have since₄ := env₄.released []
    cases result with
    | error err => exact follows.stops s₄ since₄
    | ok order =>
      refine wp_do (wp_mono ?_ (follows.follows s₄ _ since₄))
      intro result l s₅ ends
      cases result with
      | error err => exact ends
      | ok _ => exact ends

/-- A request of the agent. -/
theorem wp_deliveryUpdateStatus (lawful : P.Lawful) (free : P.Free i op Later)
    (persists : Persists P i op) {core : Core} {deliveryId actorUserId : ℕ}
    {target : DeliveryStatus} (holds : P.inv s) (stops : ∀ s', P.Env i op ⟨none, []⟩ s s' → Q s')
    (settles : ∀ delivery order branch row s₀ s₁ db', delivery.id = deliveryId →
      P.Alongside i op s → deliveryOf s.db delivery.id = some delivery → delivery.status = .picked →
      P.Env i op ⟨none, []⟩ s s₀ → P.Env i op ⟨none, []⟩ s₀ s₁ → P.Alongside i op s₁ → Settling
      P env core i op [⟨TableName.deliveries, delivery⟩] delivery order branch row s₀ s₁ db' →
      P.After i op s₁ ⟨none, []⟩ db' s₁.side Q)
    (changes : ∀ delivery row stamp s₁, delivery.id = deliveryId → P.Alongside i op s →
      deliveryOf s.db delivery.id = some delivery → delivery.agentId = actorUserId →
      delivery.status.transitions.contains target = true → target ≠ .delivered → Updating P i op
      [⟨TableName.deliveries, delivery⟩] delivery.id (Delivery.withStatus target stamp) row s s₁ →
      P.After i op s₁ ⟨none, []⟩ (s₁.db.apply (.update TableName.deliveries (RowKey.id delivery.id)
      (Delivery.withStatus target stamp))) s₁.side (AfterStatus P i op delivery.orderId target Q)) :
    P.wp i op (DeliveryService.updateStatus env core deliveryId actorUserId target)
      (fun _ _ s' => Q s') .start s := by
  refine wp_agentRequest lawful free persists holds stops settles ?_
  intro delivery row stamp s₁ isId beside read isAgent isLegal notDelivered updating
  refine (changes delivery row stamp s₁ isId beside read isAgent isLegal notDelivered updating).mono
    fun s₂ after => ?_
  exact ⟨fun s₃ seen env₃ => wp_afterStatus lawful free env₃.inv env₃.self env₃ after, after.stops⟩

/-! ## Presence -/

abbrev presenceOnly : Bounds RowOf RowKey Shared :=
  within (fun w => w.table = .agentPresence) fun _ => True

theorem harmless_online (agentId : ℕ) (point : Point) :
    (PresenceService.online agentId point).Harmless presenceOnly :=
  commands_later.harmless_online agentId point (fun _ _ => rfl) (fun _ => rfl) fun x =>
    later_presence x _

theorem harmless_ping (agentId : ℕ) (point : Point) :
    (PresenceService.ping agentId point).Harmless presenceOnly :=
  commands_later.harmless_ping agentId point (fun _ => rfl) fun x => later_presence x _

theorem harmless_sleep (duration : ℕ) : (SwiftBite.sleep duration).Harmless presenceOnly :=
  (Prog.Quiet.sure fun x => later_sleep x duration).harmless

/-- The rest of `offline`, once the agent's delivery is known and PostgreSQL has the agent
offline. -/
def leaveWork (env : Config) (core : Core) (agentId : ℕ)
    (active : Option Delivery) : Service Unit := do
  setAgentOffline agentId
  match active with
  | none => pure ()
  | some active =>
    match ← OrderService.getOrderEntityById active.orderId with
    | none => pure ()
    | some order => orElse (do let _ ← reassign env core order.publicId) ()

/-- An agent who goes offline gives the delivery under way up, unless it is picked. -/
theorem wp_offline (lawful : P.Lawful) (free : P.Free i op Later)
    (tolerates : P.Tolerates i op (within (fun w => w.table = .agentPresence) fun _ => True))
    {core : Core} {agentId : ℕ} (holds : P.inv s) (self : s.live i = some op)
    (stops : ∀ s', P.inv s' → s'.live i = some op → Q s')
    (reassigns : ∀ s' seen orderPublicId, P.inv s' → s'.live i = some op →
      P.wp i op (reassign env core orderPublicId) (fun _ _ s'' => Q s'') ⟨none, seen⟩ s') :
    P.wp i op (PresenceService.offline env core agentId) (fun _ _ s' => Q s') .start s := by
  have showsDelivery : (findActiveDeliveryByAgentId .pool agentId).Quiet reading :=
    quiet_findActiveDeliveryByAgentId .pool agentId fun _ => trivial
  refine wp_do (wp_reading lawful free showsDelivery holds self fun result rows s₁ env₁ => ?_)
  cases result with
  | error err => exact stops s₁ env₁.inv env₁.self
  | ok active =>
    refine wp_do (wp_throwIf (fun _ => wp_do (wp_do ?_)) fun _ => stops s₁ env₁.inv env₁.self)
    refine wp_nowIso lawful free env₁.inv fun now s₂ env₂ => wp_do ?_
    -- The presence table concerns no delivery.
    have onward : ∀ seen s₃, P.inv s₃ → s₃.live i = some op →
        P.wp i op (leaveWork env core agentId active) (fun _ _ s' => Q s') ⟨none, seen⟩ s₃ := by
      intro seen s₃ inv₃ self₃
      refine wp_do (wp_idle lawful free (commands_later.quiet_setAgentOffline agentId) inv₃ self₃
        fun result s₄ env₄ => ?_)
      cases result with
      | error err => exact stops s₄ env₄.inv env₄.self
      | ok _ =>
        cases active with
        | none => exact stops s₄ env₄.inv env₄.self
        | some active =>
          have showsOrder : (OrderService.getOrderEntityById active.orderId).Quiet reading :=
            quiet_findOrderById .pool _ fun _ => trivial
          refine wp_do (wp_reading lawful free showsOrder env₄.inv env₄.self
            fun result rows s₅ env₅ => ?_)
          cases result with
          | error err => exact stops s₅ env₅.inv env₅.self
          | ok order =>
            cases order with
            | none => exact stops s₅ env₅.inv env₅.self
            | some order =>
              refine wp_tryCatch
                (wp_do (wp_mono ?_ (reassigns s₅ _ order.publicId env₅.inv env₅.self)))
              intro result l s₆ ends
              cases result with
              | error err => exact ends
              | ok _ => exact ends
    refine wp_updateByKey_conn lawful env₂.inv (fun _ row _ _ => ?_)
      (fun _ s₃ env₃ => onward _ s₃ env₃.inv env₃.self)
      fun _ s₃ env₃ => stops s₃ env₃.inv env₃.self
    obtain ⟨inv', guar, _⟩ := tolerates s₂
      [.update TableName.agentPresence (RowKey.id agentId) (AgentPresence.goOffline now)]
      (by simp [Write.table]) env₂.inv
    exact ⟨s₂.ghost, inv', guar, fun s₃ env₃ => onward _ s₃ env₃.inv env₃.self⟩

end

end SwiftBite.Verified
