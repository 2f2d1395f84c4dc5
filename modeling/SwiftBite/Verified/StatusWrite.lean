import SwiftBite.Verified.Settlement

/-! # The transaction of a status request

What `OrderService.updateStatus` has checked when it commits a status, for any protocol.
-/

set_option autoImplicit false

namespace SwiftBite.Verified

open Store Protocol Statement OrderService

/-- Whom the request acts for. -/
def orderActor (actor : RequestActor) : Option OrderActor :=
  match actor.role with
  | .systemAdmin => some .admin
  | .customer => some .customer
  | .restaurantUser => some .restaurant
  | .deliveryAgent => none

theorem known_of_orderActor {actor : RequestActor} {listed : OrderActor}
    (isActor : orderActor actor = some listed) :
    listed = .admin ∨ listed = .customer ∨ listed = .restaurant := by
  unfold orderActor at isActor
  split at isActor <;> simp_all

/-- Only the system assigns, and only agents pick up and deliver: no request does. -/
theorem target_of_request {actor : RequestActor} {listed : OrderActor} {source target : OrderStatus}
    (isActor : orderActor actor = some listed) (isAllowed : source.allows target listed = true) :
    target ≠ .assigned ∧ target ≠ .picked ∧ target ≠ .delivered := by
  rcases known_of_orderActor isActor with rfl | rfl | rfl <;> revert isAllowed <;> cases source <;>
    cases target <;> decide

/-- A request leaves an order that no delivery needs, or cancels an assigned one. -/
theorem source_of_request {actor : RequestActor} {listed : OrderActor} {source target : OrderStatus}
    (isActor : orderActor actor = some listed) (isAllowed : source.allows target listed = true) :
    (source = .assigned ∧ target = .cancelled) ∨
    (source ≠ .assigned ∧ source ≠ .picked ∧ source ≠ .delivered) := by
  rcases known_of_orderActor isActor with rfl | rfl | rfl <;> revert isAllowed <;> cases source <;>
    cases target <;> decide

theorem resolveActor_eq {core : Core} {order : Order} {actor : RequestActor} {target : OrderStatus}
    {resolved : OrderActor}
    (passed : OrderService.resolveActor core order actor target = .ok resolved) :
    orderActor actor = some resolved := by
  unfold OrderService.resolveActor at passed
  unfold orderActor
  cases isRole : actor.role with
  | systemAdmin =>
    rw [isRole] at passed
    cases passed
    rfl
  | customer =>
    rw [isRole] at passed
    dsimp only at passed
    split at passed
    next => cases passed
    next => cases passed; rfl
  | restaurantUser =>
    rw [isRole] at passed
    dsimp only at passed
    split at passed
    next => cases passed
    next =>
      split at passed
      next => cases passed; rfl
      next action _ =>
        cases permissions : core.getPermissions (actor.restaurantRole.getD "undefined") with
        | error err => rw [permissions] at passed; cases passed
        | ok granted =>
          rw [permissions] at passed
          simp only [bind, Except.bind] at passed
          split at passed
          next => cases passed; rfl
          next => cases passed
  | deliveryAgent =>
    rw [isRole] at passed
    cases passed

/-- What a status request commits. -/
structure StatusWritten (order : Order) (target : OrderStatus) (db db' : Database) : Prop where
  orders : ∃ updatedAt stamp, db' .orders =
    (db .orders).modify (RowKey.id order.id) (Order.withStatus target updatedAt stamp)
  tells : story (db' .eventsOutbox) =
    story (db .eventsOutbox) ++ [⟨order.id, "order.status_changed", target⟩]
  others : ∀ t, t ≠ .orders → t ≠ .eventsOutbox → db' t = db t
  grows : db.Grows db'

theorem quiet_recordStatus {moves : Shared → Shared → Prop} [Ticking moves]
    {writes : SqlWrite → Prop} (order : Order) (target : OrderStatus)
    (updates : ∀ k f, writes (.update TableName.orders k f))
    (tells : ∀ row : OutboxEvent, writes (.insert TableName.eventsOutbox row)) :
    (recordStatus order target).Quiet ⟨writes, fun _ => True, moves⟩ := by
  refine Prog.Quiet.bind (quiet_nowIso.bind fun _ => (quiet_orderStampTime _).bind fun _ => ?_)
    fun updated => ?_
  · exact Prog.Quiet.exec (.updateByKey (updates _ _) fun _ => trivial)
  · cases updated with
    | none => exact .throw
    | some updated =>
      exact quiet_uuidv4.bind fun _ =>
        (quiet_insertOutboxEvent _ tells fun _ => trivial).bind fun _ => .pure

section

variable {Γ : Type} {P : Protocol (K := RowKey) RowOf Shared Err Operation Reply Γ} {i : ℕ}
  {op : Operation}
  {s : Sit RowOf Shared Operation Γ}

/-- What is known when the status that was checked on `order` is committed over `row`. -/
structure WritingStatus (P : Protocol (K := RowKey) RowOf Shared Err Operation Reply Γ)
    (seen : List (Sigma RowOf)) (order : Order) (target : OrderStatus) (row : Order)
    (db db' : Database) : Prop where
  written : StatusWritten order target db db'
  found : orderOf db order.id = some row
  /-- The run may make the update of the order. -/
  allowed : ∃ (began : ℕ) (before : Database) (f : Order → Order),
    orderOf before order.id = some row ∧
    P.allow ⟨some ⟨began, []⟩, seen⟩ before [.update TableName.orders (RowKey.id order.id) f]

/-- The body of the transaction, taken as atomic. -/
theorem atomic_recordStatus {allow : Local RowOf RowKey → Database → List SqlWrite → Prop}
    {V : Database → Prop} {db : Database} {order : Order} {target : OrderStatus} {began : ℕ}
    {seen : List (Sigma RowOf)} {Q : Except Err Order → Local RowOf RowKey → Prop}
    (next : ∀ result total seen' row before f, StatusWritten order target db (db.applyAll total) →
      orderOf db order.id = some row → orderOf before order.id = some row →
      allow ⟨some ⟨began, []⟩, seen⟩ before [.update TableName.orders (RowKey.id order.id) f] →
      Q (.ok result) ⟨some ⟨began, total⟩, seen'⟩) (fails : ∀ err l, Q (.error err) l) :
    (recordStatus order target).Atomic allow V db Q ⟨some ⟨began, []⟩, seen⟩ := by
  refine .bind (.bind (.sure (fun x => ?_) (fails _ _)))
  refine .bind (atomic_orderStampTime target (fun stamp => ?_) fails)
  refine .updateByKey (fun before row since found' found allowed => ?_)
    (fun _ _ _ => fails _ _) (fails _ _)
  -- The event goes to a table of its own.
  refine .bind (.sure (fun x' => ?_) (fails _ _))
  refine .bind (atomic_insertOutboxEvent (fun outbox seen' outboxTable tells => .pure ?_) fails)
  refine next _ _ _ row before _ ⟨⟨toMillis x.now, stamp, ?_⟩, ?_, fun t notOrders notOutbox => ?_,
    Db.grows_applyAll _ _⟩ found found' allowed
  · rw [Db.applyAll_append_table outboxTable (by decide), Db.applyAll_concat_update,
      Db.applyAll_nil]
  · rw [tells, Db.applyAll_concat_update_ne _ _ _ _ (by decide), Db.applyAll_nil]
    rfl
  · rw [Db.applyAll_append_table outboxTable (Ne.symm notOutbox),
      Db.applyAll_concat_update_ne _ _ _ _ (Ne.symm notOrders),
      Db.applyAll_nil]

theorem wp_writeStatus (lawful : P.Lawful) (free : P.Free i op Later) {order : Order}
    {target : OrderStatus} {seen : List (Sigma RowOf)}
    {Q : Except Err Order → Local RowOf RowKey → Sit RowOf Shared Operation Γ → Prop}
    (commits : ∀ result row s' seen' db', P.Env i op ⟨none, []⟩ s s' →
      P.Alongside i op s' → WritingStatus P seen order target row s'.db db' →
      P.After i op s' ⟨none, seen'⟩ db' s'.side (Q (.ok result) ⟨none, seen'⟩))
    (fails : ∀ err seen' s', P.Env i op ⟨none, []⟩ s s' → Q (.error err) ⟨none, seen'⟩ s') :
    P.wp i op (writeStatus order target) Q ⟨none, seen⟩ s := by
  refine wp_transaction_atomic
    (b := anything) lawful free (quiet_recordStatus _ _ (fun _ _ => trivial) fun _ => trivial)
    (fun s₁ began env₁ beside => ?_) fails
  refine atomic_recordStatus
    (fun result total seen' row before f written found found' allowed => ?_)
    fun _ _ _ impossible => nomatch impossible
  rintro value isValue
  exact commits value row s₁ seen' _ env₁ beside ⟨written, found, began, before, f, found', allowed⟩

/-- A status request, up to the release of the delivery. -/
theorem wp_updateOrderStatus (lawful : P.Lawful) (free : P.Free i op Later) {core : Core}
    {publicId : ℕ} {target : OrderStatus} {actor : RequestActor}
    {Q : Except Err Order → Local RowOf RowKey → Sit RowOf Shared Operation Γ → Prop}
    (holds : P.inv s)
    (commits : ∀ result order listed row s' seen' db', order.publicId = publicId →
      orderOf s.db order.id = some order → P.Env i op ⟨none, []⟩ s s' → P.Alongside i op s' →
      orderActor actor = some listed → order.status.allows target listed = true →
      WritingStatus P [⟨TableName.orders, order⟩] order target row s'.db db' →
      P.After i op s' ⟨none, seen'⟩ db' s'.side fun s'' => P.wp i op (releaseDelivery order target)
      (P.bindPost i op (fun _ => pure result) Q) ⟨none, seen'⟩ s'')
    (fails : ∀ err seen' s', P.Env i op ⟨none, []⟩ s s' → Q (.error err) ⟨none, seen'⟩ s') :
    P.wp i op (OrderService.updateStatus core publicId target actor) Q .start s := by
  refine wp_do (wp_selectFirst lawful (fun isTrx => nomatch isTrx) holds ?_ ?_ fun _ s' env =>
    fails _ _ s' env)
  swap
  · exact fun _ s' env => fails _ _ s' env
  intro _ order member s₁ env₁
  have read : orderOf s.db order.id = some order := Table.get_of_mem (List.mem_filter.1 member).1
  have isPublic : order.publicId = publicId := of_decide_eq_true (List.mem_filter.1 member).2
  refine wp_do (wp_ofExcept ?_)
  -- Each of the checks stops the request before anything is written.
  cases resolved : OrderService.resolveActor core order actor target with
  | error err => exact fails err _ s₁ (env₁.released [])
  | ok listed =>
    refine wp_do (wp_ofExcept ?_)
    cases checked : assertTransition order.status target listed with
    | error err => exact fails err _ s₁ (env₁.released [])
    | ok _ =>
      refine wp_do (wp_idle lawful free (quiet_assertWindow order target listed)
        env₁.inv env₁.self ?_)
      intro result s₂ env₂
      have until₂ : P.Env i op ⟨none, []⟩ s s₂ := (env₁.released []).trans lawful (env₂.released [])
      cases result with
      | error err => exact fails err _ s₂ until₂
      | ok _ =>
        refine wp_do (wp_writeStatus lawful free
          (fun result row s₃ seen' db' env₃ beside writing => ?_) ?_)
        · have after := commits result order listed row s₃ seen' db' isPublic read
            (until₂.trans lawful env₃) beside
            (resolveActor_eq resolved) (allows_of_assertTransition checked) writing
          exact after.mono fun s'' rest => wp_do rest
        · exact fun err seen' s' env => fails err seen' s' (until₂.trans lawful env)

/-! ## Single statements -/

theorem wp_updateDeliveryStatus (lawful : P.Lawful) (free : P.Free i op Later) {id : ℕ}
    {status : DeliveryStatus} {seen : List (Sigma RowOf)}
    {Q : Except Err (Option Delivery) → Local RowOf RowKey → Sit RowOf Shared Operation Γ → Prop}
    (holds : P.inv s) (self : s.live i = some op)
    (there : ∀ s', P.Env i op ⟨none, []⟩ s s' → (deliveryOf s'.db id).isSome = true)
    (found : ∀ row stamp s' seen', P.Env i op ⟨none, []⟩ s s' → P.Alongside i op s' →
      deliveryOf s'.db id = some row → P.allow ⟨none, seen⟩ s'.db [.update TableName.deliveries
      (RowKey.id id) (Delivery.withStatus status stamp)] → P.After i op s' ⟨none, seen'⟩
      (s'.db.apply (.update TableName.deliveries (RowKey.id id) (Delivery.withStatus status stamp)))
      s'.side (Q (.ok (some (Delivery.withStatus status stamp row))) ⟨none, seen'⟩))
    (fails : ∀ err s', P.Env i op ⟨none, []⟩ s s' → Q (.error err) ⟨none, seen⟩ s') :
    P.wp i op (updateDeliveryStatus .pool id status) Q ⟨none, seen⟩ s := by
  refine wp_do (wp_deliveryStampTime lawful free status holds self fun stamp s₁ env₁ => ?_)
  refine wp_updateByKey_conn lawful env₁.inv (fun beside row isRow allowed => ?_) (fun absent => ?_)
    fun _ s' env => ?_
  · exact found row stamp s₁ _ (env₁.released []) beside isRow allowed
  · exact absurd absent (Option.isSome_iff_ne_none.1 (there s₁ (env₁.released [])))
  · exact fails _ s' ((env₁.trans lawful env).released [])

theorem wp_applySystemStatusChange (lawful : P.Lawful) (free : P.Free i op Later) {id : ℕ}
    {status : OrderStatus} {seen : List (Sigma RowOf)}
    {Q : Except Err Order → Local RowOf RowKey → Sit RowOf Shared Operation Γ → Prop}
    (holds : P.inv s)
    (found : ∀ row updatedAt stamp s' seen', P.Env i op ⟨none, []⟩ s s' → P.Alongside i op s' →
      orderOf s'.db id = some row →
      P.allow ⟨none, seen⟩ s'.db
        [.update TableName.orders (RowKey.id id) (Order.withStatus status updatedAt stamp)] →
      P.After i op s' ⟨none, seen'⟩
        (s'.db.apply
          (.update TableName.orders (RowKey.id id) (Order.withStatus status updatedAt stamp)))
        s'.side (Q (.ok (Order.withStatus status updatedAt stamp row)) ⟨none, seen'⟩))
    (fails : ∀ err s', P.Env i op ⟨none, []⟩ s s' → Q (.error err) ⟨none, seen⟩ s') :
    P.wp i op (applySystemStatusChange .pool id status) Q ⟨none, seen⟩ s := by
  refine wp_do (wp_do (wp_nowIso lawful free holds fun updatedAt s₁ env₁ => ?_))
  refine wp_do (wp_orderStampTime lawful free status env₁.inv env₁.self fun stamp s₂ env₂ => ?_)
  have until₂ := (env₁.trans lawful env₂).released []
  refine wp_updateByKey_conn lawful env₂.inv (fun beside row isRow allowed => ?_)
    (fun _ s' env => ?_) fun _ s' env => ?_
  · exact found row updatedAt stamp s₂ _ until₂ beside isRow allowed
  · exact fails _ s' (until₂.trans lawful (env.released []))
  · exact fails _ s' (until₂.trans lawful (env.released []))

end

/-! ## Footprints -/

section

variable {writes : SqlWrite → Prop}

theorem harmless_releaseDelivery (order : Order) (target : OrderStatus)
    (cancels : ∀ k, writes (.update TableName.deliveries k Delivery.cancel)) :
    (OrderService.releaseDelivery order target).Harmless (within writes fun _ => True) := by
  unfold OrderService.releaseDelivery
  split
  · refine Prog.Harmless.bind ?_ fun freed => ?_
    · refine (Prog.Harmless.exec .select).bind fun keys => ?_
      exact (Prog.Harmless.exec (.updateWhere (fun row _ => cancels _) fun _ => trivial)).bind
        fun _ => trivial
    · cases freed.filter (· ≠ 0) with
      | none => exact trivial
      | some agentId => exact (quiet_orElse (quiet_redis _)).harmless
  · exact trivial

/-- A status request writes orders, deliveries and events. -/
theorem harmless_updateStatus (core : Core) (publicId : ℕ) (target : OrderStatus)
    (actor : RequestActor) (updates : ∀ k f, writes (.update TableName.orders k f))
    (tells : ∀ row : OutboxEvent, writes (.insert TableName.eventsOutbox row))
    (cancels : ∀ k, writes (.update TableName.deliveries k Delivery.cancel)) :
    (OrderService.updateStatus core publicId target actor).Harmless
      (within writes fun _ => True) := by
  refine (quiet_findOrderByPublicId .pool publicId fun _ => trivial).harmless.bind fun order => ?_
  cases order with
  | none => exact trivial
  | some order =>
    refine Prog.Quiet.ofExcept.harmless.bind fun orderActor =>
      Prog.Quiet.ofExcept.harmless.bind fun _ => ?_
    refine (quiet_assertWindow order target orderActor).harmless.bind fun _ => ?_
    refine (Prog.Harmless.transaction (quiet_recordStatus order target updates tells).harmless).bind
      fun updated => ?_
    exact (harmless_releaseDelivery order target cancels).bind fun _ => trivial

end

end SwiftBite.Verified
