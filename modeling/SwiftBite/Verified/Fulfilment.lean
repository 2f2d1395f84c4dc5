import SwiftBite.Verified.Funding

/-! # No fulfilment without money

The services that place, pay, move and deliver orders, under any interleaving, with any
faults and crashes: what an order's status says about its payment is true.
-/

set_option autoImplicit false

namespace SwiftBite.Verified.Fulfilment

open Store Protocol Verified Funding OneSettlement DeliveryService

/-- The operations of a region, without refunds and payouts. -/
def Fulfils : Operation → Prop
  | .refund .. | .recordPayout .. => False
  | _ => True

def protocol : Protocol (K := RowKey) RowOf Shared Err Operation Reply Unit where
  inv s := Funded s.db
  guar _ _ w w' := Moves w.db w'.db
  rely _ _ w w' := Moves w.db w'.db
  post _ _ _ _ := True
  allow _ _ _ := True
  faulty _ := True
  admits := Fulfils
  apart _ _ _ := True

theorem lawful : protocol.Lawful where
  guar_refl _ _ w := .refl w.db
  rely_refl _ _ w := .refl w.db
  rely_trans first second := first.trans second
  rely_of_guar _ _ _ _ guar := guar
  post_stable _ _ _ _ := trivial
  inv_spawn holds _ _ := holds
  inv_crash _ _ holds := ⟨holds, trivial⟩

theorem free (i : ℕ) (op : Operation) : protocol.Free i op Later :=
  fun s _ _ holds => ⟨holds, .refl s.db, .refl s.db⟩

theorem persists (i : ℕ) (op : Operation) : Persists protocol i op :=
  fun _ _ t k rely there => rely.grows.rows t k there

/-- Writes to one table that the invariant does not read. -/
theorem tolerates (i : ℕ) (op : Operation) {table : TableName}
    (aside : table ∉ [TableName.orders, .deliveries, .paymentSessions, .transactions]) :
    protocol.Tolerates i op (within (fun w => w.table = table) fun _ => True) := by
  intro s ws inTable holds
  have kept : Funded (s.db.applyAll ws) ∧ Moves s.db (s.db.applyAll ws) :=
    kept_of_aside holds (fun t member => ?_) (Db.grows_applyAll s.db ws)
  · exact ⟨kept.1, kept.2, kept.2⟩
  · refine Db.applyAll_other (fun w among isTable => aside ?_) s.db
    rw [← inTable w among, isTable]
    exact member

section Calls

variable {i : ℕ} {op : Operation} {s s' : Sit RowOf Shared Operation Unit}

abbrev ends (s : Sit RowOf Shared Operation Unit) : Prop := Funded s.db

/-- A commit that keeps the invariant and moves nothing back. -/
theorem after_kept {db' : Database} {Φ : Sit RowOf Shared Operation Unit → Prop}
    (kept : Funded db' ∧ Moves s.db db')
    (next : ∀ s', Moves db' s'.db → Funded s'.db → s'.live i = some op → Φ s') :
    protocol.After i op s ⟨none, []⟩ db' s.side Φ :=
  ⟨(), kept.1, kept.2, fun s' env => next s' env.drift.1 env.inv env.self⟩

theorem backed_of_order {order : Order} (funded : Funded s.db)
    (read : orderOf s.db order.id = some order)
    (isPaid : unpaid order.status = false) : BackedAt s.db order.id :=
  ⟨order, read, (funded.orders order (Table.get_mem read)).backed isPaid⟩

theorem backed_of_delivery {delivery : Delivery} (funded : Funded s.db)
    (read : deliveryOf s.db delivery.id = some delivery) : BackedAt s.db delivery.orderId :=
  funded.deliveries delivery (Table.get_mem read)

theorem mayAssign {orderId : ℕ} {seen : List (Sigma RowOf)} (backed : BackedAt s.db orderId) :
    MayAssign protocol i op seen orderId ends s where
  there s' env := by
    obtain ⟨order, found, _⟩ := backed.later env.drift.1
    exact Option.isSome_iff_exists.2 ⟨order, found⟩
  commits delivery assignedAt updatedAt row s' env _ ofOrder _ := by
    subst ofOrder
    exact after_kept (kept_of_assigned env.inv (backed.later env.drift.1) assignedAt updatedAt)
      fun _ _ funded _ => funded
  stops s' env := env.inv

theorem wp_placeOrderCall {core : Core} {customerId : ℕ} {data : CreateOrderRequest}
    (holds : Funded s.db) (self : s.live i = some op) :
    protocol.wp i op (OrderService.placeOrder core customerId data)
      (fun _ _ s' => ends s') .start s := by
  refine wp_placeOrder lawful (free i op) holds self (fun _ env => env.inv)
    fun branch order s₁ db' placing => ?_
  obtain ⟨address, branchProducts, publicId, _, _, _, _, placed⟩ := placing.placed
  refine after_kept (kept_of_placed placing.until'.inv placed) fun s₂ _ _ _ =>
    ⟨?_, fun _ env => env.inv⟩
  intro row updatedAt stamp s₃ env _ _ _
  refine after_kept
    (kept_of_status (o := order.id) (t := .cancelled) env.inv ?_ (fun t member => ?_) ?_ ?_ ?_)
    fun _ _ funded _ => funded
  · rw [Db.apply_update_self]
    exact .withStatus updatedAt stamp _
  · exact Db.apply_update_ne s₃.db _ _ (by revert member; cases t <;> decide)
  · exact Db.grows_apply s₃.db _
  · exact fun impossible => nomatch impossible
  · exact fun impossible => nomatch impossible

theorem paid_of_allows {source target : OrderStatus} {actor : RequestActor} {listed : OrderActor}
    (isActor : orderActor actor = some listed) (allowed : source.allows target listed = true)
    (isPaid : unpaid target = false) : unpaid source = false := by
  revert allowed isPaid
  cases source <;> cases target <;> cases listed <;> decide

theorem not_delivered_of_allows {source target : OrderStatus} {actor : RequestActor}
    {listed : OrderActor} (isActor : orderActor actor = some listed)
    (allowed : source.allows target listed = true) : target ≠ .delivered := by
  have notAgent : listed ≠ .agent := by
    rintro rfl
    unfold orderActor at isActor
    split at isActor <;> cases isActor
  rintro rfl
  revert allowed notAgent
  cases source <;> cases listed <;> decide

theorem tolerates_cancels : protocol.Tolerates i op (within Cancels fun _ => True) := by
  intro s ws cancels holds
  have kept := kept_of_deliveries holds (same_of_cancels orderId_cancel cancels)
    (fun t other => others_of_cancels cancels other)
    (Db.grows_applyAll s.db ws)
  exact ⟨kept.1, kept.2, kept.2⟩

theorem wp_updateOrderStatusCall {core : Core} {publicId : ℕ} {target : OrderStatus}
    {actor : RequestActor} (holds : Funded s.db) :
    protocol.wp i op (OrderService.updateStatus core publicId target actor)
      (fun _ _ s' => ends s') .start s := by
  refine wp_updateOrderStatus lawful (free i op) holds
    (fun result order listed row s₁ seen' db' _ read env₁ _ isActor allowed writing => ?_)
    fun _ _ _ env => env.inv
  have written := writing.written
  obtain ⟨updatedAt, stamp, orders⟩ := written.orders
  have kept : Funded db' ∧ Moves s₁.db db' := by
    refine kept_of_status (o := order.id) (t := target) env₁.inv ?_
      (fun t member => ?_) written.grows (fun isPaid => ?_)
      (not_delivered_of_allows isActor allowed)
    · rw [orders]
      exact .withStatus updatedAt stamp _
    · exact written.others
        t (by revert member; cases t <;> decide) (by revert member; cases t <;> decide)
    · exact (backed_of_order holds read (paid_of_allows isActor allowed isPaid)).later env₁.drift.1
  refine (after_kept kept fun s₂ _ funded self =>
    ?_ : protocol.After i op s₁ ⟨none, []⟩ db' s₁.side _).released seen'
  refine wp_harmless lawful (free i op) tolerates_cancels
    (harmless_releaseDelivery order target fun k => ⟨k, rfl⟩) ?_ funded self ?_
  · exact fun w none => absurd none List.not_mem_nil
  · intro result l s₃ inv₃ _ _
    cases result <;> exact inv₃

theorem wp_initCall {core : Core} {orderPublicId customerId : ℕ} (holds : Funded s.db) :
    protocol.wp i op (PaymentService.init core orderPublicId customerId)
      (fun _ _ s' => ends s') .start s := by
  refine wp_init lawful (free i op) holds (fun _ env => env.inv) fun order session s₁ opening => ?_
  refine after_kept
    (kept_of_opened opening.until'.inv ?_ opening.ofOrder opening.amount opening.currency)
    fun _ _ funded _ => funded
  exact opening.until'.drift.1.orders _ _ opening.readOrder

theorem processes (payload : WebhookPayload) : Processes protocol i op payload ends s where
  captures order session row s₀ s₁ s₂ db' _ _ paying captured := by
    obtain ⟨read, found, amount, currency⟩ :=
      paying.until₁.inv.sessions session (Table.get_mem paying.readSession)
    rw [paying.ofOrder] at found
    obtain ⟨row', found', sameTerms⟩ := paying.until₂.drift.1.orders _ _ found
    simp only [orderTerms, Prod.mk.injEq] at sameTerms
    exact after_kept
      (kept_of_captured paying.until₂.inv captured found' (amount.trans sameTerms.2.1.symm)
      (currency.trans sameTerms.2.2.symm)) fun _ _ funded _ => funded
  refuses order session row s₀ s₁ s₂ db' _ paying refused := by
    obtain ⟨row', found', _⟩ := paying.until₂.drift.1.orders _ _
      (paying.until₁.drift.1.orders _ _ paying.readOrder).choose_spec.1
    exact after_kept
      (kept_of_refused paying.until₂.inv refused (Option.isSome_iff_exists.2 ⟨row', found'⟩))
      fun _ _ funded _ => funded
  confirms refund s₁ s₂ db' confirming confirmed :=
    after_kept (kept_of_confirmed confirming.until₂.inv confirmed.toConfirmed)
      fun _ _ funded _ => funded
  stops s' env := env.inv

theorem wp_assignCall {env : Config} {core : Core} {orderPublicId : ℕ} {agentId : Option ℕ}
    (holds : Funded s.db) :
    protocol.wp i op (assign env core orderPublicId agentId) (fun _ _ s' => ends s') .start s :=
  wp_assign lawful (free i op) holds (fun _ env => env.inv) fun order _ read isReady =>
    mayAssign (backed_of_order holds read (by rw [isReady]; rfl))

theorem wp_tryAutoAssignCall {env : Config} {core : Core} {orderId : ℕ} (holds : Funded s.db) :
    protocol.wp i op (tryAutoAssign env core orderId) (fun _ _ s' => ends s') .start s :=
  wp_tryAutoAssign lawful (free i op) holds (fun _ env => env.inv) fun order _ read isReady =>
    mayAssign (backed_of_order holds read (by rw [isReady]; rfl))

/-- A delivery's new status. -/
theorem kept_of_deliveryStatus {db : Database} (holds : Funded db) (id : ℕ)
    (status : DeliveryStatus) (stamp : Option ℕ) :
    Funded (db.apply
      (.update TableName.deliveries (RowKey.id id) (Delivery.withStatus status stamp))) ∧
      Moves db (db.apply
        (.update TableName.deliveries (RowKey.id id) (Delivery.withStatus status stamp))) := by
  refine kept_of_deliveries holds ?_ (fun t other => Db.apply_update_ne db _ _ other)
    (Db.grows_apply db _)
  rw [Db.apply_update_self]
  exact .modify (Ledger.orderId_withStatus status stamp) _ _

theorem wp_reassignCall {env : Config} {core : Core} {orderPublicId : ℕ} {seen : List (Sigma RowOf)}
    (holds : Funded s.db) :
    protocol.wp i op (reassign env core orderPublicId) (fun _ _ s' => ends s') ⟨none, seen⟩ s := by
  refine wp_reassign lawful (free i op) (persists i op) holds (fun _ env => env.inv) ?_
  intro order active row stamp s₀ s₁ _ _ until₀ _ read ofOrder _ updating
  have backed := (backed_of_delivery until₀.inv read).later updating.env.drift.1
  refine after_kept (kept_of_deliveryStatus updating.env.inv active.id .reassigned stamp)
    fun s₂ moves _ _ seen => ?_
  rw [← ofOrder]
  exact mayAssign (backed.later
    ((kept_of_deliveryStatus updating.env.inv active.id .reassigned stamp).2.trans moves))

theorem mayPick {orderId : ℕ} (backed : BackedAt s.db orderId) :
    MayPick protocol i op orderId ends s where
  stops s' env := env.inv
  commits row updatedAt stamp s' env _ _ _ := by
    refine after_kept (kept_of_status (o := orderId) (t := .picked) env.inv ?_
      (fun t member => ?_) ?_ (fun _ => ?_) ?_)
      fun _ _ funded _ => funded
    · rw [Db.apply_update_self]
      exact .withStatus updatedAt stamp _
    · exact Db.apply_update_ne s'.db _ _ (by revert member; cases t <;> decide)
    · exact Db.grows_apply s'.db _
    · exact backed.later env.drift.1
    · exact fun impossible => nomatch impossible

theorem wp_updateStatusCall {env : Config} {core : Core} {deliveryId actorUserId : ℕ}
    {target : DeliveryStatus} (holds : Funded s.db) :
    protocol.wp i op (updateStatus env core deliveryId actorUserId target)
      (fun _ _ s' => ends s') .start s := by
  refine wp_deliveryUpdateStatus lawful (free i op) (persists i op) holds
    (fun _ env => env.inv) ?_ ?_
  · intro delivery order branch row s₀ s₁ db' _ _ read _ until₀ until₁ _ settling
    have sameKey : RowKey.id order.id = RowKey.id delivery.orderId := Table.get_key settling.read
    have backed := ((backed_of_delivery holds read).later until₀.drift.1).later until₁.drift.1
    have readOrder := settling.read
    rw [← RowKey.id.inj sameKey] at backed readOrder
    obtain ⟨orderRow, found, sameTerms⟩ := until₁.drift.1.orders _ _ readOrder
    refine after_kept (kept_of_settled until₁.inv settling.settled found sameTerms backed ?_)
      fun _ _ funded _ => funded
    rintro before ⟨m, rfl, first, second⟩
    exact ⟨first.inv, second.drift.1, first.drift.1.orders _ _ readOrder⟩
  · intro delivery row stamp s₁ _ _ read _ _ _ updating
    have backed := (backed_of_delivery holds read).later updating.env.drift.1
    have kept := kept_of_deliveryStatus updating.env.inv delivery.id target stamp
    refine after_kept kept fun s₂ moves funded _ => ?_
    have backed₂ := backed.later (kept.2.trans moves)
    cases target with
    | picked => exact mayPick backed₂
    | rejected =>
      exact ⟨fun s₃ seen env₃ _ => mayAssign (backed₂.later env₃.drift.1), fun s₃ env₃ => env₃.inv⟩
    | _ => exact fun s' env => env.inv

theorem wp_presence {β : Type} {prog : Service β} (harmless : prog.Harmless presenceOnly)
    (holds : Funded s.db) (self : s.live i = some op) :
    protocol.wp i op prog (fun _ _ s' => ends s') .start s :=
  wp_harmless lawful (free i op) (tolerates i op (by decide)) harmless
    (fun w none => absurd none List.not_mem_nil) holds self
    fun _ _ _ inv _ _ => inv

end Calls

theorem verified (env : Config) : protocol.Verified (code env) := by
  intro i op s s' holds _ admitted _ started
  have holds := started.inv
  refine wp_mono (fun _ _ s'' (funded : ends s'') => ⟨funded, trivial⟩) ?_
  cases op with
  | placeOrder core customerId data => exact wp_returning (wp_placeOrderCall holds started.self)
  | updateOrderStatus core publicId target actor => exact wp_map (wp_updateOrderStatusCall holds)
  | initPayment core orderPublicId customerId => exact wp_map (wp_initCall holds)
  | webhook payload signature signatureValid =>
    exact wp_returning
      (wp_process lawful (free i _) (persists i _) (tolerates i _ (by decide)) holds started.self
      (processes payload))
  | assign core orderPublicId agentId => exact wp_returning (wp_assignCall holds)
  | tryAutoAssign core orderId => exact wp_returning (wp_tryAutoAssignCall holds)
  | reassign core orderPublicId => exact wp_returning (wp_reassignCall holds)
  | updateDeliveryStatus core deliveryId actorUserId target =>
    exact wp_map (wp_updateStatusCall holds)
  | online agentId point =>
    exact wp_returning (wp_presence (harmless_online agentId point) holds started.self)
  | offline core agentId =>
    exact wp_returning (wp_offline lawful (free i _) (tolerates i _ (by decide)) holds started.self
      (fun _ inv _ => inv)
      fun _ _ _ inv _ => wp_reassignCall inv)
  | ping agentId point =>
    exact wp_returning (wp_presence (harmless_ping agentId point) holds started.self)
  | sleep duration => exact wp_returning (wp_presence (harmless_sleep duration) holds started.self)
  | refund | recordPayout => exact admitted.elim

/-! ## Runs -/

/-- Any calls of these operations, with any faults and crashes. -/
def Fulfilling (_ : Region) (e : Event Operation) : Prop := Serves Fulfils e

theorem admissible (p : Region) (e : Event Operation) (serves : Fulfilling p e) :
    protocol.Admissible p e := by
  cases e with
  | spawn op => exact ⟨serves, fun _ _ _ => ⟨trivial, trivial⟩⟩
  | step i choice =>
    exact ⟨fun _ _ _ _ _ _ _ => trivial,
      fun call found => ⟨fun _ => trivial, fun out acts => trivial⟩⟩
  | crash i => exact fun _ _ => trivial

/-- Online orders past their payment are paid in full, and delivered cash orders are collected in
full. -/
structure Paid (db : Database) : Prop where
  online : ∀ order ∈ (db .orders).rows, order.paymentMethod = .online →
    unpaid order.status = false →
    ∃ tx ∈ (db .transactions).rows, isPaymentOf order tx = true
  cash : ∀ order ∈ (db .orders).rows, order.paymentMethod = .cod → order.status = .delivered →
    ∃ tx, OnlyCollection db order tx ∧ tx.status = .succeeded

theorem paid_of_funded {db : Database} (funded : Funded db) : Paid db :=
  ⟨fun order member isOnline isPaid => (funded.orders order member).backed isPaid isOnline,
    fun order member isCash isDelivered =>
      (funded.orders order member).collected isDelivered isCash⟩

theorem funded_of_reach {env : Config} {db : Database} {x : Shared} {p : Region}
    (funded : Funded db)
    (reached : Pool.Reach (code env) Fulfilling (Pool.quiet db x) p) : Funded p.db := by
  obtain ⟨ghost, sound⟩ :=
    sound_of_reach lawful (verified env) admissible (sound_quiet () funded) reached
  exact sound.inv

/-- Every state of all runs from a state. -/
def AlwaysPaid (env : Config) (allowed : Region → Event Operation → Prop) (start : Region) : Prop :=
  ∀ p, Pool.Reach (code env) allowed start p → Paid p.db

theorem money_comes_first (env : Config) (x : Shared) :
    AlwaysPaid env Fulfilling (Pool.quiet Database.empty x) :=
  fun _ reached => paid_of_funded (funded_of_reach funded_empty reached)

end SwiftBite.Verified.Fulfilment
