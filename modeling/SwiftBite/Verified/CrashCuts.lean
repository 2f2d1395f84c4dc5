import SwiftBite.Verified.LegalMoves

/-! # Calls cut short

A status update that stops, fails or dies at any point leaves orders and deliveries in
agreement, unless it has to commit them one after the other: the cancellation of an assigned
order that has a delivery under way, and the pick-up.
-/

set_option autoImplicit false

namespace SwiftBite.Verified.CrashCuts

open Store Prog Protocol Board LegalMoves

/-- Each delivery belongs to an order in the status that it needs. -/
def Together (db : Database) : Prop :=
  ∀ d ∈ (db .deliveries).rows, ∀ status, needs (Delivery.status d) = some status →
    ∃ order, orderOf db d.orderId = some order ∧ order.status = status

/-- The two status updates. -/
def IsStatusUpdate : Operation → Prop
  | .updateOrderStatus .. | .updateDeliveryStatus .. => True
  | _ => False

/-- The update changes an order and its delivery in separate commits. -/
def InTwoCommits (db : Database) : Operation → Prop
  | .updateOrderStatus _ publicId target actor => target = .cancelled ∧ actor.role = .systemAdmin ∧
      ∃ order d, order.publicId = publicId ∧ order.status = .assigned ∧ UnderWay db order d
  | .updateDeliveryStatus _ deliveryId actorUserId target => target = .picked ∧
      ∃ d, deliveryOf db deliveryId = some d ∧ d.agentId = actorUserId ∧ d.status = .accepted
  | _ => False

theorem together_iff {db : Database} : Together db ↔ (boardOf db).Agrees := by
  constructor
  · intro together id job status found isNeeded
    obtain ⟨d, isDelivery, rfl⟩ := get_of_jobs found
    obtain ⟨order, isOrder, rfl⟩ := together d (Table.get_mem isDelivery) status isNeeded
    exact orders_of_get isOrder
  · intro agrees d member status isNeeded
    exact get_of_orders
      (agrees d.id (jobOf d) status (jobs_of_get (Table.get_of_mem member)) isNeeded)

/-! ## Every commit -/

/-- The calls that leave orders and deliveries in agreement with each commit, and may fail. -/
abbrev cutting : Protocol (K := RowKey) RowOf Shared Err Operation Reply Unit :=
  lone (fun _ db' => (boardOf db').Agrees) True

section

variable {env : Config} {core : Core} {i : ℕ} {op : Operation} {s : Sit RowOf Shared Operation Unit}
  {db' : Database} {x : Shared}

theorem after_agreed {l : Local RowOf RowKey} {Φ : Sit RowOf Shared Operation Unit → Prop}
    (agrees : (boardOf db').Agrees) (next : ∀ s', Waits db' s'.db → Φ s') :
    cutting.After i op s l db' x Φ :=
  after_alone (.inr agrees) trivial next

/-- Nothing is on the way, and nothing is released. -/
theorem wp_releaseNothing {order : Order} {target : OrderStatus} {seen : List (Sigma RowOf)}
    (nothing : ∀ d ∈ (s.db .deliveries).rows, Delivery.orderId d = order.id →
      d.status.active = false) :
    cutting.wp i op (OrderService.releaseDelivery order target) (fun _ _ _ => True)
      ⟨none, seen⟩ s := by
  unfold OrderService.releaseDelivery
  split
  next =>
    have none : ((s.db .deliveries).rows.filter fun row : Delivery =>
        row.orderId = order.id && row.status.active) = [] := by
      refine List.filter_eq_nil_iff.2 fun d member => ?_
      simp only [Bool.and_eq_true, decide_eq_true_eq, not_and, Bool.not_eq_true]
      exact nothing d member
    refine wp_do (wp_do (wp_exec_conn (fun _ effect member _ => ?_) fun _ _ _ => trivial))
    cases List.mem_singleton.1 member
    refine .same lone_lawful trivial fun s₁ _ =>
      wp_do (wp_exec_conn (fun _ effect member _ => ?_) fun _ _ _ => trivial)
    simp only [none, List.map_nil] at member
    cases List.mem_singleton.1 member
    exact .same lone_lawful trivial fun _ _ => trivial
  next => exact trivial

theorem admin_of_cancel {actor : RequestActor} {listed : OrderActor} {source target : OrderStatus}
    (isActor : orderActor actor = some listed) (isAllowed : source.allows target listed = true)
    (isAssigned : source = .assigned) : actor.role = .systemAdmin := by
  subst isAssigned
  have isAdmin : listed = .admin := by
    rcases known_of_orderActor isActor with rfl | rfl | rfl <;> revert isAllowed <;>
      cases target <;> decide
  subst isAdmin
  unfold orderActor at isActor
  split at isActor <;> first | assumption | cases isActor

/-- An order that no delivery needs, or that has none under way. -/
theorem idle_of_request (consistent : Consistent s.db) {order : Order} {listed : OrderActor}
    {publicId : ℕ} {target : OrderStatus} {actor : RequestActor}
    (found : orderOf s.db order.id = some order) (isPublic : order.publicId = publicId)
    (isActor : orderActor actor = some listed)
    (isAllowed : order.status.allows target listed = true)
    (atOnce : ¬ InTwoCommits s.db (.updateOrderStatus core publicId target actor)) :
    (boardOf s.db).Idle order.id := by
  have source := orders_of_get found
  rcases source_of_request isActor isAllowed with ⟨isAssigned, isCancelled⟩ | unneeded
  · intro id job isJob ofOrder
    cases isNeeded : needs job.status with
    | none => rfl
    | some status =>
      have agrees := consistent.sound.agrees id job status isJob isNeeded
      rw [ofOrder, source, isAssigned] at agrees
      cases agrees
      obtain ⟨d, isDelivery, rfl⟩ := get_of_jobs isJob
      have sameId : d.id = id := RowKey.id.inj (Table.get_key isDelivery)
      have active := active_of_needs isNeeded (by decide)
      exact absurd ⟨isCancelled, admin_of_cancel isActor isAllowed isAssigned, order, d,
        isPublic, isAssigned,
        found, sameId ▸ isDelivery, ofOrder, active⟩ atOnce
  · exact consistent.sound.idle_of_status source unneeded

theorem wp_orderStatus (consistent : Consistent s.db) {publicId : ℕ} {target : OrderStatus}
    {actor : RequestActor}
    (atOnce : ¬ InTwoCommits s.db (.updateOrderStatus core publicId target actor)) :
    cutting.wp i op (OrderService.updateStatus core publicId target actor)
      (fun _ _ _ => True) .start s := by
  refine wp_updateOrderStatus lone_lawful (lone_free i op) trivial ?_ fun _ _ _ _ => trivial
  intro result order listed row s₁ seen' db' isPublic found env₁ _ isActor isAllowed writing
  have waits := lone_waits env₁
  have idle : (boardOf s₁.db).Idle order.id := by
    rw [waits.board]
    exact idle_of_request consistent found isPublic isActor isAllowed atOnce
  have isBoard := boardOf_written writing.written
  refine after_agreed ?_ fun s₂ waits₂ => wp_mono ?_ (wp_releaseNothing fun d member ofOrder => ?_)
  · rw [isBoard]
    exact ((consistent.waits waits).sound.setOrder idle target).agrees
  · intro answer _ _ _
    cases answer <;> trivial
  · rw [waits₂.tables _ (by decide), writing.written.others _ (by decide) (by decide)] at member
    have isOver := idle d.id (jobOf d) (jobs_of_get (Table.get_of_mem member)) ofOrder
    by_contra active
    rcases needs_of_active (Bool.of_not_eq_false active) with isNeeded | isNeeded <;>
      cases isOver.symm.trans isNeeded

/-- An idle order may get a delivery. -/
theorem mayAssign {s₀ : Sit RowOf Shared Operation Unit} {orderId : ℕ} {seen : List (Sigma RowOf)}
    (sound : (boardOf s₀.db).Sound) (idle : (boardOf s₀.db).Idle orderId)
    (env₁ : cutting.Env i op ⟨none, []⟩ s₀ s) (there : (orderOf s.db orderId).isSome = true) :
    MayAssign cutting i op seen orderId (fun _ => True) s where
  there s' env' := by
    rw [(lone_waits env').order]
    exact there
  commits delivery assignedAt updatedAt row s₂ env₂ _ ofOrder assigning := by
    subst ofOrder
    have isBoard := ((lone_waits env₁).trans (lone_waits env₂)).board
    have known : (boardOf s₂.db).orders delivery.orderId ≠ none := by
      rw [orders_of_get assigning.order]
      exact Option.some_ne_none _
    have booked : ((boardOf s₂.db).book delivery.id (jobOf delivery)).Sound :=
      Sound.book (isBoard ▸ sound) (isBoard ▸ idle) known assigning.status
    refine after_agreed ?_ fun _ _ => trivial
    rw [boardOf_booked assigning.free]
    exact booked.agrees
  stops _ _ := trivial

theorem wp_deliveryStatus (consistent : Consistent s.db) {deliveryId actorUserId : ℕ}
    {target : DeliveryStatus}
    (atOnce : ¬ InTwoCommits s.db (.updateDeliveryStatus core deliveryId actorUserId target)) :
    cutting.wp i op (DeliveryService.updateStatus env core deliveryId actorUserId target)
      (fun _ _ _ => True) .start s := by
  refine wp_deliveryUpdateStatus lone_lawful (lone_free i op) (lone_persists i op) trivial
    (fun _ _ => trivial) ?_ ?_
  · intro d order branch row s₀ s₁ db' _ _ isDelivery isPicked env₀ env₁ _ settling
    have waits := (lone_waits env₀).trans (lone_waits env₁)
    have isJob := jobs_of_get isDelivery
    rw [← waits.board] at isJob
    have sameId : order.id = d.orderId := RowKey.id.inj (Table.get_key settling.read)
    refine after_agreed ?_ fun _ _ => trivial
    rw [boardOf_settled settling.settled, sameId]
    exact ((consistent.waits waits).sound.follow isJob (by rw [jobOf, isPicked]; rfl) rfl).agrees
  · intro d row stamp s₁ sameId _ isDelivery ofAgent isLegal _ updating
    have waits := lone_waits updating.env
    have now := consistent.waits waits
    have isJob := jobs_of_get isDelivery
    rw [← waits.board] at isJob
    have isBoard := boardOf_updateDelivery s₁.db d.id target stamp
    -- What the machine of the deliveries allows.
    have step : (d.status = .assigned ∧ (target = .accepted ∨ target = .rejected)) ∨
        (d.status = .accepted ∧ target = .picked) ∨
        target = .delivered := by
      revert isLegal
      cases d.status <;> cases target <;> decide
    rcases step with ⟨isAssigned, rfl | rfl⟩ | ⟨isAccepted, rfl⟩ | rfl
    · refine after_agreed ?_ fun _ _ _ _ => trivial
      rw [isBoard]
      exact (now.sound.accept fun job isJob' =>
        by cases isJob.symm.trans isJob'; exact isAssigned).agrees
    · have givenUp : ((boardOf s₁.db).setJob d.id .rejected).Sound := now.sound.giveUp d.id rfl
      have idle : ((boardOf s₁.db).setJob d.id .rejected).Idle d.orderId :=
        now.sound.idle_of_givenUp isJob (by rw [jobOf, isAssigned]; rfl) rfl
      refine after_agreed (isBoard ▸ givenUp.agrees) fun s₂ waits₂ =>
        ⟨fun s₃ _ env₃ there => ?_, fun _ _ => trivial⟩
      exact mayAssign (waits₂.board.trans isBoard ▸ givenUp)
        (waits₂.board.trans isBoard ▸ idle) env₃ there
    · -- Picking up takes two commits, which the condition excludes.
      exact absurd ⟨rfl, d, sameId ▸ isDelivery, ofAgent, isAccepted⟩ atOnce
    · contradiction

end

/-! ## Runs -/

/-- All operations, one after another, until a call of `op` starts that may stop, fail or die. -/
structure CutOff (env : Config) (start : Region) (op : Operation) (p p₂ : Region) : Prop where
  reached : Pool.Reach (code env) Anyhow start p
  idle : p.Idle = true
  cut : ∃ p₁, p.next (code env) (.spawn op) = some p₁ ∧ Pool.Reach (code env) Pool.CutShort p₁ p₂

theorem regular_anyhow (db : Database) (op : Operation) : Regular (fun _ _ => True) db op := by
  cases op with
  | reassign core orderPublicId => exact fun _ _ _ _ _ => trivial
  | webhook payload signature signatureValid =>
    cases signatureValid with
    | true => exact fun _ _ _ _ _ _ => trivial
    | false => exact trivial
  | _ => exact trivial

theorem consistent_of_reach {env : Config} {start p : Region}
    (begins : Pool.Between (.calm (Turns fun _ _ => True)) Coheres start)
    (reached : Pool.Reach (code env) Anyhow start p) (idle : p.Idle = true) : Consistent p.db := by
  refine Pool.Between.rests_of_idle (Pool.between_of_reach (lifecycle_settles env) begins
    (reached.mono fun p e condition => ?_)) idle
  cases e with
  | spawn op => exact ⟨condition.1, regular_anyhow _ op⟩
  | step i choice => exact condition
  | crash i => exact condition

theorem solo_update {env : Config} {op : Operation} {db : Database} {x : Shared}
    (consistent : Consistent db) (isUpdate : IsStatusUpdate op) (atOnce : ¬ InTwoCommits db op) :
    (code env op).solo ⟨fun _ db' => (boardOf db').Agrees, True⟩
      (fun _ _ _ _ => True) .start db x := by
  cases op with
  | updateOrderStatus core publicId target actor =>
    exact solo_map (solo_of_lone (.updateOrderStatus core publicId target actor)
      (wp_orderStatus consistent atOnce))
  | updateDeliveryStatus core deliveryId actorUserId target =>
    exact solo_map (solo_of_lone (.updateDeliveryStatus core deliveryId actorUserId target)
      (wp_deliveryStatus consistent atOnce))
  | _ => exact isUpdate.elim

theorem updates_cut_short_keep_orders_and_deliveries_together (env : Config) (db : Database)
    (x : Shared) (consistent : Consistent db) (op : Operation) (p p₂ : Region)
    (isUpdate : IsStatusUpdate op) (atOnce : ¬ InTwoCommits p.db op)
    (cutOff : CutOff env (Pool.quiet db x) op p p₂) : Together p₂.db := by
  have now : Consistent p.db :=
    consistent_of_reach (.idle rfl consistent) cutOff.reached cutOff.idle
  obtain ⟨p₁, spawned, reached⟩ := cutOff.cut
  exact together_iff.2 (Pool.cut_of_reach (fun _ _ => id) trivial cutOff.idle now.sound.agrees
    (solo_update now isUpdate atOnce) spawned reached)

/-- An acceptance that dies right after its commit. -/
def acceptance : Operation × List (Event Operation) :=
  (.updateDeliveryStatus Sample.core 1 2 .accepted, List.replicate 3 (Sample.act 0) ++ [.crash 0])

/-- A run that is cut short, and how it ends. -/
theorem cutOff_of_play {start : Region} {op : Operation} (schedule : List (Event Operation))
    {status : Option OrderStatus} {job : Option Job} (idle : start.Idle = true)
    (ends : ((start.next (code Sample.env) (.spawn op)).bind fun p₁ =>
      (Pool.play (code Sample.env) (fun p e => decide (Pool.CutShort p e)) schedule p₁).map fun p =>
      (statusOf 1 p, (boardOf p.db).jobs 1)) = some (status, job)) :
    ∃ p₂, CutOff Sample.env start op start p₂ ∧ statusOf 1 p₂ = status ∧
    (boardOf p₂.db).jobs 1 = job := by
  obtain ⟨p₁, spawned, rest⟩ := Option.bind_eq_some_iff.1 ends
  obtain ⟨p₂, played, isEnd⟩ := Option.map_eq_some_iff.1 rest
  simp only [Prod.mk.injEq] at isEnd
  exact ⟨p₂,
    ⟨.refl, idle, p₁, spawned, Pool.reach_of_play (fun _ _ => of_decide_eq_true) played⟩, isEnd⟩

/-- An order whose agent has not answered yet. -/
abbrev offered : Region := Pool.quiet (Sample.dbOnTheWay .assigned .assigned) Sample.shared

theorem acceptance_cut_short_keeps_order_and_delivery_together :
    ∃ p₂, CutOff Sample.env offered acceptance.1 offered p₂ ∧
    (boardOf p₂.db).jobs 1 = some ⟨1, 2, .accepted⟩ ∧ Together p₂.db := by
  have ends : ∃ p₂, CutOff Sample.env offered acceptance.1 offered p₂ ∧
      statusOf 1 p₂ = some .assigned ∧
      (boardOf p₂.db).jobs 1 = some ⟨1, 2, .accepted⟩ :=
        cutOff_of_play acceptance.2 rfl (by decide +kernel)
  obtain ⟨p₂, cutOff, _, isJob⟩ := ends
  exact ⟨p₂, cutOff, isJob, updates_cut_short_keep_orders_and_deliveries_together Sample.env _
    Sample.shared (consistent_onTheWay rfl)
    acceptance.1 offered p₂ trivial (fun inTwo => nomatch inTwo.1) cutOff⟩

/-! ## Between two commits -/

/-- Cut after the commit of the order. -/
def cancellation : Operation × List (Event Operation) :=
  (.updateOrderStatus Sample.core 100 .cancelled Sample.admin,
    List.replicate 9 (Sample.act 0) ++ [.crash 0])

/-- Cut after the commit of the delivery. -/
def pickUp : Operation × List (Event Operation) :=
  (.updateDeliveryStatus Sample.core 1 2 .picked, List.replicate 3 (Sample.act 0) ++ [.crash 0])

/-- A run that ends with an order and its delivery apart. -/
theorem apart_of_play {start : Region} {op : Operation} (schedule : List (Event Operation))
    {status needed : OrderStatus} (job : Job) (idle : start.Idle = true)
    (isNeeded : needs job.status = some needed) (ofOrder : job.orderId = 1)
    (differs : status ≠ needed)
    (ends : ((start.next (code Sample.env) (.spawn op)).bind fun p₁ =>
      (Pool.play (code Sample.env) (fun p e => decide (Pool.CutShort p e)) schedule p₁).map fun p =>
      (statusOf 1 p, (boardOf p.db).jobs 1)) = some (some status, some job)) :
    ¬ ∀ p p₂, CutOff Sample.env start op p p₂ → Together p₂.db := by
  intro together
  obtain ⟨p₂, cutOff, isStatus, isJob⟩ := cutOff_of_play schedule idle ends
  have isOrder := together_iff.1 (together start p₂ cutOff) 1 job needed isJob isNeeded
  rw [ofOrder] at isOrder
  exact differs (Option.some.inj (isStatus.symm.trans isOrder))

theorem cancelled_or_picked_alone :
    (Consistent (Sample.dbOnTheWay .assigned .assigned) ∧ IsStatusUpdate cancellation.1 ∧
      ¬ ∀ p p₂, CutOff Sample.env offered cancellation.1 p p₂ → Together p₂.db) ∧
    Consistent (Sample.dbOnTheWay .assigned .accepted) ∧ IsStatusUpdate pickUp.1 ∧
      ¬ ∀ p p₂, CutOff Sample.env (Pool.quiet (Sample.dbOnTheWay .assigned .accepted) Sample.shared)
        pickUp.1 p p₂ → Together p₂.db := by
  refine ⟨⟨consistent_onTheWay rfl, trivial, ?_⟩, consistent_onTheWay rfl, trivial, ?_⟩
  · exact apart_of_play cancellation.2 ⟨1, 2, .assigned⟩ rfl rfl rfl
      (show OrderStatus.cancelled ≠ _ by decide) (by decide +kernel)
  · exact apart_of_play pickUp.2 ⟨1, 2, .picked⟩ rfl rfl rfl
      (show OrderStatus.assigned ≠ _ by decide) (by decide +kernel)

end SwiftBite.Verified.CrashCuts
