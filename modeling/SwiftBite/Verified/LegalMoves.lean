import SwiftBite.Verified.LifecyclePayments

/-! # Legal changes of an order's status

Run one after another, the operations change statuses by the edges of the state machine and
by captures, but for two: a reassignment of an order that is picked already, and a capture
for an order that is cancelled.
-/

set_option autoImplicit false

namespace SwiftBite.Verified.LegalMoves

open Store Verified Board

/-- No odd ways. -/
abbrev never : OrderStatus → OrderStatus → Prop := fun _ _ => False

/-- An edge of the table, a capture, or no change.  A reassignment goes from `assigned` to
`assigned`, and a compensation by an edge to `cancelled`. -/
abbrev Legal : OrderStatus → OrderStatus → Prop := Goes never

/-- Every order of a state is in a later one, in a related status. -/
def StatusesMove (related : OrderStatus → OrderStatus → Prop) (p p' : Region) : Prop :=
  ∀ id row, orderOf p.db id = some row →
  ∃ row', orderOf p'.db id = some row' ∧ related row.status row'.status

/-- The changes of status in all runs from a state. -/
structure StatusesLegal (env : Config) (allowed : Region → Event Operation → Prop)
    (start : Region) : Prop where
  changes : ∀ p p' e, Pool.Reach (code env) allowed start p → allowed p e →
    p.next (code env) e = some p' → StatusesMove Legal p p'
  path : ∀ p p', Pool.Reach (code env) allowed start p → Pool.Reach (code env) allowed p p' →
    StatusesMove (Relation.ReflTransGen Legal) p p'
  final : ∀ p p', Pool.Reach (code env) allowed start p → Pool.Reach (code env) allowed p p' →
    StatusesMove (fun source target => source ∈ [.delivered, .cancelled, .rejected] →
      target = source) p p'

/-! ## Paths -/

theorem eq_of_final {source target : OrderStatus}
    (isFinal : source ∈ [OrderStatus.delivered, .cancelled, .rejected])
    (legal : Legal source target) : target = source := by
  rcases legal with rfl | isEdge | ⟨rfl, _⟩ | impossible
  · rfl
  · revert isFinal isEdge
    cases source <;> cases target <;> decide
  · exact absurd isFinal (by decide)
  · exact impossible.elim

theorem eq_of_path {source target : OrderStatus} (path : Relation.ReflTransGen Legal source target)
    (isFinal : source ∈ [OrderStatus.delivered, .cancelled, .rejected]) : target = source := by
  induction path with
  | refl => rfl
  | tail _ legal inductionHypothesis =>
    subst inductionHypothesis
    exact eq_of_final isFinal legal

/-- A picked order can only be delivered. -/
theorem delivered_of_picked {target : OrderStatus}
    (path : Relation.ReflTransGen Legal .picked target) :
    target = .picked ∨ target = .delivered := by
  induction path with
  | refl => exact .inl rfl
  | @tail middle target _ legal inductionHypothesis =>
    rcases inductionHypothesis with rfl | rfl
    · rcases legal with rfl | isEdge | ⟨impossible, _⟩ | impossible
      · exact .inl rfl
      · revert isEdge
        cases target <;> decide
      · cases impossible
      · exact impossible.elim
    · exact .inr (eq_of_final (by decide) legal)

theorem StatusesMove.trans {p p' p'' : Region}
    (first : StatusesMove (Relation.ReflTransGen Legal) p p') (second : StatusesMove Legal p' p'') :
    StatusesMove (Relation.ReflTransGen Legal) p p'' := by
  intro id row found
  obtain ⟨row', found', path⟩ := first id row found
  obtain ⟨row'', found'', legal⟩ := second id row' found'
  exact ⟨row'', found'', path.tail legal⟩

/-! ## Runs -/

section

variable {env : Config} {start p p' : Region}

/-- Each reassignment is of an order that is not picked yet, and no capture is for a cancelled
order. -/
abbrev Regularly : Region → Event Operation → Prop := OneByOne fun op db _ => Regular never db op

theorem changes_of_step (begins : Pool.Between (.calm (Turns never)) Coheres start)
    (reached : Pool.Reach (code env) Regularly start p) {e : Event Operation}
    (condition : Regularly p e) (moves : p.next (code env) e = some p') :
    StatusesMove Legal p p' := by
  have between := Pool.between_of_reach (lifecycle_settles env) begins reached
  intro id row found
  rcases (between.next (lifecycle_settles env) condition moves).2 with same | changes
  · exact ⟨row, by rw [same, found], .inl rfl⟩
  · obtain ⟨target, isTarget, goes⟩ := changes id row.status (orders_of_get found)
    obtain ⟨row', found', rfl⟩ := get_of_orders isTarget
    exact ⟨row', found', goes⟩

theorem path_of_reach (begins : Pool.Between (.calm (Turns never)) Coheres start)
    (reached : Pool.Reach (code env) Regularly start p)
    (later : Pool.Reach (code env) Regularly p p') :
    StatusesMove (Relation.ReflTransGen Legal) p p' := by
  induction later with
  | refl => exact fun id row found => ⟨row, found, .refl⟩
  | step before condition moves path =>
    exact path.trans (changes_of_step begins (reached.trans before) condition moves)

end

theorem regular_runs_change_statuses_legally (env : Config) (db : Database) (x : Shared)
    (consistent : Consistent db) : StatusesLegal env Regularly (Pool.quiet db x) := by
  have begins : Pool.Between (.calm (Turns never)) Coheres (Pool.quiet db x : Region) :=
    .idle rfl consistent
  refine ⟨fun p p' e reached => changes_of_step begins reached, fun p p' => path_of_reach begins,
    fun p p' reached later id row found => ?_⟩
  obtain ⟨row', found', path⟩ := path_of_reach begins reached later id row found
  exact ⟨row', found', eq_of_path path⟩

theorem consistent_paying : Consistent (Sample.dbPaying .initialized) := by
  have sessions : (Sample.dbPaying .initialized .paymentSessions).rows =
      [Sample.session .initialized] := rfl
  have noJob : ∀ id job, (boardOf (Sample.dbPaying .initialized)).jobs id ≠ some job := by
    intro id job found
    obtain ⟨d, isDelivery, _⟩ := get_of_jobs found
    exact absurd (Table.get_mem isDelivery) List.not_mem_nil
  refine ⟨⟨fun id job _ found _ => absurd found (noJob id job),
    fun id _ job _ found _ _ _ _ => absurd found (noJob id job),
    fun id job found => absurd found (noJob id job)⟩, fun session member _ => ?_,
      fun a inA b inB _ _ _ => ?_⟩
  · rw [sessions, List.mem_singleton] at member
    subst member
    exact .inl rfl
  · rw [sessions, List.mem_singleton] at inA inB
    rw [inA, inB]

/-- Payments come in while no order is cancelled, and the restaurants go on with their orders. -/
def PaidInTime (op : Operation) (db : Database) : Prop :=
  match op with
  | .webhook .. => ∀ order ∈ (db .orders).rows, Order.status order ≠ .cancelled
  | .updateOrderStatus .. => True
  | _ => False

instance : (op : Operation) → (db : Database) → Decidable (PaidInTime op db)
  | .webhook .., db =>
    inferInstanceAs (Decidable (∀ order ∈ (db .orders).rows, Order.status order ≠ .cancelled))
  | .updateOrderStatus .., _ => inferInstanceAs (Decidable True)
  | .placeOrder .., _ | .initPayment .., _ | .refund .., _ | .assign .., _ | .tryAutoAssign .., _
  | .reassign .., _
  | .updateDeliveryStatus .., _ | .online .., _ | .offline .., _ | .ping .., _ | .recordPayout .., _
  | .sleep .., _ =>
    inferInstanceAs (Decidable False)

theorem regularly_of_paidInTime {p : Region} {e : Event Operation}
    (checked : OneByOne (fun op db _ => PaidInTime op db) p e) : Regularly p e := by
  cases e with
  | spawn op =>
    obtain ⟨idle, inTime⟩ := checked
    cases op with
    | webhook payload signature signatureValid =>
      refine ⟨idle, ?_⟩
      cases signatureValid with
      | true => exact fun _ order member _ isCancelled => absurd isCancelled (inTime order member)
      | false => trivial
    | updateOrderStatus core publicId target actor => exact ⟨idle, trivial⟩
    | _ => exact inTime.elim
  | step i choice => exact checked
  | crash i => exact checked

/-- The payment of an order comes in, and the restaurant accepts the order. -/
def paidAndAccepted : List (Event Operation) :=
  .spawn (.webhook (Sample.payEvent "SUCCESS" "a") "" true) :: List.replicate 23 (Sample.act 0) ++
  .spawn (.updateOrderStatus Sample.core 100 .accepted Sample.owner) ::
    List.replicate 9 (Sample.act 1)

theorem paid_order_is_placed_and_accepted :
    ∃ p, Pool.Reach (code Sample.env) Regularly
      (Pool.quiet (Sample.dbPaying .initialized) Sample.shared) p ∧
      statusOf 1 p = some .accepted ∧
      StatusesMove (Relation.ReflTransGen Legal)
        (Pool.quiet (Sample.dbPaying .initialized) Sample.shared) p := by
  have played : (Pool.play (code Sample.env)
      (fun p e => decide (OneByOne (fun op db _ => PaidInTime op db) p e)) paidAndAccepted
      (Pool.quiet (Sample.dbPaying .initialized) Sample.shared)).map (statusOf 1) =
      some (some .accepted) := by decide +kernel
  obtain ⟨p, isRun, isEnd⟩ := Option.map_eq_some_iff.1 played
  have reached : Pool.Reach (code Sample.env) Regularly
      (Pool.quiet (Sample.dbPaying .initialized) Sample.shared) p :=
    Pool.reach_of_play
      (fun _ _ checked => regularly_of_paidInTime (of_decide_eq_true checked)) isRun
  have legal := regular_runs_change_statuses_legally Sample.env
    (Sample.dbPaying .initialized) Sample.shared consistent_paying
  exact ⟨p, reached, isEnd, legal.path _ p .refl reached⟩

/-! ## The odd ways -/

/-- All operations, one after another. -/
abbrev Anyhow : Region → Event Operation → Prop := OneByOne fun _ _ _ => True

def customer : RequestActor :=
  { userId := 7, role := .customer, restaurantId := none, restaurantRole := none }

/-- The customer cancels before the payment comes in. -/
def cancelledThenPaid : List (Event Operation) × List (Event Operation) :=
  (.spawn (.updateOrderStatus Sample.core 100 .cancelled customer) ::
    List.replicate 9 (Sample.act 0),
    .spawn (.webhook (Sample.payEvent "SUCCESS" "a") "" true) :: List.replicate 23 (Sample.act 1))

theorem consistent_onTheWay {status : OrderStatus} {deliveryStatus : DeliveryStatus}
    (isNeeded : needs deliveryStatus = some status) :
    Consistent (Sample.dbOnTheWay status deliveryStatus) := by
  have deliveries : (Sample.dbOnTheWay status deliveryStatus .deliveries).rows =
      [Sample.delivery deliveryStatus] := rfl
  have onlyJob : ∀ id job, (boardOf (Sample.dbOnTheWay status deliveryStatus)).jobs id = some job →
      id = 1 ∧ job = ⟨1, 2, deliveryStatus⟩ := by
    intro id job found
    obtain ⟨d, isDelivery, rfl⟩ := get_of_jobs found
    have member := Table.get_mem isDelivery
    rw [deliveries, List.mem_singleton] at member
    subst member
    exact ⟨(RowKey.id.inj (Table.get_key isDelivery)).symm, rfl⟩
  refine ⟨⟨fun id job needed found isNeeded' => ?_, fun id id' job job' found found' _ _ _ => ?_,
    fun id job found => ?_⟩,
    fun session member _ => absurd member List.not_mem_nil, fun a inA =>
      absurd inA List.not_mem_nil⟩
  · obtain ⟨rfl, rfl⟩ := onlyJob id job found
    cases isNeeded.symm.trans isNeeded'
    rfl
  · exact (onlyJob id job found).1.trans (onlyJob id' job' found').1.symm
  · obtain ⟨rfl, rfl⟩ := onlyJob id job found
    exact fun impossible => nomatch impossible

/-- Another agent is nearby. -/
def anotherNearby : Shared := { Sample.shared with presence := ⟨[(3, ⟨0, 0⟩)], [2], []⟩ }

/-- An order that is picked is given to the other agent. -/
def reassignedOnTheWay : List (Event Operation) :=
  .spawn (.reassign Sample.core 100) :: List.replicate 17 (Sample.act 0)

theorem cancelled_order_is_placed_and_picked_order_is_assigned :
    (Consistent (Sample.dbPaying .initialized) ∧
      ¬ StatusesLegal Sample.env Anyhow (Pool.quiet (Sample.dbPaying .initialized) Sample.shared)) ∧
    Consistent (Sample.dbOnTheWay .picked .picked) ∧
      ¬ StatusesLegal Sample.env Anyhow
        (Pool.quiet (Sample.dbOnTheWay .picked .picked) anotherNearby) := by
  refine ⟨⟨consistent_paying, fun legal => ?_⟩, consistent_onTheWay rfl, fun legal => ?_⟩
  · have ends : ((Pool.play (code Sample.env) (fun p e => decide (Anyhow p e)) cancelledThenPaid.1
        (Pool.quiet (Sample.dbPaying .initialized) Sample.shared)).bind fun p =>
          (Pool.play (code Sample.env) (fun p e => decide (Anyhow p e)) cancelledThenPaid.2 p).map
            fun p' => (statusOf 1 p, statusOf 1 p')) =
        some (some .cancelled, some .placed) := by decide +kernel
    obtain ⟨p, played, rest⟩ := Option.bind_eq_some_iff.1 ends
    obtain ⟨p', played', isEnd⟩ := Option.map_eq_some_iff.1 rest
    simp only [Prod.mk.injEq] at isEnd
    obtain ⟨row, found, isCancelled⟩ := Option.map_eq_some_iff.1 isEnd.1
    obtain ⟨row', found', stays⟩ :=
      legal.final p p' (Pool.reach_of_play (fun _ _ => of_decide_eq_true) played)
      (Pool.reach_of_play (fun _ _ => of_decide_eq_true) played') 1 row found
    have isPlaced := isEnd.2
    rw [statusOf, found', Option.map_some, stays (by rw [isCancelled]; decide),
      isCancelled] at isPlaced
    cases isPlaced
  · have ends : (Pool.play (code Sample.env) (fun p e => decide (Anyhow p e)) reassignedOnTheWay
        (Pool.quiet (Sample.dbOnTheWay .picked .picked) anotherNearby)).map (statusOf 1) =
        some (some .assigned) := by decide +kernel
    obtain ⟨p, played, isEnd⟩ := Option.map_eq_some_iff.1 ends
    obtain ⟨row', found', path⟩ :=
      legal.path _ p .refl (Pool.reach_of_play (fun _ _ => of_decide_eq_true) played) 1
      (Sample.order .picked) rfl
    rw [statusOf, found'] at isEnd
    rcases delivered_of_picked path with isStatus | isStatus
    · cases (Option.some.inj isEnd).symm.trans isStatus
    · cases (Option.some.inj isEnd).symm.trans isStatus

end SwiftBite.Verified.LegalMoves
