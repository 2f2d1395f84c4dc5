import SwiftBite.Verified.BusyAgents
import SwiftBite.Verified.PassedOver

/-! # Agents who leave their work

`offline` leaves the delivery under way to `reassign`, and drops its errors.  One delivery is
given up at most, and none if it has been reassigned too often: what is left stays with an
agent who is not there.
-/

set_option autoImplicit false

namespace SwiftBite.Verified.HandedOver

open Store Prog Statement DeliveryService PassedOver

/-- The agent has one delivery under way at most, its order is there, and it may be reassigned. -/
def Movable (env : Config) (db : Database) (agentId : ℕ) : Prop :=
  ∀ d ∈ (db .deliveries).rows, Delivery.agentId d = agentId → d.status.active = true →
    (orderOf db d.orderId).isSome = true ∧
    (∀ n, chainLength db d.id = some n → n < env.maxReassignmentAttempts) ∧
    ∀ d' ∈ (db .deliveries).rows, Delivery.agentId d' = agentId → d'.status.active = true → d' = d

section

variable {env : Config} {core : Core} {agentId : ℕ} {db db' : Database} {x : Shared}
  {seen : List (Sigma RowOf)} {d : Delivery}

/-! ## The deliveries of the agent -/

theorem freeOf_congr (deliveries : db' .deliveries = db .deliveries) :
    FreeOf db' agentId ↔ FreeOf db agentId := by
  rw [FreeOf, deliveries, FreeOf]

theorem not_freeOf (found : deliveryOf db d.id = some d) (ofAgent : d.agentId = agentId)
    (active : d.status.active = true) : ¬ FreeOf db agentId := by
  intro free
  have inactive := free d (Table.get_mem found) ofAgent
  rw [active] at inactive
  cases inactive

/-- An agent with this delivery under way, which may be reassigned, has no other if and only if all
may be handed over. -/
theorem movable_iff (found : deliveryOf db d.id = some d) (ofAgent : d.agentId = agentId)
    (active : d.status.active = true) (known : (orderOf db d.orderId).isSome = true)
    (few : ∀ n, chainLength db d.id = some n → n < env.maxReassignmentAttempts) :
    FreeBut db d.id agentId ↔ Movable env db agentId := by
  have member : d ∈ (db .deliveries).rows := Table.get_mem found
  constructor
  · intro free
    have only : ∀ d' ∈ (db .deliveries).rows, Delivery.agentId d' = agentId →
        d'.status.active = true → d' = d := by
      intro d' member' ofAgent' active'
      by_contra different
      have inactive := free d' member' ofAgent' fun same =>
          different (Table.eq_of_key member' member (congrArg RowKey.id same))
      rw [active'] at inactive
      cases inactive
    intro d' member' ofAgent' active'
    obtain rfl := only d' member' ofAgent' active'
    exact ⟨known, few, only⟩
  · intro movable d' member' ofAgent' different
    by_contra isActive
    rw [Bool.not_eq_false] at isActive
    exact different (congrArg Delivery.id
      ((movable d member ofAgent active).2.2 d' member' ofAgent' isActive))

/-- Another agent's delivery. -/
theorem keeps_freeOf {other : ℕ} (different : other ≠ agentId) (reassignedFrom : Option ℕ)
    (A : Prop) : Keeps other reassignedFrom fun db => FreeOf db agentId ↔ A where
  inserts db delivery isAgent _ holds := by
    rw [← holds]
    have rows : db.apply (.insert TableName.deliveries delivery) .deliveries =
        (db .deliveries).insert delivery := Db.apply_insert_self ..
    rw [FreeOf, rows]
    constructor
    · exact fun free d member => free d (Table.mem_insert_of_mem member)
    · intro free d member ofAgent
      rcases Table.mem_insert member with old | rfl
      · exact free d old ofAgent
      · exact absurd (isAgent.symm.trans ofAgent) different
  others db w elsewhere holds := by
    rw [← holds]
    exact freeOf_congr (Db.apply_other db elsewhere)

/-! ## The calls -/

/-- `reassign` for an agent who has left takes this delivery away, if it may be reassigned. -/
theorem solo_reassign (oneForEach : (boardOf db).OneForEach) (hidden : Offline.Hidden agentId db x)
    (found : deliveryOf db d.id = some d) (ofAgent : d.agentId = agentId)
    (active : d.status.active = true) {order : Order}
    (isOrder : orderOf db d.orderId = some order) :
    (reassign env core order.publicId).solo (anyhow False)
      (fun _ _ db' _ => FreeOf db' agentId ↔ Movable env db agentId) ⟨none, seen⟩ db x := by
  have known : (orderOf db d.orderId).isSome = true := by rw [isOrder]; rfl
  have sameId : order.id = d.orderId := RowKey.id.inj (Table.get_key isOrder)
  have stays : ¬ FreeOf db agentId := not_freeOf found ofAgent active
  have among : d ∈ (db .deliveries).rows := Table.get_mem found
  refine solo_do (solo_selectFirst (fun order' member seen₁ => ?_) fun none _ => ?_)
  swap
  · have listed := List.filter_eq_nil_iff.1 none order (Table.get_mem isOrder)
    simp at listed
  obtain ⟨isRow, isPublic⟩ := List.mem_filter.1 member
  obtain rfl : order' = order :=
    Table.eq_of_unique isRow (Table.get_mem isOrder) (List.mem_singleton.2 rfl)
    (List.mem_singleton.2 (congrArg UniqueKey.orderPublicId (of_decide_eq_true isPublic)))
  refine solo_do (solo_selectFirst (fun e member seen₂ => ?_) fun none _ => ?_)
  swap
  · have listed := List.filter_eq_nil_iff.1 none d among
    simp [active, sameId] at listed
  obtain ⟨isDelivery, matches'⟩ := List.mem_filter.1 member
  simp only [Bool.and_eq_true, decide_eq_true_eq] at matches'
  -- the delivery under way for the order is the agent's
  have isId : e.id = d.id := oneForEach e.id d.id (jobOf e) (jobOf d)
    (jobs_of_get (Table.get_of_mem isDelivery)) (jobs_of_get found)
    (matches'.1.trans sameId) matches'.2 active
  obtain rfl : e = d := Table.eq_of_key isDelivery among (congrArg RowKey.id isId)
  refine solo_do (solo_countReassignmentChain (fun n seen₃ chain => ?_) fun faulty => faulty.elim)
  refine solo_do (solo_throwIf (fun notMany => solo_do ?_) fun many => ?_)
  swap
  · refine iff_of_false stays fun movable => ?_
    exact absurd ((movable e among ofAgent active).2.1 n chain) (Nat.not_lt.2 many)
  have few : ∀ n', chainLength db e.id = some n' → n' < env.maxReassignmentAttempts := by
    intro n' chain'
    cases chain.symm.trans chain'
    exact Nat.lt_of_not_ge notMany
  refine solo_updateDeliveryStatus (by rw [found]; rfl) fun stamp =>
    ⟨.inr trivial, fun _ seen₄ => solo_do (solo_orElse_redis ?_)⟩
  have taken : FreeOf (givenUp db e .reassigned stamp) agentId ↔ Movable env db agentId :=
    (freeOf_givenUp rfl stamp).trans (movable_iff found ofAgent active known few)
  refine solo_do (solo_ofExcept ?_)
  cases core.getBranch order'.branchId with
  | error err => exact taken
  | ok branch =>
    have offline : ¬ Online (givenUp db e .reassigned stamp) agentId := by
      have presence : givenUp db e .reassigned stamp .agentPresence = db .agentPresence :=
        Db.apply_update_ne db _ _ (by decide)
      rw [Online, presenceOf, presence]
      exact hidden.offline
    refine solo_orNobody (Q := fun db' _ => FreeOf db' agentId ↔ Movable env db agentId) ?_
    refine PassedOver.solo_tryAssign ?_ (outranked_in_postgres offline) ?_ taken
    · exact outranked_in_redis hidden.away
    · exact fun other different => keeps_freeOf different _ _

theorem solo_offline (oneForEach : (boardOf db).OneForEach) :
    (PresenceService.offline env core agentId).solo (anyhow False)
      (fun result _ db' _ => result = .ok () → (FreeOf db' agentId ↔ Movable env db agentId))
        .start db x := by
  refine Verified.solo_offline
    (Q := fun result db' _ => result = .ok () → (FreeOf db' agentId ↔ Movable env db agentId))
    (fun _ impossible => nomatch impossible) fun db' presence left went =>
      ⟨.inr trivial, fun active ofAgent nobody => ?_⟩
  have deliveries : db' .deliveries = db .deliveries := left.others _ (by decide)
  have orders : db' .orders = db .orders := left.others _ (by decide)
  have sameMovable : Movable env db' agentId ↔ Movable env db agentId := by
    simp only [Movable, orderOf, orders, deliveries, Stranded.chainLength_congr deliveries]
  refine ⟨fun d isActive absent _ => ?_, fun isNone _ => ?_,
    fun d isActive order seen' isOrder => ?_⟩
  · obtain ⟨found, ofAgent, active, _⟩ := ofAgent d isActive
    -- The order of the delivery is missing, so nothing is handed over.
    have stays : ¬ FreeOf db' agentId :=
      (freeOf_congr deliveries).not.2 (not_freeOf found ofAgent active)
    refine iff_of_false stays fun movable => ?_
    have known := (movable d (Table.get_mem found) ofAgent active).1
    rw [orderOf, orders] at absent
    rw [orderOf, absent] at known
    cases known
  · -- The agent has no active delivery.
    have free := nobody isNone
    refine iff_of_true ((freeOf_congr deliveries).2 free) fun d member ofAgent active => ?_
    rw [free d member ofAgent] at active
    cases active
  · obtain ⟨found, ofAgent, active, _⟩ := ofAgent d isActive
    -- From here on it is a reassignment that passes the agent over.
    have hidden : Offline.Hidden agentId db' { x with presence } := by
      refine ⟨left.offline, ?_⟩
      rw [Offline.Placed, went.geo]
      exact fun placed => (mem_agents_filter.1 placed).2 rfl
    have sameBoard : boardOf db' = boardOf db := boardOf_congr orders deliveries
    refine solo_mono (fun _ _ _ _ holds _ => holds) ?_
    simp only [← sameMovable]
    refine solo_reassign (sameBoard ▸ oneForEach) hidden ?_ ofAgent active isOrder
    rw [deliveryOf, deliveries]
    exact found

end

/-! ## Runs -/

open BusyAgents (NoPhantoms Marked marked_of_reach)

/-- The agent goes offline when a run of one call after another is over: no statement fails, and the
call returns. -/
structure GoesOffline (env : Config) (core : Core) (agentId : ℕ) (start p : Region)
    (ending : Ending (K := RowKey) RowOf Shared Err Unit) : Prop where
  reached : Pool.Reach (code env) (OneByOne fun _ _ _ => True) start p
  idle : p.Idle = true
  played : ∃ choices, .fault ∉ choices ∧
    (PresenceService.offline env core agentId).follow choices .start p.db p.side = some ending
  returned : ending.result = .ok ()

/-- Whoever goes offline has no delivery under way afterwards if and only if all of them could be
handed over. -/
theorem offline_hands_over_iff (env : Config) (core : Core) (agentId : ℕ) (db : Database)
    (x : Shared) (oneActive : OneActive.AtMostOneActive db) (noPhantoms : NoPhantoms db x.presence)
    (p : Region) (ending : Ending (K := RowKey) RowOf Shared Err Unit)
    (goes : GoesOffline env core agentId (Pool.quiet db x) p ending) :
    FreeOf ending.db agentId ↔ Movable env p.db agentId := by
  have marked : Marked p.db p.side :=
    marked_of_reach (.of_rows oneActive noPhantoms) goes.reached goes.idle
  obtain ⟨choices, calm, played⟩ := goes.played
  exact solo_follow (solo_offline marked.oneForEach)
    (fun fault => absurd fault calm) played goes.returned

/-- The order goes through another delivery, of the only agent again. -/
def givenAgain : List (Event Operation) :=
  .spawn (.reassign Sample.core 500) :: List.replicate 17 (Sample.act 6)

/-- And through another. -/
def givenOnceMore : List (Event Operation) :=
  .spawn (.reassign Sample.core 500) :: List.replicate 18 (Sample.act 7)

/-- A delivery: its agent, whether it is under way, and whether its order is there. -/
def summary (db : Database) (d : Delivery) : ℕ × ℕ × Bool × Bool :=
  (d.id, d.agentId, d.status.active, (orderOf db d.orderId).isSome)

/-- What is seen when agent 2 leaves: the deliveries before it, the chain that ends in the last
of them, and whether the agent has none under way afterwards. -/
structure Departure where
  idle : Bool
  returned : Bool
  deliveries : List (ℕ × ℕ × Bool × Bool)
  chain : Option ℕ
  free : Bool
  deriving DecidableEq

def leaving (run : List (Event Operation)) (last actions : ℕ) : Option Departure :=
  (Pool.play (code Sample.env) (fun p e => decide (OneByOne (fun _ _ _ => True) p e)) run
    (Pool.quiet Database.empty Sample.shared)).bind fun p =>
    ((PresenceService.offline Sample.env Sample.core 2).follow (List.replicate actions (.pick 0))
      .start p.db p.side).map fun ending =>
      ⟨p.Idle, ending.result.toOption.isSome, (p.db .deliveries).rows.map (summary p.db),
        chainLength p.db last, decide (FreeOf ending.db 2)⟩

theorem goesOffline_of_leaving {run : List (Event Operation)} {last actions : ℕ}
    {deliveries : List (ℕ × ℕ × Bool × Bool)} {chain : Option ℕ} {free : Bool}
    (ran : leaving run last actions = some ⟨true, true, deliveries, chain, free⟩) :
    ∃ p ending,
      GoesOffline Sample.env Sample.core 2 (Pool.quiet Database.empty Sample.shared) p ending ∧
      (p.db .deliveries).rows.map (summary p.db) = deliveries ∧ chainLength p.db last = chain ∧
      decide (FreeOf ending.db 2) = free := by
  obtain ⟨p, played, rest⟩ := Option.bind_eq_some_iff.1 ran
  obtain ⟨ending, followed, isEnd⟩ := Option.map_eq_some_iff.1 rest
  simp only [Departure.mk.injEq] at isEnd
  obtain ⟨idle, ok, isRows, isChain, isFree⟩ := isEnd
  have returned : ending.result = .ok () := by
    cases result : ending.result with
    | ok _ => rfl
    | error err =>
      rw [result] at ok
      cases ok
  exact ⟨p, ending, ⟨Pool.reach_of_play (fun _ _ => of_decide_eq_true) played, idle,
    ⟨_, by simp [List.mem_replicate], followed⟩, returned⟩,
    isRows, isChain, isFree⟩

/-- The first delivery of an order does not stay with its agent. -/
theorem first_delivery_is_handed_over :
    ∃ p ending,
    GoesOffline Sample.env Sample.core 2 (Pool.quiet Database.empty Sample.shared) p ending ∧
    ¬ FreeOf p.db 2 ∧ FreeOf ending.db 2 := by
  obtain ⟨p, ending, goes, rows, chain, _⟩ := goesOffline_of_leaving
    (show leaving givenToTheOnlyAgent 10 17 =
    some ⟨true, true, [(10, 2, true, true)], some 1, true⟩ by decide +kernel)
  obtain ⟨d, isRows, isSummary⟩ := List.map_eq_singleton_iff.1 rows
  simp only [summary, Prod.mk.injEq] at isSummary
  obtain ⟨isId, isAgent, active, known⟩ := isSummary
  have only : ∀ d', d' ∈ (p.db .deliveries).rows ↔ d' = d := by simp [isRows]
  refine ⟨p, ending, goes, not_freeOf (Table.get_of_mem ((only d).2 rfl)) isAgent active, ?_⟩
  have start : OneActive.AtMostOneActive Database.empty :=
    fun _ none => absurd none List.not_mem_nil
  have noMarks : NoPhantoms Database.empty Sample.shared.presence :=
    fun _ none => absurd none List.not_mem_nil
  refine (offline_hands_over_iff Sample.env Sample.core 2 Database.empty Sample.shared start noMarks
    p ending goes).2 fun d' member _ _ => ?_
  obtain rfl := (only d').1 member
  refine ⟨known, fun n isChain => ?_, fun d'' member' _ _ => (only d'').1 member'⟩
  rw [isId, chain] at isChain
  cases isChain
  decide

/-- The third delivery in a row stays with its agent, who is not there any more. -/
theorem third_delivery_stays :
    ∃ p ending,
    GoesOffline Sample.env Sample.core 2 (Pool.quiet Database.empty Sample.shared) p ending ∧
    ¬ FreeOf ending.db 2 := by
  obtain ⟨p, ending, goes, _, _, free⟩ := goesOffline_of_leaving
    (show leaving (givenToTheOnlyAgent ++ givenAgain ++ givenOnceMore) 12 13 =
      some ⟨true, true, [(10, 2, false, true), (11, 2, false, true), (12, 2, true, true)], some 3,
        false⟩ by decide +kernel)
  exact ⟨p, ending, goes, of_decide_eq_false free⟩

end SwiftBite.Verified.HandedOver
