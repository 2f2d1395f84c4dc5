import SwiftBite.Store.Added
import SwiftBite.Store.Follow
import SwiftBite.Verified.Alone
import SwiftBite.Verified.MoneySums
import SwiftBite.Verified.ToldStatuses

/-! # Settlements and what was collected

The restaurant's credit and the commission share the order's subtotal however the commission
is rounded.  The agent's earning is a part of the delivery fee that the branch has now, and the
customer paid the one that it had when the order was placed.
-/

set_option autoImplicit false

namespace SwiftBite.Verified.CoveredSettlements

open Store Prog Protocol DeliveryService
open SwiftBite.Verified.Ledger (balanceIn)

/-- The amounts of one settlement. -/
structure Parts where
  restaurantCredit : ℤ
  commission : ℤ
  agentEarning : ℤ

/-- The amounts that are written between `db` and `db'`. -/
structure Writes (order : Order) (delivery : Delivery) (db db' : Database)
    (parts : Parts) : Prop where
  credit : balanceIn (db' .restaurantBalances) order.restaurantId order.currency =
    balanceIn (db .restaurantBalances) order.restaurantId order.currency + parts.restaurantCredit
  commission : (orderOf db' order.id).map Order.commission = some parts.commission
  charged : ∀ row : Transaction, (db .transactions).Added (db' .transactions) row →
    row.transactionType = .commission ∧ row.amount = parts.commission
  earning : (deliveryOf db' delivery.id).map Delivery.earningAmount = some (some parts.agentEarning)
  earned : ∀ row : AgentEarning, (db .agentEarnings).Added (db' .agentEarnings) row →
    row.amount = parts.agentEarning

/-- No part is negative, and all of them together are covered by what the customer pays. -/
structure Fits (order : Order) (parts : Parts) : Prop where
  restaurantCredit : 0 ≤ parts.restaurantCredit
  commission : 0 ≤ parts.commission
  agentEarning : 0 ≤ parts.agentEarning
  total : parts.restaurantCredit + parts.commission + parts.agentEarning ≤ order.total

def Covered (order : Order) (delivery : Delivery) (db db' : Database) : Prop :=
  ∃ parts, Writes order delivery db db' parts ∧ Fits order parts

/-- What the branch may have set its fee and its commission to. -/
structure InRange (branch : CoreBranch) : Prop where
  deliveryFee : 0 ≤ branch.deliveryFee
  lower : 0 ≤ branch.commissionBps
  upper : branch.commissionBps ≤ 10000

/-- The agent's share of the fee is, up to rounding, no more than the customer paid on top of the
subtotal. -/
def Affords (env : Config) (branch : CoreBranch) (order : Order) : Prop :=
  0 ≤ order.subtotal ∧
  branch.deliveryFee * env.agentShareRate < (order.total - order.subtotal : ℤ) + 1 / 2

/-! ## The three amounts -/

theorem mathRound_le_iff (q : ℚ) (n : ℤ) : mathRound q ≤ n ↔ q < n + 1 / 2 := by
  unfold mathRound
  rw [← Int.lt_add_one_iff, Rat.floor_lt_iff]
  push_cast
  constructor <;> intro less <;> linarith

section

variable {env : Config} {core : Core} {order : Order} {branch : CoreBranch} {delivery : Delivery}
  {db db' : Database} {x : Shared}

theorem agentEarning_nonneg (rate : 0 ≤ env.agentShareRate) (inRange : InRange branch) :
    0 ≤ agentEarningOf env branch := by
  have share : (0 : ℚ) ≤ branch.deliveryFee * env.agentShareRate :=
    mul_nonneg (by exact_mod_cast inRange.deliveryFee) rate
  have rounded : (0 : ℚ) ≤ branch.deliveryFee * env.agentShareRate + 1 / 2 := by linarith
  exact Rat.le_floor_iff.2 (by exact_mod_cast rounded)

/-- What a settlement writes, as the code computes it. -/
def partsOf (env : Config) (order : Order) (branch : CoreBranch) : Parts where
  restaurantCredit := order.subtotal - commissionOf order branch
  commission := commissionOf order branch
  agentEarning := agentEarningOf env branch

theorem fits_iff (rate : 0 ≤ env.agentShareRate) (inRange : InRange branch) :
    Fits order (partsOf env order branch) ↔ Affords env branch order := by
  have earning : agentEarningOf env branch ≤ order.total - order.subtotal ↔
      branch.deliveryFee * env.agentShareRate < (order.total - order.subtotal : ℤ) + 1 / 2 :=
        mathRound_le_iff _ _
  constructor
  · rintro ⟨credit, commission, _, total⟩
    simp only [partsOf] at credit commission total
    exact ⟨by omega, earning.1 (by omega)⟩
  · rintro ⟨nonneg, affords⟩
    have most := earning.2 affords
    have commission := MoneySums.commission_nonneg order branch nonneg inRange.lower
    have share := Ledger.commission_le order branch nonneg inRange.upper
    refine ⟨?_, commission, agentEarning_nonneg rate inRange, ?_⟩
    · show 0 ≤ order.subtotal - commissionOf order branch
      omega
    · show order.subtotal - commissionOf order branch + commissionOf order branch +
          agentEarningOf env branch ≤ order.total
      omega

/-! ## What is written -/

theorem Writes.unique {parts parts' : Parts} (writes : Writes order delivery db db' parts)
    (writes' : Writes order delivery db db' parts') : parts = parts' := by
  have credit := writes.credit.symm.trans writes'.credit
  have commission := writes.commission.symm.trans writes'.commission
  have earning := writes.earning.symm.trans writes'.earning
  obtain ⟨c, m, e⟩ := parts
  obtain ⟨c', m', e'⟩ := parts'
  simp only [Option.some.injEq] at credit commission earning
  simp only [Parts.mk.injEq]
  omega

theorem writes_of_settled {V : Database → Prop} {commission agentEarning : ℤ}
    (found : orderOf db order.id = some order) (there : deliveryOf db delivery.id = some delivery)
    (settled : Settled order branch delivery commission agentEarning V db db') :
    Writes order delivery db db' ⟨order.subtotal - commission, commission, agentEarning⟩ := by
  refine ⟨?_, ?_, fun row added => ?_, ?_, fun row added => ?_⟩
  · obtain ⟨locked, posted⟩ := settled.balances
    rw [Ledger.balanceIn_posted posted, if_pos ⟨rfl, rfl⟩]
  · obtain ⟨updatedAt, updatedAt', stamp, orders⟩ := settled.orders
    have first : ((db .orders).modify (RowKey.id order.id)
        (Order.withCommission commission updatedAt)).get (RowKey.id order.id) = _ :=
      Table.get_modify_self found rfl rfl
    rw [orderOf, orders, Table.get_modify_self first (Order.identity_withStatus _ _ _ _).1
      (Order.identity_withStatus _ _ _ _).2]
    rfl
  · obtain ⟨charges, id, now, cash, free, transactions⟩ := settled.transactions
    rw [transactions] at added
    rcases Table.added_insert added with old | rfl
    · -- the collection of the cash is no new row
      rcases cash.collected with same | ⟨id', updatedAt, same⟩
      · rw [same] at old
        exact absurd old Table.not_added_self
      · rw [same] at old
        exact absurd old Table.not_added_modify
    · exact ⟨rfl, rfl⟩
  · obtain ⟨stamp, deliveries⟩ := settled.deliveries
    have first : ((db .deliveries).modify (RowKey.id delivery.id)
        (Delivery.withStatus .delivered stamp)).get (RowKey.id delivery.id) = _ :=
      Table.get_modify_self there rfl rfl
    rw [deliveryOf, deliveries, Table.get_modify_self first rfl rfl]
    rfl
  · rcases settled.earnings with ⟨_, same⟩ | ⟨id, now, free, earnings⟩
    · rw [same] at added
      exact absurd added Table.not_added_self
    · rw [earnings] at added
      rcases Table.added_insert added with old | rfl
      · exact absurd old Table.not_added_self
      · rfl

theorem covered_iff_of_settled {V : Database → Prop} (rate : 0 ≤ env.agentShareRate)
    (inRange : InRange branch) (found : orderOf db order.id = some order)
    (there : deliveryOf db delivery.id = some delivery)
    (settled : Settled order branch delivery (commissionOf order branch)
      (agentEarningOf env branch) V db db') :
    Covered order delivery db db' ↔ Affords env branch order := by
  have written : Writes order delivery db db' (partsOf env order branch) :=
    writes_of_settled found there settled
  rw [← fits_iff rate inRange]
  constructor
  · rintro ⟨parts, writes, fits⟩
    rwa [written.unique writes]
  · exact fun fits => ⟨_, written, fits⟩

/-! ## Settlements -/

/-- A settlement that returns has settled the order with what the branch answers now. -/
theorem solo_settleDelivery (found : orderOf db delivery.orderId = some order)
    (there : deliveryOf db delivery.id = some delivery)
    (answered : core.getBranch order.branchId = .ok branch) :
    (settleDelivery env core delivery).solo freely
      (fun result _ db' _ => ∀ value, result = .ok value →
      ∃ V, Settled order branch delivery (commissionOf order branch)
        (agentEarningOf env branch) V db db') .start db x := by
  refine solo_of_undisturbed fun s isDb => ?_
  subst isDb
  refine wp_settleDelivery undisturbed_lawful (undisturbed_free _)
    (fun s s' t k rely some => ?_) trivial (by rw [there]; rfl) ?_
    fun err seen' s' _ value impossible => nomatch impossible
  · rw [← (rely.1 : s.db = s'.db)]
    exact some
  · intro result order' branch' row s' seen' db' env' _ settling
    have same : s.db = s'.db := env'.drift.1.1
    obtain rfl : order = order' := Option.some.inj (found.symm.trans settling.read)
    obtain rfl : branch = branch' := Except.ok.inj (answered.symm.trans settling.answered)
    refine after_alone (.inr trivial) trivial fun s'' (same' : db' = s''.db) _ _ => ?_
    exact ⟨_, same' ▸ same ▸ settling.settled⟩

theorem settled_of_follow (found : orderOf db delivery.orderId = some order)
    (there : deliveryOf db delivery.id = some delivery)
    (answered : core.getBranch order.branchId = .ok branch) {choices : List Choice}
    {ending : Ending (K := RowKey) RowOf Shared Err (Option Delivery)} {result : Option Delivery}
    (played : (settleDelivery env core delivery).follow choices .start db x = some ending)
    (returned : ending.result = .ok result) :
    orderOf db order.id = some order ∧
      ∃ V, Settled order branch delivery (commissionOf order branch)
        (agentEarningOf env branch) V db ending.db := by
  refine ⟨?_, solo_follow (solo_settleDelivery found there answered)
    (fun _ => trivial) played result returned⟩
  have sameKey : RowKey.id order.id = RowKey.id delivery.orderId := Table.get_key found
  rw [RowKey.id.inj sameKey]
  exact found

/-- In the runs of the code what the customer pays on top of the subtotal are the fees of the
placement. -/
theorem affords_iff_of_reach {x : Shared} {p : Region} {rated : ℕ → Prop}
    (reached : Pool.Reach (code env) (MoneySums.PricedRuns rated) (Pool.quiet Database.empty x) p)
    (member : order ∈ (p.db .orders).rows) :
    Affords env branch order ↔ branch.deliveryFee * env.agentShareRate <
      (order.deliveryFee + order.serviceFee : ℤ) + 1 / 2 := by
  have sums :=
    (MoneySums.balanced_of_reach (MoneySums.balanced_empty rated) reached).orders order member
  have fees : order.total - order.subtotal = order.deliveryFee + order.serviceFee := by
    have total := sums.total
    omega
  rw [Affords, fees]
  exact and_iff_right sums.nonneg

end

/-! ## A fee that is raised on the way -/

open ToldStatuses (Anyhow madeReady givenToAgent)

/-- A cash order is placed, made ready, given to an agent and picked up. -/
def pickedUp : List (Event Operation) :=
  madeReady ++ givenToAgent ++
  .spawn (.updateDeliveryStatus Sample.core 10 2 .accepted) :: List.replicate 4 (Sample.act 5) ++
  .spawn (.updateDeliveryStatus Sample.core 10 2 .picked) :: List.replicate 7 (Sample.act 6)

/-- The restaurant asks for a higher fee by now. -/
def dearer : Core :=
  { Sample.core with getBranch := fun _ => .ok { Sample.branch with deliveryFee := 1000 } }

def settlement (core : Core) (p : Region) (delivery : Delivery) :
    Option (Ending (K := RowKey) RowOf Shared Err (Option Delivery)) :=
  (settleDelivery Sample.env core delivery).follow (List.replicate 31 (.pick 0)) .start p.db p.side

/-- The run up to its settlement: the order, and whether the settlement has returned. -/
def settledWith (core : Core) : Option (ℕ × ℤ × ℤ × Bool) :=
  (Pool.play (code Sample.env) (fun p e => decide (Anyhow p e)) pickedUp
    (Pool.quiet Database.empty Sample.shared)).bind fun p =>
    (deliveryOf p.db 10).bind fun delivery => (orderOf p.db delivery.orderId).bind fun order =>
      (settlement core p delivery).map fun ending =>
        (order.branchId, order.subtotal, order.total, ending.result.toOption.isSome)

/-- The order of the run, settled with what the branch answers by now. -/
structure Settles (core : Core) (branch : CoreBranch) (p : Region) (order : Order)
    (delivery : Delivery) (result : Option Delivery)
    (ending : Ending (K := RowKey) RowOf Shared Err (Option Delivery)) : Prop where
  reached : Pool.Reach (code Sample.env) Anyhow (Pool.quiet Database.empty Sample.shared) p
  found : orderOf p.db delivery.orderId = some order
  there : deliveryOf p.db delivery.id = some delivery
  answered : core.getBranch order.branchId = .ok branch
  played : settlement core p delivery = some ending
  returned : ending.result = .ok result
  amounts : order.subtotal = 500 ∧ order.total = 600

theorem settles_of_ran {core : Core} {branch : CoreBranch}
    (answered : core.getBranch 6 = .ok branch) (ran : settledWith core = some (6, 500, 600, true)) :
    ∃ p order delivery result ending, Settles core branch p order delivery result ending := by
  obtain ⟨p, played, rest⟩ := Option.bind_eq_some_iff.1 ran
  obtain ⟨delivery, there, rest⟩ := Option.bind_eq_some_iff.1 rest
  obtain ⟨order, found, rest⟩ := Option.bind_eq_some_iff.1 rest
  obtain ⟨ending, settled, isEnd⟩ := Option.map_eq_some_iff.1 rest
  simp only [Prod.mk.injEq] at isEnd
  obtain ⟨isBranch, subtotal, total, ok⟩ := isEnd
  have sameKey : RowKey.id delivery.id = RowKey.id 10 := Table.get_key there
  cases returned : ending.result with
  | error err =>
    rw [returned] at ok
    cases ok
  | ok result =>
    refine ⟨p, order, delivery, result, ending,
      Pool.reach_of_play (fun _ _ => of_decide_eq_true) played, found, ?_, ?_, settled, returned,
      subtotal, total⟩
    · rw [RowKey.id.inj sameKey]
      exact there
    · rw [isBranch]
      exact answered

/-- A settlement that returns, in any state: it is covered if and only if the order affords it. -/
theorem settlement_is_covered_iff (env : Config) (core : Core) (branch : CoreBranch) (order : Order)
    (delivery : Delivery) (db : Database) (x : Shared) (rate : 0 ≤ env.agentShareRate)
    (inRange : InRange branch) (found : orderOf db delivery.orderId = some order)
    (there : deliveryOf db delivery.id = some delivery)
    (answered : core.getBranch order.branchId = .ok branch) (choices : List Choice)
    (ending : Ending (K := RowKey) RowOf Shared Err (Option Delivery)) (result : Option Delivery)
    (played : (settleDelivery env core delivery).follow choices .start db x = some ending)
    (returned : ending.result = .ok result) :
    Covered order delivery db ending.db ↔ Affords env branch order := by
  obtain ⟨isOrder, V, settled⟩ := settled_of_follow found there answered played returned
  exact covered_iff_of_settled rate inRange isOrder there settled

/-- With the fee of the placement the agent earns 80 of the 100 that the customer paid for the
delivery. -/
theorem settlement_at_the_old_fee :
    ∃ p order delivery result ending,
      Settles Sample.core Sample.branch p order delivery result ending ∧
    Covered order delivery p.db ending.db := by
  obtain ⟨p, order, delivery, result, ending, settles⟩ :=
    settles_of_ran (show Sample.core.getBranch 6 = .ok Sample.branch from rfl) (by decide +kernel)
  have rate : 0 ≤ Sample.env.agentShareRate := by decide +kernel
  have inRange : InRange Sample.branch := ⟨by decide, by decide +kernel, by decide +kernel⟩
  refine ⟨p, order, delivery, result, ending, settles, ?_⟩
  refine (settlement_is_covered_iff Sample.env Sample.core Sample.branch order delivery p.db p.side
    rate inRange settles.found settles.there
    settles.answered (List.replicate 31 (.pick 0)) ending result settles.played
    settles.returned).2 ?_
  rw [Affords, settles.amounts.1, settles.amounts.2]
  decide +kernel

/-- With the raised fee the agent earns 800. -/
theorem settlement_at_the_raised_fee :
    ∃ p order delivery result ending,
    Settles dearer { Sample.branch with deliveryFee := 1000 } p order delivery result ending ∧
      InRange { Sample.branch with deliveryFee := 1000 } ∧
      ¬ Covered order delivery p.db ending.db := by
  obtain ⟨p, order, delivery, result, ending, settles⟩ :=
    settles_of_ran (show dearer.getBranch 6 = .ok { Sample.branch with
      deliveryFee := 1000 } from rfl) (by decide +kernel)
  have rate : 0 ≤ Sample.env.agentShareRate := by decide +kernel
  have inRange : InRange { Sample.branch with deliveryFee := 1000 } :=
    ⟨by decide, by decide +kernel, by decide +kernel⟩
  refine ⟨p, order, delivery, result, ending, settles, inRange, fun covered => ?_⟩
  obtain ⟨isOrder, V, settled⟩ :=
    settled_of_follow settles.found settles.there settles.answered settles.played settles.returned
  have affords := (covered_iff_of_settled rate inRange isOrder settles.there settled).1 covered
  rw [Affords, settles.amounts.1, settles.amounts.2] at affords
  revert affords
  decide +kernel

end SwiftBite.Verified.CoveredSettlements
