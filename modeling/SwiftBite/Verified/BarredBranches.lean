import SwiftBite.Messaging.BranchEvents
import SwiftBite.Store.Serial
import SwiftBite.Verified.Placement

/-! # Orders for deactivated branches

The flag that a deactivation sets is read by no one.  A placement is turned away only when the
record of its branch, cached or not, says that it takes no orders.
-/

set_option autoImplicit false

namespace SwiftBite.Verified.BarredBranches

open Store OrderService BranchEvents

variable {env : Config} {s s' : State}

/-- The error with which the call has ended. -/
def threw (call : Call (K := RowKey) RowOf Shared Err Operation Reply) : Option Err :=
  match call.prog with
  | .done (.error err) => some err
  | _ => none

/-- The placements for a branch whose flag was set have thrown, without a single statement. -/
def TurnedAway (s : State) : Prop :=
  ∀ i ∈ s.barred, ∃ call, s.region.calls[i]? = some call ∧
  threw call = some .BranchNotAcceptingOrdersError ∧ call.loc = .start

/-- The record that a placement for a flagged branch gets says that the branch takes no orders. -/
def Declines (s : State) : BranchEvents.Event → Prop
  | .region (.spawn (.placeOrder core _ data)) => s.rejecting data.branchId = true →
      ∃ branch, getBranch s.cached core data.branchId = .ok branch ∧
      (branch.acceptOrders = false ∨ branch.restaurantActive = false)
  | _ => True

/-- Who has ended with an error has no step to take, so nothing is ever written. -/
theorem no_step {call : Call (K := RowKey) RowOf Shared Err Operation Reply} {err : Err}
    (isThrown : threw call = some err) : Pool.Ended call = true := by
  obtain ⟨op, prog, l⟩ := call
  cases prog with
  | done result => rfl
  | _ => cases isThrown

theorem placeOrder_declined {core : Core} {customerId : ℕ} {data : CreateOrderRequest}
    {branch : CoreBranch} (answered : core.getBranch data.branchId = .ok branch)
    (declines : branch.acceptOrders = false ∨ branch.restaurantActive = false) :
    placeOrder core customerId data = throw .BranchNotAcceptingOrdersError := by
  rw [placeOrder, answered]
  exact throwIf_bind declines

theorem threw_of_declined {core : Core} {customerId : ℕ} {data : CreateOrderRequest}
    {branch : CoreBranch} (answered : core.getBranch data.branchId = .ok branch)
    (declines : branch.acceptOrders = false ∨ branch.restaurantActive = false) :
    threw ⟨.placeOrder core customerId data,
      Operation.run env (.placeOrder core customerId data), .start⟩ =
      some .BranchNotAcceptingOrdersError := by
  have isThrow : Operation.run env (.placeOrder core customerId data) =
      throw .BranchNotAcceptingOrdersError := by
    rw [Operation.run, placeOrder_declined answered declines]
    rfl
  rw [threw, isThrow]
  rfl

/-- The calls that have ended stay as they are. -/
theorem turnedAway_of_region (holds : TurnedAway s) {e : Store.Event Operation} {region : Region}
    (moves : s.region.next (Operation.run env) e = some region) :
    TurnedAway { s with region := region } := by
  intro i isBarred
  obtain ⟨call, found, isThrown, atStart⟩ := holds i isBarred
  exact ⟨call, Pool.found_of_ended moves found (no_step isThrown), isThrown, atStart⟩

theorem turnedAway_next (holds : TurnedAway s) {e : BranchEvents.Event} (declines : Declines s e)
    (moves : next env s e = some s') : TurnedAway s' := by
  cases e with
  | branchUpdated branchId isActive =>
    cases moves
    exact holds
  | branchDeactivated branchId =>
    cases moves
    exact holds
  | expireFlag branchId =>
    cases moves
    exact holds
  | expireBranch branchId =>
    cases moves
    exact holds
  | cacheBranch branchId branch =>
    cases moves
    exact holds
  | region e =>
    obtain ⟨region, stepped, rfl⟩ := Option.map_eq_some_iff.1 moves
    have kept := turnedAway_of_region holds stepped
    by_cases isBarred : bars s e = true
    · simp only [isBarred, if_true]
      intro i member
      rcases List.mem_cons.1 member with rfl | earlier
      · -- the call that starts: the condition speaks of it
        cases e with
        | spawn op =>
          cases op with
          | placeOrder core customerId data =>
            obtain ⟨branch, answered, declined⟩ := declines isBarred
            cases stepped
            have toldSo : ({ core with getBranch := getBranch s.cached core } : Core).getBranch
                data.branchId = .ok branch := answered
            exact ⟨_, List.getElem?_concat_length, threw_of_declined toldSo declined, rfl⟩
          | _ => cases isBarred
        | step i choice => cases isBarred
        | crash i => cases isBarred
      · exact kept i earlier
    · simp only [isBarred]
      exact kept

/-- In every run, whatever the caches and the core service answer. -/
theorem flagged_branch_takes_no_orders (env : Config) (cached : ℕ → Option CoreBranch)
    (rejecting : ℕ → Bool) (db : Database) (x : Shared) (s : State)
    (reached : Reach env Declines (.start cached rejecting db x) s) : TurnedAway s := by
  induction reached with
  | refl => exact fun i member => absurd member List.not_mem_nil
  | step _ declines moves holds => exact turnedAway_next holds declines moves

/-! ## A branch is deactivated -/

def deactivated : State :=
  .start (fun _ => none) (Function.update (fun _ => false) 6 true) Database.empty Sample.shared

/-- The core service says so too. -/
def closed : Core :=
  { Sample.core with getBranch := fun _ => .ok { Sample.branch with acceptOrders := false } }

def afterPlacement (core : Core) : State :=
  { deactivated with
    region := ⟨Database.empty, Sample.shared, [⟨.placeOrder { core with
      getBranch := getBranch (fun _ => none) core } 7 ⟨6, 8, .cod, [⟨1, 1⟩]⟩,
      Operation.run Sample.env (.placeOrder { core with
        getBranch := getBranch (fun _ => none) core } 7 ⟨6, 8, .cod, [⟨1, 1⟩]⟩), .start⟩]⟩
    barred := [0] }

theorem order_for_closed_branch_is_turned_away : TurnedAway (afterPlacement closed) :=
  flagged_branch_takes_no_orders Sample.env (fun _ => none)
    (Function.update (fun _ => false) 6 true) Database.empty Sample.shared _
    (.step .refl (e := .region (.spawn (.placeOrder closed 7 ⟨6, 8, .cod, [⟨1, 1⟩]⟩)))
    (fun _ => ⟨_, rfl, .inl rfl⟩) rfl)

/-- The branch is deactivated, and its record says nothing about it. -/
def placedWhileFlagged : List BranchEvents.Event :=
  .branchDeactivated 6 :: .region (.spawn (.placeOrder Sample.core 7 ⟨6, 8, .cod, [⟨1, 1⟩]⟩)) ::
    List.replicate 13 (.region (Sample.act 0))

theorem flagged_branch_takes_an_order :
    ¬ ∀ s, Reach Sample.env (fun _ _ => True)
      (.start (fun _ => none) (fun _ => false) Database.empty Sample.shared) s →
    TurnedAway s := by
  intro always
  have ends : (Machine.play (next Sample.env) (fun _ _ => true) placedWhileFlagged
      (.start (fun _ => none) (fun _ => false) Database.empty Sample.shared)).map
      (fun s => (s.rejecting 6, s.barred, (s.region.calls[0]?.bind threw),
      (s.region.db .orders).rows.map Order.branchId)) =
        some (true, [0], none, [6]) := by decide +kernel
  obtain ⟨s, played, isEnd⟩ := Option.map_eq_some_iff.1 ends
  simp only [Prod.mk.injEq] at isEnd
  obtain ⟨call, found, isThrown, _⟩ :=
    always s (Machine.reach_of_play (fun _ _ _ => trivial) played) 0 (by simp [isEnd.2.1])
  have notThrown := isEnd.2.2.1
  rw [found, Option.bind_some, isThrown] at notThrown
  cases notThrown

end SwiftBite.Verified.BarredBranches
