import SwiftBite.Service.Operations
import SwiftBite.Store.Machine

/-! # Core events about branches

`handleBranchUpdated`, `handleBranchDeactivated`, and the cache through which the placement of
an order reads its branch.
-/

set_option autoImplicit false

namespace SwiftBite.BranchEvents

open Store

/-- `getBranch`: the record in the cache, else the answer of the core service. -/
def getBranch (cached : ℕ → Option CoreBranch) (core : Core)
    (branchId : ℕ) : Except Err CoreBranch :=
  match cached branchId with
  | some branch => .ok branch
  | none => core.getBranch branchId

/-- A placement reads the branch through the cache. -/
def arrives (cached : ℕ → Option CoreBranch) : Operation → Operation
  | .placeOrder core customerId data =>
    .placeOrder { core with getBranch := getBranch cached core } customerId data
  | op => op

structure State where
  /-- `core:branch:<branchId>` -/
  cached : ℕ → Option CoreBranch
  /-- `branch:reject-orders:<branchId>` is set. -/
  rejecting : ℕ → Bool
  region : Region
  /-- The calls that were to place an order for a branch whose flag was set. -/
  barred : List ℕ

def State.start (cached : ℕ → Option CoreBranch) (rejecting : ℕ → Bool) (db : Database)
    (x : Shared) : State :=
  ⟨cached, rejecting, Pool.quiet db x, []⟩

inductive Event where
  | branchUpdated (branchId : ℕ) (isActive : Option Bool)
  | branchDeactivated (branchId : ℕ)
  /-- `REJECT_ORDERS_TTL_SECONDS` are over. -/
  | expireFlag (branchId : ℕ)
  /-- `BRANCH_TTL_SECONDS` are over. -/
  | expireBranch (branchId : ℕ)
  /-- Some call puts the answer of the core service into the cache. -/
  | cacheBranch (branchId : ℕ) (branch : CoreBranch)
  | region (e : Store.Event Operation)

/-- The call that starts is barred by a flag. -/
def bars (s : State) : Store.Event Operation → Bool
  | .spawn (.placeOrder _ _ data) => s.rejecting data.branchId
  | _ => false

def regionEvent (s : State) : Store.Event Operation → Store.Event Operation
  | .spawn op => .spawn (arrives s.cached op)
  | e => e

def next (env : Config) (s : State) : Event → Option State
  | .branchUpdated branchId isActive =>
    some { s with
      cached := Function.update s.cached branchId none
      rejecting :=
        if isActive = some true then Function.update s.rejecting branchId false
        else s.rejecting }
  | .branchDeactivated branchId =>
    some { s with
      cached := Function.update s.cached branchId none
      rejecting := Function.update s.rejecting branchId true }
  | .expireFlag branchId => some { s with rejecting := Function.update s.rejecting branchId false }
  | .expireBranch branchId => some { s with cached := Function.update s.cached branchId none }
  | .cacheBranch branchId branch =>
    some { s with cached := Function.update s.cached branchId (some branch) }
  | .region e =>
    (s.region.next (Operation.run env) (regionEvent s e)).map fun region =>
      { s with
        region := region,
        barred := if bars s e then s.region.calls.length :: s.barred else s.barred }

/-- The states reached by events that all meet a condition. -/
abbrev Reach (env : Config) (condition : State → Event → Prop) (start : State) : State → Prop :=
  Machine.Reach (next env) condition start

end SwiftBite.BranchEvents
