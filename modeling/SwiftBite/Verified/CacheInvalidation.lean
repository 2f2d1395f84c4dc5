import SwiftBite.Verified.CachedAnswers

/-! # After an invalidation

A handler of a core event removes what is kept at a key.  If no call is under way then that could
still store an older answer there, everything that later calls return under the key has been said
by the core service since.
-/

set_option autoImplicit false

namespace SwiftBite.Verified.CachedAnswers

open Store CoreClient

/-- A call that may store an answer at the key. -/
def Stores (key : String) : Task → Prop
  | .getBranch branchId => branchKey branchId = key
  | .getBranchProducts branchId _ => ∃ productId, productKey branchId productId = key
  | .getPermissions roleName => freshKey roleName = key ∨ staleKey roleName = key
  | _ => False

/-! ## Calls that store nothing at a key -/

/-- The entry at the key stays as it is, or goes. -/
def sparing (key : String) : Bounds NoRow Empty World :=
  ⟨fun _ => True, fun _ => True, fun x x' => x'.redis key = x.redis key ∨ x'.redis key = none⟩

section

variable {key : String}

theorem harmless_cacheGet (other : String) : (cacheGet other).Harmless (sparing key) :=
  ⟨fun _ => .inl rfl, fun _ => trivial⟩

theorem harmless_cacheSet {other : String} (apart : other ≠ key) (value : CacheValue)
    (seconds : ℕ) : (cacheSet other value seconds).Harmless (sparing key) :=
  ⟨fun _ => .inl (Function.update_of_ne apart.symm _ _), fun _ => trivial⟩

theorem harmless_cacheDel (other : String) : (cacheDel other).Harmless (sparing key) := by
  refine ⟨fun x => ?_, fun _ => trivial⟩
  by_cases same : key = other
  · exact .inr (by simp [World.remove, same])
  · exact .inl (Function.update_of_ne same _ _)

theorem harmless_orFallback {α : Type} {action : Client α} (fallback : α)
    (harmless : action.Harmless (sparing key)) :
    (orFallback action fallback).Harmless (sparing key) :=
  .tryCatch harmless fun _ => trivial

theorem harmless_coreClientGet {α : Type} (ask : CoreService → Except Err α)
    (facts : Except Err α → List Fact) : (coreClientGet ask facts).Harmless (sparing key) :=
  ⟨fun _ => .inl rfl, fun _ => trivial⟩

theorem harmless_keep {other : String} (apart : other ≠ key) (value : CacheValue) (seconds : ℕ) :
    (orFallback (cacheSet other value seconds) ()).Harmless (sparing key) :=
  harmless_orFallback () (harmless_cacheSet apart value seconds)

theorem harmless_getBranch {branchId : ℕ} (apart : branchKey branchId ≠ key) :
    (CoreClient.getBranch branchId).Harmless (sparing key) := by
  refine .bind (harmless_cacheGet _) fun cached => ?_
  rcases cached with _ | _ | _ | _ | _
  case none =>
    exact .bind (harmless_coreClientGet _ _) fun branch =>
      .bind (harmless_keep apart _ _) fun _ => trivial
  all_goals trivial

theorem harmless_lookupProducts (branchId : ℕ) (productIds : List ℕ)
    (results : List CoreBranchProduct) (missingIds : List ℕ) :
    (lookupProducts branchId productIds results missingIds).Harmless (sparing key) := by
  induction productIds generalizing results missingIds with
  | nil => trivial
  | cons productId productIds inductionHypothesis =>
    refine .bind (harmless_cacheGet _) fun cached => ?_
    rcases cached with _ | _ | _ | _ | _
    case none | some.product => exact inductionHypothesis _ _
    all_goals trivial

theorem harmless_storeProducts {branchId : ℕ}
    (apart : ∀ productId, productKey branchId productId ≠ key)
    (fetched results : List CoreBranchProduct) :
    (storeProducts branchId fetched results).Harmless (sparing key) := by
  induction fetched generalizing results with
  | nil => trivial
  | cons product fetched inductionHypothesis =>
    exact .bind (harmless_keep (apart _) _ _) fun _ => inductionHypothesis _

theorem harmless_getBranchProducts {branchId : ℕ}
    (apart : ∀ productId, productKey branchId productId ≠ key) (productIds : List ℕ) :
    (CoreClient.getBranchProducts branchId productIds).Harmless (sparing key) := by
  unfold CoreClient.getBranchProducts
  split
  · trivial
  · refine .bind (harmless_lookupProducts branchId productIds [] []) fun found => ?_
    show (if found.2 = [] then pure found.1
      else fetchProducts branchId found.2 >>= fun fetched =>
        storeProducts branchId fetched found.1 : Client _).Harmless (sparing key)
    split
    · trivial
    · exact .bind (harmless_coreClientGet _ _) fun fetched => harmless_storeProducts apart fetched _

theorem harmless_getPermissions {roleName : String} (fresh : freshKey roleName ≠ key)
    (stale : staleKey roleName ≠ key) :
    (CoreClient.getPermissions roleName).Harmless (sparing key) := by
  have fetches : (fetchPermissions roleName).Harmless (sparing key) :=
    .bind (harmless_coreClientGet _ _) fun permissions => .bind (harmless_keep fresh _ _) fun _ =>
      .bind (harmless_keep stale _ _) fun _ => trivial
  refine .bind (harmless_orFallback _ (harmless_cacheGet _)) fun cached => ?_
  rcases cached with _ | _ | _ | _ | _
  case none =>
    refine .tryCatch fetches fun err =>
      .bind (harmless_orFallback _ (harmless_cacheGet _)) fun older => ?_
    rcases older with _ | _ | _ | _ | _ <;> trivial
  all_goals trivial

theorem harmless_clocked {α : Type} {call : Client α} (harmless : call.Harmless (sparing key)) :
    (clocked call).Harmless (sparing key) :=
  .bind ⟨fun _ => .inl rfl, fun _ => trivial⟩ fun _ =>
    .bind (.tryCatch (.map harmless) fun _ => trivial) fun _ => trivial

theorem harmless_run (unflagged : ∀ branchId, key ≠ rejectOrdersKey branchId) {task : Task}
    (apart : ¬ Stores key task) : task.run.Harmless (sparing key) := by
  cases task with
  | getBranch branchId => exact .map (harmless_clocked (harmless_getBranch apart))
  | getBranchProducts branchId productIds =>
    exact .map (harmless_clocked
      (harmless_getBranchProducts (fun productId same => apart ⟨productId, same⟩) productIds))
  | getPermissions roleName =>
    exact .map (harmless_clocked
      (harmless_getPermissions (fun same => apart (.inl same)) fun same => apart (.inr same)))
  | branchUpdated branchId isActive =>
    refine .map (.bind (harmless_cacheDel _) fun _ => ?_)
    show (if isActive = some true then cacheDel (rejectOrdersKey branchId)
        else pure () : Client Unit).Harmless (sparing key)
    split
    · exact harmless_cacheDel _
    · trivial
  | branchDeactivated branchId =>
    exact .map (.bind (harmless_cacheDel _) fun _ =>
      harmless_cacheSet (unflagged branchId).symm _ _)
  | productStockChanged | productPriceChanged | restaurantSuspended =>
    exact .map (harmless_cacheDel _)
  | wait | coreChanges => exact ⟨fun _ => .inl rfl, fun _ => trivial⟩

/-! ## From the moment on -/

/-- The moment at which nothing is left at the key. -/
def emptied (key : String) (unflagged : ∀ branchId, key ≠ rejectOrdersKey branchId)
    (record : List (ℕ × Fact)) : Moment :=
  ⟨fun _ => True, record, fun other => other = key,
    fun branchId same => unflagged branchId same.symm⟩

variable {unflagged : ∀ branchId, key ≠ rejectOrdersKey branchId} {record : List (ℕ × Fact)}
  {x x' : World}

theorem coherent_anything (ok : Coherent (emptied key unflagged record) x) : Coherent anything x :=
  ⟨ok.entries, ok.stored, ok.told, trivial, List.nil_suffix, fun _ _ impossible => impossible.elim⟩

theorem coherent_emptied (ok : Coherent anything x) (removed : x.redis key = none) :
    Coherent (emptied key unflagged x.told) x where
  entries := ok.entries
  stored := ok.stored
  told := ok.told
  core := trivial
  record := List.suffix_refl _
  emptied := by
    intro other entry same found
    change other = key at same
    rw [same, removed] at found
    cases found

theorem coherent_spared (ok : Coherent (emptied key unflagged record) x)
    (ok' : Coherent anything x') (later : Later x x') (spared : (sparing key).moves x x') :
    Coherent (emptied key unflagged record) x' where
  entries := ok'.entries
  stored := ok'.stored
  told := ok'.told
  core := trivial
  record := ok.record.trans later.told
  emptied := by
    intro other entry isKey found
    change other = key at isKey
    rw [isKey] at found ⊢
    rcases spared with same | gone
    · rw [same] at found
      obtain ⟨fact, said, ttl, anew, keeps⟩ := ok.emptied key entry rfl found
      exact ⟨fact, said, ttl, anew.later later, keeps⟩
    · rw [gone] at found
      cases found

/-- What later calls may end with; of the calls before nothing is asked. -/
def LaterReturns (m : Moment) (before : ℕ) (i : ℕ) (task : Task) (result : Except Err Answer)
    (x : World) : Prop :=
  before ≤ i → Returns m task result x

variable (unflagged) in
theorem ready_emptied {p : Calls}
    (ready : (growth anything).Ready (fun _ task => Returns anything task) p)
    (removed : p.side.redis key = none)
    (harmless : ∀ call ∈ p.calls, call.prog.Harmless (sparing key)) :
    (growth (emptied key unflagged p.side.told)).Ready
      (LaterReturns (emptied key unflagged p.side.told) p.calls.length) p := by
  refine ⟨coherent_emptied ready.ok removed, fun i call found x later ok => ?_⟩
  -- The calls of `p` come before the end of its list.
  obtain ⟨bound, _⟩ := List.getElem?_eq_some_iff.1 found
  have holds : (growth anything).wp
      (LaterReturns (emptied key unflagged p.side.told) p.calls.length i call.op) call.prog x :=
    Growth.wp_mono (fun _ _ _ far => absurd far (Nat.not_le.2 bound))
      (ready.calls i call found x later (coherent_anything ok))
  exact Growth.wp_restrict (G := growth anything) (H := growth (emptied key unflagged p.side.told))
    (fun _ => coherent_anything) (fun _ _ => id)
    (fun _ _ ok ok' later spared => ⟨coherent_spared ok ok' later spared, later⟩)
    (harmless call (List.mem_of_getElem? found)) ok holds

end

/-- What an answer says under the key has been said since. -/
def Since (record : List (ℕ × Fact)) (key : String) : Task → Answer → World → Prop
  | .getBranch branchId, .branch _ (.ok branch), x =>
    branchKey branchId = key → ∃ said, Anew record x said (.branch branchId branch)
  | .getBranchProducts branchId _, .products _ (.ok products), x =>
    ∀ product ∈ products, productKey branchId product.productId = key →
    ∃ said, Anew record x said (.product branchId product)
  | _, _, _ => True

/-- Where a key is empty, and every call under way stores nothing there, no later call returns under
that key what was said before, however the calls, the handlers, faults and crashes interleave. -/
theorem nothing_from_before {db : Db NoRow} {now : ℕ} {core : CoreService} {p p' : Calls}
    (reached : Pool.Reach Task.run (Permits anything) (Pool.quiet db (.start now core)) p)
    {key : String} (unflagged : ∀ branchId, key ≠ rejectOrdersKey branchId)
    (removed : p.side.redis key = none)
    (alone : ∀ call ∈ p.calls, Pool.Ended call = false → ¬ Stores key call.op)
    (later : Pool.Reach Task.run (Permits anything) p p') {i : ℕ}
    {call : Call (K := Empty) NoRow World Err Task Answer} {answer : Answer}
    (after : p.calls.length ≤ i) (found : p'.calls[i]? = some call)
    (ended : call.prog = .done (.ok answer)) : Since p.side.told key call.op answer p'.side := by
  have ready : (growth anything).Ready (fun _ task => Returns anything task) p :=
    ready_of_start rfl trivial reached
  have harmless : ∀ call ∈ p.calls, call.prog.Harmless (sparing key) := by
    have others := Growth.harmless_of_reach (b := sparing key) (fun _ => trivial)
      (fun task apart => harmless_run unflagged apart)
      (fun call none => absurd none List.not_mem_nil) reached
    intro call member
    cases isEnded : Pool.Ended call with
    | false => exact others call member (alone call member isEnded)
    | true =>
      -- Nothing is left of a call that has ended.
      obtain ⟨op, prog, l⟩ := call
      cases prog with
      | done => trivial
      | stmt | side | begin | commit | rollback => cases isEnded
  have since := (Growth.ready_of_reach (fun _ i task permitted far x ok => ?_) ?_
    (ready_emptied unflagged ready removed harmless) later).1
  · have honest := since.result found ended after answer rfl
    generalize call.op = task at honest ⊢
    cases task with
    | getBranch branchId =>
      rcases answer with _ | ⟨began, _ | branch⟩ | _ | _
      case branch.ok => exact (honest branch rfl).2
      all_goals trivial
    | getBranchProducts branchId productIds =>
      rcases answer with _ | _ | ⟨began, _ | products⟩ | _
      case products.ok => exact fun product member => ((honest products rfl).1 product member).2
      all_goals trivial
    | _ => trivial
  · exact Growth.wp_mono (fun result x returns _ => returns) (wp_run (permitted task rfl) ok)
  · rintro _ _ _ - _ ⟨⟩

/-- The fee of a branch changes and the event of it is handled, while a call about another branch is
under way. -/
def changing : List (Event Task) :=
  .spawn (.getBranch 7) :: List.replicate 4 (act 0) ++ [.spawn (.coreChanges
    ⟨fun _ => .ok { Sample.branch with deliveryFee := 900 }, fun _ _ => .ok [], fun _ => .ok []⟩),
    act 1, .spawn (.getBranch 8), act 2, act 2, .spawn (.branchUpdated 7 none), act 3]

def changed : List (Event Task) :=
  .spawn (.getBranch 7) :: List.replicate 4 (act 4) ++ [act 2, act 2]

/-- No call that is under way reads the branch. -/
def elsewhere (branchId : ℕ) (p : Calls) : Bool :=
  p.calls.all fun call => Pool.Ended call || match call.op with
    | .getBranch other => decide (other ≠ branchId)
    | _ => false

theorem alone_of_elsewhere {branchId : ℕ} {p : Calls} (checked : elsewhere branchId p = true)
    {call : Call (K := Empty) NoRow World Err Task Answer} (member : call ∈ p.calls)
    (running : Pool.Ended call = false) : ¬ Stores (branchKey branchId) call.op := by
  have both := List.all_eq_true.1 checked call member
  rw [running, Bool.false_or] at both
  split at both
  next other isTask =>
    rw [isTask]
    exact fun same => of_decide_eq_true both (branchKey_inj same)
  next => cases both

theorem new_fee :
    ∃ (p p' : Calls) (branch : CoreBranch), p.side.redis (branchKey 7) = none ∧
    branch.deliveryFee = 900 ∧
    ∃ said, Anew p.side.told p'.side said (.branch 7 branch) := by
  have first : (Pool.play Task.run (fun _ e => unnamed e) changing
      (Pool.quiet tableless (.start 1000 (listed menu)))).map
      (fun p => ((p.side.redis (branchKey 7)).isNone, elsewhere 7 p, p.calls.length)) =
      some (true, true, 4) := by decide +kernel
  have second : ((Pool.play Task.run (fun _ e => unnamed e) changing
      (Pool.quiet tableless (.start 1000 (listed menu)))).bind fun p =>
      (Pool.play Task.run (fun _ e => unnamed e) changed p).bind fun p' =>
        (ends p' 4).bind feeEnd) = some (7, 900) := by decide +kernel
  obtain ⟨p, played, viewed⟩ := Option.map_eq_some_iff.1 first
  rw [played, Option.bind_some] at second
  obtain ⟨p', played', isEnd⟩ := Option.bind_eq_some_iff.1 second
  obtain ⟨reply, ended, isFee⟩ := Option.bind_eq_some_iff.1 isEnd
  obtain ⟨began, branch, rfl, fee⟩ := branch_of_feeEnd isFee
  obtain ⟨call, found, isCall, isDone⟩ := call_of_ends ended
  simp only [Prod.mk.injEq, Option.isNone_iff_eq_none] at viewed
  obtain ⟨removed, alone, length⟩ := viewed
  have unflagged : ∀ branchId, branchKey 7 ≠ rejectOrdersKey branchId :=
    unflagged_of_keeps (.branch 7 branch)
  have since := nothing_from_before (Pool.reach_of_play permits_of_unnamed played) unflagged removed
    (fun call => alone_of_elsewhere alone) (Pool.reach_of_play permits_of_unnamed played')
    length.le found isDone
  rw [isCall] at since
  exact ⟨p, p', branch, removed, fee, since rfl⟩

end SwiftBite.Verified.CachedAnswers
