import SwiftBite.Verified.ArchivalLoss
import SwiftBite.Verified.ToldStatuses

/-! # The orders that are taken away

An execution looks at the age of an order and at nothing else: what it deletes is of an earlier
year, finished or not.
-/

set_option autoImplicit false

namespace SwiftBite.Verified.ArchivedOrders

open Store Archival ArchivalRows ArchivalPasses Calendar

/-- Nobody acts on the order any more. -/
structure Finished (site : Site) (order : Order) : Prop where
  status : order.status ∈ [OrderStatus.delivered, .cancelled, .rejected]
  deliveries : ∀ d ∈ (site.hot .deliveries).rows ++ (site.archive .deliveries).rows,
    Delivery.orderId d = order.id → d.status.active = false
  transactions : ∀ t ∈ (site.hot .transactions).rows ++ (site.archive .transactions).rows,
    Transaction.orderId t = some order.id →
    t.status ≠ .pending

/-- Every order that an execution deletes meets the condition when it is deleted. -/
def TakesOnly (condition : Site → Order → Prop) (host : Host) (allowed : World → Event → Prop)
    (start : World) : Prop :=
  ∀ w w' i outcome, Archival.Reach host allowed start w → w.next host (.step i outcome) = some w' →
    ∀ order ∈ (w.hot .orders).rows, order ∉ (w'.hot .orders).rows → condition w.toSite order

/-- The order was placed before the year began. -/
def OfEarlierYear (site : Site) (order : Order) : Prop := yearOf order.createdAt < yearOf site.now

/-- A service leaves it as it is when an order was placed, and gives no new order the id of one that
is about to be deleted. -/
def KeepsPlacement (w : World) : Event → Prop
  | .live writes => ∀ order ∈ (w.hot.applyAll writes .orders).rows,
      (∃ old ∈ (w.hot .orders).rows, Order.id old = Order.id order ∧
        Order.createdAt old = Order.createdAt order) ∨
        ∀ run ∈ w.runs, ¬ Doomed run.place .orders (Order.id order)
  | _ => True

/-- What the executions go by is behind them. -/
structure Aged (w : World) : Prop where
  cutoff : ∀ run ∈ w.runs, ∀ pass, passOf run.place = some pass → pass.cutoff ≤ cutoffIso w.now
  doomed : ∀ run ∈ w.runs, ∀ order ∈ (w.hot .orders).rows,
    Doomed run.place .orders (Order.id order) →
    Order.createdAt order < cutoffIso w.now

section

variable {host : Host} {w w' w₀ : World} {e : Event} {site site' : Site} {run run' : Run}
  {outcome : Outcome}

theorem cutoffIso_mono {time time' : ℕ} (later : time ≤ time') : cutoffIso time ≤ cutoffIso time' :=
  yearStart_mono (yearOf_mono later)

/-- A pass keeps its cutoff, or has just begun. -/
theorem cutoff_of_next (steps : run.next host site outcome = some (site', run')) {pass' : Pass}
    (isPass : passOf run'.place = some pass') :
    pass'.cutoff = cutoffIso site.now ∨ ∃ pass, passOf run.place = some pass ∧
    pass'.cutoff = pass.cutoff := by
  cases step_of_next steps with
  | enters =>
    cases isPass
    exact .inl rfl
  | goesOn isPlace | fetchesRows isPlace | fetchesIds isPlace | inserts isPlace | deletes isPlace
  | renewsNow isPlace | renews isPlace =>
    cases isPass
    exact .inr ⟨_, congrArg passOf isPlace, rfl⟩
  | @renewsLater pass isLast isPlace | @renewed pass isLast isPlace =>
    cases isLast <;> simp [passOf] at isPass
    exact .inr ⟨pass, congrArg passOf isPlace, by rw [isPass]⟩
  | breaksOff | noneToInsert | noneToDelete => simp [passOf] at isPass
  | @behind kind | @breaks kind => cases kind <;> cases isPass
  | _ => cases isPass

theorem now_of_effect (effect : Effect host run site site') : site'.now = site.now := by
  cases effect with
  | quiet _ _ now => exact now
  | inserts pass rows table _ _ isSite => rw [isSite]; rfl
  | deletes pass ids _ isSite => rw [isSite]; rfl

/-- What is about to be deleted was eligible when it was selected. -/
theorem doomed_of_next (steps : run.next host site outcome = some (site', run')) {order : Order}
    (member : order ∈ (site.hot .orders).rows) (doomed : Doomed run'.place .orders order.id) :
    ∃ pass, passOf run.place = some pass ∧ order.createdAt < pass.cutoff := by
  obtain ⟨pass, isPlace, _, ⟨_, isNext⟩ | ⟨_, isNext⟩⟩ | ⟨_, notDelete⟩ := batch_of_next steps
  · rw [isNext] at doomed
    exact doomed.elim
  · refine ⟨pass, by rw [isPlace]; rfl, ?_⟩
    rw [isNext] at doomed
    obtain ⟨ofOrders, among⟩ := doomed
    rw [← ofOrders] at among
    obtain ⟨row, inTable, isEligible, sameId⟩ := mem_deleteBatch among
    obtain rfl : row = order := Table.eq_of_key inTable member (congrArg RowKey.id sameId)
    exact of_decide_eq_true isEligible
  · cases isPlace : run'.place with
    | delete pass ids => exact absurd isPlace (notDelete pass ids)
    | _ =>
      rw [isPlace] at doomed
      exact doomed.elim

theorem aged_next (aged : Aged w) (keeps : KeepsPlacement w e)
    (steps : w.next host e = some w') : Aged w' := by
  cases e with
  | tick microseconds =>
    cases steps
    -- The cutoff of a later time is no earlier.
    have later : cutoffIso w.now ≤ cutoffIso (w.now + microseconds) :=
      cutoffIso_mono (Nat.le_add_right ..)
    exact ⟨fun run member pass isPass => (aged.cutoff run member pass isPass).trans later,
      fun run member order inHot doomed =>
        (aged.doomed run member order inHot doomed).trans_le later⟩
  | start =>
    cases steps
    refine ⟨fun run member pass isPass => ?_, fun run member order inHot doomed => ?_⟩
    · rcases List.mem_append.1 member with old | new
      · exact aged.cutoff run old pass isPass
      · rw [List.mem_singleton.1 new] at isPass
        cases isPass
    · rcases List.mem_append.1 member with old | new
      · exact aged.doomed run old order inHot doomed
      · rw [List.mem_singleton.1 new] at doomed
        exact doomed.elim
  | crash i =>
    obtain ⟨run, _, rfl⟩ := Option.map_eq_some_iff.1 steps
    refine ⟨fun run' member pass isPass => ?_, fun run' member order inHot doomed => ?_⟩
    · rcases List.mem_or_eq_of_mem_set member with old | rfl
      · exact aged.cutoff run' old pass isPass
      · cases isPass
    · rcases List.mem_or_eq_of_mem_set member with old | rfl
      · exact aged.doomed run' old order inHot doomed
      · exact doomed.elim
  | live writes =>
    cases steps
    refine ⟨aged.cutoff, fun run member order inHot doomed => ?_⟩
    -- A commit keeps id and time of the orders, and no new order takes an id up for deletion.
    rcases keeps order inHot with ⟨old, wasThere, sameId, sameTime⟩ | apart
    · rw [← sameId] at doomed
      rw [← sameTime]
      exact aged.doomed run member old wasThere doomed
    · exact absurd doomed (apart run member)
  | step i outcome =>
    obtain ⟨run, run', found, acts, isNext⟩ := effect_step steps
    have member := List.mem_of_getElem? found
    have effect := effect_next acts
    have sameTime : w'.now = w.now := now_of_effect effect
    have shrinks := effect.shrinks
    rw [isNext]
    refine ⟨fun run'' member' pass isPass => ?_, fun run'' member' order inHot doomed => ?_⟩ <;>
      rw [show _ = w.now from sameTime]
    · rcases List.mem_or_eq_of_mem_set member' with old | rfl
      · exact aged.cutoff run'' old pass isPass
      · rcases cutoff_of_next acts isPass with begins | ⟨pass', isPass', same⟩
        · exact begins.le
        · exact same.trans_le (aged.cutoff run member pass' isPass')
    · have wasThere := shrinks.hot .orders order inHot
      rcases List.mem_or_eq_of_mem_set member' with old | rfl
      · exact aged.doomed run'' old order wasThere doomed
      · obtain ⟨pass, isPass, earlier⟩ := doomed_of_next acts wasThere doomed
        exact earlier.trans_le (aged.cutoff run member pass isPass)

end

/-- Whatever is in hot, and whenever the executions run. -/
theorem archival_takes_only_orders_of_earlier_years (host : Host) (hot archive : Database) (now : ℕ)
    (lock : Option Archival.Lock) :
    TakesOnly OfEarlierYear host KeepsPlacement ⟨⟨hot, archive, now, lock⟩, []⟩ := by
  intro w w' i outcome reached steps order member gone
  have begins : Aged ⟨⟨hot, archive, now, lock⟩, []⟩ :=
    ⟨fun _ none => absurd none List.not_mem_nil, fun _ none => absurd none List.not_mem_nil⟩
  have aged : Aged w := reached.invariant begins fun _ _ _ => aged_next
  obtain ⟨run, run', found, acts, _⟩ := effect_step steps
  cases effect_next acts with
  | quiet hot =>
    rw [hot] at gone
    exact absurd member gone
  | inserts pass rows table _ _ isSite =>
    rw [isSite] at gone
    exact absurd member gone
  | deletes pass ids isPlace isSite =>
    rw [isSite] at gone
    by_cases ofOrders : pass.table = .orders
    · refine lt_yearStart_iff.1 (aged.doomed run (List.mem_of_getElem? found) order member ?_)
      rw [isPlace]
      refine ⟨ofOrders.symm, ?_⟩
      by_contra spared
      rw [Site.deleteFrom, ofOrders] at gone
      simp only [Function.update_self] at gone
      exact gone (Table.mem_delete.2 ⟨member, decide_eq_false spared⟩)
    · exact absurd (by simpa [Site.deleteFrom, Ne.symm ofOrders] using member) gone

/-! ## An order that is on its way -/

/-- The region a minute into the next year. -/
def nextYear (hot : Database) : World := ⟨⟨hot, Database.empty, 31536060000000, none⟩, []⟩

/-- An execution, up to the deletion of the orders. -/
def upToTheOrders : List Archival.Event := .start :: List.replicate 59 (.step 0 .done)

/-- A cash order is given to an agent, who has not accepted it when the year ends. -/
theorem archival_takes_an_order_that_is_on_its_way :
    ∃ p : Region,
    Pool.Reach (code Sample.env) ToldStatuses.Anyhow (Pool.quiet Database.empty Sample.shared) p ∧
      ¬ TakesOnly Finished ArchivalLoss.host (fun _ e => ArchivalLoss.Unwritten e)
        (nextYear p.db) := by
  have ran : (Pool.play (code Sample.env) (fun p e => decide (ToldStatuses.Anyhow p e))
      (ToldStatuses.madeReady ++ ToldStatuses.givenToAgent)
      (Pool.quiet Database.empty Sample.shared)).bind (fun p =>
        (Machine.play (World.next ArchivalLoss.host) (fun _ e => decide (ArchivalLoss.Unwritten e))
          upToTheOrders (nextYear p.db)).bind fun w =>
          (w.next ArchivalLoss.host (.step 0 .done)).map fun w' =>
            ((w.hot .orders).rows.map Order.status, (w'.hot .orders).rows.length)) =
              some ([.assigned], 0) := by decide +kernel
  obtain ⟨p, played, rest⟩ := Option.bind_eq_some_iff.1 ran
  obtain ⟨w, executed, rest⟩ := Option.bind_eq_some_iff.1 rest
  obtain ⟨w', steps, isEnd⟩ := Option.map_eq_some_iff.1 rest
  simp only [Prod.mk.injEq] at isEnd
  obtain ⟨statuses, gone⟩ := isEnd
  obtain ⟨order, isRows, isAssigned⟩ := List.map_eq_singleton_iff.1 statuses
  refine ⟨p, Pool.reach_of_play (fun _ _ => of_decide_eq_true) played, fun only => ?_⟩
  have member : order ∈ (w.hot .orders).rows := by
    rw [isRows]
    exact List.mem_singleton_self _
  have removed : order ∉ (w'.hot .orders).rows := by
    rw [List.length_eq_zero_iff.1 gone]
    exact List.not_mem_nil
  have finished := only w w' 0 .done
    (Machine.reach_of_play (fun _ _ => of_decide_eq_true) executed) steps order member removed
  have status := finished.status
  rw [isAssigned] at status
  revert status
  decide

end SwiftBite.Verified.ArchivedOrders
