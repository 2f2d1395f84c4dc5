import SwiftBite.Verified.OneSettlement

/-! # One active delivery for each order -/

set_option autoImplicit false

namespace SwiftBite.Verified.OneActive

open Store Protocol Verified DeliveryService OneSettlement

/-- No order has two deliveries under way. -/
def AtMostOneActive (db : Database) : Prop :=
  ∀ a ∈ (db .deliveries).rows, ∀ b ∈ (db .deliveries).rows, a.orderId = b.orderId →
  a.status.active = true →
    b.status.active = true → a = b

/-- The runs of the delivery side, with cancellations and agents going offline, without a
stale update. -/
def FreshDeliverySide (p : Region) (e : Event Operation) : Prop :=
  Serves ServesDeliverySide e ∧ FreshEvent p e

/-- No order has two deliveries under way, in any run from a state. -/
def AlwaysOneActive (env : Config) (allowed : Region → Event Operation → Prop)
    (start : Region) : Prop :=
  ∀ p, Pool.Reach (code env) allowed start p → AtMostOneActive p.db

theorem fresh_runs_have_one_active_delivery (env : Config) (db : Database) (x : Shared)
    (coherent : Coherent db fun _ => none) :
    AlwaysOneActive env FreshDeliverySide (Pool.quiet db x) := by
  intro p reached
  obtain ⟨ghost, sound⟩ :=
    sound_of_reach lawful (verified env) (fun p e fresh => admissible p e fresh.1 fresh.2)
    (sound_quiet (fun _ => none) coherent) reached
  exact sound.inv.oneActive

instance : DecidablePred ServesDeliverySide
  | .offline .. => inferInstanceAs (Decidable True)
  | .updateOrderStatus _ _ targetStatus _ => inferInstanceAs (Decidable (targetStatus = .cancelled))
  | .assign .. | .tryAutoAssign .. | .reassign .. | .updateDeliveryStatus .. =>
    inferInstanceAs (Decidable True)
  | .placeOrder .. | .initPayment .. | .refund .. | .webhook .. | .online .. | .ping ..
  | .recordPayout .. | .sleep .. =>
    inferInstanceAs (Decidable False)

instance (p : Region) (e : Event Operation) : Decidable (FreshDeliverySide p e) :=
  inferInstanceAs (Decidable (_ ∧ _))

/-- Of two deliveries of an order the one that was rejected is over. -/
theorem order_handed_on_has_one_active_delivery :
    ∃ p, Pool.Reach (code Sample.env) FreshDeliverySide
      (Pool.quiet (Sample.db .ready) Sample.nearby) p ∧
      (p.db .deliveries).rows.map (fun row : Delivery => (row.agentId, row.status)) =
        [(3, .rejected), (2, .assigned)] ∧
      AtMostOneActive p.db := by
  have played : (Pool.play (code Sample.env) (fun p e => decide (FreshDeliverySide p e))
      (Sample.assignedAndHandedOn.1 ++ Sample.assignedAndHandedOn.2)
      (Pool.quiet (Sample.db .ready) Sample.nearby)).map
        (fun p => (p.db .deliveries).rows.map fun row : Delivery => (row.agentId, row.status)) =
      some [(3, .rejected), (2, .assigned)] := by decide +kernel
  obtain ⟨p, isRun, isEnd⟩ := Option.map_eq_some_iff.1 played
  have reached : Pool.Reach (code Sample.env) FreshDeliverySide
      (Pool.quiet (Sample.db .ready) Sample.nearby) p :=
    Pool.reach_of_play (fun _ _ => of_decide_eq_true) isRun
  have coherent : Coherent (Sample.db .ready) fun _ => none := coherent_of_undelivered rfl rfl rfl
  exact ⟨p, reached, isEnd, fresh_runs_have_one_active_delivery Sample.env
    (Sample.db .ready) Sample.nearby coherent p reached⟩

/-! ## Without freshness -/

/-- The runs of the delivery side in which no call fails. -/
def DeliverySideOnly (_ : Region) (e : Event Operation) : Prop :=
  Serves ServesDeliverySide e ∧ Faultless e

instance (p : Region) (e : Event Operation) : Decidable (DeliverySideOnly p e) :=
  inferInstanceAs (Decidable (_ ∧ _))

/-- Two operators assign the same order, and the second has found it without a delivery. -/
def bothAssign : List (Event Operation) :=
  [.spawn (.assign Sample.core 100 (some 2)), .spawn (.assign Sample.core 100 (some 3)),
    Sample.act 1, Sample.act 1] ++
  List.replicate 11 (Sample.act 0) ++ List.replicate 9 (Sample.act 1)

theorem stale_assignments_leave_two_active :
    ¬ AlwaysOneActive Sample.env DeliverySideOnly
      (Pool.quiet (Sample.db .ready) Sample.shared) := by
  intro always
  have two : (Pool.play (code Sample.env) (fun p e => decide (DeliverySideOnly p e)) bothAssign
      (Pool.quiet (Sample.db .ready) Sample.shared)).map
        (fun p => (p.db .deliveries).rows.map fun row : Delivery =>
        (row.id, row.orderId, row.status)) =
      some [(10, 1, .assigned), (11, 1, .assigned)] := by decide +kernel
  obtain ⟨p, played, isTwo⟩ := Option.map_eq_some_iff.1 two
  have one := always p (Pool.reach_of_play (fun _ _ => of_decide_eq_true) played)
  obtain ⟨a, rest, isRows, isTen, isRest⟩ := List.map_eq_cons_iff.1 isTwo
  obtain ⟨b, _, rfl, isEleven, _⟩ := List.map_eq_cons_iff.1 isRest
  simp only [Prod.mk.injEq] at isTen isEleven
  have same := one a (by simp [isRows]) b (by simp [isRows]) (by rw [isTen.2.1, isEleven.2.1])
    (by rw [isTen.2.2]; rfl) (by rw [isEleven.2.2]; rfl)
  rw [same, isEleven.1] at isTen
  cases isTen.1

end SwiftBite.Verified.OneActive
