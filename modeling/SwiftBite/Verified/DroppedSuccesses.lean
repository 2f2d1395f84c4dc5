import SwiftBite.Verified.Captures
import SwiftBite.Verified.Checkouts
import SwiftBite.Verified.WebhookAlone

/-! # Payments that are dropped

A customer may try again after a failure, in the same checkout.  But the failure has closed the
session, and a success that finds none is acknowledged and forgotten, unless the customer has
asked for another session in between.
-/

set_option autoImplicit false

namespace SwiftBite.Verified.DroppedSuccesses

open Store Prog
open Captures (TakesPayments)
open WebhookAlone

/-! ## One call after another -/

theorem ahead_opening {db : Database} {x : Shared} (ahead : Ahead db x) {w : SqlWrite}
    (opens : w.table = .paymentSessions) : Ahead (db.apply w) x := by
  have same : ∀ t ∈ numbered, db.apply w t = db t := by
    intro t among
    refine Db.apply_other db fun isTable => ?_
    rw [← isTable, opens] at among
    simp [numbered] at among
  refine ⟨fun t among row member => ?_, fun row member => ?_⟩
  · rw [same t among] at member
    exact ahead.ids t among row member
  · rw [same _ (by decide)] at member
    exact ahead.uuids row member

theorem settles (env : Config) :
    Pool.Settles (anyhow False) Ahead (fun op _ _ => TakesPayments op) (code env) := by
  intro op db x ahead takes
  cases op with
  | initPayment core orderPublicId customerId =>
    have opens : ∀ db x ws, (∀ w ∈ ws, Write.table w = .paymentSessions) → Ahead db x →
        (anyhow False).Moved db (db.applyAll ws) ∧ Ahead (db.applyAll ws) x := by
      intro db x ws sessions ahead
      refine ⟨.inr trivial, ?_⟩
      induction ws generalizing db with
      | nil => exact ahead
      | cons w ws inductionHypothesis =>
        exact inductionHypothesis _ (fun w' member => sessions w' (List.mem_cons_of_mem _ member))
          (ahead_opening ahead (sessions w List.mem_cons_self))
    refine solo_map (solo_mono ?_ (solo_harmless
      (b := within (fun w => w.table = .paymentSessions) fun _ => True) opens
      (fun _ _ _ later ahead => Ahead.later ahead later)
      (harmless_init core orderPublicId customerId fun _ => rfl)
      (fun w none => absurd none List.not_mem_nil) ahead))
    exact fun _ _ _ _ ahead' => ahead'
  | webhook payload signature signatureValid => exact solo_returning (solo_process_ahead ahead)
  | _ => exact takes.elim

/-- After some requests and webhooks, the provider tells that an order which waits for its payment
is paid. -/
structure Succeeds (env : Config) (start : Region) (run : List (Event Operation)) (p : Region)
    (order : Order) (payload : WebhookPayload)
    (ending : Ending (K := RowKey) RowOf Shared Err Unit) : Prop where
  ran : Pool.play (code env) (fun p e => decide (OneByOne (fun op _ _ => TakesPayments op) p e)) run
    start = some p
  idle : p.Idle = true
  found : orderOf p.db order.id = some order
  waits : order.status = .pendingPayment
  isNamed : payload.merchantOrderId = .uuid order.publicId
  isPay : payload.eventText = "pay"
  isSuccess : payload.statusText = "SUCCESS"
  played : ∃ signature choices, .fault ∉ choices ∧
    (KashierWebhookService.process payload signature true).follow choices .start p.db p.side =
      some ending

/-- The order is charged and placed if and only if it has an active session, the event is new, and
so is the key of the charge. -/
theorem captured_iff (env : Config) (db : Database) (x : Shared) (ahead : Ahead db x)
    (run : List (Event Operation)) (p : Region) (order : Order) (payload : WebhookPayload)
    (ending : Ending (K := RowKey) RowOf Shared Err Unit)
    (succeeds : Succeeds env (Pool.quiet db x) run p order payload ending) :
    Paid ending.db order.id payload.providerTransactionId ↔ Capturable p.db payload order.id := by
  have reached := Pool.reach_of_play (fun _ _ => of_decide_eq_true) succeeds.ran
  have between := Pool.between_of_reach (settles env) (.idle rfl ahead) reached
  obtain ⟨signature, choices, calm, played⟩ := succeeds.played
  exact solo_follow (solo_success (between.rests_of_idle succeeds.idle) succeeds.found
    succeeds.waits succeeds.isNamed succeeds.isPay
    succeeds.isSuccess) (fun fault => absurd fault calm) played

/-! ## Runs -/

theorem ahead_of_empty {db : Database} (none : ∀ t ∈ numbered, (db t).rows = [])
    (x : Shared) : Ahead db x := by
  refine ⟨fun t among row member => ?_, fun row member => ?_⟩
  · rw [none t among] at member
    exact absurd member List.not_mem_nil
  · rw [none _ (by decide)] at member
    exact absurd member List.not_mem_nil

theorem ahead_paying : Ahead (Sample.dbPaying .initialized) Sample.shared := by
  refine ahead_of_empty (fun t among => ?_) _
  simp only [numbered, List.mem_cons, List.not_mem_nil, or_false] at among
  rcases among with rfl | rfl | rfl <;> rfl

/-- The success of the first attempt is not dropped. -/
theorem first_attempt_is_captured :
    ∃ ending,
    Succeeds Sample.env (Pool.quiet (Sample.dbPaying .initialized) Sample.shared) []
      (Pool.quiet (Sample.dbPaying .initialized) Sample.shared)
      Sample.onlineOrder (Sample.payEvent "SUCCESS" "a") ending ∧ Paid ending.db 1 "a" := by
  have ran : ((KashierWebhookService.process (Sample.payEvent "SUCCESS" "a") "" true).follow
      (List.replicate 23 (.pick 0)) .start
      (Sample.dbPaying .initialized) Sample.shared).isSome = true := by decide +kernel
  obtain ⟨ending, played⟩ := Option.isSome_iff_exists.1 ran
  have succeeds : Succeeds Sample.env (Pool.quiet (Sample.dbPaying .initialized) Sample.shared) []
      (Pool.quiet (Sample.dbPaying .initialized) Sample.shared) Sample.onlineOrder
      (Sample.payEvent "SUCCESS" "a") ending :=
    ⟨rfl, rfl, rfl, rfl, rfl, rfl, rfl, "", _, by simp, played⟩
  have capturable :
      Capturable (Sample.dbPaying .initialized) (Sample.payEvent "SUCCESS" "a") 1 := by
    refine ⟨⟨Sample.session .initialized, List.mem_singleton.2 rfl, rfl, rfl⟩, ?_, ?_⟩
    · exact fun ⟨row, member, _⟩ => absurd member List.not_mem_nil
    · exact fun ⟨row, member, _⟩ => absurd member List.not_mem_nil
  exact ⟨ending, succeeds,
    (captured_iff Sample.env _ _ ahead_paying [] _ _ _ ending succeeds).2 capturable⟩

/-- The payload was delivered in the run. -/
def Delivered (payload : WebhookPayload) (run : List (Event Operation)) : Prop :=
  ∃ signature signatureValid, Event.spawn (.webhook payload signature signatureValid) ∈ run

/-- Every success that was not delivered before is captured, once a checkout was opened. -/
def NoneDropped (env : Config) (start : Region) : Prop :=
  ∀ run p order payload ending, Succeeds env start run p order payload ending →
  ¬Delivered payload run →
    (∃ session ∈ (p.db .paymentSessions).rows, PaymentSession.orderId session = order.id) →
    Paid ending.db order.id payload.providerTransactionId

/-- What is seen of the second attempt. -/
structure Attempt where
  idle : Bool
  orders : List (ℕ × ℕ × OrderStatus)
  sessions : List ℕ
  after : Option OrderStatus
  deriving DecidableEq

/-- The second attempt succeeds, and nothing comes of it. -/
theorem second_attempt_is_dropped : ¬ NoneDropped Sample.env Checkouts.unpaid := by
  intro always
  have ran : ((Pool.play (code Sample.env) (fun p e => decide (OneByOne
      (fun op _ _ => TakesPayments op) p e)) Checkouts.failedOnce Checkouts.unpaid).bind fun p =>
      ((KashierWebhookService.process (Sample.payEvent "SUCCESS" "b") "" true).follow
        (List.replicate 10 (.pick 0)) .start p.db p.side).map
        fun ending =>
          (⟨p.Idle, (p.db .orders).rows.map fun row : Order => (row.id, row.publicId, row.status),
          (p.db .paymentSessions).rows.map PaymentSession.orderId,
          (orderOf ending.db 1).map Order.status⟩ : Attempt)) =
      some ⟨true, [(1, 100, .pendingPayment)], [1], some .pendingPayment⟩ := by decide +kernel
  obtain ⟨p, played, rest⟩ := Option.bind_eq_some_iff.1 ran
  obtain ⟨ending, followed, isAttempt⟩ := Option.map_eq_some_iff.1 rest
  simp only [Attempt.mk.injEq] at isAttempt
  obtain ⟨idle, orders, sessions, after⟩ := isAttempt
  obtain ⟨order, isRows, isOrder⟩ := List.map_eq_singleton_iff.1 orders
  obtain ⟨session, areSessions, ofOrder⟩ := List.map_eq_singleton_iff.1 sessions
  simp only [Prod.mk.injEq] at isOrder
  obtain ⟨isId, isPublic, waits⟩ := isOrder
  have member : order ∈ (p.db .orders).rows := by rw [isRows]; exact List.mem_singleton.2 rfl
  have succeeds : Succeeds Sample.env Checkouts.unpaid Checkouts.failedOnce p order
      (Sample.payEvent "SUCCESS" "b") ending :=
    ⟨played, idle, Table.get_of_mem member, waits,
      by rw [isPublic]; rfl, rfl, rfl, "", _, by simp, followed⟩
  have isNew : ¬Delivered (Sample.payEvent "SUCCESS" "b") Checkouts.failedOnce := by
    rintro ⟨signature, signatureValid, among⟩
    simp [Checkouts.failedOnce, Sample.act, Sample.payEvent] at among
  have paid := always Checkouts.failedOnce p order _ ending succeeds isNew
    ⟨session, by rw [areSessions]; exact List.mem_singleton.2 rfl, ofOrder.trans isId.symm⟩
  obtain ⟨row, found, placed⟩ := paid.placed
  rw [isId] at found
  rw [found] at after
  cases placed.symm.trans (Option.some.inj after)

end SwiftBite.Verified.DroppedSuccesses
