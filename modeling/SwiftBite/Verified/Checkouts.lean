import SwiftBite.Store.Follow
import SwiftBite.Verified.Board
import SwiftBite.Verified.PaymentSteps

/-! # Checkouts that are still open

`PaymentService.init` hands out the latest active session however old it is, and its expiry is
reckoned from the time of the request.  So a customer is told the truth only about sessions
that have just been created.
-/

set_option autoImplicit false

namespace SwiftBite.Verified.Checkouts

open Store Prog Statement PaymentService

/-- At time `t` the customer is given a session that is open, and is told until when. -/
structure Payable (sessionTimeoutMin t : ℕ) (session : PaymentSession) (expiresAt : ℕ) : Prop where
  isOpen : t < session.createdAt + sessionTimeoutMin * 60000000
  honest : expiresAt = session.createdAt / 1000 + sessionTimeoutMin * 60000

/-- The sessions of the order with which its customer can pay. -/
def activeSessions (db : Database) (orderId : ℕ) : List PaymentSession :=
  (db .paymentSessions).rows.filter fun row : PaymentSession =>
    row.orderId = orderId && row.status.active

/-- Time passes. -/
def pass (wait : ℕ) (x : Shared) : Shared := { x with now := x.now + wait }

/-- What is asked of the times that pass before the actions of a call which begins at `now`: it is
answered in the millisecond in which the session was created that the order has, or in that of
its last statement, which creates one. -/
structure AnsweredAtOnce (db : Database) (order : Order) (now : ℕ) (waits : List ℕ) : Prop where
  reused : ∀ session ∈ latest (activeSessions db order.id),
    session.createdAt / 1000 = (now + waits.sum) / 1000
  created : latest (activeSessions db order.id) = [] →
    (now + waits.dropLast.sum) / 1000 = (now + waits.sum) / 1000

/-- The condition on a request. -/
def InTime (db : Database) (orderPublicId now : ℕ) (waits : List ℕ) : Prop :=
  ∀ order ∈ (db .orders).rows, Order.publicId order = orderPublicId →
  AnsweredAtOnce db order now waits

/-! ## One request -/

section

variable {core : Core} {sessionTimeoutMin orderPublicId customerId : ℕ} {db : Database} {x : Shared}
  {l : Local RowOf RowKey}

theorem payable_of_recent {session : PaymentSession} {t : ℕ} (positive : 0 < sessionTimeoutMin)
    (recent : session.createdAt / 1000 = t / 1000) :
    Payable sessionTimeoutMin t session (t / 1000 + sessionTimeoutMin * 60000) := by
  refine ⟨?_, by rw [recent]⟩
  omega

theorem amid_throwIf {condition : Prop} [Decidable condition] {err : Err}
    {Q : List ℕ → Except Err Unit → Local RowOf RowKey → Database → Shared → Prop}
    (passes : ¬condition → Q [] (.ok ()) l db x) (throws : condition → Q [] (.error err) l db x) :
    (throwIf condition err).Amid pass Q l db x := by
  unfold throwIf
  split
  next fails => exact amid_done (throws fails)
  next holds => exact amid_done (passes holds)

/-- What the call returns after these times: nothing, the session that the order has, or one that
was just created. -/
def HandsOut (db : Database) (now orderPublicId : ℕ) (waits : List ℕ)
    (result : Except Err PaymentSession) (x' : Shared) : Prop :=
  x'.now = now + waits.sum ∧ ∀ session, result = .ok session →
    ∃ order ∈ (db .orders).rows, Order.publicId order = orderPublicId ∧
      (session ∈ latest (activeSessions db order.id) ∨ latest (activeSessions db order.id) = [] ∧
        session.createdAt = x'.now)

theorem handsOut_error {now : ℕ} {waits : List ℕ} {err : Err} {x' : Shared}
    (time : x'.now = now + waits.sum) : HandsOut db now orderPublicId waits (.error err) x' :=
  ⟨time, fun _ impossible => by cases impossible⟩

theorem amid_createSession {order : Order} {kashierProvider : ℕ} :
    (createSession core order kashierProvider).Amid pass
      (fun waits result _ _ x' => x'.now = x.now + waits.sum ∧ ∀ session, result = .ok session →
        session.createdAt = x'.now) l db x := by
  unfold createSession
  split
  next => exact amid_done ⟨rfl, fun _ impossible => by cases impossible⟩
  next created _ =>
    refine amid_bind (amid_sure fun first => amid_done ?_)
    refine amid_pool (fun second effect member => ?_) fun second => ?_
    · simp only [Statement.insert] at member
      split at member
      · cases List.mem_singleton.1 member
      · -- the session is created at the time of the statement
        cases List.mem_singleton.1 member
        refine amid_done ⟨?_, fun session isReply => ?_⟩
        · simp [pass, Nat.add_assoc]
        · cases isReply
          rfl
    · exact amid_done ⟨by simp [pass, Nat.add_assoc], fun _ impossible => by cases impossible⟩

theorem amid_findOrderForPayment :
    (OrderService.findOrderForPayment orderPublicId customerId).Amid pass
    (fun waits result _ db' x' => x'.now = x.now + waits.sum ∧ db' = db ∧
      ∀ order, result = .ok order →
      order ∈ (db .orders).rows ∧ order.publicId = orderPublicId) l db x := by
  refine amid_bind (amid_pool (fun first effect member => ?_) fun first => ?_)
  · obtain ⟨_, isEffect⟩ | ⟨order, among, isEffect⟩ := selectFirst_cases member <;> cases isEffect
    · exact amid_done (amid_done ⟨rfl, rfl, fun _ impossible => by cases impossible⟩)
    · obtain ⟨there, isNamed⟩ := List.mem_filter.1 among
      refine amid_done
        (amid_bind (amid_throwIf (fun _ => amid_done ⟨rfl, rfl, fun _ returned => ?_⟩) fun _ => ?_))
      · cases returned
        exact ⟨there, of_decide_eq_true isNamed⟩
      · exact ⟨rfl, rfl, fun _ impossible => by cases impossible⟩
  · exact amid_done ⟨rfl, rfl, fun _ impossible => by cases impossible⟩

theorem amid_init : (PaymentService.init core orderPublicId customerId).Amid pass
    (fun waits result _ _ x' => HandsOut db x.now orderPublicId waits result x') l db x := by
  refine amid_bind (amid_mono ?_ amid_findOrderForPayment)
  rintro waits result l' db' x' ⟨time, rfl, found⟩
  cases result with
  | error err => exact handsOut_error time
  | ok order =>
    obtain ⟨there, named⟩ := found order rfl
    refine amid_bind (amid_throwIf (fun _ => ?_) fun _ => handsOut_error (by simp [time]))
    refine amid_bind (amid_pool (fun second effect member => ?_) fun second => ?_)
    · obtain ⟨none, isEffect⟩ | ⟨session, isLatest, isEffect⟩ :=
        selectFirst_cases member <;> cases isEffect
      · -- there is no session to hand out, so one is created
        refine amid_done (amid_bind (amid_pool (fun third effect member => ?_) fun third => ?_))
        · cases List.mem_singleton.1 member
          refine amid_done (amid_mono ?_ amid_createSession)
          rintro later result _ _ x'' ⟨time', created⟩
          refine ⟨by simp [time', time, pass, Nat.add_assoc], fun session returned => ?_⟩
          exact ⟨order, there, named, .inr ⟨none, created session returned⟩⟩
        · exact amid_done (handsOut_error (by simp [time, pass, Nat.add_assoc]))
      · refine amid_done
          (amid_done ⟨by simp [time, pass, Nat.add_assoc], fun returned isReturned => ?_⟩)
        cases isReturned
        exact ⟨order, there, named, .inl isLatest⟩
    · exact amid_done (handsOut_error (by simp [time, pass, Nat.add_assoc]))

/-- One request that is answered in time. -/
theorem payable_of_inTime (positive : 0 < sessionTimeoutMin) {plays : List (ℕ × Choice)}
    {ending : Ending (K := RowKey) RowOf Shared Err (PaymentSession × ℕ)}
    (played : (PaymentController.init sessionTimeoutMin core orderPublicId customerId).followAmid
      pass plays .start db x = some ending)
    (inTime : InTime db orderPublicId x.now (plays.map Prod.fst)) {session : PaymentSession}
    {expiresAt : ℕ} (returned : ending.result = .ok (session, expiresAt)) :
    Payable sessionTimeoutMin ending.side.now session expiresAt := by
  have answers : (PaymentController.init sessionTimeoutMin core orderPublicId customerId).Amid pass
      (fun waits result _ _ x' => InTime db orderPublicId x.now waits →
      ∀ session expiresAt, result = .ok (session, expiresAt) →
        Payable sessionTimeoutMin x'.now session expiresAt) .start db x := by
    refine amid_bind (amid_mono ?_ amid_init)
    rintro waits result l' db' x' ⟨time, handedOut⟩
    cases result with
    | error err => exact fun _ _ _ impossible => by cases impossible
    | ok session =>
      refine amid_bind
        (amid_sure fun last => amid_done (amid_done fun inTime session' expiresAt' isAnswer => ?_))
      cases isAnswer
      obtain ⟨order, there, named, source⟩ := handedOut session rfl
      obtain ⟨reused, created⟩ := inTime order there named
      have now : x'.now + last = x.now + (waits ++ [last]).sum := by simp [time, Nat.add_assoc]
      refine payable_of_recent positive ?_
      show session.createdAt / 1000 = (x'.now + last) / 1000
      rw [now]
      rcases source with isLatest | ⟨none, justNow⟩
      · exact reused session isLatest
      · have := created none
        simpa [justNow, time] using this
  exact answers plays ending played inTime session expiresAt returned

end

/-! ## Runs -/

/-- After every run of this kind, a request that meets the condition and returns gives an open
session. -/
def AlwaysPayable (env : Config) (sessionTimeoutMin : ℕ) (runs : Region → Event Operation → Prop)
    (condition : Database → ℕ → ℕ → List ℕ → Prop) (start : Region) : Prop :=
  ∀ p, Pool.Reach (code env) runs start p → p.Idle = true →
    ∀ core orderPublicId customerId plays ending session expiresAt,
      (PaymentController.init sessionTimeoutMin core orderPublicId customerId).followAmid pass plays
        .start p.db p.side = some ending →
        condition p.db orderPublicId p.side.now (plays.map Prod.fst) →
        ending.result = .ok (session, expiresAt) →
          Payable sessionTimeoutMin ending.side.now session expiresAt

theorem sessions_just_created_are_payable (env : Config) (sessionTimeoutMin : ℕ)
    (positive : 0 < sessionTimeoutMin) (db : Database) (x : Shared) :
    AlwaysPayable env sessionTimeoutMin (fun _ _ => True) InTime (Pool.quiet db x) :=
  fun _ _ _ _ _ _ _ _ _ _ played inTime returned =>
    payable_of_inTime positive played inTime returned

/-! ## A session that is new, and one that is not -/

/-- An order that waits for its payment. -/
def unpaid : Region :=
  Pool.quiet
    (Database.empty.apply (.insert TableName.orders Sample.onlineOrder : SqlWrite)) Sample.shared

/-- The customer opens a checkout, in which a first attempt fails. -/
def failedOnce : List (Event Operation) :=
  .spawn (.initPayment Sample.core 100 7) :: List.replicate 5 (Sample.act 0) ++
    .spawn (.webhook (Sample.payEvent "FAILED" "a") "" true) :: List.replicate 14 (Sample.act 1)

/-- The provider's next session. -/
def nextCore : Core :=
  { Sample.core with createSession := fun _ _ _ => .ok ⟨"next session", "https://checkout"⟩ }

/-- The customer asks again, and the call takes this long for each of its actions. -/
def askedAgain (wait actions : ℕ) (p : Region) :
    Option (Ending (K := RowKey) RowOf Shared Err (PaymentSession × ℕ)) :=
  (PaymentController.init 15 nextCore 100 7).followAmid pass
    (List.replicate actions (wait, .pick 0)) .start p.db p.side

/-- After a first attempt that has failed, the customer is given a new session. -/
theorem second_checkout_is_payable :
    ∃ p ending session expiresAt, Pool.Reach (code Sample.env) (fun _ _ => True) unpaid p ∧
    askedAgain 100 6 p = some ending ∧ ending.result = .ok (session, expiresAt) ∧
    session.providerSessionId = "next session" ∧
      Payable 15 ending.side.now session expiresAt := by
  have ran : ((Pool.play (code Sample.env) (fun _ _ => true) failedOnce unpaid).bind fun p =>
      (askedAgain 100 6 p).bind fun ending => ending.result.toOption.map fun answer =>
        (p.Idle, p.side.now, answer.1.providerSessionId, (p.db .orders).rows.map Order.id,
          (latest (activeSessions p.db 1)).length)) =
      some (true, 1000000, "next session", [1], 0) := by decide +kernel
  obtain ⟨p, played, rest⟩ := Option.bind_eq_some_iff.1 ran
  obtain ⟨ending, followed, rest⟩ := Option.bind_eq_some_iff.1 rest
  obtain ⟨⟨session, expiresAt⟩, isAnswer, isEnd⟩ := Option.map_eq_some_iff.1 rest
  simp only [Prod.mk.injEq] at isEnd
  obtain ⟨idle, time, isNew, orders, nothingActive⟩ := isEnd
  have reached : Pool.Reach (code Sample.env) (fun _ _ => True) unpaid p :=
    Pool.reach_of_play (fun _ _ _ => trivial) played
  have inTime : InTime p.db 100 p.side.now (List.replicate 6 100) := by
    intro order there named
    have isOrder : order.id = 1 := by
      have among := List.mem_map_of_mem (f := Order.id) there
      rw [orders] at among
      exact List.mem_singleton.1 among
    rw [time]
    refine ⟨fun session among => ?_, fun _ => by decide⟩
    rw [isOrder, List.eq_nil_of_length_eq_zero nothingActive] at among
    cases among
  have returned := ok_of_toOption isAnswer
  have payable :=
    sessions_just_created_are_payable Sample.env 15 (by decide) unpaid.db unpaid.side p reached idle
    nextCore 100 7 _ ending session expiresAt followed inTime returned
  exact ⟨p, ending, session, expiresAt, reached, followed, returned, isNew, payable⟩

/-- The customer asks for a session, and waits for an hour. -/
def askedAnHourAgo : List (Event Operation) :=
  .spawn (.initPayment Sample.core 100 7) :: List.replicate 5 (Sample.act 0) ++
    [.spawn (.sleep 3600000000), Sample.act 1]

/-- The customer is given the old session, and is told that it will be open for another quarter of
an hour. -/
theorem old_session_is_handed_out :
    ¬ AlwaysPayable Sample.env 15 (OneByOne fun _ _ _ => True) (fun _ _ _ _ => True) unpaid := by
  intro always
  have ran : ((Pool.play (code Sample.env) (fun p e => decide (OneByOne (fun _ _ _ => True) p e))
      askedAnHourAgo unpaid).bind fun p =>
      (askedAgain 0 3 p).bind fun ending =>
        ending.result.toOption.map fun answer =>
          (p.Idle, ending.side.now, answer.1.createdAt, answer.2)) =
      some (true, 3601000000, 1000000, 4501000) := by decide +kernel
  obtain ⟨p, played, rest⟩ := Option.bind_eq_some_iff.1 ran
  obtain ⟨ending, followed, rest⟩ := Option.bind_eq_some_iff.1 rest
  obtain ⟨⟨session, expiresAt⟩, isAnswer, isEnd⟩ := Option.map_eq_some_iff.1 rest
  simp only [Prod.mk.injEq] at isEnd
  obtain ⟨idle, time, created, told⟩ := isEnd
  have reached := Pool.reach_of_play (fun _ _ => of_decide_eq_true) played
  have payable := always p reached idle nextCore 100 7 _ ending session expiresAt followed trivial
    (ok_of_toOption isAnswer)
  have := payable.isOpen
  omega

end SwiftBite.Verified.Checkouts
