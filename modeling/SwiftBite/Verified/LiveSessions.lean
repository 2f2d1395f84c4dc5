import SwiftBite.Verified.PaymentSteps
import SwiftBite.Verified.StatusWrite

/-! # One live payment session for each order

`PaymentService.init` looks for an active session, asks the provider, and inserts a session
of its own.  Nothing in the table excludes a second one.  So one session at a time is live
as long as no call looks while another is on its way from a vain look to its insertion.

The proof follows each `init` call through its five actions.  The row that it was shown
tells for which order it works.
-/

set_option autoImplicit false

namespace SwiftBite.Verified.LiveSessions

open Store Protocol Verified Statement

/-- No order has two sessions with which its customer can pay. -/
def AtMostOneLive (db : Database) : Prop :=
  ∀ a ∈ (db .paymentSessions).rows, ∀ b ∈ (db .paymentSessions).rows, a.orderId = b.orderId →
  a.status.active = true →
    b.status.active = true → a = b

/-- The order has no session with which its customer can pay. -/
def Vacant (db : Database) (orderId : ℕ) : Prop :=
  ∀ row ∈ (db .paymentSessions).rows, row.orderId = orderId → row.status.active = false

/-! ## What the other calls write -/

/-- Of the sessions, one is closed at most. -/
def Closes (w : SqlWrite) : Prop :=
  w.table ≠ .paymentSessions ∨ ∃ k status updatedAt, status.active = false ∧
    w = .update TableName.paymentSessions k (PaymentSession.withStatus status updatedAt)

/-- Every active session of the second state is one of the first. -/
def ActiveFrom (db db' : Database) : Prop :=
  ∀ row ∈ (db' .paymentSessions).rows, row.status.active = true → row ∈ (db .paymentSessions).rows

theorem activeFrom_apply {w : SqlWrite} (closes : Closes w) (db : Database) :
    ActiveFrom db (db.apply w) := by
  intro row among active
  rcases closes with other | ⟨k, status, updatedAt, inactive, rfl⟩
  · rwa [Db.apply_other db other] at among
  · rw [Db.apply_update_self, Table.mem_modify] at among
    obtain ⟨old, wasThere, rfl⟩ := among
    by_cases same : key old = k
    · have closed : Table.rewrite k (PaymentSession.withStatus status updatedAt) old =
          PaymentSession.withStatus status updatedAt old := by
        rw [Table.rewrite_of_eq same]
        exact Table.keepIdentity_eq rfl rfl
      rw [closed] at active
      exact absurd (inactive.symm.trans active) Bool.false_ne_true
    · rwa [Table.rewrite_of_ne same]

theorem activeFrom_applyAll {ws : List SqlWrite} (closes : ∀ w ∈ ws, Closes w) (db : Database) :
    ActiveFrom db (db.applyAll ws) := by
  induction ws generalizing db with
  | nil => exact fun _ among _ => among
  | cons w ws inductionHypothesis =>
    intro row among active
    have before := inductionHypothesis (fun w' later => closes w' (List.mem_cons_of_mem _ later))
      (db.apply w) row among active
    exact activeFrom_apply (closes w List.mem_cons_self) db row before active

theorem AtMostOneLive.of_activeFrom {db db' : Database} (one : AtMostOneLive db)
    (fewer : ActiveFrom db db') : AtMostOneLive db' :=
  fun a isA b isB same activeA activeB =>
    one a (fewer a isA activeA) b (fewer b isB activeB) same activeA activeB

theorem Vacant.of_activeFrom {db db' : Database} {orderId : ℕ} (vacant : Vacant db orderId)
    (fewer : ActiveFrom db db') : Vacant db' orderId := by
  intro row among ofOrder
  by_contra active
  rw [Bool.not_eq_false] at active
  exact absurd active (by simp [vacant row (fewer row among active) ofOrder])

/-! ## The actions of an `init` call -/

/-- What is left once the order is read. -/
def look (core : Core) (order : Order) : Service PaymentSession := do
  match ← findActivePaymentSessionByOrderId .pool order.id with
  | some existing => pure existing
  | none => do
    match ← findPaymentProviderByName .pool "kashier" with
    | none => throw (.appError "Kashier provider not configured" 500)
    | some kashierProvider => PaymentService.createSession core order kashierProvider

/-- What is left once no session is found. -/
inductive Rest (order : Order) : Service PaymentSession → Prop where
  | provider (core : Core) : Rest order do
      match ← findPaymentProviderByName .pool "kashier" with
      | none => throw (.appError "Kashier provider not configured" 500)
      | some kashierProvider => PaymentService.createSession core order kashierProvider
  | number (data : CreatePaymentSessionInput) (ofOrder : data.orderId = order.id)
      (initialized : data.status = .initialized) : Rest order (createPaymentSession .pool data)
  | insertion (data : CreatePaymentSessionInput) (id : ℕ) (ofOrder : data.orderId = order.id)
      (initialized : data.status = .initialized) :
      Rest order (.exec .pool (insert TableName.paymentSessions
        [(TableName.orders, RowKey.id data.orderId)] (data.row id)))

/-- The call was shown the order and is about to look for a session of it. -/
def Looking (order : Order) (call : ServiceCall) : Prop :=
  call.loc.seen = [⟨TableName.orders, order⟩] ∧ ∃ core, call.prog = .session <$> look core order

/-- The call has found no session of the order, and has yet to insert its own. -/
def Opening (order : Order) (call : ServiceCall) : Prop :=
  call.loc.seen = [⟨TableName.orders, order⟩] ∧ ∃ rest, Rest order rest ∧
  call.prog = .session <$> rest

theorem order_of_seen {order order' : Order} {call : ServiceCall}
    (shown : call.loc.seen = [⟨TableName.orders, order⟩])
    (shown' : call.loc.seen = [⟨TableName.orders, order'⟩]) : order = order' := by
  have same := shown.symm.trans shown'
  simpa using same

/-- What one action of an `init` call does, with the order for which it was about to insert, and
is afterwards. -/
inductive InitStep (publicId : ℕ) (call : ServiceCall) (db : Database) (after : ServiceCall) :
    Option Order → Option Order → Database → Prop where
  | shown (order : Order) (there : orderOf db order.id = some order)
      (isNamed : order.publicId = publicId) (looking : Looking order after) :
      InitStep publicId call db after none none db
  | found (order : Order) (looking : Looking order call) (session : PaymentSession)
      (member : session ∈ (db .paymentSessions).rows) (ofOrder : session.orderId = order.id)
      (active : session.status.active = true) (ends : after.prog = .done (.ok (.session session))) :
      InitStep publicId call db after none none db
  | missed (order : Order) (looking : Looking order call) (vacant : Vacant db order.id)
      (opening : Opening order after) : InitStep publicId call db after none (some order) db
  | nearer (order : Order) (opening : Opening order after) :
      InitStep publicId call db after (some order) (some order) db
  | inserted (order : Order) (session : PaymentSession) (ofOrder : session.orderId = order.id)
      (initialized : session.status = .initialized)
      (free : (db .paymentSessions).conflicts session = false)
      (ends : after.prog = .done (.ok (.session session))) :
      InitStep publicId call db after (some order) none
        (db.apply (.insert TableName.paymentSessions session : SqlWrite))
  | failed (opening : Option Order) (err : Err) (ends : after.prog = .done (.error err)) :
      InitStep publicId call db after opening none db

section Steps

variable {publicId : ℕ} {call : ServiceCall} {db : Database} {x : Shared} {choice : Choice}
  {out : Outcome (K := RowKey) RowOf Shared Err Reply}

theorem initStep_start {core : Core} {customerId : ℕ}
    (start : call.prog = .session <$> PaymentService.init core publicId customerId)
    (fresh : call.loc = .start) (acts : call.prog.next choice call.loc db x = some out) :
    InitStep publicId call db (afterwards call out) none none out.db := by
  rw [start, fresh] at acts
  obtain rfl | ⟨effect, member, rfl⟩ := Prog.next_pool acts
  · exact .failed _ _ rfl
  · obtain ⟨_, isEffect⟩ | ⟨order, among, isEffect⟩ := selectFirst_cases member <;> cases isEffect
    · exact .failed _ _ rfl
    · obtain ⟨there, isNamed⟩ := List.mem_filter.1 among
      -- What the two checks leave of the program.
      show InitStep publicId call db ⟨call.op, .session <$>
        ((throwIf (order.customerId ≠ customerId) .OrderNotFoundError >>= fun _ =>
          pure order : Service Order) >>= fun order =>
          throwIf (order.status ≠ .pendingPayment) .OrderNotPendingPaymentError >>= fun _ =>
            look core order), ⟨none, [⟨TableName.orders, order⟩]⟩⟩ none none db
      by_cases foreign : order.customerId ≠ customerId
      · rw [throwIf, if_pos foreign]
        exact .failed _ .OrderNotFoundError rfl
      · rw [throwIf, if_neg foreign]
        show InitStep publicId call db ⟨call.op, .session <$>
          (throwIf (order.status ≠ .pendingPayment) .OrderNotPendingPaymentError >>= fun _ =>
            look core order), _⟩ none none db
        by_cases settled : order.status ≠ .pendingPayment
        · rw [throwIf, if_pos settled]
          exact .failed _ .OrderNotPendingPaymentError rfl
        · rw [throwIf, if_neg settled]
          exact .shown order (Table.get_of_mem there) (of_decide_eq_true isNamed) ⟨rfl, core, rfl⟩

theorem initStep_looking {order : Order} (looking : Looking order call)
    (acts : call.prog.next choice call.loc db x = some out) :
    ∃ opening, InitStep publicId call db (afterwards call out) none opening out.db := by
  obtain ⟨shown, core, isLook⟩ := looking
  rw [isLook] at acts
  obtain rfl | ⟨effect, member, rfl⟩ := Prog.next_pool acts
  · exact ⟨none, .failed _ _ rfl⟩
  · obtain ⟨none, isEffect⟩ | ⟨session, among, isEffect⟩ :=
      selectFirst_cases member <;> cases isEffect
    · refine ⟨some order, .missed order ⟨shown, core, isLook⟩ (fun row among ofOrder => ?_)
        ⟨shown, _, .provider core, rfl⟩⟩
      have passed := List.filter_eq_nil_iff.1 (latest_eq_nil none) row among
      simpa [ofOrder] using passed
    · obtain ⟨isSession, isLive⟩ := List.mem_filter.1 (List.mem_filter.1 among).1
      simp only [Bool.and_eq_true, decide_eq_true_eq] at isLive
      exact ⟨none, .found order ⟨shown, core, isLook⟩ session isSession isLive.1 isLive.2 rfl⟩

theorem initStep_opening {order : Order} (opening : Opening order call)
    (acts : call.prog.next choice call.loc db x = some out) :
    ∃ opening, InitStep publicId call db (afterwards call out) (some order) opening out.db := by
  obtain ⟨shown, rest, isRest, isProg⟩ := opening
  rw [isProg] at acts
  cases isRest with
  | provider core =>
    obtain rfl | ⟨effect, member, rfl⟩ := Prog.next_pool acts
    · exact ⟨none, .failed _ _ rfl⟩
    · cases List.mem_singleton.1 member
      cases answer : core.createSession order.publicId order.total order.currency with
      | error err =>
        refine ⟨none, .failed _ (.appError "Payment provider unavailable" 503) ?_⟩
        simp only [afterwards, PaymentService.createSession, answer]
        rfl
      | ok created =>
        let data : CreatePaymentSessionInput :=
          { orderId := order.id
            providerId := 1
            providerSessionId := created.providerSessionId
            redirectUrl := created.redirectUrl
            amount := order.total
            currency := order.currency
            status := .initialized }
        refine ⟨some order, .nearer order ⟨shown, _, .number data rfl rfl, ?_⟩⟩
        simp only [afterwards, PaymentService.createSession, answer]
        rfl
  | number data ofOrder initialized =>
    cases Prog.next_sure acts
    exact ⟨some order, .nearer order ⟨shown, _, .insertion data _ ofOrder initialized, rfl⟩⟩
  | insertion data id ofOrder initialized =>
    obtain rfl | ⟨effect, member, rfl⟩ := Prog.next_pool acts
    · exact ⟨none, .failed _ _ rfl⟩
    · simp only [Statement.insert] at member
      split at member
      · cases List.mem_singleton.1 member
      next free =>
        cases List.mem_singleton.1 member
        simp only [Bool.or_eq_true, not_or, Bool.not_eq_true] at free
        exact ⟨none, .inserted order _ ofOrder initialized free.1 rfl⟩

end Steps

/-! ## The invariant -/

/-- The table has an order with the id of this one, under the given public id. -/
def Named (db : Database) (order : Order) (publicId : ℕ) : Prop :=
  ∃ row, orderOf db order.id = some row ∧ row.publicId = publicId

theorem keeps_publicId (db : Database) (w : SqlWrite) :
    Table.Keeps Order.publicId (db .orders) (db.apply w .orders) := by
  by_cases other : w.table = .orders
  · cases w with
    | insert t row =>
      cases other
      rw [Db.apply_insert_self]
      exact .insert _ _ _
    | update t k f =>
      cases other
      intro k' row found
      refine ⟨Table.rewrite k f row, ?_, ?_⟩
      · rw [Db.apply_update_self, Table.get_modify, found]
        rfl
      · have same := Table.uniques_rewrite k f row
        simpa [uniques] using same
    | lock t k => exact .refl _ _
  · rw [Db.apply_other db other]
    exact .refl _ _

theorem Named.applyAll {db : Database} {order : Order} {publicId : ℕ}
    (named : Named db order publicId) (ws : List SqlWrite) :
    Named (db.applyAll ws) order publicId := by
  induction ws generalizing db with
  | nil => exact named
  | cons w ws inductionHypothesis =>
    obtain ⟨row, there, isNamed⟩ := named
    obtain ⟨row', there', same⟩ := keeps_publicId db w _ row there
    exact inductionHypothesis ⟨row', there', same.trans isNamed⟩

/-- A public id names one order. -/
theorem Named.id_eq {db : Database} {order : Order} {publicId : ℕ} (named : Named db order publicId)
    {row : Order} (among : row ∈ (db .orders).rows)
    (isNamed : row.publicId = publicId) : order.id = row.id := by
  obtain ⟨row', there, isNamed'⟩ := named
  have listed : ∀ row : Order, row.publicId = publicId →
      UniqueKey.orderPublicId publicId ∈ uniques row := fun _ isNamed => by
    simp [uniques, isNamed]
  have same : row' = row :=
    Table.eq_of_unique (Table.get_mem there) among (listed row' isNamed') (listed row isNamed)
  have isKey := Table.get_key there
  rw [same] at isKey
  exact (RowKey.id.inj isKey).symm

/-- Where an `init` call stands; the order is the one for which it is about to insert. -/
inductive Place (publicId : ℕ) (db : Database) (call : ServiceCall) : Option Order → Prop where
  | start (core : Core) (customerId : ℕ)
      (start : call.prog = .session <$> PaymentService.init core publicId customerId)
      (fresh : call.loc = .start) : Place publicId db call none
  | looking (order : Order) (named : Named db order publicId) (looking : Looking order call) :
      Place publicId db call none
  | opening (order : Order) (named : Named db order publicId) (opening : Opening order call) :
      Place publicId db call (some order)
  | ended (result : Except Err Reply) (ends : call.prog = .done result) :
      Place publicId db call none

/-- A call is an `init` call in its place, or writes no session but to close one. -/
def Proper (db : Database) (call : ServiceCall) (opening : Option Order) : Prop :=
  match call.op with
  | .initPayment _ publicId _ => Place publicId db call opening
  | _ =>
    opening = none ∧ call.prog.Harmless (within Closes fun _ => True) ∧
      ∀ w ∈ call.loc.writes, Closes w

/-- The invariant, with the orders for which calls are about to insert. -/
structure Kept (opening : ℕ → Option Order) (p : Region) : Prop where
  one : AtMostOneLive p.db
  proper : ∀ i call, p.calls[i]? = some call → Proper p.db call (opening i)
  vacant : ∀ i order, opening i = some order → Vacant p.db order.id
  apart : ∀ i j a b, opening i = some a → opening j = some b → a.id = b.id → i = j
  bounded : ∀ i order, opening i = some order → ∃ call, p.calls[i]? = some call ∧ Opening order call

theorem Place.applyAll {publicId : ℕ} {db : Database} {call : ServiceCall} {opening : Option Order}
    (place : Place publicId db call opening) (ws : List SqlWrite) :
    Place publicId (db.applyAll ws) call opening := by
  cases place with
  | start core customerId start fresh => exact .start core customerId start fresh
  | looking order named looking => exact .looking order (named.applyAll ws) looking
  | opening order named opening => exact .opening order (named.applyAll ws) opening
  | ended result ends => exact .ended result ends

theorem Proper.applyAll {db : Database} {call : ServiceCall} {opening : Option Order}
    (proper : Proper db call opening) (ws : List SqlWrite) :
    Proper (db.applyAll ws) call opening := by
  unfold Proper at proper ⊢
  split
  next isInit =>
    rw [isInit] at proper
    exact Place.applyAll proper ws
  next => simp_all

theorem Place.step {publicId : ℕ} {db : Database} {call : ServiceCall} {opening : Option Order}
    (place : Place publicId db call opening) {x : Shared} {choice : Choice}
    {out : Outcome (K := RowKey) RowOf Shared Err Reply}
    (acts : call.prog.next choice call.loc db x = some out) :
    ∃ opening', InitStep publicId call db (afterwards call out) opening opening' out.db := by
  cases place with
  | start core customerId start fresh => exact ⟨none, initStep_start start fresh acts⟩
  | looking order named looking => exact initStep_looking looking acts
  | opening order named opening => exact initStep_opening opening acts
  | ended result ends =>
    rw [ends] at acts
    cases acts

/-- A call that looks for a session knows whose. -/
theorem Place.named {publicId : ℕ} {db : Database} {call : ServiceCall} {order : Order}
    {opening : Option Order} (place : Place publicId db call opening)
    (looking : Looking order call) : Named db order publicId := by
  obtain ⟨shown, core, isLook⟩ := looking
  cases place with
  | start core customerId start fresh =>
    rw [fresh] at shown
    cases shown
  | looking order' named looking' => exact order_of_seen shown looking'.1 ▸ named
  | opening order' named opening' => exact order_of_seen shown opening'.1 ▸ named
  | ended result ends =>
    rw [ends] at isLook
    cases isLook

theorem InitStep.place {publicId : ℕ} {db db' : Database} {call after : ServiceCall}
    {opening opening' : Option Order} (step : InitStep publicId call db after opening opening' db')
    (place : Place publicId db call opening) : Place publicId db' after opening' := by
  cases step with
  | shown order there isNamed looking => exact .looking order ⟨order, there, isNamed⟩ looking
  | found order looking session member ofOrder active ends => exact .ended _ ends
  | missed order looking vacant opening => exact .opening order (place.named looking) opening
  | nearer order opening =>
    cases place with
    | opening _ named _ => exact .opening order named opening
  | inserted order session ofOrder initialized free ends => exact .ended _ ends
  | failed _ err ends => exact .ended _ ends

/-- An `init` call looks for a session only while no other is on its way from a vain look to its
insertion for the same order. -/
def LooksAlone (p : Region) : Event Operation → Prop
  | .step i _ => ∀ call order, p.calls[i]? = some call → Looking order call →
      ∀ j other order', j ≠ i → p.calls[j]? = some other → Opening order' other →
      order'.id ≠ order.id
  | _ => True

section Preservation

variable {opening : ℕ → Option Order} {p : Region} {i : ℕ} {call : ServiceCall}

/-- The invariant after one call has moved on. -/
theorem Kept.moved (kept : Kept opening p) (found : p.calls[i]? = some call) {db : Database}
    {x : Shared} {after : ServiceCall} {opening' : Option Order} (one : AtMostOneLive db)
    (named : ∃ ws, db = p.db.applyAll ws) (proper : Proper db after opening')
    (others : ∀ j order, j ≠ i → opening j = some order → Vacant db order.id)
    (own : ∀ order, opening' = some order → Opening order after ∧ Vacant db order.id ∧ ∀ j other,
      j ≠ i → opening j = some other → other.id ≠ order.id) :
    Kept (Function.update opening i opening') ⟨db, x, p.calls.set i after⟩ := by
  have bound := (List.getElem?_eq_some_iff.1 found).1
  have elsewhere : ∀ j, j ≠ i → Function.update opening i opening' j = opening j :=
    fun j other => Function.update_of_ne other _ _
  have here : Function.update opening i opening' i = opening' := Function.update_self _ _ _
  -- Against the calls that stay: what they are about to open is left to them.
  constructor
  · exact one
  · intro j other isOther
    obtain ⟨rfl, rfl⟩ | ⟨ne, before⟩ := Pool.getElem?_moved isOther
    · rw [here]
      exact proper
    · obtain ⟨ws, rfl⟩ := named
      rw [elsewhere j ne]
      exact (kept.proper j other before).applyAll ws
  · intro j order isOpening
    by_cases same : j = i
    · subst same
      exact (own order (here ▸ isOpening)).2.1
    · exact others j order same (elsewhere j same ▸ isOpening)
  · intro j k a b isA isB sameId
    by_cases isJ : j = i
    · by_cases isK : k = i
      · rw [isJ, isK]
      · subst isJ
        rw [here] at isA
        rw [elsewhere k isK] at isB
        exact absurd sameId.symm ((own a isA).2.2 k b isK isB)
    · by_cases isK : k = i
      · subst isK
        rw [here] at isB
        rw [elsewhere j isJ] at isA
        exact absurd sameId ((own b isB).2.2 j a isJ isA)
      · rw [elsewhere j isJ] at isA
        rw [elsewhere k isK] at isB
        exact kept.apart j k a b isA isB sameId
  · intro j order isOpening
    by_cases same : j = i
    · subst same
      exact ⟨after, List.getElem?_set_self bound, (own order (here ▸ isOpening)).1⟩
    · obtain ⟨other, isOther, there⟩ := kept.bounded j order (elsewhere j same ▸ isOpening)
      exact ⟨other, by rw [List.getElem?_set_ne (Ne.symm same)]; exact isOther, there⟩

/-- A new session keeps the others apart from it. -/
theorem one_of_inserted {db : Database} {session : PaymentSession} (one : AtMostOneLive db)
    (vacant : Vacant db session.orderId) :
    AtMostOneLive (db.apply (.insert TableName.paymentSessions session : SqlWrite)) := by
  have cases : ∀ row ∈
      ((db.apply (.insert TableName.paymentSessions session : SqlWrite)) .paymentSessions).rows,
      row ∈ (db .paymentSessions).rows ∨ row = session := by
    intro row among
    rw [Db.apply_insert_self] at among
    exact Table.mem_insert among
  intro a isA b isB same activeA activeB
  obtain oldA | rfl := cases a isA <;> obtain oldB | rfl := cases b isB
  · exact one a oldA b oldB same activeA activeB
  · simp [vacant a oldA same] at activeA
  · simp [vacant b oldB same.symm] at activeB
  · rfl

theorem vacant_of_inserted {db : Database} {session : PaymentSession} {orderId : ℕ}
    (vacant : Vacant db orderId) (other : session.orderId ≠ orderId) :
    Vacant (db.apply (.insert TableName.paymentSessions session : SqlWrite)) orderId := by
  intro row among ofOrder
  rw [Db.apply_insert_self] at among
  rcases Table.mem_insert among with old | rfl
  · exact vacant row old ofOrder
  · exact absurd ofOrder other

theorem Kept.init_step (kept : Kept opening p) (found : p.calls[i]? = some call) {core : Core}
    {publicId customerId : ℕ} (isInit : call.op = .initPayment core publicId customerId)
    {choice : Choice} {out : Outcome (K := RowKey) RowOf Shared Err Reply}
    (acts : call.prog.next choice call.loc p.db p.side = some out)
    (alone : LooksAlone p (.step i choice)) :
    ∃ opening', Kept opening' ⟨out.db, out.side, p.calls.set i (afterwards call out)⟩ := by
  have place : Place publicId p.db call (opening i) := by
    have proper := kept.proper i call found
    rwa [Proper, isInit] at proper
  obtain ⟨opening', step⟩ := place.step acts
  have after : Proper out.db (afterwards call out) opening' := by
    rw [Proper, show (afterwards call out).op = call.op from rfl, isInit]
    exact step.place place
  refine ⟨_, kept.moved found ?_ ?_ after ?_ ?_⟩
  all_goals
    generalize isBefore : opening i = before at step
    generalize out.db = db at step
    generalize afterwards call out = next at step
  · cases step with
    | inserted order session ofOrder initialized free ends =>
      exact one_of_inserted kept.one (ofOrder ▸ kept.vacant i order isBefore)
    | _ => exact kept.one
  · cases step with
    | inserted order session ofOrder initialized free ends =>
      exact ⟨[.insert TableName.paymentSessions session], rfl⟩
    | _ => exact ⟨[], rfl⟩
  · intro j other ne isOther
    cases step with
    | inserted order session ofOrder initialized free ends =>
      -- Two calls never open a session for one order.
      refine vacant_of_inserted (kept.vacant j other isOther) fun same => ne ?_
      exact kept.apart j i other order isOther isBefore (by rw [← same, ofOrder])
    | _ => exact kept.vacant j other isOther
  · intro order isOpening
    cases step with
    | missed order' looking vacant opens =>
      cases isOpening
      refine ⟨opens, vacant, fun j other ne isOther => ?_⟩
      obtain ⟨call', isCall, opened⟩ := kept.bounded j other isOther
      exact alone call order found looking j call' other ne isCall opened
    | nearer order' opens =>
      cases isOpening
      exact ⟨opens, kept.vacant i order isBefore,
        fun j other ne isOther same => ne (kept.apart j i other order isOther isBefore same)⟩
    | _ => cases isOpening

theorem Kept.other_step (kept : Kept opening p) (found : p.calls[i]? = some call)
    (harmless : call.prog.Harmless (within Closes fun _ => True))
    (pending : ∀ w ∈ call.loc.writes, Closes w)
    (notInit : ∀ core publicId customerId, call.op ≠ .initPayment core publicId customerId)
    {choice : Choice} {out : Outcome (K := RowKey) RowOf Shared Err Reply}
    (acts : call.prog.next choice call.loc p.db p.side = some out) :
    ∃ opening', Kept opening' ⟨out.db, out.side, p.calls.set i (afterwards call out)⟩ := by
  obtain ⟨harmless', pending', ws, closes, isDb⟩ := harmless.next pending acts
  have fewer := activeFrom_applyAll closes p.db
  rw [← isDb] at fewer
  have after : Proper out.db (afterwards call out) none := by
    unfold Proper
    split
    next core publicId customerId isInit => exact absurd isInit (notInit core publicId customerId)
    next => exact ⟨rfl, harmless', pending'⟩
  refine ⟨_, kept.moved found (kept.one.of_activeFrom fewer) ⟨ws, isDb⟩ after ?_ ?_⟩
  · exact fun j order _ isOpening => (kept.vacant j order isOpening).of_activeFrom fewer
  · exact fun order isOpening => nomatch isOpening

end Preservation

/-! ## Runs -/

/-- Calls for a session, webhooks, and changes of an order's status. -/
def TouchesPayments : Operation → Prop
  | .initPayment .. | .webhook .. | .updateOrderStatus .. => True
  | _ => False

theorem closes_of_other {w : SqlWrite} (other : w.table ≠ .paymentSessions) : Closes w := .inl other

theorem proper_spawned (env : Config) {op : Operation} (touches : TouchesPayments op)
    (db : Database) : Proper db ⟨op, code env op, .start⟩ none := by
  have pending : ∀ w ∈ (Local.start : Local RowOf RowKey).writes, Closes w :=
    fun w none => absurd none List.not_mem_nil
  cases op with
  | initPayment core publicId customerId => exact .start core customerId rfl rfl
  | webhook payload signature signatureValid =>
    have harmless : (KashierWebhookService.process payload signature signatureValid).Harmless
        (within Closes fun _ => True) :=
      harmless_process payload signature signatureValid
        (fun id status updatedAt inactive => .inr ⟨_, status, updatedAt, inactive, rfl⟩)
        fun w isWork => closes_of_other fun isSession => by simp [isSession] at isWork
    exact ⟨rfl, harmless.bind fun _ => trivial, pending⟩
  | updateOrderStatus core publicId target actor =>
    have harmless : (OrderService.updateStatus core publicId target actor).Harmless
        (within Closes fun _ => True) :=
      harmless_updateStatus core publicId target actor (fun _ _ => closes_of_other nofun)
        (fun _ => closes_of_other nofun)
        fun _ => closes_of_other nofun
    exact ⟨rfl, harmless.map, pending⟩
  | _ => exact touches.elim

theorem proper_crashed {db : Database} (op : Operation) :
    Proper db ⟨op, .done (.error (Host.fault Shared)), .start⟩ none := by
  unfold Proper
  split
  · exact .ended _ rfl
  · exact ⟨rfl, trivial, fun w none => absurd none List.not_mem_nil⟩

theorem Kept.spawn {opening : ℕ → Option Order} {p : Region} (kept : Kept opening p)
    {call : ServiceCall} (proper : Proper p.db call none) :
    Kept opening { p with calls := p.calls ++ [call] } := by
  have unused : opening p.calls.length = none := by
    rw [Option.eq_none_iff_forall_not_mem]
    intro order isOpening
    obtain ⟨other, found, _⟩ := kept.bounded _ order isOpening
    simp at found
  refine ⟨kept.one, fun j other found => ?_, kept.vacant, kept.apart, fun j order isOpening => ?_⟩
  · obtain before | ⟨rfl, rfl⟩ := Pool.getElem?_spawned found
    · exact kept.proper j other before
    · rw [unused]
      exact proper
  · obtain ⟨other, found, there⟩ := kept.bounded j order isOpening
    refine ⟨other, ?_, there⟩
    rw [List.getElem?_append_left (List.getElem?_eq_some_iff.1 found).1]
    exact found

/-- The runs of these calls, with any faults and crashes, in which each `init` call looks alone. -/
def OneOpensAtATime (p : Region) (e : Event Operation) : Prop :=
  Serves TouchesPayments e ∧ LooksAlone p e

theorem Kept.next {env : Config} {opening : ℕ → Option Order} {p p' : Region} {e : Event Operation}
    (kept : Kept opening p) (allowed : OneOpensAtATime p e)
    (moves : p.next (code env) e = some p') : ∃ opening', Kept opening' p' := by
  cases e with
  | spawn op =>
    cases moves
    exact ⟨opening, kept.spawn (proper_spawned env allowed.1 p.db)⟩
  | step i choice =>
    obtain ⟨call, out, found, acts, _, rfl⟩ := Pool.stepCall_inv moves
    have proper := kept.proper i call found
    unfold Proper at proper
    split at proper
    next core publicId customerId isInit => exact kept.init_step found isInit acts allowed.2
    next notInit =>
      obtain ⟨_, harmless, pending⟩ := proper
      exact kept.other_step found harmless pending notInit acts
  | crash i =>
    obtain ⟨call, found, _, rfl⟩ := Pool.crashCall_inv moves
    refine ⟨_, kept.moved found kept.one ⟨[], rfl⟩ (proper_crashed call.op) ?_
      fun order isOpening => nomatch isOpening⟩
    exact fun j order _ isOpening => kept.vacant j order isOpening

theorem kept_of_reach {env : Config} {db : Database} {x : Shared} (one : AtMostOneLive db)
    {p : Region} (reached : Pool.Reach (code env) OneOpensAtATime (Pool.quiet db x) p) :
    ∃ opening, Kept opening p := by
  refine reached.induct (fun p => ∃ opening, Kept opening p) ⟨fun _ => none, ?_⟩ ?_
  · constructor
    · exact one
    · exact fun i call found => nomatch found
    · exact fun i order isOpening => nomatch isOpening
    · exact fun i j a b isA => nomatch isA
    · exact fun i order isOpening => nomatch isOpening
  · intro p p' e ⟨opening, kept⟩ allowed moves
    exact kept.next allowed moves

/-- An `init` call for an order with this public id is under way before the event, and afterwards it
has returned a session. -/
def Returns (publicId : ℕ) (session : PaymentSession) (p p' : Region) : Prop :=
  ∃ (i : ℕ) (before after : ServiceCall) (core : Core) (customerId : ℕ), p.calls[i]? = some before ∧
  Pool.Ended before = false ∧
    before.op = .initPayment core publicId customerId ∧ p'.calls[i]? = some after ∧
    after.prog = .done (.ok (.session session))

/-- In all runs from a state each order has at most one live session, and an `init` call that
returns while the order has one returns that one. -/
structure AlwaysOneLive (env : Config) (allowed : Region → Event Operation → Prop)
    (start : Region) : Prop where
  one : ∀ p, Pool.Reach (code env) allowed start p → AtMostOneLive p.db
  returned : ∀ p p' e, Pool.Reach (code env) allowed start p → allowed p e →
    p.next (code env) e = some p' →
    ∀ publicId session, Returns publicId session p p' →
    ∀ order ∈ (p'.db .orders).rows, order.publicId = publicId →
      ∀ live ∈ (p'.db .paymentSessions).rows, live.orderId = order.id → live.status.active = true →
      session = live

theorem not_ended_of_looking {order : Order} {call : ServiceCall} (looking : Looking order call)
    (result : Except Err Reply) : call.prog ≠ .done result := by
  obtain ⟨_, core, isLook⟩ := looking
  rw [isLook]
  exact nofun

theorem not_ended_of_opening {order : Order} {call : ServiceCall} (opening : Opening order call)
    (result : Except Err Reply) : call.prog ≠ .done result := by
  obtain ⟨_, rest, isRest, isProg⟩ := opening
  rw [isProg]
  cases isRest <;> exact nofun

/-- What is returned is a live session of the order. -/
theorem InitStep.returned {publicId : ℕ} {db db' : Database} {call after : ServiceCall}
    {opening opening' : Option Order} (step : InitStep publicId call db after opening opening' db')
    (place : Place publicId db call opening) {session : PaymentSession}
    (ends : after.prog = .done (.ok (.session session))) :
    ∃ order, Named db' order publicId ∧ session ∈ (db' .paymentSessions).rows ∧
    session.orderId = order.id ∧
      session.status.active = true := by
  cases step with
  | shown order there isNamed looking => exact absurd ends (not_ended_of_looking looking _)
  | missed order looking vacant opening => exact absurd ends (not_ended_of_opening opening _)
  | nearer order opening => exact absurd ends (not_ended_of_opening opening _)
  | failed _ err fails => cases fails.symm.trans ends
  | found order looking existing member ofOrder active isReply =>
    cases isReply.symm.trans ends
    exact ⟨order, place.named looking, member, ofOrder, active⟩
  | inserted order inserted ofOrder initialized free isReply =>
    cases isReply.symm.trans ends
    cases place with
    | opening _ named _ =>
      refine ⟨order, named.applyAll [.insert TableName.paymentSessions session], ?_, ofOrder, ?_⟩
      · rw [Db.apply_insert_self]
        exact Table.mem_insert_self free
      · rw [initialized]
        rfl

theorem one_live_session_while_calls_look_alone (env : Config) (db : Database) (x : Shared)
    (one : AtMostOneLive db) : AlwaysOneLive env OneOpensAtATime (Pool.quiet db x) := by
  refine ⟨fun p reached => ?_, ?_⟩
  · obtain ⟨opening, kept⟩ := kept_of_reach one reached
    exact kept.one
  intro p p' e reached allowed moves publicId session ⟨i, before, after, core, customerId, isBefore,
    running, isInit, isAfter, ends⟩
    order among isNamed live isLive ofOrder active
  obtain ⟨opening, kept⟩ := kept_of_reach one reached
  obtain ⟨opening', kept'⟩ := kept.next allowed moves
  have same : Pool.Ended after = true := by simp [Pool.Ended, ends]
  -- Only a step of the call itself ends it with a session.
  have stepped : ∃ choice out, before.prog.next choice before.loc p.db p.side = some out ∧
      after = afterwards before out ∧
      p'.db = out.db := by
    cases e with
    | spawn op =>
      cases moves
      rw [List.getElem?_append_left (List.getElem?_eq_some_iff.1 isBefore).1, isBefore] at isAfter
      cases isAfter
      exact absurd (running.symm.trans same) Bool.false_ne_true
    | step j choice =>
      obtain ⟨call, out, found, acts, _, rfl⟩ := Pool.stepCall_inv moves
      obtain ⟨rfl, rfl⟩ | ⟨ne, there⟩ := Pool.getElem?_moved isAfter
      · cases isBefore.symm.trans found
        exact ⟨choice, out, acts, rfl, rfl⟩
      · cases isBefore.symm.trans there
        exact absurd (running.symm.trans same) Bool.false_ne_true
    | crash j =>
      obtain ⟨call, found, _, rfl⟩ := Pool.crashCall_inv moves
      obtain ⟨rfl, rfl⟩ | ⟨ne, there⟩ := Pool.getElem?_moved isAfter
      · cases ends
      · cases isBefore.symm.trans there
        exact absurd (running.symm.trans same) Bool.false_ne_true
  obtain ⟨choice, out, acts, rfl, isDb⟩ := stepped
  have place : Place publicId p.db before (opening i) := by
    have proper := kept.proper i before isBefore
    rwa [Proper, isInit] at proper
  obtain ⟨_, step⟩ := place.step acts
  rw [← isDb] at step
  obtain ⟨order', named, member, ofOrder', active'⟩ := step.returned place ends
  exact kept'.one session member live isLive (by rw [ofOrder', ofOrder, named.id_eq among isNamed])
    active' active

instance : DecidablePred TouchesPayments
  | .initPayment .. | .webhook .. | .updateOrderStatus .. => inferInstanceAs (Decidable True)
  | .assign .. | .tryAutoAssign .. | .reassign .. | .updateDeliveryStatus .. | .placeOrder ..
  | .refund .. | .online .. | .offline ..
  | .ping .. | .recordPayout .. | .sleep .. => inferInstanceAs (Decidable False)

/-- A call looks alone while no other is under way. -/
theorem oneOpensAtATime_of_consecutive {p : Region} {e : Event Operation}
    (alone : Consecutive TouchesPayments p e) : OneOpensAtATime p e := by
  refine ⟨alone.serves, ?_⟩
  cases e with
  | spawn op => trivial
  | step i choice =>
    intro call order _ _ j other order' different found opening
    have going : Pool.Ended other = false := by
      by_contra ended
      obtain ⟨result, isDone⟩ := Pool.ended_iff.1 (by simpa using ended)
      exact not_ended_of_opening opening result isDone
    exact absurd (alone.eq_of_live (Pool.live_of_not_ended found going)) different
  | crash i => trivial

/-- A provider that gives each session a name of its own. -/
def providerNaming (name : String) : Core :=
  { Sample.core with createSession := fun _ _ _ => .ok ⟨name, "https://checkout"⟩ }

/-- The customer asks for a session, and asks again when the call is over. -/
def askedInTurn : List (Event Operation) :=
  .spawn (.initPayment (providerNaming "a") 100 7) :: List.replicate 5 (Sample.act 0) ++
  .spawn (.initPayment (providerNaming "b") 100 7) :: List.replicate 2 (Sample.act 1)

theorem second_call_opens_no_session :
    ∃ p, Pool.Reach (code Sample.env) OneOpensAtATime
      (Pool.quiet (Sample.dbPaying .failed) Sample.shared) p ∧ p.Idle = true ∧
      (p.db .paymentSessions).rows.map (fun row : PaymentSession => (row.id, row.status)) =
        [(1, .failed), (10, .initialized)] ∧
      AtMostOneLive p.db := by
  have played :
      (Pool.play (code Sample.env) (fun p e => decide (Consecutive TouchesPayments p e)) askedInTurn
      (Pool.quiet (Sample.dbPaying .failed) Sample.shared)).map
        (fun p => (p.Idle, (p.db .paymentSessions).rows.map fun row : PaymentSession =>
        (row.id, row.status))) =
      some (true, [(1, .failed), (10, .initialized)]) := by decide +kernel
  obtain ⟨p, isRun, isEnd⟩ := Option.map_eq_some_iff.1 played
  simp only [Prod.mk.injEq] at isEnd
  have reached : Pool.Reach (code Sample.env) OneOpensAtATime
      (Pool.quiet (Sample.dbPaying .failed) Sample.shared) p :=
    Pool.reach_of_play
      (fun _ _ checked => oneOpensAtATime_of_consecutive (of_decide_eq_true checked)) isRun
  have one : AtMostOneLive (Sample.dbPaying .failed) := fun _ isA _ isB _ _ _ =>
    (List.mem_singleton.1 isA).trans (List.mem_singleton.1 isB).symm
  have always :=
    one_live_session_while_calls_look_alone Sample.env (Sample.dbPaying .failed) Sample.shared one
  exact ⟨p, reached, isEnd.1, isEnd.2, always.one p reached⟩

/-! ## Two calls that look together -/

/-- The runs in which no call fails. -/
def PaymentsAndStatuses (_ : Region) (e : Event Operation) : Prop :=
  Serves TouchesPayments e ∧ Faultless e

instance (p : Region) (e : Event Operation) : Decidable (PaymentsAndStatuses p e) :=
  inferInstanceAs (Decidable (_ ∧ _))

/-- The customer asks twice for a session, and both calls have looked before either inserts. -/
def askedTwice : List (Event Operation) :=
  [.spawn (.initPayment (providerNaming "a") 100 7),
    .spawn (.initPayment (providerNaming "b") 100 7), Sample.act 0, Sample.act 0,
    Sample.act 1, Sample.act 1] ++ List.replicate 3 (Sample.act 0) ++
      List.replicate 3 (Sample.act 1)

theorem two_calls_open_two_sessions :
    ¬ AlwaysOneLive Sample.env PaymentsAndStatuses
      (Pool.quiet (Sample.dbPaying .failed) Sample.shared) := by
  intro always
  have two : (Pool.play (code Sample.env) (fun p e => decide (PaymentsAndStatuses p e)) askedTwice
      (Pool.quiet (Sample.dbPaying .failed) Sample.shared)).map
        (fun p => (p.db .paymentSessions).rows.map fun row : PaymentSession =>
        (row.id, row.orderId, row.status)) =
      some [(1, 1, .failed), (10, 1, .initialized), (11, 1, .initialized)] := by decide +kernel
  obtain ⟨p, played, rows⟩ := Option.map_eq_some_iff.1 two
  have one := always.one p (Pool.reach_of_play (fun _ _ => of_decide_eq_true) played)
  have shown :
      ∀ data ∈ [(1, 1, PaymentSessionStatus.failed), (10, 1, .initialized), (11, 1, .initialized)],
      ∃ row ∈ (p.db .paymentSessions).rows, (row.id, row.orderId, row.status) = data := by
    rw [← rows]
    exact fun _ => List.mem_map.1
  obtain ⟨a, isA, dataA⟩ := shown (10, 1, .initialized) (by simp)
  obtain ⟨b, isB, dataB⟩ := shown (11, 1, .initialized) (by simp)
  simp only [Prod.mk.injEq] at dataA dataB
  have same :=
    one a isA b isB (by rw [dataA.2.1, dataB.2.1]) (by rw [dataA.2.2]; rfl) (by rw [dataB.2.2]; rfl)
  have ids := congrArg PaymentSession.id same
  omega

end SwiftBite.Verified.LiveSessions
