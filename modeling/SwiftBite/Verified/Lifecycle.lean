import SwiftBite.Verified.Board
import SwiftBite.Verified.PaymentSteps
import SwiftBite.Verified.Placement

/-! # The life of an order

What orders, deliveries and payment sessions say about each other between two calls, and
which changes of status an order may undergo.
-/

set_option autoImplicit false

namespace SwiftBite.Verified

open Store Prog Statement

/-- The status of the order that a job in this status belongs to, if it must have one. -/
def needs : DeliveryStatus → Option OrderStatus
  | .assigned | .accepted => some .assigned
  | .picked => some .picked
  | .delivered => some .delivered
  | .rejected | .cancelled | .reassigned => none

theorem needs_of_active {status : DeliveryStatus} (active : status.active = true) :
    needs status = some .assigned ∨ needs status = some .picked := by
  revert active
  cases status <;> decide

theorem active_of_needs {status : DeliveryStatus} {orderStatus : OrderStatus}
    (isNeeded : needs status = some orderStatus) (underWay : orderStatus ≠ .delivered) :
    status.active = true := by
  revert isNeeded underWay
  cases status <;> cases orderStatus <;> decide

theorem needs_of_delivered {status : DeliveryStatus} {orderStatus : OrderStatus}
    (isNeeded : needs status = some orderStatus) :
    orderStatus = .assigned ∨ orderStatus = .picked ∨ orderStatus = .delivered := by
  revert isNeeded
  cases status <;> cases orderStatus <;> decide

namespace Board

/-! ## Orders and jobs that agree -/

def Agrees (b : Board) : Prop :=
  ∀ id job status, b.jobs id = some job → needs job.status = some status →
  b.orders job.orderId = some status

/-- No order has two jobs under way. -/
def OneForEach (b : Board) : Prop :=
  ∀ id id' job job', b.jobs id = some job → b.jobs id' = some job' → job.orderId = job'.orderId →
  job.status.active = true →
    job'.status.active = true → id = id'

/-- No job needs the order in some status. -/
def Idle (b : Board) (orderId : ℕ) : Prop :=
  ∀ id job, b.jobs id = some job → job.orderId = orderId → needs job.status = none

structure Sound (b : Board) : Prop where
  agrees : b.Agrees
  oneForEach : b.OneForEach
  known : ∀ id job, b.jobs id = some job → b.orders job.orderId ≠ none

variable {b : Board}

theorem OneForEach.fewer {b' : Board} (oneForEach : b.OneForEach)
    (fewer : b'.Fewer b) : b'.OneForEach := by
  intro id id' first second found found' sameOrder active active'
  obtain ⟨job, isJob, wasActive, order, _⟩ := fewer id first found active
  obtain ⟨job', isJob', wasActive', order', _⟩ := fewer id' second found' active'
  exact oneForEach id id' job job' isJob isJob' (order.symm.trans (sameOrder.trans order'))
    wasActive wasActive'

/-- No job is under way for the order. -/
def Unserved (b : Board) (orderId : ℕ) : Prop :=
  ∀ id job, b.jobs id = some job → job.orderId = orderId → job.status.active = false

theorem OneForEach.book {id : ℕ} {job : Job} (oneForEach : b.OneForEach)
    (unserved : b.Unserved job.orderId) : (b.book id job).OneForEach := by
  have alone : ∀ id' job', b.jobs id' = some job' → job'.orderId = job.orderId →
      job'.status.active = true → False :=
    fun id' job' isJob ofOrder active =>
      Bool.false_ne_true ((unserved id' job' isJob ofOrder).symm.trans active)
  intro first second job₁ job₂ found₁ found₂ sameOrder active₁ active₂
  rw [jobs_book] at found₁ found₂
  split at found₁
  next isFirst =>
    split at found₂
    next isSecond => exact isFirst.trans isSecond.symm
    next =>
      cases found₁
      exact (alone second job₂ found₂ sameOrder.symm active₂).elim
  next =>
    split at found₂
    next =>
      cases found₂
      exact (alone first job₁ found₁ sameOrder active₁).elim
    next => exact oneForEach first second job₁ job₂ found₁ found₂ sameOrder active₁ active₂

theorem orders_setOrder_ne_none {id id' : ℕ} {status : OrderStatus} (known : b.orders id' ≠ none) :
    (b.setOrder id status).orders id' ≠ none := by
  rw [orders_setOrder]
  split
  next => simpa using known
  next => exact known

theorem orders_setOrder_self {id : ℕ} {status : OrderStatus} (known : b.orders id ≠ none) :
    (b.setOrder id status).orders id = some status := by
  obtain ⟨old, found⟩ := Option.ne_none_iff_exists'.1 known
  rw [orders_setOrder, if_pos rfl, found]
  rfl

namespace Sound

variable (sound : b.Sound)
include sound

/-- An order in a status that no job needs is idle. -/
theorem idle_of_status {orderId : ℕ} {status : OrderStatus} (found : b.orders orderId = some status)
    (unneeded : status ≠ .assigned ∧ status ≠ .picked ∧ status ≠ .delivered) : b.Idle orderId := by
  intro id job isJob ofOrder
  cases isNeeded : needs job.status with
  | none => rfl
  | some needed =>
    have agrees := sound.agrees id job needed isJob isNeeded
    rw [ofOrder, found] at agrees
    cases agrees
    rcases needs_of_delivered isNeeded with rfl | rfl | rfl
    · exact absurd rfl unneeded.1
    · exact absurd rfl unneeded.2.1
    · exact absurd rfl unneeded.2.2

/-- The other jobs of an order with a job under way are over. -/
theorem others_over {id id' : ℕ} {job job' : Job} (found : b.jobs id = some job)
    (active : job.status.active = true) (found' : b.jobs id' = some job')
    (sameOrder : job'.orderId = job.orderId) (other : id' ≠ id) : needs job'.status = none := by
  cases isNeeded : needs job'.status with
  | none => rfl
  | some needed =>
    have agrees' := sound.agrees id' job' needed found' isNeeded
    rw [sameOrder] at agrees'
    have underWay : needed ≠ .delivered := by
      rintro rfl
      rcases needs_of_active active with isAssigned | isPicked
      · cases agrees'.symm.trans (sound.agrees id job _ found isAssigned)
      · cases agrees'.symm.trans (sound.agrees id job _ found isPicked)
    exact absurd (sound.oneForEach id' id job' job found' found sameOrder
      (active_of_needs isNeeded underWay) active) other

/-! ### The moves -/

theorem setOrder {orderId : ℕ} (idle : b.Idle orderId) (status : OrderStatus) :
    (b.setOrder orderId status).Sound := by
  refine ⟨fun id job needed found isNeeded => ?_, sound.oneForEach,
    fun id job found => orders_setOrder_ne_none (sound.known id job found)⟩
  have other : job.orderId ≠ orderId := by
    intro ofOrder
    cases (idle id job found ofOrder).symm.trans isNeeded
  rw [orders_setOrder, if_neg other]
  exact sound.agrees id job needed found isNeeded

/-- A job that is given up. -/
theorem giveUp (id : ℕ) {status : DeliveryStatus} (isOver : needs status = none) :
    (b.setJob id status).Sound := by
  have ends : status.active = true → ∀ job : Job, job.status.active = true := fun active => by
    rcases needs_of_active active with isNeeded | isNeeded <;> cases isOver.symm.trans isNeeded
  refine ⟨fun id' job' needed found isNeeded => ?_,
    sound.oneForEach.fewer (fewer_setJob fun job _ active => ends active job),
    fun id' job' found => ?_⟩
  · obtain ⟨job, isJob, sameOrder, _, isStatus⟩ := job_of_setJob found
    split at isStatus
    next =>
      rw [isStatus, isOver] at isNeeded
      cases isNeeded
    next =>
      rw [isStatus] at isNeeded
      rw [orders_setJob, sameOrder]
      exact sound.agrees id' job needed isJob isNeeded
  · obtain ⟨job, isJob, sameOrder, _⟩ := job_of_setJob found
    rw [orders_setJob, sameOrder]
    exact sound.known id' job isJob

theorem idle_of_givenUp {id : ℕ} {job : Job} (found : b.jobs id = some job)
    (active : job.status.active = true) {status : DeliveryStatus} (isOver : needs status = none) :
    (b.setJob id status).Idle job.orderId := by
  intro id' job' found' ofOrder
  obtain ⟨old, isOld, sameOrder, _, isStatus⟩ := job_of_setJob found'
  by_cases same : id' = id
  · rw [if_pos same] at isStatus
    rw [isStatus, isOver]
  · rw [if_neg same] at isStatus
    rw [isStatus]
    exact sound.others_over found active isOld (sameOrder.symm.trans ofOrder) same

theorem accept {id : ℕ} (waits : ∀ job, b.jobs id = some job → job.status = .assigned) :
    (b.setJob id .accepted).Sound := by
  refine ⟨fun id' job' needed found isNeeded => ?_,
    sound.oneForEach.fewer (fewer_setJob fun job isJob _ => ?_), fun id' job' found => ?_⟩
  · obtain ⟨job, isJob, sameOrder, _, isStatus⟩ := job_of_setJob found
    rw [orders_setJob, sameOrder]
    refine sound.agrees id' job needed isJob ?_
    split at isStatus
    next same =>
      subst same
      rw [isStatus] at isNeeded
      rw [waits job isJob]
      exact isNeeded
    next => rwa [← isStatus]
  · rw [waits job isJob]
    rfl
  · obtain ⟨job, isJob, sameOrder, _⟩ := job_of_setJob found
    rw [orders_setJob, sameOrder]
    exact sound.known id' job isJob

/-- A job under way and its order go on together. -/
theorem follow {id : ℕ} {job : Job} (found : b.jobs id = some job)
    (active : job.status.active = true) {status : DeliveryStatus} {orderStatus : OrderStatus}
    (isNeeded : needs status = some orderStatus) :
    ((b.setJob id status).setOrder job.orderId orderStatus).Sound := by
  have fewer : (b.setJob id status).Fewer b := fewer_setJob fun job' isJob' _ => by
    cases found.symm.trans isJob'
    exact active
  refine ⟨fun id' job' needed found' isNeeded' => ?_, sound.oneForEach.fewer fewer,
    fun id' job' found' => ?_⟩
  · obtain ⟨old, isOld, sameOrder, _, isStatus⟩ := job_of_setJob found'
    by_cases same : id' = id
    · subst same
      cases found.symm.trans isOld
      rw [if_pos rfl] at isStatus
      rw [isStatus, isNeeded] at isNeeded'
      cases isNeeded'
      rw [sameOrder]
      exact orders_setOrder_self (sound.known _ _ found)
    · rw [if_neg same] at isStatus
      rw [isStatus] at isNeeded'
      have other : job'.orderId ≠ job.orderId := fun ofOrder => by
        cases (sound.others_over found active isOld (sameOrder.symm.trans ofOrder) same).symm.trans
          isNeeded'
      rw [orders_setOrder, if_neg other, orders_setJob, sameOrder]
      exact sound.agrees id' old needed isOld isNeeded'
  · obtain ⟨old, isOld, sameOrder, _⟩ := job_of_setJob found'
    refine orders_setOrder_ne_none ?_
    rw [orders_setJob, sameOrder]
    exact sound.known id' old isOld

theorem book {id : ℕ} {job : Job} (idle : b.Idle job.orderId) (known : b.orders job.orderId ≠ none)
    (isAssigned : job.status = .assigned) : (b.book id job).Sound := by
  -- Nobody else was on the way for the order.
  have unserved : b.Unserved job.orderId := by
    intro id' job' isJob ofOrder
    by_contra active
    rcases needs_of_active (eq_true_of_ne_false active) with isNeeded | isNeeded <;>
      cases (idle id' job' isJob ofOrder).symm.trans isNeeded
  refine ⟨fun id' job' needed found isNeeded => ?_, sound.oneForEach.book unserved,
    fun id' job' found => ?_⟩
  · rw [jobs_book] at found
    split at found
    next =>
      cases found
      rw [isAssigned] at isNeeded
      cases isNeeded
      exact orders_setOrder_self known
    next =>
      have other : job'.orderId ≠ job.orderId := fun ofOrder => by
        cases (idle id' job' found ofOrder).symm.trans isNeeded
      rw [orders_book, orders_setOrder, if_neg other]
      exact sound.agrees id' job' needed found isNeeded
  · rw [jobs_book] at found
    rw [orders_book]
    split at found
    next =>
      cases found
      exact orders_setOrder_ne_none known
    next => exact orders_setOrder_ne_none (sound.known id' job' found)

/-- An order that is not delivered is cancelled, and the jobs under way for it. -/
theorem cancel {orderId : ℕ} {status : OrderStatus} (found : b.orders orderId = some status)
    (undelivered : status ≠ .delivered) (target : OrderStatus) :
    ((b.setOrder orderId target).release orderId).Sound := by
  refine ⟨fun id job' needed isJob' isNeeded => ?_, sound.oneForEach.fewer (fewer_release orderId),
    fun id job' isJob' => ?_⟩
  · obtain ⟨job, isJob, sameOrder, _, isStatus⟩ := job_of_release isJob'
    split at isStatus
    next =>
      rw [isStatus] at isNeeded
      cases isNeeded
    next notMatch =>
      rw [isStatus] at isNeeded
      have agrees := sound.agrees id job needed isJob isNeeded
      have other : job.orderId ≠ orderId := by
        intro ofOrder
        rw [ofOrder, found] at agrees
        cases agrees
        exact notMatch ⟨ofOrder, active_of_needs isNeeded undelivered⟩
      rw [orders_release, orders_setOrder, sameOrder, if_neg other]
      exact agrees
  · obtain ⟨job, isJob, sameOrder, _⟩ := job_of_release isJob'
    rw [orders_release, sameOrder]
    exact orders_setOrder_ne_none (sound.known id job isJob)

/-- A new order has no jobs. -/
theorem place {b' : Board} {orderId : ℕ} {status : OrderStatus} (vacant : b.orders orderId = none)
    (orders : ∀ id, b'.orders id = if id = orderId then some status else b.orders id)
    (jobs : b'.jobs = b.jobs) : b'.Sound := by
  have others : ∀ id job, b.jobs id = some job → b'.orders job.orderId = b.orders job.orderId := by
    intro id job isJob
    have other : job.orderId ≠ orderId := by
      intro isNew
      exact sound.known id job isJob (by rw [isNew, vacant])
    rw [orders, if_neg other]
  refine ⟨fun id job needed found isNeeded => ?_, sound.oneForEach.fewer (.of_jobs jobs),
    fun id job found => ?_⟩
  · rw [jobs] at found
    rw [others id job found]
    exact sound.agrees id job needed found isNeeded
  · rw [jobs] at found
    rw [others id job found]
    exact sound.known id job found

end Sound

/-! ## Changes of status -/

/-- An order may go from one status to the other: by an edge of the state machine, by a capture,
or in some odd way. -/
def Goes (odd : OrderStatus → OrderStatus → Prop) (source target : OrderStatus) : Prop :=
  source = target ∨ source.edge target = true ∨ (source = .pendingPayment ∧ target = .placed) ∨
  odd source target

/-- No order vanishes, and each goes from its status to one that it may have next. -/
def Changes (odd : OrderStatus → OrderStatus → Prop) (b b' : Board) : Prop :=
  ∀ id source, b.orders id = some source →
  ∃ target, b'.orders id = some target ∧ Goes odd source target

variable {odd : OrderStatus → OrderStatus → Prop}

theorem Changes.of_orders {b' : Board} (same : b'.orders = b.orders) : b.Changes odd b' := by
  intro id source found
  exact ⟨source, by rw [same, found], .inl rfl⟩

theorem changes_setOrder {id : ℕ} {target : OrderStatus}
    (goes : ∀ source, b.orders id = some source → Goes odd source target) :
    b.Changes odd (b.setOrder id target) := by
  intro id' source found
  rw [orders_setOrder]
  by_cases same : id' = id
  · subst same
    exact ⟨target, by rw [if_pos rfl, found]; rfl, goes source found⟩
  · exact ⟨source, by rw [if_neg same, found], .inl rfl⟩

theorem changes_place {b' : Board} {orderId : ℕ} {status : OrderStatus}
    (vacant : b.orders orderId = none)
    (orders : ∀ id, b'.orders id = if id = orderId then some status else b.orders id) :
    b.Changes odd b' := by
  intro id source found
  refine ⟨source, ?_, .inl rfl⟩
  rw [orders, if_neg, found]
  rintro rfl
  cases vacant.symm.trans found

end Board

/-! ## Orders and payment sessions -/

/-- An order for which a payment may still come in. -/
def Unpaid (status : Option OrderStatus) : Prop :=
  status = some .pendingPayment ∨ status = some .cancelled

structure Checkout (db : Database) : Prop where
  waits : ∀ session ∈ (db .paymentSessions).rows,
    PaymentSessionStatus.active (PaymentSession.status session) = true →
    Unpaid ((boardOf db).orders session.orderId)
  one : ∀ a ∈ (db .paymentSessions).rows, ∀ b ∈ (db .paymentSessions).rows,
    PaymentSession.orderId a = PaymentSession.orderId b →
    a.status.active = true → b.status.active = true → a = b

/-- What holds between two calls. -/
structure Consistent (db : Database) : Prop where
  sound : (boardOf db).Sound
  checkout : Checkout db

section

variable {db db' : Database}

namespace Checkout

theorem kept (checkout : Checkout db) (sessions : db' .paymentSessions = db .paymentSessions)
    (unpaid : ∀ id, Unpaid ((boardOf db).orders id) → Unpaid ((boardOf db').orders id)) :
    Checkout db' := by
  refine ⟨fun session member active =>
    unpaid _ (checkout.waits session (sessions ▸ member) active), ?_⟩
  rw [sessions]
  exact checkout.one

/-- One order goes on, and stays unpaid if it was. -/
theorem setOrder (checkout : Checkout db) (sessions : db' .paymentSessions = db .paymentSessions)
    {id : ℕ} {target : OrderStatus}
    (orders : (boardOf db').orders = ((boardOf db).setOrder id target).orders)
    (stays : Unpaid ((boardOf db).orders id) → Unpaid (some target)) : Checkout db' := by
  refine checkout.kept sessions fun id' unpaid => ?_
  rw [orders, Board.orders_setOrder]
  by_cases same : id' = id
  · subst same
    have known : ∃ status, (boardOf db).orders id' = some status :=
      unpaid.elim (fun isStatus => ⟨_, isStatus⟩) fun isStatus => ⟨_, isStatus⟩
    obtain ⟨status, found⟩ := known
    rw [if_pos rfl, found]
    exact stays unpaid
  · rwa [if_neg same]

/-- The order's only active session is closed, whatever becomes of the order. -/
theorem close (checkout : Checkout db) {session : PaymentSession}
    (found : (db .paymentSessions).get (RowKey.id session.id) = some session)
    (active : session.status.active = true) {status : PaymentSessionStatus} {updatedAt : ℕ}
    (closes : status.active = false)
    (sessions : db' .paymentSessions = (db .paymentSessions).modify (RowKey.id session.id)
      (PaymentSession.withStatus status updatedAt))
    (orders : ∀ id, id ≠ session.orderId → (boardOf db').orders id = (boardOf db).orders id) :
    Checkout db' := by
  -- The sessions that are still active were there before, and are of other orders.
  have old : ∀ row ∈ (db' .paymentSessions).rows,
      PaymentSessionStatus.active (PaymentSession.status row) = true →
      row ∈ (db .paymentSessions).rows ∧ row.orderId ≠ session.orderId := by
    intro row member isActive
    rw [sessions] at member
    obtain ⟨before, among, rfl⟩ := Table.mem_modify.1 member
    by_cases same : key before = (RowKey.id session.id : RowKey)
    · have changed : Table.keepIdentity before (PaymentSession.withStatus status updatedAt before) =
        PaymentSession.withStatus status updatedAt before := Table.keepIdentity_eq rfl rfl
      rw [Table.rewrite_of_eq same, changed] at isActive
      cases closes.symm.trans isActive
    · rw [Table.rewrite_of_ne same] at isActive ⊢
      refine ⟨among, fun ofOrder => same ?_⟩
      have isSession :=
        checkout.one before among session (Table.get_mem found) ofOrder isActive active
      exact isSession ▸ rfl
  refine ⟨fun row member isActive => ?_, fun a inA b inB ofOrder activeA activeB => ?_⟩
  · obtain ⟨among, other⟩ := old row member isActive
    rw [orders _ other]
    exact checkout.waits row among isActive
  · exact checkout.one a (old a inA activeA).1 b (old b inB activeB).1 ofOrder activeA activeB

/-- A session is opened for an order that has none. -/
theorem opens (checkout : Checkout db) {session : PaymentSession}
    (free : (db .paymentSessions).conflicts session = false)
    (unpaid : Unpaid ((boardOf db).orders session.orderId))
    (vacant : ∀ row ∈ (db .paymentSessions).rows, PaymentSession.orderId row = session.orderId →
      row.status.active = false)
    (sessions : db' .paymentSessions = (db .paymentSessions).insert session)
    (board : boardOf db' = boardOf db) : Checkout db' := by
  have rows : ∀ row, row ∈ (db' .paymentSessions).rows ↔
      row ∈ (db .paymentSessions).rows ∨ row = session := by
    intro row
    rw [sessions, Table.rows_insert free, List.mem_append, List.mem_singleton]
  have alone : ∀ row ∈ (db .paymentSessions).rows, PaymentSession.orderId row = session.orderId →
      PaymentSessionStatus.active (PaymentSession.status row) = true → False :=
        fun row member ofOrder active =>
    Bool.false_ne_true ((vacant row member ofOrder).symm.trans active)
  refine ⟨fun row member active => ?_, fun a inA b inB ofOrder activeA activeB => ?_⟩
  · rw [board]
    rcases (rows row).1 member with old | rfl
    · exact checkout.waits row old active
    · exact unpaid
  · rcases (rows a).1 inA with oldA | rfl <;> rcases (rows b).1 inB with oldB | rfl
    · exact checkout.one a oldA b oldB ofOrder activeA activeB
    · exact (alone a oldA ofOrder activeA).elim
    · exact (alone b oldB ofOrder.symm activeB).elim
    · rfl

end Checkout

theorem Consistent.congr (consistent : Consistent db) (board : boardOf db' = boardOf db)
    (sessions : db' .paymentSessions = db .paymentSessions) : Consistent db' :=
  ⟨board ▸ consistent.sound, consistent.checkout.kept sessions fun _ unpaid => board ▸ unpaid⟩

end

end SwiftBite.Verified
