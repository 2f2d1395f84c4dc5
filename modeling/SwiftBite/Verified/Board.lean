import SwiftBite.Verified.AloneStatus
import SwiftBite.Verified.OneSettlement

/-! # The dispatch board

What the orders and deliveries tables say about who brings what: the status of each order,
and for each delivery its order, its agent and its status.  Each commit of the services is
one move of the board.
-/

set_option autoImplicit false

namespace SwiftBite.Verified

open Store Statement

/-! ## The board and its moves -/

structure Job where
  orderId : ℕ
  agentId : ℕ
  status : DeliveryStatus
  deriving DecidableEq

structure Board where
  orders : ℕ → Option OrderStatus
  jobs : ℕ → Option Job

namespace Board

@[ext] theorem eq_of_lookups {b b' : Board} (orders : ∀ id, b.orders id = b'.orders id)
    (jobs : ∀ id, b.jobs id = b'.jobs id) : b = b' := by
  obtain ⟨orders₁, jobs₁⟩ := b
  obtain ⟨orders₂, jobs₂⟩ := b'
  congr 1
  · exact funext orders
  · exact funext jobs

/-- An order that is there gets a status. -/
def setOrder (b : Board) (id : ℕ) (status : OrderStatus) : Board :=
  { b with
    orders := fun id' => if id' = id then (b.orders id').map fun _ => status else b.orders id' }

/-- A job that is there gets a status. -/
def setJob (b : Board) (id : ℕ) (status : DeliveryStatus) : Board :=
  { b with
    jobs := fun id' =>
      if id' = id then (b.jobs id').map fun job => { job with status } else b.jobs id' }

/-- A new job, and its order assigned. -/
def book (b : Board) (id : ℕ) (job : Job) : Board :=
  { b.setOrder job.orderId .assigned with
    jobs := fun id' => if id' = id then some job else b.jobs id' }

/-- The jobs under way for an order are cancelled. -/
def release (b : Board) (orderId : ℕ) : Board :=
  { b with
    jobs := fun id => (b.jobs id).map fun job =>
      if job.orderId = orderId ∧ job.status.active = true then { job with status := .cancelled }
      else job }

variable (b : Board)

@[simp] theorem jobs_setOrder (id : ℕ) (status : OrderStatus) :
    (b.setOrder id status).jobs = b.jobs := rfl

@[simp] theorem orders_setJob (id : ℕ) (status : DeliveryStatus) :
    (b.setJob id status).orders = b.orders :=
  rfl

@[simp] theorem orders_release (orderId : ℕ) : (b.release orderId).orders = b.orders := rfl

theorem orders_setOrder (id id' : ℕ) (status : OrderStatus) :
    (b.setOrder id status).orders id' =
      if id' = id then (b.orders id').map fun _ => status else b.orders id' :=
  rfl

theorem jobs_setJob (id id' : ℕ) (status : DeliveryStatus) :
    (b.setJob id status).jobs id' =
      if id' = id then (b.jobs id').map fun job => { job with status } else b.jobs id' :=
  rfl

theorem orders_book (id : ℕ) (job : Job) :
    (b.book id job).orders = (b.setOrder job.orderId .assigned).orders :=
  rfl

theorem jobs_book (id id' : ℕ) (job : Job) :
    (b.book id job).jobs id' = if id' = id then some job else b.jobs id' :=
  rfl

variable {b}

/-- A job after a change of status is the old one, or the one that was changed. -/
theorem job_of_setJob {id id' : ℕ} {status : DeliveryStatus} {job' : Job}
    (found : (b.setJob id status).jobs id' = some job') :
    ∃ job, b.jobs id' = some job ∧ job'.orderId = job.orderId ∧ job'.agentId = job.agentId ∧
      job'.status = if id' = id then status else job.status := by
  rw [jobs_setJob] at found
  by_cases same : id' = id
  · rw [if_pos same] at found
    obtain ⟨job, isJob, rfl⟩ := Option.map_eq_some_iff.1 found
    exact ⟨job, isJob, rfl, rfl, by rw [if_pos same]⟩
  · rw [if_neg same] at found
    exact ⟨job', found, rfl, rfl, by rw [if_neg same]⟩

theorem job_of_release {orderId id : ℕ} {job' : Job}
    (found : (b.release orderId).jobs id = some job') :
    ∃ job, b.jobs id = some job ∧ job'.orderId = job.orderId ∧ job'.agentId = job.agentId ∧
      job'.status = if job.orderId = orderId ∧ job.status.active = true then .cancelled
        else job.status := by
  obtain ⟨job, isJob, rfl⟩ := Option.map_eq_some_iff.1 found
  refine ⟨job, isJob, ?_⟩
  split
  next => exact ⟨rfl, rfl, rfl⟩
  next => exact ⟨rfl, rfl, rfl⟩

/-! ### Jobs under way -/

/-- Every job under way on the first board is under way on the second. -/
def Fewer (b' b : Board) : Prop :=
  ∀ id job', b'.jobs id = some job' → job'.status.active = true →
    ∃ job, b.jobs id = some job ∧ job.status.active = true ∧ job'.orderId = job.orderId ∧
    job'.agentId = job.agentId

theorem Fewer.of_jobs {b b' : Board} (same : b'.jobs = b.jobs) : b'.Fewer b := by
  intro id job found active
  rw [same] at found
  exact ⟨job, found, active, rfl, rfl⟩

theorem Fewer.trans {b b' b'' : Board} (second : b''.Fewer b')
    (first : b'.Fewer b) : b''.Fewer b := by
  intro id job'' found active
  obtain ⟨job', found', active', sameOrder', sameAgent'⟩ := second id job'' found active
  obtain ⟨job, found, active, sameOrder, sameAgent⟩ := first id job' found' active'
  exact ⟨job, found, active, sameOrder'.trans sameOrder, sameAgent'.trans sameAgent⟩

theorem fewer_setOrder (id : ℕ) (status : OrderStatus) : (b.setOrder id status).Fewer b :=
  .of_jobs rfl

/-- A job that ends, or that was under way before. -/
theorem fewer_setJob {id : ℕ} {status : DeliveryStatus}
    (already : ∀ job, b.jobs id = some job → status.active = true → job.status.active = true) :
    (b.setJob id status).Fewer b := by
  intro id' job' found active
  obtain ⟨job, isJob, sameOrder, sameAgent, isStatus⟩ := job_of_setJob found
  refine ⟨job, isJob, ?_, sameOrder, sameAgent⟩
  by_cases same : id' = id
  · subst same
    rw [if_pos rfl] at isStatus
    exact already job isJob (isStatus ▸ active)
  · rw [if_neg same] at isStatus
    exact isStatus ▸ active

theorem fewer_release (orderId : ℕ) : (b.release orderId).Fewer b := by
  intro id job' found active
  obtain ⟨job, isJob, sameOrder, sameAgent, isStatus⟩ := job_of_release found
  refine ⟨job, isJob, ?_, sameOrder, sameAgent⟩
  split at isStatus
  next isMatch => exact isMatch.2
  next => exact isStatus ▸ active

/-- The agent has a job under way. -/
def Serving (b : Board) (agentId : ℕ) : Prop :=
  ∃ id job, b.jobs id = some job ∧ job.agentId = agentId ∧ job.status.active = true

theorem Serving.of_fewer {b' : Board} {agentId : ℕ} (serving : b'.Serving agentId)
    (fewer : b'.Fewer b) : b.Serving agentId := by
  obtain ⟨id, job', found, rfl, active⟩ := serving
  obtain ⟨job, isJob, active', _, sameAgent⟩ := fewer id job' found active
  exact ⟨id, job, isJob, sameAgent.symm, active'⟩

theorem serving_book {id agentId : ℕ} {job : Job} (serving : (b.book id job).Serving agentId) :
    b.Serving agentId ∨ agentId = job.agentId := by
  obtain ⟨id', job', found, rfl, active⟩ := serving
  rw [jobs_book] at found
  split at found
  next =>
    cases found
    exact .inr rfl
  next => exact .inl ⟨id', job', found, rfl, active⟩

/-- No agent has two jobs under way. -/
def OneEach (b : Board) : Prop :=
  ∀ id id' job job', b.jobs id = some job → b.jobs id' = some job' → job.agentId = job'.agentId →
  job.status.active = true →
    job'.status.active = true → id = id'

theorem OneEach.fewer {b' : Board} (oneEach : b.OneEach) (fewer : b'.Fewer b) : b'.OneEach := by
  intro id id' first second found found' sameAgent active active'
  obtain ⟨job, isJob, wasActive, _, agent⟩ := fewer id first found active
  obtain ⟨job', isJob', wasActive', _, agent'⟩ := fewer id' second found' active'
  exact oneEach id id' job job' isJob isJob' (agent.symm.trans (sameAgent.trans agent'))
    wasActive wasActive'

theorem OneEach.book {id : ℕ} {job : Job} (oneEach : b.OneEach) (idle : ¬b.Serving job.agentId) :
    (b.book id job).OneEach := by
  intro first second job₁ job₂ found₁ found₂ sameAgent active₁ active₂
  rw [jobs_book] at found₁ found₂
  split at found₁
  next isFirst =>
    split at found₂
    next isSecond => exact isFirst.trans isSecond.symm
    next =>
      cases found₁
      exact absurd ⟨second, job₂, found₂, sameAgent.symm, active₂⟩ idle
  next =>
    split at found₂
    next =>
      cases found₂
      exact absurd ⟨first, job₁, found₁, sameAgent, active₁⟩ idle
    next => exact oneEach first second job₁ job₂ found₁ found₂ sameAgent active₁ active₂

/-- The agent of a job that ends is idle. -/
theorem OneEach.idle {b' : Board} {id : ℕ} {job : Job} (oneEach : b.OneEach) (fewer : b'.Fewer b)
    (found : b.jobs id = some job) (active : job.status.active = true)
    (ended : ∀ job', b'.jobs id = some job' → job'.status.active = false) :
    ¬b'.Serving job.agentId := by
  rintro ⟨id', job', found', sameAgent, active'⟩
  obtain ⟨old, isOld, wasActive, _, agent⟩ := fewer id' job' found' active'
  have same : id' = id :=
    oneEach id' id old job isOld found (agent.symm.trans sameAgent) wasActive active
  rw [same] at found'
  rw [ended job' found'] at active'
  cases active'

end Board

/-! ## The tables as a board -/

def jobOf (d : Delivery) : Job := ⟨d.orderId, d.agentId, d.status⟩

/-- What the tables say. -/
def boardOf (db : Database) : Board :=
  ⟨fun id => (orderOf db id).map Order.status, fun id => (deliveryOf db id).map jobOf⟩

section

variable {db db' : Database}

theorem boardOf_congr (orders : db' .orders = db .orders)
    (deliveries : db' .deliveries = db .deliveries) : boardOf db' = boardOf db := by
  simp only [boardOf, orderOf, deliveryOf, orders, deliveries]

theorem jobs_of_get {id : ℕ} {d : Delivery} (found : deliveryOf db id = some d) :
    (boardOf db).jobs id = some (jobOf d) := by
  simp only [boardOf, found, Option.map_some]

theorem orders_of_get {id : ℕ} {row : Order} (found : orderOf db id = some row) :
    (boardOf db).orders id = some row.status := by
  simp only [boardOf, found, Option.map_some]

theorem get_of_jobs {id : ℕ} {job : Job} (found : (boardOf db).jobs id = some job) :
    ∃ d, deliveryOf db id = some d ∧ jobOf d = job :=
  Option.map_eq_some_iff.1 found

theorem get_of_orders {id : ℕ} {status : OrderStatus}
    (found : (boardOf db).orders id = some status) :
    ∃ row, orderOf db id = some row ∧ row.status = status :=
  Option.map_eq_some_iff.1 found

theorem orders_none_iff {id : ℕ} : (boardOf db).orders id = none ↔ orderOf db id = none :=
  Option.map_eq_none_iff

/-- A row that is changed under its key shows the change on the board. -/
theorem map_get_modify {ρ α : Type} [Keyed ρ RowKey UniqueKey] {table : Table ρ} {k k' : RowKey}
    {f : ρ → ρ} {view : ρ → α} {g : α → α}
    (identity : ∀ row, key (f row) = key row ∧ uniques (f row) = uniques row)
    (shows : ∀ row, view (f row) = g (view row)) :
    ((table.modify k f).get k').map view = if k' = k then ((table.get k').map view).map g
      else (table.get k').map view := by
  rw [Table.get_modify]
  cases found : table.get k' with
  | none => simp
  | some row =>
    have isKey := Table.get_key found
    by_cases same : k' = k
    · rw [if_pos same]
      simp [Table.rewrite_of_eq (isKey.trans same),
        Table.keepIdentity_eq (identity row).1 (identity row).2, shows row]
    · rw [if_neg same]
      have other : key row ≠ k := fun isK => same (isKey.symm.trans isK)
      simp [Table.rewrite_of_ne other]

theorem Delivery.identity_withStatus (status : DeliveryStatus) (stamp : Option ℕ) (row : Delivery) :
    key (Delivery.withStatus status stamp row) = key row ∧
    uniques (Delivery.withStatus status stamp row) = uniques row := by
  cases status <;> exact ⟨rfl, rfl⟩

theorem jobOf_withStatus (status : DeliveryStatus) (stamp : Option ℕ) (row : Delivery) :
    jobOf (Delivery.withStatus status stamp row) = { jobOf row with status } := by
  cases status <;> rfl

theorem boardOf_setJob {id : ℕ} {status : DeliveryStatus} {stamp : Option ℕ}
    (deliveries : db' .deliveries =
      (db .deliveries).modify (RowKey.id id) (Delivery.withStatus status stamp))
    (orders : db' .orders = db .orders) : boardOf db' = (boardOf db).setJob id status := by
  refine Board.eq_of_lookups
    (fun id' => by simp only [boardOf, orderOf, orders, Board.orders_setJob]) fun id' => ?_
  rw [Board.jobs_setJob]
  simp only [boardOf, deliveryOf, deliveries]
  rw [map_get_modify (g := fun job : Job => { job with
    status := status }) (Delivery.identity_withStatus status stamp)
    (jobOf_withStatus status stamp)]
  simp

theorem boardOf_setOrder {id : ℕ} {f : Order → Order} {status : OrderStatus}
    (orders : db' .orders = (db .orders).modify (RowKey.id id) f)
    (deliveries : db' .deliveries = db .deliveries)
    (identity : ∀ row, key (f row) = key row ∧ uniques (f row) = uniques row)
    (sets : ∀ row, (f row).status = status) : boardOf db' = (boardOf db).setOrder id status := by
  refine Board.eq_of_lookups (fun id' => ?_) fun id' =>
    by simp only [boardOf, deliveryOf, deliveries, Board.jobs_setOrder]
  rw [Board.orders_setOrder]
  simp only [boardOf, orderOf, orders]
  rw [map_get_modify identity (g := fun _ => status) sets]
  simp

/-! ## Each commit is a move -/

theorem boardOf_updateDelivery (db : Database) (id : ℕ) (status : DeliveryStatus)
    (stamp : Option ℕ) :
    boardOf (db.apply
      (.update TableName.deliveries (RowKey.id id) (Delivery.withStatus status stamp))) =
      (boardOf db).setJob id status :=
  boardOf_setJob (Db.apply_update_self db .deliveries _ _) (Db.apply_update_ne db _ _ (by decide))

theorem boardOf_updateOrder (db : Database) (id : ℕ) (status : OrderStatus) (updatedAt : ℕ)
    (stamp : Option ℕ) :
    boardOf (db.apply
      (.update TableName.orders (RowKey.id id) (Order.withStatus status updatedAt stamp))) =
      (boardOf db).setOrder id status :=
  boardOf_setOrder (Db.apply_update_self db .orders _ _) (Db.apply_update_ne db _ _ (by decide))
    (Order.identity_withStatus status updatedAt stamp) fun _ => rfl

theorem boardOf_written {order : Order} {target : OrderStatus}
    (written : StatusWritten order target db db') :
    boardOf db' = (boardOf db).setOrder order.id target := by
  obtain ⟨updatedAt, stamp, orders⟩ := written.orders
  exact boardOf_setOrder orders (written.others _ (by decide) (by decide))
    (Order.identity_withStatus target updatedAt stamp) fun _ => rfl

theorem boardOf_booked {delivery : Delivery} {assignedAt updatedAt : ℕ}
    (free : (db .deliveries).conflicts delivery = false) :
    boardOf (db.applyAll (assignmentWrites delivery assignedAt updatedAt)) =
      (boardOf db).book delivery.id (jobOf delivery) := by
  refine Board.eq_of_lookups (fun id' => ?_) fun id' => ?_
  · rw [Board.orders_book, Board.orders_setOrder]
    simp only [boardOf, orderOf, assignmentWrites_orders]
    rw [map_get_modify (f := Order.withAgent delivery.agentId assignedAt updatedAt)
      (g := fun _ => OrderStatus.assigned)
      (fun _ => ⟨rfl, rfl⟩) fun _ => rfl]
    simp [jobOf]
  · rw [Board.jobs_book]
    simp only [boardOf, deliveryOf, assignmentWrites_deliveries]
    by_cases same : id' = delivery.id
    · subst same
      rw [if_pos rfl, show (RowKey.id delivery.id) = key delivery from rfl,
        Table.get_insert_self free]
      rfl
    · have other : (key delivery : RowKey) ≠ RowKey.id id' :=
        fun isKey => same (RowKey.id.inj isKey).symm
      rw [if_neg same, Table.get_insert_of_ne other]

theorem boardOf_released {orderId : ℕ} (released : Released orderId db db') :
    boardOf db' = (boardOf db).release orderId := by
  refine Board.eq_of_lookups (fun id' => ?_) fun id' => ?_
  · simp only [boardOf, orderOf, released.others .orders (by decide), Board.orders_release]
  · simp only [boardOf, deliveryOf, released.deliveries, Board.release]
    cases (db .deliveries).get (RowKey.id id') with
    | none => rfl
    | some d =>
      simp only [Option.map_some, Option.some.injEq]
      by_cases isMatch : Delivery.orderId d = orderId ∧ d.status.active = true
      · rw [if_pos isMatch,
          if_pos (show (jobOf d).orderId = orderId ∧ (jobOf d).status.active = true from isMatch)]
        rfl
      · rw [if_neg isMatch, if_neg
          (show ¬((jobOf d).orderId = orderId ∧ (jobOf d).status.active = true) from isMatch)]

theorem boardOf_settled {order : Order} {branch : CoreBranch} {delivery : Delivery}
    {commission agentEarning : ℤ} {V : Database → Prop}
    (settled : Settled order branch delivery commission agentEarning V db db') :
    boardOf db' = ((boardOf db).setJob delivery.id .delivered).setOrder order.id .delivered := by
  obtain ⟨stamp, deliveries⟩ := settled.deliveries
  obtain ⟨updatedAt, updatedAt', stamp', orders⟩ := settled.orders
  refine Board.eq_of_lookups (fun id' => ?_) fun id' => ?_
  · rw [Board.orders_setOrder]
    simp only [boardOf, orderOf, orders, Board.orders_setJob]
    rw [map_get_modify (Order.identity_withStatus .delivered updatedAt' stamp')
      (g := fun _ => OrderStatus.delivered) fun _ => rfl,
      map_get_modify (f := Order.withCommission commission updatedAt) (g := id)
        (fun _ => ⟨rfl, rfl⟩) fun _ => rfl]
    simp
  · rw [Board.jobs_setOrder, Board.jobs_setJob]
    simp only [boardOf, deliveryOf, deliveries]
    rw [map_get_modify (f := Delivery.withEarning agentEarning) (g := id)
      (fun _ => ⟨rfl, rfl⟩) fun _ => rfl,
      map_get_modify (g := fun job : Job => { job with status := .delivered })
        (Delivery.identity_withStatus .delivered stamp)
        (jobOf_withStatus .delivered stamp)]
    simp

theorem board_of_presence {agentId : ℕ} (changed : PresenceChanged agentId db db') :
    boardOf db' = boardOf db :=
  boardOf_congr (changed.others _ (by decide)) (changed.others _ (by decide))

theorem freeOf_iff {agentId : ℕ} : FreeOf db agentId ↔ ¬(boardOf db).Serving agentId := by
  constructor
  · rintro free ⟨id, job, found, rfl, active⟩
    obtain ⟨d, isDelivery, rfl⟩ := get_of_jobs found
    have inactive := free d (Table.get_mem isDelivery) rfl
    exact absurd (inactive.symm.trans active) Bool.false_ne_true
  · intro idle d member ofAgent
    by_contra active
    exact idle ⟨d.id, jobOf d, jobs_of_get (Table.get_of_mem member), ofAgent,
      eq_true_of_ne_false active⟩

end

/-! ## The operations -/

/-- The operations that take part in the dispatch of agents. -/
def Dispatches : Operation → Prop
  | .updateOrderStatus .. | .assign .. | .tryAutoAssign .. | .reassign .. | .updateDeliveryStatus ..
  | .online .. |
    .offline .. | .ping .. | .sleep .. => True
  | .placeOrder .. | .initPayment .. | .refund .. | .webhook .. | .recordPayout .. => False

instance : DecidablePred Dispatches
  | .updateOrderStatus .. | .assign .. | .tryAutoAssign .. | .reassign .. | .updateDeliveryStatus ..
  | .online .. |
    .offline .. | .ping .. | .sleep .. => inferInstanceAs (Decidable True)
  | .placeOrder .. | .initPayment .. | .refund .. | .webhook .. | .recordPayout .. =>
    inferInstanceAs (Decidable False)

/-- Operations that meet a condition where they start, each run to its end before the next. -/
abbrev OneByOne (condition : Operation → Database → Shared → Prop) :
    Region → Event Operation → Prop :=
  Pool.Serially condition

end SwiftBite.Verified
