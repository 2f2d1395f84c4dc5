import SwiftBite.Archival.Calendar
import SwiftBite.Data.Shared
import SwiftBite.Store.Batches
import SwiftBite.Store.Machine

/-! # The archival worker

`runArchivalOnce` of one region: any number of executions, in any processes, each statement,
each Redis command and each look at the clock a step of its own, with the writes of the
services to the hot database in between.  The `SELECT` of a batch and the transaction that
inserts or deletes it are apart, and an execution can die or fail at every step.
-/

set_option autoImplicit false

namespace SwiftBite

open Store

namespace Archival

def BATCH_SIZE : ℕ := 1000

/-! ## Eligible rows -/

def rowId {t : TableName} (row : RowOf t) : ℕ :=
  match (key row : RowKey) with
  | .id n => n
  | .account .. => 0

/-- `created_at < cutoffIso` -/
def orderEligible (cutoff : ℕ) (order : Order) : Bool := order.createdAt < cutoff

/-- `order_id IN (SELECT id FROM orders WHERE created_at < cutoffIso)` -/
def byParentOrder (db : Database) (cutoff : ℕ) (orderId : Option ℕ) : Bool :=
  (db .orders).rows.any fun order => some (Order.id order) = orderId && orderEligible cutoff order

/-- `TABLE_ELIGIBILITY` -/
def eligible (db : Database) (cutoff : ℕ) : (t : TableName) → RowOf t → Bool
  | .orders, order => orderEligible cutoff order
  | .orderItems, item => byParentOrder db cutoff (some (OrderItem.orderId item))
  | .transactions, transaction => byParentOrder db cutoff (Transaction.orderId transaction)
  | .paymentSessions, session => byParentOrder db cutoff (some (PaymentSession.orderId session))
  | .deliveries, delivery => byParentOrder db cutoff (some (Delivery.orderId delivery))
  | .agentEarnings, earning => byParentOrder db cutoff (some (AgentEarning.orderId earning))
  | .paymentWebhookEvents, event => WebhookEvent.receivedAt event < cutoff
  | .restaurantBalances, _ | .agentPresence, _ | .eventsOutbox, _ => false

def PASS1_INSERT_ORDER : List TableName :=
  [.orders, .orderItems, .transactions, .paymentSessions, .paymentWebhookEvents, .deliveries,
    .agentEarnings]

def PASS2_DELETE_ORDER : List TableName :=
  [.agentEarnings, .deliveries, .paymentWebhookEvents, .paymentSessions, .transactions,
    .orderItems, .orders]

def cutoffIso (now : ℕ) : ℕ := Calendar.yearStart (Calendar.yearOf now)

theorem cutoffIso_milliseconds (now : ℕ) : cutoffIso (now / 1000 * 1000) = cutoffIso now := by
  rw [cutoffIso, Calendar.yearOf_milliseconds, cutoffIso]

/-- The rows of the next batch of an insert pass. -/
def insertBatch (db : Database) (cutoff : ℕ) (t : TableName) (cursor : ℕ) : List (RowOf t) :=
  ascending rowId BATCH_SIZE
    ((db t).rows.filter fun row => eligible db cutoff t row && cursor < rowId row)

/-- The ids of the next batch of a delete pass. -/
def deleteBatch (db : Database) (cutoff : ℕ) (t : TableName) : List ℕ :=
  (descending rowId BATCH_SIZE ((db t).rows.filter (eligible db cutoff t))).map rowId

/-! ## Through the driver -/

/-- What becomes of a timestamp on its way through a `Date`: it loses the microseconds, and is
sent as the wall-clock time of a process `offset` minutes ahead of UTC. -/
def wallClock (offset : ℤ) (time : ℕ) : ℕ := ((time / 1000 * 1000 : ℕ) + offset * 60000000).toNat

/-- The row as it arrives in the archive. -/
def carried (offset : ℤ) : (t : TableName) → RowOf t → RowOf t
  | .orders, (row : Order) => { row with
      createdAt := wallClock offset row.createdAt
      updatedAt := wallClock offset row.updatedAt
      acceptedAt := row.acceptedAt.map (wallClock offset)
      rejectedAt := row.rejectedAt.map (wallClock offset)
      readyAt := row.readyAt.map (wallClock offset)
      assignedAt := row.assignedAt.map (wallClock offset)
      pickedAt := row.pickedAt.map (wallClock offset)
      deliveredAt := row.deliveredAt.map (wallClock offset)
      cancelledAt := row.cancelledAt.map (wallClock offset) }
  | .orderItems, (row : OrderItem) => { row with createdAt := wallClock offset row.createdAt }
  | .transactions, (row : Transaction) => { row with
      createdAt := wallClock offset row.createdAt
      updatedAt := wallClock offset row.updatedAt }
  | .paymentSessions, (row : PaymentSession) => { row with
      createdAt := wallClock offset row.createdAt
      updatedAt := wallClock offset row.updatedAt }
  | .paymentWebhookEvents, (row : WebhookEvent) => { row with
      receivedAt := wallClock offset row.receivedAt
      processedAt := row.processedAt.map (wallClock offset) }
  | .deliveries, (row : Delivery) => { row with
      assignedAt := wallClock offset row.assignedAt
      acceptedAt := row.acceptedAt.map (wallClock offset)
      rejectedAt := row.rejectedAt.map (wallClock offset)
      pickedAt := row.pickedAt.map (wallClock offset)
      deliveredAt := row.deliveredAt.map (wallClock offset)
      reassignedAt := row.reassignedAt.map (wallClock offset) }
  | .agentEarnings, (row : AgentEarning) => { row with earnedAt := wallClock offset row.earnedAt }
  | .restaurantBalances, row => row
  | .agentPresence, row => row
  | .eventsOutbox, row => row

/-- `INSERT .. ON CONFLICT (id) DO NOTHING` of several rows; nothing when another unique index
is violated. -/
def insertRows {t : TableName} : List (RowOf t) → Table (RowOf t) → Option (Table (RowOf t))
  | [], table => some table
  | row :: rows, table =>
    if (table.get (key row)).isSome then insertRows rows table
    else if table.conflicts row then none
    else insertRows rows (table.insert row)

/-! ## Executions -/

/-- The settings of a process. -/
structure Host where
  maxRuntimeMin : ℕ
  /-- How many minutes the local time is ahead of UTC. -/
  offset : ℤ

def Host.lockTtlSec (host : Host) : ℕ := (host.maxRuntimeMin + 5) * 60

inductive Kind where
  | insert
  | delete
  deriving DecidableEq

/-- A call of `runInsertPass` or `runDeletePass`. -/
structure Pass where
  kind : Kind
  table : TableName
  /-- The tables that follow in the same loop. -/
  later : List TableName
  cutoff : ℕ
  cursor : ℕ
  moved : ℕ

/-- The pass when a batch is inserted. -/
def Pass.inserted (pass : Pass) (rows : List (RowOf pass.table)) : Pass :=
  { pass with
    cursor := (rows.getLast?.map rowId).getD pass.cursor, moved := pass.moved + rows.length }

def Pass.deleted (pass : Pass) (ids : List ℕ) : Pass :=
  { pass with moved := pass.moved + ids.length }

/-- Where an execution is. -/
inductive Place where
  | acquiring
  | acquired
  /-- At the head of a loop over the tables. -/
  | tables (kind : Kind) (left : List TableName)
  /-- At `while (!budget.exceeded())`. -/
  | loop (pass : Pass)
  | fetch (pass : Pass)
  /-- The rows are selected, and their transaction is under way. -/
  | insert (pass : Pass) (rows : List (RowOf pass.table))
  | delete (pass : Pass) (ids : List ℕ)
  /-- In `maybeRenew`: before it looks at the clock, before the script runs, after its reply. -/
  | renew (pass : Pass) (isLast : Bool)
  | renewing (pass : Pass) (isLast : Bool)
  | renewed (pass : Pass) (isLast : Bool)
  /-- In the `finally`. -/
  | releasing
  | ended

/-- An execution of `runArchivalOnce`. -/
structure Run where
  token : ℕ
  /-- `Date.now()` when the budget was made. -/
  began : ℕ
  lastRenewAt : ℕ
  place : Place
  inserted : List (TableName × ℕ)
  deleted : List (TableName × ℕ)
  /-- The lock was free, and neither an error nor the budget has cut the execution short. -/
  whole : Bool

/-- `totalMoved` of the summary. -/
def Run.totalMoved (run : Run) : ℕ := (run.deleted.map Prod.snd).sum

structure Lock where
  token : ℕ
  expiresAt : ℕ
  deriving DecidableEq

/-- What the executions share. -/
structure Site where
  hot : Database
  archive : Database
  /-- In microseconds. -/
  now : ℕ
  lock : Option Lock

/-- `Date.now()` -/
def Site.dateNow (site : Site) : ℕ := site.now / 1000

/-- `GET`: the token of a lock that has not expired. -/
def Site.holder (site : Site) : Option ℕ :=
  (site.lock.filter fun lock => site.dateNow ≤ lock.expiresAt).map Lock.token

def Site.lockFor (site : Site) (host : Host) (token : ℕ) : Site :=
  { site with lock := some ⟨token, site.dateNow + host.lockTtlSec * 1000⟩ }

/-- `RENEW_SCRIPT` -/
def Site.renewLock (site : Site) (host : Host) (token : ℕ) : Site :=
  if site.holder = some token then site.lockFor host token else site

/-- `RELEASE_SCRIPT` -/
def Site.releaseLock (site : Site) (token : ℕ) : Site :=
  if site.holder = some token then { site with lock := none } else site

@[simp] theorem Site.hot_renewLock (site : Site) (host : Host) (token : ℕ) :
    (site.renewLock host token).hot = site.hot := by
  unfold renewLock; split <;> rfl

@[simp] theorem Site.archive_renewLock (site : Site) (host : Host) (token : ℕ) :
    (site.renewLock host token).archive = site.archive := by
  unfold renewLock; split <;> rfl

@[simp] theorem Site.now_renewLock (site : Site) (host : Host) (token : ℕ) :
    (site.renewLock host token).now = site.now := by
  unfold renewLock; split <;> rfl

@[simp] theorem Site.hot_releaseLock (site : Site) (token : ℕ) :
    (site.releaseLock token).hot = site.hot := by
  unfold releaseLock; split <;> rfl

@[simp] theorem Site.archive_releaseLock (site : Site) (token : ℕ) :
    (site.releaseLock token).archive = site.archive := by
  unfold releaseLock; split <;> rfl

@[simp] theorem Site.now_releaseLock (site : Site) (token : ℕ) :
    (site.releaseLock token).now = site.now := by
  unfold releaseLock; split <;> rfl

def Site.insertInto (site : Site) (t : TableName) (table : Table (RowOf t)) : Site :=
  { site with archive := Function.update site.archive t table }

def Site.deleteFrom (site : Site) (t : TableName) (ids : List ℕ) : Site :=
  { site with hot := Function.update site.hot t ((site.hot t).delete fun row => rowId row ∈ ids) }

/-- What becomes of a statement or a command: it is done, it fails, or it is done and the reply
is lost. -/
inductive Outcome where
  | done
  | failed
  | unanswered
  deriving DecidableEq

namespace Run

variable (host : Host) (site : Site) (run : Run)

/-- `budget.exceeded()` -/
def exceeded : Bool := run.began + host.maxRuntimeMin * 60000 ≤ site.dateNow

def goTo (place : Place) : Run := { run with place := place }

/-- An error is thrown inside the `try`. -/
def throw : Run := { run with place := .releasing, whole := false }

/-- The execution is over before its end. -/
def stop : Run := { run with place := .ended, whole := false }

/-- The pass returns `moved`. -/
def leave (pass : Pass) : Run :=
  match pass.kind with
  | .insert =>
    { run with
      place := .tables .insert pass.later, inserted := run.inserted ++ [(pass.table, pass.moved)] }
  | .delete =>
    { run with
      place := .tables .delete pass.later, deleted := run.deleted ++ [(pass.table, pass.moved)] }

/-- Behind a loop over the tables. -/
def behind : Kind → Place
  | .insert => .tables .delete PASS2_DELETE_ORDER
  | .delete => .releasing

/-- Behind `maybeRenew`. -/
def resume (pass : Pass) (isLast : Bool) : Run :=
  if isLast then run.leave pass else run.goTo (.loop pass)

@[simp] theorem place_leave (run : Run) (pass : Pass) :
    (run.leave pass).place = .tables pass.kind pass.later := by
  unfold leave
  split <;> simp_all

@[simp] theorem place_goTo (run : Run) (place : Place) : (run.goTo place).place = place := rfl

@[simp] theorem place_resume (run : Run) (pass : Pass) (isLast : Bool) :
    (run.resume pass isLast).place = if isLast then .tables pass.kind pass.later
      else .loop pass := by
  cases isLast <;> simp [resume]

@[simp] theorem began_leave (run : Run) (pass : Pass) : (run.leave pass).began = run.began := by
  unfold leave
  split <;> rfl

@[simp] theorem whole_leave (run : Run) (pass : Pass) : (run.leave pass).whole = run.whole := by
  unfold leave
  split <;> rfl

@[simp] theorem began_goTo (run : Run) (place : Place) : (run.goTo place).began = run.began := rfl

@[simp] theorem whole_goTo (run : Run) (place : Place) : (run.goTo place).whole = run.whole := rfl

@[simp] theorem began_resume (run : Run) (pass : Pass) (isLast : Bool) :
    (run.resume pass isLast).began = run.began := by
  cases isLast <;> simp [resume]

@[simp] theorem whole_resume (run : Run) (pass : Pass) (isLast : Bool) :
    (run.resume pass isLast).whole = run.whole := by
  cases isLast <;> simp [resume]

@[simp] theorem whole_throw (run : Run) : run.throw.whole = false := rfl

@[simp] theorem place_throw (run : Run) : run.throw.place = .releasing := rfl

@[simp] theorem place_stop (run : Run) : run.stop.place = .ended := rfl

/-- `INSERT .. ON CONFLICT ("id") DO NOTHING` in the archive. -/
def insertStep (outcome : Outcome) (pass : Pass) (rows : List (RowOf pass.table)) : Site × Run :=
  match outcome, insertRows (rows.map (carried host.offset pass.table))
    (site.archive pass.table) with
  -- The whole statement fails with one row.
  | .failed, _ | _, none => (site, run.throw)
  | .unanswered, some table => (site.insertInto pass.table table, run.throw)
  | .done, some table =>
    (site.insertInto pass.table table,
      run.goTo (.renew (pass.inserted rows) (decide (rows.length < BATCH_SIZE))))

/-- `DELETE .. WHERE id IN (ids)` in hot. -/
def deleteStep (outcome : Outcome) (pass : Pass) (ids : List ℕ) : Site × Run :=
  match outcome with
  | .failed => (site, run.throw)
  | .unanswered => (site.deleteFrom pass.table ids, run.throw)
  | .done =>
    (site.deleteFrom pass.table ids,
      run.goTo (.renew (pass.deleted ids) (decide (ids.length < BATCH_SIZE))))

def fetchStep (outcome : Outcome) (pass : Pass) : Run :=
  if outcome ≠ .done then run.throw
  else match pass.kind with
  | .insert =>
    match insertBatch site.hot pass.cutoff pass.table pass.cursor with
    | [] => run.leave pass
    | row :: rows => run.goTo (.insert pass (row :: rows))
  -- The archive is not looked at.
  | .delete =>
    match deleteBatch site.hot pass.cutoff pass.table with
    | [] => run.leave pass
    | id :: ids => run.goTo (.delete pass (id :: ids))

/-- The next step of an execution; `none` when there is none of the kind. -/
def next (outcome : Outcome) : Option (Site × Run) :=
  match run.place with
  | .acquiring =>
    match outcome, site.holder with
    | .failed, _ => some (site, run.stop)
    | _, some _ => some (site, run.stop)
    -- The lock is held by nobody then, until its time is over.
    | .unanswered, none => some (site.lockFor host run.token, run.stop)
    | .done, none => some (site.lockFor host run.token, run.goTo .acquired)
  -- The budget and the keep-alive are made once the lock has been answered.
  | .acquired =>
    some (site, { run with
      began := site.dateNow, lastRenewAt := site.dateNow,
      place := .tables .insert PASS1_INSERT_ORDER })
  | .tables kind [] => some (site, run.goTo (behind kind))
  | .tables kind (table :: later) =>
    if run.exceeded host site then some (site, { run with place := behind kind, whole := false })
    -- Each pass takes the cutoff from the clock again.
    else some (site, run.goTo (.loop ⟨kind, table, later, cutoffIso site.now, 0, 0⟩))
  | .loop pass =>
    if run.exceeded host site then some (site, { run.leave pass with whole := false })
    else some (site, run.goTo (.fetch pass))
  | .fetch pass => some (site, run.fetchStep site outcome pass)
  | .insert pass rows => some (run.insertStep host site outcome pass rows)
  | .delete pass ids => some (run.deleteStep site outcome pass ids)
  | .renew pass isLast =>
    if 3 * (site.dateNow - run.lastRenewAt) < host.lockTtlSec * 1000
    then some (site, run.resume pass isLast)
    else some (site, run.goTo (.renewing pass isLast))
  | .renewing pass isLast =>
    match outcome with
    | .failed => some (site, run.throw)
    | .unanswered => some (site.renewLock host run.token, run.throw)
    -- What the script returns is dropped: the execution goes on without the lock, too.
    | .done => some (site.renewLock host run.token, run.goTo (.renewed pass isLast))
  | .renewed pass isLast => some (site, { run with lastRenewAt := site.dateNow }.resume pass isLast)
  | .releasing =>
    match outcome with
    | .failed => some (site, run.stop)
    | .unanswered => some (site.releaseLock run.token, run.stop)
    | .done => some (site.releaseLock run.token, run.goTo .ended)
  | .ended => none

end Run

/-! ## The region -/

structure World extends Site where
  runs : List Run

inductive Event where
  /-- Time passes. -/
  | tick (microseconds : ℕ)
  | start
  | step (i : ℕ) (outcome : Outcome)
  | crash (i : ℕ)
  /-- A service commits. -/
  | live (writes : List (Write RowOf RowKey))

/-- An execution that begins, with a token of its own. -/
def World.newRun (w : World) : Run := ⟨w.runs.length, 0, 0, .acquiring, [], [], true⟩

/-- What an event does; `none` when it cannot happen. -/
def World.next (host : Host) (w : World) : Event → Option World
  | .tick microseconds => some { w with now := w.now + microseconds }
  | .start => some { w with runs := w.runs ++ [w.newRun] }
  | .step i outcome =>
    w.runs[i]?.bind fun run => (run.next host w.toSite outcome).map fun (site, run') =>
      ⟨site, w.runs.set i run'⟩
  | .crash i => w.runs[i]?.map fun run => { w with runs := w.runs.set i run.stop }
  | .live writes => some { w with hot := w.hot.applyAll writes }

/-- The states that the executions and the services get to. -/
abbrev Reach (host : Host) (allowed : World → Event → Prop) : World → World → Prop :=
  Machine.Reach (World.next host) allowed

end Archival

end SwiftBite
