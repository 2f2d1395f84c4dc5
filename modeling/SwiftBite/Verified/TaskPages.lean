import SwiftBite.Service.Agent
import SwiftBite.Verified.RecordPages
import SwiftBite.Verified.Records
import SwiftBite.Verified.References
import SwiftBite.Verified.Wages

/-! # The tasks of an agent

A page of deliveries is read by one statement, and their orders one by one by later statements; a
delivery whose order is not found is left out.  While the region runs none is left out.
-/

set_option autoImplicit false

namespace SwiftBite.Verified.TaskPages

open Store Pagination PageVisits AgentService

/-! ## One response -/

/-- A task is a delivery together with its own order. -/
structure Describes (items : Database) (task : Task) : Prop where
  ofOrder : task.order.id = task.delivery.orderId
  itemsCount : task.itemsCount =
    ((items .orderItems).rows.filter fun item : OrderItem => item.orderId = task.order.id).length

section

variable {reads : TaskReads} {agentId : ℕ} {status : Option DeliveryStatus} {query : Query}

theorem of_bind_ok {ε α β : Type} {x : Except ε α} {f : α → Except ε β} {b : β}
    (answers : (x >>= f) = .ok b) : ∃ a, x = .ok a ∧ f a = .ok b := by
  cases x with
  | error err => cases answers
  | ok a => exact ⟨a, rfl, answers⟩

/-- Where every order is found, no delivery is left out. -/
theorem deliveries_of_results {itemsCount : ℕ → ℕ} {deliveries : List Delivery} {i : ℕ}
    {tasks : List Task}
    (there : ∀ j, ∀ delivery ∈ deliveries,
      ((reads.order j .orders).get (RowKey.id delivery.orderId)).isSome = true)
    (answers : results reads itemsCount i deliveries = .ok tasks) :
    tasks.map Task.delivery = deliveries ∧
      ∀ task ∈ tasks, task.order.id = task.delivery.orderId ∧
      task.itemsCount = itemsCount task.order.id := by
  induction deliveries generalizing i tasks with
  | nil =>
    cases answers
    exact ⟨rfl, fun _ none => absurd none List.not_mem_nil⟩
  | cons delivery deliveries inductionHypothesis =>
    obtain ⟨order, found⟩ := Option.isSome_iff_exists.1 (there i delivery List.mem_cons_self)
    rw [results, found] at answers
    obtain ⟨branch, _, answers⟩ := of_bind_ok answers
    obtain ⟨others, rest, isAll⟩ := of_bind_ok answers
    cases isAll
    obtain ⟨same, each⟩ := inductionHypothesis
      (fun j delivery' member => there j delivery' (List.mem_cons_of_mem _ member)) rest
    refine ⟨by rw [List.map_cons, same], List.forall_mem_cons.2 ⟨⟨?_, rfl⟩, each⟩⟩
    exact RowKey.id.inj (Table.get_key found)

/-- The response to one request. -/
theorem page_of_listTasks {tasks : List Task} {nextCursor : Option Cursor}
    (there : ∀ j, ∀ delivery ∈ deliveriesOf reads.deliveries agentId status,
      ((reads.order j .orders).get (RowKey.id delivery.orderId)).isSome = true)
    (answers : listTasks reads agentId status query = .ok (tasks, nextCursor)) :
    tasks.map Task.delivery = (findDeliveriesByAgentId reads.deliveries agentId status
      (parsePaginationQuery query TASK_SORT_FIELDS)).data ∧
      nextCursor = (findDeliveriesByAgentId reads.deliveries agentId status
        (parsePaginationQuery query TASK_SORT_FIELDS)).nextCursor ∧
      ∀ task ∈ tasks, Describes reads.items task := by
  obtain ⟨others, rest, isAll⟩ := of_bind_ok answers
  cases isAll
  have among : ∀ delivery ∈ (findDeliveriesByAgentId reads.deliveries agentId status
      (parsePaginationQuery query TASK_SORT_FIELDS)).data,
      delivery ∈ deliveriesOf reads.deliveries agentId status :=
        fun delivery member => RecordPages.mem_of_recordPage member
  obtain ⟨same, each⟩ :=
    deliveries_of_results (fun j delivery member => there j delivery (among delivery member)) rest
  refine ⟨same, rfl, fun task member => ?_⟩
  obtain ⟨ofOrder, itemsCount⟩ := each task member
  refine ⟨ofOrder, itemsCount.trans (OrderLists.itemsByOrder_of_mem ?_)⟩
  -- The items of the page were read by the orders of its deliveries.
  rw [ofOrder, ← same, List.map_map]
  exact List.mem_map_of_mem (f := Delivery.orderId ∘ Task.delivery) member

end

/-! ## All responses -/

/-- A state that the region gets to. -/
def GetsTo (env : Config) (p : Region) (db : Database) : Prop :=
  ∃ q, Pool.Reach (code env) Chains.anything p q ∧ q.db = db

/-- The deliveries are read in this state, and what belongs to them while the region goes on. -/
structure FindsOnwards (env : Config) (p : Region) (reads : TaskReads) : Prop where
  deliveries : reads.deliveries = p.db
  items : GetsTo env p reads.items
  order : ∀ i, GetsTo env p (reads.order i)

/-- The responses to an agent who asks again with `nextCursor` as long as there is one, and whose
pages of deliveries are all read in one state. -/
inductive ReadsTasks (env : Config) (p : Region) (agentId : ℕ) (status : Option DeliveryStatus)
    (query : Query) : Option Cursor → List (List Task) → Prop where
  | last {cursor : Option Cursor} {reads : TaskReads} {tasks : List Task}
      (finds : FindsOnwards env p reads)
      (answers : listTasks reads agentId status { query with
      cursor := cursor } = .ok (tasks, none)) :
      ReadsTasks env p agentId status query cursor [tasks]
  | more {cursor : Option Cursor} {nextCursor : Cursor} {reads : TaskReads} {tasks : List Task}
      {pages : List (List Task)} (finds : FindsOnwards env p reads)
      (answers : listTasks reads agentId status { query with
        cursor := cursor } = .ok (tasks, some nextCursor))
      (rest : ReadsTasks env p agentId status query (some nextCursor) pages) :
      ReadsTasks env p agentId status query cursor (tasks :: pages)

section

variable {env : Config} {x : Shared} {p : Region} {agentId : ℕ} {status : Option DeliveryStatus}
  {query : Query}

theorem there_of_follows
    (reached : Pool.Reach (code env) Chains.anything (Pool.quiet Database.empty x) p)
    {db : Database} (follows : GetsTo env p db) {delivery : Delivery}
    (member : delivery ∈ (p.db .deliveries).rows) :
    ((db .orders).get (RowKey.id delivery.orderId)).isSome = true := by
  obtain ⟨q, later, rfl⟩ := follows
  have there :=
    (References.related_of_run reached .deliveries delivery member).order delivery.orderId rfl
  obtain ⟨order, found⟩ := Option.isSome_iff_exists.1 there
  obtain ⟨order', found', _⟩ := Records.follows_of_reach reached later .orders _ _ found
  exact Option.isSome_iff_exists.2 ⟨order', found'⟩

theorem page_of_onwards
    (reached : Pool.Reach (code env) Chains.anything (Pool.quiet Database.empty x) p)
    {reads : TaskReads} {tasks : List Task} {nextCursor : Option Cursor}
    (finds : FindsOnwards env p reads)
    (answers : listTasks reads agentId status query = .ok (tasks, nextCursor)) :
    tasks.map Task.delivery = (findDeliveriesByAgentId p.db agentId status
      (parsePaginationQuery query TASK_SORT_FIELDS)).data ∧
      nextCursor = (findDeliveriesByAgentId p.db agentId status
        (parsePaginationQuery query TASK_SORT_FIELDS)).nextCursor ∧
      ∀ task ∈ tasks, Describes reads.items task := by
  rw [← finds.deliveries]
  exact page_of_listTasks
    (fun j delivery member => there_of_follows reached (finds.order j)
    (finds.deliveries ▸ List.mem_of_mem_filter member)) answers

/-- The pages of the deliveries behind the responses. -/
theorem asks_of_reads
    (reached : Pool.Reach (code env) Chains.anything (Pool.quiet Database.empty x) p)
    {cursor : Option Cursor} {responses : List (List Task)}
    (reads : ReadsTasks env p agentId status query cursor responses) :
    ∃ pages, Asks (RecordPages.ask Delivery.id Delivery.assignedAt
      (deliveriesOf p.db agentId status) TASK_SORT_FIELDS query) cursor pages ∧
      responses.map (List.map Task.delivery) = pages.map RecordPage.data := by
  induction reads with
  | last finds answers =>
    obtain ⟨same, isNext, _⟩ := page_of_onwards reached finds answers
    exact ⟨_, .last isNext.symm, congrArg (fun data => [data]) same⟩
  | more finds answers _ inductionHypothesis =>
    obtain ⟨same, isNext, _⟩ := page_of_onwards reached finds answers
    obtain ⟨others, asks, rest⟩ := inductionHypothesis
    refine ⟨_, .more isNext.symm asks, ?_⟩
    rw [List.map_cons, List.map_cons, rest, same]
    rfl

theorem describes_of_reads
    (reached : Pool.Reach (code env) Chains.anything (Pool.quiet Database.empty x) p)
    {cursor : Option Cursor} {responses : List (List Task)}
    (reads : ReadsTasks env p agentId status query cursor responses) :
    ∀ task ∈ responses.flatten, ∃ items, GetsTo env p items ∧ Describes items task := by
  induction reads with
  | last finds answers =>
    intro task member
    rw [List.flatten_singleton] at member
    exact ⟨_, finds.items, (page_of_onwards reached finds answers).2.2 task member⟩
  | more finds answers _ inductionHypothesis =>
    intro task member
    rw [List.flatten_cons] at member
    rcases List.mem_append.1 member with here | there
    · exact ⟨_, finds.items, (page_of_onwards reached finds answers).2.2 task here⟩
    · exact inductionHypothesis task there

/-- In every state of all runs: however the region goes on while the pages are put together, an
agent who reads them to the end is shown each of the agent's deliveries once, with its own order and
the number of its items. -/
theorem tasks_are_deliveries
    (reached : Pool.Reach (code env) Chains.anything (Pool.quiet Database.empty x) p)
    (room : 1 ≤ (parsePaginationQuery query TASK_SORT_FIELDS).limit)
    (inTurn : RecordPages.InTurn Delivery.id Delivery.assignedAt (deliveriesOf p.db agentId status))
    {responses : List (List Task)} (reads : ReadsTasks env p agentId status query none responses) :
    (responses.flatten.map Task.delivery).Perm (deliveriesOf p.db agentId status) ∧
      ∀ task ∈ responses.flatten, ∃ items, GetsTo env p items ∧ Describes items task := by
  have distinct : ((deliveriesOf p.db agentId status).map Delivery.id).Nodup := by
    refine List.Nodup.map_on (fun a inA b inB same => ?_) ((Table.rows_nodup _).filter _)
    exact Table.eq_of_key (List.mem_of_mem_filter inA) (List.mem_of_mem_filter inB)
      (congrArg RowKey.id same)
  have hasRoom : 1 ≤ limit TASK_SORT_FIELDS query := room
  obtain ⟨pages, asks, perm, _⟩ := RecordPages.pages_of_records distinct hasRoom inTurn
  obtain ⟨pages', asks', same⟩ := asks_of_reads reached reads
  obtain rfl := asks.unique asks'
  refine ⟨?_, describes_of_reads reached reads⟩
  rw [List.map_flatten, same, ← List.flatMap_def]
  exact perm

end

/-- All that the agent asks for is found in one state. -/
def atRest (p : Region) : TaskReads := ⟨p.db, p.db, fun _ => p.db, fun _ => Sample.core.getBranch⟩

/-- One task a page. -/
def oneTask (cursor : Option Cursor) : Query := ⟨cursor, some 1, none, none⟩

/-- What the agent sees of a page. -/
def seen (tasks : List Task) : List (ℕ × ℕ) :=
  tasks.map fun task => (task.delivery.id, task.itemsCount)

/-- Two deliveries, read page by page. -/
theorem two_tasks :
    ∃ (p : Region) (first second : List Task), seen first = [(10, 1)] ∧ seen second = [(11, 1)] ∧
    ([first, second].flatten.map Task.delivery).Perm (deliveriesOf p.db 2 none) ∧
      ∀ task ∈ [first, second].flatten, ∃ items, GetsTo Sample.env p items ∧
      Describes items task := by
  have run : (Pool.play (code Sample.env) (fun _ _ => true) Wages.deliveringTwo
      (Pool.quiet Database.empty Sample.shared)).bind
      (fun p => (listTasks (atRest p) 2 none (oneTask none)).toOption.bind fun first =>
      first.2.bind fun nextCursor =>
        (listTasks (atRest p) 2 none (oneTask (some nextCursor))).toOption.map fun second =>
          ((p.db .deliveries).rows.map Delivery.assignedAt, seen first.1,
            seen second.1, second.2)) =
      some ([1000000, 1000000], [(10, 1)], [(11, 1)], none) := by decide +kernel
  obtain ⟨p, played, rest⟩ := Option.bind_eq_some_iff.1 run
  obtain ⟨⟨first, _⟩, isFirst, rest⟩ := Option.bind_eq_some_iff.1 rest
  obtain ⟨nextCursor, rfl, rest⟩ := Option.bind_eq_some_iff.1 rest
  obtain ⟨⟨second, _⟩, isSecond, viewed⟩ := Option.map_eq_some_iff.1 rest
  simp only [Prod.mk.injEq] at viewed
  obtain ⟨times, seesFirst, seesSecond, rfl⟩ := viewed
  have here : GetsTo Sample.env p p.db := ⟨p, .refl, rfl⟩
  have finds : FindsOnwards Sample.env p (atRest p) := ⟨rfl, here, fun _ => here⟩
  have atOnce : ∀ delivery : Delivery, delivery ∈ (p.db .deliveries).rows →
      delivery.assignedAt = 1000000 := by
    intro delivery member
    have among : delivery.assignedAt ∈ (p.db .deliveries).rows.map Delivery.assignedAt :=
      List.mem_map_of_mem member
    rw [times] at among
    exact List.eq_of_mem_replicate (n := 2) among
  have room : 1 ≤ (parsePaginationQuery (oneTask none) TASK_SORT_FIELDS).limit := by
    norm_num [oneTask, parsePaginationQuery]
  have inTurn : RecordPages.InTurn Delivery.id Delivery.assignedAt (deliveriesOf p.db 2 none) := by
    intro a isA b isB _ apart
    exact absurd ((atOnce a (List.mem_of_mem_filter isA)).trans
      (atOnce b (List.mem_of_mem_filter isB)).symm) apart
  have last : ReadsTasks Sample.env p 2 none (oneTask none) (some nextCursor) [second] :=
    .last finds (ok_of_toOption isSecond)
  have reads : ReadsTasks Sample.env p 2 none (oneTask none) none [first, second] :=
    .more finds (ok_of_toOption isFirst) last
  obtain ⟨perm, describes⟩ :=
    tasks_are_deliveries (Pool.reach_of_play (fun _ _ _ => trivial) played) room inTurn reads
  exact ⟨p, first, second, seesFirst, seesSecond, perm, describes⟩

end SwiftBite.Verified.TaskPages
