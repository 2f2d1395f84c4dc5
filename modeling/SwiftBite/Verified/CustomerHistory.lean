import SwiftBite.Service.OrderLists
import SwiftBite.Verified.ArchivalReruns

/-! # The orders of a customer

A customer's orders of a year are read from one database, whichever is to have them.  Beside
the two databases we keep the history of all orders and items that were ever placed; the
invariant says where each of them is, and that nothing of the current year is in the archive.
-/

set_option autoImplicit false

namespace SwiftBite.Verified.CustomerHistory

open Store Archival ArchivalRows ArchivalPasses OrderLists Calendar

/-! ## The history of a region -/

/-- All orders and all items, as they were placed. -/
structure History where
  orders : List Order
  items : List OrderItem

structure Chronicle extends World where
  history : History

/-- The rows of the table that were not there before. -/
def newRows (db db' : Database) (t : TableName) : List (RowOf t) :=
  (db' t).rows.filter fun row => ((db t).get (key row)).isNone

/-- What appears in hot has been placed. -/
def History.after (history : History) (db db' : Database) : History :=
  ⟨history.orders ++ newRows db db' .orders, history.items ++ newRows db db' .orderItems⟩

def Chronicle.next (host : Host) (c : Chronicle) (e : Event) : Option Chronicle :=
  (c.toWorld.next host e).map fun w => ⟨w, c.history.after c.hot w.hot⟩

/-- The services keep the orders and their items, and place new orders together with their items. -/
structure PlacesOrders (year : ℕ) (history : History) (db db' : Database) : Prop where
  positive : Positive db'
  orders : Table.Keeps (fun order : Order => (order.customerId, order.createdAt))
    (db .orders) (db' .orders)
  items : Table.Keeps OrderItem.orderId (db .orderItems) (db' .orderItems)
  newOrders : ∀ order ∈ newRows db db' .orders, yearOf (Order.createdAt order) = year ∧
    Order.id order ∉ history.orders.map Order.id
  newItems : ∀ item ∈ newRows db db' .orderItems,
    OrderItem.id item ∉ history.items.map OrderItem.id ∧
    OrderItem.orderId item ∈ (newRows db db' .orders).map Order.id

/-- The year goes on. -/
def YearGoesOn (year : ℕ) (c : Chronicle) (e : Event) : Prop :=
  yearOf c.now = year ∧ match e with
    | .live writes => PlacesOrders year c.history c.hot (c.hot.applyAll writes)
    | _ => True

abbrev Chronicle.Reach (host : Host) (year : ℕ) : Chronicle → Chronicle → Prop :=
  Machine.Reach (Chronicle.next host) (YearGoesOn year)

/-! ## Where the orders are -/

/-- The tables that the list is read from. -/
def Watched (t : TableName) : Prop := t = .orders ∨ t = .orderItems

/-- The row is that of an order or item that was placed. -/
def Known (history : History) : (t : TableName) → RowOf t → Prop
  | .orders, (order : Order) => ∃ placed ∈ history.orders,
      placed.id = order.id ∧ placed.customerId = order.customerId ∧
      yearOf placed.createdAt = yearOf order.createdAt
  | .orderItems, (item : OrderItem) =>
    ∃ placed ∈ history.items, placed.id = item.id ∧ placed.orderId = item.orderId
  | _, _ => True

/-- The order was placed in an earlier year. -/
def PlacedBefore (history : History) (year orderId : ℕ) : Prop :=
  ∃ placed ∈ history.orders, placed.id = orderId ∧ yearOf placed.createdAt < year

/-- The row belongs to an order of an earlier year. -/
def Past (history : History) (year : ℕ) : (t : TableName) → RowOf t → Prop
  | .orders, (order : Order) => PlacedBefore history year order.id
  | .orderItems, (item : OrderItem) => PlacedBefore history year item.orderId
  | _, _ => True

def History.ids (history : History) : TableName → List ℕ
  | .orders => history.orders.map Order.id
  | .orderItems => history.items.map OrderItem.id
  | _ => []

def Somewhere (site : Site) (t : TableName) (id : ℕ) : Prop :=
  (∃ row ∈ (site.hot t).rows, rowId row = id) ∨ Stored site t id

/-- Each order and item is somewhere, and those in the archive are of earlier years. -/
structure Complete (history : History) (year : ℕ) (site : Site) : Prop where
  orderIds : (history.orders.map Order.id).Nodup
  itemIds : (history.items.map OrderItem.id).Nodup
  hot : ∀ t, ∀ row ∈ (site.hot t).rows, Known history t row
  archive : ∀ t, ∀ row ∈ (site.archive t).rows, Known history t row ∧ Past history year t row
  parents : ∀ item ∈ (site.hot .orderItems).rows, ∃ order ∈ (site.hot .orders).rows,
    Order.id order = OrderItem.orderId item
  somewhere : ∀ t, ∀ id ∈ history.ids t, Somewhere site t id

section

variable {history history' : History} {year : ℕ} {site site' : Site} {t : TableName}

theorem watched_of_ids {id : ℕ} (isPlaced : id ∈ history.ids t) : Watched t := by
  cases t <;> first | exact .inl rfl | exact .inr rfl | exact absurd isPlaced List.not_mem_nil

theorem Complete.order_eq (complete : Complete history year site) {a b : Order}
    (ha : a ∈ history.orders) (hb : b ∈ history.orders) (same : a.id = b.id) : a = b :=
  List.inj_on_of_nodup_map complete.orderIds ha hb same

theorem Complete.item_eq (complete : Complete history year site) {a b : OrderItem}
    (ha : a ∈ history.items) (hb : b ∈ history.items) (same : a.id = b.id) : a = b :=
  List.inj_on_of_nodup_map complete.itemIds ha hb same

/-- What is eligible belongs to an order of an earlier year. -/
theorem Complete.past_of_eligible (complete : Complete history year site) {row : RowOf t}
    (member : row ∈ (site.hot t).rows)
    (isEligible : eligible site.hot (yearStart year) t row = true) : Past history year t row := by
  have before : ∀ order ∈ (site.hot .orders).rows, orderEligible (yearStart year) order = true →
      PlacedBefore history year (Order.id order) := by
    intro order inHot passes
    obtain ⟨placed, isPlaced, sameId, _, sameYear⟩ := complete.hot .orders order inHot
    exact ⟨placed, isPlaced, sameId,
      by rw [sameYear]; exact lt_yearStart_iff.1 (of_decide_eq_true passes)⟩
  cases t with
  | orders => exact before row member isEligible
  | orderItems =>
    obtain ⟨order, inHot, isParent, passes⟩ := byParentOrder_iff.1 isEligible
    have parent := before order inHot passes
    rw [Option.some.inj isParent] at parent
    exact parent
  | _ => trivial

theorem Complete.eligible_of_placedBefore (complete : Complete history year site) {order : Order}
    (inHot : order ∈ (site.hot .orders).rows) (before : PlacedBefore history year order.id) :
    orderEligible (yearStart year) order = true := by
  obtain ⟨placed, isPlaced, sameId, earlier⟩ := before
  obtain ⟨placed', isPlaced', sameId', _, sameYear⟩ := complete.hot .orders order inHot
  rw [complete.order_eq isPlaced isPlaced' (sameId.trans sameId'.symm), sameYear] at earlier
  exact decide_eq_true (lt_yearStart_iff.2 earlier)

/-- What belongs to an order of an earlier year is eligible. -/
theorem Complete.eligible_of_past (complete : Complete history year site) (watched : Watched t)
    {row : RowOf t} (member : row ∈ (site.hot t).rows) (past : Past history year t row) :
    eligible site.hot (yearStart year) t row = true := by
  obtain rfl | rfl := watched
  · exact complete.eligible_of_placedBefore member past
  · obtain ⟨order, inHot, isParent⟩ := complete.parents row member
    refine byParentOrder_iff.2
      ⟨order, inHot, by rw [isParent], complete.eligible_of_placedBefore inHot ?_⟩
    rw [isParent]
    exact past

theorem known_carried {row : RowOf t} (known : Known history t row) :
    Known history t (carried 0 t row) := by
  cases t with
  | orders =>
    obtain ⟨placed, isPlaced, sameId, sameCustomer, sameYear⟩ := known
    refine ⟨placed, isPlaced, sameId, sameCustomer, ?_⟩
    rw [sameYear]
    exact (wallClock_utc (Order.createdAt row) ▸ yearOf_milliseconds _).symm
  | orderItems => exact known
  | _ => trivial

theorem past_carried (offset : ℤ) {row : RowOf t} (past : Past history year t row) :
    Past history year t (carried offset t row) := by
  cases t <;> exact past

end

/-! ## One step of an execution -/

/-- What is selected, or about to be deleted, belongs to orders of earlier years. -/
def PastOnly (history : History) (year : ℕ) : Place → Prop
  | .insert pass rows =>
    ∀ row ∈ rows, Known history pass.table row ∧ Past history year pass.table row
  | .delete pass ids => pass.table = .orders → ∀ id ∈ ids, PlacedBefore history year id
  | _ => True

section

variable {history history' : History} {year : ℕ} {host : Host} {site site' : Site} {run run' : Run}
  {outcome : Outcome}

theorem pastOnly_next (complete : Complete history year site)
    (sameCutoff : ∀ pass, passOf run.place = some pass → pass.cutoff = yearStart year)
    (steps : run.next host site outcome = some (site', run')) :
    PastOnly history year run'.place := by
  obtain ⟨pass, isPlace, _, isBatch⟩ | ⟨notInsert, notDelete⟩ := batch_of_next steps
  · have isCutoff := sameCutoff pass (by rw [isPlace]; rfl)
    rw [isCutoff] at isBatch
    rcases isBatch with ⟨_, isNext⟩ | ⟨_, isNext⟩ <;> rw [isNext]
    · intro row member
      obtain ⟨inTable, isEligible, _⟩ := mem_insertBatch member
      exact ⟨complete.hot _ row inTable, complete.past_of_eligible inTable isEligible⟩
    · intro ofOrders id member
      obtain ⟨row, inTable, isEligible, rfl⟩ := mem_deleteBatch member
      generalize pass.table = table at ofOrders row inTable isEligible
      subst ofOrders
      exact complete.past_of_eligible inTable isEligible
  · cases isPlace : run'.place with
    | insert pass rows => exact absurd isPlace (notInsert pass rows)
    | delete pass ids => exact absurd isPlace (notDelete pass ids)
    | _ => trivial

theorem complete_effect (utc : host.offset = 0) (complete : Complete history year site)
    (pastOnly : PastOnly history year run.place)
    (doomed : ∀ pass ids, run.place = .delete pass ids → Watched pass.table →
      ∀ id ∈ ids, Stored site pass.table id)
    (emptied : ∀ pass ids, run.place = .delete pass ids → pass.table = .orders →
      ∀ id, ¬ Eligible site.hot (yearStart year) .orderItems id)
    (effect : Effect host run site site') : Complete history year site' := by
  have shrinks := effect.shrinks
  have hot : ∀ t, ∀ row ∈ (site'.hot t).rows, Known history t row :=
    fun t row member => complete.hot t row (shrinks.hot t row member)
  cases effect with
  | quiet sameHot sameArchive _ =>
    obtain ⟨orderIds, itemIds, _, archive, parents, somewhere⟩ := complete
    refine ⟨orderIds, itemIds, hot, ?_, ?_, fun t id isPlaced => ?_⟩
    · rw [sameArchive]
      exact archive
    · rw [sameHot]
      exact parents
    · rw [Somewhere, Stored, sameHot, sameArchive]
      exact somewhere t id isPlaced
  | inserts pass rows table isPlace inserted isSite =>
    subst isSite
    rw [isPlace] at pastOnly
    refine ⟨complete.orderIds, complete.itemIds, hot, fun t row member => ?_, complete.parents,
      fun t id isPlaced => ?_⟩
    · by_cases same : t = pass.table
      · subst same
        simp only [Site.insertInto, Function.update_self] at member
        rcases inserted.origin row member with before | ⟨new, _⟩
        · exact complete.archive _ row before
        · obtain ⟨old, inBatch, rfl⟩ := List.mem_map.1 new
          obtain ⟨known, past⟩ := pastOnly old inBatch
          rw [utc]
          exact ⟨known_carried known, past_carried 0 past⟩
      · exact complete.archive t row (by simpa [Site.insertInto, same] using member)
    · exact (complete.somewhere t id isPlaced).imp (fun there => there) (shrinks.stored t id)
  | deletes pass ids isPlace isSite =>
    subst isSite
    rw [isPlace] at pastOnly
    refine ⟨complete.orderIds, complete.itemIds, hot, complete.archive, fun item member => ?_,
      fun t id isPlaced => ?_⟩
    · have wasThere := mem_of_deleteFrom member
      obtain ⟨order, inHot, isParent⟩ := complete.parents item wasThere
      by_cases ofOrders : pass.table = .orders
      · -- the items of these orders are gone
        refine ⟨order, ?_, isParent⟩
        rw [Site.deleteFrom, ofOrders]
        simp only [Function.update_self]
        refine Table.mem_delete.2 ⟨inHot, decide_eq_false fun among => ?_⟩
        have before : PlacedBefore history year (OrderItem.orderId item) := by
          rw [← isParent]
          exact pastOnly ofOrders (rowId order) among
        exact emptied pass ids isPlace ofOrders (rowId item)
          ⟨item, wasThere,
          complete.eligible_of_past (.inr rfl) (t := .orderItems) wasThere before, rfl⟩
      · exact ⟨order, by simpa [Site.deleteFrom, Ne.symm ofOrders] using inHot, isParent⟩
    · rcases complete.somewhere t id isPlaced with ⟨row, inHot, rfl⟩ | stored
      · by_cases stays : row ∈ ((site.deleteFrom pass.table ids).hot t).rows
        · exact .inl ⟨row, stays, rfl⟩
        · by_cases same : t = pass.table
          · subst same
            simp only [Site.deleteFrom, Function.update_self] at stays
            refine .inr (doomed pass ids isPlace (watched_of_ids isPlaced) (rowId row) ?_)
            by_contra spared
            exact stays (Table.mem_delete.2 ⟨inHot, by simpa using spared⟩)
          · simp only [Site.deleteFrom, Function.update_of_ne same] at stays
            exact absurd inHot stays
      · exact .inr stored

end

/-! ## One commit of a service -/

section

variable {history : History} {year : ℕ} {site : Site} {db' : Database}

theorem mem_newRows {db : Database} {t : TableName} {row : RowOf t} :
    row ∈ newRows db db' t ↔ row ∈ (db' t).rows ∧ (db t).get (key row) = none := by
  simp [newRows, Option.isNone_iff_eq_none]

/-- A row is new, or was there before. -/
theorem new_or_old (db : Database) {t : TableName} {row : RowOf t} (member : row ∈ (db' t).rows) :
    row ∈ newRows db db' t ∨ ∃ old ∈ (db t).rows, (key old : RowKey) = key row := by
  cases found : (db t).get (key row) with
  | none => exact .inl (mem_newRows.2 ⟨member, found⟩)
  | some old => exact .inr ⟨old, Table.get_mem found, Table.get_key found⟩

/-- What a change keeps, of a row that was there before. -/
theorem eq_of_keeps {α : Type} {db : Database} {t : TableName} {f : RowOf t → α}
    (keeps : Table.Keeps f (db t) (db' t)) {old row : RowOf t} (wasThere : old ∈ (db t).rows)
    (member : row ∈ (db' t).rows) (same : (key old : RowKey) = key row) : f row = f old := by
  obtain ⟨row', found, kept⟩ := keeps _ _ (Table.get_of_mem wasThere)
  rw [← Table.eq_of_key (Table.get_mem found) member ((Table.get_key found).trans same)]
  exact kept

/-- An order that is eligible was there before. -/
theorem PlacesOrders.old_of_eligible (places : PlacesOrders year history site.hot db') {cutoff : ℕ}
    (noLater : cutoff ≤ yearStart year) {order : Order} (member : order ∈ (db' .orders).rows)
    (passes : orderEligible cutoff order = true) :
    ∃ old ∈ (site.hot .orders).rows, Order.id old = order.id ∧ orderEligible cutoff old = true := by
  have before : order.createdAt < cutoff := of_decide_eq_true passes
  rcases new_or_old site.hot (t := .orders) member with isNew | ⟨old, wasThere, sameKey⟩
  · have sameYear := (places.newOrders order isNew).1
    have := lt_yearStart_iff.1 (before.trans_le noLater)
    omega
  · have kept := eq_of_keeps places.orders wasThere member sameKey
    simp only [Prod.mk.injEq] at kept
    exact ⟨old, wasThere, RowKey.id.inj sameKey, decide_eq_true (kept.2 ▸ before)⟩

/-- No commit of a service makes a row eligible. -/
theorem PlacesOrders.fewer (site : Site) (places : PlacesOrders year history site.hot db')
    {cutoff : ℕ} (noLater : cutoff ≤ yearStart year) {t : TableName} (watched : Watched t) {id : ℕ}
    (isEligible : Eligible db' cutoff t id) : Eligible site.hot cutoff t id := by
  obtain ⟨row, member, passes, rfl⟩ := isEligible
  obtain rfl | rfl := watched
  · obtain ⟨old, wasThere, sameId, passesOld⟩ := places.old_of_eligible noLater member passes
    exact ⟨old, wasThere, passesOld, sameId⟩
  · obtain ⟨order, inHot, isParent, passes⟩ := byParentOrder_iff.1 passes
    obtain ⟨oldOrder, orderWasThere, sameId, passesOld⟩ :=
      places.old_of_eligible noLater inHot passes
    have isParent := Option.some.inj isParent
    rcases new_or_old site.hot (t := .orderItems) member with isNew | ⟨old, wasThere, sameKey⟩
    · -- a new item belongs to a new order
      obtain ⟨newOrder, isNewOrder, ofOrder⟩ := List.mem_map.1 (places.newItems row isNew).2
      have absent := (mem_newRows.1 isNewOrder).2
      exact absurd (congrArg RowKey.id (sameId.trans (isParent.trans ofOrder.symm)))
        (Table.get_eq_none.1 absent oldOrder orderWasThere)
    · refine ⟨old, wasThere, byParentOrder_iff.2 ⟨oldOrder, orderWasThere, ?_, passesOld⟩,
        RowKey.id.inj sameKey⟩
      rw [sameId, isParent]
      exact congrArg some (eq_of_keeps places.items wasThere member sameKey)

theorem nodup_after {t : TableName} {id : RowOf t → ℕ} {before : List ℕ} (nodup : before.Nodup)
    (isKey : ∀ row : RowOf t, (key row : RowKey) = .id (id row))
    (fresh : ∀ row ∈ newRows site.hot db' t, id row ∉ before) :
    (before ++ (newRows site.hot db' t).map id).Nodup := by
  refine nodup.append ?_ ?_
  · refine List.Nodup.map_on (fun a inA b inB same => ?_) ((db' t).rows_nodup.filter _)
    exact Table.eq_of_key (mem_newRows.1 inA).1 (mem_newRows.1 inB).1 (by rw [isKey, isKey, same])
  · intro i old isNew
    obtain ⟨row, member, rfl⟩ := List.mem_map.1 isNew
    exact fresh row member old

theorem known_after (db db' : Database) {t : TableName} {row : RowOf t}
    (known : Known history t row) : Known (history.after db db') t row := by
  cases t with
  | orders =>
    obtain ⟨placed, isPlaced, same⟩ := known
    exact ⟨placed, List.mem_append_left _ isPlaced, same⟩
  | orderItems =>
    obtain ⟨placed, isPlaced, same⟩ := known
    exact ⟨placed, List.mem_append_left _ isPlaced, same⟩
  | _ => trivial

theorem PlacedBefore.after (db db' : Database) {orderId : ℕ}
    (before : PlacedBefore history year orderId) :
    PlacedBefore (history.after db db') year orderId := by
  obtain ⟨placed, isPlaced, same⟩ := before
  exact ⟨placed, List.mem_append_left _ isPlaced, same⟩

theorem past_after (db db' : Database) {t : TableName} {row : RowOf t}
    (past : Past history year t row) : Past (history.after db db') year t row := by
  cases t <;> first | exact PlacedBefore.after db db' past | exact past

theorem ids_after {db db' : Database} {t : TableName} {id : ℕ}
    (isPlaced : id ∈ (history.after db db').ids t) :
    id ∈ history.ids t ∨ ∃ row ∈ newRows db db' t, rowId row = id := by
  cases t with
  | orders =>
    rw [History.ids, History.after, List.map_append] at isPlaced
    exact (List.mem_append.1 isPlaced).imp (fun before => before) List.mem_map.1
  | orderItems =>
    rw [History.ids, History.after, List.map_append] at isPlaced
    exact (List.mem_append.1 isPlaced).imp (fun before => before) List.mem_map.1
  | _ => exact absurd isPlaced List.not_mem_nil

theorem complete_after (site : Site) (complete : Complete history year site)
    (places : PlacesOrders year history site.hot db') :
    Complete (history.after site.hot db') year { site with hot := db' } where
  orderIds := by
    rw [History.after, List.map_append]
    exact nodup_after complete.orderIds (fun _ => rfl) fun order isNew =>
      (places.newOrders order isNew).2
  itemIds := by
    rw [History.after, List.map_append]
    exact nodup_after complete.itemIds (fun _ => rfl) fun item isNew =>
      (places.newItems item isNew).1
  hot t row member := by
    cases t with
    | orders =>
      rcases new_or_old site.hot (t := .orders) member with isNew | ⟨old, wasThere, sameKey⟩
      · exact ⟨row, List.mem_append_right _ isNew, rfl, rfl, rfl⟩
      · have kept := eq_of_keeps places.orders wasThere member sameKey
        simp only [Prod.mk.injEq] at kept
        obtain ⟨placed, isPlaced, sameId, sameCustomer, sameYear⟩ :=
          complete.hot .orders old wasThere
        exact ⟨placed, List.mem_append_left _ isPlaced, sameId.trans (RowKey.id.inj sameKey),
          sameCustomer.trans kept.1.symm, by rw [sameYear, kept.2]⟩
    | orderItems =>
      rcases new_or_old site.hot (t := .orderItems) member with isNew | ⟨old, wasThere, sameKey⟩
      · exact ⟨row, List.mem_append_right _ isNew, rfl, rfl⟩
      · obtain ⟨placed, isPlaced, sameId, sameOrder⟩ := complete.hot .orderItems old wasThere
        exact ⟨placed, List.mem_append_left _ isPlaced, sameId.trans (RowKey.id.inj sameKey),
          sameOrder.trans (eq_of_keeps places.items wasThere member sameKey).symm⟩
    | _ => trivial
  archive t row member := (complete.archive t row member).imp (known_after _ _) (past_after _ _)
  parents item member := by
    rcases new_or_old site.hot (t := .orderItems) member with isNew | ⟨old, wasThere, sameKey⟩
    · obtain ⟨order, isNewOrder, isParent⟩ := List.mem_map.1 (places.newItems item isNew).2
      exact ⟨order, (mem_newRows.1 isNewOrder).1, isParent⟩
    · obtain ⟨order, inHot, isParent⟩ := complete.parents old wasThere
      obtain ⟨order', found, _⟩ := places.orders _ _ (Table.get_of_mem inHot)
      refine ⟨order', Table.get_mem found, (RowKey.id.inj (Table.get_key found)).trans ?_⟩
      exact isParent.trans (eq_of_keeps places.items wasThere member sameKey).symm
  somewhere t id isPlaced := by
    rcases ids_after isPlaced with before | ⟨row, isNew, isId⟩
    · refine (complete.somewhere t id before).imp ?_ fun stored => stored
      rintro ⟨row, inHot, rfl⟩
      obtain rfl | rfl := watched_of_ids before
      · obtain ⟨row', found, _⟩ := places.orders _ _ (Table.get_of_mem inHot)
        exact ⟨row', Table.get_mem found, RowKey.id.inj (Table.get_key found)⟩
      · obtain ⟨row', found, _⟩ := places.items _ _ (Table.get_of_mem inHot)
        exact ⟨row', Table.get_mem found, RowKey.id.inj (Table.get_key found)⟩
    · exact .inl ⟨row, (mem_newRows.1 isNew).1, isId⟩

end

/-! ## Runs -/

/-- What holds throughout the year. -/
structure Chronicled (host : Host) (year : ℕ) (c : Chronicle) : Prop where
  inYear : InYear Watched host (yearStart year) c.toWorld
  began : ∀ run ∈ c.runs, run.began ≤ c.dateNow
  complete : Complete c.history year c.toSite
  pastOnly : ∀ run ∈ c.runs, PastOnly c.history year run.place

section

variable {host : Host} {year : ℕ} {c c' : Chronicle} {e : Event}

theorem after_of_shrinks (history : History) {db db' : Database}
    (shrinks : ∀ t, ∀ row ∈ (db' t).rows, row ∈ (db t).rows) : history.after db db' = history := by
  have none : ∀ t, newRows db db' t = [] := fun t => by
    refine List.filter_eq_nil_iff.2 fun row member => ?_
    rw [Table.get_of_mem (shrinks t row member)]
    exact Bool.false_ne_true
  rw [History.after, none, none, List.append_nil, List.append_nil]

theorem PastOnly.after (history : History) (db db' : Database) {place : Place}
    (pastOnly : PastOnly history year place) : PastOnly (history.after db db') year place := by
  cases place with
  | insert pass rows =>
    exact fun row member => (pastOnly row member).imp (known_after _ _) (past_after _ _)
  | delete pass ids => exact fun ofOrders id member => (pastOnly ofOrders id member).after _ _
  | _ => trivial

/-- An execution began in this year, or not yet. -/
theorem Chronicled.noLater (chronicled : Chronicled host year c) (sameYear : yearOf c.now = year)
    {run : Run} (member : run ∈ c.runs) : cutoffOf run ≤ yearStart year := by
  have began := chronicled.began run member
  rw [← sameYear]
  refine yearStart_mono (yearOf_mono ?_)
  rw [Site.dateNow] at began
  omega

theorem Chronicled.noneBehind (chronicled : Chronicled host year c) (within : YearGoesOn year c e) :
    NoneBehind Watched c.toWorld e := by
  cases e with
  | live writes =>
    obtain ⟨sameYear, places⟩ := within
    exact ⟨places.positive,
      fun run member => ⟨le_rfl, fun _ _ stored => stored, fun t id watched _ isEligible =>
      PlacesOrders.fewer c.toSite places (chronicled.noLater sameYear member) watched isEligible⟩⟩
  | _ => trivial

/-- What an execution does when it deletes a batch. -/
theorem Chronicled.deletes (chronicled : Chronicled host year c) {run : Run} (member : run ∈ c.runs)
    {pass : Pass} {ids : List ℕ} (isPlace : run.place = .delete pass ids) :
    (Watched pass.table → ∀ id ∈ ids, Stored c.toSite pass.table id) ∧
      (pass.table = .orders → ∀ id, ¬ Eligible c.hot (yearStart year) .orderItems id) := by
  have isPass : passOf run.place = some pass := by rw [isPlace]; rfl
  obtain ⟨sound, isCutoff⟩ := chronicled.inYear.sound_of_passOf member isPass
  have sameCutoff := (sound.cutoff pass isPass).symm.trans isCutoff
  refine ⟨fun watched id among => sound.doomed pass.table id watched ?_,
    fun ofOrders id isEligible => ?_⟩
  · rw [isPlace]
    exact ⟨rfl, among⟩
  have fits := sound.fits
  rw [isPlace] at fits
  have isLast := last_of_orders fits.2 fits.1 ofOrders
  have isEmptied : Emptied run.place .orderItems := by
    rw [isPlace]
    simp [Emptied, EmptiedAfter, EmptiedBy, fits.1, isLast, ofOrders]
  have isDoomed := sound.emptied .orderItems id (.inr rfl) isEmptied (sameCutoff ▸ isEligible)
  rw [isPlace] at isDoomed
  exact absurd (isDoomed.1.trans ofOrders) (by decide)

theorem chronicled_next (utc : host.offset = 0) (chronicled : Chronicled host year c)
    (within : YearGoesOn year c e) (steps : c.next host e = some c') : Chronicled host year c' := by
  obtain ⟨w, moves, rfl⟩ := Option.map_eq_some_iff.1 steps
  -- The commits of a year leave no execution behind, whatever it has passed.
  have inYear := inYear_next chronicled.inYear (by rw [cutoffIso, within.1])
    (chronicled.noneBehind within) moves
  cases e with
  | tick microseconds =>
    cases moves
    refine ⟨inYear, fun run member =>
      (chronicled.began run member).trans (Nat.div_le_div_right (Nat.le_add_right _ _)), ?_, ?_⟩
    · -- Nothing was placed, so the history stays.
      rw [after_of_shrinks _ fun _ _ member => member]
      obtain ⟨orderIds, itemIds, hot, archive, parents, somewhere⟩ := chronicled.complete
      exact ⟨orderIds, itemIds, hot, archive, parents, somewhere⟩
    · rw [after_of_shrinks _ fun _ _ member => member]
      exact chronicled.pastOnly
  | start =>
    cases moves
    refine ⟨inYear, fun run member => ?_, ?_, fun run member => ?_⟩
    · rcases List.mem_append.1 member with old | new
      · exact chronicled.began run old
      · rw [List.mem_singleton.1 new]
        exact Nat.zero_le _
    · rw [after_of_shrinks _ fun _ _ member => member]
      exact chronicled.complete
    · rcases List.mem_append.1 member with old | new
      · exact (chronicled.pastOnly run old).after _ _ _
      · rw [List.mem_singleton.1 new]
        trivial
  | crash i =>
    obtain ⟨run, found, rfl⟩ := Option.map_eq_some_iff.1 moves
    refine ⟨inYear, fun run' member => ?_, ?_, fun run' member => ?_⟩
    · rcases List.mem_or_eq_of_mem_set member with old | rfl
      · exact chronicled.began run' old
      · exact chronicled.began run (List.mem_of_getElem? found)
    · rw [after_of_shrinks _ fun _ _ member => member]
      exact chronicled.complete
    · rcases List.mem_or_eq_of_mem_set member with old | rfl
      · exact (chronicled.pastOnly run' old).after _ _ _
      · trivial
  | live writes =>
    cases moves
    exact ⟨inYear, chronicled.began, complete_after c.toSite chronicled.complete within.2,
      fun run member => (chronicled.pastOnly run member).after _ _ _⟩
  | step i outcome =>
    obtain ⟨run, run', found, acts, isNext⟩ := effect_step moves
    have member := List.mem_of_getElem? found
    -- An execution adds nothing to hot.
    have shrinks := (effect_next acts).shrinks
    rw [isNext]
    refine ⟨isNext ▸ inYear, fun run'' member' => ?_, ?_, fun run'' member' => ?_⟩
    · show run''.began ≤ w.now / 1000
      rw [shrinks.now]
      rcases List.mem_or_eq_of_mem_set member' with old | rfl
      · exact chronicled.began run'' old
      · rcases began_of_next acts with before | now
        · rw [before]
          exact chronicled.began run member
        · exact now.le
    · rw [after_of_shrinks _ shrinks.hot]
      exact complete_effect utc chronicled.complete (chronicled.pastOnly run member)
        (fun pass ids isPlace => (chronicled.deletes member isPlace).1)
        (fun pass ids isPlace => (chronicled.deletes member isPlace).2)
        (effect_next acts)
    · rcases List.mem_or_eq_of_mem_set member' with old | rfl
      · exact (chronicled.pastOnly run'' old).after _ _ _
      · exact (pastOnly_next chronicled.complete
          (fun pass isPass => (chronicled.inYear.sound_of_passOf member isPass).2) acts).after _ _ _

end

/-! ## Copied once and for all -/

/-- The execution is behind its insert passes, and nothing has cut it short. -/
def HasCopied (run : Run) : Prop :=
  run.whole = true ∧ match run.place with
    | .tables .delete _ | .delete .. | .releasing | .ended => True
    | .loop pass | .fetch pass | .renew pass _ | .renewing pass _ | .renewed pass _ =>
      pass.kind = .delete
    | .acquiring | .acquired | .tables .insert _ | .insert .. => False

/-- The archive has everything of earlier years. -/
def Copied (year : ℕ) (site : Site) : Prop :=
  ∀ t, Watched t → ∀ id, Eligible site.hot (yearStart year) t id → Stored site t id

section

variable {host : Host} {year : ℕ} {c c' : Chronicle} {e : Event}

theorem passed_of_hasCopied {run : Run} (hasCopied : HasCopied run) (t : TableName) (id : ℕ) :
    Passed run.place t id ∧ ¬ Pending run.place t id ∧ Begun run := by
  obtain ⟨_, behind⟩ := hasCopied
  unfold Begun
  cases isPlace : run.place with
  | acquiring => rw [isPlace] at behind; exact behind.elim
  | acquired => rw [isPlace] at behind; exact behind.elim
  | insert pass rows => rw [isPlace] at behind; exact behind.elim
  | tables kind left =>
    rw [isPlace] at behind
    cases kind with
    | insert => exact behind.elim
    | delete => exact ⟨trivial, fun none => none, by simp, by simp⟩
  | loop pass =>
    rw [isPlace] at behind
    exact ⟨by simp only [Passed, PassedBy, behind], fun none => none, by simp, by simp⟩
  | fetch pass =>
    rw [isPlace] at behind
    exact ⟨by simp only [Passed, PassedBy, behind], fun none => none, by simp, by simp⟩
  | renew pass isLast =>
    rw [isPlace] at behind
    exact ⟨by cases isLast <;> simp [Passed, PassedBy, PassedAfter, behind], fun none => none,
      by simp, by simp⟩
  | renewing pass isLast =>
    rw [isPlace] at behind
    exact ⟨by cases isLast <;> simp [Passed, PassedBy, PassedAfter, behind], fun none => none,
      by simp, by simp⟩
  | renewed pass isLast =>
    rw [isPlace] at behind
    exact ⟨by cases isLast <;> simp [Passed, PassedBy, PassedAfter, behind], fun none => none,
      by simp, by simp⟩
  | _ => exact ⟨trivial, fun none => none, by simp, by simp⟩

theorem Chronicled.copied (chronicled : Chronicled host year c) {run : Run} (member : run ∈ c.runs)
    (hasCopied : HasCopied run) : Copied year c.toSite := by
  intro t watched id isEligible
  obtain ⟨isPassed, notPending, begun⟩ := passed_of_hasCopied hasCopied t id
  rcases chronicled.inYear.progress.runs run member with sound | cut
  · have isCutoff := chronicled.inYear.oneCutoff run member hasCopied.1 begun
    exact (sound.copied t id watched isPassed (isCutoff ▸ isEligible)).resolve_right notPending
  · exact absurd (cut.whole.symm.trans hasCopied.1) Bool.false_ne_true

theorem copied_next (within : YearGoesOn year c e) (copied : Copied year c.toSite)
    (steps : c.next host e = some c') : Copied year c'.toSite := by
  obtain ⟨w, moves, rfl⟩ := Option.map_eq_some_iff.1 steps
  cases e with
  | tick microseconds => cases moves; exact copied
  | start => cases moves; exact copied
  | crash i =>
    obtain ⟨run, _, rfl⟩ := Option.map_eq_some_iff.1 moves
    exact copied
  | live writes =>
    cases moves
    exact fun t watched id isEligible =>
      copied t watched id (PlacesOrders.fewer c.toSite within.2 le_rfl watched isEligible)
  | step i outcome =>
    obtain ⟨run, run', found, acts, isNext⟩ := effect_step moves
    have shrinks := (effect_next acts).shrinks
    exact fun t watched id isEligible =>
      shrinks.stored t id (copied t watched id (shrinks.eligible isEligible))

theorem chronicled_of_reach (utc : host.offset = 0) (chronicled : Chronicled host year c)
    (reached : Chronicle.Reach host year c c') : Chronicled host year c' :=
  reached.invariant chronicled fun _ _ _ known within steps =>
    chronicled_next utc known within steps

theorem copied_of_reach (copied : Copied year c.toSite) (reached : Chronicle.Reach host year c c') :
    Copied year c'.toSite := by
  induction reached with
  | refl => exact copied
  | step _ within steps known => exact copied_next within known steps

/-- What was placed stays in the history. -/
theorem placed_of_reach (reached : Chronicle.Reach host year c c') :
    ∀ placed ∈ c.history.orders, placed ∈ c'.history.orders := by
  induction reached with
  | refl => exact fun _ isPlaced => isPlaced
  | step _ _ steps known =>
    obtain ⟨w, _, rfl⟩ := Option.map_eq_some_iff.1 steps
    exact fun placed isPlaced => List.mem_append_left _ (known placed isPlaced)

end

/-! ## What a customer sees -/

/-- A database has the orders of a year, with their items, and none that were not placed. -/
structure Shows (history : History) (year : ℕ) (conn : Database) : Prop where
  knownOrders : ∀ order ∈ (conn .orders).rows, Known history .orders order
  knownItems : ∀ item ∈ (conn .orderItems).rows, Known history .orderItems item
  orders : ∀ placed ∈ history.orders, yearOf placed.createdAt = year →
    ∃ order ∈ (conn .orders).rows, Order.id order = placed.id
  items : ∀ item ∈ history.items,
    (∃ placed ∈ history.orders, placed.id = item.orderId ∧ yearOf placed.createdAt = year) →
    ∃ row ∈ (conn .orderItems).rows, OrderItem.id row = item.id

section

variable {history : History} {year y now : ℕ} {site : Site} {conn : Database}

theorem shows_of_copied (complete : Complete history year site) (copied : Copied year site)
    (sameYear : yearOf now = year) (noLater : y ≤ year) :
    Shows history y (connFor site.hot site.archive now y) := by
  rcases Nat.lt_or_eq_of_le noLater with earlier | rfl
  · -- a year that is over is read from the archive
    rw [connFor, sameYear, if_pos earlier]
    have stored : ∀ t, Watched t → ∀ id ∈ history.ids t,
        (∀ row ∈ (site.hot t).rows, rowId row = id → Past history year t row) →
        Stored site t id := by
      intro t watched id isPlaced past
      rcases complete.somewhere t id isPlaced with ⟨row, inHot, isId⟩ | stored
      · exact copied t watched id
          ⟨row, inHot, complete.eligible_of_past watched inHot (past row inHot isId), isId⟩
      · exact stored
    refine ⟨fun order member => (complete.archive .orders order member).1,
      fun item member => (complete.archive .orderItems item member).1,
      fun placed isPlaced inYear => ?_, fun item isPlaced ofYear => ?_⟩
    · have isStored :=
        stored .orders (.inl rfl) placed.id (List.mem_map_of_mem isPlaced) fun row inHot isId =>
        ⟨placed, isPlaced, isId.symm, inYear ▸ earlier⟩
      obtain ⟨row, found⟩ := Option.isSome_iff_exists.1 isStored
      exact ⟨row, Table.get_mem found, RowKey.id.inj (Table.get_key found)⟩
    · obtain ⟨placed, isOrder, isParent, inYear⟩ := ofYear
      have isStored := stored .orderItems (.inr rfl) item.id (List.mem_map_of_mem isPlaced)
        fun row inHot isId => by
        obtain ⟨item', isPlaced', sameId, sameOrder⟩ := complete.hot .orderItems row inHot
        rw [complete.item_eq isPlaced' isPlaced (sameId.trans isId)] at sameOrder
        exact ⟨placed, isOrder, isParent.trans sameOrder, inYear ▸ earlier⟩
      obtain ⟨row, found⟩ := Option.isSome_iff_exists.1 isStored
      exact ⟨row, Table.get_mem found, RowKey.id.inj (Table.get_key found)⟩
  · -- nothing of the current year is in the archive
    rw [connFor, sameYear, if_neg (Nat.lt_irrefl y)]
    refine ⟨fun order member => complete.hot .orders order member,
      fun item member => complete.hot .orderItems item member,
      fun placed isPlaced inYear => ?_, fun item isPlaced ofYear => ?_⟩
    · rcases complete.somewhere .orders placed.id (List.mem_map_of_mem isPlaced) with there | stored
      · exact there
      · obtain ⟨row, found⟩ := Option.isSome_iff_exists.1 stored
        obtain ⟨other, isPlaced', sameId, earlier⟩ :=
          (complete.archive .orders row (Table.get_mem found)).2
        rw [complete.order_eq isPlaced' isPlaced
          (sameId.trans (RowKey.id.inj (Table.get_key found))), inYear] at earlier
        exact absurd earlier (Nat.lt_irrefl y)
    · rcases complete.somewhere .orderItems item.id (List.mem_map_of_mem isPlaced)
        with there | stored
      · exact there
      · obtain ⟨row, found⟩ := Option.isSome_iff_exists.1 stored
        obtain ⟨placed, isOrder, isParent, inYear⟩ := ofYear
        obtain ⟨⟨item', isPlaced', sameId, sameOrder⟩, other, isOrder', isParent', earlier⟩ :=
          complete.archive .orderItems row (Table.get_mem found)
        rw [complete.item_eq isPlaced' isPlaced
          (sameId.trans (RowKey.id.inj (Table.get_key found)))] at sameOrder
        rw [complete.order_eq isOrder' isOrder
          (isParent'.trans (sameOrder.symm.trans isParent.symm)), inYear] at earlier
        exact absurd earlier (Nat.lt_irrefl y)

end

/-- The list of a customer's orders of each year up to now: what was placed, with as many items. -/
def ReadsHistory (c c' : Chronicle) : Prop :=
  ∀ customerId year, year ≤ yearOf c.now →
    ((listCustomerOrders (connFor c.hot c.archive c.now year) (connFor c'.hot c'.archive c.now year)
      customerId year).map
      fun listed => (listed.1.id, listed.2)).Perm
    ((c.history.orders.filter fun placed =>
      placed.customerId = customerId && yearOf placed.createdAt = year).map fun placed =>
        (placed.id, (c'.history.items.filter fun item => item.orderId = placed.id).length))

section

variable {history history' : History} {year customerId : ℕ} {conn conn' : Database}

theorem mem_found (shows : Shows history year conn) (orderIds : (history.orders.map Order.id).Nodup)
    (id : ℕ) :
    id ∈ (findOrdersByCustomer conn customerId year).map Order.id ↔
      id ∈ (history.orders.filter fun placed =>
        placed.customerId = customerId && yearOf placed.createdAt = year).map Order.id := by
  simp only [findOrdersByCustomer, List.mem_map, List.mem_filter, Bool.and_eq_true,
    decide_eq_true_eq]
  constructor
  · rintro ⟨order, ⟨member, ofCustomer, inYear⟩, rfl⟩
    obtain ⟨placed, isPlaced, sameId, sameCustomer, sameYear⟩ := shows.knownOrders order member
    exact ⟨placed, ⟨isPlaced, sameCustomer.trans ofCustomer, sameYear.trans inYear⟩, sameId⟩
  · rintro ⟨placed, ⟨isPlaced, ofCustomer, inYear⟩, rfl⟩
    obtain ⟨order, member, isId⟩ := shows.orders placed isPlaced inYear
    obtain ⟨placed', isPlaced', sameId, sameCustomer, sameYear⟩ := shows.knownOrders order member
    have samePlaced := List.inj_on_of_nodup_map orderIds isPlaced' isPlaced (sameId.trans isId)
    rw [samePlaced] at sameCustomer sameYear
    exact ⟨order, ⟨member, sameCustomer.symm.trans ofCustomer, sameYear.symm.trans inYear⟩, isId⟩

theorem perm_found (customerId : ℕ) (shows : Shows history year conn)
    (orderIds : (history.orders.map Order.id).Nodup) :
    ((findOrdersByCustomer conn customerId year).map Order.id).Perm
      ((history.orders.filter fun placed =>
        placed.customerId = customerId && yearOf placed.createdAt = year).map Order.id) := by
  refine (List.perm_ext_iff_of_nodup ?_ (orderIds.sublist (List.filter_sublist.map _))).2
    (mem_found shows orderIds)
  refine List.Nodup.map_on (fun a inA b inB same => ?_) ((conn .orders).rows_nodup.filter _)
  exact Table.eq_of_key (List.mem_of_mem_filter inA) (List.mem_of_mem_filter inB)
    (congrArg RowKey.id same)

/-- An order has as many items as were placed with it. -/
theorem items_found (shows : Shows history year conn)
    (itemIds : (history.items.map OrderItem.id).Nodup) {orderId : ℕ}
    (inYear : ∃ placed ∈ history.orders, placed.id = orderId ∧ yearOf placed.createdAt = year) :
    ((conn .orderItems).rows.filter fun item : OrderItem => item.orderId = orderId).length =
      (history.items.filter fun item => item.orderId = orderId).length := by
  have perm : (((conn .orderItems).rows.filter fun item : OrderItem => item.orderId = orderId).map
      OrderItem.id).Perm
      ((history.items.filter fun item => item.orderId = orderId).map OrderItem.id) := by
    refine (List.perm_ext_iff_of_nodup ?_ (itemIds.sublist (List.filter_sublist.map _))).2 fun id =>
      ?_
    · refine List.Nodup.map_on (fun a inA b inB same => ?_) ((conn .orderItems).rows_nodup.filter _)
      exact Table.eq_of_key (List.mem_of_mem_filter inA) (List.mem_of_mem_filter inB)
        (congrArg RowKey.id same)
    · simp only [List.mem_map, List.mem_filter, decide_eq_true_eq]
      constructor
      · rintro ⟨row, ⟨member, ofOrder⟩, rfl⟩
        obtain ⟨item, isPlaced, sameId, sameOrder⟩ := shows.knownItems row member
        exact ⟨item, ⟨isPlaced, sameOrder.trans ofOrder⟩, sameId⟩
      · rintro ⟨item, ⟨isPlaced, ofOrder⟩, rfl⟩
        obtain ⟨row, member, isId⟩ := shows.items item isPlaced (ofOrder ▸ inYear)
        obtain ⟨item', isPlaced', sameId, sameOrder⟩ := shows.knownItems row member
        rw [List.inj_on_of_nodup_map itemIds isPlaced' isPlaced (sameId.trans isId)] at sameOrder
        exact ⟨row, ⟨member, sameOrder.symm.trans ofOrder⟩, isId⟩
  simpa using perm.length_eq

end

/-- In every state of the year, once some execution has been through its insert passes. -/
def KeepsHistory (host : Host) (year : ℕ) (start : Chronicle) : Prop :=
  ∀ c₀ c c', Chronicle.Reach host year start c₀ → (∃ run ∈ c₀.runs, HasCopied run) →
  Chronicle.Reach host year c₀ c →
    Chronicle.Reach host year c c' → yearOf c.now = year → ReadsHistory c c'

theorem customers_keep_their_history (host : Host) (utc : host.offset = 0) (year : ℕ)
    (start : Chronicle) (positive : Positive start.hot)
    (complete : Complete start.history year start.toSite) (none : start.runs = []) :
    KeepsHistory host year start := by
  intro c₀ c c' reached₀ behind reached reached' sameYear customerId y noLater
  have begins : Chronicled host year start :=
    ⟨inYear_start positive none,
      by rw [none]; exact fun _ impossible => absurd impossible List.not_mem_nil, complete,
      by rw [none]; exact fun _ impossible => absurd impossible List.not_mem_nil⟩
  have chronicled₀ := chronicled_of_reach utc begins reached₀
  have chronicled := chronicled_of_reach utc chronicled₀ reached
  have chronicled' := chronicled_of_reach utc chronicled reached'
  obtain ⟨run, member, hasCopied⟩ := behind
  have copied := copied_of_reach (chronicled₀.copied member hasCopied) reached
  have copied' := copied_of_reach copied reached'
  rw [sameYear] at noLater
  -- Wherever the year's list is read, the copies of its orders are there.
  have shows := shows_of_copied chronicled.complete copied sameYear noLater
  have shows' := shows_of_copied chronicled'.complete copied' sameYear noLater
  have found := perm_found customerId shows chronicled.complete.orderIds
  set orders := findOrdersByCustomer (connFor c.hot c.archive c.now y) customerId y with isOrders
  set placed := c.history.orders.filter fun placed =>
      placed.customerId = customerId && yearOf placed.createdAt = y with isPlaced
  -- The items are read later, and by then they may have been moved, but not lost.
  have counted : ∀ order ∈ orders, itemsByOrder (OrderLists.findItemsByOrderIds
      (connFor c'.hot c'.archive c.now y) (orders.map Order.id)) order.id =
      (c'.history.items.filter fun item => item.orderId = order.id).length := by
    intro order member
    rw [itemsByOrder_of_mem (List.mem_map_of_mem member)]
    refine items_found shows' chronicled'.complete.itemIds ?_
    obtain ⟨placed, isThere, sameId⟩ := List.mem_map.1
      ((mem_found shows chronicled.complete.orderIds order.id).1 (List.mem_map_of_mem member))
    obtain ⟨inHistory, ofCustomer⟩ := List.mem_filter.1 isThere
    simp only [Bool.and_eq_true, decide_eq_true_eq] at ofCustomer
    exact ⟨placed, placed_of_reach reached' placed inHistory, sameId, ofCustomer.2⟩
  have listed : (listCustomerOrders (connFor c.hot c.archive c.now y)
      (connFor c'.hot c'.archive c.now y) customerId y).map
      (fun listed => (listed.1.id, listed.2)) =
      (orders.map Order.id).map fun id =>
        (id, (c'.history.items.filter fun item => item.orderId = id).length) := by
    simp only [listCustomerOrders, List.map_map]
    exact List.map_congr_left fun order member => congrArg (order.id, ·) (counted order member)
  rw [listed]
  have mapped := found.map fun id =>
      (id, (c'.history.items.filter fun item => item.orderId = id).length)
  simpa [List.map_map, Function.comp_def] using mapped

/-- An order of 2025, in 2026. -/
def recordedNewYearsDay : Chronicle :=
  ⟨ArchivalReruns.newYearsDay, ⟨[ArchivalLoss.oldOrder], [ArchivalReruns.oldItem]⟩⟩

theorem complete_recordedNewYearsDay :
    Complete recordedNewYearsDay.history 2026 recordedNewYearsDay.toSite where
  orderIds := by decide
  itemIds := by decide
  hot t row member := by
    cases t with
    | orders =>
      have single : row = ArchivalLoss.oldOrder := List.mem_singleton.1 member
      exact ⟨ArchivalLoss.oldOrder, List.mem_singleton_self _,
        by rw [single], by rw [single], by rw [single]⟩
    | orderItems =>
      have single : row = ArchivalReruns.oldItem := List.mem_singleton.1 member
      exact ⟨ArchivalReruns.oldItem, List.mem_singleton_self _, by rw [single], by rw [single]⟩
    | _ => trivial
  archive _ _ member := absurd member List.not_mem_nil
  parents item member := by
    have single : item = ArchivalReruns.oldItem := List.mem_singleton.1 member
    exact ⟨ArchivalLoss.oldOrder, List.mem_singleton_self _, by rw [single]; rfl⟩
  somewhere t id isPlaced := by
    cases t with
    | orders =>
      exact .inl ⟨ArchivalLoss.oldOrder, List.mem_singleton_self _,
        (List.mem_singleton.1 isPlaced).symm⟩
    | orderItems =>
      exact .inl ⟨ArchivalReruns.oldItem, List.mem_singleton_self _,
        (List.mem_singleton.1 isPlaced).symm⟩
    | _ => exact absurd isPlaced List.not_mem_nil

/-- The execution deletes, or has come to its end. -/
def isBehind (run : Run) : Bool :=
  run.whole && match run.place with
    | .tables .delete _ | .delete .. | .releasing | .ended => true
    | .loop pass | .fetch pass | .renew pass _ | .renewing pass _ | .renewed pass _ =>
      decide (pass.kind = .delete)
    | _ => false

theorem hasCopied_of_isBehind {run : Run} (behind : isBehind run = true) : HasCopied run := by
  obtain ⟨isWhole, place⟩ := Bool.and_eq_true_iff.1 behind
  refine ⟨isWhole, ?_⟩
  revert place
  cases run.place with
  | tables kind left => cases kind <;> simp
  | _ => simp

/-- The services do nothing while the year goes on. -/
def Undisturbed (year : ℕ) (c : Chronicle) (e : Event) : Prop :=
  yearOf c.now = year ∧ ArchivalLoss.Unwritten e

instance (year : ℕ) (c : Chronicle) (e : Event) : Decidable (Undisturbed year c e) :=
  inferInstanceAs (Decidable (_ ∧ _))

theorem yearGoesOn_of_undisturbed {year : ℕ} {c : Chronicle} {e : Event}
    (undisturbed : Undisturbed year c e) : YearGoesOn year c e := by
  refine ⟨undisturbed.1, ?_⟩
  cases e with
  | live writes => exact undisturbed.2.elim
  | _ => trivial

/-- An execution goes on until its insert passes are over, until it has deleted the dish, and to its
end. -/
def inThreeParts : List Event × List Event × List Event :=
  (.start :: List.replicate 35 (.step 0 .done), List.replicate 15 (.step 0 .done),
    List.replicate 5 (.step 0 .done))

/-- The customer lists the orders while the dish is in the archive and the order still in hot as
well, and counts the dishes when both are in the archive only. -/
theorem customer_of_2025_keeps_the_history :
    ∃ c c', Chronicle.Reach ArchivalLoss.host 2026 recordedNewYearsDay c ∧
    Chronicle.Reach ArchivalLoss.host 2026 c c' ∧
      (c.hot .orders).rows.length = 1 ∧ (c.hot .orderItems).rows.length = 0 ∧
      (c'.hot .orders).rows.length = 0 ∧
      (listCustomerOrders (connFor c.hot c.archive c.now 2025)
        (connFor c'.hot c'.archive c.now 2025) 7 2025).map
        (fun listed => (listed.1.id, listed.2)) = [(1, 1)] ∧ ReadsHistory c c' := by
  have played : ((Machine.play (Chronicle.next ArchivalLoss.host)
      (fun c e => decide (Undisturbed 2026 c e)) inThreeParts.1
      recordedNewYearsDay).bind fun c₀ =>
        (Machine.play (Chronicle.next ArchivalLoss.host) (fun c e => decide (Undisturbed 2026 c e))
          inThreeParts.2.1 c₀).bind fun c =>
          (Machine.play (Chronicle.next ArchivalLoss.host)
            (fun c e => decide (Undisturbed 2026 c e)) inThreeParts.2.2 c).map fun c' =>
            (decide (c₀.runs.any isBehind = true ∧ yearOf c.now = 2026 ∧
              (c.hot .orders).rows.length = 1 ∧
              (c.hot .orderItems).rows.length = 0 ∧ (c'.hot .orders).rows.length = 0),
              (listCustomerOrders (connFor c.hot c.archive c.now 2025)
                (connFor c'.hot c'.archive c.now 2025) 7 2025).map
                fun listed => (listed.1.id, listed.2))) =
      some (true, [(1, 1)]) := by decide +kernel
  obtain ⟨c₀, firstRun, rest⟩ := Option.bind_eq_some_iff.1 played
  obtain ⟨c, secondRun, rest⟩ := Option.bind_eq_some_iff.1 rest
  obtain ⟨c', thirdRun, isEnd⟩ := Option.map_eq_some_iff.1 rest
  simp only [Prod.mk.injEq] at isEnd
  obtain ⟨stages, listed⟩ := isEnd
  obtain ⟨copied, sameYear, orders, items, gone⟩ := of_decide_eq_true stages
  have first : Chronicle.Reach ArchivalLoss.host 2026 recordedNewYearsDay c₀ :=
    Machine.reach_of_play
      (fun _ _ checked => yearGoesOn_of_undisturbed (of_decide_eq_true checked)) firstRun
  have second : Chronicle.Reach ArchivalLoss.host 2026 c₀ c :=
    Machine.reach_of_play
      (fun _ _ checked => yearGoesOn_of_undisturbed (of_decide_eq_true checked)) secondRun
  have third : Chronicle.Reach ArchivalLoss.host 2026 c c' :=
    Machine.reach_of_play
      (fun _ _ checked => yearGoesOn_of_undisturbed (of_decide_eq_true checked)) thirdRun
  obtain ⟨run, member, hasCopied⟩ := List.any_eq_true.1 copied
  have keeps := customers_keep_their_history ArchivalLoss.host rfl 2026 recordedNewYearsDay
    ArchivalReruns.positive_newYearsDay
    complete_recordedNewYearsDay rfl
  exact ⟨c, c', first.trans second, third, orders, items, gone, listed,
    keeps c₀ c c' first ⟨run, member, hasCopied_of_isBehind hasCopied⟩ second third sameYear⟩

end SwiftBite.Verified.CustomerHistory
