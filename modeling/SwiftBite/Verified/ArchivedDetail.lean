import SwiftBite.Service.OrderDetail
import SwiftBite.Verified.CustomerHistory

/-! # One order while the archive is filled

An order is read by three statements: in hot, in the archive, and its items.  Executions of the
archival worker and commits of the services go on in between.  While the year lasts, whoever may
look into the archive finds every order that was ever placed, at any moment; everybody finds the
orders of the current year.
-/

set_option autoImplicit false

namespace SwiftBite.Verified.ArchivedDetail

open Store Archival ArchivalRows ArchivalPasses CustomerHistory OrderService Calendar

/-! ## What was agreed -/

/-- What the customer agreed to, with the parties. -/
def terms (order : Order) : ℕ × ℕ × ℕ × ℕ × ℤ × ℤ × ℤ × ℤ × String × PaymentMethod :=
  (order.publicId, order.restaurantId, order.branchId, order.customerId, order.subtotal,
    order.deliveryFee, order.serviceFee,
    order.total, order.currency, order.paymentMethod)

def itemTerms (item : OrderItem) : ℕ × ℕ × ℕ × ℤ × String × Option String × ℤ :=
  (item.orderId, item.productId, item.quantity, item.unitPriceSnapshot, item.nameSnapshot,
    item.imageUrlSnapshot, item.lineTotal)

/-- The row says what was agreed when it was placed. -/
def AsPlaced (history : History) : (t : TableName) → RowOf t → Prop
  | .orders, (order : Order) =>
    ∃ placed ∈ history.orders, placed.id = order.id ∧ terms placed = terms order
  | .orderItems, (item : OrderItem) =>
    ∃ placed ∈ history.items, placed.id = item.id ∧ itemTerms placed = itemTerms item
  | _, _ => True

/-- Both databases say what was agreed, and public ids tell the orders apart. -/
structure Faithful (history : History) (site : Site) : Prop where
  publicIds : (history.orders.map Order.publicId).Nodup
  hot : ∀ t, ∀ row ∈ (site.hot t).rows, AsPlaced history t row
  archive : ∀ t, ∀ row ∈ (site.archive t).rows, AsPlaced history t row

/-- The services change nothing that was agreed, and draw new public ids. -/
structure KeepsTerms (history : History) (db db' : Database) : Prop where
  orders : Table.Keeps terms (db .orders) (db' .orders)
  items : Table.Keeps itemTerms (db .orderItems) (db' .orderItems)
  fresh : ∀ order ∈ newRows db db' .orders, Order.publicId order ∉ history.orders.map Order.publicId

def Agreed (year : ℕ) (c : Chronicle) (e : Event) : Prop :=
  YearGoesOn year c e ∧ match e with
    | .live writes => KeepsTerms c.history c.hot (c.hot.applyAll writes)
    | _ => True

/-- The states of the year. -/
abbrev Reaches (host : Host) (year : ℕ) : Chronicle → Chronicle → Prop :=
  Machine.Reach (Chronicle.next host) (Agreed year)

section

variable {history : History} {site site' : Site} {host : Host} {year : ℕ} {run run' : Run}
  {outcome : Outcome} {c c' : Chronicle} {e : Event}

theorem as_carried (offset : ℤ) {t : TableName} {row : RowOf t} (as : AsPlaced history t row) :
    AsPlaced history t (carried offset t row) := by
  cases t <;> exact as

theorem as_after (db db' : Database) {t : TableName} {row : RowOf t} (as : AsPlaced history t row) :
    AsPlaced (history.after db db') t row := by
  cases t with
  | orders =>
    obtain ⟨placed, isPlaced, same⟩ := as
    exact ⟨placed, List.mem_append_left _ isPlaced, same⟩
  | orderItems =>
    obtain ⟨placed, isPlaced, same⟩ := as
    exact ⟨placed, List.mem_append_left _ isPlaced, same⟩
  | _ => trivial

/-- `public_id` is unique in the table. -/
theorem eq_of_publicId {db : Database} {a b : Order} (inA : a ∈ (db .orders).rows)
    (inB : b ∈ (db .orders).rows) (same : a.publicId = b.publicId) : a = b := by
  have left : UniqueKey.orderPublicId a.publicId ∈ (uniques a : List UniqueKey) :=
    List.mem_singleton_self _
  have right : UniqueKey.orderPublicId a.publicId ∈ (uniques b : List UniqueKey) := by
    rw [same]
    exact List.mem_singleton_self _
  exact Table.eq_of_unique inA inB left right

/-! ## One step -/

/-- The selected rows say what was agreed. -/
def Selected (history : History) : Place → Prop
  | .insert pass rows => ∀ row ∈ rows, AsPlaced history pass.table row
  | _ => True

theorem Selected.after (db db' : Database) {place : Place} (selected : Selected history place) :
    Selected (history.after db db') place := by
  cases place with
  | insert pass rows => exact fun row member => as_after _ _ (selected row member)
  | _ => trivial

theorem selected_next (faithful : Faithful history site)
    (steps : run.next host site outcome = some (site', run')) : Selected history run'.place := by
  obtain ⟨pass, _, _, ⟨_, isNext⟩ | ⟨_, isNext⟩⟩ | ⟨notInsert, _⟩ := batch_of_next steps
  · rw [isNext]
    exact fun row member => faithful.hot _ row (mem_insertBatch member).1
  · rw [isNext]
    trivial
  · cases isPlace : run'.place with
    | insert pass rows => exact absurd isPlace (notInsert pass rows)
    | _ => trivial

theorem faithful_effect (faithful : Faithful history site)
    (selected : Selected history run.place)
    (effect : Effect host run site site') : Faithful history site' := by
  refine ⟨faithful.publicIds,
    fun t row member => faithful.hot t row (effect.shrinks.hot t row member), ?_⟩
  cases effect with
  | quiet _ sameArchive _ =>
    rw [sameArchive]
    exact faithful.archive
  | inserts pass rows table isPlace inserted isSite =>
    subst isSite
    rw [isPlace] at selected
    intro t row member
    by_cases same : t = pass.table
    · subst same
      simp only [Site.insertInto, Function.update_self] at member
      rcases inserted.origin row member with before | ⟨new, _⟩
      · exact faithful.archive _ row before
      · obtain ⟨old, inBatch, rfl⟩ := List.mem_map.1 new
        exact as_carried _ (selected old inBatch)
    · exact faithful.archive t row (by simpa [Site.insertInto, same] using member)
  | deletes pass ids _ isSite =>
    subst isSite
    exact faithful.archive

/-- A row that the services leave behind says what was agreed, whether it is new or not. -/
theorem as_of_live {db' : Database} (faithful : Faithful history site)
    (keeps : KeepsTerms history site.hot db') (t : TableName) (row : RowOf t)
    (member : row ∈ (db' t).rows) : AsPlaced (history.after site.hot db') t row := by
  cases t with
  | orders =>
    rcases new_or_old site.hot (t := .orders) member with isNew | ⟨old, wasThere, sameKey⟩
    · exact ⟨row, List.mem_append_right _ isNew, rfl, rfl⟩
    · obtain ⟨placed, isPlaced, sameId, sameTerms⟩ := faithful.hot .orders old wasThere
      exact ⟨placed, List.mem_append_left _ isPlaced, sameId.trans (RowKey.id.inj sameKey),
        sameTerms.trans (eq_of_keeps keeps.orders wasThere member sameKey).symm⟩
  | orderItems =>
    rcases new_or_old site.hot (t := .orderItems) member with isNew | ⟨old, wasThere, sameKey⟩
    · exact ⟨row, List.mem_append_right _ isNew, rfl, rfl⟩
    · obtain ⟨placed, isPlaced, sameId, sameTerms⟩ := faithful.hot .orderItems old wasThere
      exact ⟨placed, List.mem_append_left _ isPlaced, sameId.trans (RowKey.id.inj sameKey),
        sameTerms.trans (eq_of_keeps keeps.items wasThere member sameKey).symm⟩
  | _ => trivial

theorem publicIds_after {db' : Database} (faithful : Faithful history site)
    (keeps : KeepsTerms history site.hot db') :
    ((history.after site.hot db').orders.map Order.publicId).Nodup := by
  rw [History.after, List.map_append]
  refine faithful.publicIds.append ?_ ?_
  · refine List.Nodup.map_on (fun a inA b inB same => ?_) ((db' .orders).rows_nodup.filter _)
    exact eq_of_publicId (mem_newRows.1 inA).1 (mem_newRows.1 inB).1 same
  · intro id old isNew
    obtain ⟨order, member, rfl⟩ := List.mem_map.1 isNew
    exact keeps.fresh order member old

/-! ## Runs -/

structure OnRecord (c : Chronicle) : Prop where
  faithful : Faithful c.history c.toSite
  selected : ∀ run ∈ c.runs, Selected c.history run.place

theorem recorded_next (recorded : OnRecord c) (agreed : Agreed year c e)
    (steps : c.next host e = some c') : OnRecord c' := by
  obtain ⟨w, moves, rfl⟩ := Option.map_eq_some_iff.1 steps
  obtain ⟨faithful, selected⟩ := recorded
  cases e with
  | tick microseconds =>
    cases moves
    refine ⟨?_, fun run member => (selected run member).after _ _⟩
    rw [after_of_shrinks _ fun _ _ member => member]
    exact ⟨faithful.publicIds, faithful.hot, faithful.archive⟩
  | start =>
    cases moves
    refine ⟨?_, fun run member => ?_⟩
    · rw [after_of_shrinks _ fun _ _ member => member]
      exact faithful
    · rcases List.mem_append.1 member with old | new
      · exact (selected run old).after _ _
      · rw [List.mem_singleton.1 new]
        trivial
  | crash i =>
    obtain ⟨run, found, rfl⟩ := Option.map_eq_some_iff.1 moves
    refine ⟨?_, fun run' member => ?_⟩
    · rw [after_of_shrinks _ fun _ _ member => member]
      exact faithful
    · rcases List.mem_or_eq_of_mem_set member with old | rfl
      · exact (selected run' old).after _ _
      · trivial
  | live writes =>
    cases moves
    refine ⟨⟨publicIds_after faithful agreed.2, as_of_live faithful agreed.2,
      fun t row member => ?_⟩, fun run member => ?_⟩
    · exact as_after _ _ (faithful.archive t row member)
    · exact (selected run member).after _ _
  | step i outcome =>
    obtain ⟨run, run', found, acts, isNext⟩ := effect_step moves
    have member := List.mem_of_getElem? found
    rw [isNext]
    refine ⟨?_, fun run'' member' => ?_⟩
    · -- A batch only moves rows that were placed.
      rw [after_of_shrinks _ (effect_next acts).shrinks.hot]
      exact faithful_effect faithful (selected run member) (effect_next acts)
    · rcases List.mem_or_eq_of_mem_set member' with old | rfl
      · exact (selected run'' old).after _ _
      · exact (selected_next faithful acts).after _ _

theorem reach_of_reaches (reached : Reaches host year c c') : Chronicle.Reach host year c c' :=
  Machine.Reach.mono (fun _ _ agreed => agreed.1) reached

theorem recorded_of_reaches (recorded : OnRecord c)
    (reached : Reaches host year c c') : OnRecord c' :=
  reached.invariant recorded fun _ _ _ known agreed steps => recorded_next known agreed steps

/-- What has been stored stays stored. -/
theorem stored_of_reach {t : TableName} {id : ℕ} (stored : Stored c.toSite t id)
    (reached : Chronicle.Reach host year c c') : Stored c'.toSite t id := by
  induction reached with
  | refl => exact stored
  | @step s s' e _ _ steps known =>
    obtain ⟨w, moves, rfl⟩ := Option.map_eq_some_iff.1 steps
    cases e with
    | tick microseconds => cases moves; exact known
    | start => cases moves; exact known
    | crash i =>
      obtain ⟨run, _, rfl⟩ := Option.map_eq_some_iff.1 moves
      exact known
    | live writes => cases moves; exact known
    | step i outcome =>
      obtain ⟨run, run', found, acts, isNext⟩ := effect_step moves
      exact (effect_next acts).shrinks.stored t id known

/-- Only a commit of a service adds rows to hot. -/
theorem hot_of_next {w w' : World} (moves : w.next host e = some w') :
    (∃ writes, e = .live writes ∧ w'.hot = w.hot.applyAll writes) ∨ ∀ t, ∀ row ∈ (w'.hot t).rows,
      row ∈ (w.hot t).rows := by
  cases e with
  | tick microseconds => cases moves; exact .inr fun _ _ member => member
  | start => cases moves; exact .inr fun _ _ member => member
  | crash i =>
    obtain ⟨run, _, rfl⟩ := Option.map_eq_some_iff.1 moves
    exact .inr fun _ _ member => member
  | live writes => cases moves; exact .inl ⟨writes, rfl, rfl⟩
  | step i outcome =>
    obtain ⟨run, run', _, acts, _⟩ := effect_step moves
    exact .inr (effect_next acts).shrinks.hot

/-- An order gets all its items when it is placed. -/
theorem items_of_reach {orderId : ℕ} (isPlaced : orderId ∈ c.history.orders.map Order.id)
    (reached : Chronicle.Reach host year c c') :
    (c'.history.items.filter fun item => item.orderId = orderId) =
      c.history.items.filter fun item => item.orderId = orderId := by
  induction reached with
  | refl => rfl
  | @step s s' e reached within steps known =>
    rw [← known]
    obtain ⟨w, moves, rfl⟩ := Option.map_eq_some_iff.1 steps
    obtain ⟨writes, rfl, isHot⟩ | shrinks := hot_of_next moves
    · have others : ∀ item ∈ newRows s.hot w.hot .orderItems, OrderItem.orderId item ≠ orderId := by
        rw [isHot]
        intro item isNew same
        obtain ⟨order, isNewOrder, isParent⟩ := List.mem_map.1 (within.2.newItems item isNew).2
        obtain ⟨placed, wasPlaced, sameId⟩ := List.mem_map.1 isPlaced
        -- The new item belongs to a new order, and this one is known already.
        refine (within.2.newOrders order isNewOrder).2 ?_
        rw [isParent, same, ← sameId]
        exact List.mem_map_of_mem (placed_of_reach reached placed wasPlaced)
      have none : (newRows s.hot w.hot .orderItems).filter
          (fun item : OrderItem => item.orderId = orderId) = [] :=
        List.filter_eq_nil_iff.2 fun item isNew => by simpa using others item isNew
      show ((s.history.items ++ newRows s.hot w.hot .orderItems).filter fun item : OrderItem =>
          item.orderId = orderId) = _
      rw [List.filter_append, none, List.append_nil]
    · dsimp only
      rw [after_of_shrinks _ shrinks]

/-! ## The three statements -/

theorem findOrder_iff {db : Database} {publicId : ℕ} {order : Order} :
    findOrder db publicId = some order ↔ order ∈ (db .orders).rows ∧ order.publicId = publicId := by
  constructor
  · intro found
    have isSame := List.find?_some found
    exact ⟨List.mem_of_find?_eq_some found, by simpa using isSame⟩
  · rintro ⟨member, rfl⟩
    cases found : findOrder db order.publicId with
    | none => exact absurd (decide_eq_true rfl) (List.find?_eq_none.1 found order member)
    | some other =>
      have isSame := List.find?_some found
      rw [eq_of_publicId (List.mem_of_find?_eq_some found) member (by simpa using isSame)]

/-- What is found under the public id of an order is that order. -/
theorem order_of_find (recorded : OnRecord c) {placed : Order}
    (isPlaced : placed ∈ c.history.orders) {db : Database}
    (as : ∀ t, ∀ row ∈ (db t).rows, AsPlaced c.history t row) {order : Order}
    (found : findOrder db placed.publicId = some order) :
    order ∈ (db .orders).rows ∧ order.id = placed.id ∧ terms order = terms placed := by
  obtain ⟨member, samePublicId⟩ := findOrder_iff.1 found
  obtain ⟨placed', isPlaced', sameId, sameTerms⟩ := as .orders order member
  have isSame : placed' = placed := by
    refine List.inj_on_of_nodup_map recorded.faithful.publicIds isPlaced' isPlaced ?_
    exact (congrArg Prod.fst sameTerms).trans samePublicId
  rw [← isSame]
  exact ⟨member, sameId.symm, sameTerms.symm⟩

/-- A row of the order is found under its public id. -/
theorem find_of_stored (chronicled : Chronicled host year c) (recorded : OnRecord c)
    {placed : Order} (isPlaced : placed ∈ c.history.orders)
    (stored : Stored c.toSite .orders placed.id) :
    ∃ order, findOrder c.archive placed.publicId = some order := by
  obtain ⟨order, found⟩ := Option.isSome_iff_exists.1 stored
  obtain ⟨placed', isPlaced', sameId, sameTerms⟩ :=
    recorded.faithful.archive .orders order (Table.get_mem found)
  have isSame : placed' = placed :=
    chronicled.complete.order_eq isPlaced' isPlaced
      (sameId.trans (RowKey.id.inj (Table.get_key found)))
  refine ⟨order, findOrder_iff.2 ⟨Table.get_mem found, ?_⟩⟩
  rw [← isSame]
  exact (congrArg Prod.fst sameTerms).symm

/-! ## Its items -/

/-- An item without what the copy of a row may change. -/
def shown (item : OrderItem) : ℕ × ℕ × ℕ × ℕ × ℤ × String × Option String × ℤ :=
  (item.id, itemTerms item)

/-- The items that were placed with an order. -/
def placedItems (history : History) (orderId : ℕ) : List OrderItem :=
  history.items.filter fun item => item.orderId = orderId

theorem shown_of_recorded {db : Database} (as : ∀ t, ∀ row ∈ (db t).rows, AsPlaced history t row)
    {orderId : ℕ} {item : OrderItem} (member : item ∈ OrderLists.findItemsByOrderIds db [orderId]) :
    shown item ∈ (placedItems history orderId).map shown := by
  simp only [OrderLists.findItemsByOrderIds, List.mem_filter, List.mem_singleton,
    decide_eq_true_eq] at member
  obtain ⟨inTable, ofOrder⟩ := member
  obtain ⟨placed, isPlaced, sameId, sameTerms⟩ := as .orderItems item inTable
  refine List.mem_map.2 ⟨placed, List.mem_filter.2 ⟨isPlaced, decide_eq_true ?_⟩,
    Prod.ext sameId sameTerms⟩
  exact (congrArg Prod.fst sameTerms).trans ofOrder

/-- All items are shown when each of them has a row. -/
theorem perm_shown {db : Database} (as : ∀ t, ∀ row ∈ (db t).rows, AsPlaced history t row)
    (itemIds : (history.items.map OrderItem.id).Nodup) {orderId : ℕ}
    (there : ∀ placed ∈ placedItems history orderId, ∃ row ∈ (db .orderItems).rows,
      OrderItem.id row = placed.id) :
    ((OrderLists.findItemsByOrderIds db [orderId]).map shown).Perm
      ((placedItems history orderId).map shown) := by
  have ids : ∀ {items : List OrderItem}, (items.map OrderItem.id).Nodup →
      (items.map shown).Nodup := fun nodup =>
    List.Nodup.of_map Prod.fst (by rwa [List.map_map])
  refine (List.perm_ext_iff_of_nodup (ids ?_) (ids (itemIds.sublist (List.filter_sublist.map _)))).2
    fun entry => ⟨?_, ?_⟩
  · refine List.Nodup.map_on (fun a inA b inB same => ?_) ((db .orderItems).rows_nodup.filter _)
    exact Table.eq_of_key (List.mem_of_mem_filter inA) (List.mem_of_mem_filter inB)
      (congrArg RowKey.id same)
  · intro member
    obtain ⟨item, found, rfl⟩ := List.mem_map.1 member
    exact shown_of_recorded as found
  · intro member
    obtain ⟨placed, isPlaced, rfl⟩ := List.mem_map.1 member
    obtain ⟨row, inTable, isId⟩ := there placed isPlaced
    obtain ⟨inHistory, ofOrder⟩ := List.mem_filter.1 isPlaced
    obtain ⟨placed', isPlaced', sameId, sameTerms⟩ := as .orderItems row inTable
    rw [List.inj_on_of_nodup_map itemIds isPlaced' inHistory (sameId.trans isId)] at sameTerms
    have sameOrder : OrderItem.orderId row = orderId :=
      (congrArg Prod.fst sameTerms).symm.trans (of_decide_eq_true ofOrder)
    refine List.mem_map.2 ⟨row, List.mem_filter.2 ⟨inTable, ?_⟩, Prod.ext isId sameTerms.symm⟩
    simpa using sameOrder

/-- An order that is gone from hot has all its items in the archive. -/
theorem archived_items (chronicled : Chronicled host year c) {orderId : ℕ}
    (gone : ∀ order ∈ (c.hot .orders).rows, Order.id order ≠ orderId) {placed : OrderItem}
    (isPlaced : placed ∈ placedItems c.history orderId) :
    Stored c.toSite .orderItems placed.id := by
  obtain ⟨inHistory, ofOrder⟩ := List.mem_filter.1 isPlaced
  rcases chronicled.complete.somewhere .orderItems placed.id (List.mem_map_of_mem inHistory)
    with ⟨row, inHot, isId⟩ | stored
  · obtain ⟨order, isOrder, isParent⟩ := chronicled.complete.parents row inHot
    obtain ⟨placed', isPlaced', sameId, sameOrder⟩ := chronicled.complete.hot .orderItems row inHot
    rw [chronicled.complete.item_eq isPlaced' inHistory (sameId.trans isId)] at sameOrder
    exact absurd (isParent.trans (sameOrder.symm.trans (of_decide_eq_true ofOrder)))
      (gone order isOrder)
  · exact stored

/-- An order of the current year has all its items in hot. -/
theorem current_items (chronicled : Chronicled host year c) {order : Order}
    (isOrder : order ∈ c.history.orders) (inYear : yearOf order.createdAt = year)
    {placed : OrderItem} (isPlaced : placed ∈ placedItems c.history order.id) :
    ∃ row ∈ (c.hot .orderItems).rows, OrderItem.id row = placed.id := by
  obtain ⟨inHistory, ofOrder⟩ := List.mem_filter.1 isPlaced
  rcases chronicled.complete.somewhere .orderItems placed.id (List.mem_map_of_mem inHistory)
    with there | stored
  · exact there
  · -- What is archived belongs to an earlier year.
    obtain ⟨row, found⟩ := Option.isSome_iff_exists.1 stored
    obtain ⟨⟨item, isItem, sameId, sameOrder⟩, other, isOther, isParent, earlier⟩ :=
      chronicled.complete.archive .orderItems row (Table.get_mem found)
    rw [chronicled.complete.item_eq isItem inHistory
      (sameId.trans (RowKey.id.inj (Table.get_key found)))] at sameOrder
    rw [chronicled.complete.order_eq isOther isOrder
      (isParent.trans (sameOrder.symm.trans (of_decide_eq_true ofOrder))), inYear] at earlier
    omega

theorem current_in_hot (chronicled : Chronicled host year c) {placed : Order}
    (isPlaced : placed ∈ c.history.orders) (inYear : yearOf placed.createdAt = year) :
    ∃ order ∈ (c.hot .orders).rows, Order.id order = placed.id := by
  rcases chronicled.complete.somewhere .orders placed.id (List.mem_map_of_mem isPlaced)
    with there | stored
  · exact there
  · obtain ⟨row, found⟩ := Option.isSome_iff_exists.1 stored
    obtain ⟨other, isOther, sameId, earlier⟩ :=
      (chronicled.complete.archive .orders row (Table.get_mem found)).2
    rw [chronicled.complete.order_eq isOther isPlaced
      (sameId.trans (RowKey.id.inj (Table.get_key found))), inYear] at earlier
    omega

end

/-! ## The response -/

/-- What the three statements find at three moments. -/
def readsOf (c c' c'' : Chronicle) : Reads :=
  ⟨⟨c.hot, c.archive⟩, ⟨c'.hot, c'.archive⟩, ⟨c''.hot, c''.archive⟩⟩

/-- An order in its response: it is the order, and has no items but its own. -/
structure Response (history : History) (placed : Order) (order : Order)
    (items : List OrderItem) : Prop where
  sameId : order.id = placed.id
  sameTerms : terms order = terms placed
  items : ∀ item ∈ items, shown item ∈ (placedItems history placed.id).map shown

/-- At every moment an administrator finds every order that was placed, and who may read it finds an
order of the current year.  No item is missing but while the order, of an earlier year, is still in
hot. -/
def Finds (host : Host) (year : ℕ) (start : Chronicle) : Prop :=
  ∀ c c' c'' placed actor getBranch, Reaches host year start c → Reaches host year c c' →
  Reaches host year c' c'' →
    placed ∈ c.history.orders →
    hasReadAccess placed.customerId placed.restaurantId placed.branchId actor = true →
    (actor.role = .systemAdmin ∨ yearOf placed.createdAt = year) →
    ∃ order items, getOrder getBranch (readsOf c c' c'') placed.publicId actor =
      (getBranch placed.branchId).map (fun branch => (order, items, branch)) ∧
      Response c.history placed order items ∧
      (yearOf placed.createdAt = year ∨ findOrder c.hot placed.publicId = none →
        (items.map shown).Perm ((placedItems c.history placed.id).map shown))

section

variable {host : Host} {year : ℕ} {start : Chronicle}

/-- The response once the order is found in `conn`. -/
theorem response_of_found {getBranch : ℕ → Except Err CoreBranch} {placed order : Order}
    {conn : Database} {actor : RequestActor} (same : terms order = terms placed)
    (mayRead : hasReadAccess placed.customerId placed.restaurantId placed.branchId actor = true) :
    (do
      assertReadAccess order.customerId order.restaurantId order.branchId actor
      let branch ← getBranch order.branchId
      pure (order, OrderLists.findItemsByOrderIds conn [order.id], branch)) =
    (getBranch placed.branchId).map fun branch =>
      (order, OrderLists.findItemsByOrderIds conn [order.id], branch) := by
  simp only [terms, Prod.mk.injEq] at same
  obtain ⟨_, sameRestaurant, sameBranch, sameCustomer, _⟩ := same
  rw [assertReadAccess, sameCustomer, sameRestaurant, sameBranch, if_pos mayRead]
  cases getBranch placed.branchId <;> rfl

theorem chronicled_start (positive : Positive start.hot)
    (complete : Complete start.history year start.toSite) (idle : start.runs = []) :
    Chronicled host year start :=
  ⟨inYear_start positive idle, by simp [idle], complete, by simp [idle]⟩

theorem orders_are_found (utc : host.offset = 0) (positive : Positive start.hot)
    (complete : Complete start.history year start.toSite)
    (faithful : Faithful start.history start.toSite) (idle : start.runs = []) :
    Finds host year start := by
  intro c c' c'' placed actor getBranch reached reached' reached'' isPlaced mayRead sees
  have chronicled :=
    chronicled_of_reach utc (chronicled_start positive complete idle) (reach_of_reaches reached)
  have chronicled'' := chronicled_of_reach utc chronicled
    ((reach_of_reaches reached').trans (reach_of_reaches reached''))
  have recorded := recorded_of_reaches ⟨faithful, by simp [idle]⟩ reached
  have recorded' := recorded_of_reaches recorded reached'
  have recorded'' := recorded_of_reaches recorded' reached''
  have later := (reach_of_reaches reached').trans (reach_of_reaches reached'')
  have sameItems : placedItems c''.history placed.id = placedItems c.history placed.id :=
    items_of_reach (List.mem_map_of_mem isPlaced) later
  have itemIds := chronicled''.complete.itemIds
  cases found : findOrder c.hot placed.publicId with
  | some order =>
    obtain ⟨inHot, sameId, same⟩ := order_of_find recorded isPlaced recorded.faithful.hot found
    refine ⟨order, OrderLists.findItemsByOrderIds c''.hot [order.id], ?_,
      ⟨sameId, same, fun item member => ?_⟩, fun whole => ?_⟩
    · rw [getOrder]
      simp only [readsOf, found]
      exact response_of_found same mayRead
    · rw [← sameItems, ← sameId]
      exact shown_of_recorded recorded''.faithful.hot member
    · have inYear : yearOf placed.createdAt = year := whole.resolve_right (by simp)
      rw [← sameItems, sameId]
      exact perm_shown recorded''.faithful.hot itemIds fun item isItem =>
        current_items chronicled'' (placed_of_reach later placed isPlaced) inYear isItem
  | none =>
    have gone : ∀ order ∈ (c.hot .orders).rows, Order.id order ≠ placed.id := by
      intro order inHot sameId
      obtain ⟨placed', isPlaced', sameId', sameTerms⟩ := recorded.faithful.hot .orders order inHot
      rw [chronicled.complete.order_eq isPlaced' isPlaced (sameId'.trans sameId)] at sameTerms
      have isFound : findOrder c.hot placed.publicId = some order :=
        findOrder_iff.2 ⟨inHot, (congrArg Prod.fst sameTerms).symm⟩
      cases found.symm.trans isFound
    have isAdmin : actor.role = .systemAdmin := by
      refine sees.resolve_right fun inYear => ?_
      obtain ⟨order, inHot, sameId⟩ := current_in_hot chronicled isPlaced inYear
      exact gone order inHot sameId
    -- What hot does not have the archive has, and goes on to have.
    have stored : Stored c.toSite .orders placed.id :=
      (chronicled.complete.somewhere .orders placed.id (List.mem_map_of_mem isPlaced)).resolve_left
        fun there => by
        obtain ⟨order, inHot, sameId⟩ := there
        exact gone order inHot sameId
    have chronicled' := chronicled_of_reach utc chronicled (reach_of_reaches reached')
    have isPlaced' := placed_of_reach (reach_of_reaches reached') placed isPlaced
    obtain ⟨order, foundThere⟩ := find_of_stored chronicled' recorded' isPlaced'
      (stored_of_reach stored (reach_of_reaches reached'))
    obtain ⟨_, sameId, same⟩ :=
      order_of_find recorded' isPlaced' recorded'.faithful.archive foundThere
    refine ⟨order, OrderLists.findItemsByOrderIds c''.archive [order.id], ?_,
      ⟨sameId, same, fun item member => ?_⟩, fun _ => ?_⟩
    · rw [getOrder]
      simp only [readsOf, found, isAdmin, foundThere, if_true, Option.map_some]
      exact response_of_found same mayRead
    · rw [← sameItems, ← sameId]
      exact shown_of_recorded recorded''.faithful.archive member
    · rw [← sameItems, sameId]
      refine perm_shown recorded''.faithful.archive itemIds fun item isItem => ?_
      rw [sameItems] at isItem
      obtain ⟨row, isRow⟩ :=
        Option.isSome_iff_exists.1 (stored_of_reach (archived_items chronicled gone isItem) later)
      exact ⟨row, Table.get_mem isRow, RowKey.id.inj (Table.get_key isRow)⟩

end

/-- The order of 2025 is found on New Year's Day, and while it is moved. -/
theorem order_of_2025_is_found : Finds ArchivalLoss.host 2026 recordedNewYearsDay := by
  refine orders_are_found rfl ArchivalReruns.positive_newYearsDay
    complete_recordedNewYearsDay ⟨by decide, fun t row member => ?_, ?_⟩ rfl
  · cases t with
    | orders =>
      have single : row = ArchivalLoss.oldOrder := List.mem_singleton.1 member
      exact ⟨ArchivalLoss.oldOrder, List.mem_singleton_self _, by rw [single], by rw [single]⟩
    | orderItems =>
      have single : row = ArchivalReruns.oldItem := List.mem_singleton.1 member
      exact ⟨ArchivalReruns.oldItem, List.mem_singleton_self _, by rw [single], by rw [single]⟩
    | _ => trivial
  · exact fun t row member => absurd member List.not_mem_nil

end SwiftBite.Verified.ArchivedDetail
