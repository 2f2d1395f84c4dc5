import SwiftBite.Verified.ArchivalRows

/-! # How far an execution is

What an execution that nothing has cut short has done, at each of its places: the rows that
its insert passes have gone past are in the archive, and the tables that its delete passes have
gone through hold no eligible row.  This holds as long as nobody adds eligible rows behind it,
and whatever other executions do.
-/

set_option autoImplicit false

namespace SwiftBite.Verified.ArchivalPasses

open Store Archival ArchivalRows

/-! ## Places -/

/-- The insert passes do not look at this id of the table again. -/
def PassedBy (pass : Pass) (t : TableName) (id : ℕ) : Prop :=
  match pass.kind with
  | .insert => t ∉ pass.table :: pass.later ∨ t = pass.table ∧ id ≤ pass.cursor
  | .delete => True

def PassedAfter (pass : Pass) (t : TableName) : Prop :=
  match pass.kind with
  | .insert => t ∉ pass.later
  | .delete => True

def EmptiedBy (pass : Pass) (t : TableName) : Prop :=
  pass.kind = .delete ∧ t ∉ pass.table :: pass.later

def EmptiedAfter (pass : Pass) (t : TableName) : Prop := pass.kind = .delete ∧ t ∉ pass.later

/-- What the insert passes do not look at again. -/
def Passed : Place → TableName → ℕ → Prop
  | .acquiring, _, _ | .acquired, _, _ => False
  | .tables .insert left, t, _ => t ∉ left
  | .loop pass, t, id | .fetch pass, t, id => PassedBy pass t id
  | .insert pass rows, t, id =>
    if rows.length < BATCH_SIZE then PassedAfter pass t else PassedBy (pass.inserted rows) t id
  | .renew pass isLast, t, id | .renewing pass isLast, t, id | .renewed pass isLast, t, id =>
    if isLast then PassedAfter pass t else PassedBy pass t id
  | .tables .delete _, _, _ | .delete .., _, _ | .releasing, _, _ | .ended, _, _ => True

/-- The rows that are selected and not yet inserted. -/
def Pending : Place → TableName → ℕ → Prop
  | .insert pass rows, t, id => t = pass.table ∧ id ∈ rows.map rowId
  | _, _, _ => False

/-- The tables that the delete passes do not look at again. -/
def Emptied : Place → TableName → Prop
  | .tables .delete left, t => t ∉ left
  | .loop pass, t | .fetch pass, t => EmptiedBy pass t
  | .delete pass ids, t => if ids.length < BATCH_SIZE then EmptiedAfter pass t else EmptiedBy pass t
  | .renew pass isLast, t | .renewing pass isLast, t | .renewed pass isLast, t =>
    if isLast then EmptiedAfter pass t else EmptiedBy pass t
  | .releasing, _ | .ended, _ => True
  | .acquiring, _ | .acquired, _ | .tables .insert _, _ | .insert .., _ => False

/-- The rows that are selected and not yet deleted. -/
def Doomed : Place → TableName → ℕ → Prop
  | .delete pass ids, t, id => t = pass.table ∧ id ∈ ids
  | _, _, _ => False

/-- The pass that an execution is in. -/
def passOf : Place → Option Pass
  | .loop pass | .fetch pass | .insert pass _ | .delete pass _ | .renew pass _ | .renewing pass _
  | .renewed pass _ => some pass
  | .acquiring | .acquired | .tables .. | .releasing | .ended => none

def loopOrder : Kind → List TableName
  | .insert => PASS1_INSERT_ORDER
  | .delete => PASS2_DELETE_ORDER

/-- The tables of a pass and behind it are the end of their loop. -/
def InOrder (pass : Pass) : Prop := pass.table :: pass.later <:+ loopOrder pass.kind

/-- Orders are deleted after everything else. -/
theorem last_of_orders {pass : Pass} (inOrder : InOrder pass) (isDelete : pass.kind = .delete)
    (ofOrders : pass.table = .orders) : pass.later = [] := by
  rw [InOrder, isDelete, ofOrders] at inOrder
  simpa [loopOrder, PASS2_DELETE_ORDER, List.suffix_cons_iff] using inOrder

/-- The pass is of the kind of the place, and in its order. -/
def Fits : Place → Prop
  | .tables kind left => left <:+ loopOrder kind
  | .loop pass | .fetch pass | .renew pass _ | .renewing pass _ | .renewed pass _ => InOrder pass
  | .insert pass _ => pass.kind = .insert ∧ InOrder pass
  | .delete pass _ => pass.kind = .delete ∧ InOrder pass
  | .acquiring | .acquired | .releasing | .ended => True

/-- The start of the year in which an execution began. -/
def cutoffOf (run : Run) : ℕ := cutoffIso (run.began * 1000)

/-! ## What has been done -/

/-- The archive has a row of the table under the id. -/
def Stored (site : Site) (t : TableName) (id : ℕ) : Prop :=
  ((site.archive t).get (RowKey.id id)).isSome = true

def Eligible (db : Database) (cutoff : ℕ) (t : TableName) (id : ℕ) : Prop :=
  ∃ row ∈ (db t).rows, eligible db cutoff t row = true ∧ rowId row = id

section

variable (watched : TableName → Prop) (host : Host)

/-- An execution that nothing has cut short. -/
structure Sound (site : Site) (run : Run) : Prop where
  whole : run.whole = true
  fits : Fits run.place
  cutoff : ∀ pass, passOf run.place = some pass → pass.cutoff = cutoffOf run
  copied : ∀ t id, watched t → Passed run.place t id → Eligible site.hot (cutoffOf run) t id →
    Stored site t id ∨ Pending run.place t id
  emptied : ∀ t id, watched t → Emptied run.place t → Eligible site.hot (cutoffOf run) t id →
    Doomed run.place t id
  doomed : ∀ t id, watched t → Doomed run.place t id → Stored site t id

/-- An execution that the budget, an error or a crash has cut short. -/
structure Cut (site : Site) (run : Run) : Prop where
  whole : run.whole = false
  place : run.place = .releasing ∨ run.place = .ended ∨
    (∃ kind left, run.place = .tables kind left) ∧ run.exceeded host site = true

/-- What others do: the archive keeps its rows, and no row becomes eligible where the insert
passes of the execution have been. -/
structure Aside (run : Run) (site site' : Site) : Prop where
  later : site.now ≤ site'.now
  stored : ∀ t id, Stored site t id → Stored site' t id
  fewer : ∀ t id, watched t → Passed run.place t id → Eligible site'.hot (cutoffOf run) t id →
    Eligible site.hot (cutoffOf run) t id

variable {watched host} {site site' : Site} {run : Run}

theorem passed_of_emptied {place : Place} {t : TableName} (id : ℕ)
    (isEmptied : Emptied place t) : Passed place t id := by
  cases place with
  | acquiring => exact isEmptied
  | acquired => exact isEmptied
  | tables kind left => cases kind with
    | insert => exact isEmptied.elim
    | delete => trivial
  | loop pass => simp only [Passed, PassedBy, isEmptied.1]
  | fetch pass => simp only [Passed, PassedBy, isEmptied.1]
  | insert pass rows => exact isEmptied.elim
  | delete pass ids => trivial
  | renew pass isLast => cases isLast <;> simp [Passed, PassedBy, PassedAfter, isEmptied.1]
  | renewing pass isLast => cases isLast <;> simp [Passed, PassedBy, PassedAfter, isEmptied.1]
  | renewed pass isLast => cases isLast <;> simp [Passed, PassedBy, PassedAfter, isEmptied.1]
  | releasing => trivial
  | ended => trivial

/-- What an execution has done stays done. -/
theorem Sound.aside (sound : Sound watched site run) (aside : Aside watched run site site') :
    Sound watched site' run where
  whole := sound.whole
  fits := sound.fits
  cutoff := sound.cutoff
  copied t id isWatched isPassed isEligible :=
    (sound.copied t id isWatched isPassed (aside.fewer t id isWatched isPassed isEligible)).imp
      (aside.stored t id) fun pends => pends
  emptied t id isWatched isEmptied isEligible :=
    sound.emptied t id isWatched isEmptied
      (aside.fewer t id isWatched (passed_of_emptied id isEmptied) isEligible)
  doomed t id isWatched isDoomed := aside.stored t id (sound.doomed t id isWatched isDoomed)

theorem exceeded_later (later : site.now ≤ site'.now) (exceeded : run.exceeded host site = true) :
    run.exceeded host site' = true :=
  decide_eq_true ((of_decide_eq_true exceeded).trans (Nat.div_le_div_right later))

theorem Cut.later (cut : Cut host site run) (later : site.now ≤ site'.now) : Cut host site' run :=
  ⟨cut.whole, cut.place.imp id (Or.imp id (And.imp id (exceeded_later later)))⟩

end

/-! ## What an execution can do -/

/-- The transitions of an execution, one by one. -/
inductive Step (host : Host) (run : Run) (site : Site) : Site → Run → Prop where
  | refused (isPlace : run.place = .acquiring) : Step host run site site run.stop
  | lockLost (isPlace : run.place = .acquiring) (free : site.holder = none) :
      Step host run site (site.lockFor host run.token) run.stop
  | locks (isPlace : run.place = .acquiring) (free : site.holder = none) :
      Step host run site (site.lockFor host run.token) (run.goTo .acquired)
  | begins (isPlace : run.place = .acquired) :
      Step host run site site { run with
        began := site.dateNow, lastRenewAt := site.dateNow,
        place := .tables .insert PASS1_INSERT_ORDER }
  | behind {kind : Kind} (isPlace : run.place = .tables kind []) :
      Step host run site site (run.goTo (Run.behind kind))
  | breaks {kind : Kind} {table : TableName} {later : List TableName}
      (isPlace : run.place = .tables kind (table :: later))
      (exceeded : run.exceeded host site = true) :
      Step host run site site { run with place := Run.behind kind, whole := false }
  | enters {kind : Kind} {table : TableName} {later : List TableName}
      (isPlace : run.place = .tables kind (table :: later))
      (inTime : run.exceeded host site = false) :
      Step host run site site (run.goTo (.loop ⟨kind, table, later, cutoffIso site.now, 0, 0⟩))
  | breaksOff {pass : Pass} (isPlace : run.place = .loop pass)
      (exceeded : run.exceeded host site = true) :
      Step host run site site { run.leave pass with whole := false }
  | goesOn {pass : Pass} (isPlace : run.place = .loop pass)
      (inTime : run.exceeded host site = false) : Step host run site site (run.goTo (.fetch pass))
  | fetchFails {pass : Pass} (isPlace : run.place = .fetch pass) :
      Step host run site site run.throw
  | noneToInsert {pass : Pass} (isPlace : run.place = .fetch pass) (isInsert : pass.kind = .insert)
      (none : insertBatch site.hot pass.cutoff pass.table pass.cursor = []) :
      Step host run site site (run.leave pass)
  | fetchesRows {pass : Pass} {row : RowOf pass.table} {rows : List (RowOf pass.table)}
      (isPlace : run.place = .fetch pass) (isInsert : pass.kind = .insert)
      (isBatch : insertBatch site.hot pass.cutoff pass.table pass.cursor = row :: rows) :
      Step host run site site (run.goTo (.insert pass (row :: rows)))
  | noneToDelete {pass : Pass} (isPlace : run.place = .fetch pass) (isDelete : pass.kind = .delete)
      (none : deleteBatch site.hot pass.cutoff pass.table = []) :
      Step host run site site (run.leave pass)
  | fetchesIds {pass : Pass} {id : ℕ} {ids : List ℕ} (isPlace : run.place = .fetch pass)
      (isDelete : pass.kind = .delete)
      (isBatch : deleteBatch site.hot pass.cutoff pass.table = id :: ids) :
      Step host run site site (run.goTo (.delete pass (id :: ids)))
  | insertFails {pass : Pass} {rows : List (RowOf pass.table)}
      (isPlace : run.place = .insert pass rows) : Step host run site site run.throw
  | insertLost {pass : Pass} {rows : List (RowOf pass.table)} {table : Table (RowOf pass.table)}
      (isPlace : run.place = .insert pass rows)
      (inserted : Inserted (rows.map (carried host.offset pass.table))
        (site.archive pass.table) table) :
      Step host run site (site.insertInto pass.table table) run.throw
  | inserts {pass : Pass} {rows : List (RowOf pass.table)} {table : Table (RowOf pass.table)}
      (isPlace : run.place = .insert pass rows)
      (inserted : Inserted (rows.map (carried host.offset pass.table))
        (site.archive pass.table) table) :
      Step host run site (site.insertInto pass.table table)
        (run.goTo (.renew (pass.inserted rows) (decide (rows.length < BATCH_SIZE))))
  | deleteFails {pass : Pass} {ids : List ℕ} (isPlace : run.place = .delete pass ids) :
      Step host run site site run.throw
  | deleteLost {pass : Pass} {ids : List ℕ} (isPlace : run.place = .delete pass ids) :
      Step host run site (site.deleteFrom pass.table ids) run.throw
  | deletes {pass : Pass} {ids : List ℕ} (isPlace : run.place = .delete pass ids) :
      Step host run site (site.deleteFrom pass.table ids)
        (run.goTo (.renew (pass.deleted ids) (decide (ids.length < BATCH_SIZE))))
  | renewsLater {pass : Pass} {isLast : Bool} (isPlace : run.place = .renew pass isLast) :
      Step host run site site (run.resume pass isLast)
  | renewsNow {pass : Pass} {isLast : Bool} (isPlace : run.place = .renew pass isLast) :
      Step host run site site (run.goTo (.renewing pass isLast))
  | renewFails {pass : Pass} {isLast : Bool} (isPlace : run.place = .renewing pass isLast) :
      Step host run site site run.throw
  | renewLost {pass : Pass} {isLast : Bool} (isPlace : run.place = .renewing pass isLast) :
      Step host run site (site.renewLock host run.token) run.throw
  | renews {pass : Pass} {isLast : Bool} (isPlace : run.place = .renewing pass isLast) :
      Step host run site (site.renewLock host run.token) (run.goTo (.renewed pass isLast))
  | renewed {pass : Pass} {isLast : Bool} (isPlace : run.place = .renewed pass isLast) :
      Step host run site site ({ run with lastRenewAt := site.dateNow }.resume pass isLast)
  | releaseFails (isPlace : run.place = .releasing) : Step host run site site run.stop
  | releaseLost (isPlace : run.place = .releasing) :
      Step host run site (site.releaseLock run.token) run.stop
  | releases (isPlace : run.place = .releasing) :
      Step host run site (site.releaseLock run.token) (run.goTo .ended)

theorem step_of_next {host : Host} {site site' : Site} {run run' : Run} {outcome : Outcome}
    (steps : run.next host site outcome = some (site', run')) : Step host run site site' run' := by
  unfold Run.next at steps
  cases isPlace : run.place with
  | acquiring =>
    rw [isPlace] at steps
    dsimp only at steps
    split at steps
    next => cases steps; exact .refused isPlace
    next => cases steps; exact .refused isPlace
    next free => cases steps; exact .lockLost isPlace free
    next free => cases steps; exact .locks isPlace free
  | acquired =>
    rw [isPlace] at steps
    cases steps
    exact .begins isPlace
  | tables kind left =>
    rw [isPlace] at steps
    cases left with
    | nil => cases steps; exact .behind isPlace
    | cons table later =>
      dsimp only at steps
      split at steps
      next exceeded => cases steps; exact .breaks isPlace exceeded
      next inTime => cases steps; exact .enters isPlace (eq_false_of_ne_true inTime)
  | loop pass =>
    rw [isPlace] at steps
    dsimp only at steps
    split at steps
    next exceeded => cases steps; exact .breaksOff isPlace exceeded
    next inTime => cases steps; exact .goesOn isPlace (eq_false_of_ne_true inTime)
  | fetch pass =>
    rw [isPlace] at steps
    simp only [Option.some.injEq, Prod.mk.injEq] at steps
    obtain ⟨rfl, rfl⟩ := steps
    unfold Run.fetchStep
    split
    next => exact .fetchFails isPlace
    next =>
      cases kind : pass.kind with
      | insert =>
        dsimp only
        split
        next none => exact .noneToInsert isPlace kind none
        next isBatch => exact .fetchesRows isPlace kind isBatch
      | delete =>
        dsimp only
        split
        next none => exact .noneToDelete isPlace kind none
        next isBatch => exact .fetchesIds isPlace kind isBatch
  | insert pass rows =>
    rw [isPlace] at steps
    simp only [Run.insertStep, Option.some.injEq] at steps
    split at steps
    next => cases steps; exact .insertFails isPlace
    next => cases steps; exact .insertFails isPlace
    next inserts => cases steps; exact .insertLost isPlace (inserted_of_insertRows inserts)
    next inserts => cases steps; exact .inserts isPlace (inserted_of_insertRows inserts)
  | delete pass ids =>
    rw [isPlace] at steps
    cases outcome <;> cases steps
    · exact .deletes isPlace
    · exact .deleteFails isPlace
    · exact .deleteLost isPlace
  | renew pass isLast =>
    rw [isPlace] at steps
    dsimp only at steps
    split at steps <;> cases steps
    · exact .renewsLater isPlace
    · exact .renewsNow isPlace
  | renewing pass isLast =>
    rw [isPlace] at steps
    cases outcome <;> cases steps
    · exact .renews isPlace
    · exact .renewFails isPlace
    · exact .renewLost isPlace
  | renewed pass isLast =>
    rw [isPlace] at steps
    cases steps
    exact .renewed isPlace
  | releasing =>
    rw [isPlace] at steps
    cases outcome <;> cases steps
    · exact .releases isPlace
    · exact .releaseFails isPlace
    · exact .releaseLost isPlace
  | ended =>
    rw [isPlace] at steps
    cases steps

/-! ## What a step does to the databases -/

/-- What a step of an execution does to them. -/
inductive Effect (host : Host) (run : Run) (site site' : Site) : Prop where
  | quiet (hot : site'.hot = site.hot) (archive : site'.archive = site.archive)
      (now : site'.now = site.now)
  | inserts (pass : Pass) (rows : List (RowOf pass.table)) (table : Table (RowOf pass.table))
      (isPlace : run.place = .insert pass rows)
      (inserted : Inserted (rows.map (carried host.offset pass.table))
      (site.archive pass.table) table)
      (isSite : site' = site.insertInto pass.table table)
  | deletes (pass : Pass) (ids : List ℕ) (isPlace : run.place = .delete pass ids)
      (isSite : site' = site.deleteFrom pass.table ids)

section

variable {watched : TableName → Prop} {host : Host} {site site' : Site} {run run' : Run}
  {outcome : Outcome}

theorem effect_next (steps : run.next host site outcome = some (site', run')) :
    Effect host run site site' := by
  cases step_of_next steps with
  | insertLost isPlace inserted | inserts isPlace inserted =>
    exact .inserts _ _ _ isPlace inserted rfl
  | deleteLost isPlace | deletes isPlace => exact .deletes _ _ isPlace rfl
  | renewLost | renews | releaseLost | releases => exact .quiet (by simp) (by simp) (by simp)
  | _ => exact .quiet rfl rfl rfl

/-- A batch comes from a fetch. -/
theorem batch_of_next (steps : run.next host site outcome = some (site', run')) :
    (∃ pass, run.place = .fetch pass ∧ site' = site ∧
      (pass.kind = .insert ∧
        run'.place = .insert pass (insertBatch site.hot pass.cutoff pass.table pass.cursor) ∨
      pass.kind = .delete ∧
        run'.place = .delete pass (deleteBatch site.hot pass.cutoff pass.table))) ∨
      (∀ pass rows, run'.place ≠ .insert pass rows) ∧
        ∀ pass ids, run'.place ≠ .delete pass ids := by
  cases step_of_next steps with
  | fetchesRows isPlace isInsert isBatch =>
    exact .inl ⟨_, isPlace, rfl, .inl ⟨isInsert, by rw [isBatch, Run.place_goTo]⟩⟩
  | fetchesIds isPlace isDelete isBatch =>
    exact .inl ⟨_, isPlace, rfl, .inr ⟨isDelete, by rw [isBatch, Run.place_goTo]⟩⟩
  | @behind kind | @breaks kind => cases kind <;> simp [Run.behind]
  | @renewsLater _ isLast | @renewed _ isLast => cases isLast <;> simp
  | _ => simp

/-- Rows leave the hot database, and stay in the archive. -/
structure Shrinks (site site' : Site) : Prop where
  now : site'.now = site.now
  hot : ∀ t, ∀ row ∈ (site'.hot t).rows, row ∈ (site.hot t).rows
  stored : ∀ t id, Stored site t id → Stored site' t id

theorem stored_of_mem {t : TableName} (moved : Moved t) {row : RowOf t}
    (member : row ∈ (site.archive t).rows) : Stored site t (rowId row) := by
  rw [Stored, ← key_eq moved, Table.get_of_mem member]
  rfl

theorem mem_of_deleteFrom {t table : TableName} {ids : List ℕ} {row : RowOf t}
    (member : row ∈ ((site.deleteFrom table ids).hot t).rows) : row ∈ (site.hot t).rows := by
  by_cases same : t = table
  · subst same
    simp only [Site.deleteFrom, Function.update_self] at member
    exact (Table.mem_delete.1 member).1
  · simpa [Site.deleteFrom, same] using member

theorem Effect.shrinks (effect : Effect host run site site') : Shrinks site site' := by
  cases effect with
  | quiet hot archive now =>
    exact ⟨now, fun t => by rw [hot]; exact fun _ => id, fun t id => by
      rw [Stored, Stored, archive]; exact fun stored => stored⟩
  | inserts pass rows table _ inserted isSite =>
    subst isSite
    refine ⟨rfl, fun _ _ member => member, fun t id stored => ?_⟩
    by_cases same : t = pass.table
    · subst same
      obtain ⟨row, found⟩ := Option.isSome_iff_exists.1 stored
      have stays : table.get (RowKey.id id) = some row :=
        Table.get_eq_some.2 ⟨inserted.kept row (Table.get_mem found), Table.get_key found⟩
      simp [Stored, Site.insertInto, stays]
    · simpa [Stored, Site.insertInto, same] using stored
  | deletes pass ids _ isSite =>
    subst isSite
    exact ⟨rfl, fun _ _ => mem_of_deleteFrom, fun _ _ stored => stored⟩

theorem Shrinks.eligible (shrinks : Shrinks site site') {cutoff : ℕ} {t : TableName} {id : ℕ}
    (isEligible : Eligible site'.hot cutoff t id) : Eligible site.hot cutoff t id := by
  obtain ⟨row, member, passes, isId⟩ := isEligible
  exact ⟨row, shrinks.hot t row member, eligible_mono (shrinks.hot .orders) passes, isId⟩

theorem Shrinks.aside (shrinks : Shrinks site site') (run : Run) : Aside watched run site site' :=
  ⟨shrinks.now.ge, shrinks.stored, fun _ _ _ _ => shrinks.eligible⟩

end

/-! ## One step -/

section

variable {watched : TableName → Prop} {host : Host} {site site' : Site} {run run' : Run}
  {outcome : Outcome} {pass : Pass}

theorem cut_throw (host : Host) (site : Site) (run : Run) : Cut host site run.throw :=
  ⟨rfl, .inl rfl⟩

theorem cut_stop (host : Host) (site : Site) (run : Run) : Cut host site run.stop :=
  ⟨rfl, .inr (.inl rfl)⟩

theorem not_eligible_of_unmoved {db : Database} {cutoff : ℕ} {t : TableName} {id : ℕ}
    (unmoved : ¬ Moved t) : ¬ Eligible db cutoff t id := by
  rintro ⟨row, _, isEligible, _⟩
  exact unmoved (moved_of_eligible isEligible)

/-- An execution goes on with what it has done. -/
theorem Sound.goTo {place : Place} (sound : Sound watched site run) (fits : Fits place)
    (cutoff : ∀ pass, passOf place = some pass → pass.cutoff = cutoffOf run)
    (copied : ∀ t id, watched t → Passed place t id → Eligible site.hot (cutoffOf run) t id →
      Stored site t id ∨ Pending place t id)
    (emptied : ∀ t id, watched t → Emptied place t → Eligible site.hot (cutoffOf run) t id →
      Doomed place t id) (doomed : ∀ t id, watched t → Doomed place t id → Stored site t id) :
    Sound watched site (run.goTo place) :=
  ⟨sound.whole, fits, cutoff, copied, emptied, doomed⟩

/-- A pass is over. -/
theorem Sound.leave (sound : Sound watched site run) (inOrder : InOrder pass)
    (copied : ∀ t id, watched t → PassedAfter pass t → Eligible site.hot (cutoffOf run) t id →
      Stored site t id)
    (emptied : ∀ t id, watched t → EmptiedAfter pass t → ¬ Eligible site.hot (cutoffOf run) t id) :
    Sound watched site (run.leave pass) := by
  obtain ⟨kind, table, later, cutoff, cursor, moved⟩ := pass
  cases kind with
  | insert =>
    refine ⟨sound.whole, (List.suffix_cons _ _).trans inOrder, fun pass none => (nomatch none), ?_,
      fun t id _ none => False.elim none,
      fun t id _ none => False.elim none⟩
    exact fun t id isWatched isPassed isEligible => .inl (copied t id isWatched isPassed isEligible)
  | delete =>
    refine ⟨sound.whole, (List.suffix_cons _ _).trans inOrder, fun pass none => (nomatch none), ?_,
      ?_, fun t id _ none => False.elim none⟩
    · exact fun t id isWatched _ isEligible => .inl (copied t id isWatched trivial isEligible)
    · exact fun t id isWatched isEmptied isEligible =>
        (emptied t id isWatched ⟨rfl, isEmptied⟩ isEligible).elim

theorem cut_leave (exceeded : run.exceeded host site = true) :
    Cut host site { run.leave pass with whole := false } := by
  refine ⟨rfl, .inr (.inr ⟨⟨pass.kind, pass.later, ?_⟩, ?_⟩)⟩
  · obtain ⟨kind, table, later, cutoff, cursor, moved⟩ := pass
    cases kind <;> rfl
  · obtain ⟨kind, table, later, cutoff, cursor, moved⟩ := pass
    cases kind <;> exact exceeded

theorem cut_behind (kind : Kind) (exceeded : run.exceeded host site = true) :
    Cut host site { run with place := Run.behind kind, whole := false } := by
  cases kind with
  | insert => exact ⟨rfl, .inr (.inr ⟨⟨.delete, PASS2_DELETE_ORDER, rfl⟩, exceeded⟩)⟩
  | delete => exact ⟨rfl, .inl rfl⟩

variable (positive : ∀ t id cutoff, Eligible site.hot cutoff t id → 0 < id)

theorem sound_behind {kind : Kind} (sound : Sound watched site run)
    (isPlace : run.place = .tables kind []) : Sound watched site (run.goTo (Run.behind kind)) := by
  have copied := sound.copied
  have emptied := sound.emptied
  rw [isPlace] at copied emptied
  cases kind with
  | insert =>
    refine sound.goTo (List.suffix_refl _) (fun pass none => (nomatch none))
      (fun t id isWatched _ isEligible => ?_)
      (fun t id _ notDeleted isEligible => ?_)
      fun t id _ none => False.elim none
    · exact copied t id isWatched List.not_mem_nil isEligible
    · exact absurd isEligible
        (not_eligible_of_unmoved fun moved => notDeleted (moved_iff_deleted.2 moved))
  | delete =>
    refine sound.goTo trivial (fun pass none => (nomatch none))
      (fun t id isWatched _ isEligible => ?_) (fun t id isWatched _ isEligible => ?_)
      fun t id _ none => False.elim none
    · exact copied t id isWatched trivial isEligible
    · exact emptied t id isWatched List.not_mem_nil isEligible

include positive in
/-- A pass begins. -/
theorem sound_begin {kind : Kind} {table : TableName} {later : List TableName}
    (sound : Sound watched site run) (isPlace : run.place = .tables kind (table :: later))
    (sameYear : cutoffIso site.now = cutoffOf run) :
    Sound watched site (run.goTo (.loop ⟨kind, table, later, cutoffIso site.now, 0, 0⟩)) := by
  have copied := sound.copied
  have emptied := sound.emptied
  have fits := sound.fits
  rw [isPlace] at copied emptied fits
  refine sound.goTo fits (fun pass isPass => ?_) (fun t id isWatched isPassed isEligible => ?_)
    (fun t id isWatched isEmptied isEligible => ?_)
    fun t id _ none => False.elim none
  · cases isPass
    exact sameYear
  · cases kind with
    | insert =>
      rcases isPassed with before | ⟨_, none⟩
      · exact copied t id isWatched before isEligible
      · have := positive t id _ isEligible
        simp only at none
        omega
    | delete => exact copied t id isWatched trivial isEligible
  · obtain ⟨isDelete, before⟩ := isEmptied
    cases isDelete
    exact emptied t id isWatched before isEligible

theorem sound_fetch_insert (sound : Sound watched site run) (isPlace : run.place = .fetch pass)
    (isInsert : pass.kind = .insert) :
    match insertBatch site.hot pass.cutoff pass.table pass.cursor with
    | [] => Sound watched site (run.leave pass)
    | row :: rows => Sound watched site (run.goTo (.insert pass (row :: rows))) := by
  have copied := sound.copied
  have fits := sound.fits
  have cutoff := sound.cutoff pass (by rw [isPlace]; rfl)
  rw [isPlace] at copied fits
  have before : ∀ t id, watched t → PassedBy pass t id → Eligible site.hot (cutoffOf run) t id →
      Stored site t id :=
    fun t id isWatched isPassed isEligible =>
      (copied t id isWatched isPassed isEligible).resolve_right fun none => none
  split
  next none =>
    -- Nothing eligible was left behind the cursor: the table is done.
    refine sound.leave fits (fun t id isWatched isPassed isEligible => ?_) fun t id _ ended => ?_
    · rw [PassedAfter, isInsert] at isPassed
      refine before t id isWatched ?_ isEligible
      rw [PassedBy, isInsert]
      by_cases same : t = pass.table
      · subst same
        obtain ⟨row, member, passes, rfl⟩ := isEligible
        exact .inr ⟨rfl, none_eligible_of_insertBatch none member (cutoff ▸ passes)⟩
      · exact .inl (by simp [same, isPassed])
    · rw [EmptiedAfter, isInsert] at ended
      exact absurd ended.1 (by decide)
  next row rows isBatch =>
    -- A batch holds the eligible rows from the cursor to its last one, a short batch all of them.
    have inBatch : ∀ id, Eligible site.hot (cutoffOf run) pass.table id → pass.cursor < id →
        (∀ l, (row :: rows).getLast? = some l → id ≤ rowId l) ∨ (row :: rows).length < BATCH_SIZE →
        id ∈ (row :: rows).map rowId := by
      rintro id ⟨row', member, passes, rfl⟩ after upTo
      have moved := moved_of_eligible passes
      rw [← cutoff] at passes
      rw [← isBatch] at upTo ⊢
      refine List.mem_map_of_mem ?_
      rcases upTo with upTo | short
      · have isLast := List.getLast?_eq_some_getLast
          (l := insertBatch site.hot pass.cutoff pass.table pass.cursor)
          (by rw [isBatch]; exact List.cons_ne_nil _ _)
        exact insertBatch_covers moved member passes after isLast (upTo _ isLast)
      · exact insertBatch_covers_all member passes after short
    -- Up to there a row has its copy already, or the batch brings it.
    have cursorOr : ∀ id, Eligible site.hot (cutoffOf run) pass.table id → watched pass.table →
        (∀ l, (row :: rows).getLast? = some l → id ≤ rowId l) ∨ (row :: rows).length < BATCH_SIZE →
        Stored site pass.table id ∨ Pending (.insert pass (row :: rows)) pass.table id := by
      intro id isEligible isWatched upTo
      by_cases after : pass.cursor < id
      · exact .inr ⟨rfl, inBatch id isEligible after upTo⟩
      · refine .inl (before pass.table id isWatched ?_ isEligible)
        rw [PassedBy, isInsert]
        exact .inr ⟨rfl, Nat.le_of_not_lt after⟩
    refine sound.goTo ⟨isInsert, fits⟩ (fun pass' isPass => ?_)
      (fun t id isWatched isPassed isEligible => ?_) (fun t id _ none => False.elim none)
      fun t id _ none => False.elim none
    · cases isPass
      exact cutoff
    · by_cases same : t = pass.table
      · subst same
        refine cursorOr id isEligible isWatched ?_
        simp only [Passed] at isPassed
        split at isPassed
        next short => exact .inr short
        next =>
          rw [PassedBy, show (pass.inserted (row :: rows)).kind = .insert from isInsert] at isPassed
          rcases isPassed with away | ⟨_, upTo⟩
          · exact absurd List.mem_cons_self away
          · refine .inl fun l isLast => ?_
            simpa [Pass.inserted, isLast] using upTo
      · refine .inl (before t id isWatched ?_ isEligible)
        rw [PassedBy, isInsert]
        refine .inl ?_
        simp only [Passed] at isPassed
        split at isPassed
        next =>
          rw [PassedAfter, isInsert] at isPassed
          simp [same, isPassed]
        next =>
          rw [PassedBy, show (pass.inserted (row :: rows)).kind = .insert from isInsert] at isPassed
          exact isPassed.resolve_right fun here => same here.1

theorem sound_fetch_delete (sound : Sound watched site run) (isPlace : run.place = .fetch pass)
    (isDelete : pass.kind = .delete) :
    match deleteBatch site.hot pass.cutoff pass.table with
    | [] => Sound watched site (run.leave pass)
    | id :: ids => Sound watched site (run.goTo (.delete pass (id :: ids))) := by
  have copied := sound.copied
  have emptied := sound.emptied
  have fits := sound.fits
  have cutoff := sound.cutoff pass (by rw [isPlace]; rfl)
  rw [isPlace] at copied emptied fits
  -- The insert passes are through, so every eligible row has its copy.
  have stored : ∀ t id, watched t → Eligible site.hot (cutoffOf run) t id → Stored site t id :=
    fun t id isWatched isEligible =>
    (copied t id isWatched (by simp only [Passed, PassedBy, isDelete]) isEligible).resolve_right
      fun none => none
  -- The tables before this one hold no eligible row any more.
  have before : ∀ t id, watched t → t ∉ pass.table :: pass.later →
      ¬ Eligible site.hot (cutoffOf run) t id :=
    fun t id isWatched ahead isEligible => emptied t id isWatched ⟨isDelete, ahead⟩ isEligible
  split
  next none =>
    refine sound.leave fits (fun t id isWatched _ => stored t id isWatched)
      fun t id isWatched isEmptied isEligible => ?_
    by_cases same : t = pass.table
    · subst same
      obtain ⟨row, member, passes, _⟩ := isEligible
      rw [← cutoff, none_eligible_of_deleteBatch none member] at passes
      cases passes
    · exact before t id isWatched (by simp [same, isEmptied.2]) isEligible
  next id ids isBatch =>
    refine sound.goTo ⟨isDelete, fits⟩ (fun pass' isPass => ?_)
      (fun t id isWatched _ isEligible => .inl (stored t id isWatched isEligible))
      (fun t id' isWatched isEmptied isEligible => ?_) fun t id' isWatched isDoomed => ?_
    · cases isPass
      exact cutoff
    · simp only [Emptied] at isEmptied
      split at isEmptied
      -- A short batch holds all that is left of the table.
      next short =>
        by_cases same : t = pass.table
        · subst same
          obtain ⟨row, member, passes, rfl⟩ := isEligible
          rw [← cutoff] at passes
          rw [← isBatch] at short
          exact ⟨rfl, isBatch ▸ deleteBatch_covers_all member passes short⟩
        · exact (before t id' isWatched (by simp [same, isEmptied.2]) isEligible).elim
      next => exact (before t id' isWatched isEmptied.2 isEligible).elim
    · obtain ⟨rfl, among⟩ := isDoomed
      rw [← isBatch] at among
      obtain ⟨row, member, passes, isId⟩ := mem_deleteBatch among
      exact stored pass.table id' isWatched ⟨row, member, cutoff ▸ passes, isId⟩

/-- Behind `maybeRenew`. -/
theorem sound_resume {isLast : Bool} (sound : Sound watched site run)
    (isPlace : run.place = .renew pass isLast ∨ run.place = .renewed pass isLast) :
    Sound watched site (run.resume pass isLast) := by
  obtain ⟨fits, cutoff, copied, emptied⟩ : InOrder pass ∧ pass.cutoff = cutoffOf run ∧
      (∀ t id, watched t → (if isLast then PassedAfter pass t else PassedBy pass t id) →
        Eligible site.hot (cutoffOf run) t id → Stored site t id) ∧
      ∀ t id, watched t → (if isLast then EmptiedAfter pass t else EmptiedBy pass t) →
        ¬ Eligible site.hot (cutoffOf run) t id := by
    obtain ⟨_, fits, cutoff, copied, emptied, _⟩ := sound
    rcases isPlace with isPlace | isPlace <;> rw [isPlace] at fits cutoff copied emptied <;>
      exact ⟨fits, cutoff pass rfl, fun t id isWatched isPassed isEligible =>
        (copied t id isWatched isPassed isEligible).resolve_right fun none => none, emptied⟩
  cases isLast with
  | true => exact sound.leave fits copied emptied
  | false =>
    refine sound.goTo fits (fun pass' isPass => ?_)
      (fun t id isWatched isPassed isEligible => .inl (copied t id isWatched isPassed isEligible))
      (fun t id isWatched isEmptied isEligible =>
        (emptied t id isWatched isEmptied isEligible).elim) fun t id _ none => False.elim none
    cases isPass
    exact cutoff

theorem sound_insert {rows : List (RowOf pass.table)} {table : Table (RowOf pass.table)}
    (sound : Sound watched site run) (isPlace : run.place = .insert pass rows)
    (inserted : Inserted (rows.map (carried host.offset pass.table))
      (site.archive pass.table) table) :
    Sound watched (site.insertInto pass.table table)
      (run.goTo (.renew (pass.inserted rows) (decide (rows.length < BATCH_SIZE)))) := by
  have shrinks :=
    (Effect.inserts pass rows table isPlace inserted rfl : Effect host run site _).shrinks
  have fits := sound.fits
  have copied := sound.copied
  have cutoff := sound.cutoff pass (by rw [isPlace]; rfl)
  rw [isPlace] at copied fits
  have isInsert : pass.kind = .insert := fits.1
  have sound' : Sound watched (site.insertInto pass.table table) run :=
    sound.aside (shrinks.aside run)
  refine sound'.goTo fits.2 (fun pass' isPass => ?_)
    (fun t id isWatched isPassed isEligible => .inl ?_)
    (fun t id isWatched isEmptied _ => ?_) fun t id _ none => False.elim none
  · cases isPass
    exact cutoff
  · have isPassed : Passed (.insert pass rows) t id := by
      simpa [Passed, PassedAfter, Pass.inserted] using isPassed
    rcases copied t id isWatched isPassed isEligible with stored | ⟨rfl, among⟩
    · exact shrinks.stored t id stored
    · -- the row is one of the batch
      obtain ⟨row, member, isId⟩ := List.mem_map.1 among
      obtain ⟨_, _, passes, _⟩ := isEligible
      have there := inserted.there _ (List.mem_map_of_mem member)
      rw [key_carried, key_eq (moved_of_eligible passes), isId] at there
      simpa [Stored, Site.insertInto] using there
  · have isDelete : pass.kind = .delete := by
      simp only [Emptied] at isEmptied
      split at isEmptied <;> exact isEmptied.1
    rw [isInsert] at isDelete
    cases isDelete

theorem sound_delete {ids : List ℕ} (sound : Sound watched site run)
    (isPlace : run.place = .delete pass ids) :
    Sound watched (site.deleteFrom pass.table ids)
      (run.goTo (.renew (pass.deleted ids) (decide (ids.length < BATCH_SIZE)))) := by
  have shrinks := (Effect.deletes pass ids isPlace rfl : Effect ⟨0, 0⟩ run site _).shrinks
  have fits := sound.fits
  have copied := sound.copied
  have emptied := sound.emptied
  have cutoff := sound.cutoff pass (by rw [isPlace]; rfl)
  rw [isPlace] at copied emptied fits
  have sound' : Sound watched (site.deleteFrom pass.table ids) run :=
    sound.aside (shrinks.aside run)
  refine sound'.goTo fits.2 (fun pass' isPass => ?_) (fun t id isWatched _ isEligible => .inl ?_)
    (fun t id isWatched isEmptied isEligible => ?_) fun t id _ none => False.elim none
  · cases isPass
    exact cutoff
  · exact shrinks.stored t id
      ((copied t id isWatched trivial (shrinks.eligible isEligible)).resolve_right fun none => none)
  · have isEmptied : Emptied (.delete pass ids) t := by
      simpa [Emptied, EmptiedAfter, EmptiedBy, Pass.deleted] using isEmptied
    obtain ⟨rfl, among⟩ := emptied t id isWatched isEmptied (shrinks.eligible isEligible)
    obtain ⟨row, member, _, rfl⟩ := isEligible
    simp only [Site.deleteFrom, Function.update_self] at member
    have stays := (Table.mem_delete.1 member).2
    simp [among] at stays

include positive in
/-- One step of an execution that nothing has cut short. -/
theorem sound_step (sound : Sound watched site run)
    (sameYear : ∀ kind table later, run.place = .tables kind (table :: later) →
      run.exceeded host site = false → cutoffIso site.now = cutoffOf run)
    (steps : run.next host site outcome = some (site', run')) :
    Sound watched site' run' ∨ Cut host site' run' := by
  cases step_of_next steps with
  -- These end the execution or throw.
  | refused | lockLost | releaseFails | releaseLost => exact .inr (cut_stop host _ run)
  | fetchFails | insertFails | insertLost | deleteFails | deleteLost | renewFails | renewLost =>
    exact .inr (cut_throw host _ run)
  | locks =>
    refine .inl ⟨sound.whole, trivial, fun pass none => (nomatch none), ?_, ?_, ?_⟩ <;>
      exact fun t id _ none => False.elim none
  -- No row has been passed yet.
  | begins =>
    refine .inl ⟨sound.whole, List.suffix_refl _, fun pass none => (nomatch none),
      fun t id _ unmoved isEligible => ?_, fun t id _ none => False.elim none,
      fun t id _ none => False.elim none⟩
    exact absurd isEligible (not_eligible_of_unmoved unmoved)
  | behind isPlace => exact .inl (sound_behind sound isPlace)
  | breaks _ exceeded => exact .inr (cut_behind _ exceeded)
  | enters isPlace inTime =>
    exact .inl (sound_begin positive sound isPlace (sameYear _ _ _ isPlace inTime))
  | breaksOff _ exceeded => exact .inr (cut_leave exceeded)
  | goesOn isPlace =>
    obtain ⟨whole, fits, cutoff, copied, emptied, doomed⟩ := sound
    rw [isPlace] at fits cutoff copied emptied doomed
    exact .inl ⟨whole, fits, cutoff, copied, emptied, doomed⟩
  | noneToInsert isPlace isInsert none =>
    have fetched := sound_fetch_insert sound isPlace isInsert
    rw [none] at fetched
    exact .inl fetched
  | fetchesRows isPlace isInsert isBatch =>
    have fetched := sound_fetch_insert sound isPlace isInsert
    rw [isBatch] at fetched
    exact .inl fetched
  | noneToDelete isPlace isDelete none =>
    have fetched := sound_fetch_delete sound isPlace isDelete
    rw [none] at fetched
    exact .inl fetched
  | fetchesIds isPlace isDelete isBatch =>
    have fetched := sound_fetch_delete sound isPlace isDelete
    rw [isBatch] at fetched
    exact .inl fetched
  | inserts isPlace inserted => exact .inl (sound_insert sound isPlace inserted)
  | deletes isPlace => exact .inl (sound_delete sound isPlace)
  | renewsLater isPlace => exact .inl (sound_resume sound (.inl isPlace))
  | renewsNow isPlace =>
    obtain ⟨whole, fits, cutoff, copied, emptied, _⟩ := sound
    rw [isPlace] at fits cutoff copied emptied
    exact .inl ⟨whole, fits, cutoff, copied, emptied, fun t id _ none => False.elim none⟩
  -- The lock is no part of what the invariant speaks of.
  | renews isPlace =>
    have shrinks : Shrinks site (site.renewLock host run.token) :=
      (Effect.quiet (by simp) (by simp) (by simp) : Effect host run site _).shrinks
    obtain ⟨whole, fits, cutoff, copied, emptied, doomed⟩ := sound.aside (shrinks.aside run)
    rw [isPlace] at fits cutoff copied emptied doomed
    exact .inl ⟨whole, fits, cutoff, copied, emptied, doomed⟩
  | renewed isPlace =>
    have again : Sound watched site { run with lastRenewAt := site.dateNow } :=
      ⟨sound.whole, sound.fits, sound.cutoff, sound.copied, sound.emptied, sound.doomed⟩
    exact .inl (sound_resume again (.inr isPlace))
  | releases isPlace =>
    have shrinks : Shrinks site (site.releaseLock run.token) :=
      (Effect.quiet (by simp) (by simp) (by simp) : Effect host run site _).shrinks
    obtain ⟨whole, fits, cutoff, copied, emptied, doomed⟩ := sound.aside (shrinks.aside run)
    rw [isPlace] at cutoff copied emptied doomed
    exact .inl ⟨whole, trivial, cutoff, copied, emptied, doomed⟩

/-- What is cut short does nothing more. -/
theorem cut_step (cut : Cut host site run)
    (steps : run.next host site outcome = some (site', run')) : Cut host site' run' := by
  unfold Run.next at steps
  obtain ⟨whole, isPlace | isPlace | ⟨⟨kind, left, isPlace⟩, exceeded⟩⟩ := cut
  · rw [isPlace] at steps
    cases outcome <;> cases steps
    · exact ⟨whole, .inr (.inl rfl)⟩
    · exact cut_stop host _ run
    · exact cut_stop host _ run
  · rw [isPlace] at steps
    cases steps
  · rw [isPlace] at steps
    cases left with
    | nil =>
      cases steps
      cases kind with
      | insert => exact ⟨whole, .inr (.inr ⟨⟨.delete, PASS2_DELETE_ORDER, rfl⟩, exceeded⟩)⟩
      | delete => exact ⟨whole, .inl rfl⟩
    | cons table later =>
      simp only [exceeded, if_true] at steps
      cases steps
      exact cut_behind kind exceeded

/-- No effect on the data, and no way to one. -/
theorem Cut.quiet (cut : Cut host site run) :
    (∀ pass rows, run.place ≠ .insert pass rows) ∧ ∀ pass ids, run.place ≠ .delete pass ids := by
  obtain ⟨_, isPlace | isPlace | ⟨⟨kind, left, isPlace⟩, _⟩⟩ :=
    cut <;> rw [isPlace] <;> exact ⟨nofun, nofun⟩

end

/-! ## Runs -/

section

variable (watched : TableName → Prop) (host : Host)

/-- The ids come from sequences, which begin at one. -/
def Positive (db : Database) : Prop := ∀ t, Moved t → ∀ row ∈ (db t).rows, 0 < rowId row

theorem positive_of_eligible {db : Database} (positive : Positive db) (t : TableName)
    (id cutoff : ℕ) (isEligible : Eligible db cutoff t id) : 0 < id := by
  obtain ⟨row, member, passes, rfl⟩ := isEligible
  exact positive t (moved_of_eligible passes) row member

/-- Every execution is whole so far, or cut short. -/
structure Progress (w : World) : Prop where
  positive : Positive w.hot
  runs : ∀ run ∈ w.runs, Sound watched w.toSite run ∨ Cut host w.toSite run

/-- Every pass begins in the year in which its execution began. -/
def SameYear (w : World) : Event → Prop
  | .step i _ =>
    ∀ run, w.runs[i]? = some run → ∀ kind table later, run.place = .tables kind (table :: later) →
      run.exceeded host w.toSite = false → cutoffIso w.now = cutoffOf run
  | _ => True

instance (w : World) (e : Event) : Decidable (SameYear host w e) :=
  match e with
  | .step i _ =>
    decidable_of_iff
      ((w.runs[i]?).all fun run => match run.place with
        | .tables _ (_ :: _) =>
          run.exceeded host w.toSite || decide (cutoffIso w.now = cutoffOf run)
        | _ => true)
      (by
        simp only [Option.all_eq_true, SameYear]
        refine forall₂_congr fun run _ =>
          ⟨fun checked kind table later isPlace goesOn => ?_, fun sameYear => ?_⟩
        · simpa [isPlace, goesOn] using checked
        · split
          next kind table later isPlace =>
            cases goesOn : run.exceeded host w.toSite with
            | true => rfl
            | false => simpa using sameYear kind table later isPlace goesOn
          next => rfl)
  | .tick _ | .start | .crash _ | .live _ => isTrue trivial

/-- The services add no eligible rows behind an execution. -/
def NoneBehind (w : World) : Event → Prop
  | .live writes => Positive (w.hot.applyAll writes) ∧
      ∀ run ∈ w.runs, Aside watched run w.toSite { w.toSite with hot := w.hot.applyAll writes }
  | _ => True

variable {watched host} {w w' : World} {e : Event}

theorem sound_start (site : Site) (token : ℕ) :
    Sound watched site ⟨token, 0, 0, .acquiring, [], [], true⟩ := by
  refine ⟨rfl, trivial, fun pass none => (nomatch none), ?_, ?_, ?_⟩ <;> exact fun t id _ none =>
    False.elim none

theorem progress_start (positive : Positive w.hot) (none : w.runs = []) : Progress watched host w :=
  ⟨positive, by rw [none]; exact fun _ impossible => absurd impossible List.not_mem_nil⟩

theorem Progress.aside (progress : Progress watched host w) (site' : Site)
    (positive : Positive site'.hot) (aside : ∀ run ∈ w.runs, Aside watched run w.toSite site') :
    Progress watched host ⟨site', w.runs⟩ :=
  ⟨positive, fun run member => (progress.runs run member).imp (Sound.aside · (aside run member))
    (Cut.later · (aside run member).later)⟩

theorem Progress.set {run' : Run} (progress : Progress watched host w) (i : ℕ)
    (ends : Sound watched w.toSite run' ∨ Cut host w.toSite run') :
    Progress watched host ⟨w.toSite, w.runs.set i run'⟩ := by
  refine ⟨progress.positive, fun run member => ?_⟩
  rcases List.mem_or_eq_of_mem_set member with old | rfl
  · exact progress.runs run old
  · exact ends

theorem effect_step {i : ℕ} {outcome : Outcome} (steps : w.next host (.step i outcome) = some w') :
    ∃ run run', w.runs[i]? = some run ∧ run.next host w.toSite outcome = some (w'.toSite, run') ∧
    w' = ⟨w'.toSite, w.runs.set i run'⟩ := by
  obtain ⟨run, found, steps⟩ := Option.bind_eq_some_iff.1 steps
  obtain ⟨⟨site', run'⟩, acts, rfl⟩ := Option.map_eq_some_iff.1 steps
  exact ⟨run, run', found, acts, rfl⟩

theorem progress_next (progress : Progress watched host w) (sameYear : SameYear host w e)
    (noneBehind : NoneBehind watched w e) (steps : w.next host e = some w') :
    Progress watched host w' := by
  cases e with
  | tick microseconds =>
    cases steps
    refine progress.aside { w.toSite with
      now := w.now + microseconds } progress.positive fun run _ => ?_
    exact ⟨Nat.le_add_right _ _, fun _ _ stored => stored, fun _ _ _ _ isEligible => isEligible⟩
  | start =>
    cases steps
    refine ⟨progress.positive, fun run member => ?_⟩
    rcases List.mem_append.1 member with old | new
    · exact progress.runs run old
    · rw [List.mem_singleton.1 new]
      exact .inl (sound_start _ _)
  | step i outcome =>
    obtain ⟨run, run', found, acts, isNext⟩ := effect_step steps
    have member := List.mem_of_getElem? found
    have shrinks := (effect_next acts).shrinks
    have positive : Positive w'.hot :=
      fun t moved row inTable => progress.positive t moved row (shrinks.hot t row inTable)
    have ends : Sound watched w'.toSite run' ∨ Cut host w'.toSite run' := by
      rcases progress.runs run member with sound | cut
      · exact sound_step (positive_of_eligible progress.positive) sound (sameYear run found) acts
      · exact .inr (cut_step cut acts)
    rw [isNext]
    exact (progress.aside w'.toSite positive fun run _ => shrinks.aside run).set i ends
  | crash i =>
    obtain ⟨run, _, rfl⟩ := Option.map_eq_some_iff.1 steps
    exact progress.set i (.inr (cut_stop host _ run))
  | live writes =>
    cases steps
    exact progress.aside { w.toSite with hot := w.hot.applyAll writes } noneBehind.1 noneBehind.2

theorem progress_of_reach {allowed : World → Event → Prop} {w₀ : World}
    (begins : Progress watched host w₀) (sameYear : ∀ w e, allowed w e → SameYear host w e)
    (noneBehind : ∀ w e, allowed w e → NoneBehind watched w e)
    (reached : Archival.Reach host allowed w₀ w) : Progress watched host w :=
  reached.invariant begins fun w _ e known condition steps =>
    progress_next known (sameYear w e condition) (noneBehind w e condition) steps

end

/-! ## A year -/

/-- An execution has made its budget. -/
def Begun (run : Run) : Prop := run.place ≠ .acquiring ∧ run.place ≠ .acquired

/-- An execution has begun before, or begins now. -/
theorem began_of_next {host : Host} {site site' : Site} {run run' : Run} {outcome : Outcome}
    (steps : run.next host site outcome = some (site', run')) :
    run'.began = run.began ∨ run'.began = site.dateNow := by
  cases step_of_next steps with
  | begins => exact .inr rfl
  | breaksOff | noneToInsert | noneToDelete | renewsLater | renewed => exact .inl (by simp)
  | _ => exact .inl rfl

/-- When an execution begins, and that it does so once. -/
theorem began_next {host : Host} {site site' : Site} {run run' : Run} {outcome : Outcome}
    (steps : run.next host site outcome = some (site', run')) (whole : run'.whole = true) :
    run.whole = true ∧ (run.place = .acquired ∧ run'.began = site.dateNow ∨ run'.place = .acquired ∨
      Begun run ∧ run'.began = run.began) := by
  have begun : ∀ {place}, run.place = place → place ≠ .acquiring → place ≠ .acquired → Begun run :=
    fun isPlace acquiring acquired => ⟨isPlace ▸ acquiring, isPlace ▸ acquired⟩
  cases step_of_next steps with
  | begins isPlace => exact ⟨whole, .inl ⟨isPlace, rfl⟩⟩
  | locks => exact ⟨whole, .inr (.inl rfl)⟩
  | refused | lockLost | breaks | breaksOff | fetchFails | insertFails | insertLost | deleteFails
  | deleteLost | renewFails | renewLost | releaseFails | releaseLost => cases whole
  | noneToInsert isPlace | noneToDelete isPlace | renewsLater isPlace | renewed isPlace =>
    exact ⟨by simpa using whole, .inr (.inr ⟨begun isPlace (by simp) (by simp), by simp⟩)⟩
  | behind isPlace | enters isPlace | goesOn isPlace | fetchesRows isPlace | fetchesIds isPlace
  | inserts isPlace | deletes isPlace | renewsNow isPlace | renews isPlace | releases isPlace =>
    exact ⟨whole, .inr (.inr ⟨begun isPlace (by simp) (by simp), rfl⟩)⟩

section

variable {watched : TableName → Prop} {host : Host} {cutoff : ℕ} {w w' : World} {e : Event}

/-- The executions that have begun did so after this cutoff, in its year. -/
def OneCutoff (cutoff : ℕ) (w : World) : Prop :=
  ∀ run ∈ w.runs, run.whole = true → Begun run → cutoffOf run = cutoff

theorem oneCutoff_next (oneCutoff : OneCutoff cutoff w) (year : cutoffIso w.now = cutoff)
    (steps : w.next host e = some w') : OneCutoff cutoff w' := by
  cases e with
  | tick microseconds => cases steps; exact oneCutoff
  | live writes => cases steps; exact oneCutoff
  | start =>
    cases steps
    intro run member whole begun
    rcases List.mem_append.1 member with old | new
    · exact oneCutoff run old whole begun
    · rw [List.mem_singleton.1 new] at begun
      exact absurd rfl begun.1
  | crash i =>
    obtain ⟨run, _, rfl⟩ := Option.map_eq_some_iff.1 steps
    intro run' member whole begun
    rcases List.mem_or_eq_of_mem_set member with old | rfl
    · exact oneCutoff run' old whole begun
    · cases whole
  | step i outcome =>
    obtain ⟨run, run', found, acts, isNext⟩ := effect_step steps
    rw [isNext]
    intro run'' member whole begun
    rcases List.mem_or_eq_of_mem_set member with old | rfl
    · exact oneCutoff run'' old whole begun
    · obtain ⟨wholeBefore, ⟨_, began⟩ | acquired | ⟨begunBefore, began⟩⟩ := began_next acts whole
      · rw [cutoffOf, began, Site.dateNow, cutoffIso_milliseconds, year]
      · exact absurd acquired begun.2
      · rw [cutoffOf, began]
        exact oneCutoff run (List.mem_of_getElem? found) wholeBefore begunBefore

theorem sameYear_of_oneCutoff (progress : Progress watched host w) (oneCutoff : OneCutoff cutoff w)
    (year : cutoffIso w.now = cutoff) (e : Event) : SameYear host w e := by
  cases e with
  | step i outcome =>
    intro run found kind table later isPlace goesOn
    have member := List.mem_of_getElem? found
    rcases progress.runs run member with sound | ⟨_, cut⟩
    · rw [year, oneCutoff run member sound.whole (by rw [Begun, isPlace]; exact ⟨nofun, nofun⟩)]
    · rw [isPlace] at cut
      obtain impossible | impossible | ⟨_, exceeded⟩ := cut
      · cases impossible
      · cases impossible
      · rw [goesOn] at exceeded
        cases exceeded
  | tick _ | start | crash _ | live _ => trivial

/-- In a year, all executions work with one cutoff. -/
structure InYear (watched : TableName → Prop) (host : Host) (cutoff : ℕ) (w : World) : Prop where
  progress : Progress watched host w
  oneCutoff : OneCutoff cutoff w

theorem inYear_start (positive : Positive w.hot) (none : w.runs = []) :
    InYear watched host cutoff w :=
  ⟨progress_start positive none,
    by rw [OneCutoff, none]; exact fun _ impossible => absurd impossible List.not_mem_nil⟩

theorem inYear_next (inYear : InYear watched host cutoff w) (year : cutoffIso w.now = cutoff)
    (noneBehind : NoneBehind watched w e) (steps : w.next host e = some w') :
    InYear watched host cutoff w' :=
  ⟨progress_next inYear.progress (sameYear_of_oneCutoff inYear.progress inYear.oneCutoff year e)
    noneBehind steps,
    oneCutoff_next inYear.oneCutoff year steps⟩

/-- What an execution that is about to write was given by its batch. -/
theorem InYear.sound_of_passOf (inYear : InYear watched host cutoff w) {run : Run}
    (member : run ∈ w.runs) {pass : Pass} (isPass : passOf run.place = some pass) :
    Sound watched w.toSite run ∧ pass.cutoff = cutoff := by
  rcases inYear.progress.runs run member with sound | ⟨_, cut⟩
  · refine ⟨sound,
      (sound.cutoff pass isPass).trans (inYear.oneCutoff run member sound.whole ⟨?_, ?_⟩)⟩
    · intro isPlace
      rw [isPlace] at isPass
      cases isPass
    · intro isPlace
      rw [isPlace] at isPass
      cases isPass
  · obtain isPlace | isPlace | ⟨⟨_, _, isPlace⟩, _⟩ :=
      cut <;> rw [isPlace] at isPass <;> cases isPass

end

end SwiftBite.Verified.ArchivalPasses
