import SwiftBite.Store.BatchNumbers
import SwiftBite.Verified.ArchivalReruns
import SwiftBite.Verified.References

/-! # Archival and the foreign keys

A batch may hold a row without the row that it refers to, if that one goes to the archive before,
or leaves hot after.  The order of the tables sees to the references between tables, and the
order of the ids to those that point to lower ids, as a reassigned delivery's does.  But a refunded
charge points to its refund, which is younger: so the two have to share a batch in both passes.
-/

set_option autoImplicit false

namespace SwiftBite.Verified.ArchivalKeys

open Store Archival ArchivalRows ArchivalPasses ArchivalReruns References

/-! ## Numbers of batches -/

/-- The ids of the rows that are to go. -/
def eligibleIds (db : Database) (cutoff : ℕ) (t : TableName) : Finset ℕ :=
  (((db t).rows.filter (eligible db cutoff t)).map rowId).toFinset

/-- In which batch of the insert pass a row goes: how many eligible rows have a lower id, in
thousands. -/
def insertedIn (db : Database) (cutoff : ℕ) (t : TableName) (id : ℕ) : ℕ :=
  batchNumber (· < ·) BATCH_SIZE (eligibleIds db cutoff t) id

/-- In which batch of the delete pass it goes: how many have a higher id, in thousands. -/
def deletedIn (db : Database) (cutoff : ℕ) (t : TableName) (id : ℕ) : ℕ :=
  batchNumber (· > ·) BATCH_SIZE (eligibleIds db cutoff t) id

/-- The foreign keys of the migrations. -/
structure Intact (db : Database) : Prop where
  order : ∀ t, ∀ row ∈ (db t).rows, ∀ o, parentOf t row = some o →
    ∃ order ∈ (db .orders).rows, Order.id order = o
  reference : ∀ t, ∀ row ∈ (db t).rows, ∀ r, referenceOf t row = some r →
    ∃ row' ∈ (db (targetOf t)).rows, rowId row' = r

/-- One execution, while no service writes and the cutoff stays the same. -/
def Single (cutoff : ℕ) (w : World) (e : Event) : Prop :=
  Fixed cutoff w e ∧ (e = .start → w.runs = [])

/-- No batch violates a foreign key, wherever the execution is cut off. -/
def NeverTrips (host : Host) (cutoff : ℕ) (start : World) : Prop :=
  ∀ w, Archival.Reach host (Single cutoff) start w → Intact w.hot ∧ Intact w.archive

/-- A refunded charge and its refund go in the same batches. -/
structure Aligned (cutoff : ℕ) (site : Site) : Prop where
  inserted : ∀ charge ∈ (site.hot .transactions).rows,
    eligible site.hot cutoff .transactions charge = true →
    ∀ refund, Transaction.refundedPaymentId charge = some refund →
    Stored site .transactions (Transaction.id charge) ∨ Stored site .transactions refund ∨
      insertedIn site.hot cutoff .transactions refund ≤
        insertedIn site.hot cutoff .transactions (Transaction.id charge)
  deleted : ∀ charge ∈ (site.hot .transactions).rows,
    eligible site.hot cutoff .transactions charge = true →
    ∀ refund, Transaction.refundedPaymentId charge = some refund →
    deletedIn site.hot cutoff .transactions (Transaction.id charge) ≤
      deletedIn site.hot cutoff .transactions refund

section

variable {db : Database} {cutoff : ℕ} {t : TableName} {id : ℕ}

theorem mem_eligibleIds :
    id ∈ eligibleIds db cutoff t ↔ ArchivalPasses.Eligible db cutoff t id := by
  simp [eligibleIds, ArchivalPasses.Eligible, and_assoc]

theorem distinct_rowId (moved : Moved t) (p : RowOf t → Bool) :
    (((db t).rows.filter p).map rowId).Nodup := by
  refine List.Nodup.map_on (fun a inA b inB same => ?_) ((db t).rows_nodup.filter p)
  exact eq_of_rowId moved (List.mem_of_mem_filter inA) (List.mem_of_mem_filter inB) same

/-- What an insert pass has before it. -/
theorem idsBehind (cursor : ℕ) :
    (((db t).rows.filter fun row => eligible db cutoff t row && cursor < rowId row).map
      rowId).toFinset =
    (eligibleIds db cutoff t).filter (cursor < ·) := by
  ext id
  simp only [eligibleIds, List.mem_toFinset, List.mem_map, List.mem_filter, Finset.mem_filter,
    Bool.and_eq_true, decide_eq_true_eq]
  constructor
  · rintro ⟨row, ⟨member, isEligible, behind⟩, rfl⟩
    exact ⟨⟨row, ⟨member, isEligible⟩, rfl⟩, behind⟩
  · rintro ⟨⟨row, ⟨member, isEligible⟩, rfl⟩, behind⟩
    exact ⟨row, ⟨member, isEligible, behind⟩, rfl⟩

/-- An insert pass has gone past `k` batches. -/
def PastInserts (db : Database) (cutoff : ℕ) (t : TableName) (cursor k : ℕ) : Prop :=
  LeftAfter (· < ·) BATCH_SIZE (eligibleIds db cutoff t)
    ((eligibleIds db cutoff t).filter (cursor < ·)) k

theorem pastInserts_zero (positive : ∀ id ∈ eligibleIds db cutoff t, 0 < id) :
    PastInserts db cutoff t 0 0 := by
  rw [PastInserts, Finset.filter_true_of_mem positive]
  exact leftAfter_zero

variable {cursor k : ℕ}

theorem takes_insertBatch (moved : Moved t) (cursor : ℕ) :
    Takes (· < ·) rowId BATCH_SIZE
    ((db t).rows.filter fun row => eligible db cutoff t row && cursor < rowId row)
      (insertBatch db cutoff t cursor) :=
  takes_ascending _ (distinct_rowId moved _)

/-- The next insert batch is the one with the next number. -/
theorem mem_insertBatch_iff (moved : Moved t) (past : PastInserts db cutoff t cursor k)
    {row : RowOf t} (member : row ∈ (db t).rows) (isEligible : eligible db cutoff t row = true)
    (behind : cursor < rowId row) :
    row ∈ insertBatch db cutoff t cursor ↔ insertedIn db cutoff t (rowId row) = k := by
  rw [PastInserts, ← idsBehind] at past
  exact past.mem_batch_iff (by decide)
    (takes_insertBatch moved cursor) (by simp [member, isEligible, behind])

theorem pastInserts_next (moved : Moved t) (past : PastInserts db cutoff t cursor k) {l : RowOf t}
    (isLast : (insertBatch db cutoff t cursor).getLast? = some l) :
    PastInserts db cutoff t (rowId l) (k + 1) := by
  have next := past
  rw [PastInserts, ← idsBehind] at next
  have next := next.takes (by decide) (takes_insertBatch moved cursor)
  rw [idsBehind] at next
  -- Behind the last row of the batch is what was behind the cursor and is not in the batch.
  have same : (eligibleIds db cutoff t).filter
      (cursor < ·) \ ((insertBatch db cutoff t cursor).map rowId).toFinset =
      (eligibleIds db cutoff t).filter (rowId l < ·) := by
    have inBatch := List.mem_of_getLast? isLast
    ext id
    simp only [Finset.mem_sdiff, Finset.mem_filter, List.mem_toFinset, mem_eligibleIds]
    constructor
    · rintro ⟨⟨⟨row, member, isEligible, rfl⟩, behind⟩, left⟩
      refine ⟨⟨row, member, isEligible, rfl⟩, ?_⟩
      by_contra upTo
      exact left (List.mem_map_of_mem
        (insertBatch_covers moved member isEligible behind isLast (Nat.le_of_not_lt upTo)))
    · rintro ⟨isEligible, behind⟩
      refine ⟨⟨isEligible, (mem_insertBatch inBatch).2.2.trans behind⟩, fun among => ?_⟩
      obtain ⟨row, inBatch', rfl⟩ := List.mem_map.1 among
      exact Nat.not_lt.2 (le_last_of_ascending inBatch' isLast) behind
  rw [same] at next
  exact next

end

/-! ## An execution that runs alone -/

section

variable {host : Host} {cutoff : ℕ} {start w w' : World} {site site' : Site} {run run' : Run}
  {outcome : Outcome} {e : Event}

/-- What an execution has gone past, and what its batch is. -/
def Counted (cutoff : ℕ) (before hot : Database) : Place → Prop
  | .acquiring | .acquired | .tables .insert _ => hot = before
  | .loop pass | .fetch pass | .renew pass _ | .renewing pass _ | .renewed pass _ =>
    pass.kind = .insert → hot = before ∧ ∃ k, PastInserts before cutoff pass.table pass.cursor k
  | .insert pass rows => hot = before ∧ rows = insertBatch before cutoff pass.table pass.cursor ∧
    ∃ k, PastInserts before cutoff pass.table pass.cursor k
  | .delete pass ids => ids = deleteBatch hot cutoff pass.table
  | .tables .delete _ | .releasing | .ended => True

theorem counted_leave {pass : Pass} (same : pass.kind = .insert → site.hot = start.hot) :
    Counted cutoff start.hot site.hot (.tables pass.kind pass.later) := by
  cases kind : pass.kind with
  | insert => exact same kind
  | delete => trivial

theorem counted_resume {pass : Pass} {isLast : Bool}
    (counted : pass.kind = .insert →
      site.hot = start.hot ∧ ∃ k, PastInserts start.hot cutoff pass.table pass.cursor k) :
    Counted cutoff start.hot site.hot (run.resume pass isLast).place := by
  cases isLast with
  | true =>
    rw [Run.place_resume, if_pos rfl]
    exact counted_leave fun isInsert => (counted isInsert).1
  | false => exact counted

theorem moved_of_inOrder {pass : Pass} (inOrder : InOrder pass) : Moved pass.table := by
  have member : pass.table ∈ loopOrder pass.kind := inOrder.mem List.mem_cons_self
  cases kind : pass.kind with
  | insert => rwa [kind] at member
  | delete =>
    rw [kind] at member
    exact moved_iff_deleted.1 member

theorem inOrder_of_fits {place : Place} {pass : Pass} (fits : Fits place)
    (isPass : passOf place = some pass) : InOrder pass := by
  cases place with
  | insert | delete =>
    cases isPass
    exact fits.2
  | loop | fetch | renew | renewing | renewed =>
    cases isPass
    exact fits
  | acquiring | acquired | tables | releasing | ended => cases isPass

theorem counted_next (positive : ∀ t, ∀ id ∈ eligibleIds start.hot cutoff t, 0 < id)
    (counted : Counted cutoff start.hot site.hot run.place)
    (known : ∀ pass, passOf run.place = some pass → Fits run.place ∧ pass.cutoff = cutoff)
    (steps : run.next host site outcome = some (site', run')) :
    Counted cutoff start.hot site'.hot run'.place := by
  cases step_of_next steps with
  | refused | lockLost | fetchFails | insertFails | insertLost | deleteFails | deleteLost
  | renewFails | renewLost | releaseFails | releaseLost | releases => trivial
  | locks isPlace | begins isPlace | goesOn isPlace | renewsNow isPlace =>
    rw [isPlace] at counted
    exact counted
  | @behind kind | @breaks kind => cases kind <;> trivial
  | enters isPlace =>
    rw [isPlace] at counted
    rintro rfl
    exact ⟨counted, 0, pastInserts_zero (positive _)⟩
  | breaksOff isPlace =>
    rw [isPlace] at counted
    rw [Run.place_leave]
    exact counted_leave fun isInsert => (counted isInsert).1
  | noneToInsert isPlace | noneToDelete isPlace =>
    rw [isPlace] at counted
    rw [Run.place_leave]
    exact counted_leave fun isInsert => (counted isInsert).1
  | @fetchesRows pass _ _ isPlace isInsert isBatch =>
    obtain ⟨_, isCutoff⟩ := known pass (by rw [isPlace]; rfl)
    rw [isPlace] at counted
    obtain ⟨same, past⟩ := counted isInsert
    exact ⟨same, by rw [← isBatch, same, isCutoff], past⟩
  | @fetchesIds pass _ _ isPlace _ isBatch =>
    obtain ⟨_, isCutoff⟩ := known pass (by rw [isPlace]; rfl)
    show _ = deleteBatch site.hot cutoff pass.table
    rw [← isBatch, isCutoff]
  | @inserts pass rows _ isPlace =>
    have isPass : passOf run.place = some pass := by rw [isPlace]; rfl
    have inTable := moved_of_inOrder (inOrder_of_fits (known pass isPass).1 isPass)
    rw [isPlace] at counted
    obtain ⟨same, isBatch, k, past⟩ := counted
    refine fun _ => ⟨same, ?_⟩
    cases isLast : rows.getLast? with
    | none =>
      refine ⟨k, ?_⟩
      simpa [Pass.inserted, isLast] using past
    | some l =>
      -- The batch with number `k` is done, and the cursor stands at its end.
      refine ⟨k + 1, ?_⟩
      subst isBatch
      simpa [Pass.inserted, isLast] using pastInserts_next inTable past isLast
  | deletes isPlace =>
    obtain ⟨fits, _⟩ := known _ (by rw [isPlace]; rfl)
    rw [isPlace] at fits
    exact fun isInsert => absurd (fits.1.symm.trans isInsert) (by decide)
  | renewsLater isPlace | renewed isPlace =>
    rw [isPlace] at counted
    exact counted_resume counted
  | renews isPlace =>
    rw [isPlace] at counted
    simpa [Counted] using counted

/-- A row that is left in hot is eligible if it was. -/
theorem eligible_iff (moving : Moving host cutoff start site) {t : TableName} {row : RowOf t}
    (member : row ∈ (site.hot t).rows) :
    eligible site.hot cutoff t row = eligible start.hot cutoff t row := by
  rw [Bool.eq_iff_iff]
  refine ⟨eligible_mono (moving.hot .orders), fun wasEligible => ?_⟩
  by_cases child : Child t
  · exact moving.families t child row member wasEligible
  · cases t <;> first | exact wasEligible | exact absurd (by decide) child

theorem filter_eligible (moving : Moving host cutoff start site) (t : TableName) :
    (site.hot t).rows.filter (eligible site.hot cutoff t) =
      (site.hot t).rows.filter (eligible start.hot cutoff t) :=
  List.filter_congr fun _ member => eligible_iff moving member

/-- The rows that are to go and have not gone. -/
def leftIds (cutoff : ℕ) (before hot : Database) (t : TableName) : Finset ℕ :=
  (((hot t).rows.filter (eligible before cutoff t)).map rowId).toFinset

/-- The delete passes have gone past `k` batches of a table. -/
def PastDeletes (cutoff : ℕ) (before hot : Database) (t : TableName) (k : ℕ) : Prop :=
  LeftAfter (· > ·) BATCH_SIZE (eligibleIds before cutoff t) (leftIds cutoff before hot t) k

theorem takes_deleteBatch (moving : Moving host cutoff start site) {t : TableName}
    (moved : Moved t) :
    ∃ batch,
    Takes (· > ·) rowId BATCH_SIZE ((site.hot t).rows.filter (eligible start.hot cutoff t)) batch ∧
      batch.map rowId = deleteBatch site.hot cutoff t := by
  refine ⟨_, takes_descending _ (distinct_rowId moved _), ?_⟩
  rw [← filter_eligible moving]
  rfl

/-- The next delete batch is the one with the next number. -/
theorem mem_deleteBatch_iff (moving : Moving host cutoff start site) {t : TableName}
    (moved : Moved t) {k : ℕ} (past : PastDeletes cutoff start.hot site.hot t k) {row : RowOf t}
    (member : row ∈ (site.hot t).rows) (wasEligible : eligible start.hot cutoff t row = true) :
    rowId row ∈ deleteBatch site.hot cutoff t ↔ deletedIn start.hot cutoff t (rowId row) = k := by
  obtain ⟨batch, takes, isBatch⟩ := takes_deleteBatch moving moved
  rw [← isBatch, deletedIn,
    ← past.mem_batch_iff (by decide) takes (List.mem_filter.2 ⟨member, wasEligible⟩)]
  refine ⟨fun among => ?_, List.mem_map_of_mem⟩
  obtain ⟨row', inBatch, same⟩ := List.mem_map.1 among
  rw [← eq_of_rowId moved (List.mem_of_mem_filter (takes.subset inBatch)) member same]
  exact inBatch

theorem mem_deleteFrom {pass : Pass} {ids : List ℕ} {row : RowOf pass.table} :
    row ∈ ((site.deleteFrom pass.table ids).hot pass.table).rows ↔
    row ∈ (site.hot pass.table).rows ∧ rowId row ∉ ids := by
  simp [Site.deleteFrom, Table.mem_delete]

theorem hot_deleteFrom_ne {t table : TableName} {ids : List ℕ} (other : t ≠ table) :
    (site.deleteFrom table ids).hot t = site.hot t :=
  Function.update_of_ne other _ _

theorem leftIds_delete (before : Database) (site : Site) (t : TableName) (ids : List ℕ) :
    leftIds cutoff before (site.deleteFrom t ids).hot t =
      leftIds cutoff before site.hot t \ ids.toFinset := by
  ext id
  simp only [leftIds, Site.deleteFrom, Function.update_self, Finset.mem_sdiff, List.mem_toFinset,
    List.mem_map, List.mem_filter,
    Table.mem_delete, decide_eq_false_iff_not]
  constructor
  · rintro ⟨row, ⟨⟨member, spared⟩, isEligible⟩, rfl⟩
    exact ⟨⟨row, ⟨member, isEligible⟩, rfl⟩, spared⟩
  · rintro ⟨⟨row, ⟨member, isEligible⟩, rfl⟩, spared⟩
    exact ⟨row, ⟨⟨member, spared⟩, isEligible⟩, rfl⟩

theorem pastDeletes_effect (moving : Moving host cutoff start site)
    (counted : Counted cutoff start.hot site.hot run.place) (effect : Effect host run site site')
    {t : TableName} (moved : Moved t) {k : ℕ} (past : PastDeletes cutoff start.hot site.hot t k) :
    ∃ k', PastDeletes cutoff start.hot site'.hot t k' := by
  cases effect with
  | quiet hot =>
    refine ⟨k, ?_⟩
    rwa [PastDeletes, leftIds, hot]
  | inserts pass rows table _ _ isSite =>
    subst isSite
    exact ⟨k, past⟩
  | deletes pass ids isPlace isSite =>
    subst isSite
    by_cases same : t = pass.table
    · subst same
      rw [isPlace] at counted
      obtain ⟨batch, takes, isBatch⟩ := takes_deleteBatch moving moved
      refine ⟨k + 1, ?_⟩
      rw [PastDeletes, leftIds_delete, counted, ← isBatch]
      exact LeftAfter.takes past (by decide) takes
    · refine ⟨k, ?_⟩
      rwa [PastDeletes, leftIds, hot_deleteFrom_ne same]

/-- One execution at most, which has counted its batches. -/
structure Lone (host : Host) (cutoff : ℕ) (start w : World) : Prop where
  tracked : Tracked host cutoff start w
  single : w.runs.length ≤ 1
  untouched : w.runs = [] → w.hot = start.hot
  counted : ∀ run ∈ w.runs, Counted cutoff start.hot w.hot run.place
  pastDeletes : ∀ t, Moved t → ∃ k, PastDeletes cutoff start.hot w.hot t k

theorem lone_start (positive : Positive start.hot) (idle : start.runs = []) :
    Lone host cutoff start start where
  tracked := tracked_start positive idle
  single := by simp [idle]
  untouched _ := rfl
  counted run member := by
    rw [idle] at member
    cases member
  pastDeletes t moved := ⟨0, leftAfter_zero⟩

theorem lone_next (positive : Positive start.hot) (lone : Lone host cutoff start w)
    (single : Single cutoff w e) (steps : w.next host e = some w') : Lone host cutoff start w' := by
  have tracked := tracked_next lone.tracked single.1 steps
  cases e with
  | tick microseconds =>
    cases steps
    exact ⟨tracked, lone.single, lone.untouched, lone.counted, lone.pastDeletes⟩
  | start =>
    cases steps
    have idle := single.2 rfl
    refine ⟨tracked,
      by simp [idle], fun some => by simp at some, fun run member => ?_, lone.pastDeletes⟩
    rw [idle, List.nil_append] at member
    rw [List.mem_singleton.1 member]
    exact lone.untouched idle
  | live writes => exact single.1.1.elim
  | crash i =>
    obtain ⟨run, found, rfl⟩ := Option.map_eq_some_iff.1 steps
    refine ⟨tracked,
      by simpa using lone.single, fun none => ?_, fun run' member => ?_, lone.pastDeletes⟩
    · exact lone.untouched ((List.set_eq_nil_iff _ _).1 none)
    · rcases List.mem_or_eq_of_mem_set member with old | rfl
      · exact lone.counted run' old
      · trivial
  | step i outcome =>
    obtain ⟨run, run', found, acts, isNext⟩ := effect_step steps
    have member := List.mem_of_getElem? found
    -- No other execution is there.
    have only : w.runs.set i run' = [run'] := by
      obtain ⟨other, isOther⟩ :=
        List.length_eq_one_iff.1 (Nat.le_antisymm lone.single (List.length_pos_of_mem member))
      rw [isOther] at found ⊢
      obtain ⟨isFirst, _⟩ := List.getElem?_eq_some_iff.1 found
      obtain rfl : i = 0 := by simpa using isFirst
      rfl
    rw [isNext]
    refine ⟨isNext ▸ tracked,
      by simpa using lone.single, fun none => ?_, fun run'' member' => ?_, fun t moved => ?_⟩
    · rw [(List.set_eq_nil_iff _ _).1 none] at member
      cases member
    · rw [only] at member'
      rw [List.mem_singleton.1 member']
      refine counted_next (fun t id isEligible => ?_) (lone.counted run member)
        (fun pass isPass => ?_) acts
      · exact positive_of_eligible positive t id cutoff (mem_eligibleIds.1 isEligible)
      · obtain ⟨sound, isCutoff⟩ := lone.tracked.inYear.sound_of_passOf member isPass
        exact ⟨sound.fits, isCutoff⟩
    · obtain ⟨k, past⟩ := lone.pastDeletes t moved
      exact pastDeletes_effect lone.tracked.moving (lone.counted run member)
        (effect_next acts) moved past

theorem lone_of_reach (positive : Positive start.hot) (idle : start.runs = [])
    (reached : Archival.Reach host (Single cutoff) start w) : Lone host cutoff start w :=
  reached.invariant (lone_start positive idle) fun _ _ _ lone single steps =>
    lone_next positive lone single steps

end

/-! ## The keys -/

section

variable {host : Host} {cutoff : ℕ} {start w w' : World} {site site' : Site} {run run' : Run}
  {outcome : Outcome} {e : Event}

theorem child_of_parent {t : TableName} {row : RowOf t} {o : ℕ}
    (isParent : parentOf t row = some o) : Child t := by
  by_contra notChild
  rw [(Prod.mk.inj (columns_of_unlinked notChild row)).1] at isParent
  cases isParent

theorem child_of_reference {t : TableName} {row : RowOf t} {r : ℕ}
    (isReference : referenceOf t row = some r) : Child t ∧ Child (targetOf t) := by
  cases t <;> first | decide | cases isReference

theorem parentOf_carried (offset : ℤ) {t : TableName} (row : RowOf t) :
    parentOf t (carried offset t row) = parentOf t row := by
  cases t <;> rfl

theorem referenceOf_carried (offset : ℤ) {t : TableName} (row : RowOf t) :
    referenceOf t (carried offset t row) = referenceOf t row := by
  cases t <;> rfl

theorem exists_of_stored {t : TableName} {id : ℕ} (stored : Stored site t id) :
    ∃ row ∈ (site.archive t).rows, rowId row = id := by
  obtain ⟨row, found⟩ := Option.isSome_iff_exists.1 stored
  exact ⟨row, Table.get_mem found, rowId_of_get found⟩

/-- The keys of the archive, by what is stored. -/
theorem intact_of_stored
    (order : ∀ t, ∀ row ∈ (site.archive t).rows, ∀ o, parentOf t row = some o →
      Stored site .orders o)
    (reference : ∀ t, ∀ row ∈ (site.archive t).rows, ∀ r, referenceOf t row = some r →
      Stored site (targetOf t) r) : Intact site.archive where
  order t row member o isParent := by
    obtain ⟨order, among, isId⟩ := exists_of_stored (order t row member o isParent)
    exact ⟨order, among, isId⟩
  reference t row member r isReference := exists_of_stored (reference t row member r isReference)

theorem stored_of_intact (intact : Intact site.archive) :
    (∀ t, ∀ row ∈ (site.archive t).rows, ∀ o, parentOf t row = some o → Stored site .orders o) ∧
      ∀ t, ∀ row ∈ (site.archive t).rows, ∀ r, referenceOf t row = some r →
      Stored site (targetOf t) r := by
  refine ⟨fun t row member o isParent => ?_, fun t row member r isReference => ?_⟩
  · obtain ⟨order, among, rfl⟩ := intact.order t row member o isParent
    exact stored_of_mem (t := .orders) (by decide) among
  · obtain ⟨row', among, rfl⟩ := intact.reference t row member r isReference
    have child := (child_of_reference isReference).2
    refine stored_of_mem ?_ among
    revert child
    cases targetOf t <;> decide

/-! ### Insertions -/

variable {pass : Pass} {rows : List (RowOf pass.table)} {t : TableName} {id : ℕ}

/-- The tables in front of a pass have been gone through. -/
theorem stored_of_front (sound : Sound (fun _ => True) site run)
    (isPlace : run.place = .insert pass rows) (front : t ∉ pass.table :: pass.later)
    (isEligible : ArchivalPasses.Eligible site.hot (cutoffOf run) t id) : Stored site t id := by
  have fits := sound.fits
  have copied := sound.copied t id trivial
  rw [isPlace] at fits copied
  have isPassed : Passed (.insert pass rows) t id := by
    simp only [Passed]
    split
    · rw [PassedAfter, fits.1]
      exact fun later => front (List.mem_cons_of_mem _ later)
    · simp only [PassedBy, Pass.inserted, fits.1]
      exact .inl front
  refine (copied isPassed isEligible).resolve_right fun pending => front ?_
  rw [pending.1]
  exact List.mem_cons_self

/-- Up to its cursor, an insert pass has stored all it does not hold. -/
theorem stored_of_cursor (sound : Sound (fun _ => True) site run)
    (isPlace : run.place = .insert pass rows) (behind : ∀ row ∈ rows, pass.cursor < rowId row)
    (upTo : id ≤ pass.cursor)
    (isEligible : ArchivalPasses.Eligible site.hot (cutoffOf run) pass.table id) :
    Stored site pass.table id := by
  have fits := sound.fits
  have copied := sound.copied pass.table id trivial
  rw [isPlace] at fits copied
  have notLater : pass.table ∉ pass.later := by
    have distinct : (loopOrder pass.kind).Nodup := by cases pass.kind <;> decide
    exact (List.nodup_cons.1 (distinct.sublist fits.2.sublist)).1
  have isPassed : Passed (.insert pass rows) pass.table id := by
    simp only [Passed]
    split
    · rw [PassedAfter, fits.1]
      exact notLater
    · simp only [PassedBy, Pass.inserted, fits.1]
      refine .inr ⟨trivial, ?_⟩
      cases isLast : rows.getLast? with
      | none => exact upTo
      | some l => exact upTo.trans (behind l (List.mem_of_getLast? isLast)).le
  refine (copied isPassed isEligible).resolve_right fun pending => ?_
  obtain ⟨row, member, rfl⟩ := List.mem_map.1 pending.2
  exact absurd (behind row member) (Nat.not_lt.2 upTo)

theorem eligible_of_parent {db : Database} {t t' : TableName} {row : RowOf t} {row' : RowOf t'}
    (child : Child t) (child' : Child t') (same : parentOf t' row' = parentOf t row)
    (isEligible : eligible db cutoff t row = true) : eligible db cutoff t' row' = true := by
  rw [eligible_child child] at isEligible
  rw [eligible_child child', same]
  exact isEligible

/-- The order of an eligible row is eligible. -/
theorem eligible_order {db : Database} {t : TableName} {row : RowOf t} {o : ℕ}
    (isParent : parentOf t row = some o) (isEligible : eligible db cutoff t row = true) :
    ArchivalPasses.Eligible db cutoff .orders o := by
  rw [eligible_child (child_of_parent isParent), isParent, byParentOrder_iff] at isEligible
  obtain ⟨order, member, isId, passes⟩ := isEligible
  exact ⟨order, member, passes, Option.some.inj isId⟩

/-- A pass that is not over the orders has them behind it. -/
theorem front_of_orders (inOrder : InOrder pass) (isInsert : pass.kind = .insert)
    (child : Child pass.table) : TableName.orders ∉ pass.table :: pass.later := by
  rw [InOrder, isInsert] at inOrder
  have cut : pass.table :: pass.later <:+ PASS1_INSERT_ORDER.tail := by
    refine (List.suffix_cons_iff.1 inOrder).resolve_left fun whole => ?_
    rw [(List.cons.inj whole).1] at child
    exact absurd child (by decide)
  exact fun member => absurd (cut.mem member) (by decide)

theorem front_of_deliveries (inOrder : InOrder pass) (isInsert : pass.kind = .insert)
    (isEarnings : pass.table = .agentEarnings) :
    TableName.deliveries ∉ pass.table :: pass.later := by
  rw [InOrder, isInsert, isEarnings] at inOrder
  rw [isEarnings]
  have isLast : pass.later = [] := by
    simpa [loopOrder, PASS1_INSERT_ORDER, List.suffix_cons_iff] using inOrder
  rw [isLast]
  decide

/-- A new row of the archive finds what it refers to. -/
theorem stored_of_inserted (sound : Sound (fun _ => True) site run)
    (isCutoff : cutoffOf run = cutoff) (counted : Counted cutoff start.hot site.hot run.place)
    (isPlace : run.place = .insert pass rows)
    (joined : ∀ t, ∀ row ∈ (start.hot t).rows, Joined start.hot t row)
    (shrinks : Shrinks site site') (there : ∀ row ∈ rows, Stored site' pass.table (rowId row))
    {row : RowOf pass.table} (inBatch : row ∈ rows)
    (prior : ∀ r, referenceOf pass.table row = some r →
      targetOf pass.table = pass.table → Stored site pass.table r ∨
      insertedIn start.hot cutoff pass.table r ≤
        insertedIn start.hot cutoff pass.table (rowId row)) :
    (∀ o, parentOf pass.table row = some o → Stored site' .orders o) ∧
      ∀ r, referenceOf pass.table row = some r → Stored site' (targetOf pass.table) r := by
  have fits := sound.fits
  rw [isPlace] at fits counted
  obtain ⟨isInsert, inOrder⟩ := fits
  obtain ⟨sameHot, isBatch, k, past⟩ := counted
  have moved := moved_of_inOrder inOrder
  have inRows := inBatch
  rw [isBatch] at inRows
  obtain ⟨inTable, isEligible, behind⟩ := mem_insertBatch inRows
  have behindAll : ∀ row ∈ rows, pass.cursor < rowId row := by
    rw [isBatch]
    exact fun row member => (mem_insertBatch member).2.2
  refine ⟨fun o isParent => ?_, fun r isReference => ?_⟩
  · have front := front_of_orders inOrder isInsert (child_of_parent isParent)
    refine shrinks.stored _ _ (stored_of_front sound isPlace front ?_)
    rw [sameHot, isCutoff]
    exact eligible_order isParent isEligible
  · obtain ⟨child, child'⟩ := child_of_reference isReference
    obtain ⟨target, inTarget, isId, sameOrder⟩ := (joined _ row inTable).reference r isReference
    have isThere : ArchivalPasses.Eligible start.hot cutoff (targetOf pass.table) r :=
      ⟨target, inTarget, eligible_of_parent child child' sameOrder isEligible, isId⟩
    by_cases isSelf : targetOf pass.table = pass.table
    · rw [isSelf] at isThere ⊢
      rcases prior r isReference isSelf with stored | notLater
      · exact shrinks.stored _ _ stored
      rcases Nat.lt_or_ge pass.cursor r with ahead | upTo
      · -- Its number is the batch's own.
        have number := (mem_insertBatch_iff moved past inTable isEligible behind).1 inRows
        have least :=
          ((past.mem_iff r).1 (Finset.mem_filter.2 ⟨mem_eligibleIds.2 isThere, ahead⟩)).2
        obtain ⟨other, among, passes, rfl⟩ := isThere
        refine there other ?_
        rw [isBatch, mem_insertBatch_iff moved past among passes ahead]
        exact Nat.le_antisymm (notLater.trans number.le) least
      · refine shrinks.stored _ _ (stored_of_cursor sound isPlace behindAll upTo ?_)
        rwa [sameHot, isCutoff]
    · have isEarnings : pass.table = .agentEarnings := by
        revert isSelf
        cases pass.table <;> simp [targetOf]
      have front := front_of_deliveries inOrder isInsert isEarnings
      have isTarget : targetOf pass.table = .deliveries := by rw [isEarnings]; rfl
      rw [isTarget] at isThere ⊢
      refine shrinks.stored _ _ (stored_of_front sound isPlace front ?_)
      rwa [sameHot, isCutoff]

/-- The references within a table that the insert passes have to see to: to a row that is stored, or
whose batch comes no later. -/
def Orderly (cutoff : ℕ) (start : Site) : Prop :=
  ∀ t, Moved t → targetOf t = t → ∀ row ∈ (start.hot t).rows,
  eligible start.hot cutoff t row = true → ∀ r, referenceOf t row = some r →
    (Stored start t (rowId row) ∨ Stored start t r ∨
      insertedIn start.hot cutoff t r ≤ insertedIn start.hot cutoff t (rowId row)) ∧
      deletedIn start.hot cutoff t (rowId row) ≤ deletedIn start.hot cutoff t r

theorem orderly_of_aligned (joined : ∀ t, ∀ row ∈ (start.hot t).rows, Joined start.hot t row)
    (aligned : Aligned cutoff start.toSite) : Orderly cutoff start.toSite := by
  intro t moved isSelf row member isEligible r isReference
  cases t with
  | transactions =>
    exact ⟨aligned.inserted row member isEligible r isReference,
      aligned.deleted row member isEligible r isReference⟩
  | deliveries =>
    have older := (joined .deliveries row member).older rfl r isReference
    exact ⟨.inr (.inr (batchNumber_mono older)), batchNumber_mono (r := (· > ·)) older⟩
  | agentEarnings => cases isSelf
  | orders | orderItems | paymentSessions | paymentWebhookEvents | restaurantBalances
  | agentPresence | eventsOutbox => cases isReference

theorem stored_since (moving : Moving host cutoff start site)
    (stored : Stored start.toSite t id) : Stored site t id := by
  obtain ⟨row, found⟩ := Option.isSome_iff_exists.1 stored
  have there : (site.archive t).get (RowKey.id id) = some row :=
    Table.get_eq_some.2 ⟨moving.kept t row (Table.get_mem found), Table.get_key found⟩
  exact Option.isSome_iff_exists.2 ⟨row, there⟩

theorem intact_archive (orderly : Orderly cutoff start.toSite)
    (joined : ∀ t, ∀ row ∈ (start.hot t).rows, Joined start.hot t row)
    (lone : Lone host cutoff start w) (member : run ∈ w.runs)
    (effect : Effect host run w.toSite site') (intact : Intact w.archive) :
    Intact site'.archive := by
  have shrinks := effect.shrinks
  cases effect with
  | quiet _ archive => rwa [archive]
  | deletes pass ids _ isSite =>
    subst isSite
    exact intact
  | inserts pass rows table isPlace inserted isSite =>
    have isPass : passOf run.place = some pass := by rw [isPlace]; rfl
    obtain ⟨sound, isCutoff⟩ := lone.tracked.inYear.sound_of_passOf member isPass
    have counted := lone.counted run member
    have selected := lone.tracked.selected run member
    rw [isPlace] at selected
    have fits := sound.fits
    rw [isPlace] at fits
    have moved := moved_of_inOrder fits.2
    obtain ⟨orders, references⟩ := stored_of_intact intact
    have isTable : site'.archive pass.table = table := by
      rw [isSite]
      exact Function.update_self _ _ _
    have there : ∀ row ∈ rows, Stored site' pass.table (rowId row) := by
      intro row inBatch
      have isThere := inserted.there _ (List.mem_map_of_mem inBatch)
      rw [key_carried, key_eq moved] at isThere
      rwa [Stored, isTable]
    have old : ∀ t, ∀ row ∈ (w.archive t).rows,
        (∀ o, parentOf t row = some o → Stored site' .orders o) ∧
        ∀ r, referenceOf t row = some r → Stored site' (targetOf t) r := fun t row among =>
      ⟨fun o isParent => shrinks.stored _ _ (orders t row among o isParent),
        fun r isReference => shrinks.stored _ _ (references t row among r isReference)⟩
    have all : ∀ t, ∀ row ∈ (site'.archive t).rows,
        (∀ o, parentOf t row = some o → Stored site' .orders o) ∧
        ∀ r, referenceOf t row = some r → Stored site' (targetOf t) r := by
      intro t row among
      by_cases same : t = pass.table
      · subst same
        rw [isTable] at among
        rcases inserted.origin row among with before | ⟨new, absent⟩
        · exact old _ row before
        · obtain ⟨row, inBatch, rfl⟩ := List.mem_map.1 new
          rw [parentOf_carried, referenceOf_carried]
          have wasThere := selected.2 row inBatch
          refine stored_of_inserted sound ((sound.cutoff pass isPass).symm.trans isCutoff) counted
            isPlace joined shrinks there inBatch
            fun r isReference isSelf => ?_
          rcases (orderly _ moved isSelf row wasThere.1 wasThere.2 r isReference).1 with stored
            | stored | notLater
          · -- The row would have been there.
            have stored := stored_since lone.tracked.moving stored
            rw [Stored, ← key_eq moved, ← key_carried host.offset, absent] at stored
            cases stored
          · exact .inl (stored_since lone.tracked.moving stored)
          · exact .inr notLater
      · have others : site'.archive t = w.archive t := by
          rw [isSite]
          exact Function.update_of_ne same _ _
        rw [others] at among
        exact old t row among
    exact intact_of_stored (fun t row among => (all t row among).1) fun t row among =>
      (all t row among).2

/-! ### Deletions -/

theorem intact_hot (orderly : Orderly cutoff start.toSite)
    (joined : ∀ t, ∀ row ∈ (start.hot t).rows, Joined start.hot t row)
    (lone : Lone host cutoff start w) (member : run ∈ w.runs)
    (effect : Effect host run w.toSite site') (intact : Intact w.hot) : Intact site'.hot := by
  have shrinks := effect.shrinks
  cases effect with
  | quiet hot => rwa [hot]
  | inserts pass rows table _ _ isSite =>
    subst isSite
    exact intact
  | deletes pass ids isPlace isSite =>
    have isPass : passOf run.place = some pass := by rw [isPlace]; rfl
    obtain ⟨sound, isCutoff⟩ := lone.tracked.inYear.sound_of_passOf member isPass
    have isCutoff := (sound.cutoff pass isPass).symm.trans isCutoff
    have moving := lone.tracked.moving
    have counted := lone.counted run member
    have fits := sound.fits
    rw [isPlace] at fits counted
    have moved := moved_of_inOrder fits.2
    -- A row that is deleted is one of the batch, and was eligible.
    have deleted : ∀ t, ∀ row ∈ (w.hot t).rows, row ∉ (site'.hot t).rows →
        t = pass.table ∧ rowId row ∈ ids ∧ eligible start.hot cutoff t row = true := by
      intro t row inHot gone
      rw [isSite] at gone
      by_cases same : t = pass.table
      · subst same
        have among : rowId row ∈ ids := by
          by_contra spared
          exact gone (mem_deleteFrom.2 ⟨inHot, spared⟩)
        have selected := lone.tracked.selected run member
        rw [isPlace] at selected
        obtain ⟨old, wasThere, wasEligible, sameId⟩ := selected (rowId row) among
        rw [eq_of_rowId moved wasThere (moving.hot _ row inHot) sameId] at wasEligible
        exact ⟨rfl, among, wasEligible⟩
      · rw [hot_deleteFrom_ne same] at gone
        exact absurd inHot gone
    -- The tables in front hold nothing that was eligible.
    have emptied : ∀ t, t ∉ pass.table :: pass.later →
        ∀ row ∈ (w.hot t).rows, eligible start.hot cutoff t row = false := by
      intro t front row inHot
      by_contra wasEligible
      rw [Bool.not_eq_false, ← eligible_iff moving inHot, ← isCutoff] at wasEligible
      have isEmptied : Emptied (.delete pass ids) t := by
        simp only [Emptied]
        split
        · exact ⟨fits.1, fun later => front (List.mem_cons_of_mem _ later)⟩
        · exact ⟨fits.1, front⟩
      have isDoomed :=
        sound.emptied t (rowId row) trivial (isPlace ▸ isEmptied) ⟨row, inHot, wasEligible, rfl⟩
      rw [isPlace] at isDoomed
      rw [isDoomed.1] at front
      exact front List.mem_cons_self
    refine ⟨fun t row among o isParent => ?_, fun t row among r isReference => ?_⟩
    · have inHot := shrinks.hot t row among
      obtain ⟨order, orderInHot, isId⟩ := intact.order t row inHot o isParent
      refine ⟨order, ?_, isId⟩
      by_contra gone
      obtain ⟨isTable, _, passes⟩ := deleted .orders order orderInHot gone
      have child := child_of_parent isParent
      have isLast := last_of_orders fits.2 fits.1 isTable.symm
      have front : t ∉ pass.table :: pass.later := by
        rw [isLast, ← isTable, List.mem_singleton]
        rintro rfl
        exact absurd child (by decide)
      have none := emptied t front row inHot
      rw [eligible_child child, isParent, Bool.eq_false_iff, Ne, byParentOrder_iff] at none
      exact none ⟨order, moving.hot .orders order orderInHot, congrArg some isId, passes⟩
    · have inHot := shrinks.hot t row among
      obtain ⟨target, targetInHot, isId⟩ := intact.reference t row inHot r isReference
      refine ⟨target, ?_, isId⟩
      by_contra gone
      obtain ⟨isTable, inBatch, passes⟩ := deleted (targetOf t) target targetInHot gone
      obtain ⟨child, child'⟩ := child_of_reference isReference
      obtain ⟨target', wasThere, isId', sameOrder⟩ :=
        (joined t row (moving.hot t row inHot)).reference r isReference
      obtain rfl := eq_of_rowId (isTable ▸ moved) wasThere (moving.hot _ target targetInHot)
        (isId'.trans isId.symm)
      have wasEligible := eligible_of_parent child' child sameOrder.symm passes
      by_cases isSelf : targetOf t = t
      · -- The row is in the batch, or in one that has gone already.
        have same : t = pass.table := isSelf.symm.trans isTable
        subst same
        obtain ⟨k, past⟩ := lone.pastDeletes pass.table moved
        have inLeft : rowId row ∈ leftIds cutoff start.hot w.hot pass.table :=
          List.mem_toFinset.2 (List.mem_map_of_mem (List.mem_filter.2 ⟨inHot, wasEligible⟩))
        have least := ((past.mem_iff _).1 inLeft).2
        have notBefore :=
          (orderly _ moved isSelf row (moving.hot _ row inHot) wasEligible r isReference).2
        rw [isId, counted] at inBatch
        obtain ⟨other, otherInHot, passes', rfl⟩ := mem_deleteBatch inBatch
        rw [eligible_iff moving otherInHot] at passes'
        have number := (mem_deleteBatch_iff moving moved past otherInHot passes').1 inBatch
        have among' : rowId row ∈ deleteBatch w.hot cutoff pass.table :=
          (mem_deleteBatch_iff moving moved past inHot wasEligible).2
            (Nat.le_antisymm (notBefore.trans number.le) least)
        rw [isSite] at among
        rw [← counted] at among'
        exact (mem_deleteFrom.1 among).2 among'
      · have isEarnings : t = .agentEarnings := by
          revert isSelf
          cases t <;> simp [targetOf]
        subst isEarnings
        have front : TableName.agentEarnings ∉ pass.table :: pass.later := by
          have inOrder := fits.2
          rw [InOrder, fits.1, ← isTable] at inOrder
          rw [← isTable]
          have cut : TableName.deliveries :: pass.later <:+ PASS2_DELETE_ORDER.tail :=
            (List.suffix_cons_iff.1 inOrder).resolve_left fun whole => by cases whole
          exact fun isLater => absurd (cut.mem isLater) (by decide)
        rw [emptied _ front row inHot] at wasEligible
        cases wasEligible

/-- An event of an execution alone: a step of it, or one that leaves the databases as they are. -/
theorem effect_of_single (single : Single cutoff w e) (steps : w.next host e = some w') :
    w'.hot = w.hot ∧ w'.archive = w.archive ∨ ∃ run ∈ w.runs,
      Effect host run w.toSite w'.toSite := by
  cases e with
  | tick microseconds =>
    cases steps
    exact .inl ⟨rfl, rfl⟩
  | start =>
    cases steps
    exact .inl ⟨rfl, rfl⟩
  | live writes => exact single.1.1.elim
  | crash i =>
    obtain ⟨run, _, rfl⟩ := Option.map_eq_some_iff.1 steps
    exact .inl ⟨rfl, rfl⟩
  | step i outcome =>
    obtain ⟨run, run', found, acts, _⟩ := effect_step steps
    exact .inr ⟨run, List.mem_of_getElem? found, effect_next acts⟩

theorem intact_next (orderly : Orderly cutoff start.toSite)
    (joined : ∀ t, ∀ row ∈ (start.hot t).rows, Joined start.hot t row)
    (lone : Lone host cutoff start w) (intact : Intact w.hot ∧ Intact w.archive)
    (single : Single cutoff w e) (steps : w.next host e = some w') :
    Intact w'.hot ∧ Intact w'.archive := by
  rcases effect_of_single single steps with ⟨sameHot, sameArchive⟩ | ⟨run, member, effect⟩
  · rwa [sameHot, sameArchive]
  · exact ⟨intact_hot orderly joined lone member effect intact.1,
      intact_archive orderly joined lone member effect intact.2⟩

theorem neverTrips_of_aligned (positive : Positive start.hot) (idle : start.runs = [])
    (joined : ∀ t, ∀ row ∈ (start.hot t).rows, Joined start.hot t row)
    (intact : Intact start.archive) (aligned : Aligned cutoff start.toSite) :
    NeverTrips host cutoff start := by
  have orderly := orderly_of_aligned joined aligned
  have hot : Intact start.hot := by
    refine ⟨fun t row member => (joined t row member).order, fun t row member r isReference => ?_⟩
    obtain ⟨target, inTarget, isId, _⟩ := (joined t row member).reference r isReference
    exact ⟨target, inTarget, isId⟩
  intro w reached
  induction reached with
  | refl => exact ⟨hot, intact⟩
  | step reached single steps inductionHypothesis =>
    exact intact_next orderly joined (lone_of_reach positive idle reached)
      inductionHypothesis single steps

/-! ### Where a key is violated -/

theorem reach_of_goesOn {i n : ℕ} (year : cutoffIso w.now = cutoff)
    (goes : goesOn host i n w = some w') : Archival.Reach host (Single cutoff) w w' := by
  induction n generalizing w with
  | zero =>
    cases goes
    exact .refl
  | succ n inductionHypothesis =>
    rw [goesOn, List.replicate_succ, Machine.play, if_pos rfl] at goes
    obtain ⟨next, moves, rest⟩ := Option.bind_eq_some_iff.1 goes
    obtain ⟨run, run', _, acts, _⟩ := effect_step moves
    have sameTime := (effect_next acts).shrinks.now
    have single : Single cutoff w (.step i .done) :=
      ⟨⟨trivial, year⟩, fun impossible => by cases impossible⟩
    exact (Machine.Reach.step .refl single moves).trans
      (inductionHypothesis (by rw [sameTime, year]) rest)

/-- An execution that nothing stops gets to its end. -/
theorem finishes (positive : Positive start.hot) (idle : start.runs = [])
    (new : NewToArchive cutoff start) (clear : ClearOfArchive cutoff start)
    (runtime : 0 < host.maxRuntimeMin) (unlocked : start.holder = none)
    (year : cutoffIso start.now = cutoff) :
    ∃ w, Archival.Reach host (Single cutoff) start w ∧ Finished host cutoff start w.toSite := by
  have fixed : Fixed cutoff start .start := ⟨trivial, year⟩
  have begins : start.next host .start = some { start with
      runs := start.runs ++ [start.newRun] } := rfl
  have tracked := tracked_next (tracked_start positive idle) fixed begins
  obtain ⟨n, w, run, goes, tracked', member, ended⟩ :=
    comes_to_end clear runtime 0 start.newRun tracked year
    (by simp [idle]) rfl (fun begun => absurd rfl begun.1) fun _ => unlocked
  have first : Archival.Reach host (Single cutoff) start { start with
      runs := start.runs ++ [start.newRun] } :=
    .step .refl ⟨fixed, fun _ => idle⟩ begins
  exact ⟨w, first.trans (reach_of_goesOn year goes), finished_of_ended tracked' new member ended⟩

variable {row : RowOf t} {r : ℕ}

/-- A row that refers to one of a later batch is not inserted. -/
theorem not_stored_of_neverTrips (positive : Positive start.hot) (idle : start.runs = [])
    (never : NeverTrips host cutoff start) (new : NewToArchive cutoff start) (moved : Moved t)
    (isSelf : targetOf t = t) (wasThere : row ∈ (start.hot t).rows)
    (wasEligible : eligible start.hot cutoff t row = true) (refers : referenceOf t row = some r)
    (isTarget : ArchivalPasses.Eligible start.hot cutoff t r)
    (later : insertedIn start.hot cutoff t (rowId row) < insertedIn start.hot cutoff t r)
    (reached : Archival.Reach host (Single cutoff) start w) :
    ¬ Stored w.toSite t (rowId row) ∧ ¬ Stored w.toSite t r := by
  have isRow : ArchivalPasses.Eligible start.hot cutoff t (rowId row) :=
    ⟨row, wasThere, wasEligible, rfl⟩
  induction reached with
  | refl => exact ⟨new _ _ isRow, new _ _ isTarget⟩
  | @step w w' e reached single steps inductionHypothesis =>
    obtain ⟨notRow, notTarget⟩ := inductionHypothesis
    have intact := (never w' (reached.step single steps)).2
    have lone := lone_of_reach positive idle reached
    rcases effect_of_single single steps with ⟨_, same⟩ | ⟨run, member, effect⟩
    · rw [Stored, Stored, same]
      exact ⟨notRow, notTarget⟩
    cases effect with
    | quiet _ same =>
      rw [Stored, Stored, same]
      exact ⟨notRow, notTarget⟩
    | deletes pass ids _ isSite =>
      rw [isSite]
      exact ⟨notRow, notTarget⟩
    | inserts pass rows table isPlace inserted isSite =>
      by_cases isTable : t = pass.table
      · subst isTable
        have isPass : passOf run.place = some pass := by rw [isPlace]; rfl
        obtain ⟨sound, isCutoff⟩ := lone.tracked.inYear.sound_of_passOf member isPass
        have isCutoff := (sound.cutoff pass isPass).symm.trans isCutoff
        have counted := lone.counted run member
        rw [isPlace] at counted
        obtain ⟨sameHot, isBatch, k, past⟩ := counted
        have isArchive : w'.archive pass.table = table := by
          rw [isSite]
          exact Function.update_self _ _ _
        -- What is new in the archive is of the batch.
        have ofBatch : ∀ id, ¬ Stored w.toSite pass.table id → Stored w'.toSite pass.table id →
            ∃ old ∈ rows, rowId old = id ∧
            carried host.offset pass.table old ∈ (w'.archive pass.table).rows := by
          intro id before after
          obtain ⟨stored, among, rfl⟩ := exists_of_stored after
          rw [isArchive] at among ⊢
          rcases inserted.origin stored among with old | ⟨new', _⟩
          · exact absurd (stored_of_mem moved old) before
          · obtain ⟨old, inBatch, rfl⟩ := List.mem_map.1 new'
            exact ⟨old, inBatch, (rowId_carried _ _).symm, among⟩
        have behind : ∀ row ∈ rows, pass.cursor < rowId row := by
          rw [isBatch]
          exact fun row among => (mem_insertBatch among).2.2
        have numberOf : ∀ old ∈ rows, insertedIn start.hot cutoff pass.table (rowId old) = k := by
          intro old inBatch
          rw [isBatch] at inBatch
          obtain ⟨inTable, passes, ahead⟩ := mem_insertBatch inBatch
          exact (mem_insertBatch_iff moved past inTable passes ahead).1 inBatch
        have stillNot : ¬ Stored w'.toSite pass.table r := by
          intro stored
          obtain ⟨old, inBatch, rfl, _⟩ := ofBatch r notTarget stored
          -- The batch of the row has gone before.
          rw [numberOf old inBatch] at later
          refine notRow (stored_of_cursor sound isPlace behind ?_ (by rwa [sameHot, isCutoff]))
          by_contra ahead
          have least := ((past.mem_iff _).1
            (Finset.mem_filter.2 ⟨mem_eligibleIds.2 isRow, Nat.lt_of_not_le ahead⟩)).2
          exact Nat.not_lt.2 least later
        refine ⟨fun stored => ?_, stillNot⟩
        obtain ⟨old, inBatch, sameId, among⟩ := ofBatch _ notRow stored
        rw [isBatch] at inBatch
        obtain rfl := eq_of_rowId moved (mem_insertBatch inBatch).1 wasThere sameId
        rw [← referenceOf_carried host.offset] at refers
        have found := (stored_of_intact intact).2 _ _ among r refers
        rw [isSelf] at found
        exact stillNot found
      · have others : w'.archive t = w.archive t := by
          rw [isSite]
          exact Function.update_of_ne isTable _ _
        rw [Stored, Stored, others]
        exact ⟨notRow, notTarget⟩

theorem mem_leftIds (moving : Moving host cutoff start site) (moved : Moved t)
    (wasEligible : ArchivalPasses.Eligible start.hot cutoff t id)
    (isThere : ∃ row ∈ (site.hot t).rows, rowId row = id) :
    id ∈ leftIds cutoff start.hot site.hot t := by
  obtain ⟨old, wasThere, passes, isId⟩ := wasEligible
  obtain ⟨row, inHot, isId'⟩ := isThere
  obtain rfl := eq_of_rowId moved wasThere (moving.hot t row inHot) (isId.trans isId'.symm)
  exact List.mem_toFinset.2 (List.mem_map.2 ⟨old, List.mem_filter.2 ⟨inHot, passes⟩, isId⟩)

/-- A row that refers to one of an earlier batch is not deleted. -/
theorem stays_of_neverTrips (positive : Positive start.hot) (idle : start.runs = [])
    (never : NeverTrips host cutoff start) (moved : Moved t) (isSelf : targetOf t = t)
    (wasThere : row ∈ (start.hot t).rows) (wasEligible : eligible start.hot cutoff t row = true)
    (refers : referenceOf t row = some r) (isTarget : ArchivalPasses.Eligible start.hot cutoff t r)
    (earlier : deletedIn start.hot cutoff t r < deletedIn start.hot cutoff t (rowId row))
    (reached : Archival.Reach host (Single cutoff) start w) : row ∈ (w.hot t).rows := by
  induction reached with
  | refl => exact wasThere
  | @step w w' e reached single steps inductionHypothesis =>
    have intact := (never w reached).1
    have lone := lone_of_reach positive idle reached
    have moving := lone.tracked.moving
    rcases effect_of_single single steps with ⟨same, _⟩ | ⟨run, member, effect⟩
    · rwa [same]
    cases effect with
    | quiet same => rwa [same]
    | inserts pass rows table _ _ isSite => rwa [isSite]
    | deletes pass ids isPlace isSite =>
      rw [isSite]
      by_cases isTable : t = pass.table
      · subst isTable
        refine mem_deleteFrom.2 ⟨inductionHypothesis, fun inBatch => ?_⟩
        have counted := lone.counted run member
        rw [isPlace] at counted
        rw [counted] at inBatch
        obtain ⟨k, past⟩ := lone.pastDeletes pass.table moved
        rw [(mem_deleteBatch_iff moving moved past inductionHypothesis wasEligible).1
          inBatch] at earlier
        -- What it refers to is there still, in no earlier batch.
        have isThere := intact.reference _ row inductionHypothesis r refers
        rw [isSelf] at isThere
        exact Nat.not_lt.2
          ((past.mem_iff r).1 (mem_leftIds moving moved isTarget isThere)).2 earlier
      · rw [hot_deleteFrom_ne isTable]
        exact inductionHypothesis

theorem aligned_of_neverTrips (positive : Positive start.hot) (idle : start.runs = [])
    (joined : ∀ t, ∀ row ∈ (start.hot t).rows, Joined start.hot t row)
    (never : NeverTrips host cutoff start) (new : NewToArchive cutoff start)
    (clear : ClearOfArchive cutoff start) (runtime : 0 < host.maxRuntimeMin)
    (unlocked : start.holder = none) (year : cutoffIso start.now = cutoff) :
    Aligned cutoff start.toSite := by
  obtain ⟨w, reached, finished⟩ := finishes positive idle new clear runtime unlocked year
  have isRefund : ∀ charge ∈ (start.hot .transactions).rows,
      eligible start.hot cutoff .transactions charge = true →
      ∀ refund, Transaction.refundedPaymentId charge = some refund →
      ArchivalPasses.Eligible start.hot cutoff .transactions refund := by
    intro charge member isEligible refund refers
    obtain ⟨target, inTarget, isId, sameOrder⟩ :=
      (joined .transactions charge member).reference refund refers
    exact ⟨target, inTarget, eligible_of_parent (by decide) (by decide) sameOrder isEligible, isId⟩
  refine ⟨fun charge member isEligible refund refers => .inr (.inr ?_),
    fun charge member isEligible refund refers => ?_⟩
  · by_contra later
    have notStored := not_stored_of_neverTrips (t := .transactions) positive idle never
      new (by decide) rfl member isEligible refers
      (isRefund charge member isEligible refund refers) (Nat.lt_of_not_le later) reached
    refine notStored.1 ?_
    have carriedThere :=
      (finished.archive .transactions _).2 (.inr ⟨charge, member, isEligible, rfl⟩)
    have stored : Stored w.toSite .transactions _ := stored_of_mem (by decide) carriedThere
    rwa [rowId_carried] at stored
  · by_contra earlier
    have stays := stays_of_neverTrips (t := .transactions) positive idle never (by decide) rfl
      member isEligible refers
      (isRefund charge member isEligible refund refers) (Nat.lt_of_not_le earlier) reached
    rw [((finished.hot _ charge).1 stays).2] at isEligible
    cases isEligible

end

end SwiftBite.Verified.ArchivalKeys
