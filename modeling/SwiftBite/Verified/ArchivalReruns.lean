import SwiftBite.Verified.ArchivalLoss

/-! # Archival, killed and run again

However often executions are cut off, an execution that gets to its end leaves what one
execution would have left that nothing disturbed.  The invariant is that a family stays
together in hot until its order goes, and the order goes last.
-/

set_option autoImplicit false

namespace SwiftBite.Verified.ArchivalReruns

open Store Archival ArchivalRows ArchivalPasses ArchivalLoss

/-- No service writes, and the cutoff stays the same. -/
def Fixed (cutoff : ℕ) (w : World) (e : Event) : Prop := Unwritten e ∧ cutoffIso w.now = cutoff

/-- A row that was eligible by its parent order has it still. -/
def FamiliesTogether (cutoff : ℕ) (hot : Database) (site : Site) : Prop :=
  ∀ t, Child t → ∀ row ∈ (site.hot t).rows, byParentOrder hot cutoff (parentOf t row) = true →
    ∃ order ∈ (site.hot .orders).rows, some (Order.id order) = parentOf t row

/-- Hot has the rows that were not eligible, the archive has what it had and the rows that were. -/
structure Finished (host : Host) (cutoff : ℕ) (start : World) (site : Site) : Prop where
  hot : ∀ t row, row ∈ (site.hot t).rows ↔
    row ∈ (start.hot t).rows ∧ eligible start.hot cutoff t row = false
  archive : ∀ t row, row ∈ (site.archive t).rows ↔ row ∈ (start.archive t).rows ∨
    ∃ old ∈ (start.hot t).rows, eligible start.hot cutoff t old = true ∧
    row = carried host.offset t old

/-- The archive has no row under the id of a row that is to go there. -/
def NewToArchive (cutoff : ℕ) (start : World) : Prop :=
  ∀ t id, Eligible start.hot cutoff t id → ¬ Stored start.toSite t id

/-- Nor one with the same entry in another unique index. -/
def ClearOfArchive (cutoff : ℕ) (start : World) : Prop :=
  ∀ t, ∀ row ∈ (start.hot t).rows, eligible start.hot cutoff t row = true →
  ∀ other ∈ (start.archive t).rows, Table.clashes other row = false

/-! ## Rows on the move -/

/-- What the executions have selected was eligible from the start. -/
def Selected (cutoff : ℕ) (hot : Database) : Place → Prop
  | .insert pass rows =>
    rows.Nodup ∧ ∀ row ∈ rows, row ∈ (hot pass.table).rows ∧
      eligible hot cutoff pass.table row = true
  | .delete pass ids => ∀ id ∈ ids, Eligible hot cutoff pass.table id
  | _ => True

/-- Where the rows of the start are. -/
structure Moving (host : Host) (cutoff : ℕ) (start : World) (site : Site) : Prop where
  hot : ∀ t, ∀ row ∈ (site.hot t).rows, row ∈ (start.hot t).rows
  spared : ∀ t, ∀ row ∈ (start.hot t).rows, eligible start.hot cutoff t row = false →
    row ∈ (site.hot t).rows
  families : ∀ t, Child t → ∀ row ∈ (site.hot t).rows, eligible start.hot cutoff t row = true →
    eligible site.hot cutoff t row = true
  kept : ∀ t, ∀ row ∈ (start.archive t).rows, row ∈ (site.archive t).rows
  origin : ∀ t, ∀ row ∈ (site.archive t).rows, row ∈ (start.archive t).rows ∨
    ∃ old ∈ (start.hot t).rows, eligible start.hot cutoff t old = true ∧
    row = carried host.offset t old

section

variable {host : Host} {cutoff : ℕ} {start w w' : World} {site site' : Site} {run run' : Run}
  {outcome : Outcome}

theorem eq_of_rowId {db : Database} {t : TableName} (moved : Moved t) {row row' : RowOf t}
    (member : row ∈ (db t).rows) (member' : row' ∈ (db t).rows)
    (same : rowId row = rowId row') : row = row' :=
  Table.eq_of_key member member' (by rw [key_eq moved, key_eq moved, same])

theorem nodup_insertBatch (db : Database) (cutoff : ℕ) (t : TableName) (cursor : ℕ) :
    (insertBatch db cutoff t cursor).Nodup :=
  ((List.perm_insertionSort _ _).nodup_iff.2 ((db t).rows_nodup.filter _)).sublist
    (List.take_sublist _ _)

theorem selected_of_ne {hot : Database} {place : Place}
    (none : (∀ pass rows, place ≠ .insert pass rows) ∧ ∀ pass ids, place ≠ .delete pass ids) :
    Selected cutoff hot place := by
  cases place with
  | insert pass rows => exact absurd rfl (none.1 pass rows)
  | delete pass ids => exact absurd rfl (none.2 pass ids)
  | _ => trivial

/-- A batch is taken from what was there at the start. -/
theorem selected_next (hot : ∀ t, ∀ row ∈ (site.hot t).rows, row ∈ (start.hot t).rows)
    (sameCutoff : ∀ pass, passOf run.place = some pass → pass.cutoff = cutoff)
    (steps : run.next host site outcome = some (site', run')) :
    Selected cutoff start.hot run'.place := by
  obtain ⟨pass, isPlace, _, isBatch⟩ | elsewhere := batch_of_next steps
  · have isCutoff := sameCutoff pass (by rw [isPlace]; rfl)
    rw [isCutoff] at isBatch
    rcases isBatch with ⟨_, isNext⟩ | ⟨_, isNext⟩ <;> rw [isNext]
    · refine ⟨nodup_insertBatch _ _ _ _, fun row member => ?_⟩
      obtain ⟨inTable, isEligible, _⟩ := mem_insertBatch member
      exact ⟨hot _ row inTable, eligible_mono (hot .orders) isEligible⟩
    · intro id member
      obtain ⟨row, inTable, isEligible, isId⟩ := mem_deleteBatch member
      exact ⟨row, hot _ row inTable, eligible_mono (hot .orders) isEligible, isId⟩
  · exact selected_of_ne elsewhere

/-- A batch that is deleted leaves no orphans. -/
theorem families_of_delete {pass : Pass} {ids : List ℕ} (moving : Moving host cutoff start site)
    (sound : Sound (fun _ => True) site run) (isCutoff : cutoffOf run = cutoff)
    (isPlace : run.place = .delete pass ids) {t : TableName} (child : Child t) {row : RowOf t}
    (member : row ∈ (site.hot t).rows) (wasEligible : eligible start.hot cutoff t row = true) :
    eligible (site.deleteFrom pass.table ids).hot cutoff t row = true := by
  have stillEligible := moving.families t child row member wasEligible
  by_cases ofOrders : pass.table = .orders
  · -- everything else is gone by now
    have fits := sound.fits
    rw [isPlace] at fits
    have isLast := last_of_orders fits.2 fits.1 ofOrders
    have notOrders : t ≠ .orders :=
      fun isOrders => by rw [isOrders] at child; exact absurd child (by decide)
    have isEmptied : Emptied run.place t := by
      rw [isPlace]
      simp [Emptied, EmptiedAfter, EmptiedBy, fits.1, isLast, ofOrders, notOrders]
    have isDoomed :=
      sound.emptied t (rowId row) trivial isEmptied ⟨row, member, isCutoff ▸ stillEligible, rfl⟩
    rw [isPlace] at isDoomed
    exact absurd (isDoomed.1.trans ofOrders) notOrders
  · rw [eligible_child child, byParentOrder_iff] at stillEligible ⊢
    simpa [Site.deleteFrom, Ne.symm ofOrders] using stillEligible

theorem moving_effect (moving : Moving host cutoff start site)
    (selected : Selected cutoff start.hot run.place)
    (sound : ∀ pass ids, run.place = .delete pass ids →
      Sound (fun _ => True) site run ∧ cutoffOf run = cutoff)
    (effect : Effect host run site site') : Moving host cutoff start site' := by
  have shrinks := effect.shrinks
  have hot : ∀ t, ∀ row ∈ (site'.hot t).rows, row ∈ (start.hot t).rows :=
    fun t row member => moving.hot t row (shrinks.hot t row member)
  cases effect with
  | quiet sameHot sameArchive _ =>
    obtain ⟨_, spared, families, kept, origin⟩ := moving
    rw [← sameHot] at spared families
    rw [← sameArchive] at kept origin
    exact ⟨hot, spared, families, kept, origin⟩
  | inserts pass rows table isPlace inserted isSite =>
    subst isSite
    rw [isPlace] at selected
    refine ⟨hot, moving.spared, moving.families, fun t row member => ?_, fun t row member => ?_⟩
    · have there := moving.kept t row member
      by_cases same : t = pass.table
      · subst same
        simpa [Site.insertInto] using inserted.kept row there
      · simpa [Site.insertInto, same] using there
    · by_cases same : t = pass.table
      · subst same
        simp only [Site.insertInto, Function.update_self] at member
        rcases inserted.origin row member with before | ⟨new, _⟩
        · exact moving.origin _ row before
        · -- A new row of the archive is the copy of one that was selected in hot.
          obtain ⟨old, inBatch, rfl⟩ := List.mem_map.1 new
          obtain ⟨wasThere, wasEligible⟩ := selected.2 old inBatch
          exact .inr ⟨old, wasThere, wasEligible, rfl⟩
      · exact moving.origin t row (by simpa [Site.insertInto, same] using member)
  | deletes pass ids isPlace isSite =>
    subst isSite
    obtain ⟨sound, isCutoff⟩ := sound pass ids isPlace
    rw [isPlace] at selected
    refine ⟨hot, fun t row member notEligible => ?_, fun t child row member wasEligible => ?_,
      moving.kept, moving.origin⟩
    · have there := moving.spared t row member notEligible
      by_cases same : t = pass.table
      · subst same
        simp only [Site.deleteFrom, Function.update_self]
        refine Table.mem_delete.2 ⟨there, decide_eq_false fun among => ?_⟩
        -- Only rows that were eligible are deleted, and ids are unique.
        obtain ⟨old, wasThere, wasEligible, sameId⟩ := selected (rowId row) among
        rw [eq_of_rowId (moved_of_eligible wasEligible) wasThere member sameId,
          notEligible] at wasEligible
        cases wasEligible
      · simpa [Site.deleteFrom, same] using there
    · exact families_of_delete moving sound isCutoff isPlace child
        (shrinks.hot t row member) wasEligible

end

/-! ## Runs -/

/-- What holds in every state of a run. -/
structure Tracked (host : Host) (cutoff : ℕ) (start w : World) : Prop where
  inYear : InYear (fun _ => True) host cutoff w
  moving : Moving host cutoff start w.toSite
  selected : ∀ run ∈ w.runs, Selected cutoff start.hot run.place
  noneLost : NoneLost start.hot w.toSite

section

variable {host : Host} {cutoff : ℕ} {start w w' : World} {e : Event}

theorem tracked_start (positive : Positive start.hot) (none : start.runs = []) :
    Tracked host cutoff start start where
  inYear := inYear_start positive none
  moving := ⟨fun _ _ member => member, fun _ _ member _ => member, fun _ _ _ _ passes => passes,
    fun _ _ member => member, fun _ _ => .inl⟩
  selected run member := by
    rw [none] at member
    exact absurd member List.not_mem_nil
  noneLost _ _ _ member := .inl member

theorem Tracked.sound_of_delete (tracked : Tracked host cutoff start w) {run : Run}
    (member : run ∈ w.runs) (pass : Pass) (ids : List ℕ) (isPlace : run.place = .delete pass ids) :
    Sound (fun _ => True) w.toSite run ∧ cutoffOf run = cutoff := by
  have isPass : passOf run.place = some pass := by rw [isPlace]; rfl
  obtain ⟨sound, isCutoff⟩ := tracked.inYear.sound_of_passOf member isPass
  exact ⟨sound, (sound.cutoff pass isPass).symm.trans isCutoff⟩

theorem tracked_next (tracked : Tracked host cutoff start w) (fixed : Fixed cutoff w e)
    (steps : w.next host e = some w') : Tracked host cutoff start w' := by
  refine ⟨inYear_next tracked.inYear fixed.2 (noneBehind_of_unwritten _ fixed.1) steps, ?_, ?_,
    noneLost_next tracked.noneLost (archivedFirst_of_progress tracked.inYear.progress)
      fixed.1 steps⟩
  · cases e with
    | tick microseconds =>
      cases steps; exact ⟨tracked.moving.hot, tracked.moving.spared, tracked.moving.families,
        tracked.moving.kept, tracked.moving.origin⟩
    | start => cases steps; exact tracked.moving
    | live writes => exact fixed.1.elim
    | crash i =>
      obtain ⟨run, _, rfl⟩ := Option.map_eq_some_iff.1 steps
      exact tracked.moving
    | step i outcome =>
      obtain ⟨run, run', found, acts, _⟩ := effect_step steps
      have member := List.mem_of_getElem? found
      -- The state moves only by batches whose rows were selected in it.
      exact moving_effect tracked.moving (tracked.selected run member)
        (tracked.sound_of_delete member) (effect_next acts)
  · cases e with
    | tick microseconds => cases steps; exact tracked.selected
    | start =>
      cases steps
      intro run member
      rcases List.mem_append.1 member with old | new
      · exact tracked.selected run old
      · rw [List.mem_singleton.1 new]
        trivial
    | live writes => exact fixed.1.elim
    | crash i =>
      obtain ⟨run, _, rfl⟩ := Option.map_eq_some_iff.1 steps
      intro run' member
      rcases List.mem_or_eq_of_mem_set member with old | rfl
      · exact tracked.selected run' old
      · trivial
    | step i outcome =>
      obtain ⟨run, run', found, acts, isNext⟩ := effect_step steps
      rw [isNext]
      intro run'' member
      rcases List.mem_or_eq_of_mem_set member with old | rfl
      · exact tracked.selected run'' old
      · exact selected_next tracked.moving.hot
          (fun pass isPass =>
          (tracked.inYear.sound_of_passOf (List.mem_of_getElem? found) isPass).2) acts

theorem tracked_of_reach (positive : Positive start.hot) (none : start.runs = [])
    (reached : Archival.Reach host (Fixed cutoff) start w) : Tracked host cutoff start w :=
  reached.invariant (tracked_start positive none) fun _ _ _ tracked fixed steps =>
    tracked_next tracked fixed steps

theorem familiesTogether_of_tracked (tracked : Tracked host cutoff start w) :
    FamiliesTogether cutoff start.hot w.toSite := by
  intro t child row member wasEligible
  have stillEligible :=
    tracked.moving.families t child row member (by rw [eligible_child child, wasEligible])
  rw [eligible_child child, byParentOrder_iff] at stillEligible
  obtain ⟨order, inHot, isParent, _⟩ := stillEligible
  exact ⟨order, inHot, isParent⟩

/-- The execution has come to its end. -/
def Ended (run : Run) : Prop := run.place = .ended ∧ run.whole = true

theorem finished_of_ended (tracked : Tracked host cutoff start w) (new : NewToArchive cutoff start)
    {run : Run} (member : run ∈ w.runs) (ended : Ended run) :
    Finished host cutoff start w.toSite := by
  obtain ⟨isPlace, whole⟩ := ended
  have isCutoff := tracked.inYear.oneCutoff run member whole (by simp [Begun, isPlace])
  have sound : Sound (fun _ => True) w.toSite run := by
    rcases tracked.inYear.progress.runs run member with sound | cut
    · exact sound
    · rw [cut.whole] at whole
      cases whole
  -- An uncut execution has emptied every table of what is eligible.
  have empty : ∀ t id, ¬ Eligible w.hot cutoff t id := fun t id isEligible => by
    have isDoomed := sound.emptied t id trivial (by rw [isPlace]; trivial) (isCutoff ▸ isEligible)
    rw [isPlace] at isDoomed
    exact isDoomed
  -- A child is eligible through its order, which was deleted after it.
  have gone : ∀ t, ∀ row ∈ (w.hot t).rows, eligible start.hot cutoff t row = false :=
    fun t row inHot => by
    by_contra wasEligible
    rw [Bool.not_eq_false] at wasEligible
    refine empty t (rowId row) ⟨row, inHot, ?_, rfl⟩
    by_cases child : Child t
    · exact tracked.moving.families t child row inHot wasEligible
    · cases t <;> first | exact wasEligible | exact absurd (by decide) child
  refine ⟨fun t row => ⟨fun inHot => ⟨tracked.moving.hot t row inHot, gone t row inHot⟩,
    fun before => tracked.moving.spared t row before.1 before.2⟩,
    fun t row => ⟨tracked.moving.origin t row, ?_⟩⟩
  rintro (before | ⟨old, wasThere, wasEligible, rfl⟩)
  · exact tracked.moving.kept t row before
  · have moved := moved_of_eligible wasEligible
    rcases tracked.noneLost t moved old wasThere with inHot | stored
    · rw [gone t old inHot] at wasEligible
      cases wasEligible
    · obtain ⟨row, found⟩ := Option.isSome_iff_exists.1 stored
      have isId : rowId row = rowId old := by
        have sameKey := Table.get_key found
        rw [key_eq moved] at sameKey
        exact RowKey.id.inj sameKey
      rcases tracked.moving.origin t row (Table.get_mem found) with before
        | ⟨old', wasThere', wasEligible', rfl⟩
      · exact absurd (isId ▸ stored_of_mem moved before)
          (new t (rowId old) ⟨old, wasThere, wasEligible, rfl⟩)
      · rw [rowId_carried] at isId
        rw [← eq_of_rowId moved wasThere' wasThere isId]
        exact Table.get_mem found

end

/-! ## An execution that nothing stops -/

/-- How many rows are left for a pass. -/
def remaining (db : Database) (pass : Pass) : ℕ :=
  match pass.kind with
  | .insert =>
    ((db pass.table).rows.filter fun row =>
      eligible db pass.cutoff pass.table row && pass.cursor < rowId row).length
  | .delete => ((db pass.table).rows.filter (eligible db pass.cutoff pass.table)).length

/-- How far the place is from the end, in passes. -/
def ahead : Place → ℕ
  | .acquiring => 19
  | .acquired => 18
  | .tables .insert left => left.length + 10
  | .tables .delete left => left.length + 2
  | .loop pass | .fetch pass | .insert pass _ | .delete pass _ | .renew pass _ | .renewing pass _
  | .renewed pass _ =>
    match pass.kind with
    | .insert => pass.later.length + 10
    | .delete => pass.later.length + 2
  | .releasing => 1
  | .ended => 0

/-- How far it is from the end of its pass, in steps. -/
def rest (site : Site) : Place → ℕ
  | .loop pass => 8 * remaining site.hot pass + 4
  | .fetch pass => 8 * remaining site.hot pass + 3
  | .insert pass rows => 8 * remaining site.hot (pass.inserted rows) + 8
  | .delete pass ids => 8 * remaining (site.deleteFrom pass.table ids).hot (pass.deleted ids) + 8
  | .renew pass _ => 8 * remaining site.hot pass + 7
  | .renewing pass _ => 8 * remaining site.hot pass + 6
  | .renewed pass _ => 8 * remaining site.hot pass + 5
  | .acquiring | .acquired | .tables .. | .releasing | .ended => 0

def Nearer (site' : Site) (place' : Place) (site : Site) (place : Place) : Prop :=
  Prod.Lex (· < ·) (· < ·) (ahead place', rest site' place') (ahead place, rest site place)

section

variable {host : Host} {site : Site} {run : Run} {pass : Pass}

theorem length_filter_lt {α : Type} {p q : α → Bool} {xs : List α} {x : α}
    (weaker : ∀ y ∈ xs, p y = true → q y = true) (member : x ∈ xs) (passes : q x = true)
    (fails : p x = false) : (xs.filter p).length < (xs.filter q).length := by
  have both : xs.filter p = (xs.filter q).filter p := by
    rw [List.filter_filter]
    refine List.filter_congr fun y isThere => ?_
    cases isHeld : p y with
    | true => rw [weaker y isThere isHeld, Bool.and_self]
    | false => rw [Bool.false_and]
  rw [both, List.length_filter_lt_length_iff_exists]
  exact ⟨x, List.mem_filter.2 ⟨member, passes⟩, by simp [fails]⟩

theorem remaining_inserted {row : RowOf pass.table} {rows : List (RowOf pass.table)}
    (isInsert : pass.kind = .insert)
    (isBatch : insertBatch site.hot pass.cutoff pass.table pass.cursor = row :: rows) :
    remaining site.hot (pass.inserted (row :: rows)) < remaining site.hot pass := by
  have notEmpty : row :: rows ≠ [] := List.cons_ne_nil _ _
  have isLast : (row :: rows).getLast notEmpty ∈
      insertBatch site.hot pass.cutoff pass.table pass.cursor := by
    rw [isBatch]
    exact List.getLast_mem notEmpty
  obtain ⟨inTable, isEligible, after⟩ := mem_insertBatch isLast
  -- the cursor goes to the last row of the batch
  have cursor : (pass.inserted (row :: rows)).cursor = rowId ((row :: rows).getLast notEmpty) := by
    rw [Pass.inserted, List.getLast?_eq_some_getLast notEmpty]
    rfl
  simp only [remaining, isInsert, show (pass.inserted (row :: rows)).kind =
    .insert from isInsert, cursor]
  refine length_filter_lt
    (fun other _ passes => ?_) inTable (by simp [isEligible, after]) (by simp [Pass.inserted])
  simp only [Pass.inserted, Bool.and_eq_true, decide_eq_true_eq] at passes ⊢
  exact ⟨passes.1, after.trans (of_decide_eq_true passes.2)⟩

theorem remaining_deleted {id : ℕ} {ids : List ℕ} (isDelete : pass.kind = .delete)
    (isBatch : deleteBatch site.hot pass.cutoff pass.table = id :: ids) :
    remaining (site.deleteFrom pass.table (id :: ids)).hot (pass.deleted (id :: ids)) <
      remaining site.hot pass := by
  obtain ⟨row, inTable, isEligible, isId⟩ := mem_deleteBatch (isBatch ▸ List.mem_cons_self)
  simp only [remaining, isDelete, Pass.deleted, Site.deleteFrom, Function.update_self, Table.delete,
    List.filter_filter]
  refine length_filter_lt (fun other _ passes => ?_) inTable isEligible (by simp [isId])
  rw [Bool.and_eq_true] at passes
  exact eligible_mono (fun order => mem_of_deleteFrom) passes.1

theorem nearer_of_ahead {site' : Site} {place place' : Place} (less : ahead place' < ahead place) :
    Nearer site' place' site place :=
  Prod.Lex.left _ _ less

theorem nearer_of_rest {site' : Site} {place place' : Place} (same : ahead place' = ahead place)
    (less : rest site' place' < rest site place) : Nearer site' place' site place := by
  rw [Nearer, same]
  exact Prod.Lex.right _ less

theorem ahead_tables (pass : Pass) : ahead (.tables pass.kind pass.later) = ahead (.loop pass) := by
  cases kind : pass.kind <;> simp [ahead, kind]

/-- The end of a pass is nearer than every place in it. -/
theorem nearer_tables {site' : Site} {place : Place} (same : ahead place = ahead (.loop pass))
    (pos : 0 < rest site place) : Nearer site' (.tables pass.kind pass.later) site place :=
  nearer_of_rest ((ahead_tables pass).trans same.symm) pos

theorem whole_fetchStep (site : Site) (run : Run) (pass : Pass) :
    (run.fetchStep site .done pass).whole = run.whole := by
  unfold Run.fetchStep
  rw [if_neg (fun different => different rfl)]
  split <;> split <;> simp

/-- One step of an execution within its budget that nothing stops. -/
theorem advances (whole : run.whole = true) (inTime : Begun run → run.exceeded host site = false)
    (free : run.place = .acquiring → site.holder = none)
    (inserts : ∀ pass rows, run.place = .insert pass rows → ∃ table,
      insertRows (rows.map (carried host.offset pass.table)) (site.archive pass.table) = some table)
    (notEnded : run.place ≠ .ended) :
    ∃ site' run', run.next host site .done = some (site', run') ∧ run'.whole = true ∧
    run'.place ≠ .acquiring ∧
      Nearer site' run'.place site run.place := by
  unfold Run.next
  cases isPlace : run.place with
  | acquiring =>
    rw [free isPlace]
    exact ⟨_, _, rfl, whole, by simp, nearer_of_ahead (by simp [ahead])⟩
  | acquired =>
    exact ⟨_, _, rfl, whole, by simp, nearer_of_ahead (by simp [ahead, PASS1_INSERT_ORDER])⟩
  | tables kind left =>
    have inTime := inTime (by simp [Begun, isPlace])
    cases left with
    | nil =>
      cases kind <;> exact ⟨_, _, rfl, whole,
        by simp [Run.behind], nearer_of_ahead (by simp [ahead, Run.behind, PASS2_DELETE_ORDER])⟩
    -- The budget lasts, so the execution enters the next table.
    | cons table later =>
      dsimp only
      rw [if_neg (by rw [inTime]; exact Bool.false_ne_true)]
      refine ⟨_, _, rfl, whole, by simp, nearer_of_ahead ?_⟩
      cases kind <;> simp [ahead]
  | loop pass =>
    have inTime := inTime (by simp [Begun, isPlace])
    dsimp only
    rw [if_neg (by rw [inTime]; exact Bool.false_ne_true)]
    exact ⟨_, _, rfl, whole, by simp, nearer_of_rest rfl (by simp [rest])⟩
  | fetch pass =>
    dsimp only
    refine ⟨_, _, rfl, by rw [whole_fetchStep, whole], ?_⟩
    rw [Run.fetchStep, if_neg (fun different => different rfl)]
    cases kind : pass.kind with
    | insert =>
      dsimp only
      split
      next =>
        rw [Run.place_leave]
        exact ⟨by simp, nearer_tables rfl (by simp [rest])⟩
      next row rows isBatch =>
        -- The rows of the batch are behind the cursor from now on.
        have fewer := remaining_inserted kind isBatch
        refine ⟨by simp, nearer_of_rest rfl ?_⟩
        simp only [Run.place_goTo, rest]
        omega
    | delete =>
      dsimp only
      split
      next =>
        rw [Run.place_leave]
        exact ⟨by simp, nearer_tables rfl (by simp [rest])⟩
      next id ids isBatch =>
        -- The rows of the batch leave hot.
        have fewer := remaining_deleted kind isBatch
        refine ⟨by simp, nearer_of_rest rfl ?_⟩
        simp only [Run.place_goTo, rest]
        omega
  | insert pass rows =>
    obtain ⟨table, inserts⟩ := inserts pass rows isPlace
    simp only [Run.insertStep, inserts]
    exact ⟨_, _, rfl, whole,
      by simp, nearer_of_rest rfl (by simp [rest, remaining, Site.insertInto])⟩
  | delete pass ids => exact ⟨_, _, rfl, whole, by simp, nearer_of_rest rfl (by simp [rest])⟩
  | renew pass isLast =>
    dsimp only
    split
    next =>
      refine ⟨_, _, rfl, by simpa using whole, ?_⟩
      cases isLast <;> rw [Run.place_resume]
      · exact ⟨by simp, nearer_of_rest rfl (by simp [rest])⟩
      · exact ⟨by simp, nearer_tables rfl (by simp [rest])⟩
    next => exact ⟨_, _, rfl, whole, by simp, nearer_of_rest rfl (by simp [rest])⟩
  | renewing pass isLast => exact ⟨_, _, rfl, whole, by simp, nearer_of_rest rfl (by simp [rest])⟩
  | renewed pass isLast =>
    refine ⟨_, _, rfl, by simpa using whole, ?_⟩
    cases isLast <;> rw [Run.place_resume]
    · exact ⟨by simp, nearer_of_rest rfl (by simp [rest])⟩
    · exact ⟨by simp, nearer_tables rfl (by simp [rest])⟩
  | releasing => exact ⟨_, _, rfl, whole, by simp, nearer_of_ahead (by simp [ahead])⟩
  | ended => exact absurd isPlace notEnded

end

section

variable {host : Host} {cutoff : ℕ} {start w : World} (clear : ClearOfArchive cutoff start)

include clear in
/-- The rows of a batch are in nobody's way. -/
theorem Tracked.inserts (tracked : Tracked host cutoff start w) {run : Run} (member : run ∈ w.runs)
    (pass : Pass) (rows : List (RowOf pass.table)) (isPlace : run.place = .insert pass rows) :
    ∃ table, insertRows (rows.map (carried host.offset pass.table)) (w.archive pass.table) =
      some table := by
  have selected := tracked.selected run member
  rw [isPlace] at selected
  obtain ⟨nodup, selected⟩ := selected
  have apart : ∀ row ∈ rows, ∀ other ∈ (start.hot pass.table).rows, other ≠ row →
      Table.clashes other row = false :=
    fun row inRows other inTable different =>
      Table.not_clashes_of_apart
        ((start.hot pass.table).distinct.forall inTable (selected row inRows).1 different)
  refine exists_insertRows ?_ fun row' new other inArchive => ?_
  · rw [List.pairwise_map]
    refine nodup.imp_of_mem fun inRows inRows' different => ?_
    rw [clashes_carried]
    exact apart _ inRows' _ (selected _ inRows).1 different
  · obtain ⟨row, inRows, rfl⟩ := List.mem_map.1 new
    obtain ⟨inTable, isEligible⟩ := selected row inRows
    rcases tracked.moving.origin _ other inArchive with before | ⟨old, wasThere, _, rfl⟩
    · have free := clear _ row inTable isEligible other before
      rw [Table.clashes, ← key_carried host.offset row, ← uniques_carried host.offset row] at free
      exact .inr free
    · by_cases same : old = row
      · exact .inl (by rw [same])
      · rw [clashes_carried]
        exact .inr (apart row inRows old wasThere same)

/-- An execution that goes on alone, as far as `n` steps. -/
def goesOn (host : Host) (i n : ℕ) (w : World) : Option World :=
  Machine.play (World.next host) (fun _ _ => true) (List.replicate n (.step i .done)) w

include clear in
/-- An execution that nothing stops comes to its end. -/
theorem comes_to_end (runtime : 0 < host.maxRuntimeMin) {w : World} (i : ℕ) (run : Run)
    (tracked : Tracked host cutoff start w) (year : cutoffIso w.now = cutoff)
    (found : w.runs[i]? = some run) (whole : run.whole = true)
    (inTime : Begun run → run.exceeded host w.toSite = false)
    (free : run.place = .acquiring → w.holder = none) :
    ∃ n w' run', goesOn host i n w = some w' ∧ Tracked host cutoff start w' ∧ run' ∈ w'.runs ∧
    Ended run' := by
  have member := List.mem_of_getElem? found
  by_cases isEnd : run.place = .ended
  · exact ⟨0, w, run, rfl, tracked, member, isEnd, whole⟩
  · obtain ⟨site', run', steps, whole', isUnderWay, nearer⟩ :=
      advances whole inTime free (tracked.inserts clear member) isEnd
    have next : w.next host (.step i .done) = some ⟨site', w.runs.set i run'⟩ := by
      rw [World.next, found, Option.bind_some, steps]
      rfl
    have sameTime : site'.now = w.now := (effect_next steps).shrinks.now
    have found' : (w.runs.set i run')[i]? = some run' := by
      rw [List.getElem?_set_self (List.getElem?_eq_some_iff.1 found).1]
    have fixed : Fixed cutoff w (.step i .done) := ⟨trivial, year⟩
    have year' : cutoffIso site'.now = cutoff := by rw [sameTime, year]
    -- Time stands still meanwhile, so the budget lasts.
    have inTime' : Begun run' → run'.exceeded host site' = false := by
      intro begun
      rw [Run.exceeded, Site.dateNow, sameTime]
      rcases began_next steps whole' with ⟨_, ⟨_, began⟩ | acquired | ⟨begunBefore, began⟩⟩
      · rw [began, Site.dateNow, decide_eq_false_iff_not]
        omega
      · exact absurd acquired begun.2
      · rw [began]
        exact inTime begunBefore
    obtain ⟨n, w', run'', goes, reached, ended⟩ :=
      comes_to_end runtime i run' (tracked_next tracked fixed next) year' found' whole'
      inTime' fun impossible => absurd impossible isUnderWay
    refine ⟨n + 1, w', run'', ?_, reached, ended⟩
    rw [goesOn, List.replicate_succ, Machine.play, if_pos rfl, next]
    exact goes
termination_by (ahead run.place, rest w.toSite run.place)
decreasing_by exact nearer

end

/-! ## The result -/

/-- A new execution starts, and goes on alone for `n` steps. -/
def startsAndGoesOn (host : Host) (n : ℕ) (w : World) : Option World :=
  (w.next host .start).bind (goesOn host w.runs.length n)

/-- No row loses its parent order; an execution that gets to its end has moved all there was;
and one that finds the lock free, and is not stopped, gets there. -/
structure Restartable (host : Host) (cutoff : ℕ) (start : World) : Prop where
  together : ∀ w, Archival.Reach host (Fixed cutoff) start w →
    FamiliesTogether cutoff start.hot w.toSite
  finished : ∀ w, Archival.Reach host (Fixed cutoff) start w → ∀ run ∈ w.runs, Ended run →
    Finished host cutoff start w.toSite
  ends : ClearOfArchive cutoff start → 0 < host.maxRuntimeMin →
    ∀ w, Archival.Reach host (Fixed cutoff) start w → w.holder = none →
    cutoffIso w.now = cutoff →
    ∃ n w', startsAndGoesOn host n w = some w' ∧ Finished host cutoff start w'.toSite

theorem archival_can_be_killed_and_run_again (host : Host) (cutoff : ℕ) (start : World)
    (positive : Positive start.hot) (none : start.runs = []) (new : NewToArchive cutoff start) :
    Restartable host cutoff start where
  together _ reached := familiesTogether_of_tracked (tracked_of_reach positive none reached)
  finished _ reached _ member ended :=
    finished_of_ended (tracked_of_reach positive none reached) new member ended
  ends clear runtime w reached free year := by
    have fixed : Fixed cutoff w .start := ⟨trivial, year⟩
    have tracked := tracked_next (tracked_of_reach positive none reached) fixed rfl
    obtain ⟨n, w', run, goes, tracked', member, ended⟩ :=
      comes_to_end clear runtime w.runs.length w.newRun tracked year
      (by simp) rfl (fun begun => absurd rfl begun.1) fun _ => free
    exact ⟨n, w', goes, finished_of_ended tracked' new member ended⟩

/-- A dish of the order of 2025. -/
def oldItem : OrderItem := ⟨1, 1, 4, 2, 5000, "koshary", none, 10000, 1760000000000000⟩

/-- Two hours into 2026. -/
def newYearsDay : World where
  hot := (Database.empty.apply (.insert TableName.orders oldOrder : SqlWrite)).apply
    (.insert TableName.orderItems oldItem : SqlWrite)
  archive := Database.empty
  now := 1767232800000000
  lock := none
  runs := []

theorem positive_newYearsDay : Positive newYearsDay.hot := by
  intro t moved row member
  cases t with
  | orders =>
    have single : row = oldOrder := List.mem_singleton.1 member
    subst single
    decide
  | orderItems =>
    have single : row = oldItem := List.mem_singleton.1 member
    subst single
    decide
  | _ => exact absurd member List.not_mem_nil

theorem archival_on_new_years_day :
    ∃ n w', startsAndGoesOn ArchivalLoss.host n newYearsDay = some w' ∧
    Finished ArchivalLoss.host (cutoffIso newYearsDay.now) newYearsDay w'.toSite :=
  (archival_can_be_killed_and_run_again ArchivalLoss.host (cutoffIso newYearsDay.now) newYearsDay
    positive_newYearsDay rfl
    fun _ _ _ stored => nomatch stored).ends
    (fun _ _ _ _ _ none => absurd none List.not_mem_nil) (by decide) newYearsDay .refl rfl rfl

end SwiftBite.Verified.ArchivalReruns
