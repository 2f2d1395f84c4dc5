import SwiftBite.Verified.ArchivalLoss

/-! # Archival and the services

An execution copies a row when its insert pass comes to it, and deletes it much later.  The
copy is the row that is deleted as long as no service writes to what the archive already has,
or adds rows of an earlier year behind the insert passes of an execution that has still to
delete.  What is added when an execution has crashed or ended is left to the next one.
-/

set_option autoImplicit false

namespace SwiftBite.Verified.ArchivalUpdates

open Store Archival ArchivalRows ArchivalPasses

/-- A row that is in both databases under one id is the same in both. -/
def Faithful (offset : ℤ) (site : Site) : Prop :=
  ∀ t, Moved t → ∀ row ∈ (site.hot t).rows, Stored site t (rowId row) →
  (site.archive t).get (key row) = some (carried offset t row)

/-- The rows of a batch that is selected and not yet inserted are those of hot. -/
def BatchesFresh (w : World) : Prop :=
  ∀ run ∈ w.runs, ∀ pass rows, run.place = .insert pass rows → Moved pass.table →
    ∀ r ∈ rows, ∀ row ∈ (w.hot pass.table).rows, rowId row = rowId r → row = r

/-- A service changes no row that the archive has under its id or that a batch holds. -/
def Untouched (w : World) : Event → Prop
  | .live writes => ∀ t, Moved t → ∀ row ∈ (w.hot.applyAll writes t).rows, row ∈ (w.hot t).rows ∨
      ¬ Stored w.toSite t (rowId row) ∧ ∀ run ∈ w.runs, ¬ Pending run.place t (rowId row)
  | _ => True

/-- An execution that is over or has been cut short selects nothing more. -/
def UnderWay (run : Run) : Prop := run.whole = true ∧ run.place ≠ .releasing ∧ run.place ≠ .ended

/-- The services add no eligible rows behind the insert passes of an execution under way. -/
def NoneBehindUnderWay (w : World) : Event → Prop
  | .live writes => Positive (w.hot.applyAll writes) ∧
      ∀ run ∈ w.runs, UnderWay run →
      Aside (fun _ => True) run w.toSite { w.toSite with hot := w.hot.applyAll writes }
  | _ => True

/-- The year does not end under an execution, and the services stay clear of what is copied. -/
def KeptClear (host : Host) (w : World) (e : Event) : Prop :=
  SameYear host w e ∧ NoneBehindUnderWay w e ∧ Untouched w e

/-- Whenever an execution removes a row from hot, the archive holds it as it is. -/
def DeletesOnlyCopies (host : Host) (allowed : World → Event → Prop) (start : World) : Prop :=
  ∀ w w' i outcome, Archival.Reach host allowed start w → w.next host (.step i outcome) = some w' →
    ∀ t, Moved t → ∀ row ∈ (w.hot t).rows, row ∉ (w'.hot t).rows →
    (w.archive t).get (key row) = some (carried 0 t row)

/-! ## The executions under way -/

/-- An execution has nothing left to do but to release the lock. -/
def Over (run : Run) : Prop := run.place = .releasing ∨ run.place = .ended

/-- What the executions under way have gone past is in the archive. -/
structure Sheltered (host : Host) (w : World) : Prop where
  positive : Positive w.hot
  runs : ∀ run ∈ w.runs, Sound (fun _ => True) w.toSite run ∨ Cut host w.toSite run ∨ Over run

section

variable {host : Host} {w w' w₀ : World} {e : Event}

theorem over_next {run run' : Run} {site site' : Site} {outcome : Outcome} (isOver : Over run)
    (steps : run.next host site outcome = some (site', run')) : Over run' := by
  unfold Run.next at steps
  rcases isOver with isPlace | isPlace
  · rw [isPlace] at steps
    cases outcome <;> cases steps <;> exact .inr rfl
  · rw [isPlace] at steps
    cases steps

theorem Sheltered.aside (sheltered : Sheltered host w) (site' : Site)
    (positive : Positive site'.hot) (later : w.now ≤ site'.now)
    (aside : ∀ run ∈ w.runs, UnderWay run → Aside (fun _ => True) run w.toSite site') :
    Sheltered host ⟨site', w.runs⟩ := by
  refine ⟨positive, fun run member => ?_⟩
  rcases sheltered.runs run member with sound | cut | isOver
  · by_cases isOver : Over run
    · exact .inr (.inr isOver)
    · refine .inl (sound.aside (aside run member ⟨sound.whole, ?_, ?_⟩))
      · exact fun releasing => isOver (.inl releasing)
      · exact fun ended => isOver (.inr ended)
  · exact .inr (.inl (cut.later later))
  · exact .inr (.inr isOver)

theorem Sheltered.set {run' : Run} (sheltered : Sheltered host w) (i : ℕ)
    (ends : Sound (fun _ => True) w.toSite run' ∨ Cut host w.toSite run' ∨ Over run') :
    Sheltered host ⟨w.toSite, w.runs.set i run'⟩ := by
  refine ⟨sheltered.positive, fun run member => ?_⟩
  rcases List.mem_or_eq_of_mem_set member with old | rfl
  · exact sheltered.runs run old
  · exact ends

theorem sheltered_start (positive : Positive w.hot) (none : w.runs = []) : Sheltered host w :=
  ⟨positive, by rw [none]; exact fun _ impossible => absurd impossible List.not_mem_nil⟩

theorem sheltered_next (sheltered : Sheltered host w) (sameYear : SameYear host w e)
    (noneBehind : NoneBehindUnderWay w e)
    (steps : w.next host e = some w') : Sheltered host w' := by
  cases e with
  | tick microseconds =>
    cases steps
    have later : w.now ≤ w.now + microseconds := Nat.le_add_right _ _
    refine sheltered.aside { w.toSite with
      now := w.now + microseconds } sheltered.positive later fun run _ _ => ?_
    exact ⟨later, fun _ _ stored => stored, fun _ _ _ _ isEligible => isEligible⟩
  | start =>
    cases steps
    refine ⟨sheltered.positive, fun run member => ?_⟩
    rcases List.mem_append.1 member with old | new
    · exact sheltered.runs run old
    · rw [List.mem_singleton.1 new]
      exact .inl (sound_start _ _)
  | step i outcome =>
    obtain ⟨run, run', found, acts, isNext⟩ := effect_step steps
    have member := List.mem_of_getElem? found
    have shrinks := (effect_next acts).shrinks
    have positive : Positive w'.hot :=
      fun t moved row inTable => sheltered.positive t moved row (shrinks.hot t row inTable)
    -- An execution under way goes on soundly, or it ends or is cut short.
    have ends : Sound (fun _ => True) w'.toSite run' ∨ Cut host w'.toSite run' ∨ Over run' := by
      rcases sheltered.runs run member with sound | cut | isOver
      · exact (sound_step (positive_of_eligible sheltered.positive) sound
          (sameYear run found) acts).imp_right .inl
      · exact .inr (.inl (cut_step cut acts))
      · exact .inr (.inr (over_next isOver acts))
    rw [isNext]
    exact (sheltered.aside w'.toSite positive shrinks.now.ge fun run _ _ => shrinks.aside run).set i
      ends
  | crash i =>
    obtain ⟨run, _, rfl⟩ := Option.map_eq_some_iff.1 steps
    exact sheltered.set i (.inr (.inl (cut_stop host _ run)))
  | live writes =>
    cases steps
    exact sheltered.aside { w.toSite with
      hot := w.hot.applyAll writes } noneBehind.1 le_rfl noneBehind.2

/-- What is about to be deleted is in the archive. -/
theorem Sheltered.archivedFirst (sheltered : Sheltered host w) : ArchivalLoss.ArchivedFirst w := by
  intro run member pass ids isPlace id among
  rcases sheltered.runs run member with sound | cut | isPlace' | isPlace'
  · refine sound.doomed pass.table id trivial ?_
    rw [isPlace]
    exact ⟨rfl, among⟩
  · exact absurd isPlace (cut.quiet.2 pass ids)
  · rw [isPlace] at isPlace'
    cases isPlace'
  · rw [isPlace] at isPlace'
    cases isPlace'

/-! ## The rows -/

/-- What holds of the rows of every state. -/
structure Copies (host : Host) (w : World) : Prop where
  sheltered : Sheltered host w
  faithful : Faithful host.offset w.toSite
  fresh : BatchesFresh w

theorem batchesFresh_shrinks (fresh : BatchesFresh w) {site' : Site}
    (shrinks : Shrinks w.toSite site') : BatchesFresh ⟨site', w.runs⟩ :=
  fun run member pass rows isPlace moved r among row inTable =>
    fresh run member pass rows isPlace moved r among row (shrinks.hot _ row inTable)

theorem batchesFresh_set {run' : Run} (fresh : BatchesFresh w) (i : ℕ)
    (own : ∀ pass rows, run'.place = .insert pass rows → Moved pass.table →
      ∀ r ∈ rows, ∀ row ∈ (w.hot pass.table).rows, rowId row = rowId r → row = r) :
    BatchesFresh ⟨w.toSite, w.runs.set i run'⟩ := by
  intro run member
  rcases List.mem_or_eq_of_mem_set member with old | rfl
  · exact fresh run old
  · exact own

/-- A batch is selected from hot. -/
theorem mem_of_fetched {site site' : Site} {run run' : Run} {outcome : Outcome}
    (steps : run.next host site outcome = some (site', run')) {pass : Pass}
    {rows : List (RowOf pass.table)} (isPlace : run'.place = .insert pass rows)
    {r : RowOf pass.table} (among : r ∈ rows) : r ∈ (site'.hot pass.table).rows := by
  obtain ⟨before, _, rfl, ⟨_, isNext⟩ | ⟨_, isNext⟩⟩ | ⟨none, _⟩ := batch_of_next steps
  · rw [isNext] at isPlace
    cases isPlace
    exact (mem_insertBatch among).1
  · rw [isNext] at isPlace
    cases isPlace
  · exact absurd isPlace (none pass rows)

theorem batchesFresh_next (fresh : BatchesFresh w) (untouched : Untouched w e)
    (steps : w.next host e = some w') : BatchesFresh w' := by
  cases e with
  | tick microseconds => cases steps; exact fresh
  | start =>
    cases steps
    intro run member pass rows isPlace
    rcases List.mem_append.1 member with old | new
    · exact fresh run old pass rows isPlace
    · rw [List.mem_singleton.1 new] at isPlace
      cases isPlace
  | step i outcome =>
    obtain ⟨run, run', found, acts, isNext⟩ := effect_step steps
    rw [isNext]
    refine batchesFresh_set (batchesFresh_shrinks fresh (effect_next acts).shrinks) i
      fun pass rows isPlace moved r among row inTable same => ?_
    have member := mem_of_fetched acts isPlace among
    exact Table.eq_of_key inTable member (by rw [key_eq moved, key_eq moved, same])
  | crash i =>
    obtain ⟨run, _, rfl⟩ := Option.map_eq_some_iff.1 steps
    exact batchesFresh_set fresh i fun pass rows isPlace => nomatch isPlace
  | live writes =>
    cases steps
    intro run member pass rows isPlace moved r among row inTable same
    rcases untouched pass.table moved row inTable with old | ⟨_, apart⟩
    · exact fresh run member pass rows isPlace moved r among row old same
    · refine absurd ?_ (apart run member)
      rw [isPlace]
      exact ⟨rfl, same ▸ List.mem_map_of_mem among⟩

theorem faithful_inserts {site : Site} {pass : Pass} {rows : List (RowOf pass.table)}
    {table : Table (RowOf pass.table)} (faithful : Faithful host.offset site)
    (fresh : Moved pass.table → ∀ r ∈ rows, ∀ row ∈ (site.hot pass.table).rows,
      rowId row = rowId r → row = r)
    (inserted : Inserted (rows.map (carried host.offset pass.table))
      (site.archive pass.table) table) :
    Faithful host.offset (site.insertInto pass.table table) := by
  intro t moved row member stored
  by_cases same : t = pass.table
  · subst same
    simp only [Stored, Site.insertInto, Function.update_self] at stored ⊢
    obtain ⟨copy, found⟩ := Option.isSome_iff_exists.1 stored
    have isKey : (key copy : RowKey) = key row := by rw [Table.get_key found, key_eq moved]
    rw [key_eq moved, found]
    rcases inserted.origin copy (Table.get_mem found) with old | ⟨new, _⟩
    · have there := Table.get_of_mem old
      have copied :=
        faithful pass.table moved row member (by rw [Stored, ← key_eq moved, ← isKey, there]; rfl)
      rw [← isKey, there] at copied
      exact copied
    · obtain ⟨r, among, rfl⟩ := List.mem_map.1 new
      have sameId : rowId row = rowId r := by
        rw [← rowId_carried host.offset r, rowId, rowId, isKey]
      rw [fresh moved r among row member sameId]
  · simp only [Stored, Site.insertInto, Function.update_of_ne same] at stored ⊢
    exact faithful t moved row member stored

theorem faithful_next (faithful : Faithful host.offset w.toSite) (fresh : BatchesFresh w)
    (untouched : Untouched w e) (steps : w.next host e = some w') :
    Faithful host.offset w'.toSite := by
  cases e with
  | tick microseconds => cases steps; exact faithful
  | start => cases steps; exact faithful
  | crash i =>
    obtain ⟨run, _, rfl⟩ := Option.map_eq_some_iff.1 steps
    exact faithful
  | step i outcome =>
    obtain ⟨run, run', found, acts, _⟩ := effect_step steps
    have effect := effect_next acts
    cases effect with
    | quiet hot archive =>
      intro t moved row member stored
      rw [Stored, archive] at stored
      rw [archive]
      exact faithful t moved row (hot ▸ member) stored
    | inserts pass rows table isPlace inserted isSite =>
      rw [isSite]
      exact faithful_inserts faithful
        (fresh run (List.mem_of_getElem? found) pass rows isPlace) inserted
    | deletes pass ids isPlace isSite =>
      have shrinks := (effect_next acts).shrinks
      intro t moved row member stored
      rw [isSite] at stored ⊢
      exact faithful t moved row (shrinks.hot t row member) stored
  | live writes =>
    cases steps
    intro t moved row member stored
    rcases untouched t moved row member with old | ⟨unstored, _⟩
    · exact faithful t moved row old stored
    · exact absurd stored unstored

theorem copies_of_reach (begins : Copies host w₀)
    (reached : Archival.Reach host (KeptClear host) w₀ w) : Copies host w :=
  reached.invariant begins fun _ _ _ known clear steps =>
    ⟨sheltered_next known.sheltered clear.1 clear.2.1 steps,
      faithful_next known.faithful known.fresh clear.2.2 steps,
      batchesFresh_next known.fresh clear.2.2 steps⟩

end

/-- On a host in UTC, from any state whose archive has no other row under an id of hot. -/
theorem archival_apart_from_the_services_deletes_only_copies (host : Host) (utc : host.offset = 0)
    (w₀ : World) (positive : Positive w₀.hot) (faithful : Faithful 0 w₀.toSite)
    (none : w₀.runs = []) : DeletesOnlyCopies host (KeptClear host) w₀ := by
  intro w w' i outcome reached steps t moved row member gone
  have begins : Copies host w₀ := by
    refine ⟨sheltered_start positive none, utc ▸ faithful, ?_⟩
    rw [BatchesFresh, none]
    exact fun _ impossible => absurd impossible List.not_mem_nil
  have copies := copies_of_reach begins reached
  rw [← utc]
  refine copies.faithful t moved row member ?_
  obtain ⟨run, run', found, acts, _⟩ := effect_step steps
  cases effect_next acts with
  | quiet hot =>
    rw [hot] at gone
    exact absurd member gone
  | inserts pass rows table _ _ isSite =>
    rw [isSite] at gone
    exact absurd member gone
  | deletes pass ids isPlace isSite =>
    rw [isSite] at gone
    by_cases same : t = pass.table
    · subst same
      simp only [Site.deleteFrom, Function.update_self] at gone
      refine copies.sheltered.archivedFirst run (List.mem_of_getElem? found) pass ids isPlace
        (rowId row) ?_
      by_contra spared
      exact gone (Table.mem_delete.2 ⟨member, by simpa using spared⟩)
    · simp only [Site.deleteFrom, Function.update_of_ne same] at gone
      exact absurd member gone

/-! ## A refund after a crash -/

/-- An order of 2025 and its charge. -/
def chargedIn2025 : World where
  hot := (Database.empty.apply (.insert TableName.orders ArchivalLoss.oldOrder : SqlWrite)).apply
    (.insert TableName.transactions Sample.charge : SqlWrite)
  archive := Database.empty
  now := 1767232800000000
  lock := none
  runs := []

/-- A refund of the charge, as it is inserted. -/
def refund : Transaction :=
  { Sample.charge with
    id := 2, transactionType := .refund, status := .pending, providerReferenceId := none,
    idempotencyKey := none }

theorem keptClear_of_withinYear {host : Host} {w : World} {e : Event}
    (within : ArchivalLoss.WithinYear host w e) : KeptClear host w e := by
  obtain ⟨unwritten, sameYear⟩ := within
  cases e with
  | live writes => exact unwritten.elim
  | tick microseconds => exact ⟨sameYear, trivial, trivial⟩
  | start => exact ⟨sameYear, trivial, trivial⟩
  | step i outcome => exact ⟨sameYear, trivial, trivial⟩
  | crash i => exact ⟨sameYear, trivial, trivial⟩

/-- A row that comes while no execution is under way. -/
theorem keptClear_of_insert {host : Host} {w : World} {t : TableName} {row : RowOf t}
    (none : ∀ run ∈ w.runs, run.place = .ended) (positive : Positive w.hot)
    (isPositive : Moved t → 0 < rowId row) (fresh : Moved t → ¬ Stored w.toSite t (rowId row)) :
    KeptClear host w (.live [.insert t row]) := by
  have inserted : ∀ t', ∀ row' ∈ (w.hot.applyAll [(.insert t row : SqlWrite)] t').rows,
      row' ∈ (w.hot t').rows ∨
      ∃ same : t' = t, same ▸ row' = row := by
    intro t' row' member
    by_cases same : t' = t
    · subst same
      simp only [Db.applyAll_cons, Db.applyAll_nil, Db.apply, Function.update_self] at member
      exact (Table.mem_insert member).imp_right fun isRow => ⟨rfl, isRow⟩
    · simp only [Db.applyAll_cons, Db.applyAll_nil, Db.apply, Function.update_of_ne same] at member
      exact .inl member
  refine ⟨trivial, ⟨fun t' moved row' member => ?_, fun run member underWay => ?_⟩,
    fun t' moved row' member => ?_⟩
  · rcases inserted t' row' member with old | ⟨rfl, rfl⟩
    · exact positive t' moved row' old
    · exact isPositive moved
  · exact absurd (none run member) underWay.2.2
  · rcases inserted t' row' member with old | ⟨rfl, rfl⟩
    · exact .inl old
    · refine .inr ⟨fresh moved, fun run among => ?_⟩
      rw [none run among]
      exact fun impossible => impossible

theorem positive_of_all {db : Database}
    (all : ∀ t ∈ PASS1_INSERT_ORDER, ((db t).rows.all fun row => decide (0 < rowId row)) = true) :
    Positive db :=
  fun t moved row member => of_decide_eq_true (List.all_eq_true.1 (all t moved) row member)

theorem positive_chargedIn2025 : Positive chargedIn2025.hot := positive_of_all (by decide +kernel)

def hasEnded (run : Run) : Bool :=
  match run.place with
  | .ended => true
  | _ => false

theorem ended_of_hasEnded {run : Run} (ended : hasEnded run = true) : run.place = .ended := by
  unfold hasEnded at ended
  split at ended
  next isPlace => exact isPlace
  next => cases ended

/-- The execution is killed when its insert passes are over. -/
def killedHalfway : List Event := .start :: List.replicate 28 (.step 0 .done) ++ [.crash 0]

/-- When its lock has expired another execution begins, and goes on until it has selected the
transactions to delete. -/
def runAgain : List Event := [.tick 2400000000, .start] ++ List.replicate 43 (.step 1 .done)

/-- The region in which the refund is about to go. -/
def refundIsSelected : Option World :=
  (Machine.play (World.next ArchivalLoss.host)
    (fun w e => decide (ArchivalLoss.WithinYear ArchivalLoss.host w e)) killedHalfway
    chargedIn2025).bind fun w =>
      if w.runs.all hasEnded ∧
        (PASS1_INSERT_ORDER.all fun t => (w.hot t).rows.all fun row => decide (0 < rowId row)) ∧
          ((w.archive .transactions).get (RowKey.id 2)).isNone then
        (w.next ArchivalLoss.host (.live [.insert TableName.transactions refund])).bind
          (Machine.play (World.next ArchivalLoss.host)
          (fun w e => decide (ArchivalLoss.WithinYear ArchivalLoss.host w e)) runAgain)
      else none

theorem reach_refundIsSelected {w : World} (ran : refundIsSelected = some w) :
    Archival.Reach ArchivalLoss.host (KeptClear ArchivalLoss.host) chargedIn2025 w := by
  have clear : ∀ w e, decide (ArchivalLoss.WithinYear ArchivalLoss.host w e) = true →
      KeptClear ArchivalLoss.host w e :=
    fun w e within => keptClear_of_withinYear (of_decide_eq_true within)
  obtain ⟨killed, played, rest⟩ := Option.bind_eq_some_iff.1 ran
  split at rest
  next checked =>
    obtain ⟨ended, isPositive, unstored⟩ := checked
    obtain ⟨refunded, refunds, again⟩ := Option.bind_eq_some_iff.1 rest
    have kept : KeptClear ArchivalLoss.host killed
        (.live [.insert TableName.transactions refund]) := by
      refine keptClear_of_insert
        (fun run member => ended_of_hasEnded (List.all_eq_true.1 ended run member))
        (positive_of_all (List.all_eq_true.1 isPositive)) (fun _ => by decide) fun _ stored => ?_
      have there : ((killed.archive .transactions).get (RowKey.id 2)).isSome = true := stored
      rw [Option.isNone_iff_eq_none.1 unstored] at there
      cases there
    exact (Machine.Reach.step (Machine.reach_of_play clear played) kept refunds).trans
      (Machine.reach_of_play clear again)
  next => cases rest

/-- The execution that comes after the crash copies the refund, and then deletes it. -/
theorem archival_copies_a_refund_that_comes_after_a_crash :
    DeletesOnlyCopies ArchivalLoss.host (KeptClear ArchivalLoss.host) chargedIn2025 ∧
      ∃ w w', Archival.Reach ArchivalLoss.host (KeptClear ArchivalLoss.host) chargedIn2025 w ∧
        w.next ArchivalLoss.host (.step 1 .done) = some w' ∧ ∃ row ∈ (w.hot .transactions).rows,
          row ∉ (w'.hot .transactions).rows ∧
          row.id = refund.id ∧ row.status = .pending ∧
          (w.archive .transactions).get (key row) = some (carried 0 .transactions row) := by
  have only := archival_apart_from_the_services_deletes_only_copies ArchivalLoss.host rfl
    chargedIn2025 positive_chargedIn2025
    (fun _ _ _ _ stored => nomatch stored) rfl
  have ran : (refundIsSelected.bind fun w =>
      (w.next ArchivalLoss.host (.step 1 .done)).map fun w' =>
      ((w.hot .transactions).rows.map (fun row => (Transaction.id row, Transaction.status row)),
        (w'.hot .transactions).rows.length)) =
      some ([(1, .succeeded), (2, .pending)], 0) := by decide +kernel
  obtain ⟨w, selected, rest⟩ := Option.bind_eq_some_iff.1 ran
  obtain ⟨w', steps, isEnd⟩ := Option.map_eq_some_iff.1 rest
  simp only [Prod.mk.injEq] at isEnd
  obtain ⟨rows, isEmpty⟩ := isEnd
  have reached := reach_refundIsSelected selected
  have among : (2, TransactionStatus.pending) ∈ (w.hot .transactions).rows.map fun row =>
      (Transaction.id row, Transaction.status row) := by
    rw [rows]
    exact List.mem_cons_of_mem _ List.mem_cons_self
  obtain ⟨row, member, isRow⟩ := List.mem_map.1 among
  have gone : row ∉ (w'.hot .transactions).rows := by
    rw [List.length_eq_zero_iff.1 isEmpty]
    exact List.not_mem_nil
  refine ⟨only, w, w', reached, steps, row, member, gone, congrArg Prod.fst isRow,
    congrArg Prod.snd isRow, ?_⟩
  exact only w w' 1 .done reached steps .transactions (by decide) row member gone

/-! ## A service in between -/

/-- The order of 2025 is still open. -/
def openOrder : Order := { ArchivalLoss.oldOrder with status := .placed }

/-- Two hours into 2026. -/
def newYearsMorning : World where
  hot := Database.empty.apply (.insert TableName.orders openOrder : SqlWrite)
  archive := Database.empty
  now := 1767232800000000
  lock := none
  runs := []

/-- The order is cancelled when it has been copied. -/
def cancelledInBetween : List Event :=
  .start :: List.replicate 26 (.step 0 .done) ++
    .live [.update TableName.orders (RowKey.id 1)
      (Order.withStatus .cancelled 1767232800000 none)] :: List.replicate 21 (.step 0 .done)

theorem archival_deletes_an_order_that_is_cancelled_after_its_copy :
    ¬ DeletesOnlyCopies ArchivalLoss.host (fun w _ => Calendar.yearOf w.now = 2026)
      newYearsMorning := by
  intro only
  have ends : ((Machine.play (World.next ArchivalLoss.host)
      (fun w _ => decide (Calendar.yearOf w.now = 2026)) cancelledInBetween newYearsMorning).bind
      fun w => (w.next ArchivalLoss.host (.step 0 .done)).map fun w' =>
        ((w.hot .orders).rows.map (fun order => (Order.id order, Order.status order)),
          (w'.hot .orders).rows.length,
          ((w.archive .orders).get (RowKey.id 1)).map Order.status)) =
      some ([(1, .cancelled)], 0, some .placed) := by decide +kernel
  obtain ⟨w, played, rest⟩ := Option.bind_eq_some_iff.1 ends
  obtain ⟨w', steps, isEnd⟩ := Option.map_eq_some_iff.1 rest
  simp only [Prod.mk.injEq] at isEnd
  obtain ⟨orders, gone, archived⟩ := isEnd
  obtain ⟨row, others, isRows, isOrder, _⟩ := List.map_eq_cons_iff.1 orders
  simp only [Prod.mk.injEq] at isOrder
  have isKey : (key row : RowKey) = RowKey.id 1 := congrArg RowKey.id isOrder.1
  have member : row ∈ (w.hot .orders).rows := by
    rw [isRows]
    exact List.mem_cons_self
  have removed : row ∉ (w'.hot .orders).rows := by
    rw [List.length_eq_zero_iff.1 gone]
    exact List.not_mem_nil
  have copied := only w w' 0 .done (Machine.reach_of_play (fun _ _ => of_decide_eq_true) played)
    steps .orders (by decide) row member removed
  rw [isKey] at copied
  rw [copied] at archived
  have stale : Order.status row = .placed := Option.some.inj archived
  rw [isOrder.2] at stale
  cases stale

end SwiftBite.Verified.ArchivalUpdates
