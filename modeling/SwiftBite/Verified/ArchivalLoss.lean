import SwiftBite.Verified.ArchivalPasses
import SwiftBite.Verified.Runs

/-! # Archival and the turn of the year

Each pass computes the cutoff anew.  Executions whose passes all begin in one year lose no row,
wherever they are cut off; one whose insert passes are over when the year ends deletes the
rows of a year that nothing has copied.
-/

set_option autoImplicit false

namespace SwiftBite.Verified.ArchivalLoss

open Store Archival ArchivalRows ArchivalPasses

/-- What was in hot is there still, or the archive has a row under its id. -/
def NoneLost (hot : Database) (site : Site) : Prop :=
  ∀ t, Moved t → ∀ row ∈ (hot t).rows, row ∈ (site.hot t).rows ∨ Stored site t (rowId row)

/-- What an execution is about to delete is in the archive. -/
def ArchivedFirst (w : World) : Prop :=
  ∀ run ∈ w.runs, ∀ pass ids, run.place = .delete pass ids →
  ∀ id ∈ ids, Stored w.toSite pass.table id

/-- In every state of all runs from a state. -/
def NeverLoses (host : Host) (allowed : World → Event → Prop) (start : World) : Prop :=
  ∀ w, Archival.Reach host allowed start w → NoneLost start.hot w.toSite ∧ ArchivedFirst w

/-- No service writes. -/
def Unwritten : Event → Prop
  | .live _ => False
  | _ => True

instance : DecidablePred Unwritten
  | .live _ => inferInstanceAs (Decidable False)
  | .tick _ | .start | .step .. | .crash _ => inferInstanceAs (Decidable True)

/-- The passes of each execution begin in the year in which it began. -/
def WithinYear (host : Host) (w : World) (e : Event) : Prop := Unwritten e ∧ SameYear host w e

instance (host : Host) (w : World) (e : Event) : Decidable (WithinYear host w e) :=
  inferInstanceAs (Decidable (_ ∧ _))

section

variable {host : Host} {w w' w₀ : World} {e : Event}

theorem noneBehind_of_unwritten (watched : TableName → Prop) (unwritten : Unwritten e) :
    NoneBehind watched w e := by
  cases e with
  | live writes => exact unwritten.elim
  | tick microseconds => trivial
  | start => trivial
  | step i outcome => trivial
  | crash i => trivial

theorem archivedFirst_of_progress (progress : Progress (fun _ => True) host w) :
    ArchivedFirst w := by
  intro run member pass ids isPlace id among
  rcases progress.runs run member with sound | cut
  · refine sound.doomed pass.table id trivial ?_
    rw [isPlace]
    exact ⟨rfl, among⟩
  · exact absurd isPlace (cut.quiet.2 pass ids)

theorem noneLost_next {hot : Database} (noneLost : NoneLost hot w.toSite)
    (archivedFirst : ArchivedFirst w) (unwritten : Unwritten e) (steps : w.next host e = some w') :
    NoneLost hot w'.toSite := by
  cases e with
  | tick microseconds => cases steps; exact noneLost
  | start => cases steps; exact noneLost
  | crash i =>
    obtain ⟨run, _, rfl⟩ := Option.map_eq_some_iff.1 steps
    exact noneLost
  | live writes => exact unwritten.elim
  | step i outcome =>
    obtain ⟨run, run', found, acts, _⟩ := effect_step steps
    have effect := effect_next acts
    have shrinks := effect.shrinks
    intro t moved row member
    rcases noneLost t moved row member with there | stored
    · by_cases stays : row ∈ (w'.hot t).rows
      · exact .inl stays
      · refine .inr (shrinks.stored t _ ?_)
        cases effect with
        | quiet hot =>
          rw [hot] at stays
          exact absurd there stays
        | inserts pass rows table _ _ isSite =>
          rw [isSite] at stays
          exact absurd there stays
        | deletes pass ids isPlace isSite =>
          -- the row is one of the batch that is deleted
          rw [isSite] at stays
          by_cases same : t = pass.table
          · subst same
            simp only [Site.deleteFrom, Function.update_self] at stays
            refine archivedFirst run (List.mem_of_getElem? found) pass ids isPlace (rowId row) ?_
            by_contra spared
            exact stays (Table.mem_delete.2 ⟨there, by simpa using spared⟩)
          · simp only [Site.deleteFrom, Function.update_of_ne same] at stays
            exact absurd there stays
    · exact .inr (shrinks.stored t _ stored)

end

/-- Whatever is in the two databases, wherever the executions are cut off or fail, and however
many there are at once. -/
theorem archival_within_a_year_loses_no_row (host : Host) (w₀ : World) (positive : Positive w₀.hot)
    (none : w₀.runs = []) : NeverLoses host (WithinYear host) w₀ := by
  intro w reached
  have progress : ∀ w, Archival.Reach host (WithinYear host) w₀ w →
      Progress (fun _ => True) host w := fun w reached =>
    progress_of_reach (progress_start positive none) (fun _ _ within => within.2)
      (fun _ _ within => noneBehind_of_unwritten _ within.1) reached
  refine ⟨?_, archivedFirst_of_progress (progress w reached)⟩
  induction reached with
  | refl => exact fun _ _ row member => .inl member
  | step reached within steps inductionHypothesis =>
    exact noneLost_next inductionHypothesis (archivedFirst_of_progress (progress _ reached))
      within.1 steps

/-! ## The turn of the year -/

/-- An order of 2025. -/
def oldOrder : Order := { Sample.order .delivered with createdAt := 1760000000000000 }

/-- A minute before the end of 2025. -/
def newYearsEve : World where
  hot := Database.empty.apply (.insert TableName.orders oldOrder : SqlWrite)
  archive := Database.empty
  now := 1767225540000000
  lock := none
  runs := []

def host : Host := ⟨30, 0⟩

theorem positive_newYearsEve : Positive newYearsEve.hot := by
  intro t moved row member
  cases t with
  | orders =>
    have single : row = oldOrder := List.mem_singleton.1 member
    subst single
    decide
  | _ => exact absurd member List.not_mem_nil

/-- An execution that begins when the year is over, and goes on to its end. -/
def afterMidnight : List Event := [.tick 120000000, .start] ++ List.replicate 51 (.step 0 .done)

theorem archival_after_midnight_moves_the_order :
    ∃ w, Archival.Reach host (WithinYear host) newYearsEve w ∧ (w.hot .orders).rows.length = 0 ∧
    (w.archive .orders).rows.length = 1 ∧
      NoneLost newYearsEve.hot w.toSite := by
  have played : (Machine.play (World.next host) (fun w e => decide (WithinYear host w e))
      afterMidnight newYearsEve).map
      (fun w => ((w.hot .orders).rows.length, (w.archive .orders).rows.length)) = some (0, 1) := by
    decide +kernel
  obtain ⟨w, isRun, isEnd⟩ := Option.map_eq_some_iff.1 played
  simp only [Prod.mk.injEq] at isEnd
  have reached : Archival.Reach host (WithinYear host) newYearsEve w :=
    Machine.reach_of_play (fun _ _ => of_decide_eq_true) isRun
  have never := archival_within_a_year_loses_no_row host newYearsEve positive_newYearsEve rfl
  exact ⟨w, reached, isEnd.1, isEnd.2, (never w reached).1⟩

/-- The insert passes run before midnight and the delete passes after it. -/
def acrossMidnight : List Event :=
  .start :: List.replicate 24 (.step 0 .done) ++ .tick 120000000 ::
    List.replicate 22 (.step 0 .done)

theorem archival_across_midnight_loses_an_order :
    ¬ NeverLoses host (fun _ e => Unwritten e) newYearsEve := by
  intro never
  have ends : (Machine.play (World.next host) (fun _ e => decide (Unwritten e)) acrossMidnight
      newYearsEve).map
      (fun w => ((w.hot .orders).rows.length, ((w.archive .orders).get (RowKey.id 1)).isSome)) =
      some (0, false) := by decide +kernel
  obtain ⟨w, played, isEnd⟩ := Option.map_eq_some_iff.1 ends
  simp only [Prod.mk.injEq] at isEnd
  have lost := (never w (Machine.reach_of_play (fun _ _ => of_decide_eq_true) played)).1
    .orders (by decide) oldOrder (List.mem_singleton_self _)
  rcases lost with there | stored
  · rw [List.length_eq_zero_iff.1 isEnd.1] at there
    exact absurd there List.not_mem_nil
  · exact absurd (stored.symm.trans isEnd.2) (by decide)

end SwiftBite.Verified.ArchivalLoss
