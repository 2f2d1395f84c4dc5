import SwiftBite.Verified.ArchivalReruns

/-! # One execution at a time

The lock of a region expires, and an execution does not look at what becomes of it: it renews
the lock only between batches and goes on whatever the script answers.  As long as no lock
expires on an execution that has batches under way or to come, there is one such execution.
-/

set_option autoImplicit false

namespace SwiftBite.Verified.ArchivalLock

open Store Archival ArchivalPasses

/-- Batches may follow, if the budget lasts. -/
def MoreToCome : Place → Prop
  | .tables kind left => kind = .insert ∨ left ≠ []
  | .loop _ => True
  | .renew pass isLast | .renewing pass isLast | .renewed pass isLast =>
    isLast = false ∨ pass.kind = .insert ∨ pass.later ≠ []
  | _ => False

/-- A batch of the execution is under way, or one is still to be issued. -/
def Working (host : Host) (site : Site) (run : Run) : Prop :=
  match run.place with
  | .acquired | .fetch _ | .insert .. | .delete .. => True
  | .tables .. | .loop _ | .renew .. | .renewing .. | .renewed .. =>
    MoreToCome run.place ∧ run.exceeded host site = false
  | .acquiring | .releasing | .ended => False

/-- The next step of the execution is a statement of a batch. -/
def Issues (run : Run) : Prop :=
  match run.place with
  | .fetch _ | .insert .. | .delete .. => True
  | _ => False

/-- At most one execution works, and the one that issues a batch has the lock. -/
structure Alone (host : Host) (w : World) : Prop where
  one : ∀ (i j : ℕ) (run run' : Run), w.runs[i]? = some run → w.runs[j]? = some run' →
    Working host w.toSite run → Working host w.toSite run' → i = j
  holder : ∀ run ∈ w.runs, Issues run → w.holder = some run.token

/-- In every state of all runs from a state. -/
def OneAtATime (host : Host) (allowed : World → Event → Prop) (start : World) : Prop :=
  ∀ w, Archival.Reach host allowed start w → Alone host w

/-- The time that passes does not go beyond the expiry of a lock whose execution is working then. -/
def NoneLapses (host : Host) (w : World) : Event → Prop
  | .tick microseconds => ∀ run ∈ w.runs, ∀ lock, w.lock = some lock → lock.token = run.token →
      Working host { w.toSite with now := w.now + microseconds } run →
      (w.now + microseconds) / 1000 ≤ lock.expiresAt
  | _ => True

section

variable {host : Host} {site site' : Site} {run run' : Run} {outcome : Outcome} {w w' : World}
  {e : Event}

theorem holder_lockFor (host : Host) (site : Site) (token : ℕ) :
    (site.lockFor host token).holder = some token := by
  simp [Site.holder, Site.lockFor, Site.dateNow, Option.filter]

theorem holder_congr (sameLock : site'.lock = site.lock) (sameTime : site'.now = site.now) :
    site'.holder = site.holder := by
  rw [Site.holder, Site.holder, sameLock, Site.dateNow, Site.dateNow, sameTime]

/-- Who works works before. -/
theorem working_earlier (later : site.now ≤ site'.now) (working : Working host site' run) :
    Working host site run := by
  have inTime : run.exceeded host site' = false → run.exceeded host site = false := fun inTime => by
    by_contra exceeded
    rw [exceeded_later later (eq_true_of_ne_false exceeded)] at inTime
    cases inTime
  unfold Working at working ⊢
  cases isPlace : run.place <;> rw [isPlace] at working <;>
    first | exact working | exact working.imp id inTime

theorem working_of_issues (issues : Issues run) : Working host site run := by
  unfold Issues at issues
  unfold Working
  cases isPlace : run.place <;> rw [isPlace] at issues <;> trivial

/-- What a step does to the lock: nothing, or something that only a free lock or the execution's
own allows; and who works then has it. -/
structure LockStep (host : Host) (site site' : Site) (run run' : Run) : Prop where
  token : run'.token = run.token
  lock : site'.lock = site.lock ∧ (Working host site' run' → Working host site run) ∨
    (site.holder = none ∨ site.holder = some run.token) ∧
    (Working host site' run' → site'.holder = some run.token)

theorem not_working_throw : ¬ Working host site run.throw := fun working => working

theorem not_working_stop : ¬ Working host site run.stop := fun working => working

theorem token_leave (run : Run) (pass : Pass) : (run.leave pass).token = run.token := by
  unfold Run.leave
  split <;> rfl

theorem token_resume (run : Run) (pass : Pass) (isLast : Bool) :
    (run.resume pass isLast).token = run.token := by
  cases isLast
  · rfl
  · exact token_leave run pass

theorem exceeded_congr {run' : Run} (began : run'.began = run.began) :
    run'.exceeded host site = run.exceeded host site := by
  rw [Run.exceeded, Run.exceeded, began]

theorem working_leave {pass : Pass} : Working host site (run.leave pass) ↔
    (pass.kind = .insert ∨ pass.later ≠ []) ∧ run.exceeded host site = false := by
  rw [← exceeded_congr (Run.began_leave run pass)]
  unfold Working
  rw [Run.place_leave]
  exact Iff.rfl

/-- Behind `maybeRenew`, nothing is to come that was not before. -/
theorem working_of_resume {pass : Pass} {isLast : Bool}
    (working : Working host site (run.resume pass isLast)) :
    (isLast = false ∨ pass.kind = .insert ∨ pass.later ≠ []) ∧ run.exceeded host site = false := by
  cases isLast with
  | true => exact (working_leave.1 working).imp .inr id
  | false => exact ⟨.inl rfl, working.2⟩

/-- The script does something for the holder only. -/
theorem renewLock_own (host : Host) (site : Site) (token : ℕ) :
    site.holder = some token ∧ site.renewLock host token = site.lockFor host token ∨
      site.renewLock host token = site := by
  unfold Site.renewLock
  split
  next own => exact .inl ⟨own, rfl⟩
  next => exact .inr rfl

theorem releaseLock_own (site : Site) (token : ℕ) :
    site.holder = some token ∨ site.releaseLock token = site := by
  unfold Site.releaseLock
  split
  next own => exact .inl own
  next => exact .inr rfl

theorem lock_next (steps : run.next host site outcome = some (site', run')) :
    LockStep host site site' run run' := by
  cases step_of_next steps with
  | lockLost _ free | locks _ free =>
    exact ⟨rfl, .inr ⟨.inl free, fun _ => holder_lockFor _ _ _⟩⟩
  -- The execution does not work from here on, and the lock stays as it is.
  | refused | releaseFails =>
    exact ⟨rfl, .inl ⟨rfl, fun working => (not_working_stop working).elim⟩⟩
  | fetchFails | insertFails | insertLost | deleteFails | deleteLost | renewFails =>
    exact ⟨rfl, .inl ⟨rfl, fun working => (not_working_throw working).elim⟩⟩
  | begins isPlace | fetchesRows isPlace | fetchesIds isPlace | inserts isPlace | deletes isPlace =>
    exact ⟨rfl, .inl ⟨rfl, fun _ => by unfold Working; rw [isPlace]; trivial⟩⟩
  | noneToInsert isPlace | noneToDelete isPlace =>
    exact ⟨token_leave _ _, .inl ⟨rfl, fun _ => by unfold Working; rw [isPlace]; trivial⟩⟩
  | @behind kind isPlace =>
    refine ⟨rfl, .inl ⟨rfl, fun working => ?_⟩⟩
    unfold Working
    rw [isPlace]
    cases kind with
    | insert => exact ⟨.inl rfl, working.2⟩
    | delete => exact working.elim
  -- The budget is used up, and beyond it nobody counts as working.
  | @breaks kind _ _ _ exceeded =>
    refine ⟨rfl, .inl ⟨rfl, fun working => ?_⟩⟩
    cases kind with
    | insert =>
      have inTime : run.exceeded host site = false := working.2
      rw [exceeded] at inTime
      cases inTime
    | delete => exact working.elim
  | enters isPlace inTime =>
    refine ⟨rfl, .inl ⟨rfl, fun _ => ?_⟩⟩
    unfold Working
    rw [isPlace]
    exact ⟨.inr (List.cons_ne_nil _ _), inTime⟩
  | breaksOff _ exceeded =>
    refine ⟨token_leave run _, .inl ⟨rfl, fun working => ?_⟩⟩
    have inTime : run.exceeded host site = false := (working_leave.1 working).2
    rw [exceeded] at inTime
    cases inTime
  | goesOn isPlace inTime =>
    refine ⟨rfl, .inl ⟨rfl, fun _ => ?_⟩⟩
    unfold Working
    rw [isPlace]
    exact ⟨trivial, inTime⟩
  | renewsLater isPlace | renewed isPlace =>
    refine ⟨token_resume _ _ _, .inl ⟨rfl, fun working => ?_⟩⟩
    have known := working_of_resume working
    unfold Working
    rw [isPlace]
    exact known
  | renewsNow isPlace =>
    refine ⟨rfl, .inl ⟨rfl, fun working => ?_⟩⟩
    unfold Working
    rw [isPlace]
    exact working
  -- `renewLock` writes only over the own token.
  | renews isPlace =>
    rcases renewLock_own host site run.token with ⟨own, renewed⟩ | unchanged
    · exact ⟨rfl, .inr ⟨.inr own, fun _ => renewed ▸ holder_lockFor _ _ _⟩⟩
    · rw [unchanged]
      refine ⟨rfl, .inl ⟨rfl, fun working => ?_⟩⟩
      unfold Working
      rw [isPlace]
      exact working
  | renewLost =>
    rcases renewLock_own host site run.token with ⟨own, _⟩ | unchanged
    · exact ⟨rfl, .inr ⟨.inr own, fun working => (not_working_throw working).elim⟩⟩
    · rw [unchanged]
      exact ⟨rfl, .inl ⟨rfl, fun working => (not_working_throw working).elim⟩⟩
  | releaseLost | releases =>
    rcases releaseLock_own site run.token with own | unchanged
    · exact ⟨rfl, .inr ⟨.inr own, fun working => working.elim⟩⟩
    · rw [unchanged]
      exact ⟨rfl, .inl ⟨rfl, fun working => working.elim⟩⟩

/-- Each execution has a token of its own, and who works has the lock. -/
structure Exclusive (host : Host) (w : World) : Prop where
  tokens : ∀ (i : ℕ) (run : Run), w.runs[i]? = some run → run.token = i
  holds : ∀ run ∈ w.runs, Working host w.toSite run → w.holder = some run.token

theorem Exclusive.alone (exclusive : Exclusive host w) : Alone host w where
  one i j run run' found found' working working' := by
    have own := exclusive.holds run (List.mem_of_getElem? found) working
    rw [exclusive.holds run' (List.mem_of_getElem? found') working'] at own
    rw [← exclusive.tokens i run found, ← exclusive.tokens j run' found', Option.some.inj own]
  holder run member issues := exclusive.holds run member (working_of_issues issues)

/-- Time passes. -/
theorem exclusive_tick (exclusive : Exclusive host w) {microseconds : ℕ}
    (noneLapses : NoneLapses host w (.tick microseconds)) :
    Exclusive host { w with now := w.now + microseconds } := by
  refine ⟨exclusive.tokens, fun run member working => ?_⟩
  have had := exclusive.holds run member (working_earlier (Nat.le_add_right _ _) working)
  obtain ⟨lock, isLock, sameToken⟩ := Option.map_eq_some_iff.1 had
  obtain ⟨isLock, _⟩ := Option.filter_eq_some_iff.1 isLock
  have inTime := noneLapses run member lock isLock sameToken working
  rw [Site.holder, isLock]
  simp [Option.filter, Site.dateNow, inTime, sameToken]

theorem exclusive_step (exclusive : Exclusive host w) {i : ℕ} {outcome : Outcome}
    (steps : w.next host (.step i outcome) = some w') : Exclusive host w' := by
  obtain ⟨run, run', found, acts, isNext⟩ := effect_step steps
  have member := List.mem_of_getElem? found
  have sameTime := (effect_next acts).shrinks.now
  obtain ⟨sameToken, lock⟩ := lock_next acts
  rw [isNext]
  refine ⟨fun j other found' => ?_, fun other member' working => ?_⟩
  · rw [List.getElem?_set] at found'
    split at found'
    next same =>
      split at found'
      next =>
        cases found'
        rw [sameToken, ← same]
        exact exclusive.tokens i run found
      next => cases found'
    next => exact exclusive.tokens j other found'
  · obtain ⟨j, found'⟩ := List.getElem?_of_mem member'
    rw [List.getElem?_set] at found'
    split at found'
    next same =>
      -- the execution itself
      split at found'
      next =>
        cases found'
        rw [sameToken]
        rcases lock with ⟨sameLock, before⟩ | ⟨_, holder⟩
        · show w'.holder = some run.token
          rw [holder_congr sameLock sameTime]
          exact exclusive.holds run member (before working)
        · exact holder working
      next => cases found'
    next different =>
      -- another execution that works keeps the lock
      have had :=
        exclusive.holds other (List.mem_of_getElem? found') (working_earlier sameTime.ge working)
      rcases lock with ⟨sameLock, _⟩ | ⟨free | own, _⟩
      · exact (holder_congr sameLock sameTime).trans had
      · rw [free] at had
        cases had
      · rw [own, Option.some.injEq, exclusive.tokens i run found,
          exclusive.tokens j other found'] at had
        exact absurd had different

theorem exclusive_next (exclusive : Exclusive host w) (noneLapses : NoneLapses host w e)
    (steps : w.next host e = some w') : Exclusive host w' := by
  cases e with
  | tick microseconds =>
    cases steps
    exact exclusive_tick exclusive noneLapses
  | start =>
    cases steps
    refine ⟨fun i run found => ?_, fun run member working => ?_⟩
    · rw [List.getElem?_append] at found
      split at found
      next => exact exclusive.tokens i run found
      next beyond =>
        rw [List.getElem?_singleton] at found
        split at found
        next isLast =>
          cases found
          -- The token of an execution is its place in the list.
          show w.runs.length = i
          omega
        next => cases found
    · rcases List.mem_append.1 member with old | new
      · exact exclusive.holds run old working
      · rw [List.mem_singleton.1 new] at working
        exact working.elim
  | live writes =>
    cases steps
    exact ⟨exclusive.tokens, exclusive.holds⟩
  | crash i =>
    obtain ⟨run, found, rfl⟩ := Option.map_eq_some_iff.1 steps
    refine ⟨fun j other found' => ?_, fun other member working => ?_⟩
    · rw [List.getElem?_set] at found'
      split at found'
      next same =>
        split at found'
        next =>
          cases found'
          rw [← same]
          exact exclusive.tokens i run found
        next => cases found'
      next => exact exclusive.tokens j other found'
    · rcases List.mem_or_eq_of_mem_set member with old | rfl
      · exact exclusive.holds other old working
      · exact (not_working_stop working).elim
  | step i outcome => exact exclusive_step exclusive steps

end

/-- Whatever executions there are, wherever they fail, and however long a batch or a pause takes
that leaves the lock in force. -/
theorem executions_work_alone_while_no_lock_lapses (host : Host) (start : World)
    (none : start.runs = []) : OneAtATime host (NoneLapses host) start := by
  intro w reached
  have begins : Exclusive host start :=
    ⟨by rw [none]; exact fun _ _ found => (nomatch found),
      by rw [none]; exact fun _ impossible => absurd impossible List.not_mem_nil⟩
  exact (reached.invariant begins fun _ _ _ exclusive noneLapses steps =>
    exclusive_next exclusive noneLapses steps).alone

/-- No time passes that goes beyond the expiry of the lock. -/
def LockStands (w : World) : Event → Prop
  | .tick microseconds => ∀ lock ∈ w.lock, (w.now + microseconds) / 1000 ≤ lock.expiresAt
  | _ => True

instance (w : World) : DecidablePred (LockStands w)
  | .tick microseconds =>
    inferInstanceAs (Decidable (∀ lock ∈ w.lock, (w.now + microseconds) / 1000 ≤ lock.expiresAt))
  | .start | .step .. | .crash _ | .live _ => inferInstanceAs (Decidable True)

theorem noneLapses_of_lockStands {host : Host} {w : World} {e : Event}
    (stands : LockStands w e) : NoneLapses host w e := by
  cases e with
  | tick microseconds => exact fun run _ lock isLock _ _ => stands lock isLock
  | _ => trivial

/-- A second execution begins a minute after the first, and finds the lock taken. -/
def secondInVain : List Event :=
  .start :: List.replicate 6 (.step 0 .done) ++ [.tick 60000000, .start, .step 1 .done] ++
    List.replicate 10 (.step 0 .done)

theorem second_execution_ends_in_vain :
    ∃ w,
      Archival.Reach ArchivalLoss.host (NoneLapses ArchivalLoss.host) ArchivalReruns.newYearsDay w ∧
      w.runs.map Run.token = [0, 1] ∧ w.holder = some 0 ∧ Alone ArchivalLoss.host w := by
  have played :
      (Machine.play (World.next ArchivalLoss.host) (fun w e => decide (LockStands w e))
        secondInVain ArchivalReruns.newYearsDay).map (fun w => (w.runs.map Run.token, w.holder)) =
      some ([0, 1], some 0) := by decide +kernel
  obtain ⟨w, isRun, isEnd⟩ := Option.map_eq_some_iff.1 played
  simp only [Prod.mk.injEq] at isEnd
  have reached : Archival.Reach ArchivalLoss.host
      (NoneLapses ArchivalLoss.host) ArchivalReruns.newYearsDay w :=
    Machine.reach_of_play
      (fun _ _ checked => noneLapses_of_lockStands (of_decide_eq_true checked)) isRun
  exact ⟨w, reached, isEnd.1, isEnd.2,
    executions_work_alone_while_no_lock_lapses ArchivalLoss.host ArchivalReruns.newYearsDay
      rfl w reached⟩

/-! ## A lock that lapses -/

/-- An execution gets the lock and is then held up for 36 minutes, so that another gets it too. It
begins nevertheless, and goes on when the script that is to renew its lock finds that of the
other. -/
def heldUp : List Event :=
  [.start, .step 0 .done, .tick 2160000000, .start, .step 1 .done] ++
    List.replicate 5 (.step 0 .done) ++
    .tick 720000000 :: List.replicate 5 (.step 0 .done)

theorem an_execution_goes_on_without_its_lock :
    ¬ OneAtATime ArchivalLoss.host (fun _ _ => True) ArchivalReruns.newYearsDay := by
  intro always
  have ends : (Machine.play (World.next ArchivalLoss.host)
      (fun _ _ => true) heldUp ArchivalReruns.newYearsDay).map
      (fun w => (w.runs[0]?.map fun run =>
      (run.token, match run.place with | .fetch pass => some pass.table | _ => none), w.holder)) =
      some (some (0, some .orderItems), some 1) := by decide +kernel
  obtain ⟨w, played, isEnd⟩ := Option.map_eq_some_iff.1 ends
  simp only [Prod.mk.injEq] at isEnd
  obtain ⟨isFirst, holder⟩ := isEnd
  obtain ⟨run, found, isRun⟩ := Option.map_eq_some_iff.1 isFirst
  simp only [Prod.mk.injEq] at isRun
  have issues : Issues run := by
    unfold Issues
    cases isPlace : run.place <;> rw [isPlace] at isRun <;> first | trivial | cases isRun.2
  have own := (always w (Machine.reach_of_play (fun _ _ _ => trivial) played)).holder run
    (List.mem_of_getElem? found) issues
  rw [holder, isRun.1] at own
  cases own

end SwiftBite.Verified.ArchivalLock
