import SwiftBite.Store.RelyGuarantee

/-! # Soundness of rely and guarantee

Verified calls, run together in a pool, keep the invariant of their protocol in every
state of every interleaving, and every single event keeps the guarantee of the call that
makes it.
-/

set_option autoImplicit false

namespace SwiftBite.Store

section

variable {T : Type} [DecidableEq T] {Row : T → Type} {K U : Type} [DecidableEq K] [DecidableEq U]
  [∀ t, Keyed (Row t) K U] {X ε O α β Γ : Type} [Host X ε]

/-! ## What one action holds and changes -/

omit [DecidableEq T] [DecidableEq K] [DecidableEq U] in
theorem entriesOf_append (ws ws' : List (Write Row K)) :
    (entriesOf (ws ++ ws') : List (Entry T K U)) = entriesOf ws ++ entriesOf ws' := by
  simp [entriesOf]

/-- An action leaves alone what it neither held before nor has just taken. -/
theorem Prog.next_footprint {choice : Choice} {prog : Prog Row X ε α} {l : Local Row K}
    {db : Db Row} {x : X} {out : Outcome (K := K) Row X ε α}
    (acts : prog.next choice l db x = some out) {e : Entry T K U} (free : e ∉ l.held)
    (unclaimed : e ∉ entriesOf out.acquired) : Db.Agree db out.db e ∧ e ∉ out.loc.held := by
  cases step_of_next acts with
  | onPool _ => exact ⟨Db.agree_applyAll unclaimed db, free⟩
  | @inTrx _ _ _ _ effect txn running _ =>
    refine ⟨.refl db e, ?_⟩
    obtain ⟨_, seen⟩ := l
    cases running
    show e ∉ entriesOf (txn.writes ++ effect.writes)
    rw [entriesOf_append, List.mem_append, not_or]
    exact ⟨free, unclaimed⟩
  | begins => exact ⟨.refl db e, List.not_mem_nil⟩
  | commits => exact ⟨Db.agree_applyAll free db, List.not_mem_nil⟩
  | rollsBack => exact ⟨.refl db e, List.not_mem_nil⟩
  | _ => exact ⟨.refl db e, free⟩

namespace Protocol

variable {P : Protocol (K := K) Row X ε O α Γ}

/-- One action of a verified call. -/
theorem wp_next (lawful : P.Lawful) {i : ℕ} {op : O} {prog : Prog Row X ε β}
    {Q : Except ε β → Local Row K → Sit Row X O Γ → Prop} {l : Local Row K} {s : Sit Row X O Γ}
    {choice : Choice} {out : Outcome (K := K) Row X ε β} (holds : P.inv s)
    (verified : P.wp i op prog Q l s) (beside : P.Alongside i op s)
    (acts : prog.next choice l s.db s.side = some out) (faults : choice = .fault → P.faulty op)
    (allowed : P.allow l (s.db.applyAll l.writes) out.acquired) :
    P.After i op s out.loc out.db out.side (P.wp i op out.prog Q out.loc) := by
  cases Prog.step_of_next acts with
  | stmtFails cause =>
    rcases cause with isFault | constraint | outside
    · exact .same lawful holds (verified.2 (.inr (.inl (faults isFault))))
    · exact .same lawful holds (verified.2 (.inl constraint))
    · exact .same lawful holds (verified.2 (.inr (.inr outside)))
  | onPool member => exact verified.1 beside _ member allowed
  | inTrx running member =>
    have done := verified.1 beside _ member
    obtain ⟨txn, seen⟩ := l
    cases running
    exact done allowed
  | sideFails => exact .same lawful holds (verified.2 rfl (faults rfl))
  | sideActs => exact verified.1
  | beginFails => exact .same lawful holds (verified.2 (faults rfl))
  | begins => exact .same lawful holds verified.1
  | commitFails => exact .same lawful holds (verified.2 (faults rfl))
  | commits => exact verified.1 beside
  | rollsBack => exact .same lawful holds verified

/-! ## The pool -/

end Protocol

namespace Pool

omit [DecidableEq T] [DecidableEq K] [DecidableEq U] [Host X ε]

/-- The operation of call `i`, while it is under way. -/
def live (p : Pool (K := K) Row X ε O α) (i : ℕ) : Option O :=
  match p.calls[i]? with
  | none => none
  | some call => if Ended call then none else some call.op

def sit (p : Pool (K := K) Row X ε O α) (ghost : Γ) : Sit Row X O Γ :=
  ⟨⟨p.db, p.side, ghost⟩, p.live⟩

theorem live_of_not_ended {p : Pool (K := K) Row X ε O α} {i : ℕ} {call : Call Row X ε O α}
    (found : p.calls[i]? = some call) (running : Ended call = false) : p.live i = some call.op := by
  simp [live, found, running]

theorem live_eq_some {p : Pool (K := K) Row X ε O α} {i : ℕ} {op : O}
    (running : p.live i = some op) :
    ∃ call, p.calls[i]? = some call ∧ Ended call = false ∧ call.op = op := by
  unfold live at running
  split at running
  · cases running
  next call found =>
    split at running
    next => cases running
    next going => exact ⟨call, found, by simpa using going, by simpa using running⟩

theorem lt_of_found {p : Pool (K := K) Row X ε O α} {i : ℕ} {call : Call Row X ε O α}
    (found : p.calls[i]? = some call) : i < p.calls.length :=
  (List.getElem?_eq_some_iff.1 found).1

theorem heldBy_of_found {p : Pool (K := K) Row X ε O α} {i : ℕ} {call : Call Row X ε O α}
    (found : p.calls[i]? = some call) : p.heldBy i = call.loc.held := by
  simp [heldBy, found]

theorem ended_done {op : O} {result : Except ε α} {l : Local Row K} :
    Ended (X := X) (⟨op, .done result, l⟩ : Call Row X ε O α) = true := rfl

theorem ended_iff {call : Call (K := K) Row X ε O α} :
    Ended call = true ↔ ∃ result, call.prog = .done result := by
  obtain ⟨op, prog, l⟩ := call
  cases prog <;> simp [Ended]

end Pool

namespace Protocol

variable (P : Protocol (K := K) Row X ε O α Γ)

/-- What a call must establish when it ends. -/
def verdict (i : ℕ) (op : O) (result : Except ε α) (_ : Local Row K) (s : Sit Row X O Γ) : Prop :=
  P.inv (s.retire i) ∧ P.post i op result s.toWorld

/-- Every operation keeps the protocol. -/
def Verified (code : O → Prog Row X ε α) : Prop :=
  ∀ i op s s', P.inv s → s.live i = none → P.admits op →
    (∀ j other, s.live j = some other → P.apart s.db op other) →
    P.Env i op .start (s.spawn i op) s' → P.wp i op (code op) (P.verdict i op) .start s'

/-- Any two calls under way may be under way together. -/
def Together (p : Pool (K := K) Row X ε O α) : Prop :=
  ∀ i j op other, i ≠ j → p.live i = some op → p.live j = some other → P.apart p.db op other

/-- The events of the runs that a protocol is about. -/
def Admissible (p : Pool (K := K) Row X ε O α) : Event O → Prop
  | .spawn op =>
    P.admits op ∧ ∀ j other, p.live j = some other → P.apart p.db op other ∧ P.apart p.db other op
  | .step i choice => P.Together p ∧ ∀ call, p.calls[i]? = some call →
      (choice = .fault → P.faulty call.op) ∧
      ∀ out, call.prog.next choice call.loc p.db p.side = some out →
        P.allow call.loc (p.db.applyAll call.loc.writes) out.acquired
  | .crash i => ∀ call, p.calls[i]? = some call → P.faulty call.op

/-- What one call contributes to a sound pool. -/
def Fine (w : World Row X Γ) (i : ℕ) (call : Call Row X ε O α) : Prop :=
  (Pool.Ended call = false →
    ∀ s' : Sit Row X O Γ, P.Drift i call.op call.loc w s'.toWorld → P.inv s' →
    s'.live i = some call.op → P.wp i call.op call.prog (P.verdict i call.op) call.loc s') ∧
  ∀ result, call.prog = .done result → P.post i call.op result w

/-- Two open transactions never hold the same thing. -/
def Exclusive (p : Pool (K := K) Row X ε O α) : Prop :=
  ∀ i j, i ≠ j → ∀ e ∈ p.heldBy i, e ∉ p.heldBy j

/-- The invariant of the pool, for some value of the ghost component. -/
structure Sound (p : Pool (K := K) Row X ε O α) (ghost : Γ) : Prop where
  inv : P.inv (p.sit ghost)
  exclusive : Exclusive p
  fine : ∀ i call, p.calls[i]? = some call → P.Fine (p.sit ghost).toWorld i call

variable {P}

theorem Fine.of_drift (lawful : P.Lawful) {w w' : World Row X Γ} {i : ℕ} {call : Call Row X ε O α}
    (fine : P.Fine w i call) (drift : Pool.Ended call = false → P.Drift i call.op call.loc w w')
    (keeps : ∀ result, P.post i call.op result w → P.post i call.op result w') : P.Fine w' i call :=
  ⟨fun running s further => fine.1 running s ((drift running).trans lawful further),
    fun result ended => keeps result (fine.2 result ended)⟩

/-- After a verified call has moved, the pool knows of it what it needs. -/
theorem fine_of_wp (call : Call Row X ε O α) (lawful : P.Lawful) {s : Sit Row X O Γ} {i : ℕ}
    (holds : P.inv s) (self : s.live i = some call.op)
    (verified : ∀ s', P.Env i call.op call.loc s s' →
      P.wp i call.op call.prog (P.verdict i call.op) call.loc s') :
    P.Fine s.toWorld i call ∧ (Pool.Ended call = true → P.inv (s.retire i)) := by
  refine ⟨⟨fun _ s' drift inv self => verified s' ⟨drift, inv, self⟩, fun result ended => ?_⟩,
    fun ended => ?_⟩
  · have last := verified s (.refl lawful holds self)
    rw [ended] at last
    exact last.2
  · obtain ⟨result, done⟩ := Pool.ended_iff.1 ended
    have last := verified s (.refl lawful holds self)
    rw [done] at last
    exact last.1

section Events

variable {p p' : Pool (K := K) Row X ε O α} {ghost : Γ} {code : O → Prog Row X ε α}

omit [DecidableEq T] [DecidableEq K] [DecidableEq U] [Host X ε] in
/-- Replacing one call changes the calls under way in its place only. -/
theorem live_set {i : ℕ} (call : Call Row X ε O α) (db : Db Row) (x : X)
    (bound : i < p.calls.length) :
    (⟨db, x, p.calls.set i call⟩ : Pool Row X ε O α).live =
      Function.update p.live i (if Pool.Ended call then none else some call.op) := by
  funext j
  by_cases same : j = i
  · subst same
    simp [Pool.live, bound]
  · simp [Pool.live, same, List.getElem?_set_ne (Ne.symm same)]

omit [DecidableEq T] [DecidableEq K] [DecidableEq U] [Host X ε] in
theorem live_append (call : Call Row X ε O α) :
    (⟨p.db, p.side, p.calls ++ [call]⟩ : Pool Row X ε O α).live =
      Function.update p.live p.calls.length (if Pool.Ended call then none else some call.op) := by
  funext j
  by_cases same : j = p.calls.length
  · subst same
    simp [Pool.live]
  · rcases Nat.lt_or_gt_of_ne same with lower | higher
    · simp [Pool.live, same, List.getElem?_append_left lower]
    · have outside : (p.calls ++ [call])[j]? = none := by
        rw [List.getElem?_eq_none_iff]; simp; omega
      have absent : p.calls[j]? = none := by rw [List.getElem?_eq_none_iff]; omega
      simp [Pool.live, same, outside, absent]

omit [DecidableEq T] [DecidableEq K] [DecidableEq U] [Host X ε] in
theorem live_length : p.live p.calls.length = none := by simp [Pool.live]

omit [DecidableEq T] [DecidableEq K] [DecidableEq U] [Host X ε] in
theorem alongside_of_live (together : P.Together p) {i : ℕ} {op : O}
    (running : p.live i = some op) : P.Alongside i op (p.sit ghost) :=
  fun j other different going => together i j op other different.symm running going

theorem sound_quiet (ghost : Γ) {db : Db Row} {x : X}
    (holds : P.inv ⟨⟨db, x, ghost⟩, fun _ => none⟩) :
    P.Sound (Pool.quiet db x : Pool Row X ε O α) ghost where
  inv := holds
  exclusive := by intro i j _ e held; simp [Pool.heldBy, Pool.quiet] at held
  fine := by intro i call found; simp [Pool.quiet] at found

/-- A pool in which a call starts that is verified from there on. -/
theorem sound_start (lawful : P.Lawful) (sound : P.Sound p ghost) {op : O}
    (spawned : P.inv ((p.sit ghost).spawn p.calls.length op))
    (verified : ∀ s', P.Env p.calls.length op .start ((p.sit ghost).spawn p.calls.length op) s' →
      P.wp p.calls.length op (code op) (P.verdict p.calls.length op) .start s')
    (moves : p.next code (.spawn op) = some p') : P.Sound p' ghost := by
  simp only [Pool.next, Option.some.injEq] at moves
  subst moves
  have started :=
    fine_of_wp ⟨op, code op, .start⟩ lawful spawned (Sit.spawn_live_self _ _ _) verified
  refine ⟨?_, ?_, ?_⟩
  · have lives := live_append (p := p) ⟨op, code op, .start⟩
    -- A call that returns at once is never live.
    by_cases ended : Pool.Ended (⟨op, code op, .start⟩ : Call Row X ε O α) = true
    · have closed := started.2 ended
      rw [if_pos ended] at lives
      simp only [Pool.sit, lives]
      simpa [Sit.retire, Sit.spawn, Pool.sit] using closed
    · rw [if_neg ended] at lives
      simp only [Pool.sit, lives]
      exact spawned
  · intro i j different e held
    -- The new call holds nothing.
    have fresh : ∀ k,
        (⟨p.db, p.side, p.calls ++ [⟨op, code op, .start⟩]⟩ : Pool Row X ε O α).heldBy k =
        p.heldBy k := by
      intro k
      rcases Nat.lt_trichotomy k p.calls.length with lower | same | higher
      · simp [Pool.heldBy, List.getElem?_append_left lower]
      · subst same
        simp [Pool.heldBy, Local.held, Local.writes, Local.start]
      · have outside : (p.calls ++ [⟨op, code op, .start⟩])[k]? = none := by
          rw [List.getElem?_eq_none_iff]; simp; omega
        have absent : p.calls[k]? = none := by rw [List.getElem?_eq_none_iff]; omega
        simp [Pool.heldBy, outside, absent]
    rw [fresh] at held ⊢
    exact sound.exclusive i j different e held
  · intro i call found
    rcases Nat.lt_or_ge i p.calls.length with lower | higher
    · rw [List.getElem?_append_left lower] at found
      exact sound.fine i call found
    · rw [List.getElem?_append_right higher] at found
      have last : i = p.calls.length := by
        have := (List.getElem?_eq_some_iff.1 found).1
        simp at this
        omega
      subst last
      simp at found
      subst found
      exact started.1

theorem sound_spawn (lawful : P.Lawful) (verified : P.Verified code) (sound : P.Sound p ghost)
    {op : O} (condition : P.Admissible p (.spawn op))
    (moves : p.next code (.spawn op) = some p') : P.Sound p' ghost :=
  sound_start lawful sound (lawful.inv_spawn sound.inv live_length condition.1) (fun s' env =>
    verified _ op _ s' sound.inv live_length condition.1
      (fun j other going => (condition.2 j other going).1) env) moves

theorem sound_crash (lawful : P.Lawful) (sound : P.Sound p ghost) {i : ℕ}
    (condition : P.Admissible p (.crash i)) (moves : p.next code (.crash i) = some p') :
    P.Sound p' ghost := by
  obtain ⟨call, found, running, rfl⟩ := Pool.crashCall_inv moves
  have bound := Pool.lt_of_found found
  have lives := live_set ⟨call.op, .done (.error (Host.fault X)), .start⟩ p.db p.side bound
  simp only [Pool.ended_done, if_true] at lives
  have retired :=
    lawful.inv_crash (condition call found) (Pool.live_of_not_ended found running) sound.inv
  refine ⟨?_, ?_, ?_⟩
  · simp only [Pool.sit, lives]
    exact retired.1
  · intro j k different e held
    have kept : ∀ k, e ∈ Pool.heldBy
        (⟨p.db, p.side, p.calls.set i ⟨call.op, .done (.error (Host.fault X)), .start⟩⟩ :
        Pool Row X ε O α) k → e ∈ p.heldBy k := by
      intro k member
      by_cases same : k = i
      · subst same
        simp [Pool.heldBy, bound, Local.held, Local.writes, Local.start] at member
      · simpa [Pool.heldBy, List.getElem?_set_ne (Ne.symm same)] using member
    exact fun other => sound.exclusive j k different e (kept j held) (kept k other)
  · intro j other at_j
    by_cases same : j = i
    · subst same
      simp [bound] at at_j
      subst at_j
      refine ⟨fun going => by simp [Pool.Ended] at going, fun result ended => ?_⟩
      cases ended
      exact retired.2
    · rw [List.getElem?_set_ne (Ne.symm same)] at at_j
      exact sound.fine j other at_j

theorem sound_step (lawful : P.Lawful) (sound : P.Sound p ghost) {i : ℕ} {choice : Choice}
    (condition : P.Admissible p (.step i choice)) (moves : p.next code (.step i choice) = some p') :
    ∃ ghost' call, P.Sound p' ghost' ∧ p.calls[i]? = some call ∧
      P.guar i call.op (p.sit ghost).toWorld (p'.sit ghost').toWorld := by
  obtain ⟨call, out, found, acts, unheld, rfl⟩ := Pool.stepCall_inv moves
  obtain ⟨together, condition⟩ := condition
  have bound := Pool.lt_of_found found
  have running : Pool.Ended call = false := by
    obtain ⟨op, prog, l⟩ := call
    cases prog <;> first | rfl | cases acts
  have self := Pool.live_of_not_ended found running
  have verified := (sound.fine i call found).1 running _ (.refl lawful _ _ _ _) sound.inv self
  obtain ⟨ghost', inv, guar, rest⟩ :=
    wp_next lawful sound.inv verified (alongside_of_live together self) acts
    (condition call found).1 ((condition call found).2 out acts)
  have footprint : ∀ e, e ∉ call.loc.held → e ∉ entriesOf out.acquired →
      Db.Agree p.db out.db e ∧ e ∉ out.loc.held :=
    fun e => Prog.next_footprint acts
  have moved := fine_of_wp ⟨call.op, out.prog, out.loc⟩ lawful inv self rest
  have lives := live_set ⟨call.op, out.prog, out.loc⟩ out.db out.side bound
  -- What the others hold, call `i` has neither held nor taken.
  have untouched : ∀ j, j ≠ i →
      ∀ e ∈ p.heldBy j, e ∉ call.loc.held ∧ e ∉ entriesOf out.acquired := by
    intro j different e held
    refine ⟨fun own => ?_, fun taken => ?_⟩
    · rw [← Pool.heldBy_of_found found] at own
      exact sound.exclusive i j different.symm e own held
    · by_cases inside : j < p.calls.length
      · exact unheld j inside different e taken held
      · simp [Pool.heldBy, List.getElem?_eq_none_iff.2 (Nat.le_of_not_lt inside)] at held
  refine ⟨ghost', call, ⟨?_, ?_, ?_⟩, found, guar⟩
  · by_cases ended : Pool.Ended (⟨call.op, out.prog, out.loc⟩ : Call Row X ε O α) = true
    · have closed := moved.2 ended
      rw [if_pos ended] at lives
      simp only [Pool.sit, lives]
      exact closed
    · rw [if_neg ended, Function.update_eq_self_iff.2 self.symm] at lives
      simp only [Pool.sit, lives]
      exact inv
  · have holds : ∀ j, j ≠ i →
        Pool.heldBy (⟨out.db, out.side, p.calls.set i ⟨call.op, out.prog, out.loc⟩⟩ :
        Pool Row X ε O α) j = p.heldBy j := by
      intro j different
      simp [Pool.heldBy, List.getElem?_set_ne (Ne.symm different)]
    have own : Pool.heldBy (⟨out.db, out.side, p.calls.set i ⟨call.op, out.prog, out.loc⟩⟩ :
        Pool Row X ε O α) i = out.loc.held := by
      simp [Pool.heldBy, bound]
    intro j k different e held
    by_cases isLeft : j = i
    · subst isLeft
      rw [own] at held
      rw [holds k different.symm]
      intro other
      have free := untouched k different.symm e other
      exact (footprint e free.1 free.2).2 held
    · rw [holds j isLeft] at held
      by_cases isRight : k = i
      · subst isRight
        rw [own]
        have free := untouched j isLeft e held
        exact (footprint e free.1 free.2).2
      · rw [holds k isRight]
        exact sound.exclusive j k different e held
  · intro j other at_j
    by_cases same : j = i
    · subst same
      simp [bound] at at_j
      subst at_j
      exact moved.1
    · rw [List.getElem?_set_ne (Ne.symm same)] at at_j
      show P.Fine (⟨⟨out.db, out.side, ghost'⟩, p.live⟩ : Sit Row X O Γ).toWorld j other
      refine (sound.fine j other at_j).of_drift lawful (fun going => ?_) fun result =>
        lawful.post_stable sound.inv inv guar
      refine ⟨lawful.rely_of_guar same
        (together j i _ _ same (Pool.live_of_not_ended at_j going) self) sound.inv inv guar,
        fun e held => ?_⟩
      rw [← Pool.heldBy_of_found at_j] at held
      have free := untouched j same e held
      exact (footprint e free.1 free.2).1

end Events

/-! ## Runs -/

/-- What one event of a verified pool does: a step keeps the guarantee of its call, any other
event leaves the committed state as it is. -/
def Conforms (P : Protocol (K := K) Row X ε O α Γ) (p : Pool (K := K) Row X ε O α) :
    Event O → Pool (K := K) Row X ε O α → Prop
  | .step i _, p' => ∃ call ghost ghost', p.calls[i]? = some call ∧ P.Sound p ghost ∧
      P.guar i call.op (p.sit ghost).toWorld (p'.sit ghost').toWorld
  | _, p' => p'.db = p.db ∧ p'.side = p.side

theorem sound_next (lawful : P.Lawful) {code : O → Prog Row X ε α} (verified : P.Verified code)
    {p p' : Pool (K := K) Row X ε O α} {ghost : Γ} (sound : P.Sound p ghost) {e : Event O}
    (condition : P.Admissible p e) (moves : p.next code e = some p') :
    (∃ ghost', P.Sound p' ghost') ∧ P.Conforms p e p' := by
  cases e with
  | spawn op =>
    refine ⟨⟨ghost, sound_spawn lawful verified sound condition moves⟩, ?_⟩
    simp only [Pool.next, Option.some.injEq] at moves
    subst moves
    exact ⟨rfl, rfl⟩
  | step i choice =>
    obtain ⟨ghost', call, sound', found, guar⟩ := sound_step lawful sound condition moves
    exact ⟨⟨ghost', sound'⟩, call, ghost, ghost', found, sound, guar⟩
  | crash i =>
    refine ⟨⟨ghost, sound_crash lawful sound condition moves⟩, ?_⟩
    obtain ⟨call, _, _, rfl⟩ := Pool.crashCall_inv moves
    exact ⟨rfl, rfl⟩

/-- Every state of every admissible run is sound. -/
theorem sound_of_reach (lawful : P.Lawful) {code : O → Prog Row X ε α} (verified : P.Verified code)
    {allowed : Pool Row X ε O α → Event O → Prop}
    (admissible : ∀ p e, allowed p e → P.Admissible p e) {start p : Pool (K := K) Row X ε O α}
    {ghost : Γ} (sound : P.Sound start ghost) (reached : Pool.Reach code allowed start p) :
    ∃ ghost', P.Sound p ghost' := by
  refine Pool.Reach.induct (fun p => ∃ ghost', P.Sound p ghost') ⟨ghost, sound⟩ ?_ reached
  intro p p' e ⟨ghost', holds⟩ condition moves
  exact (sound_next lawful verified holds (admissible p e condition) moves).1

end Protocol

end

end SwiftBite.Store
