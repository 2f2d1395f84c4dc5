import SwiftBite.Store.Pool
import SwiftBite.Store.Statement

/-! # What a call can do

`can` is the angelic counterpart of `solo`: a call that runs alone, and whose actions do not fail,
has some way to its end that establishes a postcondition.  `Pool.reach_of_can` takes that way in a
pool whose other calls hold nothing.
-/

set_option autoImplicit false

namespace SwiftBite.Store

section

variable {T : Type} [DecidableEq T] {Row : T → Type} {K U : Type} [DecidableEq K] [DecidableEq U]
  [∀ t, Keyed (Row t) K U] {X ε O α β γ : Type} [Host X ε]

namespace Prog

/-- What holds after a statement that did not fail. -/
def Gives (on : Conn) (effect : Effect Row K β) (l : Local Row K) (db : Db Row)
    (Φ : Local Row K → Db Row → Prop) : Prop :=
  match on, l.txn with
  | .pool, _ => Φ (l.saw effect.seen) (db.applyAll effect.writes)
  | .trx, some txn =>
    Φ ⟨some { txn with writes := txn.writes ++ effect.writes }, effect.seen ++ l.seen⟩ db
  | .trx, none => False

def can :
    Prog (K := K) Row X ε β → (Except ε β → Local Row K → Db Row → X → Prop) → Local Row K →
    Db Row → X → Prop
  | .done result, Q, l, db, x => Q result l db x
  | .stmt on run next, Q, l, db, x => ∃ effect, some effect ∈ run (instant on l x) (l.view db on) ∧
      Gives on effect l db fun l db => can (next (.ok effect.reply)) Q l db x
  | .side _ run next, Q, l, db, x => can (next (run x).1) Q l db (run x).2
  | .begin next, Q, l, db, x => can (next (.ok ())) Q { l with txn := some ⟨Host.now x, []⟩ } db x
  | .commit next, Q, l, db, x =>
    can (next (.ok ())) Q { l with txn := none } (db.applyAll l.writes) x
  | .rollback next, Q, l, db, x => can next Q { l with txn := none } db x

variable {l : Local Row K} {db : Db Row} {x : X}

theorem Gives.mono {on : Conn} {effect : Effect Row K β} {Φ Φ' : Local Row K → Db Row → Prop}
    (weaker : ∀ l db, Φ l db → Φ' l db) (gives : Gives on effect l db Φ) :
    Gives on effect l db Φ' := by
  obtain ⟨txn, seen⟩ := l
  cases on with
  | pool => exact weaker _ _ gives
  | trx =>
    cases txn with
    | none => exact gives.elim
    | some txn => exact weaker _ _ gives

/-! ## The combinators -/

theorem can_mono {prog : Prog Row X ε β} {Q Q' : Except ε β → Local Row K → Db Row → X → Prop}
    (weaker : ∀ result l db x, Q result l db x → Q' result l db x)
    (holds : prog.can Q l db x) : prog.can Q' l db x := by
  induction prog generalizing l db x with
  | done result => exact weaker _ _ _ _ holds
  | stmt on run next inductionHypothesis =>
    obtain ⟨effect, member, gives⟩ := holds
    exact ⟨effect, member, gives.mono fun _ _ => inductionHypothesis _⟩
  | side fallible run next inductionHypothesis => exact inductionHypothesis _ holds
  | begin next inductionHypothesis => exact inductionHypothesis _ holds
  | commit next inductionHypothesis => exact inductionHypothesis _ holds
  | rollback next inductionHypothesis => exact inductionHypothesis holds

/-- What a program must establish for its continuation. -/
abbrev canBind (f : β → Prog Row X ε γ) (Q : Except ε γ → Local Row K → Db Row → X → Prop) :
    Except ε β → Local Row K → Db Row → X → Prop
  | .ok b, l, db, x => (f b).can Q l db x
  | .error e, l, db, x => Q (.error e) l db x

theorem can_bind {prog : Prog Row X ε β} {f : β → Prog Row X ε γ}
    {Q : Except ε γ → Local Row K → Db Row → X → Prop} (holds : prog.can (canBind f Q) l db x) :
    (prog.bind f).can Q l db x := by
  induction prog generalizing l db x with
  | done result => cases result <;> exact holds
  | stmt on run next inductionHypothesis =>
    obtain ⟨effect, member, gives⟩ := holds
    exact ⟨effect, member, gives.mono fun _ _ => inductionHypothesis _⟩
  | side fallible run next inductionHypothesis => exact inductionHypothesis _ holds
  | begin next inductionHypothesis => exact inductionHypothesis _ holds
  | commit next inductionHypothesis => exact inductionHypothesis _ holds
  | rollback next inductionHypothesis => exact inductionHypothesis holds

theorem can_do {prog : Prog Row X ε β} {f : β → Prog Row X ε γ}
    {Q : Except ε γ → Local Row K → Db Row → X → Prop}
    (holds : prog.can (canBind f Q) l db x) : (prog >>= f).can Q l db x :=
  can_bind holds

/-- A guarded program that need not throw. -/
theorem can_tryCatch {prog : Prog Row X ε β} {handler : ε → Prog Row X ε β}
    {Q : β → Local Row K → Db Row → X → Prop}
    (holds : prog.can (fun result l db x => ∃ b, result = .ok b ∧ Q b l db x) l db x) :
    (prog.tryCatch handler).can (fun result l db x => ∃ b, result = .ok b ∧ Q b l db x) l db x := by
  induction prog generalizing l db x with
  | done result =>
    obtain ⟨b, rfl, holds⟩ := holds
    exact ⟨b, rfl, holds⟩
  | stmt on run next inductionHypothesis =>
    obtain ⟨effect, member, gives⟩ := holds
    exact ⟨effect, member, gives.mono fun _ _ => inductionHypothesis _⟩
  | side fallible run next inductionHypothesis => exact inductionHypothesis _ holds
  | begin next inductionHypothesis => exact inductionHypothesis _ holds
  | commit next inductionHypothesis => exact inductionHypothesis _ holds
  | rollback next inductionHypothesis => exact inductionHypothesis holds

/-- A transaction that commits. -/
theorem can_transaction {body : Prog Row X ε β} {seen : List (Sigma Row)}
    {Q : β → Local Row K → Db Row → X → Prop}
    (inside : body.can (fun result l db x => ∃ b, result = .ok b ∧ Q b { l with
      txn := none } (db.applyAll l.writes) x) ⟨some ⟨Host.now x, []⟩, seen⟩ db x) :
    (Prog.transaction body).can (fun result l db x => ∃ b, result = .ok b ∧ Q b l db x)
      ⟨none, seen⟩ db x := by
  refine can_tryCatch (can_bind (can_mono ?_ inside))
  rintro result l db x ⟨b, rfl, holds⟩
  exact ⟨b, rfl, holds⟩

/-! ## Statements -/

theorem can_sure {run : X → β × X} {Q : Except ε β → Local Row K → Db Row → X → Prop}
    (next : Q (.ok (run x).1) l db (run x).2) : (Prog.sure run : Prog Row X ε β).can Q l db x :=
  next

section Trx

variable {began : ℕ} {ws : List (Write Row K)} {seen : List (Sigma Row)}

theorem can_select_trx {read : ℕ → Db Row → β} {Q : Except ε β → Local Row K → Db Row → X → Prop}
    (next : Q (.ok (read began (db.applyAll ws))) ⟨some ⟨began, ws⟩, seen⟩ db x) :
    (Prog.exec .trx (Statement.select read) : Prog Row X ε β).can Q
      ⟨some ⟨began, ws⟩, seen⟩ db x := by
  refine ⟨_, List.mem_singleton.2 rfl, ?_⟩
  show Q _ ⟨some ⟨began, ws ++ []⟩, _⟩ db x
  rwa [List.append_nil]

theorem can_insert_trx {t : T} {parents : List (T × K)} {row : ℕ → Row t}
    {Q : Except ε (Row t) → Local Row K → Db Row → X → Prop}
    (free : (db.applyAll ws t).conflicts (row began) = false)
    (references : Statement.referencesHold (db.applyAll ws) parents = true)
    (next : ∀ seen',
      Q (.ok (row began)) ⟨some ⟨began, ws ++ [.insert t (row began)]⟩, seen'⟩ db x) :
    (Prog.exec .trx (Statement.insert t parents row)).can Q ⟨some ⟨began, ws⟩, seen⟩ db x := by
  refine ⟨⟨[.insert t (row began)], [⟨t, row began⟩], row began⟩, ?_, next _⟩
  show _ ∈ Statement.insert t parents row began (db.applyAll ws)
  simp [Statement.insert, free, references]

theorem can_insertAll_trx {t : T} {parents : List (T × K)} {rows : ℕ → List (Row t)}
    {Q : Except ε (List (Row t)) → Local Row K → Db Row → X → Prop}
    (free : Statement.insertable (db.applyAll ws t) (rows began) = true)
    (references : Statement.referencesHold (db.applyAll ws) parents = true)
    (next : ∀ seen',
      Q (.ok (rows began)) ⟨some ⟨began, ws ++ (rows began).map (.insert t)⟩, seen'⟩ db x) :
    (Prog.exec .trx (Statement.insertAll t parents rows)).can Q ⟨some ⟨began, ws⟩, seen⟩ db x := by
  refine ⟨⟨(rows began).map (.insert t), (rows began).map (Sigma.mk t), rows began⟩, ?_, next _⟩
  show _ ∈ Statement.insertAll t parents rows began (db.applyAll ws)
  simp [Statement.insertAll, free, references]

end Trx

/-- The choice that takes a possible outcome of a statement. -/
theorem next_of_gives {on : Conn} {run : ℕ → Db Row → List (Option (Effect Row K γ))}
    {following : Except ε γ → Prog Row X ε β} {effect : Effect Row K γ}
    (member : some effect ∈ run (instant on l x) (l.view db on)) {Φ : Local Row K → Db Row → Prop}
    (gives : Gives on effect l db Φ) :
    ∃ n out, (stmt on run following).next (.pick n) l db x = some out ∧
      out.prog = following (.ok effect.reply) ∧ out.side = x ∧ Φ out.loc out.db := by
  obtain ⟨n, isNth⟩ := List.mem_iff_getElem?.1 member
  refine ⟨n, perform on effect following l db x, by rw [Prog.next]; simp only [isNth], ?_⟩
  obtain ⟨txn, seen⟩ := l
  cases on with
  | pool => exact ⟨rfl, rfl, gives⟩
  | trx =>
    cases txn with
    | none => exact gives.elim
    | some txn => exact ⟨rfl, rfl, gives⟩

end Prog

/-! ## In a pool -/

namespace Pool

variable {code : O → Prog Row X ε α} {allowed : Pool (K := K) Row X ε O α → Event O → Prop}
  {calls : List (Call Row X ε O α)} {op : O}
  {prog : Prog Row X ε α} {l : Local Row K} {db : Db Row} {x : X} {Q : Except ε α → Local Row K →
    Db Row → X → Prop}

/-- The last call acts, beside calls that hold nothing. -/
theorem next_last (free : ∀ call ∈ calls, call.loc.held = []) {choice : Choice}
    {out : Outcome (K := K) Row X ε α} (acts : prog.next choice l db x = some out) :
    (⟨db, x, calls ++ [⟨op, prog, l⟩]⟩ : Pool Row X ε O α).next code (.step calls.length choice) =
      some ⟨out.db, out.side, calls ++ [⟨op, out.prog, out.loc⟩]⟩ := by
  have isLast : (calls ++ [(⟨op, prog, l⟩ : Call Row X ε O α)])[calls.length]? =
      some ⟨op, prog, l⟩ := by simp
  have unheld : (⟨db, x, calls ++ [⟨op, prog, l⟩]⟩ : Pool Row X ε O α).Unheld calls.length
      out.acquired := by
    intro j bound other e _ held
    have inside : j < calls.length := by
      simp only [List.length_append, List.length_singleton] at bound
      omega
    rw [heldBy, List.getElem?_append_left inside, List.getElem?_eq_getElem inside, Option.map_some,
      Option.getD_some,
      free _ (List.getElem_mem inside)] at held
    cases held
  simp only [Pool.next, stepCall, isLast, acts, if_pos unheld]
  simp

/-- What the last call can do, it does. -/
theorem reach_of_can (free : ∀ call ∈ calls, call.loc.held = [])
    (permits : ∀ p n, allowed p (.step calls.length (.pick n))) (can : prog.can Q l db x) :
    ∃ result l' db' x', Q result l' db' x' ∧
      Reach code allowed ⟨db, x, calls ++ [⟨op, prog, l⟩]⟩
        ⟨db', x', calls ++ [⟨op, .done result, l'⟩]⟩ := by
  induction prog generalizing l db x with
  | done result => exact ⟨result, l, db, x, can, .refl⟩
  | stmt on run next inductionHypothesis =>
    obtain ⟨effect, member, gives⟩ := can
    obtain ⟨n, out, acts, isProg, sameSide, onward⟩ := Prog.next_of_gives member gives
    obtain ⟨result, l', db', x', holds, rest⟩ := inductionHypothesis _ onward
    refine ⟨result, l', db', x', holds,
      (Reach.step .refl (permits _ n) (next_last free acts)).trans ?_⟩
    rwa [isProg, sameSide]
  | side fallible run next inductionHypothesis =>
    obtain ⟨result, l', db', x', holds, rest⟩ := inductionHypothesis _ can
    exact ⟨result, l', db', x', holds,
      (Reach.step .refl (permits _ 0) (next_last free rfl)).trans rest⟩
  | begin next inductionHypothesis =>
    obtain ⟨result, l', db', x', holds, rest⟩ := inductionHypothesis _ can
    exact ⟨result, l', db', x', holds,
      (Reach.step .refl (permits _ 0) (next_last free rfl)).trans rest⟩
  | commit next inductionHypothesis =>
    obtain ⟨result, l', db', x', holds, rest⟩ := inductionHypothesis _ can
    exact ⟨result, l', db', x', holds,
      (Reach.step .refl (permits _ 0) (next_last free rfl)).trans rest⟩
  | rollback next inductionHypothesis =>
    obtain ⟨result, l', db', x', holds, rest⟩ := inductionHypothesis can
    exact ⟨result, l', db', x', holds,
      (Reach.step .refl (permits _ 0) (next_last free rfl)).trans rest⟩

/-- A call that is started, and does what it can. -/
theorem reach_of_spawn (code : O → Prog Row X ε α)
    (allowed : Pool (K := K) Row X ε O α → Event O → Prop) {p : Pool Row X ε O α} (op : O)
    (free : ∀ call ∈ p.calls, call.loc.held = []) (starts : allowed p (.spawn op))
    (permits : ∀ p' n, allowed p' (.step p.calls.length (.pick n)))
    (can : (code op).can Q .start p.db p.side) :
    ∃ result l' db' x', Q result l' db' x' ∧
    Reach code allowed p ⟨db', x', p.calls ++ [⟨op, .done result, l'⟩]⟩ := by
  obtain ⟨result, l', db', x', holds, rest⟩ := reach_of_can free permits can
  exact ⟨result, l', db', x', holds, (Reach.step .refl starts rfl).trans rest⟩

end Pool

end

end SwiftBite.Store
