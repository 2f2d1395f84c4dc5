import SwiftBite.Store.Footprint

/-! # The journal of a run

When the programs of all calls keep within the same bounds on their writes, the committed
database is at every moment what it was at an earlier one with a list of such writes applied:
whatever interleaves, fails or crashes.  So a relation that each of these writes respects holds
between any two states of a run, and a property of rows that each of them keeps holds of every
row of every state.
-/

set_option autoImplicit false

namespace SwiftBite.Store

section

variable {T : Type} [DecidableEq T] {Row : T → Type} {K U : Type} [DecidableEq K] [DecidableEq U]
  [∀ t, Keyed (Row t) K U] {X ε O α : Type}

/-! ## Single writes -/

/-- An update moves every row to a related one. -/
def Write.Moves (related : ∀ t, Row t → Row t → Prop) : Write Row K → Prop
  | .update t _ f => ∀ row, related t row (f row)
  | .insert _ _ | .lock _ _ => True

/-- A row that is inserted has the property, and a row that is updated keeps it. -/
def Write.Upholds (ok : ∀ t, Row t → Prop) : Write Row K → Prop
  | .insert t row => ok t row
  | .update t _ f => ∀ row, ok t row → ok t (f row)
  | .lock _ _ => True

namespace Db

/-- Every row stays, and is related to what it was. -/
def Evolves (related : ∀ t, Row t → Row t → Prop) (db db' : Db Row) : Prop :=
  ∀ t, Table.Evolves (related t) (db t) (db' t)

/-- Every row has the property. -/
def Upright (ok : ∀ t, Row t → Prop) (db : Db Row) : Prop := ∀ t, ∀ row ∈ (db t).rows, ok t row

section

variable {related : ∀ t, Row t → Row t → Prop} {ok : ∀ t, Row t → Prop} {w : Write Row K}

omit [DecidableEq T] [DecidableEq U] in
theorem Evolves.refl (refl : ∀ t row, related t row row) (db : Db Row) : Evolves related db db :=
  fun t => .refl (refl t) (db t)

omit [DecidableEq T] [DecidableEq U] in
theorem Evolves.trans (trans : ∀ t a b c, related t a b → related t b c → related t a c)
    {db db' db'' : Db Row} (first : Evolves related db db') (second : Evolves related db' db'') :
    Evolves related db db'' :=
  fun t => (first t).trans (trans t) (second t)

theorem evolves_apply (refl : ∀ t row, related t row row) (moves : w.Moves related) (db : Db Row) :
    Evolves related db (db.apply w) := by
  intro t
  by_cases about : w.table = t
  · subst about
    cases w with
    | insert t row =>
      show Table.Evolves (related t) (db t) (db.apply (.insert t row) t)
      rw [apply_insert_self]
      exact .insert (refl t) (db t) row
    | update t k f =>
      show Table.Evolves (related t) (db t) (db.apply (.update t k f) t)
      rw [apply_update_self]
      exact .modify (refl t) moves (db t) k
    | lock t k => exact .refl (refl t) (db t)
  · rw [apply_other db about]
    exact .refl (refl t) (db t)

theorem evolves_applyAll (refl : ∀ t row, related t row row)
    (trans : ∀ t a b c, related t a b → related t b c → related t a c) {ws : List (Write Row K)}
    (moves : ∀ w ∈ ws, w.Moves related) (db : Db Row) : Evolves related db (db.applyAll ws) := by
  induction ws generalizing db with
  | nil => exact .refl refl db
  | cons w ws inductionHypothesis =>
    obtain ⟨first, rest⟩ := List.forall_mem_cons.1 moves
    exact (evolves_apply refl first db).trans trans (inductionHypothesis rest _)

theorem upright_apply (upholds : w.Upholds ok) {db : Db Row} (upright : Upright ok db) :
    Upright ok (db.apply w) := by
  intro t row member
  by_cases about : w.table = t
  · subst about
    cases w with
    | insert t new =>
      change row ∈ (db.apply (.insert t new) t).rows at member
      rw [apply_insert_self] at member
      rcases Table.mem_insert member with old | isNew
      · exact upright t row old
      · rw [isNew]
        exact upholds
    | update t k f =>
      change row ∈ (db.apply (.update t k f) t).rows at member
      rw [apply_update_self] at member
      obtain ⟨old, among, rfl⟩ := Table.mem_modify.1 member
      exact Table.rewrite_induction (upright t old among) (upholds old (upright t old among))
    | lock t k => exact upright t row member
  · rw [apply_other db about] at member
    exact upright t row member

theorem upright_applyAll {ws : List (Write Row K)} (upholds : ∀ w ∈ ws, w.Upholds ok) {db : Db Row}
    (upright : Upright ok db) : Upright ok (db.applyAll ws) := by
  induction ws generalizing db with
  | nil => exact upright
  | cons w ws inductionHypothesis =>
    obtain ⟨first, rest⟩ := List.forall_mem_cons.1 upholds
    exact inductionHypothesis rest (upright_apply first upright)

end

end Db

/-! ## Runs -/

namespace Pool

variable {b : Bounds Row K X}

/-- What is left of each call, and what its open transaction has written so far, is within the
bounds. -/
def Audited (b : Bounds Row K X) (p : Pool Row X ε O α) : Prop :=
  ∀ call ∈ p.calls, call.prog.Harmless b ∧ ∀ w ∈ call.loc.writes, b.writes w

omit [DecidableEq T] [DecidableEq K] [DecidableEq U] in
theorem audited_quiet (db : Db Row) (x : X) : Audited b (quiet db x : Pool Row X ε O α) :=
  fun _ none => absurd none List.not_mem_nil

variable [Host X ε] {code : O → Prog Row X ε α}

/-- One event commits writes within the bounds, if any. -/
theorem Audited.next {p p' : Pool Row X ε O α} {e : Event O}
    (harmless : ∀ op, e = .spawn op → (code op).Harmless b) (audited : Audited b p)
    (moves : p.next code e = some p') :
    Audited b p' ∧ ∃ ws : List (Write Row K), (∀ w ∈ ws, b.writes w) ∧
    p'.db = p.db.applyAll ws := by
  have nothing : ∀ w ∈ (Local.start : Local Row K).writes, b.writes w :=
    fun _ none => absurd none List.not_mem_nil
  have still : ∃ ws : List (Write Row K), (∀ w ∈ ws, b.writes w) ∧ p.db = p.db.applyAll ws :=
    ⟨[], fun _ none => absurd none List.not_mem_nil, rfl⟩
  cases e with
  | spawn op =>
    cases moves
    refine ⟨fun call member => ?_, still⟩
    rcases List.mem_append.1 member with old | new
    · exact audited call old
    · cases List.mem_singleton.1 new
      exact ⟨harmless op rfl, nothing⟩
  | step i choice =>
    obtain ⟨call, out, found, acts, _, rfl⟩ := stepCall_inv moves
    obtain ⟨within, pending⟩ := audited call (List.mem_of_getElem? found)
    obtain ⟨within', pending', committed⟩ := within.next pending acts
    refine ⟨fun other member => ?_, committed⟩
    rcases List.mem_or_eq_of_mem_set member with old | rfl
    · exact audited other old
    · exact ⟨within', pending'⟩
  | crash i =>
    obtain ⟨call, _, _, rfl⟩ := crashCall_inv moves
    refine ⟨fun other member => ?_, still⟩
    rcases List.mem_or_eq_of_mem_set member with old | rfl
    · exact audited other old
    · exact ⟨trivial, nothing⟩

/-- The journal of a run. -/
theorem journal_of_reach {allowed : Pool Row X ε O α → Event O → Prop}
    (harmless : ∀ p op, allowed p (.spawn op) → (code op).Harmless b) {p p' : Pool Row X ε O α}
    (audited : Audited b p) (reached : Reach code allowed p p') :
    Audited b p' ∧ ∃ ws : List (Write Row K), (∀ w ∈ ws, b.writes w) ∧
    p'.db = p.db.applyAll ws := by
  induction reached with
  | refl => exact ⟨audited, [], fun _ none => absurd none List.not_mem_nil, rfl⟩
  | step _ permitted moves inductionHypothesis =>
    obtain ⟨audited', ws, within, before⟩ := inductionHypothesis
    obtain ⟨audited'', ws', within', after⟩ :=
      audited'.next (fun op same => harmless _ op (same ▸ permitted)) moves
    refine ⟨audited'', ws ++ ws', fun w member => ?_, ?_⟩
    · exact (List.mem_append.1 member).elim (within w) (within' w)
    · rw [after, before, Db.applyAll_append]

/-- What each write within the bounds respects holds between two states of a run. -/
theorem evolves_of_reach {related : ∀ t, Row t → Row t → Prop} (refl : ∀ t row, related t row row)
    (trans : ∀ t a b c, related t a b → related t b c → related t a c)
    (respects : ∀ w, b.writes w → w.Moves related) {allowed : Pool Row X ε O α → Event O → Prop}
    (harmless : ∀ p op, allowed p (.spawn op) → (code op).Harmless b) {p p' : Pool Row X ε O α}
    (audited : Audited b p) (reached : Reach code allowed p p') :
    Db.Evolves related p.db p'.db := by
  obtain ⟨_, ws, within, after⟩ := journal_of_reach harmless audited reached
  rw [after]
  exact Db.evolves_applyAll refl trans (fun w member => respects w (within w member)) p.db

/-- A property of rows that each write within the bounds upholds stays true of every row. -/
theorem upright_of_reach {ok : ∀ t, Row t → Prop} (respects : ∀ w, b.writes w → w.Upholds ok)
    {allowed : Pool Row X ε O α → Event O → Prop}
    (harmless : ∀ p op, allowed p (.spawn op) → (code op).Harmless b) {p p' : Pool Row X ε O α}
    (audited : Audited b p) (reached : Reach code allowed p p')
    (upright : Db.Upright ok p.db) : Db.Upright ok p'.db := by
  obtain ⟨_, ws, within, after⟩ := journal_of_reach harmless audited reached
  rw [after]
  exact Db.upright_applyAll (fun w member => respects w (within w member)) upright

end Pool

end

end SwiftBite.Store
