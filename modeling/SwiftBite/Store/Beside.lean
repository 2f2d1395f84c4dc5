import SwiftBite.Store.Pool
import SwiftBite.Store.Statement

/-! # A reader beside the calls

A program that only reads runs on the connection of a pool: between two of its statements the
calls do what they like.
-/

set_option autoImplicit false

namespace SwiftBite.Store

section

variable {T : Type} [DecidableEq T] {Row : T → Type} {K U : Type} [DecidableEq K] [DecidableEq U]
  [∀ t, Keyed (Row t) K U] {X ε O α β : Type} [Host X ε]

/-- The program after `n` statements that were answered, and the pool by then. -/
inductive Beside (code : O → Prog Row X ε α) (allowed : Pool Row X ε O α → Event O → Prop)
    (prog₀ : Prog Row X ε β) (p₀ : Pool Row X ε O α) :
    ℕ → Pool Row X ε O α → Prog Row X ε β → Local Row K → Prop where
  | start : Beside code allowed prog₀ p₀ 0 p₀ prog₀ .start
  | others {n : ℕ} {p p' : Pool Row X ε O α} {prog : Prog Row X ε β} {l : Local Row K}
      {e : Event O} :
      Beside code allowed prog₀ p₀ n p prog l → allowed p e → p.next code e = some p' →
      Beside code allowed prog₀ p₀ n p' prog l
  | own {n k : ℕ} {p : Pool Row X ε O α} {prog prog' : Prog Row X ε β} {l l' : Local Row K} :
      Beside code allowed prog₀ p₀ n p prog l → prog.next (.pick k) l p.db p.side =
        some ⟨prog', l', p.db, p.side, []⟩ → Beside code allowed prog₀ p₀ (n + 1) p prog' l'

namespace Prog

variable {read : ℕ → Db Row → β} {following : Except ε β → Prog Row X ε α} {l : Local Row K}
  {db : Db Row} {x : X}

/-- A query is answered. -/
theorem next_select :
    (stmt .pool (Statement.select read) following).next (.pick 0) l db x =
      some ⟨following (.ok (read (Host.now x) db)), l.saw [], db, x, []⟩ := rfl

theorem select_answered {k : ℕ} {out : Outcome Row X ε α}
    (acts : (stmt .pool (Statement.select read) following).next (.pick k) l db x = some out) :
    out.prog = following (.ok (read (Host.now x) db)) := by
  cases k with
  | zero =>
    rw [next_select] at acts
    cases acts
    rfl
  | succ k => cases acts

end Prog

end

end SwiftBite.Store
