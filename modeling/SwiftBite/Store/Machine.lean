/-! # Step machines

A machine is a function from a state and an event to the next state, if the event can happen
there.  A run is a sequence of events each of which is allowed in the state in which it occurs.
-/

set_option autoImplicit false

namespace SwiftBite.Store.Machine

section

universe u v

variable {S : Type u} {E : Type v} (next : S → E → Option S)

/-- The states that a run of allowed events gets to. -/
inductive Reach (allowed : S → E → Prop) (start : S) : S → Prop where
  | refl : Reach allowed start start
  | step {s s' : S} {e : E} :
      Reach allowed start s → allowed s e → next s e = some s' → Reach allowed start s'

/-- A list of events, each of them checked, from a state on. -/
def play (check : S → E → Bool) : List E → S → Option S
  | [], s => some s
  | e :: es, s => if check s e then (next s e).bind (play check es) else none

variable {next} {allowed allowed' : S → E → Prop} {start s s' : S}

theorem Reach.trans (first : Reach next allowed start s) (second : Reach next allowed s s') :
    Reach next allowed start s' := by
  induction second with
  | refl => exact first
  | step _ condition moves reached => exact reached.step condition moves

theorem Reach.mono (weaker : ∀ s e, allowed s e → allowed' s e)
    (reached : Reach next allowed start s) : Reach next allowed' start s := by
  induction reached with
  | refl => exact .refl
  | step _ condition moves reached => exact reached.step (weaker _ _ condition) moves

/-- What holds at the start and is kept by every allowed event holds in every state. -/
theorem Reach.invariant {holds : S → Prop} (begins : holds start)
    (kept : ∀ s s' e, holds s → allowed s e → next s e = some s' → holds s')
    (reached : Reach next allowed start s) : holds s := by
  induction reached with
  | refl => exact begins
  | step _ condition moves known => exact kept _ _ _ known condition moves

theorem reach_of_play {check : S → E → Bool} (checks : ∀ s e, check s e = true → allowed s e)
    {es : List E} (played : play next check es s = some s') : Reach next allowed s s' := by
  induction es generalizing s with
  | nil =>
    cases played
    exact .refl
  | cons e es inductionHypothesis =>
    rw [play] at played
    split at played
    next checked =>
      obtain ⟨between, moves, rest⟩ := Option.bind_eq_some_iff.1 played
      exact (Reach.step .refl (checks _ _ checked) moves).trans (inductionHypothesis rest)
    next => cases played

end

end SwiftBite.Store.Machine
