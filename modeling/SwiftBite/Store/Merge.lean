import Mathlib.Data.List.Sort
import Mathlib.Order.Lattice
import Mathlib.Tactic.Common

/-! # Merging limited pages

A sorted list is determined by how many of its elements stand up to each bound.  Two sorted
lists that are cut, put together and cut again give the head of their union as long as no
common element stands among it.
-/

set_option autoImplicit false

namespace SwiftBite.Store

section

variable {β : Type} [LinearOrder β]

/-- How many elements stand up to a bound. -/
def upTo (bound : β) (xs : List β) : ℕ := xs.countP fun x => x ≤ bound

variable {bound x : β} {xs ys : List β} {n : ℕ}

theorem upTo_cons_of_le (le : x ≤ bound) : upTo bound (x :: xs) = upTo bound xs + 1 := by
  simp [upTo, le]

theorem upTo_cons_of_lt (lt : bound < x) : upTo bound (x :: xs) = upTo bound xs := by
  simp [upTo, lt]

theorem upTo_append : upTo bound (xs ++ ys) = upTo bound xs + upTo bound ys := List.countP_append

theorem upTo_mono {bound' : β} (le : bound ≤ bound') : upTo bound xs ≤ upTo bound' xs :=
  List.countP_mono_left fun _ _ isUpTo => decide_eq_true ((of_decide_eq_true isUpTo).trans le)

theorem upTo_pos : 0 < upTo bound xs ↔ ∃ x ∈ xs, x ≤ bound := by
  simp [upTo, List.countP_pos_iff]

theorem upTo_eq_zero (above : ∀ x ∈ xs, bound < x) : upTo bound xs = 0 := by
  simpa [upTo, List.countP_eq_zero] using above

/-- The head of a sorted list has the smallest elements. -/
theorem upTo_take (sorted : xs.Pairwise (· ≤ ·)) :
    upTo bound (xs.take n) = min n (upTo bound xs) := by
  induction xs generalizing n with
  | nil => simp [upTo]
  | cons x xs inductionHypothesis =>
    obtain ⟨first, sorted⟩ := List.pairwise_cons.1 sorted
    cases n with
    | zero => simp [upTo]
    | succ n =>
      rw [List.take_succ_cons]
      by_cases le : x ≤ bound
      · rw [upTo_cons_of_le le, upTo_cons_of_le le, inductionHypothesis sorted,
          Nat.add_min_add_right]
      · have lt := lt_of_not_ge le
        have above : ∀ y ∈ xs, bound < y := fun y member => lt.trans_le (first y member)
        rw [upTo_cons_of_lt lt, upTo_cons_of_lt lt, upTo_eq_zero above, upTo_eq_zero fun y member =>
          above y (List.mem_of_mem_take member)]
        exact (Nat.min_zero _).symm

theorem eq_of_upTo (sorted : xs.Pairwise (· ≤ ·)) (sorted' : ys.Pairwise (· ≤ ·))
    (same : ∀ bound, upTo bound xs = upTo bound ys) : xs = ys := by
  induction xs generalizing ys with
  | nil =>
    cases ys with
    | nil => rfl
    | cons y ys =>
      have := same y
      rw [upTo_cons_of_le le_rfl] at this
      cases this
  | cons x xs inductionHypothesis =>
    cases ys with
    | nil =>
      have := same x
      rw [upTo_cons_of_le le_rfl] at this
      cases this
    | cons y ys =>
      obtain ⟨first, rest⟩ := List.pairwise_cons.1 sorted
      obtain ⟨first', rest'⟩ := List.pairwise_cons.1 sorted'
      -- the least element of each list is in the other
      have le : y ≤ x := by
        have here : 0 < upTo x (y :: ys) := by
          rw [← same, upTo_cons_of_le le_rfl]
          exact Nat.succ_pos _
        obtain ⟨z, member, isUpTo⟩ := upTo_pos.1 here
        rcases List.mem_cons.1 member with same | later
        · exact same ▸ isUpTo
        · exact (first' z later).trans isUpTo
      have ge : x ≤ y := by
        have here : 0 < upTo y (x :: xs) := by
          rw [same, upTo_cons_of_le le_rfl]
          exact Nat.succ_pos _
        obtain ⟨z, member, isUpTo⟩ := upTo_pos.1 here
        rcases List.mem_cons.1 member with same | later
        · exact same ▸ isUpTo
        · exact (first z later).trans isUpTo
      obtain rfl := le_antisymm le ge
      refine congrArg _ (inductionHypothesis rest rest' fun bound => ?_)
      have all := same bound
      by_cases isUpTo : y ≤ bound
      · rw [upTo_cons_of_le isUpTo, upTo_cons_of_le isUpTo] at all
        exact Nat.succ.inj all
      · rwa [upTo_cons_of_lt (lt_of_not_ge isUpTo), upTo_cons_of_lt (lt_of_not_ge isUpTo)] at all

theorem take_eq_take_iff (sorted : xs.Pairwise (· ≤ ·)) (sorted' : ys.Pairwise (· ≤ ·)) :
    xs.take n = ys.take n ↔ ∀ bound, min n (upTo bound xs) = min n (upTo bound ys) := by
  constructor
  · intro same bound
    rw [← upTo_take sorted, ← upTo_take sorted', same]
  · intro same
    refine eq_of_upTo (sorted.sublist (List.take_sublist _ _))
      (sorted'.sublist (List.take_sublist _ _)) fun bound => ?_
    rw [upTo_take sorted, upTo_take sorted', same]

/-- Two sorted lists that are cut to `n`, merged and cut again: the first `n` of their union,
unless a common element stands before the `n`-th. -/
theorem take_merged_iff {merged union common : List β} (sorted : xs.Pairwise (· ≤ ·))
    (sorted' : ys.Pairwise (· ≤ ·)) (sortedMerged : merged.Pairwise (· ≤ ·))
    (sortedUnion : union.Pairwise (· ≤ ·))
    (isMerged : ∀ bound, upTo bound merged = upTo bound (xs.take n) + upTo bound (ys.take n))
    (isUnion : ∀ bound, upTo bound union + upTo bound common = upTo bound xs + upTo bound ys) :
    merged.take n = union.take n ↔ ∀ z ∈ common, n ≤ upTo z union := by
  rw [take_eq_take_iff sortedMerged sortedUnion]
  have counts : ∀ bound, min n (upTo bound merged) = min n (upTo bound union + upTo bound common) :=
    fun bound => by
    rw [isMerged, isUnion, upTo_take sorted, upTo_take sorted']
    omega
  simp only [counts]
  constructor
  · intro same z member
    have here : 0 < upTo z common := upTo_pos.2 ⟨z, member, le_rfl⟩
    have := same z
    omega
  · intro behind bound
    rcases Nat.eq_zero_or_pos (upTo bound common) with none | some
    · rw [none, Nat.add_zero]
    · obtain ⟨z, member, le⟩ := upTo_pos.1 some
      have := (behind z member).trans (upTo_mono le)
      omega

end

end SwiftBite.Store
