import Mathlib.Data.List.Nodup
import Mathlib.Data.List.Perm.Subperm
import Mathlib.Tactic.Common

/-! # Shortlists

The first few elements of a list that pass a test are among the first few and as many more as
there are elements that fail.
-/

set_option autoImplicit false

namespace SwiftBite.Store

variable {α β : Type} {keep : α → Bool} {xs : List α} {limit spare : ℕ}

/-- How many elements fail the test. -/
def failing (keep : α → Bool) (xs : List α) : ℕ := xs.countP fun x => !keep x

theorem shortlist_of_take (few : failing keep xs ≤ spare) :
    ((xs.take (limit + spare)).filter keep).take limit = (xs.filter keep).take limit := by
  induction xs generalizing limit spare with
  | nil => simp
  | cons x xs inductionHypothesis =>
    by_cases passes : keep x = true
    · cases limit with
      | zero => simp
      | succ limit =>
        have rest : failing keep xs ≤ spare := by simpa [failing, passes] using few
        rw [Nat.add_right_comm, List.take_succ_cons, List.filter_cons_of_pos passes,
          List.filter_cons_of_pos passes, List.take_succ_cons,
          List.take_succ_cons, inductionHypothesis rest]
    · -- The element takes one of the places to spare.
      have fails : failing keep (x :: xs) = failing keep xs + 1 := by simp [failing, passes]
      rw [fails] at few
      obtain ⟨spare, rfl⟩ := Nat.exists_eq_succ_of_ne_zero (show spare ≠ 0 by omega)
      rw [Nat.add_succ, List.take_succ_cons, List.filter_cons_of_neg passes,
        List.filter_cons_of_neg passes]
      exact inductionHypothesis (by omega)

/-- Elements that fail because of what they are called: there are not more of them than names to
fail for. -/
theorem failing_le_of_names {name : α → β} {bad : List β} (distinct : (xs.map name).Nodup)
    (fails : ∀ x ∈ xs, keep x = false → name x ∈ bad) : failing keep xs ≤ bad.length := by
  have same : failing keep xs = ((xs.filter fun x => !keep x).map name).length := by
    rw [failing, List.countP_eq_length_filter, List.length_map]
  rw [same]
  refine (List.subperm_of_subset (distinct.sublist (List.filter_sublist.map name))
    fun n among => ?_).length_le
  obtain ⟨x, member, rfl⟩ := List.mem_map.1 among
  obtain ⟨inList, isBad⟩ := List.mem_filter.1 member
  exact fails x inList (by simpa using isBad)

/-- The first element of a sorted list that passes the test precedes all others that do. -/
theorem precedes_of_find {r : α → α → Prop} {best other : α} (sorted : xs.Pairwise r)
    (found : xs.find? keep = some best) (member : other ∈ xs) (passes : keep other = true) :
    other = best ∨ r best other := by
  obtain ⟨_, before, after, rfl, fail⟩ := List.find?_eq_some_iff_append.1 found
  rcases List.mem_append.1 member with early | late
  · have fails := fail other early
    rw [passes] at fails
    cases fails
  · rcases List.mem_cons.1 late with same | later
    · exact .inl same
    · exact .inr ((List.pairwise_cons.1 (List.pairwise_append.1 sorted).2.1).1 other later)

theorem find_of_head_take {n : ℕ} {best : α} (first : ((xs.take n).filter keep).head? = some best) :
    xs.find? keep = some best := by
  rw [List.head?_filter] at first
  exact (List.take_prefix n xs).find?_eq_some first

end SwiftBite.Store
