import Mathlib.Data.List.Sort

/-! # Batches of a sorted selection

The first `n` elements of a list by a number that tells them apart: what a query with
`ORDER BY .. LIMIT n` returns.  A batch that is not full is all there is, and whatever a full
one leaves out stands behind all of it.
-/

set_option autoImplicit false

namespace SwiftBite.Store

section

variable {α : Type} (f : α → ℕ) (n : ℕ) (xs : List α)

/-- `ORDER BY f ASC LIMIT n` -/
def ascending : List α := (xs.insertionSort fun a b => f a ≤ f b).take n

/-- `ORDER BY f DESC LIMIT n` -/
def descending : List α := (xs.insertionSort fun a b => f b ≤ f a).take n

variable {f n xs}

theorem mem_of_ascending {x : α} (member : x ∈ ascending f n xs) : x ∈ xs :=
  (List.mem_insertionSort _).1 (List.mem_of_mem_take member)

theorem mem_of_descending {x : α} (member : x ∈ descending f n xs) : x ∈ xs :=
  (List.mem_insertionSort _).1 (List.mem_of_mem_take member)

/-- The elements of a batch stand in order, and in front of what is left out. -/
theorem ascending_split (f : α → ℕ) (n : ℕ) (xs : List α) :
    ∃ rest, (∀ x, x ∈ xs ↔ x ∈ ascending f n xs ∨ x ∈ rest) ∧
    (ascending f n xs ++ rest).Pairwise (fun a b => f a ≤ f b) ∧
      ((ascending f n xs).length < n → rest = []) := by
  refine ⟨(xs.insertionSort fun a b => f a ≤ f b).drop n, fun x => ?_, ?_, fun short => ?_⟩
  · rw [ascending, ← List.mem_append, List.take_append_drop, List.mem_insertionSort]
  · have : Std.Total fun a b : α => f a ≤ f b := ⟨fun a b => Nat.le_total _ _⟩
    have : IsTrans α fun a b => f a ≤ f b := ⟨fun _ _ _ => Nat.le_trans⟩
    rw [ascending, List.take_append_drop]
    exact List.pairwise_insertionSort _ xs
  · simp only [ascending, List.length_take] at short
    simp only [List.drop_eq_nil_iff]
    omega

/-- Up to the last element of a batch, nothing is left out. -/
theorem mem_ascending {x l : α} (member : x ∈ xs) (isLast : (ascending f n xs).getLast? = some l)
    (upTo : f x ≤ f l) (distinct : ∀ a ∈ xs, ∀ b ∈ xs, f a = f b → a = b) :
    x ∈ ascending f n xs := by
  obtain ⟨rest, all, sorted, _⟩ := ascending_split f n xs
  have among := List.mem_of_getLast? isLast
  rcases (all x).1 member with inBatch | left
  · exact inBatch
  · have behind := (List.pairwise_append.1 sorted).2.2 l among x left
    rw [distinct x member l ((all l).2 (.inl among)) (Nat.le_antisymm upTo behind)]
    exact among

theorem mem_ascending_of_short {x : α} (member : x ∈ xs) (short : (ascending f n xs).length < n) :
    x ∈ ascending f n xs := by
  obtain ⟨rest, all, _, none⟩ := ascending_split f n xs
  simpa [none short] using (all x).1 member

theorem le_last_of_ascending {x l : α} (member : x ∈ ascending f n xs)
    (isLast : (ascending f n xs).getLast? = some l) : f x ≤ f l := by
  obtain ⟨rest, _, sorted, _⟩ := ascending_split f n xs
  have sorted := (List.pairwise_append.1 sorted).1
  obtain ⟨front, split⟩ := List.getLast?_eq_some_iff.1 isLast
  rw [split] at member sorted
  rcases List.mem_append.1 member with earlier | single
  · exact (List.pairwise_append.1 sorted).2.2 x earlier l (List.mem_singleton_self l)
  · rw [List.mem_singleton.1 single]

theorem mem_descending_of_short {x : α} (member : x ∈ xs) (short : (descending f n xs).length < n) :
    x ∈ descending f n xs := by
  simp only [descending, List.length_take, List.length_insertionSort] at short
  rw [descending, List.take_of_length_le (by rw [List.length_insertionSort]; omega)]
  exact (List.mem_insertionSort _).2 member

theorem ascending_eq_nil (pos : 0 < n) : ascending f n xs = [] ↔ xs = [] := by
  rw [ascending, List.take_eq_nil_iff, ← List.length_eq_zero_iff (l := List.insertionSort _ _),
    List.length_insertionSort,
    List.length_eq_zero_iff]
  exact ⟨fun either => either.resolve_left pos.ne', .inr⟩

theorem descending_eq_nil (pos : 0 < n) : descending f n xs = [] ↔ xs = [] := by
  rw [descending, List.take_eq_nil_iff, ← List.length_eq_zero_iff (l := List.insertionSort _ _),
    List.length_insertionSort,
    List.length_eq_zero_iff]
  exact ⟨fun either => either.resolve_left pos.ne', .inr⟩

end

end SwiftBite.Store
