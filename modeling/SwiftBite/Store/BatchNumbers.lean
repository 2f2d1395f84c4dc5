import Mathlib.Data.Finset.Card
import Mathlib.Tactic.Common
import SwiftBite.Store.Batches

/-! # Batches by number

Elements go in batches of `n`, those first that come first in the order `r`.  The number of an
element's batch is how many come before it, divided by `n`; it does not depend on which batches
have gone already.
-/

set_option autoImplicit false

namespace SwiftBite.Store

section

variable {α : Type} (r : α → α → Prop) [DecidableRel r] (n : ℕ) (all : Finset α)

/-- What comes before an element. -/
def before (x : α) : Finset α := all.filter (r · x)

def batchNumber (x : α) : ℕ := (before r all x).card / n

theorem batchNumber_of_few {n : ℕ} {all : Finset α} (few : all.card < n) (x : α) :
    batchNumber r n all x = 0 :=
  Nat.div_eq_of_lt ((Finset.card_filter_le _ _).trans_lt few)

/-- What is left when `k` batches have gone. -/
structure LeftAfter (left : Finset α) (k : ℕ) : Prop where
  mem_iff : ∀ x, x ∈ left ↔ x ∈ all ∧ k ≤ batchNumber r n all x
  count : left = ∅ ∨ all.card = left.card + n * k

variable {r n all} {left batch : Finset α} {k : ℕ} {x y : α}

theorem mem_before : y ∈ before r all x ↔ y ∈ all ∧ r y x := Finset.mem_filter

theorem leftAfter_zero : LeftAfter r n all all 0 := ⟨by simp, .inr (by simp)⟩

variable [IsStrictTotalOrder α r]

theorem batchNumber_mono (first : r x y) : batchNumber r n all x ≤ batchNumber r n all y := by
  refine Nat.div_le_div_right (Finset.card_le_card fun z isBefore => ?_)
  rw [mem_before] at isBefore ⊢
  exact ⟨isBefore.1, trans_of r isBefore.2 first⟩

namespace LeftAfter

/-- What has gone comes before all that is left. -/
theorem before_of_gone (leftAfter : LeftAfter r n all left k) (isLeft : x ∈ left) (member : y ∈ all)
    (gone : y ∉ left) : r y x := by
  have number := ((leftAfter.mem_iff x).1 isLeft).2
  rcases trichotomous_of r x y with first | same | first
  · have later : batchNumber r n all x ≤ batchNumber r n all y := batchNumber_mono first
    exact absurd ((leftAfter.mem_iff y).2 ⟨member, number.trans later⟩) gone
  · exact absurd (same ▸ isLeft) gone
  · exact first

variable [DecidableEq α]

theorem card_before (leftAfter : LeftAfter r n all left k) (isLeft : x ∈ left) :
    (before r all x).card = (before r left x).card + n * k := by
  have subset : left ⊆ all := fun y member => ((leftAfter.mem_iff y).1 member).1
  have split : before r all x = before r left x ∪ (all \ left) := by
    ext y
    rw [Finset.mem_union, mem_before, mem_before, Finset.mem_sdiff]
    constructor
    · rintro ⟨member, first⟩
      by_cases isLeft' : y ∈ left
      · exact .inl ⟨isLeft', first⟩
      · exact .inr ⟨member, isLeft'⟩
    · rintro (⟨isLeft', first⟩ | ⟨member, gone⟩)
      · exact ⟨subset isLeft', first⟩
      · exact ⟨member, leftAfter.before_of_gone isLeft member gone⟩
  have apart : Disjoint (before r left x) (all \ left) := by
    rw [Finset.disjoint_left]
    intro y isBefore gone
    exact (Finset.mem_sdiff.1 gone).2 (mem_before.1 isBefore).1
  have count : all.card = left.card + n * k :=
    leftAfter.count.resolve_left (Finset.ne_empty_of_mem isLeft)
  rw [split, Finset.card_union_of_disjoint apart, Finset.card_sdiff_of_subset subset]
  omega

/-- The first `n` of what is left are the next batch. -/
theorem first_iff (leftAfter : LeftAfter r n all left k) (positive : 0 < n) (isLeft : x ∈ left) :
    (before r left x).card < n ↔ batchNumber r n all x = k := by
  rw [batchNumber, leftAfter.card_before isLeft, Nat.add_mul_div_left _ _ positive,
    Nat.add_eq_right, Nat.div_eq_zero_iff_lt positive]

theorem next (leftAfter : LeftAfter r n all left k) (positive : 0 < n)
    (isBatch : ∀ x, x ∈ batch ↔ x ∈ left ∧ (before r left x).card < n)
    (size : batch.card = min n left.card) : LeftAfter r n all (left \ batch) (k + 1) := by
  refine ⟨fun x => ?_, ?_⟩
  · rw [Finset.mem_sdiff, isBatch]
    constructor
    · rintro ⟨isLeft, late⟩
      have number := ((leftAfter.mem_iff x).1 isLeft)
      have other : batchNumber r n all x ≠ k :=
        fun same => late ⟨isLeft, (leftAfter.first_iff positive isLeft).2 same⟩
      exact ⟨number.1, by omega⟩
    · rintro ⟨member, number⟩
      have isLeft := (leftAfter.mem_iff x).2 ⟨member, by omega⟩
      refine ⟨isLeft, fun first => ?_⟩
      have := (leftAfter.first_iff positive isLeft).1 first.2
      omega
  · have subset : batch ⊆ left := fun x member => ((isBatch x).1 member).1
    have rest := Finset.card_sdiff_of_subset subset
    rcases Nat.lt_or_ge n left.card with long | short
    · -- A full batch goes.
      have some : left ≠ ∅ := fun none => by simp [none] at long
      have count := leftAfter.count.resolve_left some
      rw [Nat.min_eq_left long.le] at size
      refine .inr ?_
      rw [Nat.mul_add, Nat.mul_one]
      omega
    · rw [Nat.min_eq_right short] at size
      exact .inl (Finset.card_eq_zero.1 (by omega))

end LeftAfter

end

/-! ## Sorted selections -/

section

variable {α β : Type} [DecidableEq β] {r : β → β → Prop} [DecidableRel r] [IsStrictTotalOrder β r]
  {f : α → β} {n : ℕ}
  {front rest xs : List α} {x : α}

/-- The first `n` of a sorted list. -/
theorem mem_front_iff (sorted : (front ++ rest).Pairwise fun a b => r (f a) (f b))
    (short : front.length ≤ n) (full : rest ≠ [] → front.length = n) (member : x ∈ front ++ rest) :
    x ∈ front ↔ (before r ((front ++ rest).map f).toFinset (f x)).card < n := by
  obtain ⟨sortedFront, _, behind⟩ := List.pairwise_append.1 sorted
  have distinct : (front.map f).Nodup := by
    refine List.pairwise_map.2 (sortedFront.imp fun first same => ?_)
    rw [same] at first
    exact irrefl_of r _ first
  have size : (front.map f).toFinset.card = front.length := by
    rw [List.toFinset_card_of_nodup distinct, List.length_map]
  constructor
  · intro inFront
    -- Only others of the front come before it.
    have subset : before r ((front ++ rest).map f).toFinset (f x) ⊆
        (front.map f).toFinset.erase (f x) := by
      intro y isBefore
      rw [mem_before, List.mem_toFinset] at isBefore
      obtain ⟨⟨other, among, rfl⟩, first⟩ := isBefore.imp_left List.mem_map.1
      refine Finset.mem_erase.2 ⟨fun same => irrefl_of r (f x) (same ▸ first),
        List.mem_toFinset.2 (List.mem_map_of_mem ?_)⟩
      rcases List.mem_append.1 among with inFront' | left
      · exact inFront'
      · exact absurd first (asymm_of r (behind x inFront other left))
    have less := Finset.card_le_card subset
    rw [Finset.card_erase_of_mem (List.mem_toFinset.2 (List.mem_map_of_mem inFront)), size] at less
    have positive := List.length_pos_of_mem inFront
    omega
  · intro few
    rcases List.mem_append.1 member with inFront | left
    · exact inFront
    · -- The whole front comes before it.
      have subset : (front.map f).toFinset ⊆ before r ((front ++ rest).map f).toFinset (f x) := by
        intro y among
        obtain ⟨other, inFront, rfl⟩ := List.mem_map.1 (List.mem_toFinset.1 among)
        exact mem_before.2 ⟨List.mem_toFinset.2
          (List.mem_map_of_mem (List.mem_append_left _ inFront)), behind other inFront x left⟩
      have more := Finset.card_le_card subset
      rw [size, full (List.ne_nil_of_mem left)] at more
      omega

/-- What `ORDER BY f LIMIT n` takes from a list whose elements `f` tells apart. -/
structure Takes (r : β → β → Prop) [DecidableRel r] (f : α → β) (n : ℕ)
    (xs batch : List α) : Prop where
  distinct : (xs.map f).Nodup
  subset : batch ⊆ xs
  nodup : (batch.map f).Nodup
  first : ∀ x ∈ xs, x ∈ batch ↔ (before r (xs.map f).toFinset (f x)).card < n
  size : batch.length = min n xs.length

theorem takes_take {weak : α → α → Prop} [DecidableRel weak] [Std.Total weak] [IsTrans α weak]
    (strict : ∀ a b, weak a b → f a ≠ f b → r (f a) (f b)) (distinct : (xs.map f).Nodup) :
    Takes r f n xs ((xs.insertionSort weak).take n) := by
  have same : (xs.insertionSort weak).Perm xs := List.perm_insertionSort _ xs
  have distinct' : ((xs.insertionSort weak).map f).Nodup := (same.map f).nodup_iff.2 distinct
  have sorted : (xs.insertionSort weak).Pairwise fun a b => r (f a) (f b) :=
    ((List.pairwise_insertionSort weak xs).and (List.pairwise_map.1 distinct')).imp fun both =>
      strict _ _ both.1 both.2
  rw [← List.take_append_drop n (xs.insertionSort weak)] at sorted
  refine ⟨distinct, fun x member => same.mem_iff.1 (List.mem_of_mem_take member), ?_,
    fun x member => ?_, ?_⟩
  · exact distinct'.sublist ((List.take_sublist _ _).map f)
  · rw [← List.toFinset_eq_of_perm _ _ (same.map f)]
    have first := mem_front_iff (n := n) (x := x) sorted (List.length_take_le _ _) ?_ ?_
    · rwa [List.take_append_drop] at first
    · intro some
      rw [Ne, List.drop_eq_nil_iff] at some
      rw [List.length_take]
      omega
    · rw [List.take_append_drop]
      exact same.mem_iff.2 member
  · rw [List.length_take, List.length_insertionSort]

theorem takes_ascending {f : α → ℕ} (n : ℕ) (distinct : (xs.map f).Nodup) :
    Takes (· < ·) f n xs (ascending f n xs) := by
  have total : Std.Total fun a b : α => f a ≤ f b := ⟨fun a b => Nat.le_total _ _⟩
  have transitive : IsTrans α fun a b => f a ≤ f b := ⟨fun _ _ _ => Nat.le_trans⟩
  exact takes_take (fun _ _ le ne => Nat.lt_of_le_of_ne le ne) distinct

theorem takes_descending {f : α → ℕ} (n : ℕ) (distinct : (xs.map f).Nodup) :
    Takes (· > ·) f n xs (descending f n xs) := by
  have total : Std.Total fun a b : α => f b ≤ f a := ⟨fun a b => Nat.le_total _ _⟩
  have transitive : IsTrans α fun a b => f b ≤ f a :=
    ⟨fun _ _ _ first second => Nat.le_trans second first⟩
  exact takes_take (fun _ _ le ne => Nat.lt_of_le_of_ne le ne.symm) distinct

namespace LeftAfter

variable {all : Finset β} {batch : List α} {k : ℕ}

theorem mem_batch_iff (leftAfter : LeftAfter r n all (xs.map f).toFinset k) (positive : 0 < n)
    (takes : Takes r f n xs batch) (member : x ∈ xs) :
    x ∈ batch ↔ batchNumber r n all (f x) = k := by
  rw [takes.first x member]
  exact leftAfter.first_iff positive (List.mem_toFinset.2 (List.mem_map_of_mem member))

/-- Behind the batch. -/
theorem takes (leftAfter : LeftAfter r n all (xs.map f).toFinset k) (positive : 0 < n)
    (takes : Takes r f n xs batch) :
    LeftAfter r n all ((xs.map f).toFinset \ (batch.map f).toFinset) (k + 1) := by
  refine leftAfter.next positive (fun y => ?_) ?_
  · rw [List.mem_toFinset, List.mem_map, List.mem_toFinset, List.mem_map]
    constructor
    · rintro ⟨x, inBatch, rfl⟩
      exact ⟨⟨x, takes.subset inBatch, rfl⟩, (takes.first x (takes.subset inBatch)).1 inBatch⟩
    · rintro ⟨⟨x, member, rfl⟩, few⟩
      exact ⟨x, (takes.first x member).2 few, rfl⟩
  · rw [List.toFinset_card_of_nodup takes.nodup, List.toFinset_card_of_nodup takes.distinct,
      List.length_map, List.length_map, takes.size]

end LeftAfter

end

end SwiftBite.Store
