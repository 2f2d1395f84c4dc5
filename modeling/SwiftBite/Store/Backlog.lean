import Mathlib

/-! # Backlogs

A queue in the order of its times is served in batches of its first elements, and some elements
are never done with.  An element that is not in the batch has the whole batch in front of it.
-/

set_option autoImplicit false

namespace SwiftBite.Store.Backlog

variable {α τ : Type} [LinearOrder τ] (time : α → τ) {queue backlog : List α} {n : ℕ} {x : α}

theorem before_of_not_taken (sorted : queue.Pairwise fun a b => time a ≤ time b)
    (member : x ∈ queue) (left : x ∉ queue.take n) :
    (queue.take n).length = n ∧ ∀ a ∈ queue.take n, time a ≤ time x := by
  rw [← List.take_append_drop n queue] at sorted member
  have later : x ∈ queue.drop n := (List.mem_append.1 member).resolve_left left
  refine ⟨List.length_take_of_le ?_,
    fun a taken => (List.pairwise_append.1 sorted).2.2 a taken x later⟩
  have longer := List.length_pos_of_mem later
  rw [List.length_drop] at longer
  omega

/-- What is served has fewer than a batch of older elements. -/
theorem few_older_of_taken (sorted : queue.Pairwise fun a b => time a ≤ time b)
    (taken : x ∈ queue.take n) : queue.countP (fun a => decide (time a < time x)) < n := by
  have none : (queue.drop n).countP (fun a => decide (time a < time x)) = 0 := by
    rw [← List.take_append_drop n queue] at sorted
    refine List.countP_eq_zero.2 fun a later => ?_
    have least := (List.pairwise_append.1 sorted).2.2 x taken a later
    simpa using least
  have some : (queue.take n).countP (fun a => decide (time a < time x)) <
      (queue.take n).length := by
    refine Nat.lt_of_le_of_ne List.countP_le_length fun all => ?_
    have older := List.countP_eq_length.1 all x taken
    simp at older
  rw [← List.take_append_drop n queue, List.countP_append, none]
  have short := List.length_take_le n queue
  omega

/-- A batch that leaves out an element is full of elements as old, and as many of them are done
with as there is room beside those that are not. -/
theorem done_of_not_taken (stuck : α → Bool) {t : τ}
    (sorted : queue.Pairwise fun a b => time a ≤ time b) (member : x ∈ queue)
    (left : x ∉ queue.take n) (due : time x ≤ t) :
    n ≤ (queue.take n).countP (fun a => decide (time a ≤ t) && !stuck a) + queue.countP fun a =>
      decide (time a ≤ t) && stuck a := by
  obtain ⟨full, before⟩ := before_of_not_taken time sorted member left
  have split := List.length_eq_countP_add_countP stuck (l := queue.take n)
  have dueStuck : (queue.take n).countP stuck = (queue.take n).countP fun a =>
      decide (time a ≤ t) && stuck a :=
    List.countP_congr fun a taken => by simp [(before a taken).trans due]
  have dueDone : (queue.take n).countP (fun a => decide (¬ stuck a = true)) =
      (queue.take n).countP fun a => decide (time a ≤ t) && !stuck a :=
    List.countP_congr fun a taken => by simp [(before a taken).trans due]
  have fewer : (queue.take n).countP (fun a => decide (time a ≤ t) && stuck a) ≤
      queue.countP fun a => decide (time a ≤ t) && stuck a :=
    (List.take_sublist n queue).countP_le
  omega

/-- What a batch has done with is no longer counted. -/
theorem countP_filter_add {served p : α → Bool} (inside : queue.Subperm backlog)
    (all : ∀ a ∈ queue, p a = true → served a = true) :
    (backlog.filter fun a => !served a).countP p + queue.countP p ≤ backlog.countP p := by
  have here : queue.countP p = queue.countP fun a => p a && served a :=
    List.countP_congr fun a member => by
      by_cases isP : p a = true
      · simp [isP, all a member isP]
      · simp [isP]
  have most : queue.countP (fun a => p a && served a) ≤ backlog.countP fun a => p a && served a :=
    inside.countP_le _
  have split : backlog.countP p =
      (backlog.filter fun a => !served a).countP p + backlog.countP fun a => p a && served a := by
    have parts := List.countP_eq_countP_filter_add backlog p fun a => !served a
    simpa only [List.countP_filter, Bool.not_eq_true', Bool.not_eq_false, Bool.decide_eq_true,
      Bool.not_not] using parts
  omega

end SwiftBite.Store.Backlog
