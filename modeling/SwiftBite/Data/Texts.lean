import Mathlib.Data.List.TakeWhile
import Mathlib.Data.Nat.Notation

/-! # Numbers inside texts

A text that is put together from numbers and separators can be taken apart again, since the digits
of a number contain no separator.
-/

set_option autoImplicit false

namespace SwiftBite.Texts

theorem toList_toString (n : ℕ) : (toString n).toList = Nat.toDigits 10 n := by
  simp [Nat.toString_eq_repr, Nat.repr]

theorem toString_injective {a b : ℕ} (same : toString a = toString b) : a = b := by
  have digits : Nat.toDigits 10 a = Nat.toDigits 10 b := by
    rw [← toList_toString, same, toList_toString]
  rw [← Nat.ofDigitChars_ten_toDigits (n := a), digits, Nat.ofDigitChars_ten_toDigits]

/-- A number that ends at a separator is the digits before it. -/
theorem takeWhile_toString {c : Char} (separator : c.isDigit = false) (n : ℕ) (rest : List Char) :
    ((toString n).toList ++ c :: rest).takeWhile Char.isDigit = (toString n).toList := by
  rw [toList_toString, List.takeWhile_append_of_pos fun d member =>
    Nat.isDigit_of_mem_toDigits (by decide) (by decide) member]
  simp [separator]

/-- Two numbers with a separator between them. -/
theorem pair_injective {a a' b b' : ℕ} {c : Char} (separator : c.isDigit = false)
    (same : (toString a).toList ++ c :: (toString b).toList =
      (toString a').toList ++ c :: (toString b').toList) : a = a' ∧ b = b' := by
  have first : (toString a).toList = (toString a').toList := by
    rw [← takeWhile_toString separator a (toString b).toList, same, takeWhile_toString separator]
  rw [first] at same
  have second := (List.cons.inj (List.append_cancel_left same)).2
  exact ⟨toString_injective (String.toList_inj.1 first),
    toString_injective (String.toList_inj.1 second)⟩

end SwiftBite.Texts
