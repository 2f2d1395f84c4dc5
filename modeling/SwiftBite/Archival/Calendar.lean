import Mathlib.Data.Nat.Find
import Mathlib.Order.Monotone.Basic
import Mathlib.Tactic.Common

/-! # UTC years

When the years of the proleptic Gregorian calendar begin, in microseconds since 1970, and the
year in which an instant falls.
-/

set_option autoImplicit false

namespace SwiftBite.Calendar

def microsecondsPerDay : ℕ := 86400000000

/-- The days of the years `1` to `year - 1`. -/
def daysBefore (year : ℕ) : ℕ :=
  365 * (year - 1) + (year - 1) / 4 - (year - 1) / 100 + (year - 1) / 400

/-- `Date.UTC(year, 0, 1)`; years before 1970 begin where it does. -/
def yearStart (year : ℕ) : ℕ := (daysBefore year - daysBefore 1970) * microsecondsPerDay

/-- `getUTCFullYear()`, and `EXTRACT(YEAR FROM ..)`. -/
def yearOf (time : ℕ) : ℕ :=
  Nat.findGreatest (fun year => yearStart year ≤ time) (1970 + time / (365 * microsecondsPerDay))

theorem daysBefore_succ (year : ℕ) : daysBefore (year + 1) + 365 ≤ daysBefore (year + 2) := by
  simp only [daysBefore]
  omega

theorem daysBefore_mono : Monotone daysBefore := by
  refine monotone_nat_of_le_succ fun year => ?_
  cases year with
  | zero => decide
  | succ year => exact Nat.le_of_add_right_le (daysBefore_succ year)

theorem yearStart_mono : Monotone yearStart := fun _ _ le =>
  Nat.mul_le_mul_right _ (Nat.sub_le_sub_right (daysBefore_mono le) _)

theorem yearStart_first : yearStart 1970 = 0 := rfl

/-- A year has at least 365 days. -/
theorem yearStart_after (n : ℕ) : n * (365 * microsecondsPerDay) ≤ yearStart (1970 + n) := by
  have days : 365 * n + daysBefore 1970 ≤ daysBefore (1970 + n) := by
    induction n with
    | zero => exact le_refl _
    | succ n inductionHypothesis =>
      have := daysBefore_succ (1969 + n)
      rw [show 1969 + n + 1 =
        1970 + n by omega, show 1969 + n + 2 = 1970 + (n + 1) by omega] at this
      omega
  calc n * (365 * microsecondsPerDay) = 365 * n * microsecondsPerDay := by
        rw [← Nat.mul_assoc, Nat.mul_comm n]
    _ ≤ (daysBefore (1970 + n) - daysBefore 1970) * microsecondsPerDay :=
      Nat.mul_le_mul_right _ (Nat.le_sub_of_add_le days)

theorem yearStart_yearOf (time : ℕ) : yearStart (yearOf time) ≤ time :=
  Nat.findGreatest_spec (P := fun year => yearStart year ≤ time) (Nat.le_add_right 1970 _)
    (Nat.zero_le time)

theorem le_yearOf {year time : ℕ} (begun : yearStart year ≤ time) : year ≤ yearOf time := by
  refine Nat.le_findGreatest ?_ begun
  by_contra later
  obtain ⟨n, rfl⟩ := Nat.exists_eq_add_of_lt (Nat.lt_of_not_le later)
  have bound := (yearStart_after _).trans
    (begun.trans' (le_of_eq (congrArg yearStart (Nat.add_assoc 1970 _ (n + 1)).symm)))
  have := Nat.lt_div_mul_add (a := time) (b := 365 * microsecondsPerDay) (by decide)
  have : (time / (365 * microsecondsPerDay) + 1) * (365 * microsecondsPerDay) ≤
      (time / (365 * microsecondsPerDay) + (n + 1)) * (365 * microsecondsPerDay) :=
        Nat.mul_le_mul_right _ (by omega)
  rw [Nat.add_mul _ 1, Nat.one_mul] at this
  omega

/-- A year begins no later than an instant exactly when the instant is in it or in a later one. -/
theorem yearStart_le_iff {year time : ℕ} : yearStart year ≤ time ↔ year ≤ yearOf time :=
  ⟨le_yearOf, fun le => (yearStart_mono le).trans (yearStart_yearOf time)⟩

theorem lt_yearStart_iff {year time : ℕ} : time < yearStart year ↔ yearOf time < year := by
  rw [← not_le, yearStart_le_iff, not_le]

theorem yearOf_mono : Monotone yearOf := fun _ _ le => le_yearOf ((yearStart_yearOf _).trans le)

/-- Years begin at full milliseconds. -/
theorem yearOf_milliseconds (time : ℕ) : yearOf (time / 1000 * 1000) = yearOf time := by
  refine Nat.le_antisymm (yearOf_mono (Nat.div_mul_le_self _ _)) (le_yearOf ?_)
  have whole : yearStart (yearOf time) =
      (daysBefore (yearOf time) - daysBefore 1970) * 86400000 * 1000 := by
    rw [yearStart, microsecondsPerDay, Nat.mul_assoc]
  have begun := yearStart_yearOf time
  rw [whole] at begun ⊢
  exact Nat.mul_le_mul_right 1000 ((Nat.le_div_iff_mul_le (by decide)).2 begun)

example : yearOf 1767225599999999 = 2025 ∧ yearOf 1767225600000000 = 2026 := by decide +kernel

end SwiftBite.Calendar
