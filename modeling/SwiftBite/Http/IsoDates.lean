import SwiftBite.Archival.Calendar
import Mathlib

/-! # Dates as texts

An instant of the years 1970 to 9999, in milliseconds, as the text that `toISOString` writes, and
back.
-/

set_option autoImplicit false

namespace SwiftBite.IsoDates

open Calendar

/-! ## Numbers of a fixed width -/

/-- A number in so many digits, with zeros in front. -/
def padded : ℕ → ℕ → List Char
  | 0, _ => []
  | width + 1, n => padded width (n / 10) ++ [Nat.digitChar (n % 10)]

/-- So many digits, read after a number, and the rest of the text. -/
def readDigits : ℕ → ℕ → List Char → Option (ℕ × List Char)
  | 0, sofar, text => some (sofar, text)
  | width + 1, sofar, c :: text =>
    if c.isDigit then readDigits width (10 * sofar + (c.toNat - 48)) text else none
  | _ + 1, _, [] => none

def skip (c : Char) : List Char → Option (List Char)
  | d :: text => if d = c then some text else none
  | [] => none

@[simp] theorem skip_self (c : Char) (text : List Char) : skip c (c :: text) = some text :=
  if_pos rfl

theorem readDigits_succ {width sofar n : ℕ} {text rest : List Char} {c : Char}
    (digit : c.isDigit = true) (reads : readDigits width sofar text = some (n, c :: rest)) :
    readDigits (width + 1) sofar text = some (10 * n + (c.toNat - 48), rest) := by
  induction width generalizing sofar text with
  | zero =>
    cases reads
    simp [readDigits, digit]
  | succ width inductionHypothesis =>
    cases text with
    | nil => cases reads
    | cons d text =>
      rw [readDigits] at reads ⊢
      split at reads
      next first => rw [if_pos first, inductionHypothesis reads]
      next => cases reads

theorem digit_of_lt {d : ℕ} (small : d < 10) :
    (Nat.digitChar d).isDigit = true ∧ (Nat.digitChar d).toNat - 48 = d := by
  have all : ∀ d < 10, (Nat.digitChar d).isDigit = true ∧
      (Nat.digitChar d).toNat - 48 = d := by decide
  exact all d small

theorem readDigits_padded {width n : ℕ} (small : n < 10 ^ width) (rest : List Char) :
    readDigits width 0 (padded width n ++ rest) = some (n, rest) := by
  induction width generalizing n rest with
  | zero =>
    obtain rfl : n = 0 := by omega
    rfl
  | succ width inductionHypothesis =>
    have front : n / 10 < 10 ^ width := by
      rw [Nat.pow_succ] at small
      omega
    obtain ⟨isDigit, value⟩ := digit_of_lt (Nat.mod_lt n (by decide : 0 < 10))
    rw [padded, List.append_assoc, List.singleton_append,
      readDigits_succ isDigit (inductionHypothesis front _), value]
    congr
    omega

/-! ## Months -/

def leap (year : ℕ) : Bool := year % 4 = 0 && (year % 100 ≠ 0 || year % 400 = 0)

def monthLengths (year : ℕ) : List ℕ :=
  [31, if leap year then 29 else 28, 31, 30, 31, 30, 31, 31, 30, 31, 30, 31]

/-- In which of consecutive spans a day falls, and where in it. -/
def spanOf : List ℕ → ℕ → ℕ × ℕ
  | [], day => (0, day)
  | length :: lengths, day =>
    if day < length then (0, day) else ((spanOf lengths (day - length)).1 + 1,
      (spanOf lengths (day - length)).2)

theorem spanOf_spec {lengths : List ℕ} {day : ℕ} (inside : day < lengths.sum) :
    (spanOf lengths day).1 < lengths.length ∧
    (spanOf lengths day).2 < lengths.getD (spanOf lengths day).1 0 ∧
      (lengths.take (spanOf lengths day).1).sum + (spanOf lengths day).2 = day := by
  induction lengths generalizing day with
  | nil => cases inside
  | cons length lengths inductionHypothesis =>
    rw [spanOf]
    split
    next here => exact ⟨Nat.succ_pos _, here, Nat.zero_add _⟩
    next later =>
      rw [List.sum_cons] at inside
      have within : day - length < lengths.sum := by omega
      obtain ⟨isSpan, isDay, same⟩ := inductionHypothesis within
      refine ⟨Nat.succ_lt_succ isSpan, isDay, ?_⟩
      rw [List.take_succ_cons, List.sum_cons]
      omega

theorem getD_monthLengths_le (year month : ℕ) : (monthLengths year).getD month 0 ≤ 31 := by
  have all : ∀ length ∈ monthLengths year, length ≤ 31 := by
    cases isLeap : leap year <;> simp [monthLengths, isLeap]
  by_cases inside : month < (monthLengths year).length
  · rw [List.getD_eq_getElem _ _ inside]
    exact all _ (List.getElem_mem inside)
  · rw [List.getD_eq_default _ _ (by omega)]
    exact Nat.zero_le _

theorem length_monthLengths (year : ℕ) : (monthLengths year).length = 12 := rfl

theorem sum_monthLengths (year : ℕ) : (monthLengths year).sum = if leap year then 366 else 365 := by
  cases isLeap : leap year <;> simp [monthLengths, isLeap]

/-- A year ends with its last month. -/
theorem daysBefore_monthLengths {year : ℕ} (first : 1 ≤ year) :
    daysBefore (year + 1) = daysBefore year + (monthLengths year).sum := by
  rw [sum_monthLengths]
  obtain ⟨n, rfl⟩ := Nat.exists_eq_add_of_le' first
  simp only [daysBefore, Nat.add_sub_cancel]
  have four : (n + 1) / 4 = n / 4 + if (n + 1) % 4 = 0 then 1 else 0 := by split <;> omega
  have hundred : (n + 1) / 100 = n / 100 + if (n + 1) % 100 = 0 then 1 else 0 := by split <;> omega
  have fourHundred : (n + 1) / 400 = n / 400 + if (n + 1) % 400 = 0 then 1 else 0 := by
    split <;> omega
  have fewer : n / 100 ≤ n / 4 := Nat.div_le_div_left (by decide) (by decide)
  have isLeap : leap (n + 1) =
      (decide ((n + 1) % 4 = 0) && (decide ((n + 1) % 100 ≠ 0) || decide ((n + 1) % 400 = 0))) :=
    rfl
  rw [four, hundred, fourHundred, isLeap]
  -- Of the divisors of the rule each divides the next.
  by_cases byFour : (n + 1) % 4 = 0 <;> by_cases byHundred : (n + 1) % 100 = 0 <;>
    by_cases byFourHundred : (n + 1) % 400 = 0 <;>
    simp only [byFour, byHundred, byFourHundred, if_true, if_false, decide_true, decide_false,
      ne_eq, not_true, not_false_iff, Bool.and_true,
      Bool.and_false, Bool.or_true, Bool.or_false, Bool.false_eq_true] <;>
    omega

/-! ## Texts -/

/-- The years that have four digits end here. -/
def lastMoment : ℕ := 253402300800000

theorem yearStart_lastMoment : yearStart 10000 = lastMoment * 1000 := by decide

/-- `toISOString` -/
def toISOString (time : ℕ) : List Char :=
  let year := yearOf (time * 1000)
  let date := spanOf (monthLengths year) (time / 86400000 - (daysBefore year - daysBefore 1970))
  padded 4 year ++ '-' :: (padded 2 (date.1 + 1) ++ '-' ::
    (padded 2 (date.2 + 1) ++ 'T' :: (padded 2 (time / 3600000 % 24) ++
    ':' :: (padded 2 (time / 60000 % 60) ++ ':' ::
      (padded 2 (time / 1000 % 60) ++ '.' :: (padded 3 (time % 1000) ++ ['Z']))))))

structure Fields where
  year : ℕ
  month : ℕ
  day : ℕ
  hour : ℕ
  minute : ℕ
  second : ℕ

/-- `YYYY-MM-DDTHH:mm:ss`, and the rest of the text. -/
def readFields (text : List Char) : Option (Fields × List Char) := do
  let (year, text) ← readDigits 4 0 text
  let text ← skip '-' text
  let (month, text) ← readDigits 2 0 text
  let text ← skip '-' text
  let (day, text) ← readDigits 2 0 text
  let text ← skip 'T' text
  let (hour, text) ← readDigits 2 0 text
  let text ← skip ':' text
  let (minute, text) ← readDigits 2 0 text
  let text ← skip ':' text
  let (second, text) ← readDigits 2 0 text
  some (⟨year, month, day, hour, minute, second⟩, text)

def Fields.Valid (fields : Fields) : Prop :=
  1970 ≤ fields.year ∧ 1 ≤ fields.month ∧ 1 ≤ fields.day ∧
  fields.day ≤ (monthLengths fields.year).getD (fields.month - 1) 0 ∧
    fields.hour < 24 ∧ fields.minute < 60 ∧ fields.second < 60

instance : DecidablePred Fields.Valid := fun _ => inferInstanceAs (Decidable (_ ∧ _))

/-- `Date.UTC`, without the milliseconds. -/
def Fields.utc (fields : Fields) : ℕ :=
  (daysBefore fields.year - daysBefore 1970 +
    ((monthLengths fields.year).take (fields.month - 1)).sum + (fields.day - 1)) * 86400000 +
    fields.hour * 3600000 + fields.minute * 60000 + fields.second * 1000

/-- `new Date` of a text as `toISOString` writes it; `none` for other texts. -/
def newDate (text : List Char) : Option ℕ := do
  let (fields, text) ← readFields text
  let text ← skip '.' text
  let (ms, text) ← readDigits 3 0 text
  if text = ['Z'] ∧ fields.Valid then some (fields.utc + ms) else none

def fieldsOf (time : ℕ) : Fields :=
  let year := yearOf (time * 1000)
  let date := spanOf (monthLengths year) (time / 86400000 - (daysBefore year - daysBefore 1970))
  ⟨year, date.1 + 1, date.2 + 1, time / 3600000 % 24, time / 60000 % 60, time / 1000 % 60⟩

section

variable {time : ℕ}

/-- The year of an instant has the instant's day in it. -/
theorem day_in_year (time : ℕ) :
    1970 ≤ yearOf (time * 1000) ∧
    daysBefore (yearOf (time * 1000)) - daysBefore 1970 ≤ time / 86400000 ∧
    time / 86400000 - (daysBefore (yearOf (time * 1000)) - daysBefore 1970) <
      (monthLengths (yearOf (time * 1000))).sum := by
  have first : 1970 ≤ yearOf (time * 1000) :=
    le_yearOf (by rw [yearStart_first]; exact Nat.zero_le _)
  have begun := yearStart_yearOf (time * 1000)
  have ends : time * 1000 < yearStart (yearOf (time * 1000) + 1) :=
    lt_yearStart_iff.2 (Nat.lt_succ_self _)
  have grows : daysBefore 1970 ≤ daysBefore (yearOf (time * 1000)) := daysBefore_mono first
  -- Years begin at full days, so the day of an instant is in the year that the instant is in.
  rw [yearStart, microsecondsPerDay] at begun ends
  rw [daysBefore_monthLengths (by omega)] at ends
  refine ⟨first, ?_, ?_⟩
  · omega
  · omega

theorem valid_fieldsOf (time : ℕ) : (fieldsOf time).Valid := by
  obtain ⟨first, _, inside⟩ := day_in_year time
  obtain ⟨_, isDay, _⟩ := spanOf_spec inside
  simp only [Fields.Valid, fieldsOf, Nat.add_sub_cancel]
  exact ⟨first, by omega, by omega, by omega, by omega, by omega, by omega⟩

theorem utc_fieldsOf (time : ℕ) : (fieldsOf time).utc + time % 1000 = time := by
  obtain ⟨_, begun, inside⟩ := day_in_year time
  obtain ⟨_, _, same⟩ := spanOf_spec inside
  simp only [Fields.utc, fieldsOf, Nat.add_sub_cancel]
  omega

theorem readFields_padded {year month day hour minute second : ℕ} (hasYear : year < 10 ^ 4)
    (hasMonth : month < 10 ^ 2) (hasDay : day < 10 ^ 2) (hasHour : hour < 10 ^ 2)
    (hasMinute : minute < 10 ^ 2) (hasSecond : second < 10 ^ 2) (rest : List Char) :
    readFields (padded 4 year ++ '-' ::
      (padded 2 month ++ '-' :: (padded 2 day ++ 'T' :: (padded 2 hour ++ ':' :: (padded 2 minute ++
      ':' :: (padded 2 second ++ rest)))))) =
        some (⟨year, month, day, hour, minute, second⟩, rest) := by
  simp only [readFields, readDigits_padded hasYear, readDigits_padded hasMonth,
    readDigits_padded hasDay, readDigits_padded hasHour,
    readDigits_padded hasMinute, readDigits_padded hasSecond, skip_self, Option.bind_eq_bind,
    Option.bind_some]

/-- The fields of an instant have the widths that they are written in. -/
theorem readFields_toISOString (early : time < lastMoment) :
    readFields (toISOString time) =
      some (fieldsOf time, '.' :: (padded 3 (time % 1000) ++ ['Z'])) := by
  obtain ⟨_, _, inside⟩ := day_in_year time
  obtain ⟨isMonth, isDay, _⟩ := spanOf_spec inside
  have ends : time * 1000 < yearStart 10000 := by
    rw [yearStart_lastMoment]
    omega
  have year := lt_yearStart_iff.1 ends
  have days := isDay.trans_le (getD_monthLengths_le ..)
  rw [length_monthLengths] at isMonth
  exact readFields_padded (by omega) (by omega) (by omega) (by omega) (by omega) (by omega) _

/-- What `toISOString` writes reads as the instant it was written for. -/
theorem newDate_toISOString (early : time < lastMoment) :
    newDate (toISOString time) = some time := by
  have ms : time % 1000 < 10 ^ 3 := by omega
  simp only [newDate, readFields_toISOString early, skip_self, readDigits_padded ms,
    Option.bind_eq_bind, Option.bind_some,
    valid_fieldsOf, utc_fieldsOf, and_self, if_true]

end

end SwiftBite.IsoDates
