import Mathlib.Data.List.Basic
import Mathlib.Data.List.Nodup
import Mathlib.Tactic.Ring

/-! # Keyset pagination

A list is read page by page: the next page holds the first `n` elements that stand after the
last one of the page before, by a relation of their own.  The pages put together are the list
exactly when, at each element that ends a page, that relation agrees with the list.
-/

set_option autoImplicit false

namespace SwiftBite.Keyset

section

variable {α : Type} (after : α → α → Bool) (n : ℕ) (rows : List α)

/-- What is left to read: all at first, then what stands after the cursor. -/
def remaining (cursor : Option α) : List α :=
  match cursor with
  | none => rows
  | some c => rows.filter (after c)

/-- The pages read from a cursor on, until nothing is left behind a page. -/
inductive Visits : Option α → List (List α) → Prop where
  | last {cursor : Option α} (fits : (remaining after rows cursor).length ≤ n) :
      Visits cursor [remaining after rows cursor]
  | more {cursor : Option α} {c : α} {pages : List (List α)}
      (left : n < (remaining after rows cursor).length)
      (isLast : ((remaining after rows cursor).take n).getLast? = some c)
      (rest : Visits (some c) pages) : Visits cursor ((remaining after rows cursor).take n :: pages)

/-- The relation tells what is in front of an element from what is behind it. -/
def Separates (before : List α) (c : α) (behind : List α) : Prop :=
  (∀ r ∈ before, after c r = false) ∧ ∀ r ∈ behind, after c r = true

/-- At every element that ends a page, the last page excepted. -/
def Agrees : Prop :=
  ∀ before c behind, rows = before ++ c :: behind → n ∣ before.length + 1 → behind ≠ [] →
  Separates after before c behind

variable {after n rows}

theorem mem_remaining {cursor : Option α} {r : α} :
    r ∈ remaining after rows cursor ↔ r ∈ rows ∧ ∀ c, cursor = some c → after c r = true := by
  cases cursor with
  | none => simp [remaining]
  | some c => simp [remaining]

/-- Whatever is read from a cursor on stands after the cursor. -/
theorem mem_remaining_of_visits
    (transitive : ∀ a b c, after a b = true → after b c = true → after a c = true)
    {cursor : Option α} {pages : List (List α)} (visits : Visits after n rows cursor pages) {r : α}
    (mem : r ∈ pages.flatten) : r ∈ remaining after rows cursor := by
  induction visits with
  | last => simpa using mem
  | @more cursor c pages _ isLast _ inductionHypothesis =>
    rw [List.flatten_cons, List.mem_append] at mem
    obtain mem | mem := mem
    · exact List.mem_of_mem_take mem
    · have there := mem_remaining.1 (inductionHypothesis mem)
      have isCursor := mem_remaining.1 (List.mem_of_mem_take (List.mem_of_getLast? isLast))
      exact mem_remaining.2
        ⟨there.1, fun c' same => transitive c' c r (isCursor.2 c' same) (there.2 c rfl)⟩

/-- The first element that is left is read first. -/
theorem head_of_visits (pos : 0 < n) {cursor : Option α} {pages : List (List α)}
    (visits : Visits after n rows cursor pages) {r : α} {rest : List α}
    (left : remaining after rows cursor = r :: rest) : ∃ others, pages.flatten = r :: others := by
  cases visits with
  | last => exact ⟨rest, by simp [left]⟩
  | more =>
    obtain ⟨m, rfl⟩ := Nat.exists_eq_succ_of_ne_zero pos.ne'
    rw [left]
    exact ⟨_, rfl⟩

theorem remaining_of_separates {before behind : List α} {c : α} (irreflexive : after c c = false)
    (separates : Separates after before c behind) :
    remaining after (before ++ c :: behind) (some c) = behind := by
  have none : before.filter (after c) = [] :=
    List.filter_eq_nil_iff.2 fun r mem => by simp [separates.1 r mem]
  have all : behind.filter (after c) = behind := List.filter_eq_self.2 separates.2
  simp [remaining, none, all, irreflexive]

/-- A page in the middle of the list: it ends in an element, and something is behind it. -/
theorem take_split (pos : 0 < n) {post : List α} (left : n < post.length) :
    ∃ before c behind, post = before ++ c :: behind ∧ before.length + 1 = n ∧ behind ≠ [] ∧
      post.take n = before ++ [c] ∧ post.drop n = behind := by
  obtain ⟨m, rfl⟩ := Nat.exists_eq_succ_of_ne_zero pos.ne'
  have bound : m < post.length := by omega
  refine ⟨post.take m, post[m], post.drop (m + 1), ?_,
    by simp; omega, ?_, List.take_succ_eq_append_getElem bound, rfl⟩
  · rw [List.getElem_cons_drop, List.take_append_drop]
  · simp only [ne_eq, List.drop_eq_nil_iff, not_le]
    exact left

theorem visits_of_agrees (irreflexive : ∀ c, after c c = false) (pos : 0 < n)
    (agrees : Agrees after n rows) {pre post : List α} {cursor : Option α}
    (split : rows = pre ++ post) (whole : n ∣ pre.length)
    (left : remaining after rows cursor = post) :
    ∃ pages, Visits after n rows cursor pages ∧ pages.flatten = post ∧
    (post ≠ [] → ∀ page ∈ pages, page ≠ []) := by
  induction size : post.length using Nat.strong_induction_on generalizing pre post cursor with
  | h total inductionHypothesis =>
    -- The last page, or a full one whose last row separates what follows.
    by_cases fits : post.length ≤ n
    · exact ⟨[post], left ▸ .last (left.symm ▸ fits), by simp, by simp⟩
    · obtain ⟨before, c, behind, isPost, length, nonempty, page, rest⟩ :=
        take_split pos (Nat.lt_of_not_le fits)
      have isSplit : rows = (pre ++ before) ++ c :: behind := by
        rw [split, isPost, List.append_assoc]
      have boundary : n ∣ (pre ++ before).length + 1 := by
        rw [List.length_append, Nat.add_assoc, length]
        exact Nat.dvd_add whole (dvd_refl n)
      have left' : remaining after rows (some c) = behind := by
        have separates := agrees _ c behind isSplit boundary nonempty
        rw [isSplit]
        exact remaining_of_separates (irreflexive c) separates
      have smaller : behind.length < total := by
        rw [← size, isPost]
        simp
        omega
      have isSplit' : rows = (pre ++ before ++ [c]) ++ behind := by simp [isSplit]
      obtain ⟨pages, visits, all, full⟩ := inductionHypothesis behind.length smaller isSplit'
        (by simpa [Nat.add_assoc] using boundary) left' rfl
      refine ⟨(remaining after rows cursor).take n :: pages,
        .more (by rw [left]; omega) (by rw [left, page]; simp) visits, ?_, fun _ => ?_⟩
      · rw [List.flatten_cons, all, left, page, isPost]
        simp
      · rw [left, page]
        exact List.forall_mem_cons.2 ⟨by simp, full nonempty⟩

theorem separates_of_visits
    (transitive : ∀ a b c, after a b = true → after b c = true → after a c = true)
    (distinct : rows.Nodup) (pos : 0 < n) {before behind : List α} {c : α} {pages : List (List α)}
    (split : rows = before ++ c :: behind) (visits : Visits after n rows (some c) pages)
    (all : pages.flatten = behind) :
    Separates after before c behind ∧ remaining after rows (some c) = behind := by
  have later : ∀ r ∈ behind, after c r = true := fun r mem =>
    (mem_remaining.1 (mem_remaining_of_visits transitive visits (all ▸ mem))).2 c rfl
  have none : (before ++ [c]).filter (after c) = [] := by
    -- an element in front of the cursor would be read first
    cases found : (before ++ [c]).filter (after c) with
    | nil => rfl
    | cons r rest =>
      have left : remaining after rows (some c) = r :: (rest ++ behind.filter (after c)) := by
        rw [remaining, split, ← List.singleton_append, ← List.append_assoc,
          List.filter_append, found]
        rfl
      obtain ⟨others, isFirst⟩ := head_of_visits pos visits left
      have inBehind : r ∈ behind := by
        rw [← all, isFirst]
        exact List.mem_cons_self
      have inBefore : r ∈ before ++ [c] := List.mem_of_mem_filter (found ▸ List.mem_cons_self)
      rw [split, ← List.singleton_append, ← List.append_assoc] at distinct
      exact absurd rfl ((List.nodup_append.1 distinct).2.2 r inBefore r inBehind)
  have separates : Separates after before c behind := by
    refine ⟨fun r mem => ?_, later⟩
    simpa using List.filter_eq_nil_iff.1 none r (List.mem_append_left _ mem)
  refine ⟨separates, ?_⟩
  rw [remaining, split, ← List.singleton_append, ← List.append_assoc, List.filter_append, none]
  exact List.filter_eq_self.2 later

theorem agrees_of_visits
    (transitive : ∀ a b c, after a b = true → after b c = true → after a c = true)
    (distinct : rows.Nodup) (pos : 0 < n) {cursor : Option α} {pages : List (List α)}
    (visits : Visits after n rows cursor pages) {pre post : List α} (split : rows = pre ++ post)
    (left : remaining after rows cursor = post) (all : pages.flatten = post)
    {before behind : List α} {c : α} (isPost : post = before ++ c :: behind)
    (boundary : n ∣ before.length + 1) (nonempty : behind ≠ []) :
    Separates after (pre ++ before) c behind := by
  induction visits generalizing pre post before with
  | last fits =>
    rw [left, isPost, List.length_append, List.length_cons] at fits
    have := Nat.le_of_dvd (Nat.succ_pos _) boundary
    have := List.length_pos_iff.2 nonempty
    omega
  | @more cursor c' pages longer isLast rest inductionHypothesis =>
    rw [left] at longer isLast all
    obtain ⟨before', c₀, behind', isPost', length, _, page, drop⟩ := take_split pos longer
    obtain rfl : c₀ = c' := by simpa [page] using isLast
    have allRest : pages.flatten = behind' := by
      rw [List.flatten_cons, page, isPost'] at all
      simpa using all
    have isSplit : rows = (pre ++ before') ++ c₀ :: behind' := by
      rw [split, isPost', List.append_assoc]
    obtain ⟨separates, left'⟩ := separates_of_visits transitive distinct pos isSplit rest allRest
    rw [isPost'] at isPost
    -- the boundary is the end of this page, or of a later one
    by_cases here : before.length = before'.length
    · obtain ⟨rfl, tails⟩ := List.append_inj isPost here.symm
      obtain ⟨rfl, rfl⟩ := List.cons.inj tails
      exact separates
    · have longer : before'.length + 1 ≤ before.length := by
        have := Nat.le_of_dvd (Nat.succ_pos _) boundary
        omega
      obtain ⟨between, rfl⟩ : ∃ between, before = before' ++ [c₀] ++ between := by
        have heads := congrArg (List.take (before'.length + 1)) isPost
        rw [List.take_append_of_le_length longer, ← List.singleton_append, ← List.append_assoc,
          List.take_append_of_le_length (by simp), List.take_of_length_le (by simp)] at heads
        exact ⟨before.drop (before'.length + 1), by rw [heads, List.take_append_drop]⟩
      have rest' : behind' = between ++ c :: behind := by simpa using isPost
      have later : n ∣ between.length + 1 := by
        have shifted : n ∣ n + (between.length + 1) := by
          have total : (before' ++ [c₀] ++ between).length + 1 = n + (between.length + 1) := by
            simp
            omega
          rwa [total] at boundary
        exact (Nat.dvd_add_right (dvd_refl n)).1 shifted
      have isSplit' : rows = (pre ++ before' ++ [c₀]) ++ behind' := by simp [isSplit]
      have ended := inductionHypothesis isSplit' left' allRest rest' later
      simpa using ended

/-- Reading all of the list takes a relation that agrees with it where a page ends. -/
theorem agrees_of_visits_all
    (transitive : ∀ a b c, after a b = true → after b c = true → after a c = true)
    (distinct : rows.Nodup) (pos : 0 < n) {pages : List (List α)}
    (visits : Visits after n rows none pages) (all : pages.flatten = rows) : Agrees after n rows :=
  fun _ _ _ split boundary nonempty =>
  agrees_of_visits transitive distinct pos visits
    (List.nil_append _).symm rfl all split boundary nonempty

end

end SwiftBite.Keyset
