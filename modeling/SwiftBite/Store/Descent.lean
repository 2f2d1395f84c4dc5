import Mathlib.Data.List.Perm.Subperm
import Mathlib.Order.WellFounded

/-! # Chains of links that go down

Each place links to at most one other.  When every link goes down, the walk from any place ends,
and comes to no place twice.
-/

set_option autoImplicit false

namespace SwiftBite.Store

/-- The places of the walk from a place to where the links end. -/
inductive Chain {α : Type} (link : α → Option α) : α → List α → Prop where
  | last {a : α} (ends : link a = none) : Chain link a [a]
  | next {a b : α} {places : List α} (onward : link a = some b) (rest : Chain link b places) :
      Chain link a (a :: places)

namespace Chain

variable {α : Type} {link link' : α → Option α} {a b : α} {places places' : List α}

/-- A link that is there is followed. -/
theorem tail (chain : Chain link a places) (onward : link a = some b) :
    ∃ rest, places = a :: rest ∧ Chain link b rest := by
  cases chain with
  | last ends =>
    rw [ends] at onward
    cases onward
  | next onward' rest =>
    cases onward.symm.trans onward'
    exact ⟨_, rfl, rest⟩

theorem eq_singleton (chain : Chain link a places) (ends : link a = none) : places = [a] := by
  cases chain with
  | last => rfl
  | next onward =>
    rw [ends] at onward
    cases onward

theorem length_pos (chain : Chain link a places) : 0 < places.length := by
  cases chain <;> simp

theorem unique (chain : Chain link a places)
    (chain' : Chain link a places') : places' = places := by
  induction chain generalizing places' with
  | last ends => exact chain'.eq_singleton ends
  | next onward _ inductionHypothesis =>
    obtain ⟨rest, rfl, isRest⟩ := chain'.tail onward
    rw [inductionHypothesis isRest]

/-- What holds at the start and goes over each link holds all along. -/
theorem all {holds : α → Prop} (chain : Chain link a places) (start : holds a)
    (step : ∀ a b, holds a → link a = some b → holds b) : ∀ b ∈ places, holds b := by
  induction chain with
  | last => simpa using start
  | next onward _ inductionHypothesis =>
    exact List.forall_mem_cons.2 ⟨start, inductionHypothesis (step _ _ start onward)⟩

/-- Another network with the same links along the walk. -/
theorem congr (chain : Chain link a places) (same : ∀ b ∈ places, link' b = link b) :
    Chain link' a places := by
  induction chain with
  | last ends => exact .last ((same _ (by simp)).trans ends)
  | next onward _ inductionHypothesis =>
    have rest := inductionHypothesis fun b member => same b (List.mem_cons_of_mem _ member)
    exact .next ((same _ List.mem_cons_self).trans onward) rest

section

variable [Preorder α] (down : ∀ a b, link a = some b → b < a)

include down

theorem exists_of_down [WellFoundedLT α] (a : α) : ∃ places, Chain link a places := by
  induction a using WellFoundedLT.induction with
  | ind a inductionHypothesis =>
    cases onward : link a with
    | none => exact ⟨[a], .last onward⟩
    | some b =>
      obtain ⟨places, rest⟩ := inductionHypothesis b (down a b onward)
      exact ⟨a :: places, .next onward rest⟩

theorem pairwise (chain : Chain link a places) : places.Pairwise fun a b => b < a := by
  induction chain with
  | last => exact List.pairwise_singleton _ _
  | @next a b places onward rest inductionHypothesis =>
    refine List.pairwise_cons.2 ⟨?_, inductionHypothesis⟩
    exact rest.all (down a b onward) fun c d below onward' => (down c d onward').trans below

/-- All places of a walk are different, so that it is no longer than a list of them all. -/
theorem length_le (chain : Chain link a places) {all : List α} (start : a ∈ all)
    (closed : ∀ a b, a ∈ all → link a = some b → b ∈ all) : places.length ≤ all.length := by
  have distinct : places.Nodup := (chain.pairwise down).imp fun less => less.ne'
  exact (List.subperm_of_subset distinct (chain.all start closed)).length_le

end

end Chain

end SwiftBite.Store
