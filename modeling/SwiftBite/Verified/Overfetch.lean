import SwiftBite.Store.Shortlist
import SwiftBite.Verified.RedisScan

/-! # Over-fetching

Redis does not know that an agent is busy when it looks for agents nearby, so that the search
asks for as many more as there are busy agents and drops these afterwards.
-/

set_option autoImplicit false

namespace SwiftBite.Verified.Overfetch

open Store Verified RedisScan

/-- All agents within the radius, the nearest first. -/
def inReach (env : Config) (geo : List (ℕ × Point)) (centre : Point) : List CandidateAgent :=
  ((geo.map fun entry => ⟨entry.1, env.geoDistance centre entry.2⟩).filter fun candidate =>
    candidate.distanceMeters ≤ env.radiusMeters).insertionSort env.nearer

/-- The agents who are not busy. -/
def notBusy (busy : List ℕ) (agents : List CandidateAgent) : List CandidateAgent :=
  agents.filter fun c => c.agentId ∉ busy

/-- The loop stops early, with the first free agents there are. -/
theorem collectFree_eq {busy : List ℕ} {limit : ℕ} {raw candidates : List CandidateAgent}
    (room : candidates.length < limit) :
    collectFree busy limit raw candidates =
      candidates ++ (notBusy busy raw).take (limit - candidates.length) := by
  induction raw generalizing candidates with
  | nil => simp [collectFree, notBusy]
  | cons next raw inductionHypothesis =>
    simp only [collectFree, notBusy, List.filter_cons]
    by_cases isBusy : next.agentId ∈ busy
    · simpa [isBusy, notBusy] using inductionHypothesis room
    · obtain ⟨more, isMore⟩ := Nat.exists_eq_add_of_lt room
      have left : limit - candidates.length = more + 1 := by omega
      simp only [isBusy, if_false, not_false_eq_true, decide_true, if_true, left,
        List.take_succ_cons]
      split
      next full =>
        have last : more = 0 := by
          rw [List.length_append, List.length_singleton] at full
          omega
        simp [last]
      next spare =>
        rw [List.length_append, List.length_singleton] at spare
        rw [inductionHypothesis (by rw [List.length_append, List.length_singleton]; omega)]
        have rest : limit - (candidates ++ [next]).length = more := by
          rw [List.length_append, List.length_singleton]
          omega
        rw [rest, List.append_assoc, notBusy]
        rfl

theorem nodup_inReach {env : Config} {presence : Presence} (distinct : OnePosition presence)
    (centre : Point) : ((inReach env presence.geo centre).map CandidateAgent.agentId).Nodup := by
  have sorted := (List.perm_insertionSort env.nearer ((presence.geo.map fun entry =>
    (⟨entry.1, env.geoDistance centre entry.2⟩ : CandidateAgent)).filter fun candidate =>
      candidate.distanceMeters ≤ env.radiusMeters)).map CandidateAgent.agentId
  refine sorted.nodup_iff.2 (List.Nodup.sublist (List.filter_sublist.map _) ?_)
  simpa [OnePosition, Function.comp_def] using distinct

/-- The search returns the first free agents of all within the radius. -/
theorem search_is_exact (env : Config) (p : Region) (centre : Point) (limit : ℕ)
    (positive : 1 ≤ limit) (distinct : OnePosition p.side.presence) :
    Returns (findNearbyOnlineAgents env centre limit) p fun agents =>
      agents =
        (notBusy p.side.presence.busy (inReach env p.side.presence.geo centre)).take limit := by
  rw [returns_findNearbyOnlineAgents]
  have few : failing (fun c => c.agentId ∉ p.side.presence.busy)
      (inReach env p.side.presence.geo centre) ≤ p.side.presence.busy.length :=
    failing_le_of_names (nodup_inReach distinct centre) fun c _ isBusy => by simpa using isBusy
  calc collectFree p.side.presence.busy limit
        (env.geosearch p.side.presence.geo centre (limit + p.side.presence.busy.length)) []
    _ = (notBusy p.side.presence.busy ((inReach env p.side.presence.geo centre).take
          (limit + p.side.presence.busy.length))).take limit :=
      collectFree_eq (show ([] : List CandidateAgent).length < limit from positive)
    _ = (notBusy p.side.presence.busy (inReach env p.side.presence.geo centre)).take limit :=
      shortlist_of_take few

/-- Agents 2 and 3 are as near, and agent 2 is busy. -/
def oneBusy : Region :=
  Pool.quiet Database.empty { Sample.shared with
    presence := ⟨[(2, ⟨0, 0⟩), (3, ⟨0, 0⟩)], [2, 7], []⟩ }

theorem free_agent_is_found :
    Returns (findNearbyOnlineAgents Sample.env ⟨0, 0⟩ 1) oneBusy fun agents =>
    agents = (notBusy oneBusy.side.presence.busy
      (inReach Sample.env oneBusy.side.presence.geo ⟨0, 0⟩)).take 1 :=
  search_is_exact Sample.env oneBusy ⟨0, 0⟩ 1 le_rfl (by unfold OnePosition; decide)

end SwiftBite.Verified.Overfetch
