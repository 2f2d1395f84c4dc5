import SwiftBite.Data.Shared

/-! # The order state machine -/

set_option autoImplicit false

namespace SwiftBite

structure TransitionRule where
  target : OrderStatus
  actors : List OrderActor

/-- `TRANSITIONS`: the rules for leaving each status. -/
def OrderStatus.transitions : OrderStatus → List TransitionRule
  | .pendingPayment => [⟨.cancelled, [.customer, .system]⟩]
  | .placed =>
    [⟨.accepted, [.restaurant, .admin]⟩, ⟨.rejected, [.restaurant, .admin]⟩,
      ⟨.cancelled, [.customer]⟩]
  | .accepted => [⟨.preparing, [.restaurant, .admin]⟩, ⟨.cancelled, [.restaurant, .admin]⟩]
  | .preparing => [⟨.ready, [.restaurant, .admin]⟩, ⟨.cancelled, [.restaurant, .admin]⟩]
  | .ready => [⟨.assigned, [.system]⟩, ⟨.cancelled, [.restaurant, .admin]⟩]
  | .assigned => [⟨.picked, [.agent]⟩, ⟨.cancelled, [.admin]⟩]
  | .picked => [⟨.delivered, [.agent]⟩]
  | .rejected | .delivered | .cancelled => []

/-- The table has an edge that lists the actor. -/
def OrderStatus.allows (source target : OrderStatus) (actor : OrderActor) : Bool :=
  source.transitions.any fun rule => rule.target = target && rule.actors.contains actor

def assertTransition (source target : OrderStatus) (actor : OrderActor) : Except Err Unit :=
  if source.allows target actor then pure ()
  else throw (.invalidStatusTransitionError source target)

/-- The table has an edge for some actor. -/
def OrderStatus.edge (source target : OrderStatus) : Bool :=
  source.transitions.any fun rule => rule.target = target

theorem OrderStatus.edge_of_allows {source target : OrderStatus} {actor : OrderActor}
    (allowed : source.allows target actor = true) : source.edge target = true := by
  simp only [allows, List.any_eq_true, Bool.and_eq_true] at allowed
  obtain ⟨rule, member, isTarget, _⟩ := allowed
  simp only [edge, List.any_eq_true]
  exact ⟨rule, member, isTarget⟩

theorem allows_of_assertTransition {source target : OrderStatus} {actor : OrderActor}
    {answer : Unit} (passed : assertTransition source target actor = .ok answer) :
    source.allows target actor = true := by
  unfold assertTransition at passed
  split at passed
  next allowed => exact allowed
  next => cases passed

end SwiftBite
