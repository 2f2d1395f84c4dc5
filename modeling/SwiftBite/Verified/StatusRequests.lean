import SwiftBite.Verified.StatusWrite

/-! # Concurrent status requests

`OrderService.updateStatus` checks the order it has read and then writes by id alone.  As
long as the write finds the order in the status that was checked, every committed change
is an edge of the table that lists the request's actor.
-/

set_option autoImplicit false

namespace SwiftBite.Verified.StatusRequests

open Store Protocol Verified

def IsStatusRequest : Operation → Prop
  | .updateOrderStatus .. => True
  | _ => False

instance : DecidablePred IsStatusRequest
  | .updateOrderStatus .. => inferInstanceAs (Decidable True)
  | .placeOrder .. | .initPayment .. | .refund .. | .webhook .. | .assign .. | .tryAutoAssign ..
  | .reassign ..
  | .updateDeliveryStatus .. | .online .. | .offline .. | .ping .. | .recordPayout .. | .sleep .. =>
    inferInstanceAs (Decidable False)

/-- The change is an edge of the table that lists the operation's actor. -/
def LegalFor (op : Operation) (row row' : Order) : Prop :=
  row'.status = row.status ∨ ∃ core publicId target actor listed,
    op = .updateOrderStatus core publicId target actor ∧ orderActor actor = some listed ∧
      row.status.allows row'.status listed = true

theorem legal_refl (op : Operation) (row : Order) : LegalFor op row row := .inl rfl

def protocol : Protocol (K := RowKey) RowOf Shared Err Operation Reply Unit where
  inv _ := True
  guar _ op w w' := OrdersMove (LegalFor op) w.db w'.db
  rely _ _ _ _ := True
  post _ _ _ _ := True
  allow := Fresh
  faulty _ := True
  admits := IsStatusRequest
  apart _ _ _ := True

theorem lawful : protocol.Lawful where
  guar_refl _ op _ := .same (legal_refl op) rfl
  rely_refl _ _ _ := trivial
  rely_trans _ _ := trivial
  rely_of_guar _ _ _ _ _ := trivial
  post_stable _ _ _ _ := trivial
  inv_spawn _ _ _ := trivial
  inv_crash _ _ _ := ⟨trivial, trivial⟩

theorem free (i : ℕ) (op : Operation) : protocol.Free i op Later :=
  fun _ _ _ _ => ⟨trivial, .same (legal_refl op) rfl, trivial⟩

/-- Writes to other tables than `orders`. -/
abbrev elsewhere : Bounds RowOf RowKey Shared := within (fun w => w.table ≠ .orders) fun _ => True

theorem tolerates (i : ℕ) (op : Operation) : protocol.Tolerates i op elsewhere :=
  fun s _ others _ => ⟨trivial, .same (legal_refl op) (Db.applyAll_other others s.db), trivial⟩

section Request

variable {i : ℕ} {op : Operation} {s : Sit RowOf Shared Operation Unit}

theorem wp_updateStatus {core : Core} {publicId : ℕ} {target : OrderStatus} {actor : RequestActor}
    (isOp : op = .updateOrderStatus core publicId target actor) :
    protocol.wp i op (OrderService.updateStatus core publicId target actor)
      (fun _ _ _ => True) .start s := by
  refine wp_updateOrderStatus lawful (free i op) trivial
    (fun result order listed row s₁ seen' db' _ _ _ _ resolved legal writing => ?_)
    fun _ _ _ _ => trivial
  obtain ⟨began, before, f, found', fresh⟩ := writing.allowed
  obtain ⟨updatedAt, stamp, orders⟩ := writing.written.orders
  -- The row is still in the status that was checked.
  have checked : order.status = row.status :=
    fresh _ (List.mem_singleton.2 rfl) row order found' (lastSeen_order _ order [])
  have edge : LegalFor op row (Order.withStatus target updatedAt stamp row) :=
    .inr ⟨core, publicId, target, actor, listed, isOp, resolved, by rw [← checked]; exact legal⟩
  refine ⟨(), trivial, ?_, fun s' env => ?_⟩
  · refine OrdersMove.modify (legal_refl op) orders
      (Order.identity_withStatus target updatedAt stamp) ?_
    intro row' isRow
    cases writing.found.symm.trans isRow
    exact edge
  · refine wp_harmless lawful (free i op) (tolerates i op)
      (harmless_releaseDelivery order target fun _ => nofun) ?_ trivial env.self ?_
    · exact fun w none => absurd none List.not_mem_nil
    · intro result l s'' _ _ _
      cases result with
      | error err => trivial
      | ok _ => trivial

end Request

theorem verified (env : Config) : protocol.Verified (code env) := by
  intro i op s s' _ _ isRequest _ _
  cases op with
  | updateOrderStatus core publicId target actor =>
    refine wp_map (wp_mono ?_ (wp_updateStatus rfl))
    exact fun _ _ _ _ => ⟨trivial, trivial⟩
  | _ => exact isRequest.elim

/-! ## Runs -/

/-- The runs of status requests without a stale update. -/
def FreshRequests (p : Region) (e : Event Operation) : Prop :=
  Serves IsStatusRequest e ∧ FreshEvent p e

theorem admissible (p : Region) (e : Event Operation) (fresh : FreshRequests p e) :
    protocol.Admissible p e := by
  cases e with
  | spawn op => exact ⟨fresh.1, fun _ _ _ => ⟨trivial, trivial⟩⟩
  | step i choice =>
    exact ⟨fun _ _ _ _ _ _ _ => trivial,
      fun call found => ⟨fun _ => trivial, fun out acts => fresh.2 call out found acts⟩⟩
  | crash i => exact fun _ _ => trivial

/-- The event changes orders along edges of the table only, each listing the actor of the
request whose step it is. -/
def MovesByRequest (p p' : Region) (e : Event Operation) : Prop :=
  ∀ id row, orderOf p.db id = some row → ∃ row', orderOf p'.db id = some row' ∧
    (row'.status = row.status ∨ ∃ i choice call core publicId target actor listed,
      e = .step i choice ∧ p.calls[i]? = some call ∧
      call.op = .updateOrderStatus core publicId target actor ∧
      orderActor actor = some listed ∧ row.status.allows row'.status listed = true)

/-- The state machine is kept by all runs from a state. -/
structure Orderly (env : Config) (allowed : Region → Event Operation → Prop)
    (start : Region) : Prop where
  follows : ∀ p p' e, Pool.Reach (code env) allowed start p → allowed p e →
    p.next (code env) e = some p' →
    MovesByRequest p p' e
  path : ∀ p p', Pool.Reach (code env) allowed start p → Pool.Reach (code env) allowed p p' →
    ∀ id row, orderOf p.db id = some row → ∃ row', orderOf p'.db id = some row' ∧
      Relation.ReflTransGen (fun source target => source.edge target = true) row.status row'.status
  neverBoth : ∀ p p', Pool.Reach (code env) allowed start p → Pool.Reach (code env) allowed p p' →
    ∀ id row row', orderOf p.db id = some row → orderOf p'.db id = some row' →
      (row.status = .accepted → row'.status ≠ .rejected) ∧
      (row.status = .rejected → row'.status ≠ .accepted)

theorem follows_of_admissible {env : Config} {p p' : Region} {e : Event Operation} {ghost : Unit}
    (sound : protocol.Sound p ghost) (condition : protocol.Admissible p e)
    (moves : p.next (code env) e = some p') : MovesByRequest p p' e := by
  have conforms := (sound_next lawful (verified env) sound condition moves).2
  intro id row found
  cases e with
  | spawn op => exact ⟨row, by rw [conforms.1]; exact found, .inl rfl⟩
  | crash i => exact ⟨row, by rw [conforms.1]; exact found, .inl rfl⟩
  | step i choice =>
    obtain ⟨call, _, _, called, _, guar⟩ := conforms
    obtain ⟨row', found', legal⟩ := guar id row found
    refine ⟨row', found', legal.imp_right ?_⟩
    rintro ⟨core, publicId, target, actor, listed, isOp, resolved, edge⟩
    exact ⟨i, choice, call, core, publicId, target, actor, listed, rfl, called, isOp,
      resolved, edge⟩

/-- Where the edges lead from an accepted order. -/
theorem path_from_accepted {status : OrderStatus}
    (path :
      Relation.ReflTransGen (fun source target => source.edge target = true) .accepted status) :
    status ≠ .rejected ∧ status ≠ .placed := by
  induction path with
  | refl => decide
  | @tail source target _ edge inductionHypothesis =>
    revert edge inductionHypothesis
    cases source <;> cases target <;> decide

theorem path_from_rejected {status : OrderStatus}
    (path :
      Relation.ReflTransGen (fun source target => source.edge target = true) .rejected status) :
    status = .rejected := by
  induction path with
  | refl => rfl
  | @tail source target _ edge inductionHypothesis =>
    subst inductionHypothesis
    cases edge

theorem fresh_requests_keep_the_state_machine (env : Config) (db : Database) (x : Shared) :
    Orderly env FreshRequests (Pool.quiet db x) := by
  -- One step, and then the paths of whole runs.
  have steps : ∀ p p' e, Pool.Reach (code env) FreshRequests (Pool.quiet db x) p →
      FreshRequests p e →
      p.next (code env) e = some p' → MovesByRequest p p' e := by
    intro p p' e reached allowed moves
    obtain ⟨ghost, sound⟩ :=
      sound_of_reach lawful (verified env) admissible (sound_quiet () trivial) reached
    exact follows_of_admissible sound (admissible p e allowed) moves
  have paths : ∀ p p', Pool.Reach (code env) FreshRequests (Pool.quiet db x) p →
      Pool.Reach (code env) FreshRequests p p' → ∀ id row, orderOf p.db id = some row →
      ∃ row', orderOf p'.db id = some row' ∧
        Relation.ReflTransGen (fun source target => source.edge target = true) row.status
          row'.status := by
    intro p p' reached further id row found
    induction further with
    | refl => exact ⟨row, found, .refl⟩
    | @step middle last e before condition moves inductionHypothesis =>
      obtain ⟨row', found', path⟩ := inductionHypothesis
      obtain ⟨row'', found'', legal⟩ :=
        steps middle last e (reached.trans before) condition moves id row' found'
      refine ⟨row'', found'', ?_⟩
      rcases legal with same | ⟨_, _, _, _, _, _, _, _, _, _, _, _, allowed⟩
      · rwa [same]
      · exact path.tail (OrderStatus.edge_of_allows allowed)
  refine ⟨steps, paths, fun p p' reached further id row row' found found' => ?_⟩
  obtain ⟨last, isLast, path⟩ := paths p p' reached further id row found
  cases isLast.symm.trans found'
  constructor
  · intro accepted
    rw [accepted] at path
    exact (path_from_accepted path).1
  · intro rejected
    rw [rejected] at path
    rw [path_from_rejected path]
    decide

/-! ## Without freshness -/

/-- Two members of the restaurant answer a new order at the same time: one accepts it, the
other rejects it, and both have read it as placed. -/
def acceptAndReject : List (Event Operation) :=
  [.spawn (.updateOrderStatus Sample.core 100 .accepted Sample.owner),
    .spawn (.updateOrderStatus Sample.core 100 .rejected Sample.owner), Sample.act 0,
    Sample.act 1] ++
  List.replicate 8 (Sample.act 0)

def StatusRequestsOnly (_ : Region) (e : Event Operation) : Prop :=
  Serves IsStatusRequest e ∧ Faultless e

instance (p : Region) (e : Event Operation) : Decidable (StatusRequestsOnly p e) :=
  inferInstanceAs (Decidable (_ ∧ _))

theorem stale_requests_break_the_state_machine :
    ¬ Orderly Sample.env StatusRequestsOnly (Pool.quiet (Sample.db .placed) Sample.shared) := by
  intro orderly
  have first :
      ((Pool.play (code Sample.env) (fun p e => decide (StatusRequestsOnly p e)) acceptAndReject
      (Pool.quiet (Sample.db .placed) Sample.shared)).map (statusOf 1)) =
      some (some .accepted) := by decide +kernel
  have second :
      ((Pool.play (code Sample.env) (fun p e => decide (StatusRequestsOnly p e)) acceptAndReject
      (Pool.quiet (Sample.db .placed) Sample.shared)).bind
        (Pool.play (code Sample.env) (fun p e => decide (StatusRequestsOnly p e))
          (List.replicate 8 (Sample.act 1)))).map (statusOf 1) =
          some (some .rejected) := by decide +kernel
  obtain ⟨p, played, accepted⟩ := Option.map_eq_some_iff.1 first
  rw [played] at second
  obtain ⟨p', played', rejected⟩ := Option.map_eq_some_iff.1 second
  obtain ⟨row, found, isAccepted⟩ := Option.map_eq_some_iff.1 accepted
  obtain ⟨row', found', isRejected⟩ := Option.map_eq_some_iff.1 rejected
  exact (orderly.neverBoth p p' (Pool.reach_of_play (fun _ _ => of_decide_eq_true) played)
    (Pool.reach_of_play (fun _ _ => of_decide_eq_true) played') 1 row row' found found').1
    isAccepted isRejected

end SwiftBite.Verified.StatusRequests
