import SwiftBite.Store.Beside
import SwiftBite.Store.Descent
import SwiftBite.Verified.Alone
import SwiftBite.Verified.OneSettlement
import SwiftBite.Verified.PaymentSteps
import SwiftBite.Verified.Placement

/-! # Chains of reassignments

Each delivery that replaces another refers to an older one of its order, in every state of all
runs.  So the walk back to the first assignment ends, and the check that comes before each
reassignment bounds it: several may replace the same delivery, each with its own chain.
-/

set_option autoImplicit false

namespace SwiftBite.Verified.Chains

open Store Protocol Verified Statement AssignmentService DeliveryService OneSettlement

/-- The delivery that a delivery replaces. -/
def predecessor (db : Database) (id : ℕ) : Option ℕ :=
  ((deliveryOf db id).map Delivery.reassignedFrom).join

/-- What is written once and for all. -/
def linkOf (d : Delivery) : ℕ × ℕ × Option ℕ := (d.id, d.orderId, d.reassignedFrom)

/-! ## Deliveries and what they refer to -/

/-- Delivery `r` may be replaced: it is of the order, and its chain is not at the limit. -/
structure MayFollow (limit : ℕ) (db : Database) (orderId r : ℕ) : Prop where
  ofOrder : ∃ d, deliveryOf db r = some d ∧ d.orderId = orderId
  short : ∃ places, Chain (predecessor db) r places ∧ places.length < limit

/-- A new delivery may have these entries. -/
structure Fits (limit : ℕ) (db : Database) (x : Shared) (entries : ℕ × ℕ × Option ℕ) : Prop where
  drawn : entries.1 < x.seq .deliveries
  older : ∀ r, entries.2.2 = some r → r < entries.1
  follows : ∀ r, entries.2.2 = some r → MayFollow limit db entries.2.1 r

structure Linked (limit : ℕ) (db : Database) (x : Shared) : Prop where
  fresh : FreshIds db x
  older : ∀ d ∈ (db .deliveries).rows, ∀ r, Delivery.reassignedFrom d = some r →
    r < d.id ∧ ∃ d', deliveryOf db r = some d' ∧ d'.orderId = d.orderId
  short : 0 < limit → ∀ d ∈ (db .deliveries).rows, ∀ places,
    Chain (predecessor db) (Delivery.id d) places → places.length ≤ limit

/-- Deliveries stay, and refer to what they did. -/
structure Moves (w w' : World RowOf Shared Unit) : Prop where
  keeps : Table.Keeps linkOf (w.db .deliveries) (w'.db .deliveries)
  seq : w.side.seq .deliveries ≤ w'.side.seq .deliveries
  grows : w.db.Grows w'.db

section

variable {limit : ℕ} {db db' : Database} {x x' : Shared} {id : ℕ} {places : List ℕ}

theorem predecessor_of_get {d : Delivery} (found : deliveryOf db id = some d) :
    predecessor db id = d.reassignedFrom := by
  rw [predecessor, found]
  rfl

theorem id_of_get {d : Delivery} (found : deliveryOf db id = some d) : d.id = id :=
  RowKey.id.inj (Table.get_key found)

theorem exists_of_predecessor {r : ℕ} (isPredecessor : predecessor db id = some r) :
    ∃ d, deliveryOf db id = some d ∧ d.reassignedFrom = some r := by
  obtain ⟨row, isRow, isFrom⟩ := Option.map_eq_some_iff.1 (Option.join_eq_some_iff.1 isPredecessor)
  exact ⟨row, isRow, isFrom⟩

namespace Linked

theorem down (linked : Linked limit db x) (a b : ℕ)
    (onward : predecessor db a = some b) : b < a := by
  obtain ⟨d, found, isFrom⟩ := exists_of_predecessor onward
  have less := (linked.older d (Table.get_mem found) b isFrom).1
  rwa [id_of_get found] at less

theorem there (linked : Linked limit db x) (a b : ℕ) (onward : predecessor db a = some b) :
    (deliveryOf db b).isSome = true := by
  obtain ⟨d, found, isFrom⟩ := exists_of_predecessor onward
  obtain ⟨_, d', found', _⟩ := linked.older d (Table.get_mem found) b isFrom
  exact Option.isSome_iff_exists.2 ⟨d', found'⟩

theorem chain (linked : Linked limit db x) (id : ℕ) : ∃ places, Chain (predecessor db) id places :=
  Chain.exists_of_down linked.down id

/-- A chain has no more deliveries than the table has rows, and one if its own is not there. -/
theorem length_le (linked : Linked limit db x) (chain : Chain (predecessor db) id places) :
    places.length ≤ (db .deliveries).rows.length + 1 := by
  have closed : ∀ a b, a ∈ id :: (db .deliveries).rows.map Delivery.id → predecessor db a = some b →
      b ∈ id :: (db .deliveries).rows.map Delivery.id := by
    intro a b _ onward
    obtain ⟨d, found⟩ := Option.isSome_iff_exists.1 (linked.there a b onward)
    rw [← id_of_get found]
    exact List.mem_cons_of_mem _ (List.mem_map_of_mem (Table.get_mem found))
  simpa using chain.length_le linked.down List.mem_cons_self closed

/-- The chain of a delivery that is there stays as it is. -/
theorem chain_later (linked : Linked limit db x)
    (keeps : Table.Keeps linkOf (db .deliveries) (db' .deliveries))
    (there : (deliveryOf db id).isSome = true) (chain : Chain (predecessor db) id places) :
    Chain (predecessor db') id places := by
  refine chain.congr fun a member => ?_
  obtain ⟨d, found⟩ :=
    Option.isSome_iff_exists.1 (chain.all there (fun a b _ => linked.there a b) a member)
  obtain ⟨d', found', same⟩ := keeps _ d found
  simp only [linkOf, Prod.mk.injEq] at same
  rw [predecessor_of_get found, predecessor_of_get found', same.2.2]

/-- Deliveries are added that fit in, and the others stay as they are. -/
theorem adds (linked : Linked limit db x)
    (adds : Table.Adds linkOf (Fits limit db x) (db .deliveries) (db' .deliveries)) :
    Linked limit db' x := by
  have origin : ∀ d ∈ (db' .deliveries).rows,
      (∃ old ∈ (db .deliveries).rows, linkOf old = linkOf d) ∨ Fits limit db x (linkOf d) := by
    intro d member
    refine (adds.origin _ d (Table.get_of_mem member)).imp_left ?_
    rintro ⟨old, found, same⟩
    exact ⟨old, Table.get_mem found, same⟩
  have later : ∀ {r orderId}, (∃ d, deliveryOf db r = some d ∧ d.orderId = orderId) →
      ∃ d, deliveryOf db' r = some d ∧ d.orderId = orderId := by
    rintro r orderId ⟨d, found, ofOrder⟩
    obtain ⟨d', found', same⟩ := adds.keeps _ d found
    simp only [linkOf, Prod.mk.injEq] at same
    exact ⟨d', found', same.2.1.trans ofOrder⟩
  refine ⟨fun d member => ?_, fun d member r isFrom => ?_, fun positive d member places chain => ?_⟩
  · rcases origin d member with ⟨old, among, same⟩ | fits
    · simp only [linkOf, Prod.mk.injEq] at same
      rw [← same.1]
      exact linked.fresh old among
    · exact fits.drawn
  · rcases origin d member with ⟨old, among, same⟩ | fits
    · simp only [linkOf, Prod.mk.injEq] at same
      rw [← same.1, ← same.2.1]
      obtain ⟨less, found⟩ := linked.older old among r (same.2.2.trans isFrom)
      exact ⟨less, later found⟩
    · exact ⟨fits.older r isFrom, later (fits.follows r isFrom).ofOrder⟩
  · rcases origin d member with ⟨old, among, same⟩ | fits
    · -- The chain is the one from before.
      simp only [linkOf, Prod.mk.injEq] at same
      obtain ⟨before, isBefore⟩ := linked.chain old.id
      have there : (deliveryOf db old.id).isSome = true :=
        Option.isSome_iff_exists.2 ⟨old, Table.get_of_mem among⟩
      have still := linked.chain_later adds.keeps there isBefore
      rw [same.1] at still
      rw [still.unique chain]
      exact linked.short positive old among before isBefore
    · have found : deliveryOf db' d.id = some d := Table.get_of_mem member
      cases isFrom : d.reassignedFrom with
      | none =>
        rw [chain.eq_singleton ((predecessor_of_get found).trans isFrom)]
        exact positive
      | some r =>
        obtain ⟨rest, rfl, isRest⟩ := chain.tail ((predecessor_of_get found).trans isFrom)
        obtain ⟨⟨old, isOld, _⟩, before, isBefore, less⟩ := fits.follows r isFrom
        have still :=
          linked.chain_later adds.keeps (Option.isSome_iff_exists.2 ⟨old, isOld⟩) isBefore
        rw [still.unique isRest, List.length_cons]
        exact less

/-- The sequences go on. -/
theorem later (linked : Linked limit db x)
    (seq : x.seq .deliveries ≤ x'.seq .deliveries) : Linked limit db x' :=
  ⟨fun d member => (linked.fresh d member).trans_le seq, linked.older, linked.short⟩

end Linked

theorem MayFollow.later {orderId r : ℕ} (follows : MayFollow limit db orderId r)
    (linked : Linked limit db x) (keeps : Table.Keeps linkOf (db .deliveries) (db' .deliveries)) :
    MayFollow limit db' orderId r := by
  obtain ⟨⟨d, found, ofOrder⟩, places, chain, less⟩ := follows
  obtain ⟨d', found', same⟩ := keeps _ d found
  simp only [linkOf, Prod.mk.injEq] at same
  exact ⟨⟨d', found', same.2.1.trans ofOrder⟩, places,
    linked.chain_later keeps (Option.isSome_iff_exists.2 ⟨d, found⟩) chain, less⟩

end

theorem Moves.refl (w : World RowOf Shared Unit) : Moves w w := ⟨.refl _ _, le_rfl, .refl _⟩

theorem Moves.trans {w w' w'' : World RowOf Shared Unit} (first : Moves w w')
    (second : Moves w' w'') : Moves w w'' :=
  ⟨first.keeps.trans second.keeps, first.seq.trans second.seq, first.grows.trans second.grows⟩

section

variable {limit : ℕ} {db db' : Database} {x : Shared}

theorem kept_of_adds (linked : Linked limit db x)
    (adds : Table.Adds linkOf (Fits limit db x) (db .deliveries) (db' .deliveries))
    (grows : db.Grows db') : Linked limit db' x ∧ Moves ⟨db, x, ()⟩ ⟨db', x, ()⟩ :=
  ⟨linked.adds adds, adds.keeps, le_rfl, grows⟩

theorem kept_of_same (linked : Linked limit db x)
    (same : Table.Same linkOf (db .deliveries) (db' .deliveries)) (grows : db.Grows db') :
    Linked limit db' x ∧ Moves ⟨db, x, ()⟩ ⟨db', x, ()⟩ :=
  kept_of_adds linked (same.adds _) grows

/-- Writes to other tables. -/
theorem kept_of_aside (linked : Linked limit db x) (aside : db' .deliveries = db .deliveries)
    (grows : db.Grows db') : Linked limit db' x ∧ Moves ⟨db, x, ()⟩ ⟨db', x, ()⟩ :=
  kept_of_same linked (by rw [aside]; exact .refl _ _) grows

theorem kept_of_write {w : SqlWrite} (t : TableName) (linked : Linked limit db x)
    (inTable : w.table = t) (aside : t ≠ .deliveries) :
    Linked limit (db.apply w) x ∧ Moves ⟨db, x, ()⟩ ⟨db.apply w, x, ()⟩ :=
  kept_of_aside linked (Db.apply_other db (inTable ▸ aside)) (Db.grows_apply db w)

end

/-! ## The calls -/

def protocol (limit : ℕ) : Protocol (K := RowKey) RowOf Shared Err Operation Reply Unit where
  inv s := Linked limit s.db s.side
  guar _ _ w w' := Moves w w'
  rely _ _ w w' := Moves w w'
  post _ _ _ _ := True
  allow _ _ _ := True
  faulty _ := True
  admits _ := True
  apart _ _ _ := True

section Calls

variable {limit : ℕ}

theorem lawful (limit : ℕ) : (protocol limit).Lawful where
  guar_refl _ _ w := .refl w
  rely_refl _ _ w := .refl w
  rely_trans first second := first.trans second
  rely_of_guar _ _ _ _ guar := guar
  post_stable _ _ _ _ := trivial
  inv_spawn holds _ _ := holds
  inv_crash _ _ holds := ⟨holds, trivial⟩

theorem free (limit i : ℕ) (op : Operation) : (protocol limit).Free i op Later := by
  intro s x later holds
  have moves : Moves s.toWorld ⟨s.db, x, s.ghost⟩ := ⟨.refl _ _, later.seq _, .refl _⟩
  exact ⟨holds.later (later.seq _), moves, moves⟩

theorem persists (limit i : ℕ) (op : Operation) : Persists (protocol limit) i op :=
  fun _ _ t k rely there => rely.grows.rows t k there

variable {i : ℕ} {op : Operation} {s : Sit RowOf Shared Operation Unit} {seen : List (Sigma RowOf)}

abbrev ends (limit : ℕ) (s : Sit RowOf Shared Operation Unit) : Prop := Linked limit s.db s.side

/-- A commit that keeps the invariant. -/
theorem after_kept {db' : Database} {Φ : Sit RowOf Shared Operation Unit → Prop}
    (kept : Linked limit db' s.side ∧ Moves ⟨s.db, s.side, ()⟩ ⟨db', s.side, ()⟩)
    (next : ∀ s', Moves s.toWorld s'.toWorld → Linked limit s'.db s'.side →
      s'.live i = some op → Φ s') : (protocol limit).After i op s ⟨none, []⟩ db' s.side Φ :=
  ⟨(), kept.1, kept.2, fun s' env => next s' (kept.2.trans env.drift.1) env.inv env.self⟩

/-! ### The count -/

/-- The loop once it has read what the current delivery replaces. -/
def goesOn (bound count : ℕ) : Option ℕ → Service ℕ
  | none => pure count
  | some previous => reassignmentChainLoop .pool bound previous (count + 1)

theorem wp_reassignmentChainLoop {bound id count n : ℕ} {places : List ℕ} {l : Local RowOf RowKey}
    {Q : Except Err ℕ → Local RowOf RowKey → Sit RowOf Shared Operation Unit → Prop}
    (holds : Linked limit s.db s.side) (there : (deliveryOf s.db id).isSome = true)
    (chain : Chain (predecessor s.db) id places) (fits : places.length ≤ bound)
    (counted : count + places.length = n + 1)
    (next : ∀ s', (protocol limit).Env i op l s s' → Q (.ok n) l s')
    (fails : ∀ s', (protocol limit).Env i op l s s' → Q (.error .infrastructure) l s') :
    (protocol limit).wp i op (reassignmentChainLoop .pool bound id count) Q l s := by
  induction bound generalizing id count places s with
  | zero =>
    have positive := chain.length_pos
    omega
  | succ bound inductionHypothesis =>
    refine wp_do (wp_select (lawful limit) (fun isTrx => by cases isTrx) holds (fun s₁ env₁ => ?_)
      fun _ s₁ env₁ => fails s₁ env₁)
    show (protocol limit).wp i op (goesOn bound count (predecessor s.db id)) Q l s₁
    cases onward : predecessor s.db id with
    | none =>
      rw [chain.eq_singleton onward, List.length_singleton] at counted
      obtain rfl : count = n := by omega
      exact next s₁ env₁
    | some previous =>
      obtain ⟨rest, rfl, isRest⟩ := chain.tail onward
      rw [List.length_cons] at fits counted
      have there' := holds.there id previous onward
      have isRest₁ := holds.chain_later env₁.drift.1.keeps there' isRest
      refine inductionHypothesis env₁.inv (env₁.drift.1.grows.rows _ _ there')
        isRest₁ (by omega) (by omega) ?_ ?_
      · exact fun s' env => next s' (env₁.trans (lawful limit) env)
      · exact fun s' env => fails s' (env₁.trans (lawful limit) env)

/-- Whatever the others do in between, the count is the length of the chain. -/
theorem wp_countReassignmentChain {id : ℕ} {places : List ℕ} {l : Local RowOf RowKey}
    {Q : Except Err ℕ → Local RowOf RowKey → Sit RowOf Shared Operation Unit → Prop}
    (holds : Linked limit s.db s.side) (there : (deliveryOf s.db id).isSome = true)
    (chain : Chain (predecessor s.db) id places)
    (next : ∀ s', (protocol limit).Env i op l s s' → Q (.ok places.length) l s')
    (fails : ∀ s', (protocol limit).Env i op l s s' → Q (.error .infrastructure) l s') :
    (protocol limit).wp i op (countReassignmentChain .pool id) Q l s := by
  refine wp_do (wp_select (lawful limit) (fun isTrx => by cases isTrx) holds (fun s₁ env₁ => ?_)
    fun _ s₁ env₁ => fails s₁ env₁)
  have chain₁ := holds.chain_later env₁.drift.1.keeps there chain
  refine wp_reassignmentChainLoop env₁.inv (env₁.drift.1.grows.rows _ _ there) chain₁
    (holds.length_le chain) (Nat.add_comm 1 _)
    (fun s' env => next s' (env₁.trans (lawful limit) env)) fun s' env =>
      fails s' (env₁.trans (lawful limit) env)

/-! ### Assignments -/

/-- The sequence does not give the id again. -/
theorem wp_draw {l : Local RowOf RowKey}
    {Q : Except Err ℕ → Local RowOf RowKey → Sit RowOf Shared Operation Unit → Prop}
    (holds : Linked limit s.db s.side)
    (next : ∀ id s', (protocol limit).Env i op l s s' → s.side.seq .deliveries ≤ id →
      id < s'.side.seq .deliveries → Q (.ok id) l s') :
    (protocol limit).wp i op (nextval .deliveries) Q l s := by
  have later := later_nextval .deliveries s.side
  obtain ⟨inv, moves, _⟩ := free limit i op s _ later holds
  refine ⟨⟨(), inv, moves, fun s' env => ?_⟩, fun impossible => by cases impossible⟩
  refine next _ s' ⟨⟨moves.trans env.drift.1, env.drift.2⟩, env.inv, env.self⟩ le_rfl ?_
  have onward := env.drift.1.seq
  simp only [Function.update_self] at onward
  show s.side.seq .deliveries < s'.side.seq .deliveries
  omega

theorem wp_createAssignment {order : AssignmentOrderContext} {branch : Point} {agentId : ℕ}
    {distanceMeters : Option ℚ} {reassignedFrom : Option ℕ}
    (follows : ∀ r, reassignedFrom = some r → MayFollow limit s.db order.id r)
    (holds : Linked limit s.db s.side) :
    (protocol limit).wp i op (createAssignment order branch agentId distanceMeters reassignedFrom)
      (fun _ _ s' => ends limit s') ⟨none, seen⟩ s := by
  refine wp_do (wp_transaction (fun s₁ env₁ => ?_) fun _ s' env => env.inv)
  refine wp_do (wp_do (wp_draw env₁.inv fun id s₂ env₂ least drawn => ?_))
  refine wp_insert_trx (lawful limit) env₂.inv (fun _ _ s₃ env₃ => wp_do ?_)
    fun _ s₃ env₃ s₄ env₄ => env₄.inv
  have assigns : (setDeliveryAgent .trx order.id agentId).Quiet
      (within (fun w => w.table = .orders) fun _ => True) :=
    quiet_nowIso.bind fun _ => quiet_nowIso.bind fun _ =>
      Prog.Quiet.exec (.updateByKey rfl fun _ => trivial)
  refine wp_quiet (lawful limit) (free limit i op) assigns env₃.inv env₃.self
    fun result ws rows s₄ onOrders _ env₄ => ?_
  cases result with
  | error err => exact fun s₅ env₅ => env₅.inv
  | ok assigned =>
    refine ⟨fun _ => ?_, fun _ s₅ _ s₆ env₆ => env₆.inv⟩
    -- What was known at the start still holds at the commit.
    have since₂ : Moves s₂.toWorld s₄.toWorld := env₃.drift.1.trans env₄.drift.1
    have since : Moves s.toWorld s₄.toWorld := env₁.drift.1.trans (env₂.drift.1.trans since₂)
    have fits : ∀ now, Fits limit s₄.db s₄.side
        (linkOf (assignedDelivery order branch agentId distanceMeters reassignedFrom id now)) := by
      refine fun now => ⟨drawn.trans_le since₂.seq, fun r isFrom => ?_,
        fun r isFrom => (follows r isFrom).later holds since.keeps⟩
      obtain ⟨d, found, _⟩ := (follows r isFrom).ofOrder
      have known := holds.fresh d (Table.get_mem found)
      rw [id_of_get found] at known
      exact known.trans_le (env₁.drift.1.seq.trans least)
    refine After.released
      (after_kept (kept_of_adds env₄.inv ?_ (Db.grows_applyAll _ _)) fun s₅ _ inv₅ self₅ => ?_) _
    · have inserted : ∀ (d : Delivery),
          s₄.db.applyAll ([] ++ [.insert TableName.deliveries d] ++ ws) .deliveries =
          (s₄.db .deliveries).insert d := by
        intro d
        rw [Db.applyAll_append_other fun w member => by rw [onOrders w member]; decide]
        exact Db.applyAll_concat_insert s₄.db [] .deliveries d
      show Table.Adds linkOf _ _
          (s₄.db.applyAll ([] ++ [.insert TableName.deliveries _] ++ ws) .deliveries)
      rw [inserted]
      exact .insert _ (fits _)
    · exact wp_do (wp_orElse (lawful limit) (free limit i op) (quiet_redis _) inv₅ self₅
        fun _ s₆ env₆ => env₆.inv)

theorem wp_tryAssign {env : Config} {order : AssignmentOrderContext} {branch : Point}
    {reassignedFrom : Option ℕ}
    (follows : ∀ r, reassignedFrom = some r → MayFollow limit s.db order.id r)
    (holds : Linked limit s.db s.side) (self : s.live i = some op) :
    (protocol limit).wp i op (tryAssign env order branch reassignedFrom)
      (fun _ _ s' => ends limit s') ⟨none, seen⟩ s := by
  refine wp_do (wp_idle (lawful limit) (free limit i op) (quiet_findCandidates .pool env branch)
    holds self fun result s₁ env₁ => ?_)
  cases result with
  | error err => exact env₁.inv
  | ok candidates =>
    cases candidates with
    | nil => exact env₁.inv
    | cons best rest =>
      have follows₁ := fun r isFrom => (follows r isFrom).later holds env₁.drift.1.keeps
      exact wp_map (wp_createAssignment follows₁ env₁.inv)

theorem wp_assignManual {order : AssignmentOrderContext} {branch : Point} {agentId : ℕ}
    (holds : Linked limit s.db s.side) :
    (protocol limit).wp i op (assignManual order branch agentId none) (fun _ _ s' => ends limit s')
      ⟨none, seen⟩ s := by
  refine wp_do (wp_do (wp_selectFirst (lawful limit) (fun isTrx => by cases isTrx) holds ?_ ?_
    fun _ s₁ env₁ => env₁.inv))
  · exact fun _ active _ s₁ env₁ =>
      wp_do (wp_throwIf (fun idle => absurd rfl idle) fun _ => env₁.inv)
  · intro _ s₁ env₁
    exact wp_do (wp_throwIf
      (fun _ => wp_createAssignment (fun r isFrom => by cases isFrom) env₁.inv) fun _ => env₁.inv)

theorem wp_assignOrder {env : Config} {order : Order} {branch : CoreBranch} {agentId : Option ℕ}
    (holds : Linked limit s.db s.side) (self : s.live i = some op) :
    (protocol limit).wp i op (assignOrder env order branch agentId) (fun _ _ s' => ends limit s')
      ⟨none, seen⟩ s := by
  unfold assignOrder
  split
  next agentId _ => exact wp_map (wp_assignManual holds)
  next => exact wp_tryAssign (fun r isFrom => by cases isFrom) holds self

theorem wp_assignCall {env : Config} {core : Core} {orderPublicId : ℕ} {agentId : Option ℕ}
    (holds : Linked limit s.db s.side) :
    (protocol limit).wp i op (assign env core orderPublicId agentId)
      (fun _ _ s' => ends limit s') .start s := by
  refine wp_do (wp_selectFirst (lawful limit) (fun isTrx => by cases isTrx) holds ?_ ?_
    fun _ s' env => env.inv)
  swap
  · exact fun _ s' env => env.inv
  intro _ order _ s₁ env₁
  refine wp_do (wp_throwIf (fun _ => wp_do ?_) fun _ => env₁.inv)
  refine wp_selectFirst (lawful limit) (fun isTrx => by cases isTrx) env₁.inv ?_
    (fun _ s₂ env₂ => ?_) fun _ s₂ env₂ => env₂.inv
  · exact fun _ active _ s₂ env₂ =>
      wp_do (wp_throwIf (fun idle => absurd rfl idle) fun _ => env₂.inv)
  · refine wp_do (wp_throwIf (fun _ => wp_do (wp_ofExcept ?_)) fun _ => env₂.inv)
    cases core.getBranch order.branchId with
    | error err => exact env₂.inv
    | ok branch =>
      refine wp_do (wp_mono ?_ (wp_assignOrder env₂.inv env₂.self))
      intro result l s₃ linked
      cases result with
      | error err => exact linked
      | ok delivery => exact wp_orNoEligibleAgents (Q := ends limit) linked

theorem wp_tryAutoAssignCall {env : Config} {core : Core} {orderId : ℕ}
    (holds : Linked limit s.db s.side) :
    (protocol limit).wp i op (tryAutoAssign env core orderId)
      (fun _ _ s' => ends limit s') .start s := by
  refine wp_do (wp_selectByKey (lawful limit) (fun isTrx => by cases isTrx) holds ?_ ?_
    fun _ s' env => env.inv)
  swap
  · exact fun _ s' env => env.inv
  intro _ order _ s₁ env₁
  show (protocol limit).wp i op (if order.status ≠ .ready then _ else _) _ _ s₁
  split
  next => exact env₁.inv
  next =>
    refine wp_do (wp_selectFirst (lawful limit) (fun isTrx => by cases isTrx) env₁.inv ?_
      (fun _ s₂ env₂ => ?_) fun _ s₂ env₂ => env₂.inv)
    · exact fun _ active _ s₂ env₂ => env₂.inv
    · refine wp_do (wp_ofExcept ?_)
      cases core.getBranch order.branchId with
      | error err => exact env₂.inv
      | ok branch =>
        exact wp_returning (wp_tryAssign (fun r isFrom => by cases isFrom) env₂.inv env₂.self)

/-! ### Reassignments -/

/-- The status of a delivery is written. -/
theorem same_withStatus (deliveries : Table Delivery) (k : RowKey) (status : DeliveryStatus)
    (stamp : Option ℕ) :
    Table.Same linkOf deliveries (deliveries.modify k (Delivery.withStatus status stamp)) := by
  have kept : ∀ row, linkOf (Delivery.withStatus status stamp row) = linkOf row := by
    intro row
    cases status <;> rfl
  exact .modify kept deliveries k

theorem after_status {id : ℕ} {status : DeliveryStatus} {stamp : Option ℕ}
    {Φ : Sit RowOf Shared Operation Unit → Prop} (holds : Linked limit s.db s.side)
    (next : ∀ s', Moves s.toWorld s'.toWorld → Linked limit s'.db s'.side →
      s'.live i = some op → Φ s') :
    (protocol limit).After i op s ⟨none, []⟩
      (s.db.apply (.update TableName.deliveries (RowKey.id id) (Delivery.withStatus status stamp)))
        s.side Φ := by
  refine after_kept (kept_of_same holds ?_ (Db.grows_apply _ _)) next
  rw [Db.apply_update_self]
  exact same_withStatus _ _ status stamp

theorem wp_reassignCall {env : Config} {core : Core} {orderPublicId : ℕ}
    (holds : Linked env.maxReassignmentAttempts s.db s.side) :
    (protocol env.maxReassignmentAttempts).wp i op (reassign env core orderPublicId)
      (fun _ _ s' => ends env.maxReassignmentAttempts s') ⟨none, seen⟩ s := by
  have lawful := lawful env.maxReassignmentAttempts
  refine wp_do (wp_selectFirst lawful (fun isTrx => by cases isTrx) holds ?_ ?_
    fun _ s' env => env.inv)
  swap
  · exact fun _ s' env => env.inv
  intro _ order _ s₁ env₁
  refine wp_do (wp_selectFirst lawful (fun isTrx => by cases isTrx) env₁.inv ?_ ?_
    fun _ s₂ env₂ => env₂.inv)
  swap
  · exact fun _ s₂ env₂ => env₂.inv
  intro _ active isActive s₂ env₂
  obtain ⟨among, isActive⟩ := List.mem_filter.1 isActive
  simp only [Bool.and_eq_true, decide_eq_true_eq] at isActive
  have found : deliveryOf s₁.db active.id = some active := Table.get_of_mem among
  obtain ⟨places, chain⟩ := env₁.inv.chain active.id
  have there₂ := env₂.drift.1.grows.rows _ _ (Option.isSome_iff_exists.2 ⟨active, found⟩)
  have chain₂ :=
    env₁.inv.chain_later env₂.drift.1.keeps (Option.isSome_iff_exists.2 ⟨active, found⟩) chain
  refine wp_do (wp_countReassignmentChain env₂.inv there₂ chain₂ (fun s₃ env₃ => ?_)
    fun s₃ env₃ => env₃.inv)
  refine wp_do (wp_throwIf (fun few => wp_do ?_) fun _ => env₃.inv)
  -- The chain behind the active delivery is short enough for one more.
  have follows : MayFollow env.maxReassignmentAttempts s₁.db order.id active.id :=
    ⟨⟨active, found, isActive.1⟩, places, chain, Nat.lt_of_not_ge few⟩
  have since₃ : Moves s₁.toWorld s₃.toWorld := env₂.drift.1.trans env₃.drift.1
  refine wp_updateDeliveryStatus lawful (free _ i op) env₃.inv env₃.self (fun s₄ env₄ => ?_)
    (fun row stamp s₄ seen' env₄ _ _ _ => ?_)
    fun _ s₄ env₄ => env₄.inv
  · exact env₄.drift.1.grows.rows _ _ (env₃.drift.1.grows.rows _ _ there₂)
  · refine After.released (after_status env₄.inv fun s₅ moves₅ inv₅ self₅ => wp_do ?_) seen'
    refine wp_orElse lawful (free _ i op) (quiet_redis _) inv₅ self₅ fun _ s₆ env₆ =>
      wp_do (wp_ofExcept ?_)
    have since : Moves s₁.toWorld s₆.toWorld :=
      since₃.trans (env₄.drift.1.trans (moves₅.trans env₆.drift.1))
    -- Deliveries keep their predecessors, so this is still true when the successor is stored.
    have follows₆ := follows.later env₁.inv since.keeps
    cases core.getBranch order.branchId with
    | error err => exact env₆.inv
    | ok branch =>
      refine wp_do (wp_mono ?_
        (wp_tryAssign (fun r isFrom => Option.some.inj isFrom ▸ follows₆) env₆.inv env₆.self))
      intro result l s₇ linked
      cases result with
      | error err => exact linked
      | ok delivery => exact wp_orNoEligibleAgents (Q := ends env.maxReassignmentAttempts) linked

theorem wp_tryReassignAfterRejection {env : Config} {core : Core} {rejected d : Delivery}
    (found : deliveryOf s.db rejected.id = some d) (ofOrder : d.orderId = rejected.orderId)
    (holds : Linked env.maxReassignmentAttempts s.db s.side) :
    (protocol env.maxReassignmentAttempts).wp i op (tryReassignAfterRejection env core rejected)
      (fun _ _ s' => ends env.maxReassignmentAttempts s') ⟨none, seen⟩ s := by
  have lawful := lawful env.maxReassignmentAttempts
  obtain ⟨places, chain⟩ := holds.chain rejected.id
  refine wp_do (wp_countReassignmentChain holds (Option.isSome_iff_exists.2 ⟨d, found⟩) chain
    (fun s₁ env₁ => ?_) fun s₁ env₁ => env₁.inv)
  show (protocol _).wp i op (if places.length ≥ env.maxReassignmentAttempts then _ else _) _ _ s₁
  split
  next => exact env₁.inv
  next few =>
    have follows : MayFollow env.maxReassignmentAttempts s.db rejected.orderId rejected.id :=
      ⟨⟨d, found, ofOrder⟩, places, chain, Nat.lt_of_not_ge few⟩
    refine wp_do (wp_selectByKey lawful (fun isTrx => by cases isTrx) env₁.inv
      (fun _ order read s₂ env₂ => ?_)
      (fun _ s₂ env₂ => env₂.inv) fun _ s₂ env₂ => env₂.inv)
    have isOrder : order.id = rejected.orderId := RowKey.id.inj (Table.get_key read)
    have since : Moves s.toWorld s₂.toWorld := env₁.drift.1.trans env₂.drift.1
    have follows₂ := follows.later holds since.keeps
    rw [← isOrder] at follows₂
    refine wp_do (wp_ofExcept ?_)
    cases core.getBranch order.branchId with
    | error err => exact env₂.inv
    | ok branch =>
      exact wp_returning
        (wp_tryAssign (fun r isFrom => Option.some.inj isFrom ▸ follows₂) env₂.inv env₂.self)

theorem wp_afterStatus {env : Config} {core : Core} {delivery d : Delivery}
    {target : DeliveryStatus} (found : deliveryOf s.db delivery.id = some d)
    (ofOrder : d.orderId = delivery.orderId)
    (holds : Linked env.maxReassignmentAttempts s.db s.side) (self : s.live i = some op) :
    (protocol env.maxReassignmentAttempts).wp i op (afterStatus env core delivery target)
      (fun _ _ s' => ends env.maxReassignmentAttempts s') ⟨none, seen⟩ s := by
  have lawful := lawful env.maxReassignmentAttempts
  unfold afterStatus
  split
  next =>
    refine wp_do (wp_applySystemStatusChange lawful (free _ i op) holds
      (fun row updatedAt stamp s₁ seen' env₁ _ _ _ => ?_)
      fun _ s₁ env₁ => env₁.inv)
    exact After.released
      (after_kept (kept_of_write .orders env₁.inv rfl (by decide)) fun _ _ linked _ => linked) seen'
  next =>
    split
    next =>
      refine wp_do (wp_orElse lawful (free _ i op) (quiet_redis _) holds self fun _ s₁ env₁ => ?_)
      obtain ⟨d', found', same⟩ := env₁.drift.1.keeps _ d found
      simp only [linkOf, Prod.mk.injEq] at same
      exact wp_tryReassignAfterRejection found' (same.2.1.trans ofOrder) env₁.inv
    next => exact holds

theorem wp_updateStatusCall {env : Config} {core : Core} {deliveryId actorUserId : ℕ}
    {target : DeliveryStatus} (holds : Linked env.maxReassignmentAttempts s.db s.side) :
    (protocol env.maxReassignmentAttempts).wp i op
      (updateStatus env core deliveryId actorUserId target)
      (fun _ _ s' => ends env.maxReassignmentAttempts s') .start s := by
  refine wp_agentRequest (lawful _) (free _ i op) (persists _ i op) holds
    (fun _ env => env.inv) ?_ ?_
  · intro delivery order branch row s₀ s₁ db' _ _ _ _ _ until₁ _ settling
    obtain ⟨stamp, deliveries⟩ := settling.settled.deliveries
    refine after_kept (kept_of_same until₁.inv ?_ settling.settled.grows) fun _ _ linked _ => linked
    have kept : ∀ row, linkOf (Delivery.withEarning (agentEarningOf env branch) row) =
        linkOf row := fun _ => rfl
    rw [deliveries]
    exact (same_withStatus _ _ _ _).trans (.modify kept _ _)
  · intro delivery row stamp s₁ _ _ read _ _ _ updating
    refine after_status updating.env.inv fun s₂ moves₂ inv₂ self₂ =>
      ⟨fun s₃ seen env₃ => ?_, fun s₃ env₃ => env₃.inv⟩
    have since : Moves s.toWorld s₃.toWorld :=
      updating.env.drift.1.trans (moves₂.trans env₃.drift.1)
    obtain ⟨d, found, same⟩ := since.keeps _ delivery read
    simp only [linkOf, Prod.mk.injEq] at same
    exact wp_afterStatus found same.2.1 env₃.inv env₃.self

/-! ### The others -/

/-- Writes to one other table. -/
theorem tolerates (limit i : ℕ) (op : Operation) {table : TableName} (aside : table ≠ .deliveries) :
    (protocol limit).Tolerates i op (within (fun w => w.table = table) fun _ => True) := by
  intro s ws inTable holds
  have same : s.db.applyAll ws .deliveries = s.db .deliveries :=
    Db.applyAll_other (fun w among isTable => aside ((inTable w among).symm.trans isTable)) s.db
  obtain ⟨linked, moves⟩ := kept_of_aside holds same (Db.grows_applyAll _ _)
  exact ⟨linked, moves, moves⟩

theorem tolerates_cancels (limit i : ℕ) (op : Operation) :
    (protocol limit).Tolerates i op (within Cancels fun _ => True) := by
  intro s ws cancels holds
  obtain ⟨linked, moves⟩ :=
    kept_of_same holds (same_of_cancels (fun _ => rfl) cancels) (Db.grows_applyAll _ _)
  exact ⟨linked, moves, moves⟩

theorem wp_placeOrderCall {core : Core} {customerId : ℕ} {data : CreateOrderRequest}
    (holds : Linked limit s.db s.side) (self : s.live i = some op) :
    (protocol limit).wp i op (OrderService.placeOrder core customerId data)
      (fun _ _ s' => ends limit s') .start s := by
  refine wp_placeOrder (lawful limit) (free limit i op) holds self (fun _ env => env.inv)
    fun branch order s₁ db' placing => ?_
  obtain ⟨_, _, _, _, _, _, _, placed⟩ := placing.placed
  refine after_kept (kept_of_aside placing.until'.inv (placed.others _ (by decide)) placed.grows)
    fun s₂ _ _ _ => ⟨?_, fun _ env => env.inv⟩
  exact fun row updatedAt stamp s₃ env _ _ _ =>
    after_kept (kept_of_write .orders env.inv rfl (by decide)) fun _ _ linked _ => linked

theorem wp_updateOrderStatusCall {core : Core} {publicId : ℕ} {target : OrderStatus}
    {actor : RequestActor} (holds : Linked limit s.db s.side) :
    (protocol limit).wp i op (OrderService.updateStatus core publicId target actor)
      (fun _ _ s' => ends limit s') .start s := by
  refine wp_updateOrderStatus (lawful limit) (free limit i op) holds
    (fun result order listed row s₁ seen' db' _ _ env₁ _ _ _ writing => ?_) fun _ _ _ env => env.inv
  have written := writing.written
  refine After.released (after_kept (kept_of_aside env₁.inv
    (written.others _ (by decide) (by decide)) written.grows) fun s₂ _ inv₂ self₂ => ?_) seen'
  refine wp_harmless (lawful limit) (free limit i op) (tolerates_cancels limit i op)
    (harmless_releaseDelivery order target fun k => ⟨k, rfl⟩) ?_ inv₂ self₂ ?_
  · exact fun w none => absurd none List.not_mem_nil
  · intro result l s₃ inv₃ _ _
    cases result <;> exact inv₃

theorem processes (payload : WebhookPayload) :
    Processes (protocol limit) i op payload (ends limit) s where
  captures order session row s₀ s₁ s₂ db' _ _ paying captured :=
    after_kept (kept_of_aside paying.until₂.inv (captured.others _ (by decide)) captured.grows)
      fun _ _ linked _ => linked
  refuses order session row s₀ s₁ s₂ db' _ paying refused :=
    after_kept (kept_of_aside paying.until₂.inv (refused.others _ (by decide)) refused.grows)
      fun _ _ linked _ => linked
  confirms refund s₁ s₂ db' confirming confirmed :=
    after_kept (kept_of_aside confirming.until₂.inv
      (confirmed.others _ (by decide)) confirmed.grows) fun _ _ linked _ => linked
  stops s' env := env.inv

theorem maySettle {charge refund : Transaction}
    (there : (transactionOf s.db refund.id).isSome = true) :
    MaySettle (protocol limit) i op charge refund (ends limit) s where
  there s' env := env.drift.1.grows.rows _ _ there
  refers reference updatedAt row s' env _ :=
    after_kept (kept_of_write .transactions env.inv rfl (by decide)) fun _ _ linked _ => linked
  fails updatedAt row s' env _ :=
    after_kept (kept_of_write .transactions env.inv rfl (by decide)) fun _ _ linked _ => linked
  succeeds updatedAt row s' env _ := by
    refine after_kept (kept_of_write .transactions env.inv rfl (by decide)) fun _ _ _ _ =>
      ⟨?_, fun s₃ env₃ => env₃.inv⟩
    exact fun _ _ s₃ env₃ _ =>
      after_kept (kept_of_write .transactions env₃.inv rfl (by decide)) fun _ _ linked _ => linked
  stops s' env := env.inv

theorem wp_refundCall {core : Core} {paymentId : ℕ} {amount : Option ℤ} {reason : String}
    (holds : Linked limit s.db s.side) :
    (protocol limit).wp i op (PaymentService.refund core paymentId amount reason)
      (fun _ _ s' => ends limit s') .start s := by
  refine wp_refundRequest (lawful limit) (free limit i op) holds (fun _ env => env.inv)
    fun charge refund s₁ _ refunding => ?_
  obtain ⟨linked, moves⟩ := kept_of_write (w := .insert TableName.transactions refund) .transactions
    refunding.until'.inv rfl (by decide)
  refine ⟨(), linked, moves, fun s₂ env₂ => maySettle (env₂.drift.1.grows.rows _ _ ?_)⟩
  have found : transactionOf (s₁.db.apply (.insert TableName.transactions refund)) refund.id =
      some refund := by
    rw [transactionOf, Db.apply_insert_self]
    exact Table.get_insert_self refunding.free
  exact Option.isSome_iff_exists.2 ⟨refund, found⟩

theorem wp_recordPayoutCall {restaurantId : ℕ} {amount : ℤ} {currency idempotencyKey : String} :
    (protocol limit).wp i op
      (FinanceService.recordPayout restaurantId amount currency idempotencyKey)
      (fun _ _ s' => ends limit s') .start s := by
  refine wp_recordPayout (lawful limit) (free limit i op)
    (fun result s₁ seen' db' env₁ _ paidOut _ => ?_) fun _ _ s₁ env₁ => env₁.inv
  have aside : db' .deliveries = s₁.db .deliveries ∧ s₁.db.Grows db' := by
    cases paidOut with
    | again opened others grows => exact ⟨others _ (by decide), grows⟩
    | paid locked id now covered posted free transactions others grows =>
      exact ⟨others _ (by decide) (by decide), grows⟩
  exact After.released
    (after_kept (kept_of_aside env₁.inv aside.1 aside.2) fun _ _ linked _ => linked) seen'

theorem wp_presence {β : Type} {prog : Service β} (harmless : prog.Harmless presenceOnly)
    (holds : Linked limit s.db s.side) (self : s.live i = some op) :
    (protocol limit).wp i op prog (fun _ _ s' => ends limit s') .start s :=
  wp_harmless (lawful limit) (free limit i op) (tolerates limit i op (by decide)) harmless
    (fun w none => absurd none List.not_mem_nil)
    holds self fun _ _ _ inv _ _ => inv

end Calls

theorem verified (env : Config) : (protocol env.maxReassignmentAttempts).Verified (code env) := by
  intro i op s s' _ _ _ _ started
  have holds := started.inv
  have lawful := lawful env.maxReassignmentAttempts
  refine wp_mono
    (fun _ _ s'' (linked : ends env.maxReassignmentAttempts s'') => ⟨linked, trivial⟩) ?_
  cases op with
  | placeOrder core customerId data => exact wp_returning (wp_placeOrderCall holds started.self)
  | updateOrderStatus core publicId target actor => exact wp_map (wp_updateOrderStatusCall holds)
  | initPayment core orderPublicId customerId =>
    refine wp_map (wp_init lawful (free _ i _) holds (fun _ env => env.inv)
      fun order session s₁ opening => ?_)
    exact after_kept (kept_of_write .paymentSessions opening.until'.inv rfl (by decide))
      fun _ _ linked _ => linked
  | refund core paymentId amount reason => exact wp_map (wp_refundCall holds)
  | webhook payload signature signatureValid =>
    exact wp_returning (wp_process lawful (free _ i _) (persists _ i _)
      (tolerates _ i _ (by decide)) holds started.self
      (processes payload))
  | assign core orderPublicId agentId => exact wp_returning (wp_assignCall holds)
  | tryAutoAssign core orderId => exact wp_returning (wp_tryAutoAssignCall holds)
  | reassign core orderPublicId => exact wp_returning (wp_reassignCall holds)
  | updateDeliveryStatus core deliveryId actorUserId target =>
    exact wp_map (wp_updateStatusCall holds)
  | online agentId point =>
    exact wp_returning (wp_presence (harmless_online agentId point) holds started.self)
  | offline core agentId =>
    exact wp_returning (wp_offline lawful (free _ i _) (tolerates _ i _ (by decide)) holds
      started.self (fun _ inv _ => inv)
      fun _ _ _ inv _ => wp_reassignCall inv)
  | ping agentId point =>
    exact wp_returning (wp_presence (harmless_ping agentId point) holds started.self)
  | recordPayout restaurantId amount currency idempotencyKey => exact wp_map wp_recordPayoutCall
  | sleep duration => exact wp_returning (wp_presence (harmless_sleep duration) holds started.self)

/-! ## Runs -/

/-- Any calls, with any faults and crashes. -/
abbrev anything (_ : Region) (_ : Event Operation) : Prop := True

theorem admissible {limit : ℕ} (p : Region) (e : Event Operation) (_ : anything p e) :
    (protocol limit).Admissible p e := by
  cases e with
  | spawn op => exact ⟨trivial, fun _ _ _ => ⟨trivial, trivial⟩⟩
  | step i choice =>
    exact ⟨fun _ _ _ _ _ _ _ => trivial,
      fun call found => ⟨fun _ => trivial, fun out acts => trivial⟩⟩
  | crash i => exact fun _ _ => trivial

theorem linked_empty (limit : ℕ) (x : Shared) : Linked limit Database.empty x :=
  ⟨fun _ none => absurd none List.not_mem_nil, fun _ none => absurd none List.not_mem_nil,
    fun _ _ none => absurd none List.not_mem_nil⟩

theorem sound_of_run {env : Config} {x : Shared} {p : Region}
    (reached : Pool.Reach (code env) anything (Pool.quiet Database.empty x) p) :
    (protocol env.maxReassignmentAttempts).Sound p () := by
  obtain ⟨_, sound⟩ :=
    sound_of_reach (lawful _) (verified env) admissible (sound_quiet () (linked_empty _ x)) reached
  exact sound

/-- An event leaves the deliveries that are there with what they refer to. -/
theorem keeps_of_next {env : Config} {p p' : Region} {e : Event Operation}
    (sound : (protocol env.maxReassignmentAttempts).Sound p ())
    (moves : p.next (code env) e = some p') :
    (protocol env.maxReassignmentAttempts).Sound p' () ∧
    Table.Keeps linkOf (p.db .deliveries) (p'.db .deliveries) := by
  obtain ⟨⟨_, sound'⟩, conforms⟩ :=
    sound_next (lawful _) (verified env) sound (admissible p e trivial) moves
  refine ⟨sound', ?_⟩
  cases e with
  | step i choice =>
    obtain ⟨_, _, _, _, _, moved⟩ := conforms
    exact moved.keeps
  | spawn | crash =>
    rw [conforms.1]
    exact .refl _ _

/-! ### A count while the calls go on -/

/-- What is left of a count after `n` statements, if `length` deliveries are to be counted. -/
inductive Counting (db : Database) (id length : ℕ) : ℕ → Service ℕ → Prop where
  | start {places : List ℕ} (there : (deliveryOf db id).isSome = true)
      (chain : Chain (predecessor db) id places) (all : places.length = length) :
      Counting db id length 0 (countReassignmentChain .pool id)
  | going {bound current n : ℕ} {places : List ℕ} (there : (deliveryOf db current).isSome = true)
      (chain : Chain (predecessor db) current places) (fits : places.length ≤ bound)
      (all : n + places.length = length + 1) :
      Counting db id length n (reassignmentChainLoop .pool bound current n)
  | ended : Counting db id length (length + 1) (.done (.ok length))

namespace Counting

variable {limit : ℕ} {db db' : Database} {x x' : Shared} {id length n : ℕ} {prog prog' : Service ℕ}
  {l l' : Local RowOf RowKey}

/-- Whatever the calls do, as much is left as before. -/
theorem later (counting : Counting db id length n prog) (linked : Linked limit db x)
    (keeps : Table.Keeps linkOf (db .deliveries) (db' .deliveries)) :
    Counting db' id length n prog := by
  have still : ∀ {id}, (deliveryOf db id).isSome = true → (deliveryOf db' id).isSome = true := by
    intro id there
    obtain ⟨d, found⟩ := Option.isSome_iff_exists.1 there
    obtain ⟨d', found', _⟩ := keeps _ d found
    exact Option.isSome_iff_exists.2 ⟨d', found'⟩
  cases counting with
  | start there chain all => exact .start (still there) (linked.chain_later keeps there chain) all
  | going there chain fits all =>
    exact .going (still there) (linked.chain_later keeps there chain) fits all
  | ended => exact .ended

/-- One statement of the count. -/
theorem act {k : ℕ} {out : Outcome RowOf Shared Err ℕ} (counting : Counting db id length n prog)
    (linked : Linked limit db x) (acts : prog.next (.pick k) l db x' = some out) :
    Counting db id length (n + 1) out.prog := by
  cases counting with
  | start there chain all =>
    rw [Prog.select_answered acts]
    exact .going there chain (linked.length_le chain) (by omega)
  | ended => cases acts
  | @going bound current _ places there chain fits all =>
    cases bound with
    | zero =>
      have positive := chain.length_pos
      omega
    | succ bound =>
      have isNext : out.prog = goesOn bound n (predecessor db current) := Prog.select_answered acts
      rw [isNext]
      cases onward : predecessor db current with
      | none =>
        rw [chain.eq_singleton onward, List.length_singleton] at all
        obtain rfl : n = length := by omega
        exact .ended
      | some previous =>
        obtain ⟨rest, rfl, isRest⟩ := chain.tail onward
        rw [List.length_cons] at fits all
        exact .going (linked.there current previous onward) isRest (by omega) (by omega)

/-- The count has ended, or its next statement is answered. -/
theorem progress (counting : Counting db id length n prog) (l : Local RowOf RowKey) (x : Shared) :
    (n = length + 1 ∧ prog = .done (.ok length)) ∨
      n ≤ length ∧ ∃ prog' l', prog.next (.pick 0) l db x = some ⟨prog', l', db, x, []⟩ := by
  cases counting with
  | start => exact .inr ⟨Nat.zero_le _, _, _, rfl⟩
  | ended => exact .inl ⟨rfl, rfl⟩
  | @going bound current _ places there chain fits all =>
    have positive := chain.length_pos
    cases bound with
    | zero => omega
    | succ bound => exact .inr ⟨by omega, _, _, rfl⟩

end Counting

/-- A count of the chain of a delivery that begins now: it makes one statement more than the length,
each is answered, and it returns the length. -/
def CountsTo (env : Config) (allowed : Region → Event Operation → Prop) (p : Region)
    (id length : ℕ) : Prop :=
  ∀ n p' prog l, Beside (code env) allowed (countReassignmentChain .pool id) p n p' prog l →
    (n = length + 1 ∧ prog = .done (.ok length)) ∨
      n ≤ length ∧ ∃ prog' l', prog.next (.pick 0) l p'.db p'.side =
        some ⟨prog', l', p'.db, p'.side, []⟩

theorem countsTo_of_sound {env : Config} {p : Region} {id : ℕ} {places : List ℕ}
    (sound : (protocol env.maxReassignmentAttempts).Sound p ())
    (there : (deliveryOf p.db id).isSome = true) (chain : Chain (predecessor p.db) id places) :
    CountsTo env anything p id places.length := by
  intro n p' prog l beside
  have invariant : (protocol env.maxReassignmentAttempts).Sound p' () ∧
      Counting p'.db id places.length n prog := by
    induction beside with
    | start => exact ⟨sound, .start there chain rfl⟩
    | others _ _ moves inductionHypothesis =>
      obtain ⟨before, counting⟩ := inductionHypothesis
      obtain ⟨after, keeps⟩ := keeps_of_next before moves
      exact ⟨after, counting.later before.inv keeps⟩
    | own _ acts inductionHypothesis =>
      obtain ⟨before, counting⟩ := inductionHypothesis
      exact ⟨before, counting.act before.inv acts⟩
  exact invariant.2.progress l p'.side

/-! ### Every state -/

/-- The chain of a delivery goes back over older ones of its order, its count ends with its length,
and it is not over the limit. -/
structure Bounded (env : Config) (allowed : Region → Event Operation → Prop) (p : Region)
    (d : Delivery) : Prop where
  older : ∀ r, d.reassignedFrom = some r →
    ∃ d', deliveryOf p.db r = some d' ∧ d'.orderId = d.orderId ∧ d'.id < d.id
  counted : ∃ places, Chain (predecessor p.db) d.id places ∧ (places.Pairwise fun a b => b < a) ∧
    CountsTo env allowed p d.id places.length ∧
    (0 < env.maxReassignmentAttempts → places.length ≤ env.maxReassignmentAttempts)

def AlwaysBounded (env : Config) (allowed : Region → Event Operation → Prop)
    (start : Region) : Prop :=
  ∀ p, Pool.Reach (code env) allowed start p →
  ∀ d ∈ (p.db .deliveries).rows, Bounded env allowed p d

theorem reassignment_chains_are_bounded (env : Config) (x : Shared) :
    AlwaysBounded env anything (Pool.quiet Database.empty x) := by
  intro p reached d member
  have sound := sound_of_run reached
  have linked : Linked env.maxReassignmentAttempts p.db p.side := sound.inv
  obtain ⟨places, chain⟩ := linked.chain d.id
  have there : (deliveryOf p.db d.id).isSome = true :=
    Option.isSome_iff_exists.2 ⟨d, Table.get_of_mem member⟩
  refine ⟨fun r isFrom => ?_, places, chain, chain.pairwise linked.down,
    countsTo_of_sound sound there chain, fun positive => ?_⟩
  · obtain ⟨less, d', found, ofOrder⟩ := linked.older d member r isFrom
    refine ⟨d', found, ofOrder, ?_⟩
    rwa [id_of_get found]
  · exact linked.short positive d member places chain

end SwiftBite.Verified.Chains
