import SwiftBite.Verified.AloneCalls

/-! # Status requests and presence, one call at a time -/

set_option autoImplicit false

namespace SwiftBite.Verified

open Store Prog Statement AssignmentService DeliveryService OrderService

section

variable {m : Database → Database → Prop} {seen : List (Sigma RowOf)} {db : Database} {x : Shared}
  {env : Config}
  {core : Core} {Q : Database → Shared → Prop}

/-! ## The order's status -/

/-- The deliveries under way for an order are cancelled. -/
structure Released (orderId : ℕ) (db db' : Database) : Prop where
  deliveries : ∀ k, (db' .deliveries).get k =
    ((db .deliveries).get k).map fun d : Delivery =>
      if d.orderId = orderId ∧ d.status.active = true then d.cancel else d
  others : ∀ t, t ≠ .deliveries → db' t = db t

theorem applyAll_updates {t : TableName} (f : RowOf t → RowOf t) (rows : List (RowOf t))
    (db : Database) :
    (db.applyAll (rows.map fun row => (.update t (key row) f : SqlWrite))) t =
      (rows.map key).foldl (fun table k => table.modify k f) (db t) := by
  induction rows generalizing db with
  | nil => rfl
  | cons row rows inductionHypothesis =>
    rw [List.map_cons, Db.applyAll_cons, inductionHypothesis, Db.apply_update_self]
    rfl

/-- The rows that are found are the ones that match, and each still does. -/
theorem matching_rows {t : TableName} (condition : RowOf t → Bool) (table : Table (RowOf t)) :
    ((table.rows.filter condition).map key).filterMap (fun k => (table.get k).filter condition) =
      table.rows.filter condition := by
  have each : ∀ rows : List (RowOf t), (∀ row ∈ rows, row ∈ table.rows ∧ condition row = true) →
      (rows.map key).filterMap (fun k => (table.get k).filter condition) = rows := by
    intro rows matching
    induction rows with
    | nil => rfl
    | cons row rows inductionHypothesis =>
      obtain ⟨member, isMatch⟩ := matching row List.mem_cons_self
      have found : (table.get (key row)).filter condition = some row := by
        rw [Table.get_of_mem member]
        simp [Option.filter, isMatch]
      have rest := inductionHypothesis fun other among =>
          matching other (List.mem_cons_of_mem _ among)
      simp [found, rest]
  exact each _ fun row member => List.mem_filter.1 member

theorem released_of_cancels {orderId : ℕ} {rows : List Delivery}
    (isRows : rows = (db .deliveries).rows.filter fun row : Delivery =>
      row.orderId = orderId && row.status.active) :
    Released orderId db (db.applyAll (rows.map fun row : Delivery =>
      (.update TableName.deliveries (RowKey.id row.id) Delivery.cancel : SqlWrite))) := by
  refine ⟨fun k => ?_, fun t other => Db.applyAll_other (fun w member => ?_) db⟩
  swap
  · obtain ⟨row, _, rfl⟩ := List.mem_map.1 member
    exact Ne.symm other
  have distinct : (rows.map fun row : Delivery => RowKey.id row.id).Nodup := by
    rw [isRows]
    refine List.Nodup.map_on (fun a inA b inB same => ?_) ((db .deliveries).rows_nodup.filter _)
    exact Table.eq_of_key (List.mem_filter.1 inA).1 (List.mem_filter.1 inB).1 same
  have updates := applyAll_updates (t := .deliveries) Delivery.cancel rows db
  show (db.applyAll _ .deliveries).get k = _
  rw [show (rows.map fun row : Delivery =>
    (.update TableName.deliveries (RowKey.id row.id) Delivery.cancel : SqlWrite)) =
    rows.map fun row => .update TableName.deliveries (key row) Delivery.cancel from rfl, updates]
  rw [Table.get_modifyAll (show (rows.map key).Nodup from distinct)]
  cases found : (db .deliveries).get k with
  | none => simp
  | some d =>
    have isKey : key d = k := Table.get_key found
    have cancelled : Table.keepIdentity d (Delivery.cancel d) = Delivery.cancel d :=
      Table.keepIdentity_eq rfl rfl
    have among : k ∈ rows.map key ↔ Delivery.orderId d = orderId ∧ d.status.active = true := by
      rw [isRows, List.mem_map]
      constructor
      · rintro ⟨row, member, same⟩
        obtain ⟨inTable, isMatch⟩ := List.mem_filter.1 member
        have isRow : row = d :=
          Table.eq_of_key inTable (Table.get_mem found) (same.trans isKey.symm)
        subst isRow
        simpa using isMatch
      · intro isMatch
        exact ⟨d, List.mem_filter.2 ⟨Table.get_mem found, by simpa using isMatch⟩, isKey⟩
    by_cases isMatch : Delivery.orderId d = orderId ∧ d.status.active = true
    · simp [among.2 isMatch, isMatch, cancelled]
    · simp [isMatch, mt among.1 isMatch]

/-- The agent of a delivery under way for the order is free again, or nobody was. -/
def AgentFreed (orderId : ℕ) (db : Database) (presence presence' : Presence) : Prop :=
  presence' = presence ∨ ∃ d ∈ (db .deliveries).rows, Delivery.orderId d = orderId ∧
  d.status.active = true ∧
    presence' = presence.srem d.agentId

/-- What a release does to the busy marks: 0 is nobody's id. -/
inductive Unmarked (orderId : ℕ) (db : Database) (presence presence' : Presence) : Prop where
  | nobody (idle : ∀ d ∈ (db .deliveries).rows, Delivery.orderId d = orderId →
      d.status.active = false) (same : presence' = presence)
  | unnamed (d : Delivery) (member : d ∈ (db .deliveries).rows) (ofOrder : d.orderId = orderId)
      (active : d.status.active = true)
      (isZero : d.agentId = 0) (same : presence' = presence)
  | freed (d : Delivery) (member : d ∈ (db .deliveries).rows) (ofOrder : d.orderId = orderId)
      (active : d.status.active = true)
      (isPresence : presence' = presence.srem d.agentId)

theorem Unmarked.agentFreed {orderId : ℕ} {presence presence' : Presence}
    (unmarked : Unmarked orderId db presence presence') :
    AgentFreed orderId db presence presence' := by
  cases unmarked with
  | nobody _ same | unnamed _ _ _ _ _ same => exact .inl same
  | freed d member ofOrder active isPresence => exact .inr ⟨d, member, ofOrder, active, isPresence⟩

/-- The rest of `releaseDelivery`, once the delivery is cancelled. -/
def freeNamed (agentId : Option ℕ) : Service Unit :=
  match agentId.filter (· ≠ 0) with
  | none => pure ()
  | some freedAgentId => orElse (markAgentFree freedAgentId) ()

theorem solo_releaseDelivery_of {order : Order} {target : OrderStatus}
    (kept : ¬(target = .cancelled ∧ order.status = .assigned) → Q db x)
    (cancels : target = .cancelled → order.status = .assigned → ∀ db', Released order.id db db' →
      (Terms.calm m).Moved db db' ∧ ∀ presence, Unmarked order.id db x.presence presence →
      Q db' { x with presence }) :
    (releaseDelivery order target).solo (.calm m) (fun _ _ => Q) ⟨none, seen⟩ db x := by
  unfold releaseDelivery
  split
  next isRelease =>
    refine solo_do
      (solo_do (solo_select fun seen₁ => solo_do (solo_updateWhere fun rows isRows => ?_)))
    have isFiltered : rows = (db .deliveries).rows.filter fun row : Delivery =>
        row.orderId = order.id && row.status.active := by
      rw [isRows]
      exact matching_rows (t := .deliveries)
        (fun row : Delivery => row.orderId = order.id && row.status.active) _
    obtain ⟨moved, ends⟩ := cancels isRelease.1 isRelease.2 _ (released_of_cancels isFiltered)
    refine ⟨moved, fun seen₂ => ?_⟩
    -- Nothing was released, or the agent of the first released delivery is freed.
    cases rows with
    | nil =>
      refine ends x.presence (.nobody (fun d member ofOrder => ?_) rfl)
      have passed := List.filter_eq_nil_iff.1 isFiltered.symm d member
      simpa [ofOrder] using passed
    | cons d rest =>
      have member : d ∈ (db .deliveries).rows.filter fun row : Delivery =>
          row.orderId = order.id && row.status.active := by
        rw [← isFiltered]
        exact List.mem_cons_self
      obtain ⟨inTable, isMatch⟩ := List.mem_filter.1 member
      simp only [Bool.and_eq_true, decide_eq_true_eq] at isMatch
      show Prog.solo _ (freeNamed (some (Delivery.agentId (Delivery.cancel d)))) _ _ _ _
      unfold freeNamed
      cases freed : (some (Delivery.agentId (Delivery.cancel d))).filter (· ≠ 0) with
      | none =>
        have isZero : Delivery.agentId (Delivery.cancel d) = 0 := by
          rw [Option.filter_eq_none_iff] at freed
          simpa using freed _ rfl
        exact ends x.presence (.unnamed d inTable isMatch.1 isMatch.2 isZero rfl)
      | some agentId =>
        have isAgent : agentId = Delivery.agentId d := by
          rw [Option.filter_eq_some_iff] at freed
          exact (Option.some.inj freed.1).symm
        subst isAgent
        exact solo_orElse_redis (ends _ (.freed d inTable isMatch.1 isMatch.2 rfl))
  next isKept => exact kept isKept

theorem solo_releaseDelivery {order : Order} {target : OrderStatus}
    (kept : ¬(target = .cancelled ∧ order.status = .assigned) → Q db x)
    (cancels : target = .cancelled → order.status = .assigned → ∀ db', Released order.id db db' →
      (Terms.calm m).Moved db db' ∧ ∀ presence, AgentFreed order.id db x.presence presence →
      Q db' { x with presence }) :
    (releaseDelivery order target).solo (.calm m) (fun _ _ => Q) ⟨none, seen⟩ db x :=
  solo_releaseDelivery_of kept fun isCancelled wasAssigned db' released =>
    ⟨(cancels isCancelled wasAssigned db' released).1, fun presence unmarked =>
      (cancels isCancelled wasAssigned db' released).2 presence unmarked.agentFreed⟩

theorem solo_updateOrderStatus {publicId : ℕ} {target : OrderStatus} {actor : RequestActor}
    (stops : ∀ x', Ticks x x' → Q db x')
    (writes : ∀ order listed db', orderOf db order.id = some order →
      orderActor actor = some listed → order.status.allows target listed = true →
      StatusWritten order target db db' → (Terms.calm m).Moved db db' ∧ ∀ x' seen', Ticks x x' →
      (releaseDelivery order target).solo (.calm m) (fun _ _ => Q) ⟨none, seen'⟩ db' x') :
    (OrderService.updateStatus core publicId target actor).solo (.calm m) (fun _ _ => Q)
      ⟨none, seen⟩ db x := by
  have nothing := stops x (.refl x)
  refine solo_do (solo_selectFirst (fun order member seen₁ => ?_) fun _ _ => nothing)
  have read : orderOf db order.id = some order := Table.get_of_mem (List.mem_filter.1 member).1
  refine solo_do (solo_ofExcept ?_)
  -- Each of the checks stops the request before anything is written.
  cases resolved : OrderService.resolveActor core order actor target with
  | error err => exact nothing
  | ok listed =>
    refine solo_do (solo_ofExcept ?_)
    cases checked : assertTransition order.status target listed with
    | error err => exact nothing
    | ok _ =>
      refine solo_do (solo_ticking (quiet_assertWindow order target listed)
        fun result seen₂ x₁ ticks₁ => ?_)
      cases result with
      | error err => exact stops x₁ ticks₁
      | ok _ =>
        refine solo_do (solo_transaction_atomic (b := anyWrite Ticks) Ticks.refl Ticks.trans
          (quiet_recordStatus _ _ (fun _ _ => trivial) fun _ => trivial) (fun began => ?_)
          fun _ _ x₂ ticks₂ => stops x₂ (ticks₁.trans ticks₂))
        refine atomic_recordStatus (fun result total seen₃ row before f written _ _ _ => ?_)
          fun _ _ _ impossible => nomatch impossible
        rintro value isValue
        obtain ⟨moved, follows⟩ := writes order listed _ read (resolveActor_eq resolved)
          (allows_of_assertTransition checked) written
        refine ⟨moved, fun seen₄ x₂ ticks₂ => ?_⟩
        exact solo_returning (f := fun _ => value) (follows x₂ seen₄ (ticks₁.trans ticks₂))

/-! ## Presence -/

section

variable {presence : Presence} {agentId other : ℕ}

@[simp] theorem geo_sadd : (presence.sadd agentId).geo = presence.geo := by
  unfold Presence.sadd
  split <;> rfl

@[simp] theorem mem_busy_sadd :
    other ∈ (presence.sadd agentId).busy ↔ other = agentId ∨ other ∈ presence.busy := by
  unfold Presence.sadd
  split
  next isBusy => exact ⟨.inr, fun either => either.elim (fun same => same ▸ isBusy) id⟩
  next => exact List.mem_cons

@[simp] theorem mem_busy_srem :
    other ∈ (presence.srem agentId).busy ↔ other ∈ presence.busy ∧ other ≠ agentId := by
  simp [Presence.srem]

theorem mem_agents_filter {geo : List (ℕ × Point)} :
    other ∈ (geo.filter fun entry => entry.1 ≠ agentId).map Prod.fst ↔
    other ∈ geo.map Prod.fst ∧ other ≠ agentId := by
  simp only [List.mem_map, List.mem_filter, decide_eq_true_eq]
  constructor
  · rintro ⟨entry, ⟨member, different⟩, rfl⟩
    exact ⟨⟨entry, member, rfl⟩, different⟩
  · rintro ⟨⟨entry, member, rfl⟩, different⟩
    exact ⟨entry, ⟨member, different⟩, rfl⟩

end

abbrev presenceOf (db : Database) (agentId : ℕ) : Option AgentPresence :=
  (db .agentPresence).get (RowKey.id agentId)

/-- PostgreSQL has the agent online. -/
def Online (db : Database) (agentId : ℕ) : Prop :=
  ∃ ap, presenceOf db agentId = some ap ∧ ap.isOnline = true

theorem not_online_goOffline (db : Database) (agentId now : ℕ) :
    ¬Online (db.apply (.update TableName.agentPresence (RowKey.id agentId)
      (AgentPresence.goOffline now))) agentId := by
  rintro ⟨ap, found, online⟩
  cases wasThere : presenceOf db agentId with
  | none =>
    rw [presenceOf, Db.apply_update_self, Table.get_modify, Option.map_eq_some_iff] at found
    obtain ⟨row, isRow, _⟩ := found
    cases wasThere.symm.trans isRow
  | some row =>
    rw [presenceOf, Db.apply_update_self, Table.get_modify_self wasThere rfl rfl] at found
    cases found
    cases online

/-- Only the agent's own row of the presence table may have changed. -/
structure PresenceChanged (agentId : ℕ) (db db' : Database) : Prop where
  rows : ∀ other, other ≠ agentId → presenceOf db' other = presenceOf db other
  others : ∀ t, t ≠ .agentPresence → db' t = db t

theorem presenceChanged_update (db : Database) (agentId : ℕ) (f : AgentPresence → AgentPresence) :
    PresenceChanged agentId db
      (db.apply (.update TableName.agentPresence (RowKey.id agentId) f)) := by
  refine ⟨fun other different => ?_, fun t other => Db.apply_update_ne db _ _ other⟩
  rw [presenceOf, Db.apply_update_self]
  exact Table.get_modify_of_ne (by simpa using different)

theorem presenceChanged_insert (db : Database) (row : AgentPresence) :
    PresenceChanged row.agentId db (db.apply (.insert TableName.agentPresence row : SqlWrite)) := by
  refine ⟨fun other different => ?_, fun t other => Db.apply_insert_ne db _ other⟩
  rw [presenceOf, Db.apply_insert_self]
  exact Table.get_insert_of_ne fun same => different (RowKey.id.inj same).symm

/-- What becomes of the presence keys when an agent goes online. -/
structure WentOnline (agentId : ℕ) (presence presence' : Presence) : Prop where
  geo : ∃ point, presence'.geo = (agentId, point) :: presence.geo.filter fun entry =>
    entry.1 ≠ agentId
  busy : presence'.busy = presence.busy.filter (· ≠ agentId)

/-- The agent has come online at the point. -/
structure CameOnline (agentId : ℕ) (point : Point) (db db' : Database) :
    Prop extends PresenceChanged agentId db db' where
  row : ∃ ap, presenceOf db' agentId = some ap ∧ ap.isOnline = true ∧ ap.lastLat = some point.lat ∧
    ap.lastLng = some point.lng

theorem solo_online_at {agentId : ℕ} {point : Point} (stops : Q db x)
    (enters : ∀ db' presence, CameOnline agentId point db db' →
      presence.geo = (agentId, point) :: x.presence.geo.filter (fun entry => entry.1 ≠ agentId) →
      presence.busy = x.presence.busy.filter (· ≠ agentId) →
      (Terms.calm m).Moved db db' ∧ Q db' { x with presence }) :
    (PresenceService.online agentId point).solo (.calm m) (fun _ _ => Q) ⟨none, seen⟩ db x := by
  have follows : ∀ db', CameOnline agentId point db db' → ∀ seen',
      (setAgentOnline agentId point).solo (.calm m) (fun _ _ => Q) ⟨none, seen'⟩ db' x :=
        fun db' came seen' =>
    solo_do (solo_redis
      (solo_do (solo_nowIso (solo_do (solo_redis (solo_redis (enters db' _ came rfl rfl).2))))))
  have moved : ∀ db', CameOnline agentId point db db' → (Terms.calm m).Moved db db' :=
    fun db' came =>
    (enters db' ⟨_, _, []⟩ came rfl rfl).1
  refine solo_do
    (solo_do (solo_nowIso (solo_upsert (fun old found => ?_) (fun _ free => ?_) stops)))
  · have isAgent : (key old : RowKey) = RowKey.id agentId := Table.get_key found
    rw [isAgent]
    have came : CameOnline agentId point db
        (db.apply (.update TableName.agentPresence (RowKey.id agentId)
        (AgentPresence.put point (toMillis x.now)))) := by
      refine ⟨presenceChanged_update _ _ _, AgentPresence.put point (toMillis x.now) old, ?_,
        rfl, rfl, rfl⟩
      rw [presenceOf, Db.apply_update_self]
      exact Table.get_modify_self found rfl rfl
    exact ⟨moved _ came, follows _ came⟩
  · let arrival : AgentPresence :=
      ⟨agentId, true, some point.lat, some point.lng, toMillis x.now, toMillis x.now⟩
    have came : CameOnline agentId point db
        (db.apply (.insert TableName.agentPresence arrival : SqlWrite)) := by
      refine ⟨presenceChanged_insert db arrival, arrival, ?_, rfl, rfl, rfl⟩
      rw [presenceOf, Db.apply_insert_self]
      exact Table.get_insert_self free
    exact ⟨moved _ came, follows _ came⟩

theorem solo_online {agentId : ℕ} {point : Point} (stops : Q db x)
    (enters : ∀ db' presence, PresenceChanged agentId db db' →
      WentOnline agentId x.presence presence →
      (Terms.calm m).Moved db db' ∧ Q db' { x with presence }) :
    (PresenceService.online agentId point).solo (.calm m) (fun _ _ => Q) ⟨none, seen⟩ db x :=
  solo_online_at stops fun db' presence came isGeo isBusy =>
    enters db' presence came.toPresenceChanged ⟨⟨point, isGeo⟩, isBusy⟩

theorem solo_ping {agentId : ℕ} {point : Point} (stops : Q db x)
    (pings : ∀ now presence, Online db agentId → presence.geo = (agentId, point) ::
      x.presence.geo.filter (fun entry => entry.1 ≠ agentId) → presence.busy = x.presence.busy →
      (Terms.calm m).Moved db (db.apply (.update TableName.agentPresence (RowKey.id agentId)
      (AgentPresence.move point now))) ∧ Q (db.apply (.update TableName.agentPresence
      (RowKey.id agentId) (AgentPresence.move point now))) { x with presence }) :
    (PresenceService.ping agentId point).solo (.calm m) (fun _ _ => Q) ⟨none, seen⟩ db x := by
  refine solo_do (solo_selectByKey (fun ap found seen₁ => ?_) fun _ _ => stops)
  refine solo_do (solo_throwIf (fun isOnline => ?_) fun _ => stops)
  rw [Bool.not_eq_false] at isOnline
  refine solo_do
    (solo_do (solo_nowIso (solo_do (solo_updateByKey (fun row _ => ?_) fun absent => ?_))))
  · have pinged :=
      pings (toMillis x.now) (((x.presence.geoadd agentId point).updateMeta agentId fun old =>
      { old with lastSeenAt := some (toMillis x.now) })) ⟨ap, found, isOnline⟩ rfl rfl
    refine ⟨pinged.1, fun seen₂ => ?_⟩
    refine solo_do (solo_do (solo_redis (solo_do (solo_nowIso (solo_redis ?_)))))
    refine solo_do (solo_selectFirst (fun active _ seen₃ => ?_) fun _ _ => pinged.2)
    exact solo_do (solo_selectByKey (fun _ _ _ => pinged.2) fun _ _ => pinged.2)
  · cases absent.symm.trans found

/-- What becomes of the presence keys when an agent goes offline. -/
structure WentOffline (agentId : ℕ) (presence presence' : Presence) : Prop where
  geo : presence'.geo = presence.geo.filter fun entry => entry.1 ≠ agentId
  busy : presence'.busy = presence.busy.filter (· ≠ agentId)

/-- The agent has left both stores. -/
structure LeftOffline (agentId : ℕ) (db db' : Database) :
    Prop extends PresenceChanged agentId db db' where
  offline : ¬Online db' agentId

/-- An agent who goes offline gives the delivery under way up, unless it is picked. -/
theorem solo_offline {agentId : ℕ} {Q : Except Err Unit → Database → Shared → Prop}
    (stops : ∀ err, Q (.error err) db x)
    (leaves : ∀ db' presence, LeftOffline agentId db db' → WentOffline agentId x.presence presence →
      (Terms.calm m).Moved db db' ∧ ∀ active : Option Delivery,
      (∀ d ∈ active, deliveryOf db d.id = some d ∧ d.agentId = agentId ∧
      d.status.active = true ∧ d.status ≠ .picked) → (active = none → FreeOf db agentId) →
      (∀ d ∈ active, orderOf db' d.orderId = none → Q (.ok ()) db' { x with presence }) ∧
      (active = none → Q (.ok ()) db' { x with presence }) ∧ ∀ d ∈ active, ∀ order seen',
      orderOf db' d.orderId = some order → (reassign env core order.publicId).solo (.calm m)
      (fun _ _ => Q (.ok ())) ⟨none, seen'⟩ db' { x with presence }) :
    (PresenceService.offline env core agentId).solo (.calm m) (fun result _ => Q result)
      ⟨none, seen⟩ db x := by
  -- The rest of the call, once the agent's delivery is known.
  have follows : ∀ active : Option Delivery,
      (∀ d ∈ active, deliveryOf db d.id = some d ∧ d.agentId = agentId ∧ d.status.active = true ∧
        d.status ≠ .picked) →
      (active = none → FreeOf db agentId) → ∀ db', LeftOffline agentId db db' → ∀ seen',
      (leaveWork env core agentId active).solo (.calm m) (fun result _ => Q result)
        ⟨none, seen'⟩ db' x := by
    intro active ofAgent nobody db' left seen'
    refine solo_do (solo_do (solo_redis (solo_do (solo_redis (solo_redis ?_)))))
    obtain ⟨missing, idle, found⟩ :=
      (leaves db' ((((x.presence.zrem agentId).srem agentId).updateMeta agentId fun old =>
      { old with online := some false })) left ⟨rfl, rfl⟩).2 active ofAgent nobody
    cases active with
    | none => exact idle rfl
    | some d =>
      refine solo_do (solo_selectByKey (fun order isOrder seen₁ => ?_) fun absent _ =>
        missing d rfl absent)
      refine solo_tryCatch
        (solo_mono ?_ (solo_returning (f := fun _ => ()) (found d rfl order seen₁ isOrder)))
      intro result l db'' x' ends
      cases result <;> exact ends
  have read : ∀ active : Option Delivery,
      (∀ d ∈ active, deliveryOf db d.id = some d ∧ d.agentId = agentId ∧ d.status.active = true ∧
        d.status ≠ .picked) →
      (active = none → FreeOf db agentId) → ∀ seen',
      (setAgentPresenceOffline .pool agentId >>= fun _ => leaveWork env core agentId active).solo
        (.calm m) (fun result _ => Q result)
        ⟨none, seen'⟩ db x := by
    intro active ofAgent nobody seen'
    refine solo_do (solo_do
      (solo_nowIso (solo_do (solo_updateByKey (fun row found => ?_) fun absent seen₁ => ?_))))
    · have left : LeftOffline agentId db
          (db.apply (.update TableName.agentPresence (RowKey.id agentId)
          (AgentPresence.goOffline (toMillis x.now)))) :=
        ⟨presenceChanged_update _ _ _, not_online_goOffline _ _ _⟩
      exact ⟨(leaves _ ⟨_, _, []⟩ left ⟨rfl, rfl⟩).1,
        fun seen₁ => follows active ofAgent nobody _ left seen₁⟩
    · have left : LeftOffline agentId db db := by
        refine ⟨⟨fun _ _ => rfl, fun _ _ => rfl⟩, ?_⟩
        rintro ⟨ap, isRow, _⟩
        cases absent.symm.trans isRow
      exact follows active ofAgent nobody db left seen₁
  refine solo_do (solo_selectFirst (fun active member seen₁ => ?_) fun nobody seen₁ => ?_)
  · obtain ⟨isDelivery, isMatch⟩ := List.mem_filter.1 member
    simp only [Bool.and_eq_true, decide_eq_true_eq] at isMatch
    refine solo_do (solo_throwIf (fun notPicked =>
      read (some active) (fun d isActive => ?_) (fun impossible => nomatch impossible) seen₁)
      fun _ => stops _)
    cases isActive
    exact ⟨Table.get_of_mem isDelivery, isMatch.1, isMatch.2, by simpa using notPicked⟩
  · refine solo_do (solo_throwIf (fun _ => read none (fun d impossible => nomatch impossible)
      (fun _ => ?_) seen₁) fun busy => nomatch busy)
    intro d member ofAgent
    have passed := List.filter_eq_nil_iff.1 nobody d member
    simpa [ofAgent] using passed

end

end SwiftBite.Verified
