import SwiftBite.Verified.AloneStatus

/-! # Agents who have gone offline

`offline` writes the agent's row of the presence table and then removes the agent's position
from Redis.  `ping` asks that row first and puts a position into Redis last, so that the
answer may be old by then.  The agent stays out of both sources of candidates as long as
every new position is put there while the row still says online.

The proof follows each `offline` call through its actions: what it has done already no other
call undoes.
-/

set_option autoImplicit false

namespace SwiftBite.Verified.Offline

open Store Verified Statement

/-- Redis has a position of the agent. -/
abbrev Placed (x : Shared) (agentId : ℕ) : Prop := agentId ∈ x.presence.geo.map Prod.fst

/-- Neither source of candidates has the agent. -/
structure Hidden (agentId : ℕ) (db : Database) (x : Shared) : Prop where
  offline : ¬Online db agentId
  away : ¬Placed x agentId

/-! ## What the calls write -/

/-- The write brings the agent not online. -/
def KeepsOffline (agentId : ℕ) (w : SqlWrite) : Prop :=
  ∀ db : Database, ¬Online db agentId → ¬Online (db.apply w) agentId

/-- The agent's position is there only if it was before, or the call may put it there. -/
def Enters (agentId : ℕ) (mayEnter : Prop) (x x' : Shared) : Prop :=
  Placed x' agentId → Placed x agentId ∨ mayEnter

/-- What the calls may do that bring the agent not online. -/
abbrev careful (agentId : ℕ) (mayEnter : Prop) : Bounds RowOf RowKey Shared :=
  ⟨KeepsOffline agentId, fun _ => True, Enters agentId mayEnter⟩

section

variable {agentId : ℕ} {mayEnter : Prop}

instance : Ticking (Enters agentId mayEnter) :=
  ⟨fun ticks placed => .inl (by rwa [Placed, ticks.presence] at placed)⟩

theorem commands_enters : Commands (Enters agentId mayEnter) := by
  refine ⟨fun x p fewer placed => .inl ?_⟩
  obtain ⟨entry, member, isAgent⟩ := List.mem_map.1 placed
  exact List.mem_map.2 ⟨entry, fewer member, isAgent⟩

/-- A position of another agent. -/
theorem enters_geoadd {other : ℕ} (own : other = agentId → mayEnter) (x : Shared) (point : Point) :
    Enters agentId mayEnter x { x with presence := x.presence.geoadd other point } := by
  intro placed
  by_cases same : other = agentId
  · exact .inr (own same)
  · left
    simp only [Placed, Presence.geoadd, List.map_cons, List.mem_cons] at placed
    rcases placed with isOther | placed
    · exact absurd isOther.symm same
    · exact (mem_agents_filter.1 placed).1

theorem keepsOffline_other {w : SqlWrite} (other : w.table ≠ .agentPresence) :
    KeepsOffline agentId w := by
  intro db offline online
  simp only [Online, presenceOf, Db.apply_other db other] at online
  exact offline online

theorem keepsOffline_update {k : RowKey} {f : AgentPresence → AgentPresence}
    (raises : ∀ row, (f row).isOnline = true → row.isOnline = true) :
    KeepsOffline agentId (.update TableName.agentPresence k f) := by
  rintro db offline ⟨ap, found, online⟩
  rw [presenceOf, Db.apply_update_self, Table.get_modify, Option.map_eq_some_iff] at found
  obtain ⟨row, wasThere, rfl⟩ := found
  refine offline ⟨row, wasThere, ?_⟩
  exact Table.rewrite_induction
    (motive := fun changed : AgentPresence => changed.isOnline = true → row.isOnline = true) id
    (raises row) online

/-- A write of another agent's row. -/
theorem keepsOffline_of_changed {other : ℕ} (different : agentId ≠ other) {w : SqlWrite}
    (changed : ∀ db : Database, PresenceChanged other db (db.apply w)) :
    KeepsOffline agentId w := by
  rintro db offline ⟨ap, found, online⟩
  rw [(changed db).rows agentId different] at found
  exact offline ⟨ap, found, online⟩

theorem KeepsOffline.applyAll {ws : List SqlWrite} (keeps : ∀ w ∈ ws, KeepsOffline agentId w)
    {db : Database} (offline : ¬Online db agentId) : ¬Online (db.applyAll ws) agentId := by
  induction ws generalizing db with
  | nil => exact offline
  | cons w ws inductionHypothesis =>
    refine inductionHypothesis (fun w' later => keeps w' (List.mem_cons_of_mem _ later)) ?_
    exact keeps w List.mem_cons_self db offline

end

/-! ## The calls of the presence service -/

/-- Calls for an agent's presence. -/
def ServesPresence : Operation → Prop
  | .online .. | .offline .. | .ping .. => True
  | _ => False

/-- The call may put the agent's position into Redis. -/
def Moves (agentId : ℕ) : Operation → Prop
  | .ping other _ => other = agentId
  | _ => False

/-- The call is over, or brings the agent not online. -/
def Careful (agentId : ℕ) (call : ServiceCall) : Prop :=
  Pool.Ended call = true ∨ (call.prog.Harmless (careful agentId (Moves agentId call.op)) ∧
    ∀ w ∈ call.loc.writes, KeepsOffline agentId w)

/-- A call that brings the agent online. -/
def GoesOnline (agentId : ℕ) (op : Operation) : Prop := ∃ point, op = .online agentId point

theorem careful_spawned (env : Config) {op : Operation} (serves : ServesPresence op) {agentId : ℕ}
    (not : ¬GoesOnline agentId op) : Careful agentId ⟨op, code env op, .start⟩ := by
  refine .inr ⟨?_, fun w none => absurd none List.not_mem_nil⟩
  cases op with
  | online other point =>
    have different : agentId ≠ other := fun same => not ⟨point, by rw [same]⟩
    have harmless : (PresenceService.online other point).Harmless (careful agentId False) := by
      refine commands_enters.harmless_online other point (fun row isRow => ?_)
        (fun f => ?_) fun x => ?_
      · subst isRow
        exact keepsOffline_of_changed different fun db => presenceChanged_insert db row
      · exact keepsOffline_of_changed different fun db => presenceChanged_update db other f
      · exact enters_geoadd (fun same => different same.symm) x point
    exact harmless.bind fun _ => trivial
  | offline core other =>
    have harmless : (PresenceService.offline env core other).Harmless (careful agentId False) :=
      commands_enters.harmless_offline env core other
        (fun now => keepsOffline_update fun row online => nomatch online)
        (fun row => keepsOffline_other (by simp [Write.table]))
        (fun k f => keepsOffline_other (by simp [Write.table]))
        fun k f => keepsOffline_other (by simp [Write.table])
    exact harmless.bind fun _ => trivial
  | ping other point =>
    have harmless : (PresenceService.ping other point).Harmless
        (careful agentId (other = agentId)) :=
      commands_enters.harmless_ping other point
        (fun now => keepsOffline_update fun row online => online)
        fun x => enters_geoadd id x point
    exact harmless.bind fun _ => trivial
  | _ => exact serves.elim

section Steps

variable {agentId : ℕ} {call : ServiceCall} {db : Database} {x : Shared} {choice : Choice}
  {out : Outcome (K := RowKey) RowOf Shared Err Reply}

theorem Careful.step (isCareful : Careful agentId call)
    (acts : call.prog.next choice call.loc db x = some out) :
    Careful agentId (afterwards call out) ∧ (¬Online db agentId → ¬Online out.db agentId) ∧
      Enters agentId (Moves agentId call.op) x out.side := by
  rcases isCareful with ended | ⟨harmless, pending⟩
  · unfold Pool.Ended at ended
    split at ended
    next isDone =>
      rw [isDone] at acts
      cases acts
    · cases ended
  · obtain ⟨harmless', pending', ws, keeps, isDb⟩ := harmless.next pending acts
    refine ⟨.inr ⟨harmless', pending'⟩,
      fun offline => isDb ▸ KeepsOffline.applyAll keeps offline, ?_⟩
    rcases harmless.next_side acts with same | moves
    · exact fun placed => .inl (same ▸ placed)
    · exact moves

/-! ## The actions of an `offline` call -/

/-- What is left once the agent is out of both stores. -/
def handOver (env : Config) (core : Core) (active : Option Delivery) : Service Unit :=
  match active with
  | none => pure ()
  | some active => do
    match ← OrderService.getOrderEntityById active.orderId with
    | none => pure ()
    | some order => orElse (do let _ ← DeliveryService.reassign env core order.publicId) ()

/-- What is left once PostgreSQL has the agent offline. -/
def leave (env : Config) (core : Core) (agentId : ℕ) (active : Option Delivery) : Service Unit := do
  setAgentOffline agentId
  handOver env core active

def replying (prog : Service Unit) : Service Reply := do
  prog
  pure .nothing

/-- Where an `offline` call stands, and what it has reached by then. -/
inductive Place (env : Config) (agentId : ℕ) (db : Database) (x : Shared)
    (call : ServiceCall) : Prop where
  | reading (core : Core) (start : call.prog = code env (.offline core agentId))
  | noting (core : Core) (active : Option Delivery)
      (rest : call.prog =
      replying (setAgentPresenceOffline .pool agentId >>= fun _ => leave env core agentId active))
  | marking (core : Core) (active : Option Delivery) (now : ℕ)
      (rest : call.prog = replying ((do
        let _ ← Prog.exec .pool (updateByKey TableName.agentPresence (RowKey.id agentId)
            (AgentPresence.goOffline now)) : Service Unit) >>=
          fun _ => leave env core agentId active))
  | removing (core : Core) (active : Option Delivery) (offline : ¬Online db agentId)
      (rest : call.prog = replying (leave env core agentId active))
  | left (hidden : Hidden agentId db x)
  | failed (err : Err) (ends : call.prog = .done (.error err))

theorem Place.step {env : Config} (place : Place env agentId db x call)
    (acts : call.prog.next choice call.loc db x = some out)
    (stays : Hidden agentId db x → Hidden agentId out.db out.side) :
    Place env agentId out.db out.side (afterwards call out) := by
  cases place with
  | reading core start =>
    rw [start] at acts
    obtain rfl | ⟨effect, member, rfl⟩ := Prog.next_pool acts
    · exact .failed _ rfl
    · obtain ⟨_, isEffect⟩ | ⟨active, _, isEffect⟩ := selectFirst_cases member <;> cases isEffect
      · exact .noting core none rfl
      · -- What the check leaves of the program.
        show Place env agentId db x ⟨call.op,
            replying (throwIf ((some active).any (fun active => active.status = .picked) = true)
          .AgentInActiveDeliveryError >>= fun _ => setAgentPresenceOffline .pool agentId >>=
          fun _ => leave env core agentId (some active)), _⟩
        by_cases picked : (some active).any (fun active : Delivery => active.status = .picked) =
          true
        · rw [throwIf, if_pos picked]
          exact .failed .AgentInActiveDeliveryError rfl
        · rw [throwIf, if_neg picked]
          exact .noting core (some active) rfl
  | noting core active rest =>
    rw [rest] at acts
    cases Prog.next_sure acts
    exact .marking core active _ rfl
  | marking core active now rest =>
    rw [rest] at acts
    obtain rfl | ⟨effect, member, rfl⟩ := Prog.next_pool acts
    · exact .failed _ rfl
    · unfold updateByKey at member
      split at member
      next absent =>
        cases List.mem_singleton.1 member
        refine .removing core active ?_ rfl
        rintro ⟨ap, found, _⟩
        cases absent.symm.trans found
      next row _ =>
        cases List.mem_singleton.1 member
        exact .removing core active (not_online_goOffline db agentId now) rfl
  | removing core active offline rest =>
    rw [rest] at acts
    obtain rfl | rfl := Prog.next_act acts
    · exact .failed _ rfl
    · refine .left ⟨offline, fun placed => ?_⟩
      exact (mem_agents_filter.1 placed).2 rfl
  | left hidden => exact .left (stays hidden)
  | failed err ends =>
    rw [ends] at acts
    cases acts

end Steps

/-! ## Runs -/

/-- What the calls have reached: from the `first` call on, each `offline` call is in its place. -/
structure Kept (env : Config) (agentId first : ℕ) (p : Region) : Prop where
  careful : ∀ (i : ℕ) call, p.calls[i]? = some call → Careful agentId call
  placed : ∀ (i : ℕ) call core, first ≤ i → p.calls[i]? = some call →
    call.op = .offline core agentId →
    Place env agentId p.db p.side call

/-- A ping puts a position of its agent into Redis only while PostgreSQL still has the agent
online. -/
def PingsFresh (p : Region) : Event Operation → Prop
  | .step i choice => ∀ call agentId out, p.calls[i]? = some call → Moves agentId call.op →
      call.prog.next choice call.loc p.db p.side = some out → Placed out.side agentId →
      Placed p.side agentId ∨ Online p.db agentId
  | _ => True

/-- The runs of these calls, with any faults and crashes, in which no ping acts on an old answer. -/
def FreshPresence (p : Region) (e : Event Operation) : Prop :=
  Serves ServesPresence e ∧ PingsFresh p e

theorem Place.stable {env : Config} {agentId : ℕ} {db db' : Database} {x x' : Shared}
    {call : ServiceCall} (place : Place env agentId db x call)
    (offline : ¬Online db agentId → ¬Online db' agentId)
    (hidden : Hidden agentId db x → Hidden agentId db' x') : Place env agentId db' x' call := by
  cases place with
  | reading core start => exact .reading core start
  | noting core active rest => exact .noting core active rest
  | marking core active now rest => exact .marking core active now rest
  | removing core active isOffline rest => exact .removing core active (offline isOffline) rest
  | left isHidden => exact .left (hidden isHidden)
  | failed err ends => exact .failed err ends

theorem careful_crashed {agentId : ℕ} (op : Operation) :
    Careful agentId ⟨op, .done (.error (Host.fault Shared)), .start⟩ :=
  .inl rfl

theorem Kept.next {env : Config} {agentId first : ℕ} {p p' : Region} {e : Event Operation}
    (kept : Kept env agentId first p) (allowed : FreshPresence p e)
    (not : ∀ point, e ≠ .spawn (.online agentId point)) (moves : p.next (code env) e = some p') :
    Kept env agentId first p' := by
  cases e with
  | spawn op =>
    cases moves
    have notOnline : ¬GoesOnline agentId op := fun ⟨point, isOnline⟩ => not point (by rw [isOnline])
    refine ⟨fun i call found => ?_, fun i call core later found isOffline => ?_⟩
    · obtain before | ⟨rfl, rfl⟩ := Pool.getElem?_spawned found
      · exact kept.careful i call before
      · exact careful_spawned env allowed.1 notOnline
    · obtain before | ⟨rfl, rfl⟩ := Pool.getElem?_spawned found
      · exact kept.placed i call core later before isOffline
      · cases isOffline
        exact .reading core rfl
  | step i choice =>
    obtain ⟨call, out, found, acts, _, rfl⟩ := Pool.stepCall_inv moves
    obtain ⟨after, offline, enters⟩ := (kept.careful i call found).step acts
    -- Only a ping moves the agent back, and it does so while the agent is online.
    have hidden : Hidden agentId p.db p.side → Hidden agentId out.db out.side := by
      intro isHidden
      refine ⟨offline isHidden.offline, fun placed => ?_⟩
      rcases enters placed with before | mayMove
      · exact isHidden.away before
      · rcases allowed.2 call agentId out found mayMove acts placed with before | online
        · exact isHidden.away before
        · exact isHidden.offline online
    refine ⟨fun j other isOther => ?_, fun j other core later isOther isOffline => ?_⟩
    · obtain ⟨rfl, rfl⟩ | ⟨_, before⟩ := Pool.getElem?_moved isOther
      · exact after
      · exact kept.careful j other before
    · obtain ⟨rfl, rfl⟩ | ⟨_, before⟩ := Pool.getElem?_moved isOther
      · exact (kept.placed j call core later found isOffline).step acts hidden
      · exact (kept.placed j other core later before isOffline).stable offline hidden
  | crash i =>
    obtain ⟨call, found, _, rfl⟩ := Pool.crashCall_inv moves
    refine ⟨fun j other isOther => ?_, fun j other core later isOther isOffline => ?_⟩
    · obtain ⟨rfl, rfl⟩ | ⟨_, before⟩ := Pool.getElem?_moved isOther
      · exact careful_crashed call.op
      · exact kept.careful j other before
    · obtain ⟨rfl, rfl⟩ | ⟨_, before⟩ := Pool.getElem?_moved isOther
      · exact .failed _ rfl
      · exact kept.placed j other core later before isOffline

/-- A call brings the agent online, or is careful. -/
theorem careful_or_online {env : Config} {db : Database} {x : Shared} {p : Region} (agentId : ℕ)
    (reached : Pool.Reach (code env) FreshPresence (Pool.quiet db x) p) :
    ∀ (i : ℕ) call, p.calls[i]? = some call →
    GoesOnline agentId call.op ∨ Careful agentId call := by
  refine reached.induct (fun p => ∀ (i : ℕ) call, p.calls[i]? = some call →
    GoesOnline agentId call.op ∨ Careful agentId call)
    (fun i call found => by cases found) fun p p' e each allowed moves j other isOther => ?_
  cases e with
  | spawn op =>
    cases moves
    obtain before | ⟨rfl, rfl⟩ := Pool.getElem?_spawned isOther
    · exact each j other before
    · by_cases online : GoesOnline agentId op
      · exact .inl online
      · exact .inr (careful_spawned env allowed.1 online)
  | step i choice =>
    obtain ⟨call, out, found, acts, _, rfl⟩ := Pool.stepCall_inv moves
    obtain ⟨rfl, rfl⟩ | ⟨_, before⟩ := Pool.getElem?_moved isOther
    · exact (each j call found).imp_right fun isCareful => (isCareful.step acts).1
    · exact each j other before
  | crash i =>
    obtain ⟨call, found, _, rfl⟩ := Pool.crashCall_inv moves
    obtain ⟨rfl, rfl⟩ | ⟨_, before⟩ := Pool.getElem?_moved isOther
    · exact .inr (careful_crashed call.op)
    · exact each j other before

/-- The call is about the agent's presence. -/
def Concerns (agentId : ℕ) : Operation → Prop
  | .online other _ | .offline _ other | .ping other _ => other = agentId
  | _ => False

/-- The runs in which the agent does not go online again. -/
def WithoutOnline (agentId : ℕ) (allowed : Region → Event Operation → Prop) (p : Region)
    (e : Event Operation) : Prop :=
  allowed p e ∧ ∀ point, e ≠ .spawn (.online agentId point)

/-- An `offline` call of the agent, not among the `first` calls, has returned. -/
def HasLeft (agentId first : ℕ) (p : Region) : Prop :=
  ∃ (i : ℕ) (call : ServiceCall) (core : Core), first ≤ i ∧ p.calls[i]? = some call ∧
  call.op = .offline core agentId ∧
    call.prog = .done (.ok .nothing)

/-- Take a moment at which no call is bringing the agent online, and a run from there in which the
agent does not go online again: once an `offline` call of that run has returned, and the agent's
calls are over, the agent is in neither source of candidates. -/
def OfflineIsFinal (env : Config) (allowed : Region → Event Operation → Prop) : Prop :=
  ∀ (db : Database) (x : Shared) (agentId : ℕ) (p₀ p₁ : Region),
    Pool.Reach (code env) allowed (Pool.quiet db x) p₀ →
    (∀ call ∈ p₀.calls, GoesOnline agentId call.op → Pool.Ended call = true) →
    Pool.Reach (code env) (WithoutOnline agentId allowed) p₀ p₁ →
    HasLeft agentId p₀.calls.length p₁ →
    (∀ call ∈ p₁.calls, Concerns agentId call.op → Pool.Ended call = true) →
    Hidden agentId p₁.db p₁.side

theorem offline_is_final_while_pings_are_fresh (env : Config) :
    OfflineIsFinal env FreshPresence := by
  intro db x agentId p₀ p₁ reached ended later ⟨i, call, core, isLater, found, isOffline, isOver⟩ _
  have start : Kept env agentId p₀.calls.length p₀ := by
    refine ⟨fun j other isOther => ?_, fun j other core late isOther => ?_⟩
    · rcases careful_or_online agentId reached j other isOther with online | isCareful
      · exact .inl (ended other (List.mem_of_getElem? isOther) online)
      · exact isCareful
    · have bound := (List.getElem?_eq_some_iff.1 isOther).1
      omega
  have kept : Kept env agentId p₀.calls.length p₁ :=
    later.induct (Kept env agentId p₀.calls.length) start fun p p' e kept allowed moves =>
      kept.next allowed.1 allowed.2 moves
  -- A call that has returned is past all its places but the last.
  cases kept.placed i call core isLater found isOffline with
  | left hidden => exact hidden
  | failed err ends => cases isOver.symm.trans ends
  | reading core start => cases isOver.symm.trans start
  | noting core active rest => cases isOver.symm.trans rest
  | marking core active now rest => cases isOver.symm.trans rest
  | removing core active offline rest => cases isOver.symm.trans rest

/-! ## A ping that comes late -/

instance : DecidablePred ServesPresence
  | .online .. | .offline .. | .ping .. => inferInstanceAs (Decidable True)
  | .assign .. | .tryAutoAssign .. | .reassign .. | .updateDeliveryStatus .. | .placeOrder ..
  | .refund .. | .initPayment .. | .webhook ..
  | .updateOrderStatus .. | .recordPayout .. | .sleep .. => inferInstanceAs (Decidable False)

/-- The runs in which no call fails. -/
def PresenceCalls (_ : Region) (e : Event Operation) : Prop := Serves ServesPresence e ∧ Faultless e

instance (p : Region) (e : Event Operation) : Decidable (PresenceCalls p e) :=
  inferInstanceAs (Decidable (_ ∧ _))

instance (agentId : ℕ) : DecidablePred (GoesOnline agentId) := fun op =>
  match op with
  | .online other point =>
    decidable_of_iff (other = agentId) ⟨fun same => ⟨point, by rw [same]⟩,
      fun ⟨_, same⟩ => (Operation.online.inj same).1⟩
  | .assign .. | .tryAutoAssign .. | .reassign .. | .updateDeliveryStatus .. | .placeOrder ..
  | .refund .. | .initPayment .. | .webhook ..
  | .updateOrderStatus .. | .recordPayout .. | .sleep .. | .offline .. | .ping .. =>
    .isFalse fun ⟨_, impossible⟩ => nomatch impossible

/-- A database with one agent, who is online. -/
def dbOnline : Database :=
  Database.empty.apply (.insert TableName.agentPresence ⟨2, true, some 0, some 0, 0, 0⟩ : SqlWrite)

/-- A ping has asked whether the agent is online; the agent goes offline; the ping goes on. -/
def pingedAcross : List (Event Operation) :=
  [.spawn (.ping 2 ⟨5, 5⟩), Sample.act 0, .spawn (.offline Sample.core 2)] ++
    List.replicate 6 (Sample.act 1) ++
    List.replicate 6 (Sample.act 0)

/-- The agent whom the call took offline, once it has returned. -/
def leaver (call : ServiceCall) : Option ℕ :=
  match call.op, call.prog with
  | .offline _ agentId, .done (.ok .nothing) => some agentId
  | _, _ => none

theorem of_leaver {call : ServiceCall} {agentId : ℕ} (isLeaver : leaver call = some agentId) :
    ∃ core, call.op = .offline core agentId ∧ call.prog = .done (.ok .nothing) := by
  unfold leaver at isLeaver
  split at isLeaver
  next core other isOffline isOver =>
    cases isLeaver
    exact ⟨core, isOffline, isOver⟩
  next => cases isLeaver

theorem late_ping_brings_the_agent_back : ¬ OfflineIsFinal Sample.env PresenceCalls := by
  intro final
  have ran : (Pool.play (code Sample.env)
      (fun p e => decide (PresenceCalls p e ∧ ∀ op ∈ Pool.starts e, ¬GoesOnline 2 op)) pingedAcross
      (Pool.quiet dbOnline Sample.shared)).map (fun p =>
        (p.side.presence.geo.map Prod.fst, p.calls.map leaver, p.Idle)) =
      some ([2], [none, some 2], true) := by decide +kernel
  obtain ⟨p, played, facts⟩ := Option.map_eq_some_iff.1 ran
  simp only [Prod.mk.injEq] at facts
  obtain ⟨placed, leavers, idle⟩ := facts
  have reached : Pool.Reach (code Sample.env) (WithoutOnline 2 PresenceCalls)
      (Pool.quiet dbOnline Sample.shared) p := by
    refine Pool.reach_of_play (fun p e passed => ?_) played
    obtain ⟨isPresence, notOnline⟩ := of_decide_eq_true passed
    exact ⟨isPresence, fun point isOnline =>
      notOnline (.online 2 point) (by simp [isOnline, Pool.starts]) ⟨point, rfl⟩⟩
  -- The second call is the one that went offline.
  have second : (p.calls.map leaver)[1]? = some (some 2) := by rw [leavers]; rfl
  rw [List.getElem?_map, Option.map_eq_some_iff] at second
  obtain ⟨call, found, isLeaver⟩ := second
  obtain ⟨core, isOffline, isOver⟩ := of_leaver isLeaver
  have hidden :=
    final dbOnline Sample.shared 2 _ p .refl (fun call none => absurd none List.not_mem_nil) reached
    ⟨1, call, core, Nat.zero_le 1, found, isOffline, isOver⟩ fun call member _ =>
      List.all_eq_true.1 idle call member
  exact hidden.away (by simp [Placed, placed])

end SwiftBite.Verified.Offline
