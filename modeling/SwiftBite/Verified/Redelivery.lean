import SwiftBite.Store.Decisive
import SwiftBite.Verified.Webhooks

/-! # Deliveries of one event

The provider delivers an event any number of times.  Its row in `payment_webhook_events` is
written in the transaction that does the event's work, under a unique index, so the first
delivery to commit is the only one that changes anything.  A delivery that fails marks its
event outside the rolled back transaction; the id it has drawn for the event is its own, so
there is no row to mark.
-/

set_option autoImplicit false

namespace SwiftBite.Verified.Redelivery

open Store Protocol Verified Statement KashierWebhookService

abbrev eventOf (db : Database) (id : ℕ) : Option WebhookEvent :=
  (db .paymentWebhookEvents).get (RowKey.id id)

/-- The event is recorded, with everything that was done about it. -/
def EventRecorded (db : Database) (providerEventId : String) : Prop :=
  db.Indexed TableName.paymentWebhookEvents (UniqueKey.webhookEvent 1 providerEventId)

theorem EventRecorded.later {db db' : Database} {providerEventId : String}
    (recorded : EventRecorded db providerEventId) (grows : db.Grows db') :
    EventRecorded db' providerEventId :=
  grows.entries _ _ recorded

/-- The payload names an order that is there. -/
def Names (known : ℕ → Prop) (payload : WebhookPayload) : Prop :=
  ∃ publicId, payload.merchantOrderId = .uuid publicId ∧ known publicId

/-- Which call has drawn an id for its event. -/
abbrev Drawn := ℕ → Option ℕ

/-- What the other calls leave to call `i`: the ids that it has drawn. -/
structure Leaves (i : ℕ) (w w' : World RowOf Shared Drawn) : Prop where
  drawn : ∀ id k, w.ghost id = some k → w'.ghost id = some k
  absent : ∀ id, w.ghost id = some i → eventOf w.db id = none → eventOf w'.db id = none
  grows : w.db.Grows w'.db

/-- One event of call `i`: it records no event but under an id of its own, and it changes
something only together with recording the event. -/
structure Does (i : ℕ) (op : Operation) (w w' : World RowOf Shared Drawn) : Prop where
  drawn : ∀ id k, w.ghost id = some k → w'.ghost id = some k
  own : ∀ id, eventOf w.db id = none → eventOf w'.db id = none ∨ w.ghost id = some i
  grows : w.db.Grows w'.db
  effect : w'.db = w.db ∨ ∃ payload signature signatureValid,
    op = .webhook payload signature signatureValid ∧
    ¬EventRecorded w.db payload.providerEventId ∧ EventRecorded w'.db payload.providerEventId

theorem Leaves.refl (i : ℕ) (w : World RowOf Shared Drawn) : Leaves i w w :=
  ⟨fun _ _ => id, fun _ _ => id, .refl _⟩

theorem Leaves.trans {i : ℕ} {w w' w'' : World RowOf Shared Drawn} (first : Leaves i w w')
    (second : Leaves i w' w'') : Leaves i w w'' :=
  ⟨fun id k isDrawn => second.drawn id k (first.drawn id k isDrawn),
    fun id isDrawn none =>
      second.absent id (first.drawn id i isDrawn) (first.absent id isDrawn none),
    first.grows.trans second.grows⟩

theorem Does.same {i : ℕ} {op : Operation} {w w' : World RowOf Shared Drawn} (same : w'.db = w.db)
    (drawn : ∀ id k, w.ghost id = some k → w'.ghost id = some k) : Does i op w w' :=
  ⟨drawn, fun id none => .inl (by rw [eventOf, same]; exact none),
    by rw [same]; exact .refl _, .inl same⟩

def IsWebhook : Operation → Prop
  | .webhook .. => True
  | _ => False

/-- A delivery that has returned leaves its event recorded, if it found the order. -/
def Acknowledged (known : ℕ → Prop) (db : Database) (op : Operation)
    (result : Except Err Reply) : Prop :=
  ∀ payload signature signatureValid reply, op = .webhook payload signature signatureValid →
  result = .ok reply →
    Names known payload → EventRecorded db payload.providerEventId

def protocol (known : ℕ → Prop) :
    Protocol (K := RowKey) RowOf Shared Err Operation Reply Drawn where
  inv s := (∀ id, s.side.seq .paymentWebhookEvents ≤ id → s.ghost id = none) ∧
    ∀ publicId, known publicId → s.db.Indexed TableName.orders (UniqueKey.orderPublicId publicId)
  guar i op w w' := Does i op w w'
  rely i _ w w' := Leaves i w w'
  post _ op result w := Acknowledged known w.db op result
  allow _ _ _ := True
  faulty _ := True
  admits := IsWebhook
  apart _ _ _ := True

variable {known : ℕ → Prop}

theorem lawful : (protocol known).Lawful where
  guar_refl _ _ _ := .same rfl fun _ _ => id
  rely_refl i _ w := .refl i w
  rely_trans first second := first.trans second
  rely_of_guar distinct _ _ _ does := by
    refine ⟨does.drawn, fun id isDrawn none => ?_, does.grows⟩
    rcases does.own id none with still | other
    · exact still
    · exact absurd (Option.some.inj (isDrawn.symm.trans other)) distinct
  post_stable _ _ does acknowledged payload signature signatureValid reply isOp isReply names :=
    (acknowledged payload signature signatureValid reply isOp isReply names).later does.grows
  inv_spawn holds _ _ := holds
  inv_crash _ _ holds := ⟨holds, fun _ _ _ _ _ isReply => nomatch isReply⟩

theorem free (i : ℕ) (op : Operation) : (protocol known).Free i op Later :=
  fun _ _ later holds => ⟨⟨fun id beyond => holds.1 id ((later.seq _).trans beyond), holds.2⟩,
    .same rfl fun _ _ => id, fun _ _ => id, fun _ _ => id, .refl _⟩

section Calls

variable {i : ℕ} {op : Operation} {payload : WebhookPayload} {signature : String}
  {signatureValid : Bool}
  {l : Local RowOf RowKey} {s : Sit RowOf Shared Operation Drawn}

/-- The id of the event belongs to the call that has drawn it. -/
theorem wp_draw {Q : Except Err ℕ → Local RowOf RowKey → Sit RowOf Shared Operation Drawn → Prop}
    (holds : (protocol known).inv s)
    (next : ∀ id s', (protocol known).Env i op ⟨none, []⟩ s s' → s'.ghost id = some i →
      Q (.ok id) l s') : (protocol known).wp i op (nextval .paymentWebhookEvents) Q l s := by
  have fresh : s.ghost (s.side.seq .paymentWebhookEvents) = none := holds.1 _ le_rfl
  have kept : ∀ id k, s.ghost id = some k →
      Function.update s.ghost (s.side.seq .paymentWebhookEvents) (some i) id = some k := by
    intro id k isDrawn
    rw [Function.update_of_ne fun same => by rw [same, fresh] at isDrawn; cases isDrawn]
    exact isDrawn
  have moved : ∀ x, Leaves i s.toWorld
      ⟨s.db, x, Function.update s.ghost (s.side.seq .paymentWebhookEvents) (some i)⟩ :=
    fun _ => ⟨kept, fun _ _ none => none, .refl _⟩
  refine ⟨⟨Function.update s.ghost (s.side.seq .paymentWebhookEvents) (some i),
    ⟨fun id beyond => ?_, holds.2⟩,
    .same rfl kept, fun s' env => ?_⟩, fun impossible => nomatch impossible⟩
  · simp only [Function.update_self] at beyond
    have other : id ≠ s.side.seq .paymentWebhookEvents := by omega
    show Function.update s.ghost _ (some i) id = none
    rw [Function.update_of_ne other]
    exact holds.1 id (by omega)
  · refine next _ s' ⟨⟨(moved _).trans env.drift.1, fun _ none => absurd none List.not_mem_nil⟩,
      env.inv, env.self⟩ ?_
    exact env.drift.1.drawn _ _ (Function.update_self ..)

theorem unrecorded_of_free {db : Database} {row : WebhookEvent} (isKashier : row.providerId = 1)
    (unclaimed : (db .paymentWebhookEvents).conflicts row = false) :
    ¬EventRecorded db row.providerEventId := by
  intro recorded
  have entry : UniqueKey.webhookEvent 1 row.providerEventId ∈ uniques row := by
    simp [uniques, isKashier]
  have taken : (db .paymentWebhookEvents).conflicts row = true :=
    Db.conflicts_eq_true.2 (.inr ⟨_, entry, recorded⟩)
  rw [unclaimed] at taken
  cases taken

theorem recorded_of_commit {db : Database} {row : WebhookEvent} {ws : List SqlWrite}
    (isKashier : row.providerId = 1)
    (unclaimed : (db .paymentWebhookEvents).conflicts row = false) :
    EventRecorded (db.applyAll ([.insert TableName.paymentWebhookEvents row] ++ ws))
      row.providerEventId := by
  refine EventRecorded.later ⟨row, ?_, ?_⟩
    (Db.grows_applyAll (db.apply (.insert TableName.paymentWebhookEvents row)) ws)
  · rw [Db.apply_insert_self]
    exact Table.mem_insert_self unclaimed
  · simp [uniques, isKashier]

/-- Only the call's own row of the events may have come to be there. -/
theorem absent_of_commit {db : Database} {row : WebhookEvent} {ws : List SqlWrite} {id : ℕ}
    (other : id ≠ row.id)
    (bounded : ∀ w ∈ ws, elsewhere w ∨
      ∃ f, w = .update TableName.paymentWebhookEvents (RowKey.id row.id) f)
    (absent : eventOf db id = none) :
    eventOf (db.applyAll ([.insert TableName.paymentWebhookEvents row] ++ ws)) id = none := by
  have untouched : Entry.row TableName.paymentWebhookEvents (RowKey.id id) ∉
      (entriesOf ([.insert TableName.paymentWebhookEvents row] ++ ws) : List
      (Entry TableName RowKey UniqueKey)) := by
    rw [List.mem_flatMap]
    rintro ⟨w, member, entry⟩
    rcases List.mem_append.1 member with own | later
    · rw [List.mem_singleton.1 own] at entry
      simp [Write.entries, key, other] at entry
    · rcases bounded w later with isElsewhere | ⟨f, rfl⟩
      · exact isElsewhere (Write.table_of_row_mem entry)
      · simp [Write.entries, other] at entry
  exact Eq.trans (Db.agree_applyAll untouched db) absent

/-- What is left to do when a delivery has failed. -/
structure GivingUp (known : ℕ → Prop) (i id : ℕ) (s : Sit RowOf Shared Operation Drawn) : Prop where
  inv : (protocol known).inv s
  drawn : s.ghost id = some i
  absent : eventOf s.db id = none

theorem GivingUp.later {id : ℕ} {l : Local RowOf RowKey} {s' : Sit RowOf Shared Operation Drawn}
    (giving : GivingUp known i id s)
    (env : (protocol known).Env i op l s s') : GivingUp known i id s' :=
  ⟨env.inv, env.drift.1.drawn id i giving.drawn, env.drift.1.absent id giving.drawn giving.absent⟩

/-- The event's work and its commit. -/
theorem wp_handle {row : WebhookEvent} {began : ℕ} {seen : List (Sigma RowOf)}
    (isKashier : row.providerId = 1) (isEvent : row.providerEventId = payload.providerEventId)
    (isOp : op = .webhook payload signature signatureValid) (self : s.live i = some op)
    (giving : GivingUp known i row.id s)
    (unclaimed : (s.db .paymentWebhookEvents).conflicts row = false) :
    (protocol known).wp i op (handleEvent payload row.id) (fun result _ s' => match result with
      | .ok _ => (protocol known).inv s' ∧ EventRecorded s'.db payload.providerEventId
      | .error _ => GivingUp known i row.id s')
        ⟨some ⟨began, [.insert TableName.paymentWebhookEvents row]⟩, seen⟩ s := by
  refine wp_do (wp_quiet lawful (free i op) (quiet_dispatch payload (fun _ _ _ _ => nofun)
    elsewhere_of_work) giving.inv self fun result ws rows s₁ writes _ env₁ => ?_)
  cases result with
  | error err => exact giving.later env₁
  | ok _ =>
    have marks : (markWebhookEventProcessed .trx row.id none).Quiet
        (within (fun w => ∃ f, w = .update TableName.paymentWebhookEvents (RowKey.id row.id) f)
        fun _ => True) :=
      quiet_markWebhookEventProcessed row.id none (fun _ => ⟨_, rfl⟩) fun _ => trivial
    refine wp_do (wp_quiet lawful (free i op) marks env₁.inv env₁.self
      fun result ws' rows' s₂ writes' _ env₂ => ?_)
    cases result with
    | error err => exact (giving.later env₁).later env₂
    | ok _ =>
      have until₂ := env₁.trans lawful ⟨env₂.drift.shrink, env₂.inv, env₂.self⟩
      -- Nobody else has inserted an event with this id meanwhile.
      have still := free_later until₂ List.mem_cons_self unclaimed
      have giving₂ := giving.later until₂
      have bounded : ∀ w ∈ ws ++ ws', elsewhere w ∨
          ∃ f, w = .update TableName.paymentWebhookEvents (RowKey.id row.id) f := by
        intro w member
        exact (List.mem_append.1 member).imp (writes w) (writes' w)
      have commits : ∀ db : Database,
          db.applyAll ([.insert TableName.paymentWebhookEvents row] ++ ws ++ ws') =
          db.applyAll ([.insert TableName.paymentWebhookEvents row] ++ (ws ++ ws')) :=
            fun db => by rw [List.append_assoc]
      have grows := Db.grows_applyAll s₂.db
        ([.insert TableName.paymentWebhookEvents row] ++ ws ++ ws' : List SqlWrite)
      have recorded : EventRecorded
          (s₂.db.applyAll ([.insert TableName.paymentWebhookEvents row] ++ ws ++ ws'))
          payload.providerEventId := by
        rw [commits, ← isEvent]
        exact recorded_of_commit isKashier still
      refine ⟨fun _ => ⟨s₂.ghost, ⟨giving₂.inv.1, fun publicId isKnown => ?_⟩,
        ⟨fun _ _ => id, fun id absent => ?_, grows, .inr ?_⟩,
        fun s₃ env₃ => ⟨env₃.inv, recorded.later env₃.drift.1.grows⟩⟩,
          fun _ s₃ env₃ => giving₂.later env₃⟩
      · exact grows.entries _ _ (giving₂.inv.2 publicId isKnown)
      · -- The only event that is new is the one of this call, and its id was drawn.
        by_cases own : id = row.id
        · exact .inr (own ▸ giving₂.drawn)
        · refine .inl ?_
          show eventOf (s₂.db.applyAll
              ([.insert TableName.paymentWebhookEvents row] ++ ws ++ ws')) id = none
          rw [commits]
          exact absent_of_commit own bounded absent
      · exact ⟨payload, signature, signatureValid, isOp,
          isEvent ▸ unrecorded_of_free isKashier still, recorded⟩

/-- How a delivery ends. -/
def Ends (known : ℕ → Prop) (payload : WebhookPayload) (result : Except Err Unit)
    (s' : Sit RowOf Shared Operation Drawn) : Prop :=
  (protocol known).inv s' ∧ ∀ value, result = .ok value → Names known payload →
  EventRecorded s'.db payload.providerEventId

theorem ends_of_error {err : Err} (holds : (protocol known).inv s) :
    Ends known payload (.error err) s :=
  ⟨holds, fun _ isOk => nomatch isOk⟩

/-- The rollback leaves no row of the event, so there is nothing to mark. -/
theorem wp_giveUp {id : ℕ} {err : Err} (giving : GivingUp known i id s) :
    (protocol known).wp i op (do
      .rollbackTrx
      orElse (markWebhookEventProcessed .pool id (some err.message)) ()
      throw err : Service Unit) (fun result _ s' => Ends known payload result s') l s := by
  refine wp_do (fun s₁ env₁ => wp_do (wp_tryCatch (wp_do ?_)))
  refine wp_nowIso lawful (free i op) env₁.inv fun processedAt s₂ env₂ => wp_do ?_
  have giving₂ := (giving.later env₁).later env₂
  refine wp_updateByKey_conn lawful giving₂.inv (fun _ row found => ?_) (fun _ s₃ env₃ => ?_)
    fun _ s₃ env₃ => ?_
  · have absent := giving₂.absent
    rw [eventOf, found] at absent
    cases absent
  · exact ends_of_error env₃.inv
  · exact ends_of_error env₃.inv

theorem wp_rollbackAndThrow {err : Err} :
    (protocol known).wp i op (rollbackAndThrow err : Service Unit)
      (fun result _ s' => Ends known payload result s') l s :=
  fun _ env => ends_of_error env.inv

/-- The transaction of the event, from the insertion of its row. -/
theorem wp_processEvent {began : ℕ} {seen : List (Sigma RowOf)}
    (isOp : op = .webhook payload signature signatureValid) (holds : (protocol known).inv s) :
    (protocol known).wp i op (processEvent payload signature 1)
      (fun result _ s' => Ends known payload result s') ⟨some ⟨began, []⟩, seen⟩ s := by
  refine wp_do (wp_tryCatch (wp_do (wp_draw holds fun id s₁ env₁ isDrawn => wp_do ?_)))
  refine wp_insertIgnore_trx lawful env₁.inv (fun old among isTarget s₂ env₂ => ?_)
    (fun _ unclaimed _ s₂ env₂ => ?_)
    fun _ s₂ env₂ => ?_
  · simp only [Bool.and_eq_true, decide_eq_true_eq] at isTarget
    have recorded : EventRecorded s₂.db payload.providerEventId :=
      EventRecorded.later ⟨old, among, by simp [uniques, isTarget]⟩ env₂.drift.1.grows
    refine wp_tryCatch ⟨fun _ => .same lawful env₂.inv fun s₃ env₃ => ?_,
      fun _ s₃ _ => wp_rollbackAndThrow⟩
    exact ⟨env₃.inv, fun _ _ _ => recorded.later env₃.drift.1.grows⟩
  · have giving₁ : GivingUp known i id s₁ :=
      ⟨env₁.inv, isDrawn, Table.get_eq_none_of_free unclaimed⟩
    have still := free_later env₂ List.mem_cons_self unclaimed
    refine wp_tryCatch (wp_mono ?_ (wp_handle rfl rfl isOp env₂.self (giving₁.later env₂) still))
    intro result l' s₃ ended
    cases result with
    | ok value => exact ⟨ended.1, fun _ _ _ => ended.2⟩
    | error err => exact wp_giveUp ended
  · exact wp_rollbackAndThrow

theorem wp_process (isOp : op = .webhook payload signature signatureValid)
    (holds : (protocol known).inv s) (self : s.live i = some op) :
    (protocol known).wp i op (process payload signature signatureValid)
      (fun result _ s' => Ends known payload result s')
      .start s := by
  refine wp_process_begin lawful holds self (fun _ s' env unknown => ?_)
    (fun _ _ s' env => ?_)
    fun _ _ s' env => ends_of_error env.inv
  · refine ⟨env.inv, fun _ _ ⟨publicId, isUuid, isKnown⟩ => ?_⟩
    exact absurd (holds.2 publicId isKnown) (unknown publicId isUuid)
  · exact wp_processEvent isOp env.inv

end Calls

theorem verified (env : Config) : (protocol known).Verified (code env) := by
  intro i op s s' holds _ admitted _ started
  cases op with
  | webhook payload signature signatureValid =>
    refine wp_do (wp_mono ?_ (wp_process rfl started.inv started.self))
    intro result l s₁ ends
    cases result with
    | error err => exact ⟨ends.1, fun _ _ _ _ _ isReply => nomatch isReply⟩
    | ok value =>
      refine ⟨ends.1, fun payload' signature' signatureValid' reply isOp _ names => ?_⟩
      cases isOp
      exact ends.2 value rfl names
  | _ => exact admitted.elim

/-! ## Deliveries commit last -/

/-- What a delivery writes outside its transaction. -/
def Marks : SqlWrite → Prop :=
  fun w => ∃ id f, w = .update TableName.paymentWebhookEvents (RowKey.id id) f

theorem uncommitted_mark (id : ℕ) (err : Err) :
    (orElse (markWebhookEventProcessed .pool id (some err.message)) ()).Uncommitted Marks := by
  have marks : ∀ processedAt, Prog.Within (within Marks fun _ => True)
      (updateByKey TableName.paymentWebhookEvents (RowKey.id id)
      (WebhookEvent.processed processedAt (some err.message))) :=
    fun _ => .updateByKey ⟨_, _, rfl⟩ fun _ => trivial
  refine Prog.Uncommitted.tryCatch
    (Prog.Uncommitted.bind (Prog.Quiet.uncommitted (b := idle) quiet_nowIso) fun processedAt => ?_)
    fun _ => trivial
  exact Prog.Uncommitted.bind ⟨.within (marks processedAt), fun _ => trivial⟩ fun _ => trivial

theorem decisive_processEvent (payload : WebhookPayload) (signature : String)
    (kashierProvider : ℕ) : (processEvent payload signature kashierProvider).Decisive Marks := by
  have records : ∀ data, (recordWebhookEventIfNew .trx data).Quiet anything := fun data =>
    (quiet_nextval _).bind fun _ =>
      Prog.Quiet.map (.exec (.insertIgnore (fun _ => trivial) fun _ => trivial))
  refine .bind (Prog.Uncommitted.tryCatch (records _).uncommitted fun _ => trivial)
    fun recorded => ?_
  cases recorded with
  | none => exact .tryCatch .commitTrx fun _ => trivial
  | some id =>
    refine .tryCatch ?_ fun err => .bind trivial fun _ =>
      .bind (uncommitted_mark id err) fun _ => .throw
    refine .bind (Prog.Quiet.uncommitted (b := within elsewhere fun _ => True)
      (quiet_dispatch payload (fun _ _ _ _ => nofun)
      elsewhere_of_work)) fun _ => ?_
    exact .bind (quiet_marks id).uncommitted fun _ => .commitTrx

theorem decisive (env : Config) (op : Operation) (isWebhook : IsWebhook op) :
    (code env op).Decisive Marks := by
  cases op with
  | webhook payload signature signatureValid =>
    refine Prog.Decisive.map (f := fun _ => Reply.nothing)
      (.bind (Prog.Quiet.uncommitted (b := idle) (quiet_throwIf _ _)) fun _ => ?_)
    refine .bind (Prog.Quiet.uncommitted (b := reading) (quiet_resolveOrder _)) fun order => ?_
    cases order with
    | none => exact .pure
    | some order =>
      refine .bind (Prog.Quiet.uncommitted (b := idle)
        (quiet_findPaymentProviderByName .pool "kashier")) fun provider => ?_
      cases provider with
      | none => exact .throw
      | some kashierProvider =>
        exact .bind (fun _ => trivial) fun _ =>
          decisive_processEvent payload signature kashierProvider
  | _ => exact isWebhook.elim

/-! ## Runs -/

/-- Deliveries of any events, with any faults and crashes. -/
def Deliveries (_ : Region) (e : Event Operation) : Prop := Serves IsWebhook e

theorem admissible (p : Region) (e : Event Operation) (allowed : Deliveries p e) :
    (protocol known).Admissible p e := by
  cases e with
  | spawn op => exact ⟨allowed, fun _ _ _ => ⟨trivial, trivial⟩⟩
  | step i choice =>
    exact ⟨fun _ _ _ _ _ _ _ => trivial,
      fun call found => ⟨fun _ => trivial, fun out acts => trivial⟩⟩
  | crash i => exact fun _ _ => trivial

/-- The orders of a state. -/
def OrdersOf (db : Database) (publicId : ℕ) : Prop :=
  db.Indexed TableName.orders (UniqueKey.orderPublicId publicId)

theorem sound_of_deliveries {env : Config} {db : Database} {x : Shared} {p : Region}
    (reached : Pool.Reach (code env) Deliveries (Pool.quiet db x) p) :
    ∃ drawn, (protocol (OrdersOf db)).Sound p drawn :=
  sound_of_reach lawful (verified env) admissible
    (sound_quiet (fun _ => none) ⟨fun _ _ => rfl, fun _ isKnown => isKnown⟩) reached

/-- A call that delivers this event. -/
def Delivers (providerEventId : String) (op : Operation) : Prop :=
  ∃ payload signature signatureValid, op = .webhook payload signature signatureValid ∧
    payload.providerEventId = providerEventId

/-- The event's one commit: it was not recorded, everything its call has written is committed
together, and the call has returned. -/
structure Commits (p p' : Region) (i : ℕ)
    (call : Call (K := RowKey) RowOf Shared Err Operation Reply)
    (providerEventId : String) : Prop where
  before : ¬EventRecorded p.db providerEventId
  after : EventRecorded p'.db providerEventId
  whole : p'.db = p.db.applyAll call.loc.writes
  returned : ∃ ended reply, p'.calls[i]? = some ended ∧ ended.prog = .done (.ok reply)

theorem grows_of_conforms {p p' : Region} {e : Event Operation}
    (conforms : (protocol known).Conforms p e p') : p.db.Grows p'.db := by
  cases e with
  | spawn op => rw [conforms.1]; exact .refl _
  | crash i => rw [conforms.1]; exact .refl _
  | step i choice =>
    obtain ⟨call, ghost, ghost', _, _, does⟩ := conforms
    exact does.grows

/-- Marking an event records none. -/
theorem recorded_of_marks {db : Database} {ws : List SqlWrite} (marks : ∀ w ∈ ws, Marks w)
    {providerEventId : String} :
    EventRecorded (db.applyAll ws) providerEventId ↔ EventRecorded db providerEventId := by
  have untouched :
      Entry.index TableName.paymentWebhookEvents (UniqueKey.webhookEvent 1 providerEventId) ∉
      (entriesOf ws : List (Entry TableName RowKey UniqueKey)) := by
    rw [List.mem_flatMap]
    rintro ⟨w, member, entry⟩
    obtain ⟨id, f, rfl⟩ := marks w member
    simp [Write.entries] at entry
  exact Db.agree_applyAll untouched db

theorem commits_or_same {env : Config} {p p' : Region} {i : ℕ} {choice : Choice}
    {call : Call (K := RowKey) RowOf Shared Err Operation Reply} {providerEventId : String}
    (deciding : p.Deciding Marks IsWebhook) (moves : p.next (code env) (.step i choice) = some p')
    (conforms : (protocol known).Conforms p (.step i choice) p') (found : p.calls[i]? = some call)
    (delivers : Delivers providerEventId call.op) :
    p'.db = p.db ∨ Commits p p' i call providerEventId := by
  obtain ⟨payload, signature, signatureValid, isOp, rfl⟩ := delivers
  obtain ⟨before, after, isBefore, isAfter, _, event⟩ := Pool.deciding_step deciding moves
  obtain rfl : before = call := Option.some.inj (isBefore.symm.trans found)
  obtain ⟨call', ghost, ghost', found', _, does⟩ := conforms
  obtain rfl : before = call' := Option.some.inj (found.symm.trans found')
  refine does.effect.imp id
    fun ⟨payload', signature', signatureValid', isOp', unrecorded, recorded⟩ => ?_
  rw [isOp] at isOp'
  cases isOp'
  rcases event (by rw [isOp]; trivial) with ⟨ws, marks, same⟩ | ⟨⟨reply, returned⟩, whole⟩
  · have still : EventRecorded p'.db payload.providerEventId ↔
        EventRecorded p.db payload.providerEventId := by
      rw [same]
      exact recorded_of_marks marks
    exact absurd (still.1 recorded) unrecorded
  · exact ⟨unrecorded, recorded, whole, after, reply, isAfter, returned⟩

/-- A delivery that throws has left the committed state alone in each of its events. -/
theorem same_of_thrown {env : Config} {p p' p'' : Region} {i : ℕ}
    {call after : Call (K := RowKey) RowOf Shared Err Operation Reply} {providerEventId : String}
    {err : Err} (event : p'.db = p.db ∨ Commits p p' i call providerEventId)
    (later : Pool.Reach (code env) Deliveries p' p'') (isAfter : p''.calls[i]? = some after)
    (thrown : after.prog = .done (.error err)) : p'.db = p.db := by
  rcases event with same | commits
  · exact same
  · obtain ⟨ended, reply, isEnded, returned⟩ := commits.returned
    have stays := Pool.done_of_reach later isEnded returned
    obtain rfl : ended = after := Option.some.inj (stays.symm.trans isAfter)
    rw [returned] at thrown
    cases thrown

theorem recorded_of_reach {env : Config} {db : Database} {x : Shared} {p p' : Region}
    (start : Pool.Reach (code env) Deliveries (Pool.quiet db x) p)
    (reached : Pool.Reach (code env) Deliveries p p') {providerEventId : String}
    (recorded : EventRecorded p.db providerEventId) : EventRecorded p'.db providerEventId := by
  induction reached with
  | refl => exact recorded
  | step before condition moves inductionHypothesis =>
    obtain ⟨drawn, sound⟩ := sound_of_deliveries (start.trans before)
    exact inductionHypothesis.later
      (grows_of_conforms
      (sound_next lawful (verified env) sound (admissible _ _ condition) moves).2)

theorem deliveries_are_exactly_once (env : Config) (db : Database) (x : Shared) (p : Region)
    (reached : Pool.Reach (code env) Deliveries (Pool.quiet db x) p) :
    (∀ call ∈ p.calls, ∀ payload signature signatureValid reply,
      call.op = .webhook payload signature signatureValid →
      call.prog = .done (.ok reply) → Names (OrdersOf db) payload →
      EventRecorded p.db payload.providerEventId) ∧
    ∀ e p', Deliveries p e → p.next (code env) e = some p' →
      ((∀ i choice, e ≠ .step i choice) → p'.db = p.db) ∧
      ∀ i choice call providerEventId, e = .step i choice → p.calls[i]? = some call →
      Delivers providerEventId call.op →
        (p'.db = p.db ∨ Commits p p' i call providerEventId) ∧
        (EventRecorded p.db providerEventId → p'.db = p.db) ∧
        ∀ p'', Pool.Reach (code env) Deliveries p' p'' →
          (∀ ended err, p''.calls[i]? = some ended → ended.prog = .done (.error err) →
            p'.db = p.db) ∧
          (p'.db ≠ p.db → ∀ j choice' other p''', p''.calls[j]? = some other →
            Delivers providerEventId other.op →
            p''.next (code env) (.step j choice') = some p''' → p'''.db = p''.db) := by
  obtain ⟨drawn, sound⟩ := sound_of_deliveries reached
  -- A step of a delivery is its one commit, or changes nothing.
  have event : ∀ {q q' : Region} {i : ℕ} {choice : Choice}
      {call : Call (K := RowKey) RowOf Shared Err Operation Reply}
      {providerEventId : String}, Pool.Reach (code env) Deliveries (Pool.quiet db x) q →
      q.next (code env) (.step i choice) = some q' → q.calls[i]? = some call →
      Delivers providerEventId call.op →
      q'.db = q.db ∨ Commits q q' i call providerEventId := by
    intro q q' i choice call providerEventId start moves found delivers
    obtain ⟨drawn', sound'⟩ := sound_of_deliveries start
    exact commits_or_same (Pool.deciding_of_reach (decisive env) start) moves
      (sound_next lawful (verified env) sound' (admissible q (.step i choice) trivial) moves).2
      found delivers
  refine ⟨fun call member payload signature signatureValid reply isOp isDone names => ?_,
    fun e p' permitted moves => ?_⟩
  · obtain ⟨i, found⟩ := List.getElem?_of_mem member
    exact (sound.fine i call found).2 _ isDone payload signature signatureValid reply isOp rfl names
  · refine ⟨fun noStep => ?_, fun i choice call providerEventId isStep found delivers => ?_⟩
    · cases e with
      | spawn op => cases moves; rfl
      | crash i => obtain ⟨call, _, _, rfl⟩ := Pool.crashCall_inv moves; rfl
      | step i choice => exact absurd rfl (noStep i choice)
    subst isStep
    have does := event reached moves found delivers
    refine ⟨does, fun recorded => ?_,
      fun p'' later => ⟨fun ended err isEnded thrown => ?_, fun changed => ?_⟩⟩
    · exact does.resolve_right fun commits => commits.before recorded
    · exact same_of_thrown does later isEnded thrown
    · intro j choice' other p''' isOther delivers' moves'
      -- Once the event is on record, no later delivery of it commits.
      have recorded := (does.resolve_left changed).after
      have still := recorded_of_reach (reached.step permitted moves) later recorded
      exact (event ((reached.step permitted moves).trans later) moves' isOther
        delivers').resolve_right
        fun commits => commits.before still

instance : DecidablePred IsWebhook
  | .webhook .. => inferInstanceAs (Decidable True)
  | .placeOrder .. | .updateOrderStatus .. | .initPayment .. | .refund .. | .assign ..
  | .tryAutoAssign .. | .reassign ..
  | .updateDeliveryStatus .. | .online .. | .offline .. | .ping .. | .recordPayout .. | .sleep .. =>
    inferInstanceAs (Decidable False)

/-- Two deliveries of a capture; the first fails when it inserts the charge. -/
def sampleSchedule : List (Event Operation) :=
  [.spawn (.webhook (Sample.payEvent "SUCCESS" "a") "s" true),
    .spawn (.webhook (Sample.payEvent "SUCCESS" "a") "s" true)] ++
    List.replicate 10 (Sample.act 0) ++ [.step 0 .fault] ++ List.replicate 3 (Sample.act 0) ++
      List.replicate 23 (Sample.act 1)

/-- The call has thrown. -/
def thrown (call : Call (K := RowKey) RowOf Shared Err Operation Reply) : Bool :=
  match call.prog with
  | .done (.error _) => true
  | _ => false

/-- The call delivers this payload. -/
def carries (payload : WebhookPayload)
    (call : Call (K := RowKey) RowOf Shared Err Operation Reply) : Bool :=
  match call.op with
  | .webhook payload' _ _ => payload' = payload
  | _ => false

theorem redelivery_after_a_failure :
    ∃ p, Pool.Reach (code Sample.env) Deliveries
    (Pool.quiet (Sample.dbPaying .initialized) Sample.shared) p ∧
    p.calls.map thrown = [true, false] ∧
    EventRecorded p.db (Sample.payEvent "SUCCESS" "a").providerEventId ∧
    statusOf 1 p = some .placed := by
  have played : (Pool.play (code Sample.env) (fun _ e => decide (Serves IsWebhook e)) sampleSchedule
      (Pool.quiet (Sample.dbPaying .initialized) Sample.shared)).map (fun p => (p.calls.map thrown,
        p.calls.all fun call => Pool.Ended call && carries (Sample.payEvent "SUCCESS" "a") call,
        statusOf 1 p)) =
      some ([true, false], true, some .placed) := by decide +kernel
  obtain ⟨p, isRun, outcome⟩ := Option.map_eq_some_iff.1 played
  simp only [Prod.mk.injEq, List.all_eq_true, Bool.and_eq_true] at outcome
  obtain ⟨results, calls, status⟩ := outcome
  have reached : Pool.Reach (code Sample.env) Deliveries
      (Pool.quiet (Sample.dbPaying .initialized) Sample.shared) p :=
    Pool.reach_of_play
      (fun _ _ checked => show Serves IsWebhook _ from of_decide_eq_true checked) isRun
  refine ⟨p, reached, results, ?_, status⟩
  obtain ⟨call, member, succeeded⟩ : ∃ call ∈ p.calls, thrown call = false := by
    rw [← List.mem_map, results]
    decide
  obtain ⟨ended, isCarried⟩ := calls call member
  have named : Names (OrdersOf (Sample.dbPaying .initialized)) (Sample.payEvent "SUCCESS" "a") :=
    ⟨100, rfl, Sample.onlineOrder, List.mem_singleton.2 rfl, List.mem_singleton.2 rfl⟩
  unfold carries at isCarried
  split at isCarried
  swap
  · cases isCarried
  next payload signature signatureValid isOp =>
    obtain rfl := of_decide_eq_true isCarried
    obtain ⟨result, isDone⟩ := Pool.ended_iff.1 ended
    cases result with
    | error err => simp [thrown, isDone] at succeeded
    | ok reply =>
      exact (deliveries_are_exactly_once Sample.env _ Sample.shared p reached).1 call member _
        signature signatureValid reply
        isOp isDone named

end SwiftBite.Verified.Redelivery
