import SwiftBite.Store.Inside
import SwiftBite.Verified.Alone
import SwiftBite.Verified.PaymentSteps
import SwiftBite.Verified.Webhooks

/-! # A webhook that runs alone

Ids come from sequences and event ids are new UUIDs, so of the insertions that a webhook makes
only that of the charge can fail: its key is made of the provider's transaction id.
-/

set_option autoImplicit false

namespace SwiftBite.Verified.WebhookAlone

open Store Prog Statement KashierWebhookService

/-- The tables in which a webhook inserts. -/
def numbered : List TableName := [.paymentWebhookEvents, .transactions, .eventsOutbox]

/-- The sequences are ahead of the ids in these tables, and no UUID of the outbox is given again. -/
structure Ahead (db : Database) (x : Shared) : Prop where
  ids : ∀ t ∈ numbered, ∀ row ∈ (db t).rows, ∀ n, key row = RowKey.id n → n < x.seq t
  uuids : ∀ row ∈ (db .eventsOutbox).rows, ∀ eventId, UniqueKey.outboxEvent eventId ∈ uniques row →
    eventId < x.uuids

section

variable {db view : Database} {x x' : Shared} {t : TableName}

theorem Ahead.later (ahead : Ahead db x) (later : Later x x') : Ahead db x' :=
  ⟨fun t among row member n isKey => (ahead.ids t among row member n isKey).trans_le (later.seq t),
    fun row member eventId entry => (ahead.uuids row member eventId entry).trans_le later.uuids⟩

/-- Updates change no id. -/
theorem Ahead.update (ahead : Ahead db x) (t : TableName) (k : RowKey) (f : RowOf t → RowOf t) :
    Ahead (db.apply (.update t k f)) x := by
  have old : ∀ t' row, row ∈ (db.apply (.update t k f) t').rows →
      ∃ row' ∈ (db t').rows, key row' = key row ∧ uniques row' = uniques row := by
    intro t' row member
    by_cases same : t' = t
    · subst same
      rw [Db.apply_update_self] at member
      obtain ⟨row', among, isRow⟩ := Table.mem_modify.1 member
      exact ⟨row', among, by rw [← isRow]; simp⟩
    · rw [Db.apply_update_ne db k f same] at member
      exact ⟨row, member, rfl, rfl⟩
  constructor
  · intro t' among row member n isKey
    obtain ⟨row', member', sameKey, _⟩ := old t' row member
    exact ahead.ids t' among row' member' n (sameKey.trans isKey)
  · intro row member eventId entry
    obtain ⟨row', member', _, sameUniques⟩ := old _ row member
    exact ahead.uuids row' member' eventId (sameUniques ▸ entry)

theorem Ahead.insert (ahead : Ahead db x) {row : RowOf t}
    (isId : ∀ n, key row = RowKey.id n → n < x.seq t)
    (given : ∀ eventId, UniqueKey.outboxEvent eventId ∈ uniques row → eventId < x.uuids) :
    Ahead (db.apply (.insert t row)) x := by
  constructor
  · intro t' among row' member n isKey
    by_cases same : t' = t
    · subst same
      rw [Db.apply_insert_self] at member
      rcases Table.mem_insert member with old | rfl
      · exact ahead.ids t' among row' old n isKey
      · exact isId n isKey
    · rw [Db.apply_insert_ne db row same] at member
      exact ahead.ids t' among row' member n isKey
  · intro row' member eventId entry
    by_cases same : TableName.eventsOutbox = t
    · subst same
      rw [Db.apply_insert_self] at member
      rcases Table.mem_insert member with old | rfl
      · exact ahead.uuids row' old eventId entry
      · exact given eventId entry
    · rw [Db.apply_insert_ne db row same] at member
      exact ahead.uuids row' member eventId entry

/-- A row with the next id can only break another unique index. -/
theorem Ahead.indexed (ahead : Ahead db x) (among : t ∈ numbered) {row : RowOf t}
    (isNext : key row = RowKey.id (x.seq t)) (taken : (db t).conflicts row = true) :
    ∃ entry ∈ uniques row, db.Indexed t entry := by
  rcases Db.conflicts_eq_true.1 taken with there | indexed
  · obtain ⟨other, found⟩ := Option.ne_none_iff_exists'.1 there
    have below :=
      ahead.ids t among other (Table.get_mem found) _ ((Table.get_key found).trans isNext)
    exact absurd below (lt_irrefl _)
  · exact indexed

/-- The shared state once an id is drawn. -/
def drawn (t : TableName) (x : Shared) : Shared :=
  { x with seq := Function.update x.seq t (x.seq t + 1) }

theorem later_drawn (t : TableName) (x : Shared) : Later x (drawn t x) := later_nextval t x

theorem seq_drawn (t : TableName) (x : Shared) : x.seq t < (drawn t x).seq t := by simp [drawn]

/-! ## The insertions -/

/-- The charge's insertion fails if its key is taken, or its order is not there. -/
def Barred (db : Database) (data : CreateTransactionInput) : Prop :=
  (∃ idempotencyKey, data.idempotencyKey = some idempotencyKey ∧
    db.Indexed TableName.transactions (.idempotency idempotencyKey)) ∨
    ∃ orderId, data.orderId = some orderId ∧ orderOf db orderId = none

theorem inside_createTransaction {data : CreateTransactionInput}
    {Q : Except Err Transaction → Database → Shared → Prop} (ahead : Ahead view x)
    (creates : ∀ now, (view .transactions).conflicts (data.row (x.seq .transactions) now) = false →
      Ahead (view.apply (.insert TableName.transactions (data.row (x.seq .transactions) now)))
        (drawn .transactions x) →
      Q (.ok (data.row (x.seq .transactions) now))
        (view.apply (.insert TableName.transactions (data.row (x.seq .transactions) now)))
        (drawn .transactions x))
    (fails : Barred view data → Q (.error .infrastructure) view (drawn .transactions x)) :
    (createTransaction .trx data).inside db Q view x := by
  refine inside_do (inside_sure
    (inside_insert (fun now free _ => creates now free ?_) fun now conflict => fails ?_))
  · refine (ahead.later (later_drawn .transactions x)).insert (fun n isKey => ?_)
      fun eventId entry => ?_
    · cases isKey
      exact seq_drawn .transactions x
    · simp [uniques] at entry
  · rcases conflict with taken | absent
    · obtain ⟨entry, ofRow, indexed⟩ := ahead.indexed (by decide) rfl taken
      simp only [uniques, CreateTransactionInput.row, List.mem_map, Option.mem_toList] at ofRow
      obtain ⟨idempotencyKey, isKey, rfl⟩ := ofRow
      exact .inl ⟨idempotencyKey, isKey, indexed⟩
    · right
      cases isOrder : data.orderId with
      | none => simp [referencesHold, isOrder] at absent
      | some orderId =>
        simp only [referencesHold, isOrder, Option.toList_some, List.map_cons, List.map_nil,
          List.all_cons, List.all_nil, Bool.and_true,
          Option.isSome_eq_false_iff, Option.isNone_iff_eq_none] at absent
        exact ⟨orderId, rfl, absent⟩

theorem inside_insertOutboxEvent {data : OutboxEventInput}
    {Q : Except Err Unit → Database → Shared → Prop} (ahead : Ahead view x)
    (given : data.eventId < x.uuids)
    (isNew : ¬view.Indexed TableName.eventsOutbox (.outboxEvent data.eventId))
    (next : ∀ now, Ahead (view.apply (.insert TableName.eventsOutbox
      (data.row (x.seq .eventsOutbox) now))) (drawn .eventsOutbox x) →
      Q (.ok ()) (view.apply (.insert TableName.eventsOutbox (data.row (x.seq .eventsOutbox) now)))
      (drawn .eventsOutbox x)) : (insertOutboxEvent .trx data).inside db Q view x := by
  refine inside_do
    (inside_sure (inside_do (inside_insert (fun now _ _ => next now ?_) fun now conflict => ?_)))
  · refine (ahead.later (later_drawn .eventsOutbox x)).insert (fun n isKey => ?_)
      fun eventId entry => ?_
    · cases isKey
      exact seq_drawn .eventsOutbox x
    · cases List.mem_singleton.1 entry
      exact given
  · rcases conflict with taken | absent
    · obtain ⟨entry, ofRow, indexed⟩ := ahead.indexed (by decide) rfl taken
      cases List.mem_singleton.1 ofRow
      exact absurd indexed isNew
    · simp [referencesHold] at absent

/-- A UUID is new in the outbox. -/
theorem inside_uuidv4 {Q : Except Err ℕ → Database → Shared → Prop} (ahead : Ahead view x)
    (next : ∀ x', Ahead view x' → x.uuids < x'.uuids →
      ¬view.Indexed TableName.eventsOutbox (.outboxEvent x.uuids) → Q (.ok x.uuids) view x') :
    uuidv4.inside db Q view x := by
  refine inside_sure (next _ (ahead.later (later_uuid x)) (Nat.lt_succ_self _) ?_)
  rintro ⟨row, member, entry⟩
  exact lt_irrefl _ (ahead.uuids row member _ entry)

/-! ## The work of an event -/

/-- The order is paid with this transaction of the provider, and placed. -/
structure Paid (db : Database) (orderId : ℕ) (providerTransactionId : String) : Prop where
  charge : ∃ tx ∈ (db .transactions).rows, Transaction.orderId tx = some orderId ∧
    tx.transactionType = .charge ∧
    tx.status = .succeeded ∧ tx.providerReferenceId = some providerTransactionId
  placed : ∃ order, orderOf db orderId = some order ∧ order.status = .placed

/-- The key of the charge is in the ledger. -/
abbrev Spent (db : Database) (providerTransactionId : String) : Prop :=
  db.Indexed TableName.transactions (.idempotency (.charge providerTransactionId))

theorem inside_update {k : RowKey} {f : RowOf t → RowOf t}
    {Q : Except Err (Option (RowOf t)) → Database → Shared → Prop} (ahead : Ahead view x)
    (next : ∀ row view', Ahead view' x → (∀ t', t' ≠ t → view' t' = view t') →
      Q (.ok row) view' x) :
    (Prog.exec .trx (updateByKey t k f) : Service (Option (RowOf t))).inside db Q view x := by
  refine inside_updateByKey (fun row _ => next _ _ (ahead.update t k f) fun t' other => ?_) fun _ =>
    next none view ahead fun _ _ => rfl
  exact Db.apply_update_ne view k f other

theorem inside_applySystemStatusChange {id : ℕ} {Q : Except Err Order → Database → Shared → Prop}
    (ahead : Ahead view x) (known : (orderOf view id).isSome = true)
    (next : ∀ row view', Ahead view' x → (∀ t, t ≠ .orders → view' t = view t) →
      (∃ order, orderOf view' id = some order ∧ order.status = .placed) → Q (.ok row) view' x) :
    (OrderService.applySystemStatusChange .trx id .placed).inside db Q view x := by
  refine inside_do (inside_do (inside_sure (inside_do ?_)))
  -- `placed` has no timestamp column
  show (Prog.exec .trx (updateByKey TableName.orders (RowKey.id id)
      (Order.withStatus .placed (toMillis x.now) none)) : Service (Option Order)).inside db _ view x
  refine inside_updateByKey (fun row found => ?_) fun absent => ?_
  · refine next _ _ (ahead.update _ _ _) (fun t other => Db.apply_update_ne view _ _ other)
      ⟨Order.withStatus .placed (toMillis x.now) none row, ?_, rfl⟩
    rw [orderOf, Db.apply_update_self]
    have identity := Order.identity_withStatus .placed (toMillis x.now) none row
    exact Table.get_modify_self found identity.1 identity.2
  · rw [orderOf, absent] at known
    cases known

theorem inside_capture {order : Order} {session : PaymentSession} {providerTransactionId : String}
    {Q : Except Err Unit → Database → Shared → Prop} (ahead : Ahead view x)
    (known : (orderOf view order.id).isSome = true)
    (captures : ∀ view' x', ¬Spent view providerTransactionId → Ahead view' x' →
      Paid view' order.id providerTransactionId → Q (.ok ()) view' x')
    (fails : Spent view providerTransactionId → ∀ view' x', Later x x' →
      Q (.error .infrastructure) view' x') :
    (capture order session providerTransactionId).inside db Q view x := by
  refine inside_do (inside_do (inside_sure (inside_update ahead fun _ view₁ ahead₁ others₁ => ?_)))
  have sameTransactions : view₁ .transactions = view .transactions := others₁ _ (by decide)
  have sameOrders : view₁ .orders = view .orders := others₁ _ (by decide)
  refine inside_do (inside_createTransaction ahead₁ (fun now free ahead₂ => ?_) fun barred => ?_)
  swap
  · rcases barred with ⟨_, isKey, spent⟩ | ⟨orderId, isOrder, absent⟩
    · cases isKey
      rw [Db.Indexed, sameTransactions] at spent
      exact fails spent _ _ (later_drawn .transactions x)
    · cases isOrder
      rw [orderOf, sameOrders] at absent
      rw [orderOf, absent] at known
      cases known
  -- from here on nothing fails
  refine inside_do (inside_uuidv4 ahead₂ fun x₃ ahead₃ given isNew => ?_)
  refine inside_do (inside_insertOutboxEvent ahead₃ given isNew fun now' ahead₄ => ?_)
  refine inside_do
    (inside_applySystemStatusChange ahead₄ ?_ fun _ view₅ ahead₅ others₅ placed => ?_)
  · rw [orderOf, Db.apply_insert_ne _ _ (by decide), Db.apply_insert_ne _ _ (by decide), sameOrders]
    exact known
  refine inside_do
    (inside_select fun _ => inside_do (inside_uuidv4 ahead₅ fun x₆ ahead₆ given' isNew' => ?_))
  refine inside_insertOutboxEvent ahead₆ given' isNew' fun now'' ahead₇ => ?_
  rw [sameTransactions] at free
  refine captures _ _ (fun spent => ?_) ahead₇ ⟨?_, ?_⟩
  · rw [← Bool.not_eq_true] at free
    exact free (Db.conflicts_eq_true.2 (.inr ⟨_, List.mem_singleton.2 rfl, spent⟩))
  · refine ⟨(chargeInput order session providerTransactionId .succeeded).row
      (x.seq .transactions) now, ?_, rfl, rfl, rfl, rfl⟩
    rw [Db.apply_insert_ne _ _ (by decide), others₅ _ (by decide),
      Db.apply_insert_ne _ _ (by decide), Db.apply_insert_self,
      sameTransactions]
    exact Table.mem_insert_self free
  · rwa [orderOf, Db.apply_insert_ne _ _ (by decide)]


/-- The order has a session with which its customer can pay. -/
def CanBePaid (db : Database) (orderId : ℕ) : Prop :=
  ∃ session ∈ (db .paymentSessions).rows, PaymentSession.orderId session = orderId ∧
  session.status.active = true

/-- What is left open by a `pay` event whose work is done in the transaction. -/
structure Pays (db : Database) (merchantOrderId : MerchantOrderId)
    (providerTransactionId status : String)
    (Q : Except Err (Option (PayResult × Order)) → Database → Shared → Prop) (view : Database)
    (x : Shared) : Prop where
  stops : (∀ order ∈ (db .orders).rows, merchantOrderId = .uuid (Order.publicId order) →
    ¬CanBePaid db order.id) → Q (.ok none) view x
  throws : merchantOrderId = .malformed → Q (.error .infrastructure) view x
  captures : ∀ order ∈ (db .orders).rows, merchantOrderId = .uuid (Order.publicId order) →
    CanBePaid db order.id →
    ¬Spent db providerTransactionId → ∀ answer view' x', Ahead view' x' →
    Paid view' order.id providerTransactionId → Q (.ok answer) view' x'
  refuses : status ≠ "SUCCESS" → ∀ answer view' x', Ahead view' x' → Q (.ok answer) view' x'
  fails : Spent db providerTransactionId ∨ status ≠ "SUCCESS" → ∀ view' x', Later x x' →
    Q (.error .infrastructure) view' x'

theorem inside_handlePayEvent {merchantOrderId : MerchantOrderId}
    {providerTransactionId status : String}
    {Q : Except Err (Option (PayResult × Order)) → Database → Shared → Prop} (ahead : Ahead view x)
    (same : ∀ t, t ≠ .paymentWebhookEvents → view t = db t)
    (pays : Pays db merchantOrderId providerTransactionId status Q view x) :
    (handlePayEvent merchantOrderId providerTransactionId status).inside db Q view x := by
  have sameTransactions : view .transactions = db .transactions := same _ (by decide)
  refine inside_do ?_
  cases merchantOrderId with
  | empty => exact pays.stops fun _ _ impossible => by cases impossible
  | malformed => exact pays.throws rfl
  | uuid publicId =>
    refine inside_selectFirst_conn (fun order member => inside_do ?_) fun none =>
      pays.stops fun order member isNamed => ?_
    swap
    · cases isNamed
      have listed := List.filter_eq_nil_iff.1 none order member
      simp at listed
    obtain ⟨among, isNamed⟩ := List.mem_filter.1 member
    obtain rfl := of_decide_eq_true isNamed
    refine inside_selectFirst (fun session member => ?_) fun none =>
      pays.stops fun order' among' isNamed' => ?_
    swap
    · -- no other order has this public id
      obtain rfl : order' = order := Table.eq_of_unique among' among (List.mem_singleton.2 rfl)
        (List.mem_singleton.2
        (congrArg UniqueKey.orderPublicId (MerchantOrderId.uuid.inj isNamed').symm))
      rintro ⟨session, isSession, ofOrder, active⟩
      have listed := List.filter_eq_nil_iff.1 (latest_eq_nil none) session
        (same .paymentSessions (by decide) ▸ isSession)
      simp [ofOrder, active] at listed
    have canBePaid : CanBePaid db order.id := by
      obtain ⟨isSession, isActive⟩ := List.mem_filter.1 (List.mem_filter.1 member).1
      simp only [Bool.and_eq_true, decide_eq_true_eq] at isActive
      exact ⟨session, same .paymentSessions (by decide) ▸ isSession, isActive⟩
    show Prog.inside db (if _ then _ else _ : Service (Option (PayResult × Order))) _ view x
    split
    next success =>
      refine inside_do (inside_capture ahead ?_ (fun view' x' isNew ahead' paid => ?_)
        fun spent view' x' later => ?_)
      · have found : orderOf db order.id = some order := Table.get_of_mem among
        rw [orderOf, same .orders (by decide)]
        exact Option.isSome_iff_exists.2 ⟨order, found⟩
      · rw [Spent, Db.Indexed, sameTransactions] at isNew
        exact pays.captures order among rfl canBePaid isNew _ view' x' ahead' paid
      · rw [Spent, Db.Indexed, sameTransactions] at spent
        exact pays.fails (.inl spent) view' x' later
    next failure =>
      refine inside_do (inside_do (inside_sure (inside_update ahead fun _ view₁ ahead₁ _ => ?_)))
      refine inside_do (inside_createTransaction ahead₁ (fun _ _ ahead₂ => ?_) fun _ => ?_)
      · exact pays.refuses failure _ _ _ ahead₂
      · exact pays.fails (.inr failure) _ _ (later_drawn .transactions x)

/-- An event is marked. -/
def Marks (w : SqlWrite) : Prop := ∃ k f, w = .update TableName.paymentWebhookEvents k f

theorem Ahead.marked (ahead : Ahead db x) {ws : List SqlWrite} (marks : ∀ w ∈ ws, Marks w) :
    Ahead (db.applyAll ws) x := by
  induction ws generalizing db with
  | nil => exact ahead
  | cons w ws inductionHypothesis =>
    obtain ⟨k, f, rfl⟩ := marks w List.mem_cons_self
    exact inductionHypothesis (ahead.update _ k f) fun w' member =>
      marks w' (List.mem_cons_of_mem _ member)

theorem marked_other {ws : List SqlWrite} (marks : ∀ w ∈ ws, Marks w) {t : TableName}
    (other : t ≠ .paymentWebhookEvents) (db : Database) : db.applyAll ws t = db t := by
  refine Db.applyAll_other (fun w member => ?_) db
  obtain ⟨k, f, rfl⟩ := marks w member
  exact other.symm

/-- What holds when the event is marked: in the transaction after its work, else on its own. -/
def Leaves (db : Database) (Q : Database → Shared → Prop) :
    Except Err Unit → Database → Shared → Prop
  | .ok _, view, x => ∀ ws, (∀ w ∈ ws, Marks w) → ∀ x', Later x x' → Q (view.applyAll ws) x'
  | .error _, _, x => ∀ ws, (∀ w ∈ ws, Marks w) → ∀ x', Later x x' → Q (db.applyAll ws) x'

/-- The event is in the database. -/
abbrev EventStored (db : Database) (payload : WebhookPayload) : Prop :=
  db.Indexed TableName.paymentWebhookEvents (.webhookEvent 1 payload.providerEventId)

section Process

variable {payload : WebhookPayload} {signature : String} {Q : Database → Shared → Prop} {began : ℕ}
  {seen : List (Sigma RowOf)}

theorem inside_recordWebhookEventIfNew {Q : Except Err (Option ℕ) → Database → Shared → Prop}
    (ahead : Ahead view x)
    (there : EventStored view payload → Q (.ok none) view (drawn .paymentWebhookEvents x))
    (records : ∀ event : WebhookEvent, ¬EventStored view payload →
      Ahead (view.apply (.insert TableName.paymentWebhookEvents event))
        (drawn .paymentWebhookEvents x) →
      Q (.ok (some event.id)) (view.apply (.insert TableName.paymentWebhookEvents event))
        (drawn .paymentWebhookEvents x)) :
    (recordWebhookEventIfNew .trx
        { providerId := 1, providerEventId := payload.providerEventId, signature }).inside
      db Q view x := by
  have isRecorded : (view .paymentWebhookEvents).rows.any (fun row : WebhookEvent =>
      row.providerId = 1 && row.providerEventId = payload.providerEventId) = true ↔
        EventStored view payload := by
    rw [List.any_eq_true]
    refine exists_congr fun event => and_congr_right fun _ => ?_
    have entries : uniques event =
        [UniqueKey.webhookEvent event.providerId event.providerEventId] := rfl
    rw [entries, List.mem_singleton, Bool.and_eq_true, decide_eq_true_eq, decide_eq_true_eq,
      UniqueKey.webhookEvent.injEq]
    exact and_congr eq_comm eq_comm
  refine inside_do
    (inside_sure (inside_do (inside_insertIgnore (fun found => there (isRecorded.1 found))
    (fun now absent _ => records _ (fun recorded => ?_) ?_) fun now absent conflict => ?_)))
  · rw [isRecorded.2 recorded] at absent
    cases absent
  · refine (ahead.later (later_drawn .paymentWebhookEvents x)).insert (fun n isKey => ?_)
      fun eventId entry => ?_
    · cases isKey
      exact seq_drawn .paymentWebhookEvents x
    · simp [uniques] at entry
  · rcases conflict with taken | missing
    · obtain ⟨entry, ofRow, indexed⟩ := ahead.indexed (by decide) rfl taken
      cases List.mem_singleton.1 ofRow
      rw [isRecorded.2 indexed] at absent
      cases absent
    · simp [referencesHold] at missing

theorem solo_handleEvent {id : ℕ} {ws : List SqlWrite}
    (works : (dispatch payload).inside db (Leaves db Q) (db.applyAll ws) x) :
    (Prog.tryCatch (handleEvent payload id) fun err => do
      .rollbackTrx
      orElse (markWebhookEventProcessed .pool id (some err.message)) ()
      throw err : Service Unit).solo (anyhow False) (fun _ _ => Q)
        ⟨some ⟨began, ws⟩, seen⟩ db x := by
  -- After a rollback only the event itself is marked, by another statement.
  have givesUp : ∀ (err : Err) l x', Leaves db Q (.error err) db x' → (do
      .rollbackTrx
      orElse (markWebhookEventProcessed .pool id (some err.message)) ()
      throw err : Service Unit).solo (anyhow False) (fun _ _ => Q) l db x' := by
    intro err l x' leaves
    refine solo_do (solo_do (solo_tryCatch (solo_do (solo_nowIso (solo_do ?_)))))
    refine solo_updateByKey (fun row _ => ⟨.inr trivial, fun _ => ?_⟩) fun _ _ =>
      leaves [] (by simp) x' (.refl x')
    exact leaves [.update _ _ _] (fun w member => ⟨_, _, List.mem_singleton.1 member⟩) x' (.refl x')
  refine solo_tryCatch (solo_do (solo_mono ?_ (solo_of_inside works)))
  rintro result l db' x' ⟨rfl, ws', seen', rfl, leaves⟩
  cases result with
  | error err => exact givesUp err _ x' leaves
  | ok _ =>
    -- With or without a row to mark, the work is committed.
    have commits : ∀ marks seen'', (∀ w ∈ marks, Marks w) →
        (Prog.commitTrx : Service Unit).solo (anyhow False)
        (soloCatch (anyhow False) (fun err => do
          .rollbackTrx
          orElse (markWebhookEventProcessed .pool id (some err.message)) ()
          throw err) fun _ _ => Q) ⟨some ⟨began, ws' ++ marks⟩, seen''⟩ db' x' := by
      intro marks seen'' areMarks
      refine ⟨⟨.inr trivial, ?_⟩, fun faulty => faulty.elim⟩
      show Q (db'.applyAll (ws' ++ marks)) x'
      rw [Db.applyAll_append]
      exact leaves marks areMarks x' (.refl x')
    refine solo_do (solo_do
      (solo_nowIso (solo_do (solo_updateByKey_trx (fun _ _ seen'' => ?_) fun _ seen'' => ?_))))
    · exact commits [.update _ _ _] _ fun w member => ⟨_, _, List.mem_singleton.1 member⟩
    · have silent := commits [] seen'' (by simp)
      rwa [List.append_nil] at silent

/-- The transaction of an event: unless the event was there before, its work is done. -/
theorem solo_processEvent (ahead : Ahead db x)
    (again : EventStored db payload → ∀ x', Later x x' → Q db x')
    (works : ∀ event x', ¬EventStored db payload → Later x x' →
      Ahead (db.apply (.insert TableName.paymentWebhookEvents event)) x' → (dispatch payload).inside
      db (Leaves db Q) (db.apply (.insert TableName.paymentWebhookEvents event)) x') :
    (processEvent payload signature 1).solo (anyhow False) (fun _ _ => Q)
      ⟨some ⟨began, []⟩, seen⟩ db x := by
  refine solo_do (solo_tryCatch
    (solo_mono ?_ (solo_of_inside (Q := fun result view x' => Later x x' ∧
    ((result = .ok none ∧ EventStored db payload ∧ view = db) ∨ ∃ event id, result = .ok (some id) ∧
      ¬EventStored db payload ∧
      Ahead view x' ∧ view = db.apply (.insert TableName.paymentWebhookEvents event))) ?_)))
  swap
  · refine inside_recordWebhookEventIfNew ahead (fun recorded => ?_) fun event isNew ahead' => ?_
    · exact ⟨later_drawn _ x, .inl ⟨rfl, recorded, rfl⟩⟩
    · exact ⟨later_drawn _ x, .inr ⟨event, _, rfl, isNew, ahead', rfl⟩⟩
  rintro result l db' x' ⟨rfl, ws, seen', rfl, later,
    ⟨rfl, recorded, unchanged⟩ | ⟨event, id, rfl, isNew, ahead', isView⟩⟩
  · refine solo_tryCatch ⟨⟨.inr trivial, ?_⟩, fun faulty => faulty.elim⟩
    show Q (db'.applyAll ws) x'
    rw [unchanged]
    exact again recorded x' later
  · refine solo_handleEvent ?_
    rw [isView] at ahead' ⊢
    exact works event x' isNew later ahead'

/-- Nothing of the webhook is handled. -/
def Unknown (db : Database) (payload : WebhookPayload) : Prop :=
  ∀ order ∈ (db .orders).rows, payload.merchantOrderId ≠ .uuid (Order.publicId order)

theorem solo_process {signatureValid : Bool} (ahead : Ahead db x)
    (stops : signatureValid = false ∨ Unknown db payload → Q db x)
    (again : EventStored db payload → ∀ x', Later x x' → Q db x')
    (works : ∀ event x', ¬EventStored db payload → Later x x' →
      Ahead (db.apply (.insert TableName.paymentWebhookEvents event)) x' → (dispatch payload).inside
      db (Leaves db Q) (db.apply (.insert TableName.paymentWebhookEvents event)) x') :
    (process payload signature signatureValid).solo (anyhow False) (fun _ _ => Q) .start db x := by
  refine solo_do (solo_throwIf (fun _ => solo_do ?_) fun invalid => stops (.inl invalid))
  cases isNamed : payload.merchantOrderId with
  | empty => exact stops (.inr fun _ _ => by simp [isNamed])
  | malformed => exact stops (.inr fun _ _ => by simp [isNamed])
  | uuid publicId =>
    refine solo_selectFirst (fun order _ seen' => ?_) fun none _ =>
      stops (.inr fun order member isUuid => ?_)
    · exact solo_do (solo_select fun _ =>
        solo_do ⟨solo_processEvent ahead again works, fun faulty => faulty.elim⟩)
    · have listed := List.filter_eq_nil_iff.1 none order member
      rw [isNamed, MerchantOrderId.uuid.injEq] at isUuid
      simp [isUuid] at listed

end Process

/-- Whatever the work of an event, the sequences stay ahead. -/
theorem inside_dispatch_ahead {payload : WebhookPayload} (before : Ahead db x)
    (ahead : Ahead view x) (same : ∀ t, t ≠ .paymentWebhookEvents → view t = db t) :
    (dispatch payload).inside db (Leaves db Ahead) view x := by
  have succeeds : ∀ view' x', Ahead view' x' → Leaves db Ahead (.ok ()) view' x' :=
    fun _ _ ahead' _ marks _ later =>
    (ahead'.marked marks).later later
  have fails : ∀ err view' x', Later x x' → Leaves db Ahead (.error err) view' x' :=
    fun _ _ _ later _ marks _ later' =>
    (before.marked marks).later (later.trans later')
  unfold dispatch
  split
  next =>
    refine inside_do (inside_handlePayEvent ahead same ⟨fun _ => succeeds view x ahead,
      fun _ => fails _ view x (.refl x), ?_, ?_, ?_⟩)
    · exact fun _ _ _ _ _ _ view' x' ahead' _ => succeeds view' x' ahead'
    · exact fun _ _ view' x' ahead' => succeeds view' x' ahead'
    · exact fun _ view' x' later => fails _ view' x' later
  next =>
    split
    next =>
      unfold handleRefundEvent
      split
      swap
      · exact succeeds view x ahead
      refine inside_do (inside_selectFirst (fun refund _ => ?_) fun _ => succeeds view x ahead)
      show (confirmRefund refund).inside db _ view x
      unfold confirmRefund
      split
      · exact succeeds view x ahead
      -- a refund that is confirmed is updated, and so is its charge
      refine inside_do (inside_do (inside_sure (inside_update ahead fun _ view₁ ahead₁ _ => ?_)))
      refine inside_do (inside_selectFirst (fun charge _ => ?_) fun _ => succeeds view₁ x ahead₁)
      exact inside_do (inside_sure
        (inside_do (inside_update ahead₁ fun _ view₂ ahead₂ _ => succeeds view₂ x ahead₂)))
    next => exact succeeds view x ahead

theorem solo_process_ahead {payload : WebhookPayload} {signature : String} {signatureValid : Bool}
    (ahead : Ahead db x) :
    (process payload signature signatureValid).solo (anyhow False)
      (fun _ _ => Ahead) .start db x := by
  refine solo_process ahead (fun _ => ahead) (fun _ x' later => ahead.later later)
    fun event x' _ later ahead' => ?_
  exact inside_dispatch_ahead (ahead.later later) ahead' fun t other =>
    Db.apply_insert_ne db event other

theorem paid_congr {db' : Database} {orderId : ℕ} {providerTransactionId : String}
    (transactions : db' .transactions = db .transactions) (orders : db' .orders = db .orders) :
    Paid db' orderId providerTransactionId ↔ Paid db orderId providerTransactionId := by
  constructor
  · rintro ⟨charge, placed⟩
    rw [transactions] at charge
    rw [orderOf, orders] at placed
    exact ⟨charge, placed⟩
  · rintro ⟨charge, placed⟩
    refine ⟨transactions ▸ charge, ?_⟩
    rw [orderOf, orders]
    exact placed

theorem paid_marked {orderId : ℕ} {providerTransactionId : String} {ws : List SqlWrite}
    (marks : ∀ w ∈ ws, Marks w) (db : Database) :
    Paid (db.applyAll ws) orderId providerTransactionId ↔ Paid db orderId providerTransactionId :=
  paid_congr (marked_other marks (by decide) db) (marked_other marks (by decide) db)

/-- What a success needs: a session, a new event, and a transaction id that no charge carries. -/
structure Capturable (db : Database) (payload : WebhookPayload) (orderId : ℕ) : Prop where
  session : CanBePaid db orderId
  newEvent : ¬EventStored db payload
  newCharge : ¬Spent db payload.providerTransactionId

/-- A success for an order that waits for its payment. -/
theorem solo_success {payload : WebhookPayload} {signature : String} {order : Order}
    (ahead : Ahead db x) (found : orderOf db order.id = some order)
    (waits : order.status = .pendingPayment)
    (isNamed : payload.merchantOrderId = .uuid order.publicId) (isPay : payload.eventText = "pay")
    (isSuccess : payload.statusText = "SUCCESS") :
    (process payload signature true).solo (anyhow False)
      (fun _ _ db' _ => Paid db' order.id payload.providerTransactionId ↔
        Capturable db payload order.id) .start db x := by
  have among : order ∈ (db .orders).rows := Table.get_mem found
  have unpaid : ¬Paid db order.id payload.providerTransactionId := by
    rintro ⟨_, row, isRow, placed⟩
    rw [found] at isRow
    cases isRow
    rw [waits] at placed
    cases placed
  refine solo_process ahead (fun unknown => ?_) (fun recorded _ _ => ?_)
    fun event x' isNew later ahead' => ?_
  · rcases unknown with invalid | unknown
    · cases invalid
    · exact absurd isNamed (unknown order among)
  · exact iff_of_false unpaid fun capturable => capturable.newEvent recorded
  have same : ∀ t, t ≠ .paymentWebhookEvents →
      db.apply (.insert TableName.paymentWebhookEvents event : SqlWrite) t = db t :=
    fun t other => Db.apply_insert_ne db event other
  unfold dispatch
  rw [if_pos isPay]
  refine inside_do
    (inside_handlePayEvent ahead' same ⟨fun nobody => ?_, fun malformed => ?_, ?_, ?_, ?_⟩)
  · intro ws marks _ _
    have unpaid' :=
      (paid_congr (same .transactions (by decide)) (same .orders (by decide))).not.2 unpaid
    exact iff_of_false ((paid_marked marks _).not.2 unpaid') fun capturable =>
      nobody order among isNamed capturable.session
  · rw [malformed] at isNamed
    cases isNamed
  · intro order' among' isNamed' session isNewCharge _ view' _ _ paid ws marks _ _
    obtain rfl : order' = order := Table.eq_of_unique among' among (List.mem_singleton.2 rfl)
      (List.mem_singleton.2
      (congrArg UniqueKey.orderPublicId (MerchantOrderId.uuid.inj (isNamed'.symm.trans isNamed))))
    exact iff_of_true ((paid_marked marks view').2 paid) ⟨session, isNew, isNewCharge⟩
  · exact fun failure => absurd isSuccess failure
  · intro cause _ _ _ ws marks _ _
    refine iff_of_false ((paid_marked marks db).not.2 unpaid) fun capturable => ?_
    rcases cause with spent | failure
    · exact capturable.newCharge spent
    · exact failure isSuccess

end

end SwiftBite.Verified.WebhookAlone
