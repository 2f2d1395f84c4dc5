import SwiftBite.Verified.Webhooks

/-! # Payment sessions and refunds

`PaymentService.init` and `PaymentService.refund`, each cut down to what it commits.
-/

set_option autoImplicit false

namespace SwiftBite.Verified

open Store Protocol Statement

/-- Some row is the latest. -/
theorem exists_latest {rows : List PaymentSession} (some : rows ≠ []) :
    ∃ row ∈ rows, ∀ other ∈ rows, other.createdAt ≤ row.createdAt := by
  induction rows with
  | nil => contradiction
  | cons first rest inductionHypothesis =>
    by_cases last : rest = []
    · subst last
      exact ⟨first, List.mem_cons_self, by simp⟩
    · obtain ⟨row, member, isLatest⟩ := inductionHypothesis last
      rcases le_total first.createdAt row.createdAt with earlier | later
      · exact ⟨row, List.mem_cons_of_mem _ member, List.forall_mem_cons.2 ⟨earlier, isLatest⟩⟩
      · exact ⟨first, List.mem_cons_self,
          List.forall_mem_cons.2 ⟨le_rfl, fun other among => (isLatest other among).trans later⟩⟩

theorem latest_eq_nil {rows : List PaymentSession} (none : latest rows = []) : rows = [] := by
  by_contra some
  obtain ⟨row, member, isLatest⟩ := exists_latest some
  have found : row ∈ latest rows := List.mem_filter.2 ⟨member, by simpa using isLatest⟩
  rw [none] at found
  cases found

section

variable {Γ : Type} {P : Protocol (K := RowKey) RowOf Shared Err Operation Reply Γ} {i : ℕ}
  {op : Operation}
  {s : Sit RowOf Shared Operation Γ} {Q : Sit RowOf Shared Operation Γ → Prop}

/-- A session that is about to be inserted at `s'`, for an order that was read at `s` and had no
active session when the sessions were read. -/
structure Opening (P : Protocol (K := RowKey) RowOf Shared Err Operation Reply Γ) (i : ℕ)
    (op : Operation) (order : Order) (session : PaymentSession)
    (s s' : Sit RowOf Shared Operation Γ) : Prop where
  readOrder : orderOf s.db order.id = some order
  pending : order.status = .pendingPayment
  until' : P.Env i op ⟨none, []⟩ s s'
  beside : P.Alongside i op s'
  ofOrder : session.orderId = order.id
  amount : session.amount = order.total
  currency : session.currency = order.currency
  status : session.status = .initialized
  vacant : ∃ s₁, P.Env i op ⟨none, []⟩ s s₁ ∧ P.Env i op ⟨none, []⟩ s₁ s' ∧
    ∀ row ∈ (s₁.db .paymentSessions).rows, row.orderId = order.id → row.status.active = false
  free : (s'.db .paymentSessions).conflicts session = false

theorem wp_init (lawful : P.Lawful) (free : P.Free i op Later) {core : Core}
    {orderPublicId customerId : ℕ} (holds : P.inv s)
    (stops : ∀ s', P.Env i op ⟨none, []⟩ s s' → Q s')
    (opens : ∀ order session s', Opening P i op order session s s' → P.After i op s' ⟨none, []⟩
      (s'.db.apply (.insert TableName.paymentSessions session)) s'.side Q) :
    P.wp i op (PaymentService.init core orderPublicId customerId)
      (fun _ _ s' => Q s') .start s := by
  refine wp_do (wp_do
    (wp_selectFirst lawful (fun isTrx => nomatch isTrx) holds ?_ ?_ fun _ s' env => stops s' env))
  swap
  · exact fun _ s' env => stops s' env
  intro _ order member s₁ env₁
  have readOrder : orderOf s.db order.id = some order :=
    Table.get_of_mem (List.mem_filter.1 member).1
  have until₁ := env₁.released []
  refine wp_do (wp_throwIf (fun _ => ?_) fun _ => stops s₁ until₁)
  refine wp_do (wp_throwIf (fun isPending => ?_) fun _ => stops s₁ until₁)
  refine wp_do (wp_selectFirst lawful (fun isTrx => nomatch isTrx) env₁.inv
    (fun _ existing _ s₂ env₂ => ?_) (fun none s₂ env₂ => ?_)
    fun _ s₂ env₂ => stops s₂ (until₁.trans lawful (env₂.released [])))
  · -- An open session is handed out again.
    exact stops s₂ (until₁.trans lawful (env₂.released []))
  -- When it looked, the order had no open session.
  have inactive : ∀ row ∈ (s₁.db .paymentSessions).rows, row.orderId = order.id →
      row.status.active = false := by
    intro row among ofOrder
    have passed := List.filter_eq_nil_iff.1 (latest_eq_nil none) row among
    simpa [ofOrder] using passed
  have until₂ := until₁.trans lawful (env₂.released [])
  refine wp_do (wp_idle lawful free (quiet_findPaymentProviderByName .pool "kashier")
    env₂.inv env₂.self
    fun result s₃ env₃ => ?_)
  have until₃ := until₂.trans lawful (env₃.released [])
  cases result with
  | error err => exact stops s₃ until₃
  | ok provider =>
    cases provider with
    | none => exact stops s₃ until₃
    | some kashierProvider =>
      show P.wp i op (PaymentService.createSession core order kashierProvider) _ _ s₃
      unfold PaymentService.createSession
      split
      next => exact stops s₃ until₃
      next created _ =>
        refine wp_do (wp_nextval lawful free _ env₃.inv fun id s₄ env₄ => ?_)
        have until₄ := until₃.trans lawful (env₄.released [])
        -- The provider has answered: the new session is stored.
        refine wp_insert_conn (fun beside isFree _ _ => ?_) fun _ s₅ env₅ =>
          stops s₅ (until₄.trans lawful (env₅.released []))
        have since₁ := ((env₂.released []).trans lawful (env₃.released [])).trans lawful
          (env₄.released [])
        exact (opens order _ s₄ ⟨readOrder, of_not_not isPending, until₄, beside, rfl, rfl, rfl,
          rfl, ⟨s₁, until₁, since₁, inactive⟩,
          isFree⟩).released _

/-! ## Refunds -/

/-- A refund that is about to be inserted at `s'`, for a charge that was read at `s`. -/
structure Refunding (P : Protocol (K := RowKey) RowOf Shared Err Operation Reply Γ) (i : ℕ)
    (op : Operation) (charge refund : Transaction) (amount : ℤ)
    (s s' : Sit RowOf Shared Operation Γ) : Prop where
  readCharge : transactionOf s.db charge.id = some charge
  refundable : charge.transactionType ∈ [TransactionType.charge, .codCollection] ∧
    charge.status = .succeeded
  notRefunded : charge.isRefunded = false
  until' : P.Env i op ⟨none, []⟩ s s'
  beside : P.Alongside i op s'
  row : ∃ uuid id now, refund = (PaymentService.refundInput charge amount uuid).row id now
  free : (s'.db .transactions).conflicts refund = false
  /-- The run may make the insertion. -/
  allowed : ∃ seen, P.allow ⟨none, seen⟩ s'.db [.insert TableName.transactions refund]

/-- The charge may be flagged. -/
structure MayFlag (P : Protocol (K := RowKey) RowOf Shared Err Operation Reply Γ) (i : ℕ)
    (op : Operation) (charge refund : Transaction) (Q : Sit RowOf Shared Operation Γ → Prop)
    (s : Sit RowOf Shared Operation Γ) : Prop where
  flags : ∀ updatedAt row s', P.Env i op ⟨none, []⟩ s s' →
    transactionOf s'.db charge.id = some row →
    P.After i op s' ⟨none, []⟩
      (s'.db.apply (.update TableName.transactions (RowKey.id charge.id)
      (Transaction.refunded refund.id updatedAt))) s'.side Q
  stops : ∀ s', P.Env i op ⟨none, []⟩ s s' → Q s'

/-- What follows the insertion of a refund. -/
structure MaySettle (P : Protocol (K := RowKey) RowOf Shared Err Operation Reply Γ) (i : ℕ)
    (op : Operation) (charge refund : Transaction) (Q : Sit RowOf Shared Operation Γ → Prop)
    (s : Sit RowOf Shared Operation Γ) : Prop where
  there : ∀ s', P.Env i op ⟨none, []⟩ s s' → (transactionOf s'.db refund.id).isSome = true
  refers : ∀ reference updatedAt row s', P.Env i op ⟨none, []⟩ s s' →
    transactionOf s'.db refund.id = some row →
    P.After i op s' ⟨none, []⟩ (s'.db.apply (.update TableName.transactions (RowKey.id refund.id)
      (Transaction.withReference reference updatedAt))) s'.side Q
  fails : ∀ updatedAt row s', P.Env i op ⟨none, []⟩ s s' →
    transactionOf s'.db refund.id = some row →
    P.After i op s' ⟨none, []⟩ (s'.db.apply (.update TableName.transactions (RowKey.id refund.id)
      (Transaction.withStatus .failed updatedAt))) s'.side Q
  succeeds : ∀ updatedAt row s', P.Env i op ⟨none, []⟩ s s' →
    transactionOf s'.db refund.id = some row →
    P.After i op s' ⟨none, []⟩ (s'.db.apply (.update TableName.transactions (RowKey.id refund.id)
      (Transaction.withStatus .succeeded updatedAt))) s'.side (MayFlag P i op charge refund Q)
  stops : ∀ s', P.Env i op ⟨none, []⟩ s s' → Q s'

section Settle

variable {charge refund : Transaction} {seen : List (Sigma RowOf)}

theorem wp_updateTransactionStatus (lawful : P.Lawful) (free : P.Free i op Later) {id : ℕ}
    {status : TransactionStatus}
    {R : Except Err (Option Transaction) → Local RowOf RowKey → Sit RowOf Shared Operation Γ → Prop}
    (holds : P.inv s)
    (there : ∀ s', P.Env i op ⟨none, []⟩ s s' → (transactionOf s'.db id).isSome = true)
    (found : ∀ row updatedAt s' seen', P.Env i op ⟨none, []⟩ s s' →
      transactionOf s'.db id = some row → P.After i op s' ⟨none, seen'⟩ (s'.db.apply
      (.update TableName.transactions (RowKey.id id) (Transaction.withStatus status updatedAt)))
      s'.side (R (.ok (some (Transaction.withStatus status updatedAt row))) ⟨none, seen'⟩))
    (stops : ∀ err s', P.Env i op ⟨none, []⟩ s s' → R (.error err) ⟨none, seen⟩ s') :
    P.wp i op (updateTransactionStatus .pool id status) R ⟨none, seen⟩ s := by
  refine wp_do (wp_nowIso lawful free holds fun updatedAt s₁ env₁ => ?_)
  refine wp_updateByKey_conn lawful env₁.inv (fun _ row isRow _ => ?_) (fun absent => ?_)
    fun _ s₂ env₂ => ?_
  · exact found row updatedAt s₁ _ (env₁.released []) isRow
  · exact absurd absent (Option.isSome_iff_ne_none.1 (there s₁ (env₁.released [])))
  · exact stops _ s₂ ((env₁.trans lawful env₂).released [])

theorem wp_refundOnline (lawful : P.Lawful) (free : P.Free i op Later) {core : Core} {amount : ℤ}
    {reason : String} (holds : P.inv s) (self : s.live i = some op)
    (may : MaySettle P i op charge refund Q s) :
    P.wp i op (PaymentService.refundOnline core charge refund amount reason) (fun _ _ s' => Q s')
      ⟨none, seen⟩ s := by
  -- What the handler does, from any later state.
  have giveUp : ∀ seen' s₁, P.Env i op ⟨none, []⟩ s s₁ → P.wp i op (do
      let _ ← updateTransactionStatus .pool refund.id .failed
      throw (.appError "Payment provider unavailable" 503) : Service Unit)
        (P.bindPost i op (fun _ => pure refund) fun _ _ s' => Q s')
      ⟨none, seen'⟩ s₁ := by
    intro seen' s₁ env₁
    refine wp_do (wp_updateTransactionStatus lawful free env₁.inv
      (fun s₂ env₂ => may.there s₂ (env₁.trans lawful env₂))
      (fun row updatedAt s₂ seen₂ env₂ found => ?_) fun err s₂ env₂ =>
        may.stops s₂ (env₁.trans lawful env₂))
    exact (may.fails updatedAt row s₂ (env₁.trans lawful env₂) found).released _
  refine wp_do (wp_tryCatch (wp_do (wp_ofExcept ?_)))
  cases core.refund charge.providerReferenceId amount reason with
  | error err => exact giveUp seen s (.refl lawful holds self)
  | ok transactionId =>
    refine wp_do (wp_nowIso lawful free holds fun updatedAt s₁ env₁ => wp_do ?_)
    have until₁ := env₁.released []
    refine wp_updateByKey_conn lawful env₁.inv (fun _ row isRow _ => ?_) (fun _ s₂ env₂ => ?_)
      fun _ s₂ env₂ => ?_
    · exact (may.refers _ updatedAt row s₁ until₁ isRow).released _
    · exact may.stops s₂ (until₁.trans lawful (env₂.released []))
    · exact giveUp _ s₂ (until₁.trans lawful (env₂.released []))

theorem wp_refundCash (lawful : P.Lawful) (free : P.Free i op Later) (holds : P.inv s)
    (may : MaySettle P i op charge refund Q s) :
    P.wp i op (PaymentService.refundCash charge refund) (fun _ _ s' => Q s') ⟨none, seen⟩ s := by
  refine wp_do (wp_updateTransactionStatus lawful free holds may.there
    (fun row updatedAt s₁ seen₁ env₁ found => ?_)
    fun err s₁ env₁ => may.stops s₁ env₁)
  refine ((may.succeeds updatedAt row s₁ env₁ found).released seen₁).imp fun s₂ inv₂ _ flag => ?_
  refine wp_returning (wp_do (wp_nowIso lawful free inv₂ fun updatedAt' s₃ env₃ => wp_returning ?_))
  refine wp_updateByKey_conn lawful env₃.inv (fun _ row isRow _ => ?_) (fun _ s₄ env₄ => ?_)
    fun _ s₄ env₄ => ?_
  · exact (flag.flags updatedAt' row s₃ (env₃.released []) isRow).released _
  · exact flag.stops s₄ ((env₃.trans lawful env₄).released [])
  · exact flag.stops s₄ ((env₃.trans lawful env₄).released [])

/-- A refund request. -/
theorem wp_refundRequest (lawful : P.Lawful) (free : P.Free i op Later) {core : Core}
    {paymentId : ℕ} {amount : Option ℤ} {reason : String} (holds : P.inv s)
    (stops : ∀ s', P.Env i op ⟨none, []⟩ s s' → Q s')
    (refunds : ∀ charge refund s', charge.id = paymentId →
      Refunding P i op charge refund (amount.getD charge.amount) s s' →
      P.After i op s' ⟨none, []⟩ (s'.db.apply (.insert TableName.transactions refund)) s'.side
      (MaySettle P i op charge refund Q)) :
    P.wp i op (PaymentService.refund core paymentId amount reason)
      (fun _ _ s' => Q s') .start s := by
  refine wp_do (wp_selectByKey lawful (fun isTrx => nomatch isTrx) holds ?_ ?_
    fun _ s' env => stops s' env)
  swap
  · exact fun _ s' env => stops s' env
  intro _ charge isCharge s₁ env₁
  have until₁ := env₁.released []
  have isKey : RowKey.id charge.id = RowKey.id paymentId := Table.get_key isCharge
  have read : transactionOf s.db charge.id = some charge :=
    Table.get_of_mem (Table.get_mem isCharge)
  refine wp_do (wp_throwIf (fun refundable => ?_) fun _ => stops s₁ until₁)
  refine wp_do (wp_throwIf (fun notRefunded => ?_) fun _ => stops s₁ until₁)
  simp only [not_or, not_not] at refundable
  refine wp_do (wp_uuidv4 lawful free env₁.inv fun uuid s₂ env₂ => wp_do (wp_do ?_))
  refine wp_nextval lawful free _ env₂.inv fun id s₃ env₃ => ?_
  have until₃ := until₁.trans lawful ((env₂.trans lawful env₃).released [])
  refine wp_insert_conn (fun beside isFree _ allowed => ?_) fun _ s₄ env₄ =>
    stops s₄ (until₃.trans lawful (env₄.released []))
  -- The row is stored; from here on it is settled in one way or the other.
  have after := refunds charge _ s₃ (RowKey.id.inj isKey)
    ⟨read, refundable, by simpa using notRefunded, until₃, beside,
    ⟨uuid, id, _, rfl⟩, isFree, _, allowed⟩
  refine (after.released _).imp fun s₄ inv₄ self₄ may => ?_
  show P.wp i op (if charge.method = .online then _ else _) _ _ s₄
  split
  next => exact wp_refundOnline lawful free inv₄ self₄ may
  next => exact wp_refundCash lawful free inv₄ may

end Settle

end

/-! ## Footprints -/

section Footprints

variable {writes : SqlWrite → Prop} {moves : Shared → Shared → Prop} [Ticking moves]

theorem harmless_init (core : Core) (orderPublicId customerId : ℕ)
    (opens : ∀ session : PaymentSession, writes (.insert TableName.paymentSessions session)) :
    (PaymentService.init core orderPublicId customerId).Harmless
      ⟨writes, fun _ => True, moves⟩ := by
  refine Prog.Harmless.bind ((quiet_findOrderByPublicId .pool _ fun _ => trivial).harmless.bind
    fun order => ?_) fun order => ?_
  · cases order with
    | none => exact trivial
    | some order => exact (quiet_throwIf _ _).harmless.bind fun _ => trivial
  refine (quiet_throwIf _ _).harmless.bind fun _ =>
    Prog.Harmless.bind (.exec (.selectFirst fun _ => trivial)) fun existing => ?_
  cases existing with
  | some existing => exact trivial
  | none =>
    refine (quiet_findPaymentProviderByName .pool _).harmless.bind fun provider => ?_
    cases provider with
    | none => exact trivial
    | some kashierProvider =>
      dsimp only
      unfold PaymentService.createSession
      split
      · exact trivial
      · exact (quiet_nextval _).harmless.bind fun _ =>
          .exec (.insert (fun _ => opens _) fun _ => trivial)

/-- A refund writes the ledger. -/
theorem harmless_refund (core : Core) (paymentId : ℕ) (amount : Option ℤ) (reason : String)
    (ledger : ∀ w : SqlWrite, w.table = .transactions → writes w) :
    (PaymentService.refund core paymentId amount reason).Harmless
      ⟨writes, fun _ => True, moves⟩ := by
  have marks : ∀ id status, (updateTransactionStatus .pool id status).Harmless
      ⟨writes, fun _ => True, moves⟩ := fun id status =>
    quiet_nowIso.harmless.bind fun _ => .exec (.updateByKey (ledger _ rfl) fun _ => trivial)
  refine Prog.Harmless.bind (.exec (.selectByKey fun _ => trivial)) fun charge => ?_
  cases charge with
  | none => exact trivial
  | some charge =>
    refine (quiet_throwIf _ _).harmless.bind fun _ => (quiet_throwIf _ _).harmless.bind fun _ =>
      quiet_uuidv4.harmless.bind fun uuid => ?_
    refine Prog.Harmless.bind ((quiet_nextval _).harmless.bind fun _ =>
      .exec (.insert (fun _ => ledger _ rfl) fun _ => trivial))
      fun refundTransaction => ?_
    split
    · -- The provider answers, and what it answers is stored.
      refine Prog.Harmless.bind (.tryCatch (Prog.Quiet.ofExcept.harmless.bind fun transactionId =>
        quiet_nowIso.harmless.bind fun _ => ?_)
        fun _ => (marks _ _).bind fun _ => trivial) fun _ => trivial
      exact Prog.Harmless.bind (.exec (.updateByKey (ledger _ rfl) fun _ => trivial))
        fun _ => trivial
    · refine (marks _ _).bind fun succeeded =>
        Prog.Harmless.bind (quiet_nowIso.harmless.bind fun _ => ?_) fun _ => trivial
      exact Prog.Harmless.bind (.exec (.updateByKey (ledger _ rfl) fun _ => trivial))
        fun _ => trivial

end Footprints

end SwiftBite.Verified
