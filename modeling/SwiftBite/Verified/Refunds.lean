import Mathlib.Algebra.Order.BigOperators.Group.List
import SwiftBite.Store.Journal
import SwiftBite.Store.Once
import SwiftBite.Verified.PaymentSteps

/-! # Refunds of one charge

A refund request checks that the charge is not flagged, and nothing else: neither its amount
nor the refunds that are already under way.  As long as every request asks for no more than
what stands and what is still to be inserted leave of the charge, the sum of the refunds stays
within it: no provider's answer, no webhook and no failure brings a refund back that was given up.
-/

set_option autoImplicit false

namespace SwiftBite.Verified.Refunds

open Store Protocol Verified

/-! ## The refunds of a charge -/

section

variable (start : Database) (earlier : ℕ → Bool) (charge : Transaction)

/-- A refund that was issued for the charge.  The table does not say so: it is new since the
start, or one of those that are on record as issued earlier. -/
def isIssued (tx : Transaction) : Bool :=
  decide (tx.transactionType = .refund) && ((transactionOf start tx.id).isNone || earlier tx.id)

/-- The money is on its way, or paid. -/
def standing : TransactionStatus → Bool
  | .pending | .succeeded => true
  | _ => false

def outstandingOf (tx : Transaction) : ℤ :=
  if isIssued start earlier tx && standing tx.status then tx.amount else 0

/-- The sum of the refunds of the charge that are pending or succeeded. -/
def outstanding (db : Database) : ℤ := (db .transactions).total (outstandingOf start earlier)

/-- What a request asks for: the whole charge when it names no amount. -/
def asked : Operation → ℤ
  | .refund _ _ amount _ => amount.getD charge.amount
  | _ => 0

/-- The write brings no refund into the ledger. -/
def BooksNoRefund : SqlWrite → Prop
  | .insert .transactions tx => (tx : Transaction).transactionType ≠ .refund
  | .update .transactions _ f =>
    ∀ tx : Transaction, (f tx : Transaction).transactionType = tx.transactionType ∧
      (f tx : Transaction).id = tx.id
  | _ => True

abbrev noRefund : Bounds RowOf RowKey Shared := within BooksNoRefund fun _ => True

open Classical in
/-- What a call may still insert. -/
noncomputable def owed (call : Call RowOf Shared Err Operation Reply) : ℤ :=
  if call.prog.Harmless noRefund then 0 else asked charge call.op

/-- What the requests under way ask for that have not inserted their refund yet. -/
noncomputable def awaited (p : Region) : ℤ := (p.calls.map (owed charge)).sum

/-- The charge says that it is refunded. -/
def IsFlagged (db : Database) : Prop :=
  ∃ row, transactionOf db charge.id = some row ∧ row.isRefunded = true

/-- A request that arrives before the charge is flagged asks for no more than what stands and what
is awaited leave of it. -/
def RoomOnArrival (p : Region) : Event Operation → Prop
  | .spawn (.refund _ _ amount _) =>
    IsFlagged charge p.db ∨
    outstanding start earlier p.db + awaited charge p + amount.getD charge.amount ≤ charge.amount
  | _ => True

end

/-! ## The invariant -/

/-- A refund that failed has no reference by which a webhook could find it. -/
structure Fine (tx : Transaction) : Prop where
  amount : 0 ≤ tx.amount
  status : tx.status = .pending ∨ tx.status = .succeeded ∨
    (tx.status = .failed ∧ tx.providerReferenceId = none)

structure TransactionMoves (tx tx' : Transaction) : Prop where
  type : tx'.transactionType = tx.transactionType
  amount : tx'.amount = tx.amount
  reference : tx.providerReferenceId.isSome = true → tx'.providerReferenceId.isSome = true
  flag : tx.isRefunded = true → tx'.isRefunded = true

theorem TransactionMoves.refl (tx : Transaction) : TransactionMoves tx tx := ⟨rfl, rfl, id, id⟩

theorem TransactionMoves.trans (a b c : Transaction) (first : TransactionMoves a b)
    (second : TransactionMoves b c) : TransactionMoves a c :=
  ⟨second.type.trans first.type, second.amount.trans first.amount,
    second.reference ∘ first.reference, second.flag ∘ first.flag⟩

structure Moves (db db' : Database) : Prop where
  transactions : Table.Evolves TransactionMoves (db .transactions) (db' .transactions)
  grows : db.Grows db'

theorem Moves.refl (db : Database) : Moves db db := ⟨.refl TransactionMoves.refl _, .refl _⟩

theorem Moves.trans {db db' db'' : Database} (first : Moves db db')
    (second : Moves db' db'') : Moves db db'' :=
  ⟨first.transactions.trans TransactionMoves.trans second.transactions,
    first.grows.trans second.grows⟩

/-- For each refund that has been inserted and not settled yet, the call that will settle it. -/
abbrev Owners := ℕ → Option ℕ

structure Booked (start : Database) (earlier : ℕ → Bool) (txs : Table Transaction)
    (owners : Owners) : Prop where
  moves : Table.Evolves TransactionMoves (start .transactions) txs
  issued : ∀ tx ∈ txs.rows, isIssued start earlier tx = true → Fine tx
  owned : ∀ r i, owners r = some i → ∃ tx, txs.get (RowKey.id r) = some tx ∧
    isIssued start earlier tx = true ∧ tx.status = .pending ∧
    tx.providerReferenceId = none

/-- An action after which no more stands than before. -/
structure Lessens (start : Database) (earlier : ℕ → Bool)
    (txs txs' : Table Transaction) : Prop where
  moves : Table.Evolves TransactionMoves txs txs'
  less : txs'.total (outstandingOf start earlier) ≤ txs.total (outstandingOf start earlier)

section

variable {start : Database} {earlier : ℕ → Bool} {charge : Transaction}
  {txs txs' : Table Transaction} {owners owners' : Owners}

theorem Lessens.refl (txs : Table Transaction) : Lessens start earlier txs txs :=
  ⟨.refl TransactionMoves.refl _, le_rfl⟩

theorem Lessens.trans {txs'' : Table Transaction} (first : Lessens start earlier txs txs')
    (second : Lessens start earlier txs' txs'') : Lessens start earlier txs txs'' :=
  ⟨first.moves.trans TransactionMoves.trans second.moves, second.less.trans first.less⟩

/-- A change of one transaction. -/
theorem booked_of_modify {id : ℕ} {row : Transaction} {f : Transaction → Transaction}
    (booked : Booked start earlier txs owners) (found : txs.get (RowKey.id id) = some row)
    (moved : TransactionMoves row (f row)) (sameId : (f row).id = row.id)
    (less : isIssued start earlier row = true → standing (f row).status = true →
      standing row.status = true)
    (fine : isIssued start earlier row = true → Fine row → Fine (f row))
    (owned : ∀ r i, owners' r = some i → owners r = some i ∧
      (r = id → (f row).status = .pending ∧ (f row).providerReferenceId = none)) :
    Booked start earlier (txs.modify (RowKey.id id) f) owners' ∧
    Lessens start earlier txs (txs.modify (RowKey.id id) f) := by
  have moves := Table.Evolves.modify_of_get TransactionMoves.refl found moved
  have sameIssued : isIssued start earlier (f row) = isIssued start earlier row := by
    simp only [isIssued, moved.type, sameId]
  -- Every row is the one that was there, or the changed one.
  have cases' : ∀ old ∈ txs.rows, Table.rewrite (RowKey.id id) f old = old ∨
      (old = row ∧ Table.rewrite (RowKey.id id) f old = f row) := by
    intro old member
    by_cases same : key old = RowKey.id id
    · have isRow : old = row :=
        Table.eq_of_key member (Table.get_mem found) (same.trans (Table.get_key found).symm)
      subst isRow
      exact Table.rewrite_induction
        (motive := fun changed => changed = old ∨ (old = old ∧ changed = f old)) (.inl rfl)
        (.inr ⟨rfl, rfl⟩)
    · exact .inl (Table.rewrite_of_ne same)
  refine ⟨⟨booked.moves.trans TransactionMoves.trans moves, fun tx member isNew => ?_,
    fun r i isOwned => ?_⟩, moves, ?_⟩
  rotate_left 2
  · rw [Table.total_modify]
    refine Table.total_le fun old member => ?_
    rcases cases' old member with same | ⟨rfl, isChanged⟩
    · rw [same]
    · rw [isChanged]
      unfold outstandingOf
      rw [sameIssued, moved.amount]
      cases isNew : isIssued start earlier old with
      | false => simp
      | true =>
        have positive := (booked.issued old member isNew).amount
        have before := less isNew
        cases after : standing (f old).status with
        | true => simp [before after]
        | false =>
          simp only [Bool.and_false, Bool.false_eq_true, if_false, Bool.true_and]
          split
          · exact positive
          · exact le_rfl
  · obtain ⟨old, among, rfl⟩ := Table.mem_modify.1 member
    rcases cases' old among with same | ⟨rfl, isChanged⟩
    · rw [same] at isNew ⊢
      exact booked.issued old among isNew
    · rw [isChanged] at isNew ⊢
      rw [sameIssued] at isNew
      exact fine isNew (booked.issued old among isNew)
  · obtain ⟨wasOwned, settled⟩ := owned r i isOwned
    obtain ⟨tx, foundTx, isNew, pending, noReference⟩ := booked.owned r i wasOwned
    refine ⟨Table.rewrite (RowKey.id id) f tx, by rw [Table.get_modify, foundTx]; rfl, ?_⟩
    rcases cases' tx (Table.get_mem foundTx) with same | ⟨rfl, isChanged⟩
    · rw [same]
      exact ⟨isNew, pending, noReference⟩
    · have isId : RowKey.id r = RowKey.id id := by
        rw [← Table.get_key foundTx, ← Table.get_key found]
      rw [isChanged, sameIssued]
      exact ⟨isNew, settled (RowKey.id.inj isId)⟩

/-- A transaction that is new. -/
theorem booked_of_insert {tx : Transaction} (booked : Booked start earlier txs owners)
    (free : txs.conflicts tx = false) (fine : tx.transactionType = .refund → Fine tx)
    (owned : ∀ r i, owners' r = some i → owners r = some i ∨ (r = tx.id ∧
      tx.transactionType = .refund ∧ tx.status = .pending ∧ tx.providerReferenceId = none)) :
    Booked start earlier (txs.insert tx) owners' := by
  have moves := Table.Evolves.insert TransactionMoves.refl txs tx
  have absent : transactionOf start tx.id = none := by
    by_contra there
    obtain ⟨old, wasThere⟩ := Option.ne_none_iff_exists'.1 there
    obtain ⟨now, found, _⟩ := booked.moves _ old wasThere
    have none : txs.get (RowKey.id tx.id) = none := Table.get_eq_none_of_free free
    rw [none] at found
    cases found
  refine ⟨booked.moves.trans TransactionMoves.trans moves, fun other member isNew => ?_,
    fun r i isOwned => ?_⟩
  · rcases Table.mem_insert member with old | rfl
    · exact booked.issued other old isNew
    · simp only [isIssued, Bool.and_eq_true, decide_eq_true_eq] at isNew
      exact fine isNew.1
  · rcases owned r i isOwned with wasOwned | ⟨rfl, isRefund, pending, noReference⟩
    · obtain ⟨old, found, rest⟩ := booked.owned r i wasOwned
      exact ⟨old, Table.get_insert_of_some found, rest⟩
    · exact ⟨tx, Table.get_insert_self free,
        by simp [isIssued, isRefund, absent], pending, noReference⟩

/-- What a new transaction adds. -/
theorem outstanding_insert {tx : Transaction} (free : txs.conflicts tx = false)
    (isPositive : 0 ≤ tx.amount) :
    (txs.insert tx).total (outstandingOf start earlier) ≤
      txs.total (outstandingOf start earlier) + tx.amount := by
  rw [Table.total_insert free]
  unfold outstandingOf
  split
  · exact le_rfl
  · simpa using isPositive

theorem lessens_of_insert {tx : Transaction} (free : txs.conflicts tx = false)
    (noRefund : tx.transactionType ≠ .refund) : Lessens start earlier txs (txs.insert tx) := by
  refine ⟨Table.Evolves.insert TransactionMoves.refl txs tx, ?_⟩
  rw [Table.total_insert free]
  simp [outstandingOf, isIssued, noRefund]

theorem booked_of_flagged {refundId : ℕ} (booked : Booked start earlier txs owners)
    (flagged : Flagged refundId txs txs') :
    Booked start earlier txs' owners ∧ Lessens start earlier txs txs' := by
  rcases flagged with rfl | ⟨txId, updatedAt, rfl⟩
  · exact ⟨booked, .refl _⟩
  · cases found : txs.get (RowKey.id txId) with
    | none =>
      rw [Table.modify_of_absent found]
      exact ⟨booked, .refl _⟩
    | some row =>
      refine booked_of_modify booked found ⟨rfl, rfl, id, fun _ => rfl⟩ rfl (fun _ => id)
        (fun _ fine => ⟨fine.amount, fine.status⟩) ?_
      intro r i isOwned
      refine ⟨isOwned, fun isId => ?_⟩
      obtain ⟨tx, foundTx, _, pending, noReference⟩ := booked.owned r i isOwned
      rw [isId, found] at foundTx
      cases foundTx
      exact ⟨pending, noReference⟩

end

/-! ## The calls -/

/-- Refund requests for the charge, and webhooks. -/
def RefundsOf (chargeId : ℕ) : Operation → Prop
  | .refund _ paymentId amount _ => paymentId = chargeId ∧ ∀ value ∈ amount, 1 ≤ value
  | .webhook .. => True
  | _ => False

section Calls

variable (start : Database) (earlier : ℕ → Bool) (charge : Transaction)

/-- No more stands than before, or there is a new refund of no more than the call asks for. -/
def Spends (op : Operation) (db db' : Database) : Prop :=
  outstanding start earlier db' ≤ outstanding start earlier db ∨
    (∃ id refund, transactionOf db id = none ∧ transactionOf db' id = some refund ∧
      refund.transactionType = .refund) ∧
      outstanding start earlier db' ≤ outstanding start earlier db + asked charge op

def protocol : Protocol (K := RowKey) RowOf Shared Err Operation Reply Owners where
  inv s := Booked start earlier (s.db .transactions) s.ghost
  guar i op w w' := (Moves w.db w'.db ∧ Spends start earlier charge op w.db w'.db) ∧ ∀ r j, j ≠ i →
    w.ghost r = some j → w'.ghost r = some j
  rely i _ w w' := Moves w.db w'.db ∧ ∀ r, w.ghost r = some i → w'.ghost r = some i
  post _ _ _ _ := True
  allow _ _ _ := True
  faulty _ := True
  admits := RefundsOf charge.id
  apart _ _ _ := True

theorem lawful : (protocol start earlier charge).Lawful where
  guar_refl _ _ w := ⟨⟨.refl w.db, .inl le_rfl⟩, fun _ _ _ => id⟩
  rely_refl _ _ w := ⟨.refl w.db, fun _ => id⟩
  rely_trans first second :=
    ⟨first.1.trans second.1, fun r isOwned => second.2 r (first.2 r isOwned)⟩
  rely_of_guar other _ _ _ guar := ⟨guar.1.1, fun r => guar.2 r _ other⟩
  post_stable _ _ _ _ := trivial
  inv_spawn holds _ _ := holds
  inv_crash _ _ holds := ⟨holds, trivial⟩

theorem free (i : ℕ) (op : Operation) : (protocol start earlier charge).Free i op Later :=
  fun s _ _ holds => ⟨holds, ⟨⟨.refl s.db, .inl le_rfl⟩, fun _ _ _ => id⟩, .refl s.db, fun _ => id⟩

theorem persists (i : ℕ) (op : Operation) : Persists (protocol start earlier charge) i op :=
  fun _ _ t k rely there => rely.1.grows.rows t k there

theorem tolerates_events (i : ℕ) (op : Operation) :
    (protocol start earlier charge).Tolerates i op eventsOnly := by
  intro s ws events holds
  have same : s.db.applyAll ws .transactions = s.db .transactions :=
    applyAll_events events (by decide) s.db
  have moves : Moves s.db (s.db.applyAll ws) :=
    ⟨by rw [same]; exact .refl TransactionMoves.refl _, Db.grows_applyAll s.db ws⟩
  have spends : Spends start earlier charge op s.db (s.db.applyAll ws) :=
    .inl (by rw [outstanding, same, outstanding])
  refine ⟨?_, ⟨⟨moves, spends⟩, fun _ _ _ => id⟩, moves, fun _ => id⟩
  show Booked start earlier (s.db.applyAll ws .transactions) s.ghost
  rw [same]
  exact holds

variable {start earlier charge} {i : ℕ} {op : Operation} {s : Sit RowOf Shared Operation Owners}

abbrev ends (start : Database) (earlier : ℕ → Bool)
    (s : Sit RowOf Shared Operation Owners) : Prop :=
  Booked start earlier (s.db .transactions) s.ghost

/-- An action that leaves the owners as they are. -/
theorem after_booked {db' : Database} {Φ : Sit RowOf Shared Operation Owners → Prop}
    (kept : Booked start earlier (db' .transactions) s.ghost ∧
      Lessens start earlier (s.db .transactions) (db' .transactions)) (grows : s.db.Grows db')
    (next : ∀ s', (protocol start earlier charge).Env i op ⟨none, []⟩ ⟨⟨db', s.side, s.ghost⟩,
      s.live⟩ s' → Φ s') : (protocol start earlier charge).After i op s ⟨none, []⟩ db' s.side Φ :=
  ⟨s.ghost, kept.1, ⟨⟨⟨kept.2.moves, grows⟩, .inl kept.2.less⟩, fun _ _ _ => id⟩, next⟩

theorem after_charge {order : Order} {session : PaymentSession} {providerTransactionId : String}
    {sessionStatus : PaymentSessionStatus} {status : TransactionStatus} {db' : Database}
    (holds : ends start earlier s)
    (charged : Charged order session providerTransactionId sessionStatus status s.db db') :
    (protocol start earlier charge).After i op s ⟨none, []⟩ db' s.side (ends start earlier) := by
  obtain ⟨id, now, isFree, inserted⟩ := charged.transactions
  refine after_booked ?_ charged.grows fun _ env => env.inv
  rw [inserted]
  refine ⟨booked_of_insert holds isFree (fun impossible => nomatch impossible) fun _ _ isOwned =>
    .inl isOwned, ?_⟩
  exact lessens_of_insert isFree fun impossible => nomatch impossible

theorem processes (payload : WebhookPayload) :
    Processes (protocol start earlier charge) i op payload (ends start earlier) s where
  captures _ _ _ _ _ _ _ _ _ paying captured := after_charge paying.until₂.inv captured.toCharged
  refuses _ _ _ _ _ _ _ _ paying refused := after_charge paying.until₂.inv refused.toCharged
  confirms refund s₁ s₂ db' confirming confirmed := by
    obtain ⟨updatedAt, flagged⟩ := confirmed.transactions
    obtain ⟨row, found, moved⟩ :=
      confirming.until₂.drift.1.1.transactions _ refund confirming.readRefund
    have isRefund := moved.type.trans confirming.isRefund
    have hasReference : row.providerReferenceId.isSome = true :=
      moved.reference (by rw [confirming.reference]; rfl)
    have booked : Booked start earlier (s₂.db .transactions) s₂.ghost := confirming.until₂.inv
    -- A refund with a reference has not failed, and no call is about to settle it.
    have confirms : Booked start earlier ((s₂.db .transactions).modify (RowKey.id refund.id)
        (Transaction.withStatus .succeeded updatedAt)) s₂.ghost ∧ _ := booked_of_modify booked found
      ⟨rfl, rfl, id, id⟩ rfl (fun isNew _ => ?_) (fun _ fine => ⟨fine.amount, .inr (.inl rfl)⟩)
      fun r i isOwned => ⟨isOwned, fun isId => ?_⟩
    · have flags := booked_of_flagged confirms.1 flagged
      exact after_booked ⟨flags.1, confirms.2.trans flags.2⟩ confirmed.grows fun _ env => env.inv
    · rcases (booked.issued row (Table.get_mem found) isNew).status with pending | succeeded
        | ⟨_, noReference⟩
      · rw [pending]; rfl
      · rw [succeeded]; rfl
      · rw [noReference] at hasReference
        cases hasReference
    · obtain ⟨tx, foundTx, _, _, noReference⟩ := booked.owned r i isOwned
      rw [isId, found] at foundTx
      cases foundTx
      rw [noReference] at hasReference
      cases hasReference
  stops s' env := env.inv

/-- The call settles the refund that it has inserted. -/
theorem after_settled {id : ℕ} {row : Transaction} {f : Transaction → Transaction}
    {Φ : Sit RowOf Shared Operation Owners → Prop} (holds : ends start earlier s)
    (isOwner : s.ghost id = some i) (found : transactionOf s.db id = some row)
    (moved : TransactionMoves row (f row)) (sameId : (f row).id = row.id)
    (fine : Fine row → Fine (f row))
    (next : ∀ s', (protocol start earlier charge).Env i op
      ⟨none, []⟩ ⟨⟨s.db.apply (.update TableName.transactions (RowKey.id id) f), s.side,
      Function.update s.ghost id none⟩, s.live⟩ s' → Φ s') :
    (protocol start earlier charge).After i op s ⟨none, []⟩
      (s.db.apply (.update TableName.transactions (RowKey.id id) f)) s.side Φ := by
  have isPending : standing row.status = true := by
    obtain ⟨tx, foundTx, _, pending, _⟩ := holds.owned id i isOwner
    have isRow : tx = row := Option.some.inj (foundTx.symm.trans found)
    rw [← isRow, pending]
    rfl
  have kept : Booked start earlier ((s.db .transactions).modify (RowKey.id id) f)
      (Function.update s.ghost id none) ∧ _ :=
    booked_of_modify holds found moved sameId (fun _ _ => isPending) (fun _ => fine)
      fun r j isOwned => ?_
  · rw [← Db.apply_update_self s.db .transactions (RowKey.id id) f] at kept
    refine ⟨Function.update s.ghost id none, kept.1,
      ⟨⟨⟨kept.2.moves, ?_⟩, .inl kept.2.less⟩, fun r j other isOwned => ?_⟩, next⟩
    · exact Db.grows_apply s.db (.update TableName.transactions (RowKey.id id) f)
    · have notThis : r ≠ id := by
        rintro rfl
        exact other (Option.some.inj (isOwned.symm.trans isOwner))
      show Function.update s.ghost id none r = some j
      rwa [Function.update_of_ne notThis]
  · have notThis : r ≠ id := by
      rintro rfl
      rw [Function.update_self] at isOwned
      cases isOwned
    rw [Function.update_of_ne notThis] at isOwned
    exact ⟨isOwned, fun isId => absurd isId notThis⟩

theorem mayFlag {of refund : Transaction} :
    MayFlag (protocol start earlier charge) i op of refund (ends start earlier) s where
  stops s' env := env.inv
  flags updatedAt row s' env _ := by
    have flagged : Flagged refund.id (s'.db .transactions)
        ((s'.db .transactions).modify (RowKey.id of.id)
        (Transaction.refunded refund.id updatedAt)) := .inr ⟨of.id, updatedAt, rfl⟩
    have kept := booked_of_flagged (env.inv : ends start earlier s') flagged
    refine after_booked ?_ (Db.grows_apply s'.db _) fun _ env' => env'.inv
    rw [Db.apply_update_self]
    exact kept

theorem maySettle {of refund : Transaction} (isOwner : s.ghost refund.id = some i) :
    MaySettle (protocol start earlier charge) i op of refund (ends start earlier) s where
  there s' env := by
    obtain ⟨tx, found, _⟩ := env.inv.owned refund.id i (env.drift.1.2 _ isOwner)
    exact Option.isSome_iff_exists.2 ⟨tx, found⟩
  refers reference updatedAt row s' env found := by
    have owned := env.drift.1.2 _ isOwner
    obtain ⟨tx, foundTx, _, pending, noReference⟩ := env.inv.owned refund.id i owned
    have isRow : tx = row := Option.some.inj (foundTx.symm.trans found)
    subst isRow
    refine after_settled env.inv owned found ⟨rfl, rfl, fun has => ?_, id⟩ rfl
      (fun fine => ⟨fine.amount, .inl pending⟩) fun _ env' => env'.inv
    rw [noReference] at has
    cases has
  fails updatedAt row s' env found := by
    have owned := env.drift.1.2 _ isOwner
    obtain ⟨tx, foundTx, _, _, noReference⟩ := env.inv.owned refund.id i owned
    have isRow : tx = row := Option.some.inj (foundTx.symm.trans found)
    subst isRow
    exact after_settled env.inv owned found ⟨rfl, rfl, id, id⟩ rfl
      (fun fine => ⟨fine.amount, .inr (.inr ⟨rfl, noReference⟩)⟩)
      fun _ env' => env'.inv
  succeeds updatedAt row s' env found :=
    after_settled env.inv (env.drift.1.2 _ isOwner) found ⟨rfl, rfl, id, id⟩ rfl
      (fun fine => ⟨fine.amount, .inr (.inl rfl)⟩)
      fun _ _ => mayFlag
  stops s' env := env.inv

theorem wp_refundCall {core : Core} {amount : Option ℤ} {reason : String}
    (found : transactionOf start charge.id = some charge) (positive : 0 ≤ charge.amount)
    (atLeastOne : ∀ value ∈ amount, 1 ≤ value) (holds : ends start earlier s) :
    (protocol start earlier charge).wp i (.refund core charge.id amount reason)
      (PaymentService.refund core charge.id amount reason)
      (fun _ _ s' => ends start earlier s') .start s := by
  refine wp_refundRequest (lawful start earlier charge) (free start earlier charge i _) holds
    (fun _ env => env.inv)
    fun of refund s' ofCharge refunding => ?_
  obtain ⟨uuid, id, now, isRow⟩ := refunding.row
  -- The amount of the charge is the same as ever.
  have sameAmount : of.amount = charge.amount := by
    obtain ⟨row, foundRow, moved⟩ := holds.moves _ charge found
    have readCharge : (s.db .transactions).get (RowKey.id charge.id) = some of := by
      rw [← ofCharge]
      exact refunding.readCharge
    rw [← moved.amount, Option.some.inj (readCharge.symm.trans foundRow)]
  have isAsked : refund.amount = asked charge (.refund core charge.id amount reason) := by
    rw [isRow]
    show amount.getD of.amount = amount.getD charge.amount
    rw [sameAmount]
  have fine : Fine refund := by
    refine ⟨isAsked ▸ ?_, .inl (by rw [isRow]; rfl)⟩
    show 0 ≤ amount.getD charge.amount
    cases amount with
    | none => exact positive
    | some value => exact zero_le_one.trans (atLeastOne value rfl)
  have isRefund : refund.transactionType = .refund := by rw [isRow]; rfl
  have kept : Booked start earlier ((s'.db .transactions).insert refund)
      (Function.update s'.ghost refund.id (some i)) :=
    booked_of_insert refunding.until'.inv refunding.free (fun _ => fine) fun r j isOwned => ?_
  · have absent : transactionOf s'.db refund.id = none := Table.get_eq_none_of_free refunding.free
    have spends : Spends start earlier charge (.refund core charge.id amount reason) s'.db
        (s'.db.apply (.insert TableName.transactions refund)) := by
      refine .inr ⟨⟨refund.id, refund, absent, ?_, isRefund⟩, ?_⟩
      · rw [transactionOf, Db.apply_insert_self]
        exact Table.get_insert_self refunding.free
      · rw [outstanding, Db.apply_insert_self, ← isAsked]
        exact outstanding_insert refunding.free fine.amount
    have moves : Moves s'.db (s'.db.apply (.insert TableName.transactions refund)) := by
      refine ⟨?_, Db.grows_apply s'.db _⟩
      rw [Db.apply_insert_self]
      exact Table.Evolves.insert TransactionMoves.refl _ refund
    rw [← Db.apply_insert_self s'.db .transactions refund] at kept
    refine ⟨Function.update s'.ghost refund.id (some i), kept,
      ⟨⟨moves, spends⟩, fun r j other isOwned => ?_⟩, fun s₂ env₂ => ?_⟩
    · -- A refund that has an owner is there already.
      have notThis : r ≠ refund.id := by
        rintro rfl
        obtain ⟨tx, foundTx, _⟩ := refunding.until'.inv.owned refund.id j isOwned
        rw [show (s'.db .transactions).get (RowKey.id refund.id) = none from absent] at foundTx
        cases foundTx
      show Function.update s'.ghost refund.id (some i) r = some j
      rwa [Function.update_of_ne notThis]
    · exact maySettle (env₂.drift.1.2 _ (Function.update_self ..))
  · by_cases isThis : r = refund.id
    · exact .inr ⟨isThis, isRefund, by rw [isRow]; rfl, by rw [isRow]; rfl⟩
    · rw [Function.update_of_ne isThis] at isOwned
      exact .inl isOwned

end Calls

theorem verified (env : Config) {start : Database} {earlier : ℕ → Bool} {charge : Transaction}
    (found : transactionOf start charge.id = some charge) (positive : 0 ≤ charge.amount) :
    (protocol start earlier charge).Verified (code env) := by
  intro i op s s' holds _ admitted _ started
  refine wp_mono (fun _ _ s'' (booked : ends start earlier s'') => ⟨booked, trivial⟩) ?_
  cases op with
  | refund core paymentId amount reason =>
    obtain ⟨rfl, atLeastOne⟩ := admitted
    exact wp_map (wp_refundCall found positive atLeastOne started.inv)
  | webhook payload signature signatureValid =>
    exact wp_returning (wp_process (lawful start earlier charge) (free start earlier charge i _)
      (persists start earlier charge i _)
      (tolerates_events start earlier charge i _) started.inv started.self (processes payload))
  | _ => exact admitted.elim

/-! ## What the calls insert -/

def IsRefund : Operation → Prop
  | .refund .. => True
  | _ => False

theorem asked_eq_zero {charge : Transaction} {op : Operation}
    (other : ¬ IsRefund op) : asked charge op = 0 := by
  cases op with
  | refund => exact absurd trivial other
  | _ => rfl

theorem asked_nonneg {charge : Transaction} {op : Operation} (positive : 0 ≤ charge.amount)
    (serves : RefundsOf charge.id op) : 0 ≤ asked charge op := by
  cases op with
  | refund core paymentId amount reason =>
    cases amount with
    | none => exact positive
    | some value => exact zero_le_one.trans (serves.2 value rfl)
  | _ => exact le_rfl

/-- A refund request inserts one row, and all else that it writes is updates. -/
theorem once_refund (core : Core) (paymentId : ℕ) (amount : Option ℤ) (reason : String) :
    (PaymentService.refund core paymentId amount reason).Once noRefund := by
  have marks : ∀ id status, (updateTransactionStatus .pool id status).Harmless noRefund :=
    fun id status =>
    quiet_nowIso.harmless.bind fun _ => .exec (.updateByKey (fun _ => ⟨rfl, rfl⟩) fun _ => trivial)
  refine Prog.Once.after (.exec (.selectByKey fun _ => trivial)) fun charge => ?_
  cases charge with
  | none => exact trivial
  | some charge =>
    refine Prog.Once.after (quiet_throwIf _ _).harmless fun _ =>
      Prog.Once.after (quiet_throwIf _ _).harmless fun _ => ?_
    refine Prog.Once.after quiet_uuidv4.harmless fun uuid =>
      Prog.Once.bind (Prog.Once.after (quiet_nextval _).harmless fun _ => .exec)
      fun refundTransaction => ?_
    split
    · refine Prog.Harmless.bind (.tryCatch (Prog.Quiet.ofExcept.harmless.bind fun transactionId =>
        quiet_nowIso.harmless.bind fun _ => ?_)
        fun _ => (marks _ _).bind fun _ => trivial) fun _ => trivial
      exact Prog.Harmless.bind (.exec (.updateByKey (fun _ => ⟨rfl, rfl⟩) fun _ => trivial))
        fun _ => trivial
    · refine (marks _ _).bind fun succeeded =>
        Prog.Harmless.bind (quiet_nowIso.harmless.bind fun _ => ?_) fun _ => trivial
      exact Prog.Harmless.bind (.exec (.updateByKey (fun _ => ⟨rfl, rfl⟩) fun _ => trivial))
        fun _ => trivial

theorem once_code (env : Config) (op : Operation) (isRefund : IsRefund op) :
    (code env op).Once noRefund := by
  cases op with
  | refund core paymentId amount reason => exact (once_refund core paymentId amount reason).map
  | _ => exact isRefund.elim

/-- A refund of the ledger was there before. -/
def WasThere (db : Database) : ∀ t, RowOf t → Prop
  | .transactions => fun tx => tx.transactionType = .refund → (transactionOf db tx.id).isSome = true
  | _ => fun _ => True

theorem upholds_of_booksNoRefund {db : Database} {w : SqlWrite} (books : BooksNoRefund w) :
    w.Upholds (WasThere db) := by
  cases w with
  | insert t row =>
    cases t with
    | transactions => exact fun isRefund => absurd isRefund books
    | _ => trivial
  | update t k f =>
    cases t with
    | transactions =>
      intro row before isRefund
      obtain ⟨sameType, sameId⟩ := books row
      show (transactionOf db (f row : Transaction).id).isSome = true
      rw [sameId]
      exact before (sameType.symm.trans isRefund)
    | _ => exact fun _ _ => trivial
  | lock t k => trivial

/-- Such writes bring no refund. -/
theorem no_new_refund {db : Database} {ws : List SqlWrite} (books : ∀ w ∈ ws, BooksNoRefund w)
    {id : ℕ} {refund : Transaction} (found : transactionOf (db.applyAll ws) id = some refund)
    (isRefund : refund.transactionType = .refund) : transactionOf db id ≠ none := by
  have begins : Db.Upright (WasThere db) db := by
    intro t row member
    cases t with
    | transactions => exact fun _ => Option.isSome_iff_exists.2 ⟨row, Table.get_of_mem member⟩
    | _ => trivial
  have upright :=
    Db.upright_applyAll (fun w member => upholds_of_booksNoRefund (books w member)) begins
  have there := upright .transactions refund (Table.get_mem found) isRefund
  have isId : Transaction.id refund = id := RowKey.id.inj (Table.get_key found)
  rw [isId] at there
  exact Option.isSome_iff_ne_none.1 there

/-! ## Runs -/

/-- The call inserts no refund any more. -/
def IsSpent (call : Call RowOf Shared Err Operation Reply) : Prop :=
  call.prog.Harmless noRefund ∧ ∀ w ∈ call.loc.writes, BooksNoRefund w

/-- What is set aside for a call covers what it may still insert.  A request that finds the charge
flagged when it arrives needs nothing. -/
structure Covers (env : Config) (charge : Transaction) (db : Database)
    (call : Call RowOf Shared Err Operation Reply) (budget : ℤ) : Prop where
  nonneg : 0 ≤ budget
  enough : IsSpent call ∨ asked charge call.op ≤ budget ∨
    IsRefund call.op ∧ IsFlagged charge db ∧ call.prog = code env call.op ∧ call.loc = .start

/-- There is a budget for each call, and with what stands they fit into the charge. -/
def Budgeted (env : Config) (start : Database) (earlier : ℕ → Bool) (charge : Transaction)
    (p : Region) : Prop :=
  ∃ budgets : List ℤ, budgets.length = p.calls.length ∧
    (∀ (i : ℕ) call budget, p.calls[i]? = some call → budgets[i]? = some budget →
      Covers env charge p.db call budget) ∧
    outstanding start earlier p.db + budgets.sum ≤ charge.amount

section

variable {env : Config} {start : Database} {earlier : ℕ → Bool} {charge : Transaction}
  {db db' : Database} {p p' : Region}
  {call : Call RowOf Shared Err Operation Reply} {budget : ℤ}

theorem IsFlagged.later (flagged : IsFlagged charge db) (moves : Moves db db') :
    IsFlagged charge db' := by
  obtain ⟨row, found, isRefunded⟩ := flagged
  obtain ⟨row', found', moved⟩ := moves.transactions _ row found
  exact ⟨row', found', moved.flag isRefunded⟩

theorem Covers.later (covers : Covers env charge db call budget) (moves : Moves db db') :
    Covers env charge db' call budget :=
  ⟨covers.nonneg, covers.enough.imp_right
    (Or.imp_right fun ⟨isRefund, flagged, rest⟩ => ⟨isRefund, flagged.later moves, rest⟩)⟩

theorem Spends.of_booksNoRefund {op : Operation} {ws : List SqlWrite}
    (spends : Spends start earlier charge op db (db.applyAll ws))
    (books : ∀ w ∈ ws, BooksNoRefund w) :
    outstanding start earlier (db.applyAll ws) ≤ outstanding start earlier db := by
  rcases spends with less | ⟨⟨id, refund, absent, found, isRefund⟩, _⟩
  · exact less
  · exact absurd absent (no_new_refund books found isRefund)

/-- A request that finds the charge flagged is refused. -/
theorem refused_of_flagged {core : Core} {amount : Option ℤ} {reason : String} {choice : Choice}
    {x : Shared} {out : Outcome (K := RowKey) RowOf Shared Err Reply}
    (flagged : IsFlagged charge db)
    (acts : (code env (.refund core charge.id amount reason)).next choice .start db x = some out) :
    (∃ err, out.prog = .done (.error err)) ∧ out.loc.writes = [] ∧ out.db = db := by
  obtain ⟨row, found, isRefunded⟩ := flagged
  rcases Prog.next_pool acts with rfl | ⟨effect, member, rfl⟩
  · exact ⟨⟨_, rfl⟩, rfl, rfl⟩
  · obtain rfl := Option.some.inj (List.mem_singleton.1 member)
    refine ⟨?_, rfl, rfl⟩
    have isRow : (db .transactions).get (RowKey.id charge.id) = some row := found
    simp only [Prog.bind, isRow]
    by_cases notRefundable : row.transactionType ∉
      [TransactionType.charge, TransactionType.codCollection] ∨ row.status ≠ .succeeded
    · rw [throwIf_bind notRefundable]
      exact ⟨_, rfl⟩
    · rw [throwIf_bind_of_not notRefundable, throwIf_bind isRefunded]
      exact ⟨_, rfl⟩

/-- One action of a call takes as much from its budget as it adds to what stands. -/
theorem covers_next {choice : Choice} {x : Shared}
    {out : Outcome (K := RowKey) RowOf Shared Err Reply} (covers : Covers env charge db call budget)
    (served : RefundsOf charge.id call.op)
    (once : IsRefund call.op → call.prog.Once noRefund ∧ ∀ w ∈ call.loc.writes, BooksNoRefund w)
    (spends : Spends start earlier charge call.op db out.db)
    (acts : call.prog.next choice call.loc db x = some out) :
    ∃ budget', Covers env charge out.db ⟨call.op, out.prog, out.loc⟩ budget' ∧
      outstanding start earlier out.db + budget' ≤ outstanding start earlier db + budget := by
  obtain ⟨nonneg, ⟨harmless, kept⟩ | enough | ⟨isRefund, flagged, isCode, isStart⟩⟩ := covers
  · obtain ⟨harmless', kept', ws, books, isDb⟩ := harmless.next kept acts
    rw [isDb] at spends ⊢
    exact ⟨budget, ⟨nonneg, .inl ⟨harmless', kept'⟩⟩,
      Int.add_le_add_right (spends.of_booksNoRefund books) budget⟩
  · by_cases isRefund : IsRefund call.op
    · obtain ⟨once, kept⟩ := once isRefund
      obtain ⟨kept', ⟨_, ws, books, isDb⟩ | harmless'⟩ := once.next kept acts
      · rw [isDb] at spends ⊢
        exact ⟨budget, ⟨nonneg, .inr (.inl enough)⟩,
          Int.add_le_add_right (spends.of_booksNoRefund books) budget⟩
      · -- the refund is inserted, and nothing is awaited of the call any more
        refine ⟨0, ⟨le_rfl, .inl ⟨harmless', kept'⟩⟩, ?_⟩
        rcases spends with less | ⟨_, spent⟩ <;> omega
    · have nothing : asked charge call.op = 0 := asked_eq_zero isRefund
      refine ⟨budget, ⟨nonneg, .inr (.inl enough)⟩, ?_⟩
      rcases spends with less | ⟨_, spent⟩ <;> omega
  · obtain ⟨op, prog, loc⟩ := call
    cases op with
    | refund core paymentId amount reason =>
      obtain ⟨rfl, _⟩ := served
      dsimp only at isCode isStart acts
      rw [isCode, isStart] at acts
      obtain ⟨⟨err, isDone⟩, none, sameDb⟩ := refused_of_flagged flagged acts
      refine ⟨budget, ⟨nonneg, .inl ⟨?_, ?_⟩⟩, by rw [sameDb]⟩
      · show out.prog.Harmless noRefund
        rw [isDone]
        trivial
      · show ∀ w ∈ out.loc.writes, BooksNoRefund w
        rw [none]
        exact fun _ impossible => absurd impossible List.not_mem_nil
    | _ => exact isRefund.elim

end

/-- Refund requests for a charge and webhooks, with any faults and crashes, where every request has
room when it arrives. -/
def RoomyRefunds (start : Database) (earlier : ℕ → Bool) (charge : Transaction) (p : Region)
    (e : Event Operation) : Prop :=
  Serves (RefundsOf charge.id) e ∧ RoomOnArrival start earlier charge p e

/-- In every state of all runs, the refunds of the charge that are pending or succeeded are covered
by it. -/
def AlwaysCovered (env : Config) (allowed : Region → Event Operation → Prop) (earlier : ℕ → Bool)
    (charge : Transaction) (start : Region) : Prop :=
  ∀ p, Pool.Reach (code env) allowed start p → outstanding start.db earlier p.db ≤ charge.amount

/-- What holds in every state. -/
structure Accounted (env : Config) (start : Database) (earlier : ℕ → Bool) (charge : Transaction)
    (p : Region) : Prop where
  sound : ∃ ghost, (protocol start earlier charge).Sound p ghost
  served : ∀ call ∈ p.calls, RefundsOf charge.id call.op
  sparing : p.Sparing noRefund IsRefund
  budgeted : Budgeted env start earlier charge p

section

variable {env : Config} {start : Database} {earlier : ℕ → Bool} {charge : Transaction}
  {p p' : Region} {e : Event Operation}

theorem Accounted.covered (accounted : Accounted env start earlier charge p) :
    outstanding start earlier p.db ≤ charge.amount := by
  obtain ⟨budgets, sameLength, covers, fits⟩ := accounted.budgeted
  have nonneg : 0 ≤ budgets.sum := by
    refine List.sum_nonneg fun budget member => ?_
    obtain ⟨i, bound, isBudget⟩ := List.getElem_of_mem member
    have isCall : i < p.calls.length := sameLength ▸ bound
    have found : p.calls[i]? = some p.calls[i] := List.getElem?_eq_getElem isCall
    exact (covers i _ budget found (by rw [List.getElem?_eq_getElem bound, isBudget])).nonneg
  omega

theorem admissible (roomy : RoomyRefunds start earlier charge p e) :
    (protocol start earlier charge).Admissible p e := by
  cases e with
  | spawn op => exact ⟨roomy.1, fun _ _ _ => ⟨trivial, trivial⟩⟩
  | step i choice =>
    exact ⟨fun _ _ _ _ _ _ _ => trivial,
      fun call found => ⟨fun _ => trivial, fun out acts => trivial⟩⟩
  | crash i => exact fun _ _ => trivial

theorem served_next (served : ∀ call ∈ p.calls, RefundsOf charge.id call.op)
    (serves : Serves (RefundsOf charge.id) e) (moves : p.next (code env) e = some p') :
    ∀ call ∈ p'.calls, RefundsOf charge.id call.op := by
  have ops := Pool.ops_next moves
  intro call member
  have isOp : call.op ∈ p'.calls.map Call.op := List.mem_map_of_mem member
  rw [ops] at isOp
  rcases List.mem_append.1 isOp with old | new
  · obtain ⟨before, among, same⟩ := List.mem_map.1 old
    exact same ▸ served before among
  · cases e with
    | spawn op =>
      rw [List.mem_singleton.1 new]
      exact serves
    | step i choice => exact absurd new List.not_mem_nil
    | crash i => exact absurd new List.not_mem_nil

/-- What the calls owe are budgets for them. -/
theorem covers_owed (positive : 0 ≤ charge.amount)
    (served : ∀ call ∈ p.calls, RefundsOf charge.id call.op) (sparing : p.Sparing noRefund IsRefund)
    {i : ℕ} {call : Call RowOf Shared Err Operation Reply} (found : p.calls[i]? = some call) :
    Covers env charge p.db call (owed charge call) := by
  have isNonneg := asked_nonneg positive (served call (List.mem_of_getElem? found))
  unfold owed
  split
  next harmless =>
    refine ⟨le_rfl, ?_⟩
    by_cases isRefund : IsRefund call.op
    · exact .inl ⟨harmless, (sparing i call found isRefund).2⟩
    · exact .inr (.inl (asked_eq_zero isRefund).le)
  next => exact ⟨isNonneg, .inr (.inl le_rfl)⟩

/-- A call begins with its budget. -/
theorem budgeted_append {calls : List (Call RowOf Shared Err Operation Reply)} {db : Database}
    {budgets : List ℤ} {x : Shared} {call : Call RowOf Shared Err Operation Reply} {budget : ℤ}
    (sameLength : budgets.length = calls.length)
    (covers : ∀ (i : ℕ) call budget, calls[i]? = some call → budgets[i]? = some budget →
      Covers env charge db call budget) (new : Covers env charge db call budget)
    (fits : outstanding start earlier db + budgets.sum + budget ≤ charge.amount) :
    Budgeted env start earlier charge ⟨db, x, calls ++ [call]⟩ := by
  refine ⟨budgets ++ [budget],
    by simp [sameLength], fun i other budget' found isBudget => ?_, by simpa [add_assoc] using fits⟩
  rcases Pool.getElem?_spawned found with old | ⟨rfl, rfl⟩
  · have bound : i < budgets.length := sameLength ▸ (List.getElem?_eq_some_iff.1 old).1
    rw [List.getElem?_append_left bound] at isBudget
    exact covers i other budget' old isBudget
  · rw [← sameLength, List.getElem?_concat_length] at isBudget
    exact Option.some.inj isBudget ▸ new

theorem budgeted_spawn (accounted : Accounted env start earlier charge p)
    (positive : 0 ≤ charge.amount) {op : Operation}
    (roomy : RoomyRefunds start earlier charge p (.spawn op)) :
    Budgeted env start earlier charge ⟨p.db, p.side, p.calls ++ [⟨op, code env op, .start⟩]⟩ := by
  obtain ⟨budgets, sameLength, covers, fits⟩ := accounted.budgeted
  cases op with
  | refund core paymentId amount reason =>
    obtain ⟨rfl, _⟩ := roomy.1
    have serves : RefundsOf charge.id (.refund core charge.id amount reason) := roomy.1
    rcases roomy.2 with flagged | room
    · have refused : Covers env charge p.db ⟨.refund core charge.id amount reason,
          code env (.refund core charge.id amount reason), .start⟩ 0 :=
        ⟨le_rfl, .inr (.inr ⟨trivial, flagged, rfl, rfl⟩)⟩
      exact budgeted_append sameLength covers refused (by simpa using fits)
    · have new : Covers env charge p.db ⟨.refund core charge.id amount reason,
          code env (.refund core charge.id amount reason), .start⟩
          (amount.getD charge.amount) := ⟨asked_nonneg positive serves, .inr (.inl le_rfl)⟩
      refine budgeted_append (List.length_map _) (fun i call budget found isBudget => ?_) new room
      rw [List.getElem?_map, found] at isBudget
      exact Option.some.inj isBudget ▸ covers_owed positive accounted.served accounted.sparing found
  | webhook payload signature signatureValid =>
    exact budgeted_append sameLength covers ⟨le_rfl, .inr (.inl le_rfl)⟩ (by simpa using fits)
  | _ => exact roomy.1.elim

/-- The budget of one call changes. -/
theorem budgeted_set {db : Database} {x : Shared} {i : ℕ}
    {after : Call RowOf Shared Err Operation Reply} {budgets : List ℤ} {budget budget' : ℤ}
    (sameLength : budgets.length = p.calls.length) (isBudget : budgets[i]? = some budget)
    (covers : ∀ (j : ℕ) call budget, p.calls[j]? = some call → budgets[j]? = some budget →
      Covers env charge db call budget) (new : Covers env charge db after budget')
    (fits : outstanding start earlier db + budget' + budgets.sum ≤ charge.amount + budget) :
    Budgeted env start earlier charge ⟨db, x, p.calls.set i after⟩ := by
  obtain ⟨bound, isBudget⟩ := List.getElem?_eq_some_iff.1 isBudget
  refine ⟨budgets.set i budget',
    by simp [sameLength], fun j other budget'' found isBudget'' => ?_, ?_⟩
  · rcases Pool.getElem?_moved found with ⟨rfl, rfl⟩ | ⟨different, old⟩
    · rw [List.getElem?_set_self bound] at isBudget''
      exact Option.some.inj isBudget'' ▸ new
    · rw [List.getElem?_set_ne (Ne.symm different)] at isBudget''
      exact covers j other budget'' old isBudget''
  · have sum := List.sum_set' budgets i budget'
    rw [dif_pos bound, isBudget] at sum
    show outstanding start earlier db + (budgets.set i budget').sum ≤ charge.amount
    omega

theorem budgeted_step (accounted : Accounted env start earlier charge p) {i : ℕ} {choice : Choice}
    (roomy : RoomyRefunds start earlier charge p (.step i choice))
    (moves : p.next (code env) (.step i choice) = some p') :
    Budgeted env start earlier charge p' := by
  obtain ⟨ghost, sound⟩ := accounted.sound
  obtain ⟨ghost', call', _, found', ⟨moved, spends⟩, _⟩ :=
    sound_step (lawful start earlier charge) sound (admissible roomy) moves
  obtain ⟨call, out, found, acts, _, rfl⟩ := Pool.stepCall_inv moves
  rw [Option.some.inj (found'.symm.trans found)] at spends
  obtain ⟨budgets, sameLength, covers, fits⟩ := accounted.budgeted
  have bound : i < budgets.length := sameLength ▸ (List.getElem?_eq_some_iff.1 found).1
  have isBudget : budgets[i]? = some budgets[i] := List.getElem?_eq_getElem bound
  obtain ⟨budget', new, spent⟩ := covers_next (covers i call _ found isBudget)
    (accounted.served call (List.mem_of_getElem? found))
    (accounted.sparing i call found) spends acts
  refine budgeted_set sameLength isBudget
    (fun j other budget found isBudget => (covers j other budget found isBudget).later moved) new ?_
  show outstanding start earlier out.db + budget' + budgets.sum ≤ charge.amount + budgets[i]
  omega

theorem budgeted_crash (accounted : Accounted env start earlier charge p) {i : ℕ}
    (moves : p.next (code env) (.crash i) = some p') : Budgeted env start earlier charge p' := by
  obtain ⟨call, found, _, rfl⟩ := Pool.crashCall_inv moves
  obtain ⟨budgets, sameLength, covers, fits⟩ := accounted.budgeted
  have bound : i < budgets.length := sameLength ▸ (List.getElem?_eq_some_iff.1 found).1
  have isBudget : budgets[i]? = some budgets[i] := List.getElem?_eq_getElem bound
  refine budgeted_set sameLength isBudget covers
    ⟨(covers i call _ found isBudget).nonneg, .inl ⟨trivial, ?_⟩⟩ ?_
  · exact fun _ impossible => absurd impossible List.not_mem_nil
  · show outstanding start earlier p.db + budgets[i] + budgets.sum ≤ charge.amount + budgets[i]
    omega

theorem accounted_next (accounted : Accounted env start earlier charge p)
    (found : transactionOf start charge.id = some charge) (positive : 0 ≤ charge.amount)
    (roomy : RoomyRefunds start earlier charge p e) (moves : p.next (code env) e = some p') :
    Accounted env start earlier charge p' where
  sound := by
    obtain ⟨ghost, sound⟩ := accounted.sound
    exact (sound_next (lawful start earlier charge) (verified env found positive) sound
      (admissible roomy) moves).1
  served := served_next accounted.served roomy.1 moves
  sparing := Pool.sparing_next (once_code env) accounted.sparing moves
  budgeted := by
    cases e with
    | spawn op =>
      cases moves
      exact budgeted_spawn accounted positive roomy
    | step i choice => exact budgeted_step accounted roomy moves
    | crash i => exact budgeted_crash accounted moves

/-- Before any call. -/
theorem accounted_start {db : Database} {x : Shared}
    (fine : ∀ tx ∈ (db .transactions).rows, isIssued db earlier tx = true → Fine tx)
    (covered : outstanding db earlier db ≤ charge.amount) :
    Accounted env db earlier charge (Pool.quiet db x) where
  sound := ⟨fun _ => none, sound_quiet (fun _ => none)
    ⟨.refl TransactionMoves.refl _, fine, fun _ _ impossible => nomatch impossible⟩⟩
  served _ none := absurd none List.not_mem_nil
  sparing i call found := by simp [Pool.quiet] at found
  budgeted := ⟨[], rfl,
    fun i call budget found => by simp [Pool.quiet] at found, by simpa [Pool.quiet] using covered⟩

end

/-- From any database in which what was refunded of the charge so far is covered. -/
theorem roomy_refunds_are_covered (env : Config) (db : Database) (x : Shared) (charge : Transaction)
    (earlier : ℕ → Bool) (found : transactionOf db charge.id = some charge)
    (positive : 0 ≤ charge.amount)
    (fine : ∀ tx ∈ (db .transactions).rows, isIssued db earlier tx = true → Fine tx)
    (covered : outstanding db earlier db ≤ charge.amount) :
    AlwaysCovered env (RoomyRefunds db earlier charge) earlier charge (Pool.quiet db x) :=
  fun _ reached =>
  (reached.induct (Accounted env db earlier charge) (accounted_start fine covered)
    fun _ _ _ accounted roomy moves =>
    accounted_next accounted found positive roomy moves).covered

/-! ## Refunds in parts -/

instance : DecidablePred (RefundsOf 1)
  | .refund _ paymentId amount _ =>
    inferInstanceAs (Decidable (paymentId = 1 ∧ ∀ value ∈ amount, 1 ≤ value))
  | .webhook .. => inferInstanceAs (Decidable True)
  | .assign .. | .tryAutoAssign .. | .reassign .. | .updateDeliveryStatus .. | .placeOrder ..
  | .updateOrderStatus ..
  | .initPayment .. | .online .. | .offline .. | .ping .. | .recordPayout .. | .sleep .. =>
    inferInstanceAs (Decidable False)

/-- A refund of 100 that the provider has still to confirm. -/
def earlierRefund : Transaction :=
  { Sample.charge with
    id := 2, transactionType := .refund, status := .pending, amount := 100, idempotencyKey := none }

def partlyRefunded : Database :=
  Sample.dbCharged.apply (.insert TableName.transactions earlierRefund : SqlWrite)

def onRecord (id : ℕ) : Bool := id == 2

/-- No request is under way when another one arrives. -/
def hasRoom (p : Region) (e : Event Operation) : Bool :=
  decide (Serves (RefundsOf 1) e) && match e with
    | .spawn (.refund _ _ amount _) =>
      p.Idle && decide (outstanding partlyRefunded onRecord p.db + amount.getD 1100 ≤ 1100)
    | _ => true

theorem awaited_of_idle {charge : Transaction} {p : Region} (idle : p.Idle = true) :
    awaited charge p = 0 := by
  refine List.sum_eq_zero fun owes member => ?_
  obtain ⟨call, among, rfl⟩ := List.mem_map.1 member
  obtain ⟨result, isDone⟩ := Pool.ended_iff.1 (List.all_eq_true.1 idle call among)
  have harmless : call.prog.Harmless noRefund := by
    rw [isDone]
    trivial
  rw [owed, if_pos harmless]

theorem roomy_of_hasRoom {p : Region} {e : Event Operation} (room : hasRoom p e = true) :
    RoomyRefunds partlyRefunded onRecord Sample.charge p e := by
  obtain ⟨serves, room⟩ := (Bool.and_eq_true _ _).mp room
  have servesCharge : Serves (RefundsOf 1) e := of_decide_eq_true serves
  refine ⟨servesCharge, ?_⟩
  cases e with
  | spawn op =>
    cases op with
    | refund core paymentId amount reason =>
      obtain ⟨idle, fits⟩ := (Bool.and_eq_true _ _).mp room
      refine .inr ?_
      rw [awaited_of_idle idle, add_zero]
      exact of_decide_eq_true fits
    | _ => trivial
  | step i choice => trivial
  | crash i => trivial

/-- Two more refunds, which take the rest of the charge. -/
def refundedInParts : List (Event Operation) :=
  [.spawn (.refund Sample.core 1 (some 600) "cold")] ++ List.replicate 6 (Sample.act 0) ++
  [.spawn (.refund Sample.core 1 (some 400) "late")] ++ List.replicate 6 (Sample.act 1)

theorem parts_are_covered :
    AlwaysCovered Sample.env (RoomyRefunds partlyRefunded onRecord Sample.charge)
      onRecord Sample.charge
        (Pool.quiet partlyRefunded Sample.shared) ∧
      ∃ p, Pool.Reach (code Sample.env) (RoomyRefunds partlyRefunded onRecord Sample.charge)
        (Pool.quiet partlyRefunded Sample.shared) p ∧
        outstanding partlyRefunded onRecord p.db = 1100 := by
  refine ⟨roomy_refunds_are_covered Sample.env partlyRefunded Sample.shared Sample.charge onRecord
    rfl (by decide) ?_ (by decide), ?_⟩
  · intro tx member isEarlier
    have rows : (partlyRefunded .transactions).rows = [Sample.charge, earlierRefund] := rfl
    rw [rows] at member
    rcases List.mem_cons.1 member with rfl | isRefund
    · exact absurd isEarlier (by decide)
    · rw [List.mem_singleton.1 isRefund]
      exact ⟨by decide, .inl rfl⟩
  · have ran : (Pool.play (code Sample.env) hasRoom refundedInParts
        (Pool.quiet partlyRefunded Sample.shared)).map
        (fun p => outstanding partlyRefunded onRecord p.db) = some 1100 := by decide +kernel
    obtain ⟨p, played, sum⟩ := Option.map_eq_some_iff.1 ran
    exact ⟨p, Pool.reach_of_play (fun _ _ => roomy_of_hasRoom) played, sum⟩

/-! ## Without room -/

/-- The runs in which no call fails. -/
def RefundsOnly (_ : Region) (e : Event Operation) : Prop := Serves (RefundsOf 1) e ∧ Faultless e

instance (p : Region) (e : Event Operation) : Decidable (RefundsOnly p e) :=
  inferInstanceAs (Decidable (_ ∧ _))

/-- Two full refunds, one after the other, before the provider confirms the first. -/
def refundedTwice : List (Event Operation) :=
  [.spawn (.refund Sample.core 1 none "cold")] ++ List.replicate 6 (Sample.act 0) ++
  [.spawn (.refund Sample.core 1 none "cold")] ++ List.replicate 6 (Sample.act 1)

theorem refunds_exceed_the_charge :
    ¬ AlwaysCovered Sample.env RefundsOnly (fun _ => false) Sample.charge
      (Pool.quiet Sample.dbCharged Sample.shared) := by
  intro always
  have twice : (Pool.play (code Sample.env) (fun p e => decide (RefundsOnly p e)) refundedTwice
      (Pool.quiet Sample.dbCharged Sample.shared)).map
      (fun p => outstanding Sample.dbCharged (fun _ => false) p.db) = some 2200 := by
    decide +kernel
  obtain ⟨p, played, sum⟩ := Option.map_eq_some_iff.1 twice
  have covered := always p (Pool.reach_of_play (fun _ _ => of_decide_eq_true) played)
  rw [show outstanding (Pool.quiet Sample.dbCharged Sample.shared).db (fun _ => false) p.db =
    2200 from sum] at covered
  exact absurd covered (by decide)

end SwiftBite.Verified.Refunds
