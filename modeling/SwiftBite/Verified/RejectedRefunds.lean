import SwiftBite.Store.Added
import SwiftBite.Store.Follow
import SwiftBite.Verified.PaymentSteps

/-! # Refunds marked as failed

One `try` covers the provider's answer to a refund and the statement that stores its reference,
and the handler takes either failure for a rejection.  The play of a call is taken apart action
by action here, so that the statement which fails is known.
-/

set_option autoImplicit false

namespace SwiftBite.Verified.RejectedRefunds

open Store Prog Statement PaymentService

/-- The row was not there before. -/
abbrev Added (db db' : Database) (row : Transaction) : Prop :=
  Table.Added (db .transactions) (db' .transactions) row

/-- The answer of the provider, if it is asked. -/
def answer (core : Core) (charge : Transaction) (amount : Option ℤ) (reason : String) :
    Except Err (Option String) :=
  core.refund charge.providerReferenceId (amount.getD charge.amount) reason

/-- A refund that is marked as failed was rejected, and one that was accepted is still pending and
has the provider's reference, or has succeeded. -/
structure Truthful (answer : Except Err (Option String)) (charge : Transaction)
    (db db' : Database) : Prop where
  failed : ∀ row, Added db db' row → row.status = .failed → ∃ err, answer = .error err
  accepted : ∀ row transactionId, Added db db' row → charge.method = .online →
    answer = .ok transactionId →
    row.status = .pending ∧ row.providerReferenceId = transactionId.or charge.providerReferenceId ∨
    row.status = .succeeded

/-- The action that stores the reference: the charge is read, an id and a number are drawn, the
refund is inserted and the clock is read before it. -/
def storing : ℕ := 5

/-- The action that marks the refund as failed after that; the clock is read again in between. -/
def marking : ℕ := 7

/-- The provider accepts and its reference is not stored; to no effect where there is no reference
and the refund cannot be marked either. -/
def Unstored (answer : Except Err (Option String)) (charge : Transaction)
    (choices : List Choice) : Prop :=
  charge.method = .online ∧ choices[storing]? = some .fault ∧
    ∃ transactionId, answer = .ok transactionId ∧
    (choices[marking]? ≠ some .fault ∨ transactionId.or charge.providerReferenceId ≠ none)

/-! ## The call -/

/-- The call has added one row. -/
abbrev Only (db db' : Database) (r : Transaction) : Prop :=
  Table.AddedOnly (db .transactions) (db' .transactions) r

section

variable {db db' : Database} {r row : Transaction} {f : Transaction → Transaction}

theorem not_added (same : db' .transactions = db .transactions) : ¬ Added db db' row := by
  rw [Added, same]
  exact Table.not_added_self

theorem only_insert (free : (db .transactions).conflicts r = false) :
    Only db (db.apply (.insert TableName.transactions r : SqlWrite)) r := by
  rw [Only, Db.apply_insert_self]
  exact Table.addedOnly_insert free

theorem only_modify (only : Only db db' r) (sameKey : key (f r) = key r)
    (sameUniques : uniques (f r) = uniques r) :
    Only db (db'.apply (.update TableName.transactions (RowKey.id r.id) f : SqlWrite)) (f r) := by
  rw [Only, Db.apply_update_self]
  exact Table.AddedOnly.modify only sameKey sameUniques

theorem only_modify_old (only : Only db db' r) {id : ℕ} (old : transactionOf db id ≠ none) :
    Only db (db'.apply (.update TableName.transactions (RowKey.id id) f : SqlWrite)) r := by
  rw [Only, Db.apply_update_self]
  exact Table.AddedOnly.modify_old only old

theorem found_of_only (only : Only db db' r) : transactionOf db' r.id = some r :=
  (Table.AddedOnly.added only).1

end

section

variable {answered : Except Err (Option String)} {charge r : Transaction} {db db' : Database}
  {choices : List Choice}

theorem truthful_of_none (none : ∀ row, ¬ Added db db' row) : Truthful answered charge db db' :=
  ⟨fun row added => absurd added (none row), fun row _ added => absurd added (none row)⟩

theorem truthful_of_only (only : Only db db' r) :
    Truthful answered charge db db' ↔
    (r.status = .failed → ∃ err, answered = .error err) ∧ ∀ transactionId, charge.method = .online →
    answered = .ok transactionId →
      r.status = .pending ∧ r.providerReferenceId = transactionId.or charge.providerReferenceId ∨
      r.status = .succeeded := by
  constructor
  · rintro ⟨failed, accepted⟩
    exact ⟨failed r ((only r).2 rfl),
      fun transactionId => accepted r transactionId ((only r).2 rfl)⟩
  · rintro ⟨failed, accepted⟩
    refine ⟨fun row added => ?_, fun row transactionId added => ?_⟩
    · obtain rfl := (only row).1 added
      exact failed
    · obtain rfl := (only row).1 added
      exact accepted transactionId

/-- The play ends before the reference could be stored. -/
theorem truthful_iff_of_early (none : ∀ row, ¬ Added db db' row)
    (early : choices.length ≤ storing) :
    Truthful answered charge db db' ↔ ¬ Unstored answered charge choices := by
  refine ⟨fun _ unstored => ?_, fun _ => truthful_of_none none⟩
  have isFault := unstored.2.1
  rw [List.getElem?_eq_none early] at isFault
  cases isFault

end

section

variable {core : Core} {paymentId : ℕ} {amount : Option ℤ} {reason : String} {db : Database}
  {x : Shared} {choices : List Choice}
  {charge : Transaction} {ending : Ending (K := RowKey) RowOf Shared Err Transaction}

/-- The refund of an online charge, once its row is there. -/
theorem online_iff {db' : Database} {x' : Shared} {r : Transaction} {l : Local RowOf RowKey}
    {c₀ c₁ c₂ c₃ : Choice} (only : Only db db' r) (pending : r.status = .pending)
    (unreferenced : r.providerReferenceId = none) (online : charge.method = .online)
    (played : (refundOnline core charge r (amount.getD charge.amount) reason).follow choices l db'
      x' = some ending) :
    Truthful (answer core charge amount reason) charge db ending.db ↔
      ¬ Unstored (answer core charge amount reason) charge (c₀ :: c₁ :: c₂ :: c₃ :: choices) := by
  rw [refundOnline, ← answer] at played
  cases answered : answer core charge amount reason with
  | error err =>
    refine ⟨fun _ unstored => ?_,
      fun _ => ⟨fun _ _ _ => ⟨err, rfl⟩, fun _ _ _ _ impossible => (nomatch impossible)⟩⟩
    obtain ⟨_, _, _, isOk, _⟩ := unstored
    cases isOk
  | ok transactionId =>
    rw [answered] at played
    obtain ⟨c₄, rest₄, rfl, _, afterClock⟩ := follow_sure played
    obtain ⟨c₅, rest₅, rfl, ⟨rfl, afterStoring⟩ | ⟨l', stored, afterStoring⟩⟩ :=
      follow_updateByKey (found_of_only only) afterClock
    · -- the reference is not stored, and the handler takes over
      obtain ⟨c₆, rest₆, rfl, _, afterClock'⟩ := follow_sure afterStoring
      obtain ⟨c₇, rest₇, rfl, ⟨rfl, afterMarking⟩ | ⟨l', marked, afterMarking⟩⟩ :=
        follow_updateByKey (found_of_only only) afterClock'
      · obtain ⟨rfl, rfl⟩ := follow_done afterMarking
        rw [truthful_of_only only]
        simp [Unstored, storing, marking, online, pending, unreferenced, eq_comm]
      · obtain ⟨rfl, rfl⟩ := follow_done afterMarking
        have isFailed :=
          only_modify only (f := Transaction.withStatus .failed (toMillis x'.now)) rfl rfl
        rw [truthful_of_only isFailed]
        simp [Unstored, storing, marking, online, marked, Transaction.withStatus]
    · obtain ⟨rfl, rfl⟩ := follow_done afterStoring
      have isStored := only_modify only
        (f := Transaction.withReference (transactionId.or charge.providerReferenceId)
          (toMillis x'.now)) rfl rfl
      rw [truthful_of_only isStored]
      simp [Unstored, storing, stored, Transaction.withReference, pending]

/-- The refund of a charge that was paid in cash, once its row is there; the provider is not
asked. -/
theorem cash_truthful {db' : Database} {x' : Shared} {r : Transaction} {l : Local RowOf RowKey}
    (only : Only db db' r) (pending : r.status = .pending)
    (there : transactionOf db charge.id = some charge)
    (stays : transactionOf db' charge.id = some charge) (cash : charge.method ≠ .online)
    {answered : Except Err (Option String)}
    (played : (refundCash charge r).follow choices l db' x' = some ending) :
    Truthful answered charge db ending.db := by
  have unfailed : ∀ {db'' : Database} {r' : Transaction}, Only db db'' r' → r'.status ≠ .failed →
      Truthful answered charge db db'' :=
    fun only notFailed => (truthful_of_only only).2 ⟨fun isFailed => absurd isFailed notFailed,
      fun _ online => absurd online cash⟩
  have old : transactionOf db charge.id ≠ none := by simp [there]
  obtain ⟨c₄, rest₄, rfl, _, afterClock⟩ := follow_sure played
  obtain ⟨c₅, rest₅, rfl, ⟨_, afterUpdate⟩ | ⟨l', _, afterUpdate⟩⟩ :=
    follow_updateByKey (found_of_only only) afterClock
  · obtain ⟨rfl, rfl⟩ := follow_done afterUpdate
    exact unfailed only (by simp [pending])
  · have succeeded :=
      only_modify only (f := Transaction.withStatus .succeeded (toMillis x'.now)) rfl rfl
    have notFailed : (Transaction.withStatus .succeeded (toMillis x'.now) r).status ≠ .failed := by
      simp [Transaction.withStatus]
    obtain ⟨c₆, rest₆, rfl, _, afterClock'⟩ := follow_sure afterUpdate
    -- the charge is another row, and is still there
    have charged : transactionOf (db'.apply (.update TableName.transactions (RowKey.id r.id)
        (Transaction.withStatus .succeeded (toMillis x'.now)) : SqlWrite))
        charge.id = some (Table.rewrite (RowKey.id r.id)
        (Transaction.withStatus .succeeded (toMillis x'.now)) charge) := by
      rw [transactionOf, Db.apply_update_self, Table.get_modify, ← transactionOf, stays]
      rfl
    obtain ⟨c₇, rest₇, rfl, ⟨_, afterMark⟩ | ⟨l'', _, afterMark⟩⟩ :=
      follow_updateByKey charged afterClock'
    · obtain ⟨rfl, rfl⟩ := follow_done afterMark
      exact unfailed succeeded notFailed
    · obtain ⟨rfl, rfl⟩ := follow_done afterMark
      exact unfailed (only_modify_old succeeded old) notFailed

end

section

variable {core : Core} {amount : Option ℤ} {reason : String} {db : Database} {x : Shared}
  {charge : Transaction} {choices : List Choice}
  {ending : Ending (K := RowKey) RowOf Shared Err Transaction}

/-- What is left of a call that has read the charge. -/
def issue (core : Core) (charge : Transaction) (amount : Option ℤ)
    (reason : String) : Service Transaction := do
  throwIf (¬(charge.transactionType ∈ [TransactionType.charge, .codCollection]) ∨
    charge.status ≠ .succeeded) .PaymentNotRefundableError
  throwIf (charge.isRefunded = true) .PaymentAlreadyRefundedError
  let uuid ← uuidv4
  let refundTransaction ← createTransaction .pool
      (refundInput charge (amount.getD charge.amount) uuid)
  if charge.method = .online then
    refundOnline core charge refundTransaction (amount.getD charge.amount) reason
  else refundCash charge refundTransaction

/-- The play of a call that has read the charge either ends without a new row, or comes to the
provider, or to the bookkeeping of cash, with one. -/
theorem issue_cases {l : Local RowOf RowKey}
    (played : (issue core charge amount reason).follow choices l db x = some ending) :
    (ending.db = db ∧ choices.length < storing) ∨
      ∃ c₁ c₂ c₃ rest r l' x', choices = c₁ :: c₂ :: c₃ :: rest ∧
      (db .transactions).conflicts r = false ∧ r.status = .pending ∧
        r.providerReferenceId = none ∧
        (if charge.method = .online then
          refundOnline core charge r (amount.getD charge.amount) reason
        else refundCash charge r).follow rest l'
          (db.apply (.insert TableName.transactions r)) x' = some ending := by
  rw [issue] at played
  by_cases notRefundable : ¬(charge.transactionType ∈ [TransactionType.charge, .codCollection]) ∨
    charge.status ≠ .succeeded
  · rw [throwIf_bind notRefundable] at played
    obtain ⟨rfl, rfl⟩ := follow_done played
    exact .inl ⟨rfl, by simp [storing]⟩
  rw [throwIf_bind_of_not notRefundable] at played
  by_cases isRefunded : charge.isRefunded = true
  · rw [throwIf_bind isRefunded] at played
    obtain ⟨rfl, rfl⟩ := follow_done played
    exact .inl ⟨rfl, by simp [storing]⟩
  rw [throwIf_bind_of_not isRefunded] at played
  -- A key, an id and the insertion.
  obtain ⟨c₁, rest₁, rfl, _, afterUuid⟩ := follow_sure played
  obtain ⟨c₂, rest₂, rfl, _, afterNumber⟩ := follow_sure afterUuid
  obtain ⟨c₃, rest₃, rfl, ⟨_, afterInsert⟩ | ⟨effect, _, member, afterInsert⟩⟩ :=
    follow_pool afterNumber
  · obtain ⟨rfl, rfl⟩ := follow_done afterInsert
    exact .inl ⟨rfl, by simp [storing]⟩
  · simp only [Statement.insert] at member
    split at member
    · cases List.mem_singleton.1 member
    next free =>
      cases List.mem_singleton.1 member
      simp only [Bool.or_eq_true, not_or, Bool.not_eq_true] at free
      exact .inr ⟨c₁, c₂, c₃, rest₃, _, _, _, rfl, free.1, rfl, rfl, afterInsert⟩

end

/-- Whatever the provider answers and whichever statements fail. -/
theorem refund_is_truthful_iff (core : Core) (amount : Option ℤ) (reason : String) (db : Database)
    (x : Shared) (charge : Transaction) (there : transactionOf db charge.id = some charge)
    (choices : List Choice) (ending : Ending (K := RowKey) RowOf Shared Err Transaction)
    (played : (refund core charge.id amount reason).follow choices .start db x = some ending) :
    Truthful (answer core charge amount reason) charge db ending.db ↔
    ¬ Unstored (answer core charge amount reason) charge choices := by
  obtain ⟨c₀, rest₀, rfl, ⟨_, afterRead⟩ | ⟨effect, _, member, afterRead⟩⟩ := follow_pool played
  · obtain ⟨rfl, rfl⟩ := follow_done afterRead
    exact truthful_iff_of_early (fun _ => not_added rfl) (by simp [storing])
  cases List.mem_singleton.1 member
  obtain ⟨l', issued⟩ : ∃ l', (issue core charge amount reason).follow rest₀ l' db x =
      some ending := by
    rw [transactionOf] at there
    dsimp only at afterRead
    rw [there] at afterRead
    exact ⟨_, afterRead⟩
  obtain ⟨same, short⟩ | ⟨c₁, c₂, c₃, rest₃, r, l'', x', rfl, free, pending, unreferenced,
    onward⟩ := issue_cases issued
  · exact truthful_iff_of_early
      (fun _ => not_added (by rw [same])) (by simp only [List.length_cons]; omega)
  by_cases online : charge.method = .online
  · rw [if_pos online] at onward
    exact online_iff (only_insert free) pending unreferenced online onward
  · rw [if_neg online] at onward
    have stays : transactionOf (db.apply (.insert TableName.transactions r : SqlWrite)) charge.id =
        some charge := by
      rw [transactionOf, Db.apply_insert_self]
      exact Table.get_insert_of_some there
    exact ⟨fun _ unstored => online unstored.1,
      fun _ => cash_truthful (only_insert free) pending there stays online onward⟩

/-! ## A refund that the provider accepts -/

/-- The provider accepts, and names its transaction. -/
def accepting : Core := { Sample.core with refund := fun _ _ _ => .ok (some "b") }

/-- The charge is read, the refund is inserted, and its reference is stored. -/
def stored : List Choice := List.replicate 6 (.pick 0)

/-- The statement that stores the reference fails. -/
def notStored : List Choice := List.replicate 5 (.pick 0) ++ [.fault, .pick 0, .pick 0]

/-- What a play leaves of the refund. -/
def outcome (choices : List Choice) : Option (Option (TransactionStatus × Option String)) :=
  ((refund accepting 1 none "cold").follow choices .start Sample.dbCharged Sample.shared).map
    fun ending =>
    (transactionOf ending.db 10).map fun row => (row.status, row.providerReferenceId)

theorem stored_refund_is_truthful :
    ∃ ending,
    (refund accepting Sample.charge.id none "cold").follow stored .start Sample.dbCharged
      Sample.shared = some ending ∧
      Truthful (answer accepting Sample.charge none "cold") Sample.charge Sample.dbCharged
        ending.db := by
  have ends : outcome stored = some (some (.pending, some "b")) := by decide +kernel
  obtain ⟨ending, played, _⟩ := Option.map_eq_some_iff.1 ends
  refine ⟨ending, played, (refund_is_truthful_iff accepting none "cold" Sample.dbCharged
    Sample.shared Sample.charge rfl stored ending played).2 ?_⟩
  simp [Unstored, storing, stored]

/-- The provider has accepted, and the refund is marked as failed. -/
theorem accepted_refund_is_marked_failed :
    ∃ ending,
    (refund accepting Sample.charge.id none "cold").follow notStored .start Sample.dbCharged
      Sample.shared = some ending ∧
      ¬ Truthful (answer accepting Sample.charge none "cold") Sample.charge Sample.dbCharged
        ending.db := by
  have ends : outcome notStored = some (some (.failed, none)) := by decide +kernel
  obtain ⟨ending, played, isRow⟩ := Option.map_eq_some_iff.1 ends
  refine ⟨ending, played, fun truthful => ?_⟩
  obtain ⟨row, found, isOutcome⟩ := Option.map_eq_some_iff.1 isRow
  simp only [Prod.mk.injEq] at isOutcome
  have isKey : RowKey.id 10 = key row := (Table.get_key found).symm
  obtain ⟨err, isError⟩ := truthful.failed row ⟨isKey ▸ found, isKey ▸ by decide⟩ isOutcome.1
  cases isError

end SwiftBite.Verified.RejectedRefunds
