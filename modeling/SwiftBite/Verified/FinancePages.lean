import SwiftBite.Service.Finance
import SwiftBite.Verified.Accounts
import SwiftBite.Verified.RecordPages
import SwiftBite.Verified.Wages

/-! # What a restaurant is shown

The balance that a restaurant sees and the pages of its payouts make up what settlements have left
to it, in every currency and in every state of all runs.
-/

set_option autoImplicit false

namespace SwiftBite.Verified.FinancePages

open Store Pagination PageVisits Ledger FinanceService

/-! ## The two responses -/

/-- The balance shown for a currency. -/
def shownBalance (accounts : List RestaurantBalance) (currency : String) : ℤ :=
  ((accounts.find? fun account => account.currency = currency).map RestaurantBalance.balance).getD 0

/-- What the shown payouts come to in a currency. -/
def shownPayouts (pages : List (RecordPage Transaction)) (currency : String) : ℤ :=
  (((pages.flatMap RecordPage.data).filter fun tx => tx.currency = currency).map
    Transaction.amount).sum

section

variable {conn : Database} {restaurantId start stop : ℕ}

theorem shownBalance_eq (currency : String) :
    shownBalance (getBalance conn restaurantId) currency =
      balanceIn (conn .restaurantBalances) restaurantId currency := by
  have isKey : ∀ account : RestaurantBalance,
      (key account : RowKey) = .account restaurantId currency ↔
      account.restaurantId = restaurantId ∧ account.currency = currency := by
    intro account
    rw [show (key account : RowKey) = .account account.restaurantId account.currency from rfl,
      RowKey.account.injEq]
  rw [shownBalance, balanceIn]
  refine congrArg
    (fun account : Option RestaurantBalance => (account.map RestaurantBalance.balance).getD 0) ?_
  cases found : (getBalance conn restaurantId).find? fun account => account.currency = currency with
  | some account =>
    obtain ⟨member, ofRestaurant⟩ := List.mem_filter.1 (List.mem_of_find?_eq_some found)
    have isCurrency := List.find?_some found
    have isAccount :=
      (isKey account).2 ⟨of_decide_eq_true ofRestaurant, of_decide_eq_true isCurrency⟩
    rw [← isAccount]
    exact (Table.get_of_mem member).symm
  | none =>
    refine (Table.get_eq_none.2 fun account member isAccount => ?_).symm
    obtain ⟨ofRestaurant, isCurrency⟩ := (isKey account).1 isAccount
    exact absurd (decide_eq_true isCurrency)
      (List.find?_eq_none.1 found account (List.mem_filter.2 ⟨member, decide_eq_true ofRestaurant⟩))

theorem sum_filter {α : Type} (p : α → Bool) (amount : α → ℤ) (l : List α) :
    ((l.filter p).map amount).sum = (l.map fun a => if p a then amount a else 0).sum := by
  induction l with
  | nil => rfl
  | cons a l inductionHypothesis =>
    cases isP : p a <;> simp [isP, inductionHypothesis]

/-- A range that holds all payouts of the restaurant. -/
def Whole (conn : Database) (restaurantId start stop : ℕ) : Prop :=
  ∀ tx : Transaction, tx ∈ (conn .transactions).rows → tx.dstAccId = some restaurantId →
  tx.transactionType = .payout →
    toMillis start ≤ tx.createdAt ∧ tx.createdAt ≤ toMillis stop

theorem payouts_eq (whole : Whole conn restaurantId start stop) (currency : String) :
    (((payoutsIn conn restaurantId start stop).filter fun tx => tx.currency = currency).map
      Transaction.amount).sum =
      (conn .transactions).total (payoutOf restaurantId currency) := by
  rw [payoutsIn, List.filter_filter, sum_filter, Table.total]
  refine congrArg List.sum (List.map_congr_left fun tx member => ?_)
  rw [payoutOf]
  by_cases isPayout : tx.transactionType = .payout ∧ tx.dstAccId = some restaurantId ∧
    tx.currency = currency
  · obtain ⟨isType, isTo, isCurrency⟩ := isPayout
    obtain ⟨early, late⟩ := whole tx member isTo isType
    simp [isType, isTo, isCurrency, early, late]
  · rw [if_neg isPayout, if_neg]
    simp only [Bool.and_eq_true, decide_eq_true_eq]
    tauto

/-! ## All pages -/

theorem distinct_payouts (conn : Database) (restaurantId start stop : ℕ) :
    ((payoutsIn conn restaurantId start stop).map Transaction.id).Nodup := by
  refine List.Nodup.map_on (fun a inA b inB same => ?_) ((Table.rows_nodup _).filter _)
  exact Table.eq_of_key (List.mem_of_mem_filter inA) (List.mem_of_mem_filter inB)
    (congrArg RowKey.id same)

theorem params_payouts (query : Query) :
    { parsePaginationQuery query PAYOUT_SORT_FIELDS with
      sortBy := "created_at" } = parsePaginationQuery query PAYOUT_SORT_FIELDS := by
  have isDefault : (parsePaginationQuery query PAYOUT_SORT_FIELDS).sortBy = "created_at" :=
    RecordPages.sortBy_of_single rfl
  exact congrArg (fun sortBy => { parsePaginationQuery query PAYOUT_SORT_FIELDS with
    sortBy := sortBy }) isDefault.symm

theorem listPayouts_eq (query : Query) (cursor : Option Cursor) :
    listPayouts conn restaurantId start stop { query with cursor := cursor } =
    RecordPages.ask Transaction.id Transaction.createdAt (payoutsIn conn restaurantId start stop)
      PAYOUT_SORT_FIELDS query cursor := by
  rw [listPayouts, findPayouts, params_payouts]
  rfl

end

/-- In every state of all runs: what the restaurant's balance and all pages of its payouts show is
together, in every currency, what settlements have left to it. -/
theorem balance_and_payouts_reconcile {env : Config} {x : Shared} {p : Region}
    (reached : Pool.Reach (code env) Chains.anything (Pool.quiet Database.empty x) p)
    {restaurantId start stop : ℕ} {query : Query}
    (room : 1 ≤ (parsePaginationQuery query PAYOUT_SORT_FIELDS).limit)
    (whole : Whole p.db restaurantId start stop)
    (inTurn : RecordPages.InTurn Transaction.id Transaction.createdAt
      (payoutsIn p.db restaurantId start stop)) :
    ∃ pages, Asks (fun cursor => listPayouts p.db restaurantId start stop { query with
      cursor := cursor }) none pages ∧
      (pages.flatMap RecordPage.data).Perm (payoutsIn p.db restaurantId start stop) ∧
      ∀ currency, shownBalance (getBalance p.db restaurantId) currency +
        shownPayouts pages currency =
        (p.db .transactions).total (creditOf p.db restaurantId currency) := by
  have hasRoom : 1 ≤ limit PAYOUT_SORT_FIELDS query := room
  obtain ⟨pages, asks, perm, _⟩ :=
    RecordPages.pages_of_records (distinct_payouts p.db restaurantId start stop) hasRoom inTurn
  refine ⟨pages, ?_, perm, fun currency => ?_⟩
  · simp only [listPayouts_eq]
    exact asks
  · have shown : shownPayouts pages currency =
        (p.db .transactions).total (payoutOf restaurantId currency) := by
      rw [shownPayouts, ← payouts_eq whole]
      exact ((perm.filter _).map _).sum_eq
    rw [shownBalance_eq, shown, (Accounts.balanced_of_run reached).balance]
    omega

/-- The restaurant of a delivered order is paid out a part of what it has earned, and another. -/
def payingOut : List (Event Operation) :=
  Wages.delivering ++ Wages.call 8 (.recordPayout 5 300 "EGP" "k1") 9 ++
    Wages.call 9 (.recordPayout 5 200 "EGP" "k2") 9

/-- One payout a page. -/
def onePayout : Query := ⟨none, some 1, none, none⟩

theorem four_hundred_left :
    ∃ (p : Region) (pages : List (RecordPage Transaction)),
      (p.db .restaurantBalances).rows.map RestaurantBalance.balance = [400] ∧
    (payoutsIn p.db 5 0 2000000000000).map Transaction.amount = [300, 200] ∧
    Asks (fun cursor => listPayouts p.db 5 0 2000000000000 { onePayout with
      cursor := cursor }) none pages ∧
    (pages.flatMap RecordPage.data).Perm (payoutsIn p.db 5 0 2000000000000) ∧
    ∀ currency, shownBalance (getBalance p.db 5) currency + shownPayouts pages currency =
      (p.db .transactions).total (creditOf p.db 5 currency) := by
  have run : (Pool.play (code Sample.env) (fun _ _ => true) payingOut
      (Pool.quiet Database.empty Sample.shared)).map
      (fun p => ((p.db .restaurantBalances).rows.map RestaurantBalance.balance,
      (payoutsIn p.db 5 0 2000000000000).map Transaction.amount,
      (p.db .transactions).rows.map Transaction.createdAt)) =
      some ([400], [300, 200], [1000000, 1000000, 1000000, 1000000]) := by decide +kernel
  obtain ⟨p, played, viewed⟩ := Option.map_eq_some_iff.1 run
  simp only [Prod.mk.injEq] at viewed
  obtain ⟨balances, amounts, times⟩ := viewed
  have atOnce : ∀ tx : Transaction, tx ∈ (p.db .transactions).rows → tx.createdAt = 1000000 := by
    intro tx member
    have among : tx.createdAt ∈ (p.db .transactions).rows.map Transaction.createdAt :=
      List.mem_map_of_mem member
    rw [times] at among
    exact List.eq_of_mem_replicate (n := 4) among
  have whole : Whole p.db 5 0 2000000000000 := by
    intro tx member _ _
    rw [atOnce tx member]
    decide
  have room : 1 ≤ (parsePaginationQuery onePayout PAYOUT_SORT_FIELDS).limit := by
    norm_num [onePayout, parsePaginationQuery]
  have inTurn : RecordPages.InTurn Transaction.id Transaction.createdAt
      (payoutsIn p.db 5 0 2000000000000) := by
    intro a isA b isB _ apart
    exact absurd ((atOnce a (List.mem_of_mem_filter isA)).trans
      (atOnce b (List.mem_of_mem_filter isB)).symm) apart
  obtain ⟨pages, asks, perm, reconcile⟩ :=
    balance_and_payouts_reconcile (Pool.reach_of_play (fun _ _ _ => trivial) played)
      room whole inTurn
  exact ⟨p, pages, balances, amounts, asks, perm, reconcile⟩

end SwiftBite.Verified.FinancePages
