import SwiftBite.Service.Agent
import SwiftBite.Verified.RecordPages
import SwiftBite.Verified.References
import SwiftBite.Verified.Wages

/-! # Earnings and their totals

The pages of an agent's earnings and the totals of the same range come from two queries, one of
which joins the orders.  In every state of all runs they tell the same; and the totals of all
times are what the agent's deliveries say.
-/

set_option autoImplicit false

namespace SwiftBite.Verified.EarningsPages

open Store Pagination PageVisits EarningService

/-! ## The joined query -/

section

variable {conn : Database} {agentId start stop : ℕ}

/-- The order of every earning is there. -/
def Rooted (conn : Database) : Prop :=
  ∀ earning : AgentEarning, earning ∈ (conn .agentEarnings).rows →
    ((conn .orders).get (RowKey.id earning.orderId)).isSome = true

/-- The join drops no earning. -/
theorem fst_joinOrders (rooted : Rooted conn) {earnings : List AgentEarning}
    (among : ∀ earning ∈ earnings, earning ∈ (conn .agentEarnings).rows) :
    (joinOrders conn earnings).map Prod.fst = earnings := by
  induction earnings with
  | nil => rfl
  | cons earning earnings inductionHypothesis =>
    obtain ⟨first, rest⟩ := List.forall_mem_cons.1 among
    obtain ⟨order, found⟩ := Option.isSome_iff_exists.1 (rooted earning first)
    have joined : joinOrders conn (earning :: earnings) =
        (earning, Order.publicId order) :: joinOrders conn earnings :=
      List.filterMap_cons_some (by rw [found]; rfl)
    rw [joined, List.map_cons, inductionHypothesis rest]

theorem fst_earnedIn (rooted : Rooted conn) (agentId start stop : ℕ) :
    (joinOrders conn (earnedIn conn agentId start stop)).map Prod.fst =
      earnedIn conn agentId start stop :=
  fst_joinOrders rooted fun _ => List.mem_of_mem_filter

theorem distinct_joined (rooted : Rooted conn) (agentId start stop : ℕ) :
    ((joinOrders conn (earnedIn conn agentId start stop)).map fun joined =>
      AgentEarning.id joined.1).Nodup := by
  have ids : ((earnedIn conn agentId start stop).map AgentEarning.id).Nodup := by
    refine List.Nodup.map_on (fun a inA b inB same => ?_) ((Table.rows_nodup _).filter _)
    exact Table.eq_of_key (List.mem_of_mem_filter inA) (List.mem_of_mem_filter inB)
      (congrArg RowKey.id same)
  rw [← fst_earnedIn rooted agentId start stop, List.map_map] at ids
  exact ids

/-! ## The responses -/

/-- The sort field by the name that the query has for it. -/
def joinedFields : PaginationQueryOptions := ⟨["ae.earned_at"], "ae.earned_at", 20, by decide⟩

theorem params_joined (query : Query) :
    { parsePaginationQuery query EARNING_SORT_FIELDS with sortBy := "ae.earned_at" } =
      parsePaginationQuery query joinedFields := by
  have isDefault : (parsePaginationQuery query joinedFields).sortBy = "ae.earned_at" :=
    RecordPages.sortBy_of_single rfl
  exact congrArg (fun sortBy => { parsePaginationQuery query joinedFields with
    sortBy := sortBy }) isDefault.symm

theorem limit_joined (query : Query) :
    (parsePaginationQuery query EARNING_SORT_FIELDS).limit = limit joinedFields query :=
  rfl

variable (conn agentId start stop) in
/-- The responses to a client that asks again with `nextCursor` as long as there is one. -/
inductive ReadsEarnings (query : Query) :
    Option Cursor → List (AgentEarningsPage × Totals) → Prop where
  | last {cursor : Option Cursor}
      (none : (EarningService.list conn conn agentId start stop { query with
        cursor := cursor }).1.nextCursor = none) :
      ReadsEarnings query cursor [EarningService.list conn conn agentId start stop { query with
        cursor := cursor }]
  | more {cursor : Option Cursor} {nextCursor : Cursor}
      {responses : List (AgentEarningsPage × Totals)}
      (isNext : (EarningService.list conn conn agentId start stop { query with
        cursor := cursor }).1.nextCursor = some nextCursor)
      (rest : ReadsEarnings query (some nextCursor) responses) :
      ReadsEarnings query cursor (EarningService.list conn conn agentId start stop { query with
        cursor := cursor } :: responses)

/-- All that the responses show. -/
def shown (responses : List (AgentEarningsPage × Totals)) : List AgentEarning :=
  responses.flatMap fun response => response.1.data

variable (conn agentId start stop) in
/-- The response with a page of the joined query. -/
def responseOf (page : RecordPage (AgentEarning × ℕ)) : AgentEarningsPage × Totals :=
  (⟨page.data.map Prod.fst, page.data.map fun joined => (joined.1.id, joined.2), page.nextCursor,
    page.hasMore, page.count⟩,
    sumAgentEarnings conn agentId start stop)

variable (conn agentId start stop) in
/-- The page of the joined query that a cursor asks for. -/
abbrev pageAt (query : Query) : Option Cursor → RecordPage (AgentEarning × ℕ) :=
  RecordPages.ask (fun joined => AgentEarning.id joined.1)
    (fun joined => AgentEarning.earnedAt joined.1)
    (joinOrders conn (earnedIn conn agentId start stop)) joinedFields query

theorem list_eq (query : Query) (cursor : Option Cursor) :
    EarningService.list conn conn agentId start stop { query with cursor := cursor } =
    responseOf conn agentId start stop (pageAt conn agentId start stop query cursor) := by
  rw [EarningService.list, findAgentEarnings, params_joined]
  rfl

theorem reads_of_asks {query : Query} {cursor : Option Cursor}
    {pages : List (RecordPage (AgentEarning × ℕ))}
    (asks : Asks (pageAt conn agentId start stop query) cursor pages) :
    ReadsEarnings conn agentId start stop query cursor
      (pages.map (responseOf conn agentId start stop)) := by
  induction asks with
  | @last cursor none =>
    rw [List.map_singleton, ← list_eq]
    exact .last (by rw [list_eq]; exact none)
  | @more cursor nextCursor pages isNext _ inductionHypothesis =>
    rw [List.map_cons, ← list_eq]
    exact .more (by rw [list_eq]; exact isNext) inductionHypothesis

theorem shown_responses (pages : List (RecordPage (AgentEarning × ℕ))) :
    shown (pages.map (responseOf conn agentId start stop)) =
      (pages.flatMap RecordPage.data).map Prod.fst := by
  rw [shown, List.flatMap_map, List.map_flatMap]
  rfl

variable (conn agentId start stop) in
/-- Earnings of one millisecond have ids in the order of their times. -/
def EarnedInTurn : Prop :=
  ∀ a ∈ earnedIn conn agentId start stop, ∀ b ∈ earnedIn conn agentId start stop,
  milliseconds a.earnedAt = milliseconds b.earnedAt → a.earnedAt ≠ b.earnedAt →
  (a.earnedAt < b.earnedAt ↔ a.id < b.id)

/-- Where a page has room and ids follow times, the pages show each earning of the range once. -/
theorem pages_of_range (rooted : Rooted conn) {query : Query} (room : 1 ≤ limit joinedFields query)
    (inTurn : EarnedInTurn conn agentId start stop) :
    ∃ responses, ReadsEarnings conn agentId start stop query none responses ∧
    (shown responses).Perm (earnedIn conn agentId start stop) ∧
      (responses.map fun response => response.1.count).sum = (shown responses).length ∧
      ∀ response ∈ responses, response.2 = sumAgentEarnings conn agentId start stop := by
  have joined := fst_earnedIn rooted agentId start stop
  have inTurn : RecordPages.InTurn (fun joined => AgentEarning.id joined.1)
      (fun joined => AgentEarning.earnedAt joined.1)
      (joinOrders conn (earnedIn conn agentId start stop)) := by
    intro a isA b isB
    exact inTurn a.1 (joined ▸ List.mem_map_of_mem isA) b.1 (joined ▸ List.mem_map_of_mem isB)
  obtain ⟨pages, asks, perm, counts⟩ :=
    RecordPages.pages_of_records (distinct_joined rooted agentId start stop) room inTurn
  have perm := perm.map Prod.fst
  rw [joined, ← shown_responses] at perm
  refine ⟨_, reads_of_asks asks, perm, ?_, ?_⟩
  · rw [List.map_map, perm.length_eq, ← joined, List.length_map]
    exact counts
  · exact List.forall_mem_map.2 fun _ _ => rfl

end

/-! ## Runs -/

theorem rooted_of_run {env : Config} {x : Shared} {p : Region}
    (reached : Pool.Reach (code env) Chains.anything (Pool.quiet Database.empty x) p) :
    Rooted p.db := by
  intro earning member
  exact (References.related_of_run reached .agentEarnings earning member).order _ rfl

/-- In every state of all runs the pages of an agent's earnings show each earning once, and add up
to the totals that each response shows, if earnings of one millisecond have ids in the order of
their times. -/
theorem pages_add_up {env : Config} {x : Shared} {p : Region}
    (reached : Pool.Reach (code env) Chains.anything (Pool.quiet Database.empty x) p)
    {agentId start stop : ℕ} {query : Query}
    (room : 1 ≤ (parsePaginationQuery query EARNING_SORT_FIELDS).limit)
    (inTurn : EarnedInTurn p.db agentId start stop) :
    ∃ responses, ReadsEarnings p.db agentId start stop query none responses ∧
    (shown responses).Perm (earnedIn p.db agentId start stop) ∧
      ∀ response ∈ responses, response.2 =
        ⟨(responses.map fun response => response.1.count).sum,
          ((shown responses).map AgentEarning.amount).sum⟩ := by
  obtain ⟨responses, reads, perm, count, totals⟩ :=
    pages_of_range (rooted_of_run reached) (limit_joined query ▸ room) inTurn
  refine ⟨responses, reads, perm, fun response member => ?_⟩
  rw [totals response member, count, sumAgentEarnings, perm.length_eq,
    (perm.map AgentEarning.amount).sum_eq]

/-- One earning a page. -/
def oneEarning : Query := ⟨none, some 1, none, none⟩

/-- Two deliveries are paid, and their earnings are read page by page. -/
theorem two_pages :
    ∃ (p : Region) (responses : List (AgentEarningsPage × Totals)),
      (earnedIn p.db 2 0 2000000000000).map AgentEarning.amount = [80, 80] ∧
    ReadsEarnings p.db 2 0 2000000000000 oneEarning none responses ∧
    (shown responses).Perm (earnedIn p.db 2 0 2000000000000) ∧
      ∀ response ∈ responses, response.2 =
        ⟨(responses.map fun response => response.1.count).sum,
          ((shown responses).map AgentEarning.amount).sum⟩ := by
  have run : (Pool.play (code Sample.env) (fun _ _ => true) Wages.deliveringTwo
      (Pool.quiet Database.empty Sample.shared)).map
      (fun p => ((earnedIn p.db 2 0 2000000000000).map AgentEarning.amount,
      (p.db .agentEarnings).rows.map AgentEarning.earnedAt)) =
      some ([80, 80], [1000000, 1000000]) := by decide +kernel
  obtain ⟨p, played, viewed⟩ := Option.map_eq_some_iff.1 run
  obtain ⟨amounts, times⟩ := Prod.mk.inj viewed
  have atOnce : ∀ earning ∈ earnedIn p.db 2 0 2000000000000, earning.earnedAt = 1000000 := by
    intro earning isEarned
    have among : earning.earnedAt ∈ (p.db .agentEarnings).rows.map AgentEarning.earnedAt :=
      List.mem_map_of_mem (List.mem_of_mem_filter isEarned)
    rw [times] at among
    exact List.eq_of_mem_replicate (n := 2) among
  have inTurn : EarnedInTurn p.db 2 0 2000000000000 :=
    fun a isA b isB _ apart => absurd ((atOnce a isA).trans (atOnce b isB).symm) apart
  have room : 1 ≤ (parsePaginationQuery oneEarning EARNING_SORT_FIELDS).limit := by decide +kernel
  obtain ⟨responses, reads, perm, totals⟩ :=
    pages_add_up (Pool.reach_of_play (fun _ _ _ => trivial) played) room inTurn
  exact ⟨p, responses, amounts, reads, perm, totals⟩

/-- What the deliveries of an agent say that they have earned. -/
def wagesOf (db : Database) (agentId : ℕ) : List ℤ :=
  ((db .deliveries).rows.filter fun delivery : Delivery => delivery.agentId = agentId).filterMap
    Delivery.earningAmount

/-- One wage for each earning. -/
theorem wages_perm {db : Database} (matched : Wages.Matched db) (agentId : ℕ) :
    (((db .agentEarnings).rows.filter fun earning : AgentEarning => earning.agentId = agentId).map
      AgentEarning.amount).Perm (wagesOf db agentId) := by
  -- Earnings and paid deliveries are compared with the delivery's id at hand, which no two of them
  -- share.
  have pairs :
      (((db .agentEarnings).rows.filter fun earning : AgentEarning =>
        earning.agentId = agentId).map fun earning =>
          (AgentEarning.deliveryId earning, AgentEarning.amount earning)).Perm
      (((db .deliveries).rows.filter fun delivery : Delivery =>
        delivery.agentId = agentId).filterMap fun delivery =>
          (Delivery.earningAmount delivery).map fun amount => (Delivery.id delivery, amount)) := by
    refine (List.perm_ext_iff_of_nodup ?_ ?_).2 fun pair =>
      ⟨fun isEarning => ?_, fun isDelivery => ?_⟩
    · refine List.pairwise_map.2 (((db .agentEarnings).distinct.filter _).imp fun apart same => ?_)
      exact apart.2 (List.mem_singleton.2 rfl)
        (List.mem_singleton.2 (congrArg UniqueKey.earningDelivery (congrArg Prod.fst same)))
    · refine List.pairwise_filterMap.2
        (((db .deliveries).distinct.filter _).imp fun apart a isA b isB same => ?_)
      obtain ⟨_, _, rfl⟩ := Option.map_eq_some_iff.1 isA
      obtain ⟨_, _, rfl⟩ := Option.map_eq_some_iff.1 isB
      exact apart.1 (congrArg RowKey.id (congrArg Prod.fst same))
    · obtain ⟨earning, member, rfl⟩ := List.mem_map.1 isEarning
      obtain ⟨isRow, ofAgent⟩ := List.mem_filter.1 member
      obtain ⟨delivery, found, _, sameAgent, amount⟩ := matched.earned earning isRow
      have sameId : delivery.id = earning.deliveryId := RowKey.id.inj (Table.get_key found)
      refine List.mem_filterMap.2 ⟨delivery, List.mem_filter.2 ⟨Table.get_mem found, ?_⟩, ?_⟩
      · simpa [sameAgent] using ofAgent
      · rw [amount, ← sameId]
        rfl
    · obtain ⟨delivery, member, isPair⟩ := List.mem_filterMap.1 isDelivery
      obtain ⟨isRow, ofAgent⟩ := List.mem_filter.1 member
      obtain ⟨amount, isAmount, rfl⟩ := Option.map_eq_some_iff.1 isPair
      have found : deliveryOf db delivery.id = some delivery := Table.get_of_mem isRow
      obtain ⟨earning, isEarning, sameId⟩ := matched.paid delivery.id delivery amount found isAmount
      obtain ⟨delivery', found', _, sameAgent, amount'⟩ := matched.earned earning isEarning
      rw [sameId, found] at found'
      cases found'
      refine List.mem_map.2 ⟨earning, List.mem_filter.2 ⟨isEarning, ?_⟩, ?_⟩
      · simpa [← sameAgent] using ofAgent
      · rw [sameId, Option.some.inj (amount'.symm.trans isAmount)]
  have amounts := pairs.map Prod.snd
  rw [List.map_map, List.map_filterMap] at amounts
  refine amounts.trans (.of_eq ?_)
  refine congrArg (fun f => List.filterMap f _) (funext fun delivery => ?_)
  simp [Option.map_map, Function.comp_def]

/-- In every state of all runs the totals of a range that holds all of an agent's earnings are the
number and the sum of what the agent's deliveries have earned. -/
theorem totals_are_wages {env : Config} {x : Shared} {p : Region}
    (reached : Pool.Reach (code env) Chains.anything (Pool.quiet Database.empty x) p)
    {agentId start stop : ℕ}
    (whole : ∀ earning : AgentEarning, earning ∈ (p.db .agentEarnings).rows →
      earning.agentId = agentId →
        toMillis start ≤ earning.earnedAt ∧ earning.earnedAt ≤ toMillis stop) :
    sumAgentEarnings p.db agentId start stop =
      ⟨(wagesOf p.db agentId).length, (wagesOf p.db agentId).sum⟩ := by
  have all : earnedIn p.db agentId start stop =
      (p.db .agentEarnings).rows.filter fun earning : AgentEarning =>
        earning.agentId = agentId := by
    refine List.filter_congr fun earning member => ?_
    by_cases ofAgent : AgentEarning.agentId earning = agentId
    · obtain ⟨early, late⟩ := whole earning member ofAgent
      simp [ofAgent, early, late]
    · simp [ofAgent]
  have perm := wages_perm (Wages.matched_of_run reached) agentId
  rw [sumAgentEarnings, all, ← perm.length_eq, ← perm.sum_eq, List.length_map]

theorem eighty : ∃ p : Region, (p.db .agentEarnings).rows.map AgentEarning.amount = [80] ∧
    sumAgentEarnings p.db 2 0 2000000000000 = ⟨(wagesOf p.db 2).length, (wagesOf p.db 2).sum⟩ := by
  have run : (Pool.play (code Sample.env) (fun _ _ => true) Wages.delivering
      (Pool.quiet Database.empty Sample.shared)).map
      (fun p => ((p.db .agentEarnings).rows.map AgentEarning.amount,
        (p.db .agentEarnings).rows.all fun earning : AgentEarning =>
          toMillis 0 ≤ earning.earnedAt && earning.earnedAt ≤ toMillis 2000000000000)) =
      some ([80], true) := by decide +kernel
  obtain ⟨p, played, viewed⟩ := Option.map_eq_some_iff.1 run
  obtain ⟨amounts, whole⟩ := Prod.mk.inj viewed
  refine ⟨p, amounts,
    totals_are_wages (Pool.reach_of_play (fun _ _ _ => trivial) played) fun earning member _ => ?_⟩
  simpa using List.all_eq_true.1 whole earning member

end SwiftBite.Verified.EarningsPages
