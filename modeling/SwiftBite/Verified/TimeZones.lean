import SwiftBite.Http.LocalTime
import SwiftBite.Verified.ArchivalLoss

/-! # Results and the host's time zone

Where the code binds a `Date`, the result depends on the offset of the process: the pages of
two processes are the same exactly when their offsets are, and copies of rows are exact to the
millisecond exactly in UTC.
-/

set_option autoImplicit false

namespace SwiftBite.Verified.TimeZones

open Store Pagination Archival ArchivalRows

/-- Whatever the content and the request, two processes return the same pages. -/
def SamePages (offset offset' : ℤ) : Prop :=
  ∀ table filter options query n, pageIn offset table filter options query n =
    pageIn offset' table filter options query n

/-- The timestamps of a row. -/
def timestamps : (t : TableName) → RowOf t → List (Option ℕ)
  | .orders, (row : Order) =>
    [some row.createdAt, some row.updatedAt, row.acceptedAt, row.rejectedAt, row.readyAt,
      row.assignedAt,
      row.pickedAt, row.deliveredAt, row.cancelledAt]
  | .orderItems, (row : OrderItem) => [some row.createdAt]
  | .transactions, (row : Transaction) => [some row.createdAt, some row.updatedAt]
  | .paymentSessions, (row : PaymentSession) => [some row.createdAt, some row.updatedAt]
  | .paymentWebhookEvents, (row : WebhookEvent) => [some row.receivedAt, row.processedAt]
  | .deliveries, (row : Delivery) =>
    [some row.assignedAt, row.acceptedAt, row.rejectedAt, row.pickedAt, row.deliveredAt,
      row.reassignedAt]
  | .agentEarnings, (row : AgentEarning) => [some row.earnedAt]
  | .restaurantBalances, _ | .agentPresence, _ | .eventsOutbox, _ => []

/-- The instants that they denote, in milliseconds. -/
def instants (t : TableName) (row : RowOf t) : List (Option ℕ) :=
  (timestamps t row).map (Option.map milliseconds)

/-- What an insert pass writes to the archive has the instants of the rows of its batch. -/
def ExactCopies (host : Host) : Prop :=
  ∀ (site : Site) (run : Run) (pass : Pass) (rows : List (RowOf pass.table)),
    ∀ row ∈ ((run.insertStep host site .done pass rows).1.archive pass.table).rows,
      row ∈ (site.archive pass.table).rows ∨ ∃ old ∈ rows, rowId old = rowId row ∧
      instants pass.table old = instants pass.table row

/-! ## Pages -/

theorem createdAt_named : "" ∉ ["created_at", "created_at"] := by decide

def createdAt : PaginationQueryOptions := ⟨["created_at"], "created_at", 20, createdAt_named⟩

def after (cursor : Cursor) : Query := ⟨some cursor, none, none, none⟩

theorem data_of_single (offset : ℤ) (row : Row) (cursor : Cursor) :
    (listPageIn offset (Table.empty.insert row) (fun _ => true) createdAt (after cursor)).data =
      if standsAfterIn offset .asc "created_at" cursor row then [row] else [] := by
  have rows : (Table.empty.insert row).rows = [row] := rfl
  have params : parsePaginationQuery (after cursor) createdAt =
      ⟨some cursor, 20, "created_at", .asc⟩ := by
    simp [parsePaginationQuery, after, createdAt]
  rw [listPageIn, params, rows, applyCursorPaginationIn, if_neg (show "created_at" ≠ "" by decide)]
  have room : ⌊(20 : ℚ) + 1⌋₊ = 21 := by norm_num
  cases stands : standsAfterIn offset .asc "created_at" cursor row <;>
    simp [stands, room, buildPaginationResult]

/-- A row is after a cursor in the process that is behind, and not in the one that is ahead. -/
theorem le_of_samePages {offset offset' : ℤ}
    (same : SamePages offset offset') : offset' ≤ offset := by
  by_contra ahead
  let cursor : Cursor := ⟨offset'.natAbs * 60000, 0⟩
  let row : Row := ⟨0, fun _ => (boundDate offset' cursor.value).toNat * 1000⟩
  have time : (milliseconds (row.column "created_at") : ℤ) = boundDate offset' cursor.value := by
    have : 0 ≤ boundDate offset' cursor.value := by
      simp only [boundDate, cursor]
      omega
    simp only [milliseconds, row]
    omega
  have stands : standsAfterIn offset .asc "created_at" cursor row = true := by
    have : boundDate offset cursor.value < boundDate offset' cursor.value := by
      simp only [boundDate]
      omega
    simp [standsAfterIn, time, this]
  have not_stands : standsAfterIn offset' .asc "created_at" cursor row = false := by
    simp [standsAfterIn, time, cursor, row]
  have page := same (Table.empty.insert row) (fun _ => true) createdAt (after cursor) 0
  have data := congrArg Paginated.data (Option.some.inj page)
  rw [data_of_single, data_of_single, stands, not_stands] at data
  cases data

theorem samePages_iff (offset offset' : ℤ) : SamePages offset offset' ↔ offset = offset' := by
  constructor
  · intro same
    exact le_antisymm (le_of_samePages fun table filter options query n =>
      (same table filter options query n).symm) (le_of_samePages same)
  · rintro rfl table filter options query n
    rfl

/-! ## Copies -/

theorem milliseconds_wallClock_utc (time : ℕ) :
    milliseconds (wallClock 0 time) = milliseconds time := by
  rw [wallClock_utc, milliseconds, milliseconds, Nat.mul_div_cancel _ (by decide)]

theorem instants_carried_utc (t : TableName) (row : RowOf t) :
    instants t (carried 0 t row) = instants t row := by
  have both : milliseconds ∘ wallClock 0 = milliseconds := funext milliseconds_wallClock_utc
  cases t <;> simp [instants, timestamps, carried, milliseconds_wallClock_utc, Option.map_map, both]

theorem exactCopies_iff (host : Host) : ExactCopies host ↔ host.offset = 0 := by
  constructor
  · intro exact
    let time := host.offset.natAbs * 60000000
    let order : Order := { ArchivalLoss.oldOrder with createdAt := time }
    let site : Site := ⟨Database.empty, Database.empty, 0, none⟩
    have written : carried host.offset .orders order ∈
        ((Run.insertStep host site ⟨0, 0, 0, .ended, [], [], true⟩ .done ⟨.insert, .orders, [], 0,
          0, 0⟩ [order]).1.archive .orders).rows :=
      List.mem_singleton_self _
    obtain impossible | ⟨old, isOld, _, same⟩ :=
      exact site _ ⟨.insert, .orders, [], 0, 0, 0⟩ [order] _ written
    · exact absurd impossible List.not_mem_nil
    · rw [List.mem_singleton.1 isOld] at same
      have created : milliseconds time = milliseconds (wallClock host.offset time) :=
        Option.some.inj (List.cons.inj same).1
      simp only [milliseconds, wallClock, time] at created
      omega
  · intro utc site run pass rows row member
    cases inserts : insertRows (rows.map (carried host.offset pass.table))
      (site.archive pass.table) with
    | none =>
      simp only [Run.insertStep, inserts] at member
      exact .inl member
    | some table =>
      simp only [Run.insertStep, inserts, Site.insertInto, Function.update_self] at member
      rcases (inserted_of_insertRows inserts).origin row member with before | ⟨new, _⟩
      · exact .inl before
      · obtain ⟨old, inBatch, rfl⟩ := List.mem_map.1 new
        rw [utc]
        exact .inr ⟨old, inBatch, (rowId_carried 0 old).symm,
          (instants_carried_utc pass.table old).symm⟩

/-- Two processes, and the copies that each of them makes. -/
def ZoneIndependent (host host' : Host) : Prop :=
  SamePages host.offset host'.offset ∧ ExactCopies host ∧ ExactCopies host'

theorem results_are_independent_of_the_zone_iff (host host' : Host) :
    ZoneIndependent host host' ↔ host.offset = 0 ∧ host'.offset = 0 := by
  rw [ZoneIndependent, samePages_iff, exactCopies_iff, exactCopies_iff]
  exact and_iff_right_of_imp fun utc => utc.1.trans utc.2.symm

/-- UTC, and Cairo. -/
theorem results_depend_on_the_zone : ¬ ZoneIndependent ⟨30, 0⟩ ⟨30, 120⟩ := fun independent =>
  absurd ((exactCopies_iff _).1 independent.2.2) (by decide)

end SwiftBite.Verified.TimeZones
