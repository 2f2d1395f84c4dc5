import SwiftBite.Http.Pagination

/-! # Pages of records

A list endpoint sorts its records by one timestamp; the rows that the pages are made of are those
of the records.
-/

set_option autoImplicit false

namespace SwiftBite.Pagination

section

variable {ρ : Type} (id time : ρ → ℕ)

/-- A record, as far as the list is sorted and cut. -/
def rowFor (record : ρ) : Row := ⟨id record, fun _ => time record⟩

structure RecordPage (ρ : Type) where
  data : List ρ
  nextCursor : Option Cursor
  hasMore : Bool
  count : ℕ

def RecordPage.map {σ : Type} (f : ρ → σ) (page : RecordPage ρ) : RecordPage σ :=
  ⟨page.data.map f, page.nextCursor, page.hasMore, page.count⟩

/-- `applyCursorPagination` on the records of the query, and `buildPaginationResult`. -/
def recordPage (query : List ρ) (params : PaginationParams) : RecordPage ρ :=
  let rows := applyCursorPagination (query.map (rowFor id time)) params
  let page := buildPaginationResult rows params.limit params.sortBy
  { data := page.data.filterMap fun row => query.find? fun record => id record = row.id
    nextCursor := page.nextCursor
    hasMore := page.hasMore
    count := page.count }

/-- The pages that a client gets who asks again with `nextCursor` as long as there is one. -/
inductive Asks (ask : Option Cursor → RecordPage ρ) :
    Option Cursor → List (RecordPage ρ) → Prop where
  | last {cursor : Option Cursor} (none : (ask cursor).nextCursor = none) :
      Asks ask cursor [ask cursor]
  | more {cursor : Option Cursor} {nextCursor : Cursor} {pages : List (RecordPage ρ)}
      (isNext : (ask cursor).nextCursor = some nextCursor)
      (rest : Asks ask (some nextCursor) pages) : Asks ask cursor (ask cursor :: pages)

/-- The pages are determined. -/
theorem Asks.unique {ask : Option Cursor → RecordPage ρ} {cursor : Option Cursor}
    {pages pages' : List (RecordPage ρ)} (asks : Asks ask cursor pages)
    (asks' : Asks ask cursor pages') : pages = pages' := by
  induction asks generalizing pages' with
  | last none =>
    cases asks' with
    | last => rfl
    | more isNext => cases none.symm.trans isNext
  | more isNext _ inductionHypothesis =>
    cases asks' with
    | last none => cases none.symm.trans isNext
    | more isNext' rest' =>
      cases isNext.symm.trans isNext'
      rw [inductionHypothesis rest']

end

end SwiftBite.Pagination
