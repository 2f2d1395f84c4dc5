import SwiftBite.Store.Program

/-! # Kinds of SQL statements

Each kind is a function from the time of the statement and the state it reads to its
possible outcomes.  `SELECT .. LIMIT 1` without a unique condition may return any of the
matching rows, so it has an outcome for each.
-/

set_option autoImplicit false

namespace SwiftBite.Store.Statement

section

variable {T : Type} [DecidableEq T] {Row : T → Type} {K U : Type} [DecidableEq K] [DecidableEq U]
  [∀ t, Keyed (Row t) K U] {β : Type}

/-- A query that returns no whole row. -/
def select (read : ℕ → Db Row → β) (now : ℕ) (db : Db Row) : List (Option (Effect Row K β)) :=
  [some ⟨[], [], read now db⟩]

/-- `SELECT .. WHERE key = k`. -/
def selectByKey (t : T) (k : K) (_ : ℕ) (db : Db Row) :
    List (Option (Effect Row K (Option (Row t)))) :=
  [some ⟨[], ((db t).get k).toList.map (Sigma.mk t), (db t).get k⟩]

/-- `SELECT .. LIMIT 1`, from the rows that may come first. -/
def selectFirst (t : T) (candidates : Table (Row t) → List (Row t)) (_ : ℕ) (db : Db Row) :
    List (Option (Effect Row K (Option (Row t)))) :=
  match candidates (db t) with
  | [] => [some ⟨[], [], none⟩]
  | row :: rows => (row :: rows).map fun row => some ⟨[], [⟨t, row⟩], some row⟩

omit [DecidableEq T] [DecidableEq K] [DecidableEq U] in
theorem selectFirst_cases {t : T} {candidates : Table (Row t) → List (Row t)} {now : ℕ}
    {db : Db Row} {outcome : Option (Effect Row K (Option (Row t)))}
    (member : outcome ∈ selectFirst t candidates now db) :
    (candidates (db t) = [] ∧ outcome = some ⟨[], [], none⟩) ∨ ∃ row ∈ candidates (db t),
      outcome = some ⟨[], [⟨t, row⟩], some row⟩ := by
  unfold selectFirst at member
  split at member
  next none => exact .inl ⟨none, List.mem_singleton.1 member⟩
  next row rows some =>
    obtain ⟨row', among, isEffect⟩ := List.mem_map.1 member
    exact .inr ⟨row', some ▸ among, isEffect.symm⟩

/-- `SELECT .. WHERE key = k FOR UPDATE`. -/
def lockByKey (t : T) (k : K) (_ : ℕ) (db : Db Row) :
    List (Option (Effect Row K (Option (Row t)))) :=
  match (db t).get k with
  | none => [some ⟨[], [], none⟩]
  | some row => [some ⟨[.lock t k], [⟨t, row⟩], some row⟩]

/-- Every referenced row exists. -/
def referencesHold (db : Db Row) (parents : List (T × K)) : Bool :=
  parents.all fun parent => ((db parent.1).get parent.2).isSome

/-- `INSERT .. RETURNING *`. -/
def insert (t : T) (parents : List (T × K)) (row : ℕ → Row t) (now : ℕ) (db : Db Row) :
    List (Option (Effect Row K (Row t))) :=
  if (db t).conflicts (row now) || !referencesHold db parents then [none]
  else [some ⟨[.insert t (row now)], [⟨t, row now⟩], row now⟩]

/-- The rows can be inserted one after the other. -/
def insertable {ρ : Type} [Keyed ρ K U] (table : Table ρ) : List ρ → Bool
  | [] => true
  | row :: rows => !table.conflicts row && insertable (table.insert row) rows

/-- `INSERT` of several rows. -/
def insertAll (t : T) (parents : List (T × K)) (rows : ℕ → List (Row t)) (now : ℕ) (db : Db Row) :
    List (Option (Effect Row K (List (Row t)))) :=
  if insertable (db t) (rows now) && referencesHold db parents then
    [some ⟨(rows now).map (.insert t), (rows now).map (Sigma.mk t), rows now⟩]
  else [none]

/-- `INSERT .. ON CONFLICT (target) DO NOTHING RETURNING *`. -/
def insertIgnore (t : T) (target : Row t → Bool) (parents : List (T × K)) (row : ℕ → Row t)
    (now : ℕ) (db : Db Row) : List (Option (Effect Row K (Option (Row t)))) :=
  if (db t).rows.any target then [some ⟨[], [], none⟩]
  else if (db t).conflicts (row now) || !referencesHold db parents then [none]
  else [some ⟨[.insert t (row now)], [⟨t, row now⟩], some (row now)⟩]

/-- `UPDATE .. WHERE key = k RETURNING *`. -/
def updateByKey (t : T) (k : K) (f : Row t → Row t) (_ : ℕ) (db : Db Row) :
    List (Option (Effect Row K (Option (Row t)))) :=
  match (db t).get k with
  | none => [some ⟨[], [], none⟩]
  | some row => [some ⟨[.update t k f], [⟨t, f row⟩], some (f row)⟩]

/-- `INSERT .. ON CONFLICT (key) DO UPDATE SET ..`. -/
def upsert (t : T) (row : ℕ → Row t) (f : Row t → Row t) (now : ℕ) (db : Db Row) :
    List (Option (Effect Row K (Row t))) :=
  match (db t).get (key (row now)) with
  | some old => [some ⟨[.update t (key old) f], [⟨t, f old⟩], f old⟩]
  | none =>
    if (db t).conflicts (row now) then [none]
    else [some ⟨[.insert t (row now)], [⟨t, row now⟩], row now⟩]

/-- `UPDATE .. WHERE condition`, in the two parts PostgreSQL gives it: the rows that match
when it starts, and for each of them, once its lock is there, the check again. -/
def updateWhere (t : T) (keys : List K) (condition : Row t → Bool) (f : Row t → Row t) (_ : ℕ)
    (db : Db Row) : List (Option (Effect Row K (List (Row t)))) :=
  let rows := keys.filterMap fun k => ((db t).get k).filter condition
  [some ⟨rows.map fun row => .update t (key row) f, rows.map fun row => ⟨t, f row⟩, rows.map f⟩]

end

end SwiftBite.Store.Statement
