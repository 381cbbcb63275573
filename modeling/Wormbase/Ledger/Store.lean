import Wormbase.Ledger.Entry

/-! The `ledger` table and the session around a write.

    Rows are entries after the column conversions: the payload has been through the JSON column and
    the timestamp column of SQLite has dropped the zone. A session works on the committed rows and
    its rows are committed only when its body returns. -/

namespace Ledger
open Py

inductive Dialect where | sqlite | postgresql
  deriving DecidableEq

def integrityError : Err := ⟨"IntegrityError", "UNIQUE constraint failed"⟩

/-! ### Columns -/

/-- What the timestamp column keeps: SQLite the wall clock alone, Postgres the instant. -/
def storeTs (d : Dialect) (t : DateTime) : DateTime :=
  match d, t.utcoffset with
  | .sqlite, _ => { t with utcoffset := none }
  | .postgresql, none => t
  | .postgresql, some o => ((t.instant o).map fun u => ⟨u, some DateTime.utc⟩).getD t

mutual
/-- Whether a JSON text is one that Postgres takes: it has no `NaN` and no infinity. -/
def standardJson : Val → Bool
  | .float x => match x with | .finite _ _ => true | _ => false
  | .list xs => standardList xs
  | .dict kvs => standardItems kvs
  | _ => true
def standardList : List Val → Bool
  | [] => true
  | x :: xs => standardJson x && standardList xs
def standardItems : List (Key × Val) → Bool
  | [] => true
  | (_, v) :: kvs => standardJson v && standardItems kvs
end

/-- What the payload column keeps. -/
def storePayload (d : Dialect) (payload : Val) : Except Err Val := do
  let stored ← jsonColumn payload
  if d = .postgresql ∧ standardJson payload = false then
    throw ⟨"DataError", "invalid input syntax for type json"⟩
  return stored

def storeRow (d : Dialect) (e : Entry) : Except Err Entry := do
  return { e with payload := ← storePayload d e.payload, ts := storeTs d e.ts }

/-- The primary key and the two unique constraints of the table. -/
def conflicts (row : Entry) (other : Entry) : Bool :=
  other.entryId = row.entryId ||
    (other.companyId = row.companyId && (other.seq = row.seq || other.hash = row.hash))

/-- A row joins the table unless it breaks a constraint. -/
def addRow (rows : List Entry) (row : Entry) : Except Err (List Entry) :=
  if rows.any (conflicts row) then .error integrityError else .ok (rows ++ [row])

/-- `ledger.insert().values(**entry)`. -/
def insertRow (d : Dialect) (rows : List Entry) (e : Entry) : Except Err (List Entry) := do
  addRow rows (← storeRow d e)

/-! ### Reading -/

/-- `_normalize_row`: a naive timestamp is read as UTC. -/
def normalizeRow (row : Entry) : Entry :=
  if row.ts.utcoffset = none then { row with ts := row.ts.replaceUtc } else row

/-- `ts <= until_ts` as the table compares: wall clocks in SQLite, instants in Postgres. -/
def tsLe (d : Dialect) (a b : DateTime) : Bool := (storeTs d a).wall ≤ (storeTs d b).wall

/-- `ORDER BY seq ASC`. -/
def SeqBefore (a b : Entry) : Prop := a.seq ≤ b.seq

instance : DecidableRel SeqBefore := fun a b => inferInstanceAs (Decidable (a.seq ≤ b.seq))

/-- `ORDER BY seq DESC`. -/
def SeqAfter (a b : Entry) : Prop := b.seq ≤ a.seq

instance : DecidableRel SeqAfter := fun a b => inferInstanceAs (Decidable (b.seq ≤ a.seq))
instance : Std.Total SeqAfter := ⟨fun a b => le_total b.seq a.seq⟩
instance : IsTrans _ SeqAfter := ⟨fun _ _ _ hab hbc => le_trans hbc hab⟩

def ofCompany (rows : List Entry) (companyId : UUID) : List Entry :=
  rows.filter fun e => e.companyId = companyId

/-- `fetch_entries`. -/
def fetchEntries (d : Dialect) (rows : List Entry) (companyId : UUID)
    (untilTs : Option DateTime) : List Entry :=
  let found := (ofCompany rows companyId).filter fun e =>
    match untilTs with
    | none => true
    | some t => tsLe d e.ts t
  (found.insertionSort SeqBefore).map normalizeRow

/-- `ORDER BY seq DESC LIMIT 1`. -/
def newest (rows : List Entry) (companyId : UUID) : Option Entry :=
  ((ofCompany rows companyId).insertionSort SeqAfter).head?

/-- The seq and the hash of the row found, or 0 and the genesis value. -/
def tailOf : Option Entry → ℕ × Bytes
  | none => (0, genesisPrevHash)
  | some e => (e.seq, e.hash)

/-- `_tail`. -/
def tail (rows : List Entry) (companyId : UUID) : ℕ × Bytes := tailOf (newest rows companyId)

/-- `session_scope`: commits what the body leaves when it returns, keeps the rows when it raises. -/
def sessionScope {α : Type} (committed : List Entry)
    (body : List Entry → Except Err (α × List Entry)) : Except Err α × List Entry :=
  match body committed with
  | .ok (a, rows) => (.ok a, rows)
  | .error e => (.error e, committed)

/-! ### Lemmas -/

theorem storePayload_ok {d : Dialect} {v w : Val} (h : storePayload d v = .ok w) :
    jsonColumn v = .ok w := by
  obtain ⟨w', hw, h⟩ := bind_eq_ok.mp h
  split at h
  · cases h
  · cases h
    exact hw

theorem storeRow_ok {d : Dialect} {e row : Entry} (h : storeRow d e = .ok row) :
    ∃ w, jsonColumn e.payload = .ok w ∧ row = { e with payload := w, ts := storeTs d e.ts } := by
  obtain ⟨w, hw, h⟩ := bind_eq_ok.mp h
  exact ⟨w, storePayload_ok hw, (Except.ok.inj h).symm⟩

theorem storeRow_fields {d : Dialect} {e row : Entry} (h : storeRow d e = .ok row) :
    row.entryId = e.entryId ∧ row.companyId = e.companyId ∧ row.seq = e.seq ∧
      row.kind = e.kind ∧ row.prevHash = e.prevHash ∧ row.hash = e.hash := by
  obtain ⟨w, -, rfl⟩ := storeRow_ok h
  exact ⟨rfl, rfl, rfl, rfl, rfl, rfl⟩

theorem normalizeRow_fields (row : Entry) :
    (normalizeRow row).entryId = row.entryId ∧ (normalizeRow row).companyId = row.companyId ∧
      (normalizeRow row).seq = row.seq ∧ (normalizeRow row).kind = row.kind ∧
      (normalizeRow row).prevHash = row.prevHash ∧ (normalizeRow row).hash = row.hash := by
  unfold normalizeRow
  split <;> exact ⟨rfl, rfl, rfl, rfl, rfl, rfl⟩

theorem addRow_ok {rows rows' : List Entry} {row : Entry} (h : addRow rows row = .ok rows') :
    (∀ other ∈ rows, conflicts row other = false) ∧ rows' = rows ++ [row] := by
  unfold addRow at h
  split at h
  · cases h
  · rename_i hnone
    exact ⟨by simpa using hnone, (Except.ok.inj h).symm⟩

theorem insertRow_ok {d : Dialect} {rows rows' : List Entry} {e : Entry}
    (h : insertRow d rows e = .ok rows') : ∃ row, storeRow d e = .ok row ∧
      (∀ other ∈ rows, conflicts row other = false) ∧ rows' = rows ++ [row] := by
  obtain ⟨row, hrow, h⟩ := bind_eq_ok.mp h
  exact ⟨row, hrow, addRow_ok h⟩

theorem mem_fetchEntries {d : Dialect} {rows : List Entry} {companyId : UUID} {e : Entry} :
    e ∈ fetchEntries d rows companyId none ↔
      ∃ row ∈ rows, row.companyId = companyId ∧ normalizeRow row = e := by
  simp [fetchEntries, ofCompany, and_assoc]

end Ledger
