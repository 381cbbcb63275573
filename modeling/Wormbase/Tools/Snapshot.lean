import Wormbase.Ledger.Entry
import Wormbase.Py.IsoFormat
import Wormbase.Py.Loads

/-! The auditor's side of a ledger: `snapshot.py` and `replay.py` of `wormbase-tools`.

    A snapshot is a file of one JSON object per line. It is read, checked field by field, sorted by seq and
    walked along its hash chain by code of its own, so that an auditor needs no ledger. Folding KPIs is a
    parameter of the replay. -/

namespace Tools
open Py

def snapshotError (msg : String) : Err := ⟨"SnapshotError", msg⟩
def replayError (msg : String) : Err := ⟨"ReplayError", msg⟩

/-! ### Fields -/

/-- `bytes.fromhex(s)`: two digits for a byte, with spaces between bytes; `none` for a `ValueError`. -/
def fromHex : List Char → Option Bytes
  | [] => some []
  | [c] => if isSpace c then some [] else none
  | c :: d :: s =>
    if isSpace c then fromHex (d :: s)
    else do
      let hi ← Loads.hexDigit c
      let lo ← Loads.hexDigit d
      return UInt8.ofNat (hi * 16 + lo) :: (← fromHex s)

section
variable (py : Interp)

def quoted (s : String) : String := String.ofList (reprStr py s)

/-- `_hex_to_bytes`. -/
def hexToBytes : Val → Except Err Bytes
  | .str s =>
    match fromHex s.toList with
    | none => .error (snapshotError s!"hash field is not valid hex: {quoted py s}")
    | some b =>
      if b.length ≠ 32 then .error (snapshotError s!"hash field must decode to 32 bytes, got {b.length} bytes")
      else .ok b
  | v => .error (snapshotError s!"hash field must be a hex string, got {v.typeName}")

/-- `_ts_from_str`. -/
def tsFromStr : Val → Except Err DateTime
  | .datetime t => if t.utcoffset = none then .error (snapshotError "ts must be tz-aware") else .ok t
  | .str s =>
    match fromisoformat (if s.toList.getLast? = some 'Z' then zuluToOffset s.toList else s.toList) with
    | none => .error (snapshotError s!"ts is not RFC 3339: {quoted py s}")
    | some out =>
      match out.utcoffset with
      | none => .error (snapshotError s!"ts must be tz-aware: {quoted py s}")
      | some o =>
        match out.instant o with
        | none => .error (overflowError "date value out of range")
        | some u => .ok ⟨u, some DateTime.utc⟩
  | v => .error (snapshotError s!"ts must be a string, got {v.typeName}")

def requiredEntryFields : List String :=
  ["entry_id", "company_id", "seq", "ts", "kind", "quadrant", "payload", "prev_hash", "hash"]

/-- The rest of `_parse_line`: the three fields that are converted. -/
def convertFields (fields : Dict) : Except Err Dict := do
  let prevHash ← hexToBytes py (fields.get "prev_hash")
  let hash ← hexToBytes py (fields.get "hash")
  let ts ← tsFromStr py (fields.get "ts")
  return ((fields.set "prev_hash" (.bytes prevHash)).set "hash" (.bytes hash)).set "ts" (.datetime ts)

variable (depth : ℕ)

/-- `_parse_line`. -/
def parseLine (idx : ℕ) (line : List Char) : Except Err Dict :=
  match loads depth line with
  | .error x =>
    if x.cls = "JSONDecodeError" then .error (snapshotError s!"snapshot line {idx + 1} is not valid JSON: {x.msg}")
    else .error x
  | .ok (.dict fields) =>
    let missing := requiredEntryFields.filter fun f => !Dict.has fields f
    let names := String.ofList ((Val.list (missing.map .str)).repr py)
    if missing ≠ [] then .error (snapshotError s!"snapshot line {idx + 1} missing required fields: {names}")
    else convertFields py fields
  | .ok _ => .error (snapshotError s!"snapshot line {idx + 1} is not a JSON object")

/-! ### Files -/

/-- The lines of a text file; `acc` is what is read of a line. A line ends with `\n`, `\r` or both. -/
def linesFrom : List Char → List Char → List (List Char)
  | acc, [] => if acc = [] then [] else [acc]
  | acc, '\r' :: '\n' :: s => acc :: linesFrom [] s
  | acc, c :: s => if c = '\n' ∨ c = '\r' then acc :: linesFrom [] s else linesFrom (acc ++ [c]) s

def fileLines (s : List Char) : List (List Char) := linesFrom [] s

def stripped (line : List Char) : List Char := (stripText (String.ofList line)).toList

variable (path : String)

/-- `iter_snapshot`, run to its end; `none` for a file that is not there. -/
def iterSnapshot : Option (List Char) → Except Err (List Dict)
  | none => .error (snapshotError s!"snapshot file does not exist: {path}")
  | some text =>
    ((fileLines text).zipIdx.filter fun raw => stripped raw.1 ≠ []).mapM fun raw => parseLine py depth raw.2 (stripped raw.1)

/-- `int(e["seq"])`. -/
def seqOf (e : Dict) : Except Err ℤ := do (← e.item "seq").toInt

/-- `load_snapshot`. -/
def loadSnapshot (file : Option (List Char)) : Except Err (List Dict) := do
  let entries ← iterSnapshot py depth path file
  if entries.isEmpty then throw (snapshotError s!"snapshot is empty: {path}")
  let keyed ← entries.mapM fun e => do return (← seqOf e, e)
  return (keyed.insertionSort fun p q => p.1 ≤ q.1).map Prod.snd

end

/-! ### The chain -/

/-- `canonical_json`. -/
def canonicalJson (entry : Dict) : Except Err (List Char) := do
  let view := entry.filter fun p => p.1 ≠ .str "hash"
  return render (← encode (.dict view))

def genesisPrevHash : Bytes := List.replicate 32 0

section
variable (sha256 : Bytes → Bytes)

/-- `compute_entry_hash`. -/
def computeEntryHash (entry : Dict) : Except Err Bytes := do
  return sha256 (encodeUtf8 (← canonicalJson entry))

/-- `v.hex()`. -/
def hexOf : Val → Except Err String
  | .bytes b => .ok (String.ofList (hex b))
  | v => .error (attributeError s!"'{v.typeName}' object has no attribute 'hex'")

/-- The walk of `verify_chain` from running head `prev`, the seqs it has seen and index `i`. -/
def verifyFrom : Bytes → List ℤ → ℕ → List Dict → Except Err Bytes
  | prev, _, _, [] => .ok prev
  | prev, seen, i, e :: es => do
    let seq ← seqOf e
    if seq ∈ seen then throw (snapshotError s!"snapshot contains duplicate seq={seq} at index {i}")
    if !Ledger.sameBytes (e.get "prev_hash") prev then
      throw (snapshotError s!"chain break at seq={seq} (index {i}): prev_hash does not match running chain head")
    let expected ← computeEntryHash sha256 e
    if !Ledger.sameBytes (e.get "hash") expected then
      let stored ← hexOf (← e.item "hash")
      let recomputed := String.ofList (hex expected)
      throw (snapshotError
        s!"chain break at seq={seq} (index {i}): recomputed hash does not match stored hash (expected {recomputed}, stored {stored})")
    verifyFrom expected (seq :: seen) (i + 1) es

/-- `verify_chain`: the terminal hash and the number of entries. -/
def verifyChain (entries : List Dict) : Except Err (Bytes × ℕ) := do
  if entries.isEmpty then throw (snapshotError "cannot verify empty snapshot")
  return (← verifyFrom sha256 genesisPrevHash [] 0 entries, entries.length)

end

/-! ### Replay -/

section
variable (py : Interp)

/-- `filter_by_tenant`. -/
def filterByTenant (entries : List Dict) : Option String → List Dict
  | none => entries
  | some target => entries.filter fun e => (e.get "company_id").toStr py = target

/-- The tenants that a snapshot has entries of. -/
def tenantsOf (entries : List Dict) : List String :=
  ((entries.map fun e => (e.get "company_id").toStr py).filter fun t => t ≠ "None" ∧ t ≠ "").dedup

/-- The tenant that a replay is pinned to. -/
def pinTenant (entries : List Dict) : Option String → Except Err String
  | some tenant => .ok tenant
  | none =>
    match tenantsOf py entries with
    | [tenant] => .ok tenant
    | [] => .error (replayError "snapshot has no tenant id on any entry")
    | tenants =>
      let names := String.ofList ((Val.list ((tenants.insertionSort fun s t => s.toList ≤ t.toList).map .str)).repr py)
      .error (replayError s!"snapshot contains entries from multiple tenants ({names}); pass --tenant to disambiguate")

/-- `fold_kpis`, `compute_kpi_value` and the KPIs of a projection. -/
structure Kpis (S : Type) where
  foldKpis : List Dict → Except Err S
  computeKpiValue : S → String → Except Err (Option Val × List String)
  known : S → List String

structure ReplayResult (S : Type) where
  kpiId : String
  value : Option Val
  terminalHash : Bytes
  entryCount : ℕ
  tenantId : String
  contributingEntryIds : List String
  state : S

/-- `replay_snapshot`. -/
def replaySnapshot {S : Type} (sha256 : Bytes → Bytes) (depth : ℕ) (kpis : Kpis S) (path : String) (file : Option (List Char))
    (tenantId : Option String) (kpiId : String) : Except Err (ReplayResult S) := do
  let entries ← loadSnapshot py depth path file
  let tenant ← pinTenant py entries tenantId
  let pinned := filterByTenant py entries (some tenant)
  if pinned.isEmpty then throw (replayError s!"no entries match tenant_id={tenant} in {path}")
  let verified ← verifyChain sha256 pinned
  let state ← kpis.foldKpis pinned
  let found ← kpis.computeKpiValue state kpiId
  let known := String.ofList ((Val.list (((kpis.known state).insertionSort fun s t => s.toList ≤ t.toList).map .str)).repr py)
  if found.1.isNone ∧ kpiId ∉ kpis.known state then
    throw (replayError s!"kpi_id={quoted py kpiId} not found in snapshot. Known KPI ids: {known}")
  return ⟨kpiId, found.1, verified.1, verified.2, tenant, found.2, state⟩

end

end Tools
