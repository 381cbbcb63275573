import Wormbase.Ledger.Actions
import Wormbase.Lib.Run

/-! `CatalogImportReactivity` and `CatalogDriftReactivity`: an external catalog is imported once for a
    source, and a changed snapshot of it is reported.

    An import is one cycle after the other, and later triggers look for the first of them only. The
    baseline of a drift is the imported hash, also after a drift was reported. -/

namespace CatalogMirror
open Py
open Ledger (Entry Mint)

/-! ### Snapshots and the cycles that are written of them -/

structure LineageEdge where
  upstream : String
  downstream : String

structure ExternalPolicy where
  name : String
  policyKind : String
  body : Option String
  appliedTo : List String

structure MetricDefinition where
  name : String
  expression : Option String
  timeGrain : Option String
  dimensions : List String
  description : Option String

/-- `CatalogSnapshot`. Its hash is the hexdigest of its contents, which is never empty; of its tables
    only the number is written. -/
structure CatalogSnapshot where
  tableCount : ℕ
  edges : List LineageEdge
  policies : List ExternalPolicy
  metrics : List MetricDefinition
  snapshotHash : String
  hash_ne : snapshotHash ≠ ""

/-- The fields of the two reactivities for one source. -/
structure Source where
  sourceId : String
  domainId : String
  kind : String

/-- What `_emit_pevr` is called with. -/
structure Cycle where
  targetKind : String
  args : List (String × Val)
  names : (args.map Prod.fst).Nodup

/-- `str | None`. -/
def optText : Option String → Val
  | some s => .str s
  | none => .none

def texts (ss : List String) : Val := .list (ss.map .str)

def importCycle (src : Source) (snap : CatalogSnapshot) : Cycle where
  targetKind := "external_catalog_imported"
  args := [("source_kind", .str src.kind), ("source_id", .str src.sourceId), ("domain_id", .str src.domainId),
    ("snapshot_hash", .str snap.snapshotHash), ("table_count", .int snap.tableCount),
    ("edge_count", .int snap.edges.length), ("metric_count", .int snap.metrics.length),
    ("import_mode", .str "initial")]
  names := by simp

def lineageCycle (sourceId : String) (edges : List LineageEdge) : Cycle where
  targetKind := "external_lineage_imported"
  args := [("source_id", .str sourceId),
    ("edges", .list (edges.map fun e => texts [e.upstream, e.downstream]))]
  names := by simp

def policyCycle (sourceId : String) (policy : ExternalPolicy) : Cycle where
  targetKind := "external_policy_imported"
  args := [("source_id", .str sourceId), ("policy_fqn", .str policy.name),
    ("policy_kind", .str policy.policyKind), ("body", optText policy.body),
    ("applied_to", texts policy.appliedTo)]
  names := by simp

def metricCycle (sourceId : String) (metric : MetricDefinition) : Cycle where
  targetKind := "external_metric_imported"
  args := [("source_id", .str sourceId), ("name", .str metric.name), ("expression", optText metric.expression),
    ("time_grain", optText metric.timeGrain), ("dimensions", texts metric.dimensions),
    ("description", optText metric.description)]
  names := by simp

def driftCycle (sourceId oldHash newHash : String) : Cycle where
  targetKind := "external_catalog_drift_detected"
  args := [("source_id", .str sourceId), ("old_hash", .str oldHash), ("new_hash", .str newHash),
    ("added_table_ids", texts []), ("removed_table_ids", texts []), ("changed_table_ids", texts [])]
  names := by simp

/-- The companion entries of an import: the lineage if there is any, each policy and each metric. -/
def companions (sourceId : String) (snap : CatalogSnapshot) : List Cycle :=
  (if snap.edges = [] then [] else [lineageCycle sourceId snap.edges]) ++ snap.policies.map (policyCycle sourceId) ++
    snap.metrics.map (metricCycle sourceId)

def Cycle.tool (c : Cycle) : String := "emit_" ++ c.targetKind

/-- The action that a cycle leaves in the ledger. -/
def Cycle.action (c : Cycle) : String × Dict := (c.tool, backDict c.args)

/-! ### What is read from the ledger -/

/-- `needle in v`. -/
def textIn (needle : String) : Val → Except Err Bool
  | .str s => .ok (occursIn needle s)
  | .list xs => .ok (xs.any fun x => x.isText needle)
  | .dict d => .ok (Dict.has d needle)
  | v => .error (typeError s!"argument of type '{v.typeName}' is not iterable")

/-- The args of a row that tells of an import. -/
def importArgs (row : Entry) : Except Err (Option Dict) :=
  if row.kind ≠ .execute then .ok none
  else
    match row.payload.or (.dict []) with
    | .dict payload => do
      if ← textIn "external_catalog_imported" ((Dict.get payload "tool").or (.str "")) then
        match (Dict.get payload "args").or (.dict []) with
        | .dict args => return some args
        | v => .error (attributeError s!"'{v.typeName}' object has no attribute 'get'")
      else return none
    | v => .error (attributeError s!"'{v.typeName}' object has no attribute 'get'")

/-- `_has_prior_import`. -/
def hasPriorImport (sourceId : String) : List Entry → Except Err Bool
  | [] => .ok false
  | row :: rows => do
    match ← importArgs row with
    | some args =>
      if (Dict.get args "source_id").isText sourceId then return true else hasPriorImport sourceId rows
    | none => hasPriorImport sourceId rows

section
variable (py : Interp)

/-- `_latest_snapshot_hash`, from what was found before. -/
def latestSnapshotHash (sourceId : String) : Option String → List Entry → Except Err (Option String)
  | latest, [] => .ok latest
  | latest, row :: rows => do
    match ← importArgs row with
    | some args =>
      let h := Dict.get args "snapshot_hash"
      if (Dict.get args "source_id").isText sourceId && h.truthy then
        latestSnapshotHash sourceId (some (h.toStr py)) rows
      else latestSnapshotHash sourceId latest rows
    | none => latestSnapshotHash sourceId latest rows

/-! ### The two reactivities -/

/-- The ids and the clock of one write, and an error of the database before it. -/
structure Attempt where
  mint : Mint
  outage : Option Err

/-- What a call of `fire` finds: whether the ledger can be read, the snapshot of the source or what
    `authenticate` and `discover_catalog` raise, and its writes in order. -/
structure Trigger where
  read : Except Err Unit
  snapshot : Except Err CatalogSnapshot
  attempts : ℕ → Attempt

/-- An import whose first entry was written, and how many of its companions were. -/
structure Import where
  source : Source
  snapshot : CatalogSnapshot
  written : ℕ

/-- The ledger, and what became of the import of each source. -/
structure State where
  rows : List Entry
  imports : String → Option Import

def State.start : State := ⟨[], fun _ => none⟩

variable (sha256 : Bytes → Bytes) (d : Ledger.Dialect) (company : UUID)

/-- The write of `_emit_pevr`. -/
def Cycle.call (c : Cycle) (src : Source) (m : Mint) : Ledger.Call :=
  Ledger.emit company m [("target_kind", .str c.targetKind), ("ref_id", .str src.sourceId),
    ("reason", .str s!"catalog-mirror: {c.targetKind}"), ("proposed_by", .str "catalog_mirror")]
    c.tool c.args (.str src.sourceId)
    (.list [.dict ([("name", .str "catalog_recorded"), ("ok", .bool true)].map strItem)])
    s!"{c.targetKind} observed" .activeDeterministic

/-- `_emit_pevr`. -/
def emitPevr (rows : List Entry) (src : Source) (c : Cycle) (a : Attempt) : Except Err Unit × List Entry :=
  match a.outage with
  | some x => (.error x, rows)
  | none =>
    let done := Ledger.write sha256 d rows (c.call company src a.mint)
    (done.1.map fun _ => (), done.2)

/-- Some cycles one after the other until one fails: how many were written, and the failure. -/
def emitAll (src : Source) (attempts : ℕ → Attempt) : ℕ → List Entry → List Cycle →
    ℕ × Except Err Unit × List Entry
  | _, rows, [] => (0, .ok (), rows)
  | k, rows, c :: cs =>
    let done := emitPevr sha256 d company rows src c (attempts k)
    match done.1 with
    | .error x => (0, .error x, done.2)
    | .ok _ =>
      let rest := emitAll src attempts (k + 1) done.2 cs
      (rest.1 + 1, rest.2)

/-- `context.ledger.fetch`. -/
def fetch (rows : List Entry) : List Entry := Ledger.fetchEntries d rows company none

/-- `CatalogImportReactivity.fire`: whether it fires, and the state then. -/
def importFire (src : Source) (t : Trigger) (s : State) : Except Err Bool × State :=
  match t.read.bind fun _ => hasPriorImport src.sourceId (fetch d company s.rows) with
  | .error x => (.error x, s)
  | .ok true => (.ok false, s)
  | .ok false =>
    match t.snapshot with
    | .error x => (.error x, s)
    | .ok snap =>
      let first := emitPevr sha256 d company s.rows src (importCycle src snap) (t.attempts 0)
      match first.1 with
      | .error x => (.error x, { s with rows := first.2 })
      | .ok _ =>
        let rest := emitAll sha256 d company src t.attempts 1 first.2 (companions src.sourceId snap)
        (rest.2.1.map fun _ => true,
          ⟨rest.2.2, Function.update s.imports src.sourceId (some ⟨src, snap, rest.1⟩)⟩)

/-- `CatalogDriftReactivity.fire`. -/
def driftFire (src : Source) (t : Trigger) (s : State) : Except Err Bool × State :=
  match t.read.bind fun _ => latestSnapshotHash py src.sourceId none (fetch d company s.rows) with
  | .error x => (.error x, s)
  | .ok none => (.ok false, s)
  | .ok (some baseline) =>
    match t.snapshot with
    | .error x => (.error x, s)
    | .ok snap =>
      if snap.snapshotHash = baseline then (.ok false, s)
      else
        let done := emitPevr sha256 d company s.rows src (driftCycle src.sourceId baseline snap.snapshotHash) (t.attempts 0)
        (done.1.map fun _ => true, { s with rows := done.2 })

end

end CatalogMirror
