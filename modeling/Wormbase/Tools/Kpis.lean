import Wormbase.Lib.Recent
import Wormbase.Lib.Table
import Wormbase.Py.Coerce
import Wormbase.Py.Column
import Wormbase.Py.Dumps
import Wormbase.Py.IsoFormat
import Mathlib.Data.String.Basic

/-! The KPI fold of a replay: `projections/kpis.py` of `wormbase-tools`.

    A first loop over the entries collects KPI nodes and gold artifacts, each in a dict; a second one gives
    every KPI the value of one artifact of its sources. -/

namespace Tools
open Py

namespace KpiFold

/-! ### Rows -/

structure KpiNode where
  kpiId : Val
  label : Val
  name : Val
  formula : Val
  unit : Val
  ownerPosition : Val
  sourceIds : List Val
  proposedAt : Option String
  value : Val
  valueSourceEntryId : Option String
  contributingEntryIds : List String

/-- `KpiNode(kpi_id=kpi_id)`. -/
def KpiNode.new (kpiId : Val) : KpiNode :=
  ⟨kpiId, .none, .none, .none, .none, .none, [], none, .none, none, []⟩

/-- The key that a node has in `state.kpis`. -/
def KpiNode.key (kpi : KpiNode) : Key := kpi.kpiId.keyOf

structure Gold where
  goldId : String
  value : Val
  artifactKind : Val
  computedAt : String
  sourceId : String
  entryId : String

structure ProjectionState where
  kpis : Table KpiNode.key
  goldArtifacts : Table Gold.goldId

def emptyState : ProjectionState := ⟨.empty, .empty⟩

/-! ### Entries -/

/-- `_payload_args`. -/
def payloadArgs (entry : Dict) : Dict :=
  match entry.get "payload" with
  | .dict payload =>
    match Dict.get payload "args" with
    | .dict args => args
    | _ => []
  | _ => []

/-- `_payload_tool`. -/
def payloadTool (entry : Dict) : Option String :=
  match entry.get "payload" with
  | .dict payload =>
    match Dict.get payload "tool" with
    | .str tool => some tool
    | _ => none
  | _ => none

/-- `_is_execute`. -/
def isExecute (entry : Dict) : Bool := (entry.get "kind").isText "execute"

def runs (entry : Dict) (tool : String) : Bool := isExecute entry && payloadTool entry = some tool

section
variable (py : Interp)

def entryId (entry : Dict) : String := (entry.get "entry_id").text py

/-- `str(v)` of a value that may be a `datetime`, which prints with a space for its `T`. -/
def strOf : Val → String
  | .datetime t => String.ofList (t.isoformat.toList.set 10 ' ')
  | v => v.toStr py

/-! ### Values -/

/-- `json.dumps(v, sort_keys=True, separators=(",", ":"))`; without a `default`, other types raise. -/
def sortedJson (v : Val) : Except Err String := do
  let _ ← jsonColumn v
  return String.ofList (narrow (← encode v))

/-- `isinstance(v, (int, float, str))`. -/
def isScalar : Val → Bool
  | .bool _ | .int _ | .float _ | .str _ => true
  | _ => false

/-- `_normalize_value`. -/
def normalizeValue (raw : Val) : Except Err Val :=
  match raw with
  | .none => .ok .none
  | .dict fields =>
    if isScalar (Dict.get fields "value") then .ok (Dict.get fields "value")
    else
      match fields with
      | [(_, inner)] => if isScalar inner then .ok inner else .str <$> sortedJson raw
      | _ => .str <$> sortedJson raw
  | .list _ => .str <$> sortedJson raw
  | v => if isScalar v then .ok v else .ok (.str (strOf py v))

/-! ### The first loop -/

/-- What `list(args.get("source_ids", …))` names, if the key is there. -/
def nodeSources (args : Dict) : Except Err (Option (List Val)) :=
  match args.get? "source_ids" with
  | some v => some <$> v.toList
  | none => .ok none

/-- What `[str(s) for s in src_ids]` names, if there are any. -/
def proposedSources (args : Dict) : Except Err (Option (List Val)) := do
  if !(args.get "source_ids").truthy then return none
  let ids ← (args.get "source_ids").toList
  return some (ids.map fun v => .str (strOf py v))

/-- The `emit_kpi_node` branch. -/
def KpiNode.renode (entry : Dict) (existing : KpiNode) : Except Err KpiNode := do
  let args := payloadArgs entry
  let sources ← nodeSources args
  return { existing with
    name := (args.get "name").or existing.name
    label := (args.get "label").or existing.label
    formula := (args.get "formula").or existing.formula
    ownerPosition := (args.get "owner_position").or existing.ownerPosition
    sourceIds := sources.getD existing.sourceIds
    contributingEntryIds := existing.contributingEntryIds ++ [entryId py entry] }

/-- The `emit_kpi_proposed` branch. -/
def KpiNode.repropose (entry : Dict) (existing : KpiNode) : Except Err KpiNode := do
  let args := payloadArgs entry
  let sources ← proposedSources py args
  let ts := entry.get "ts"
  return { existing with
    label := (args.get "label").or existing.label
    name := existing.name.or (args.get "label")
    formula := (args.get "formula").or existing.formula
    unit := (args.get "unit").or existing.unit
    ownerPosition := (args.get "owner_position").or existing.ownerPosition
    sourceIds := sources.getD existing.sourceIds
    proposedAt :=
      if (args.get "proposed_at").truthy then some (strOf py (args.get "proposed_at"))
      else if ts.truthy then some (strOf py ts)
      else existing.proposedAt
    contributingEntryIds := existing.contributingEntryIds ++ [entryId py entry] }

/-- `state.kpis[kpi_id] = existing`, after a change to the node that was there or to a new one. -/
def ProjectionState.changeKpi (kpiId : Val) (change : KpiNode → Except Err KpiNode) (state : ProjectionState) :
    Except Err ProjectionState := do
  let key ← kpiId.hash
  let kpi ← change ((state.kpis.get? key).getD (KpiNode.new kpiId))
  return { state with kpis := state.kpis.put kpi }

/-- The artifact of an `emit_source_golded` entry. -/
def goldOf (entry : Dict) : Option Gold :=
  let args := payloadArgs entry
  if runs entry "emit_source_golded" ∧ (args.get "gold_artifact_id").truthy then
    some {
      goldId := strOf py (args.get "gold_artifact_id")
      value := args.get "value"
      artifactKind := args.get "artifact_kind"
      computedAt := strOf py (((args.get "computed_at").or (entry.get "ts")).or (.str ""))
      sourceId := (args.get "source_id").text py
      entryId := entryId py entry }
  else none

/-- One entry in the first loop. -/
def ProjectionState.apply (state : ProjectionState) (entry : Dict) : Except Err ProjectionState :=
  let args := payloadArgs entry
  if runs entry "emit_kpi_node" then
    if (args.get "id").truthy then state.changeKpi (args.get "id") (KpiNode.renode py entry) else .ok state
  else if runs entry "emit_kpi_proposed" then
    if (args.get "kpi_id").truthy then
      state.changeKpi (.str (strOf py (args.get "kpi_id"))) (KpiNode.repropose py entry)
    else .ok state
  else
    match goldOf py entry with
    | some gold => .ok { state with goldArtifacts := state.goldArtifacts.put gold }
    | none => .ok state

/-! ### The second loop -/

/-- `gold["source_id"] in kpi.source_ids and gold["artifact_kind"] == "kpi"`. -/
def Gold.feeds (sources : List Val) (gold : Gold) : Bool :=
  sources.any (·.isText gold.sourceId) && gold.artifactKind.isText "kpi"

/-- The artifact whose value a KPI is given: of those that feed it, the last with the greatest text in
    `computed_at`. -/
def pick (golds : List Gold) (sources : List Val) : Option Gold :=
  (golds.filter (Gold.feeds sources)).foldl (Recent.scan Gold.computedAt) none

/-- One KPI in the second loop. -/
def KpiNode.resolve (golds : List Gold) (kpi : KpiNode) : Except Err KpiNode :=
  match pick golds kpi.sourceIds with
  | none => .ok kpi
  | some gold =>
    match gold.value with
    | .none => .ok kpi
    | raw => do
      let value ← normalizeValue py raw
      return { kpi with
        value
        valueSourceEntryId := some gold.entryId
        contributingEntryIds :=
          if gold.entryId ≠ "" ∧ gold.entryId ∉ kpi.contributingEntryIds then kpi.contributingEntryIds ++ [gold.entryId]
          else kpi.contributingEntryIds }

/-- `fold_kpis`. The second loop changes each node in its place. -/
def foldKpis (entries : List Dict) : Except Err ProjectionState := do
  let state ← entries.foldlM (ProjectionState.apply py) emptyState
  let kpis ← state.kpis.rows.foldlM (fun kpis kpi => do
    return Table.put kpis (← kpi.resolve py state.goldArtifacts.rows)) state.kpis
  return { state with kpis }

end

end KpiFold

end Tools
