import Wormbase.Readers.LakeReaders
import Wormbase.Py.FloatArith

/-! The strategies of the schema-impact axis that read other axes: what they propose for a change of one
    column, from the confirmed lineage edges and the acknowledged drifts of a tenant's ledger. -/

namespace SchemaImpacts
open Py Readers
open Projection (LedgerRow)

/-! ### Records -/

inductive ChangeKind where
  | columnAdded
  | columnDropped
  | columnTypeChanged
  deriving DecidableEq

def ChangeKind.text : ChangeKind → String
  | .columnAdded => "column_added"
  | .columnDropped => "column_dropped"
  | .columnTypeChanged => "column_type_changed"

/-- `ColumnChange`. -/
structure ColumnChange where
  srcTable : String
  srcColumn : String
  changeKind : ChangeKind
  oldType : Option String
  newType : Option String

/-- `ProposedImpact`. -/
structure ProposedImpact where
  impactId : String
  sourceId : String
  srcTable : String
  srcColumn : String
  changeKind : ChangeKind
  impactKind : String
  tgtTableId : String
  tgtColumn : String
  upstreamLineageEdgeId : Option String
  confidence : PyFloat
  strategy : String
  reasoning : String
  evidence : Dict

/-- `round(x, 4)`. -/
def round4 : PyFloat → PyFloat
  | .finite neg q => .finite neg ((PyFloat.toDouble (PyFloat.roundHalfEven (q * 10 ^ 4) / 10 ^ 4)).getD q)
  | x => x

/-- The float with these hundredths. -/
def hundredths (n : ℕ) : PyFloat := .ofMag false (n / 100)

def optText : Option String → Val
  | none => .none
  | some s => .str s

/-- `f"{t!r}"` of a type. -/
def typeRepr (py : Interp) : Option String → String
  | none => "None"
  | some s => String.ofList (reprStr py s)

/-- `_IMPACT_FACTOR`. -/
def impactFactor : ChangeKind → PyFloat
  | .columnDropped => hundredths 90
  | .columnTypeChanged => hundredths 85
  | .columnAdded => hundredths 50

/-- `_IMPACT_KIND_FOR_CHANGE`, and the same again for acknowledged drifts. -/
def impactKindForChange : ChangeKind → String
  | .columnDropped => "tgt_column_orphaned"
  | .columnTypeChanged => "tgt_column_type_mismatch"
  | .columnAdded => "tgt_column_unaware"

section
variable (py : Interp) (lower : String → String)

/-- `make_impact_id`. -/
def makeImpactId (sourceId srcTable srcColumn : String) (changeKind : ChangeKind) (tgtTableId tgtColumn : String) :
    String :=
  let parts := [sourceId, srcTable, srcColumn, changeKind.text, tgtTableId, tgtColumn]
  String.ofList ((hex (py.sha256 (encodeUtf8 ("|".intercalate parts).toList))).take 32)

/-- What the strategies differ in. -/
structure Finding where
  impactKind : String
  tgtTableId : String
  tgtColumn : String
  upstreamLineageEdgeId : Option String
  confidence : PyFloat
  strategy : String
  reasoning : String
  evidence : Dict

/-- `_propose`. -/
def propose (sourceId srcTable srcColumn : String) (changeKind : ChangeKind) (f : Finding) : ProposedImpact where
  impactId := makeImpactId py sourceId srcTable srcColumn changeKind f.tgtTableId f.tgtColumn
  sourceId
  srcTable
  srcColumn
  changeKind
  impactKind := f.impactKind
  tgtTableId := f.tgtTableId
  tgtColumn := f.tgtColumn
  upstreamLineageEdgeId := f.upstreamLineageEdgeId
  confidence := f.confidence
  strategy := f.strategy
  reasoning := f.reasoning
  evidence := f.evidence

/-! ### Lineage edges -/

/-- `LineageEdgeImpactStrategy`, without its reader. -/
structure LineageEdgeStrategy where
  includeNamingLineage : Bool := false
  minEdgeConfidence : PyFloat := hundredths 85

/-- The gate on the strategy of an edge, and the floor on its confidence. -/
def LineageEdgeStrategy.passes (s : LineageEdgeStrategy) (strategy : String) (confidence : PyFloat) : Bool :=
  (strategy = "dbt_manifest" || s.includeNamingLineage) && !PyFloat.lt confidence s.minEdgeConfidence

def lineageImpact (sourceId srcTable : String) (change : ColumnChange) (edge : LineageEdgeRecord) : ProposedImpact :=
  let factor := impactFactor change.changeKind
  let kind := impactKindForChange change.changeKind
  let final := PyFloat.max .zero (PyFloat.min .one (round4 (PyFloat.mul edge.confidence factor)))
  propose py sourceId srcTable change.srcColumn change.changeKind {
    impactKind := kind
    tgtTableId := edge.tgtTableId
    tgtColumn := edge.tgtColumn
    upstreamLineageEdgeId := some edge.edgeId
    confidence := final
    strategy := "lineage_edge"
    reasoning := "L3 lineage edge (" ++ edge.strategy ++ ", confidence=" ++ String.ofList edge.confidence.fixed2 ++
      ") connects " ++ srcTable ++ "." ++ change.srcColumn ++ " → " ++ edge.tgtTableId ++ "." ++ edge.tgtColumn ++
      "; " ++ change.changeKind.text ++ " → " ++ kind ++ " at " ++ String.ofList final.fixed2
    evidence := [(.str "upstream_edge_id", .str edge.edgeId), (.str "upstream_edge_strategy", .str edge.strategy),
      (.str "upstream_edge_confidence", .float edge.confidence), (.str "impact_factor", .float factor),
      (.str "change_kind", .str change.changeKind.text), (.str "old_type", optText change.oldType),
      (.str "new_type", optText change.newType)] }

/-- `LineageEdgeImpactStrategy.propose_impacts`. -/
def LineageEdgeStrategy.proposeImpacts (s : LineageEdgeStrategy) (rows : List LedgerRow) (sourceId srcTable : String)
    (change : ColumnChange) : Except Err (List ProposedImpact) := do
  let edges ← listConfirmedEdges py sourceId change.srcColumn rows
  return (edges.filter fun edge => s.passes edge.strategy edge.confidence).map
    (lineageImpact py sourceId srcTable change)

/-! ### Type coercions -/

/-- `_type_family`. -/
def typeFamily : Option String → String
  | none => ""
  | some t =>
    if t = "" then ""
    else
      let t := stripText (lower t)
      let t := if '(' ∈ t.toList then stripText (String.ofList (t.toList.takeWhile (· ≠ '('))) else t
      if t ∈ ["int", "integer", "int4", "int8", "bigint", "smallint"] then "int"
      else if t ∈ ["varchar", "char", "text", "string", "nvarchar"] then "varchar"
      else if t ∈ ["numeric", "decimal", "float", "float8", "real", "double", "double precision"] then "numeric"
      else if t ∈ ["bool", "boolean"] then "bool"
      else if t ∈ ["timestamp", "timestamptz", "datetime", "date", "time"] then "timestamp"
      else if t ∈ ["jsonb", "json"] then "json"
      else t

/-- `_TYPE_TRANSITION_CONFIDENCE`, with its default. -/
def transitionConfidence : String → String → PyFloat
  | "int", "varchar" => hundredths 85
  | "varchar", "int" => hundredths 70
  | "numeric", "varchar" => hundredths 85
  | "varchar", "numeric" => hundredths 70
  | "int", "numeric" => hundredths 90
  | "numeric", "int" => hundredths 70
  | "timestamp", "varchar" => hundredths 80
  | "varchar", "timestamp" => hundredths 65
  | "bool", "varchar" => hundredths 85
  | "varchar", "bool" => hundredths 65
  | _, _ => hundredths 70

/-- `_suggest_coercion`. -/
def suggestCoercion (oldFamily newFamily : String) : String :=
  if oldFamily = "" ∨ newFamily = "" then "downstream needs review"
  else "CAST " ++ oldFamily ++ " AS " ++ newFamily

def coercionImpact (sourceId srcTable : String) (change : ColumnChange) (edge : LineageEdgeRecord) : ProposedImpact :=
  let oldFamily := typeFamily lower change.oldType
  let newFamily := typeFamily lower change.newType
  let suggestion := suggestCoercion oldFamily newFamily
  propose py sourceId srcTable change.srcColumn .columnTypeChanged {
    impactKind := "type_coercion_required"
    tgtTableId := edge.tgtTableId
    tgtColumn := edge.tgtColumn
    upstreamLineageEdgeId := some edge.edgeId
    confidence := round4 (transitionConfidence oldFamily newFamily)
    strategy := "type_coercion"
    reasoning := "type change " ++ typeRepr py change.oldType ++ " → " ++ typeRepr py change.newType ++ " on " ++
      srcTable ++ "." ++ change.srcColumn ++ "; downstream " ++ edge.tgtTableId ++ "." ++ edge.tgtColumn ++
      " needs coercion: " ++ suggestion
    evidence := [(.str "old_type", optText change.oldType), (.str "new_type", optText change.newType),
      (.str "old_family", .str oldFamily), (.str "new_family", .str newFamily),
      (.str "suggested_coercion", .str suggestion), (.str "upstream_edge_id", .str edge.edgeId)] }

/-- `TypeCoercionImpactStrategy.propose_impacts`; the reader is optional. -/
def proposeCoercions (hasReader : Bool) (rows : List LedgerRow) (sourceId srcTable : String) (change : ColumnChange) :
    Except Err (List ProposedImpact) :=
  if change.changeKind ≠ .columnTypeChanged then .ok []
  else if hasReader = false then .ok []
  else do
    let edges ← listConfirmedEdges py sourceId change.srcColumn rows
    return edges.map (coercionImpact py lower sourceId srcTable change)

/-! ### Acknowledged drifts -/

/-- The impact of the first of the drifts. -/
def driftImpact (confidence : PyFloat) (sourceId srcTable : String) (change : ColumnChange)
    (winner : AcknowledgedDriftRecord) (count : ℕ) : ProposedImpact :=
  propose py sourceId srcTable change.srcColumn change.changeKind {
    impactKind := impactKindForChange change.changeKind
    tgtTableId := srcTable
    tgtColumn := change.srcColumn
    upstreamLineageEdgeId := none
    confidence := round4 confidence
    strategy := "acknowledged_drift"
    reasoning := "L2 acknowledged catalog drift (drift_kind=" ++ String.ofList (reprStr py winner.driftKind) ++ ") on " ++
      srcTable ++ "." ++ change.srcColumn ++ " (acknowledged_by=" ++ winner.acknowledgedByPersonId ++ "); " ++
      change.changeKind.text ++ " elevated to acknowledged_drift_severity=high at " ++
      String.ofList (round4 confidence).fixed2 ++ " — review downstream consequences"
    evidence := [(.str "upstream_drift_id", .str winner.driftId), (.str "drift_kind", .str winner.driftKind),
      (.str "acknowledged_drift_severity", .str "high"),
      (.str "acknowledged_at", .str (DateTime.isoformat winner.acknowledgedAt)),
      (.str "acknowledged_by_person_id", .str winner.acknowledgedByPersonId),
      (.str "change_kind", .str change.changeKind.text), (.str "old_type", optText change.oldType),
      (.str "new_type", optText change.newType), (.str "acknowledged_drift_count", .int count)] }

/-- `AcknowledgedDriftImpactStrategy.propose_impacts`; its confidence is 0.92 unless it is given another. -/
def proposeDrifts (confidence : PyFloat) (rows : List LedgerRow) (sourceId srcTable : String) (change : ColumnChange) :
    Except Err (List ProposedImpact) :=
  if sourceId = "" ∨ change.srcColumn = "" then .ok []
  else do
    match ← listAcknowledgedDriftsFor py sourceId (some change.srcColumn) rows with
    | [] => return []
    | winner :: others => return [driftImpact py confidence sourceId srcTable change winner (others.length + 1)]

end

end SchemaImpacts
