import Wormbase.Projection.AxisLaw
import Wormbase.Projection.Reading

/-! The lake readers: they scan a tenant's ledger instead of reading the projection.

    Each folds the proposals and decisions of one axis into a dict by id and lists what stands in one
    state. Three of them let a re-proposal replace the args and keep the state. The one for drifts
    lets it start over. -/

namespace Readers
open Py Projection

/-! ### Rows -/

/-- `_is_emit_tool`. -/
def isEmitTool (e : LedgerRow) (tool : String) : Bool :=
  e.kind = "execute" &&
    match e.payload.or (.dict []) with
    | .dict payload => (Dict.get payload "tool").isText tool
    | _ => false

/-- `_execute_args`. -/
def executeArgs (e : LedgerRow) : Dict :=
  if e.kind = "execute" then
    match e.payload.or (.dict []) with
    | .dict payload => dictOrEmpty ((Dict.get payload "args").or (.dict []))
    | _ => []
  else []

/-- `_extract_source_id`. -/
def extractSourceId (tableId : String) : String :=
  String.ofList (tableId.toList.takeWhile (· ≠ '.'))

/-- `datetime(1970, 1, 1, tzinfo=timezone.utc)`. -/
def epoch : DateTime := ⟨⟨719162 * dayMicros, by decide⟩, some DateTime.utc⟩

/-! ### The scan -/

/-- What is kept of an id: the args of a proposal, the state, and when and by whom it was reached. The
    readers of edges and of semantic types keep no such note, and their records show none. -/
structure Scanned where
  args : Dict
  state : Verdict
  note : Option (DateTime × String)

structure Scan where
  proposeTool : String
  acceptTool : String
  rejectTool : String
  idArg : String
  /-- The state that is listed, and the argument with the person who decided on it. -/
  accepted : Verdict
  byArg : String
  asked : Dict → Bool
  /-- What a proposal makes of what is kept. -/
  propose : Dict → Option Scanned → Scanned

/-- The args are replaced, the state stays. -/
def keepState (args : Dict) : Option Scanned → Scanned
  | none => ⟨args, .proposed, none⟩
  | some r => { r with args }

/-- Everything starts over. -/
def startOver (args : Dict) (_ : Option Scanned) : Scanned := ⟨args, .proposed, none⟩

section
variable (py : Interp) (c : Scan)

/-- A decision on an id that was proposed. -/
def decideAt (e : LedgerRow) (decided : Dict → Scanned → Scanned) (seen : Dictionary String Scanned) :
    Dictionary String Scanned :=
  let args := executeArgs e
  let id := (args.get c.idArg).text py
  if id = "" then seen
  else
    match seen.get? id with
    | none => seen
    | some p => seen.put (id, decided args p.2)

def scanRow (seen : Dictionary String Scanned) (e : LedgerRow) : Dictionary String Scanned :=
  if isEmitTool e c.proposeTool then
    let args := executeArgs e
    let id := (args.get c.idArg).text py
    if id = "" then seen
    else if c.asked args then seen.put (id, c.propose args ((seen.get? id).map Prod.snd))
    else seen
  else if isEmitTool e c.acceptTool then
    decideAt py c e (fun args r =>
      { r with state := c.accepted, note := some (e.ts, (args.get c.byArg).text py) }) seen
  else if isEmitTool e c.rejectTool then
    decideAt py c e (fun _ r => { r with state := .rejected, note := none }) seen
  else seen

def scan (rows : List LedgerRow) : Dictionary String Scanned := rows.foldl (scanRow py c) .empty

/-- The records of the ids in the listed state, in the order of their ids. A record that does not
    come about is left out; an error ends the call. -/
def listRecords {ρ : Type} (record : String → Scanned → Except Err (Option ρ)) (rows : List LedgerRow) :
    Except Err (List ρ) := do
  let listed := (sortRows (fun p => [p.1]) (scan py c rows).rows).filter fun p => p.2.state = c.accepted
  let records ← listed.mapM fun p => record p.1 p.2
  return records.reduceOption

end

/-- `float(v)` under `except (TypeError, ValueError)`. -/
def floatOrSkip (v : Val) : Except Err (Option PyFloat) :=
  match v.toFloat with
  | .ok x => .ok (some x)
  | .error x => if x.cls = "TypeError" ∨ x.cls = "ValueError" then .ok none else .error x

/-- `isinstance(v, str) and v`. -/
def nonemptyText (v : Val) : Option String :=
  match v with
  | .str s => if s = "" then none else some s
  | _ => none

section
variable (py : Interp)

/-- `s.startswith(f"{source}.")`. -/
def inSource (sourceId s : String) : Bool := (sourceId ++ ".").toList.isPrefixOf s.toList

/-! ### Edges -/

structure LineageEdgeRecord where
  edgeId : String
  srcTableId : String
  srcColumn : String
  tgtTableId : String
  tgtColumn : String
  confidence : PyFloat
  strategy : String

def edgeScan (sourceId srcColumn : String) : Scan where
  proposeTool := "emit_lineage_edge_proposed"
  acceptTool := "emit_lineage_edge_confirmed"
  rejectTool := "emit_lineage_edge_rejected"
  idArg := "edge_id"
  accepted := .confirmed
  byArg := "confirmed_by_person_id"
  asked args := inSource sourceId ((args.get "src_table_id").text py) &&
    (args.get "src_column").isText srcColumn
  propose := keepState

def edgeRecord (srcColumn edgeId : String) (r : Scanned) : Except Err (Option LineageEdgeRecord) :=
  match nonemptyText (r.args.get "tgt_column") with
  | none => .ok none
  | some tgtColumn => do
    match ← floatOrSkip (r.args.get "confidence") with
    | none => return none
    | some confidence => return some {
        edgeId
        srcTableId := (r.args.get "src_table_id").text py
        srcColumn
        tgtTableId := (r.args.get "tgt_table_id").text py
        tgtColumn
        confidence
        strategy := (r.args.get "strategy").text py }

/-- `list_confirmed_edges_for_source_column`. -/
def listConfirmedEdges (sourceId srcColumn : String) (rows : List LedgerRow) :
    Except Err (List LineageEdgeRecord) :=
  if sourceId = "" ∨ srcColumn = "" then .ok []
  else listRecords py (edgeScan py sourceId srcColumn) (edgeRecord py srcColumn) rows

/-! ### Semantic types -/

structure ConfirmedSemanticTypeRecord where
  typeId : String
  semanticType : String
  confidence : PyFloat
  strategy : String

def typeScan (tableId column : String) : Scan where
  proposeTool := "emit_semantic_type_proposed"
  acceptTool := "emit_semantic_type_confirmed"
  rejectTool := "emit_semantic_type_rejected"
  idArg := "type_id"
  accepted := .confirmed
  byArg := "confirmed_by_person_id"
  asked args := (args.get "table_id").text py = tableId && (args.get "column").text py = column
  propose := keepState

def typeRecord (typeId : String) (r : Scanned) : Except Err (Option ConfirmedSemanticTypeRecord) :=
  match nonemptyText (r.args.get "semantic_type") with
  | none => .ok none
  | some semanticType => do
    match ← floatOrSkip (r.args.get "confidence") with
    | none => return none
    | some confidence =>
      return some { typeId, semanticType, confidence, strategy := (r.args.get "strategy").text py }

/-- `list_confirmed_types_for_table_column`. -/
def listConfirmedTypes (tableId column : String) (rows : List LedgerRow) :
    Except Err (List ConfirmedSemanticTypeRecord) :=
  if tableId = "" ∨ column = "" then .ok []
  else listRecords py (typeScan py tableId column) (typeRecord py) rows

/-! ### Classifications -/

structure ConfirmedClassificationRecord where
  classificationId : String
  sourceId : String
  tableId : String
  column : String
  classificationLevel : String
  confirmedAt : DateTime
  confirmedByPersonId : String

def classificationScan (sourceId srcColumn : String) : Scan where
  proposeTool := "emit_column_classification_proposed"
  acceptTool := "emit_column_classification_confirmed"
  rejectTool := "emit_column_classification_rejected"
  idArg := "classification_id"
  accepted := .confirmed
  byArg := "confirmed_by_person_id"
  asked args := inSource sourceId ((args.get "table_id").text py) &&
    (args.get "column").text py = srcColumn
  propose := keepState

def classificationRecord (srcColumn classificationId : String) (r : Scanned) :
    Except Err (Option ConfirmedClassificationRecord) :=
  match nonemptyText (r.args.get "classification_level") with
  | none => .ok none
  | some classificationLevel =>
    let tableId := (r.args.get "table_id").text py
    let sourceId := extractSourceId tableId
    if sourceId = "" then .ok none
    else .ok (some {
      classificationId, sourceId, tableId
      column := srcColumn
      classificationLevel
      confirmedAt := (r.note.map Prod.fst).getD epoch
      confirmedByPersonId := (r.note.map Prod.snd).getD "" })

/-- `list_confirmed_classifications_for_source_column`. -/
def listConfirmedClassifications (sourceId srcColumn : String) (rows : List LedgerRow) :
    Except Err (List ConfirmedClassificationRecord) :=
  if sourceId = "" ∨ srcColumn = "" then .ok []
  else listRecords py (classificationScan py sourceId srcColumn) (classificationRecord py srcColumn) rows

/-! ### Drifts -/

structure AcknowledgedDriftRecord where
  driftId : String
  sourceId : String
  tableId : String
  column : Option String
  driftKind : String
  before : Option Dict
  after : Option Dict
  acknowledgedAt : DateTime
  acknowledgedByPersonId : String

/-- `_fold_acknowledged_drifts`. -/
def driftScan : Scan where
  proposeTool := "emit_catalog_drift_proposed"
  acceptTool := "emit_catalog_drift_acknowledged"
  rejectTool := "emit_catalog_drift_rejected"
  idArg := "drift_id"
  accepted := .acknowledged
  byArg := "acknowledged_by_person_id"
  asked _ := true
  propose := startOver

/-- `str(v) or None`, and `None` for `None`. -/
def columnText (v : Val) : Option String :=
  match v with
  | .none => none
  | v => if v.toStr py = "" then none else some (v.toStr py)

/-- A dict, or nothing. -/
def dict? (v : Val) : Option Dict :=
  match v with
  | .dict d => some d
  | _ => none

/-- `_materialise`. -/
def materialise (driftId : String) (r : Scanned) : Except Err (Option AcknowledgedDriftRecord) :=
  let sourceId := (r.args.get "source_id").text py
  let tableId := (r.args.get "table_id").text py
  let driftKind := (r.args.get "drift_kind").text py
  if sourceId = "" ∨ tableId = "" ∨ driftKind = "" then .ok none
  else .ok (some {
    driftId, sourceId, tableId
    column := columnText py (r.args.get "column")
    driftKind
    before := dict? (r.args.get "before")
    after := dict? (r.args.get "after")
    acknowledgedAt := (r.note.map Prod.fst).getD epoch
    acknowledgedByPersonId := (r.note.map Prod.snd).getD "" })

/-- `list_acknowledged_drifts`. -/
def listAcknowledgedDrifts (rows : List LedgerRow) : Except Err (List AcknowledgedDriftRecord) :=
  listRecords py driftScan (materialise py) rows

/-- `list_acknowledged_drifts_for_source_column`. -/
def listAcknowledgedDriftsFor (sourceId : String) (srcColumn : Option String) (rows : List LedgerRow) :
    Except Err (List AcknowledgedDriftRecord) :=
  if sourceId = "" then .ok []
  else do
    let all ← listAcknowledgedDrifts py rows
    return all.filter fun r => r.sourceId = sourceId && r.column = srcColumn

end

end Readers
