import Wormbase.Projection.Entry

/-! The propose/decide axes: eight tables whose rows a strategy proposes and an operator decides.

    All eight are one fold. An axis says which tool proposes, which argument holds the id, which
    columns of its own it has, which of them a re-proposal refreshes, and which tools decide. -/

namespace Projection
open Py

/-- Where a row stands. -/
inductive Verdict where | proposed | confirmed | rejected | promoted | acknowledged
  deriving DecidableEq

structure AxisRow (F : Type) where
  companyId : String
  id : String
  /-- The columns that only this axis has. -/
  facts : F
  confidence : PyFloat
  strategy : String
  reasoning : String
  evidence : Dict
  state : Verdict
  stateChangedAt : DateTime
  stateChangedBy : Option String

def AxisRow.key {F : Type} (r : AxisRow F) : String × String := (r.companyId, r.id)

abbrev AxisTable (F : Type) := Table (AxisRow.key (F := F))

/-- A deciding tool: the state it names, the argument with the person, and what it notes. -/
structure Decision (F : Type) where
  tool : String
  state : Verdict
  byArg : String
  note : Dict → F → F := fun _ f => f

structure AxisSpec (F : Type) where
  proposeTool : String
  idArg : String
  /-- The columns as a first proposal writes them. -/
  facts : Dict → F
  /-- The columns of a known row after a re-proposal with these ones. -/
  refresh : F → F → F
  decisions : List (Decision F)

section
variable (py : Interp) {F : Type} (spec : AxisSpec F)

/-- A proposal opens a row, or refreshes it and leaves its state. -/
def applyProposal : Fold (AxisTable F) := fun e args t => do
  let id := (args.get spec.idArg).text py
  if id = "" then return t
  let evidence := dictOrEmpty (args.get "evidence")
  let confidence ← (args.getD "confidence" (.float (.finite false 0))).toFloat
  let strategy := (args.get "strategy").text py
  let reasoning := (args.get "reasoning").text py
  match t.get? (e.company, id) with
  | none =>
    return t.put {
      companyId := e.company
      id
      facts := spec.facts args
      confidence, strategy, reasoning, evidence
      state := .proposed
      stateChangedAt := e.ts
      stateChangedBy := none }
  | some row =>
    return t.put { row with
      facts := spec.refresh row.facts (spec.facts args)
      confidence, strategy, reasoning, evidence
      stateChangedAt := if row.state = .proposed then e.ts else row.stateChangedAt }

/-- A decision changes the state of a row that is there. -/
def applyDecision (d : Decision F) : Fold (AxisTable F) := fun e args t => do
  let id := (args.get spec.idArg).text py
  if id = "" then return t
  match t.get? (e.company, id) with
  | none => return t
  | some row =>
    return t.put { row with
      facts := d.note args row.facts
      state := d.state
      stateChangedAt := e.ts
      stateChangedBy := some ((args.get d.byArg).text py) }

/-- The branches of one axis. -/
def AxisSpec.handlers : List (String × Fold (AxisTable F)) :=
  (spec.proposeTool, applyProposal py spec) :: spec.decisions.map fun d => (d.tool, applyDecision py spec d)

variable {py spec}

/-- Every branch of an axis leaves the table or puts one row, which is the company's. -/
theorem axisHandler_ok {tool : String} {run : Fold (AxisTable F)}
    (hmem : (tool, run) ∈ spec.handlers py) {e : LedgerRow} {args : Dict} {t t' : AxisTable F}
    (h : run e args t = .ok t') : t' = t ∨ ∃ r, r.companyId = e.company ∧ t' = t.put r := by
  rcases List.mem_cons.mp hmem with heq | hmem
  · obtain ⟨-, rfl⟩ := Prod.mk.inj heq
    simp only [applyProposal] at h
    split at h
    · exact .inl (Except.ok.inj h).symm
    · obtain ⟨confidence, -, h⟩ := bind_eq_ok.mp h
      split at h
      · exact .inr ⟨_, rfl, (Except.ok.inj h).symm⟩
      · rename_i row hget
        have hkey := (Table.get?_eq_some_iff.mp hget).2
        refine .inr ⟨_, ?_, (Except.ok.inj h).symm⟩
        exact (Prod.mk.inj hkey).1
  · obtain ⟨d, -, heq⟩ := List.mem_map.mp hmem
    obtain ⟨-, rfl⟩ := Prod.mk.inj heq
    simp only [applyDecision] at h
    split at h
    · exact .inl (Except.ok.inj h).symm
    · split at h
      · exact .inl (Except.ok.inj h).symm
      · rename_i row hget
        have hkey := (Table.get?_eq_some_iff.mp hget).2
        refine .inr ⟨_, ?_, (Except.ok.inj h).symm⟩
        exact (Prod.mk.inj hkey).1

end

/-! ### The eight axes -/

def confirmedBy {F : Type} (tool : String) : Decision F :=
  ⟨tool, .confirmed, "confirmed_by_person_id", fun _ f => f⟩

def rejectedBy {F : Type} (tool : String) : Decision F :=
  ⟨tool, .rejected, "rejected_by_person_id", fun _ f => f⟩

section
variable (py : Interp)

structure LineageEdge where
  srcTableId : String
  srcColumn : Val
  tgtTableId : String
  tgtColumn : Val

def lineageEdges : AxisSpec LineageEdge where
  proposeTool := "emit_lineage_edge_proposed"
  idArg := "edge_id"
  facts args := {
    srcTableId := (args.get "src_table_id").text py
    srcColumn := args.get "src_column"
    tgtTableId := (args.get "tgt_table_id").text py
    tgtColumn := args.get "tgt_column" }
  refresh old _ := old
  decisions := [confirmedBy "emit_lineage_edge_confirmed", rejectedBy "emit_lineage_edge_rejected"]

structure QualityCheck where
  tableId : String
  column : Val
  checkKind : String
  config : Dict

def qualityChecks : AxisSpec QualityCheck where
  proposeTool := "emit_quality_check_proposed"
  idArg := "check_id"
  facts args := {
    tableId := (args.get "table_id").text py
    column := args.get "column"
    checkKind := (args.get "check_kind").text py
    config := dictOrEmpty (args.get "config") }
  refresh old new := { old with config := new.config }
  decisions := [confirmedBy "emit_quality_check_confirmed", rejectedBy "emit_quality_check_rejected"]

structure SchemaImpact where
  sourceId : String
  srcTable : String
  srcColumn : String
  changeKind : String
  impactKind : String
  tgtTableId : String
  tgtColumn : String
  upstreamLineageEdgeId : Val

def schemaImpacts : AxisSpec SchemaImpact where
  proposeTool := "emit_schema_impact_proposed"
  idArg := "impact_id"
  facts args := {
    sourceId := (args.get "source_id").text py
    srcTable := (args.get "src_table").text py
    srcColumn := (args.get "src_column").text py
    changeKind := (args.get "change_kind").text py
    impactKind := (args.get "impact_kind").text py
    tgtTableId := (args.get "tgt_table_id").text py
    tgtColumn := (args.get "tgt_column").text py
    upstreamLineageEdgeId :=
      let upstream := args.get "upstream_lineage_edge_id"
      if upstream.isText "" then .none else upstream }
  refresh old new := { old with upstreamLineageEdgeId := new.upstreamLineageEdgeId }
  decisions := [confirmedBy "emit_schema_impact_confirmed", rejectedBy "emit_schema_impact_rejected"]

structure SemanticType where
  tableId : String
  column : String
  semanticType : String

def semanticTypes : AxisSpec SemanticType where
  proposeTool := "emit_semantic_type_proposed"
  idArg := "type_id"
  facts args := {
    tableId := (args.get "table_id").text py
    column := (args.get "column").text py
    semanticType := (args.get "semantic_type").text py }
  refresh old new := { old with semanticType := new.semanticType }
  decisions := [confirmedBy "emit_semantic_type_confirmed", rejectedBy "emit_semantic_type_rejected"]

structure ColumnClassification where
  tableId : String
  column : String
  classificationLevel : String
  upstreamSemanticTypeId : Option String

def columnClassifications : AxisSpec ColumnClassification where
  proposeTool := "emit_column_classification_proposed"
  idArg := "classification_id"
  facts args := {
    tableId := (args.get "table_id").text py
    column := (args.get "column").text py
    classificationLevel := (args.get "classification_level").text py
    upstreamSemanticTypeId := (args.get "upstream_semantic_type_id").text? py }
  refresh old new := { old with
    classificationLevel := new.classificationLevel
    upstreamSemanticTypeId := new.upstreamSemanticTypeId }
  decisions := [confirmedBy "emit_column_classification_confirmed",
    rejectedBy "emit_column_classification_rejected"]

structure EntityStitch where
  srcSourceIdA : String
  srcTableA : String
  srcColumnA : String
  srcSourceIdB : String
  srcTableB : String
  srcColumnB : String
  upstreamSemanticTypeId : Option String
  entityKind : String

def entityStitches : AxisSpec EntityStitch where
  proposeTool := "emit_entity_stitch_proposed"
  idArg := "stitch_id"
  facts args := {
    srcSourceIdA := (args.get "src_source_id_a").text py
    srcTableA := (args.get "src_table_a").text py
    srcColumnA := (args.get "src_column_a").text py
    srcSourceIdB := (args.get "src_source_id_b").text py
    srcTableB := (args.get "src_table_b").text py
    srcColumnB := (args.get "src_column_b").text py
    upstreamSemanticTypeId := (args.get "upstream_semantic_type_id").text? py
    entityKind := (args.get "entity_kind").text py }
  refresh old new := { old with
    entityKind := new.entityKind
    upstreamSemanticTypeId := new.upstreamSemanticTypeId }
  decisions := [confirmedBy "emit_entity_stitch_confirmed", rejectedBy "emit_entity_stitch_rejected"]

structure SourceCandidate where
  proposedKind : String
  proposedIdentifier : String
  domainIdHint : Option String
  downstreamSourceProposedId : Option String

/-- A promotion notes the source that it led to, when the args name one. -/
def sourceCandidates : AxisSpec SourceCandidate where
  proposeTool := "emit_source_candidate_proposed"
  idArg := "candidate_id"
  facts args := {
    proposedKind := (args.get "proposed_kind").text py
    proposedIdentifier := (args.get "proposed_identifier").text py
    domainIdHint := (args.get "domain_id_hint").text? py
    downstreamSourceProposedId := none }
  refresh old new := { new with downstreamSourceProposedId := old.downstreamSourceProposedId }
  decisions := [
    ⟨"emit_source_candidate_promoted", .promoted, "promoted_by_person_id", fun args f =>
      let downstream := (args.get "downstream_source_proposed_id").text? py
      { f with downstreamSourceProposedId :=
          downstream.orElse fun _ => f.downstreamSourceProposedId }⟩,
    rejectedBy "emit_source_candidate_rejected"]

structure CatalogDrift where
  sourceId : String
  tableId : String
  column : Option String
  driftKind : String
  before : Val
  after : Val

def catalogDrifts : AxisSpec CatalogDrift where
  proposeTool := "emit_catalog_drift_proposed"
  idArg := "drift_id"
  facts args := {
    sourceId := (args.get "source_id").text py
    tableId := (args.get "table_id").text py
    column := (args.get "column").text? py
    driftKind := (args.get "drift_kind").text py
    before := args.get "before"
    after := args.get "after" }
  refresh _ new := new
  decisions := [
    ⟨"emit_catalog_drift_acknowledged", .acknowledged, "acknowledged_by_person_id", fun _ f => f⟩,
    rejectedBy "emit_catalog_drift_rejected"]

end

inductive Axis where
  | lineageEdges | qualityChecks | schemaImpacts | semanticTypes | columnClassifications
  | entityStitches | sourceCandidates | catalogDrifts
  deriving DecidableEq

def Axis.Facts : Axis → Type
  | lineageEdges => LineageEdge
  | qualityChecks => QualityCheck
  | schemaImpacts => SchemaImpact
  | semanticTypes => SemanticType
  | columnClassifications => ColumnClassification
  | entityStitches => EntityStitch
  | sourceCandidates => SourceCandidate
  | catalogDrifts => CatalogDrift

def Axis.spec (py : Interp) : (a : Axis) → AxisSpec a.Facts
  | lineageEdges => Projection.lineageEdges py
  | qualityChecks => Projection.qualityChecks py
  | schemaImpacts => Projection.schemaImpacts py
  | semanticTypes => Projection.semanticTypes py
  | columnClassifications => Projection.columnClassifications py
  | entityStitches => Projection.entityStitches py
  | sourceCandidates => Projection.sourceCandidates py
  | catalogDrifts => Projection.catalogDrifts py

end Projection
