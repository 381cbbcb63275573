import Wormbase.Projection.Sources
import Wormbase.Projection.People
import Wormbase.Projection.Roles
import Wormbase.Projection.Products
import Wormbase.Projection.Catalog
import Wormbase.Projection.Agents
import Wormbase.Projection.Axes
import Mathlib.Logic.Function.Basic

/-! The fold of `build_projections`.

    The state is a family of parts, and every branch of the fold works on one part. So each part is
    folded on its own (`foldEntries_at`), which is how its invariants are proved. -/

namespace Projection
open Py

/-- Counters behind the ramp. -/
structure Counts where
  chat : ℕ
  resolve : ℕ

/-- The parts of the state. A part holds the tables that some branch writes together. -/
inductive Part where
  | sources | memory | kpiNodes | people | installs | setupProgress | roles | dataProducts
  | notebooks | mcpCalls | topics | externalCatalog | externalLineage | externalPolicy
  | externalMetric | catalogTables | agents | agentGrants | agentQueries | credentials
  | queryOutcomes | queryTemplates | counts
  | axis (a : Axis)
  deriving DecidableEq

@[reducible] def Part.Carrier : Part → Type
  | sources => Sources
  | memory => List Memory
  | kpiNodes => KpiNodes
  | people => People
  | installs => Installs
  | setupProgress => Table SetupProgress.tenantId
  | roles => Roles
  | dataProducts => DataProducts
  | notebooks => Notebooks
  | mcpCalls => McpCalls
  | topics => Topics
  | externalCatalog => Table ExternalCatalog.id
  | externalLineage => Table ExternalLineage.id
  | externalPolicy => Table ExternalPolicy.id
  | externalMetric => Table ExternalMetric.id
  | catalogTables => Table CatalogTable.key
  | agents => Table Agent.key
  | agentGrants => Table AgentGrant.id
  | agentQueries => Table AgentQuery.key
  | credentials => Credentials
  | queryOutcomes => Table QueryOutcome.id
  | queryTemplates => Table QueryTemplate.id
  | counts => Counts
  | axis a => AxisTable a.Facts

abbrev State := (p : Part) → p.Carrier

/-- `_initial_projection_state`. -/
def initialProjectionState : State
  | .memory => []
  | .people => ⟨.empty, .empty⟩
  | .dataProducts => ⟨.empty, .empty, .empty⟩
  | .notebooks => ⟨.empty, .empty⟩
  | .credentials => ⟨.empty, .empty⟩
  | .counts => ⟨0, 0⟩
  | .sources | .kpiNodes | .installs | .setupProgress | .roles | .mcpCalls | .topics
  | .externalCatalog | .externalLineage | .externalPolicy | .externalMetric | .catalogTables
  | .agents | .agentGrants | .agentQueries | .queryOutcomes | .queryTemplates | .axis _ => Table.empty

section
variable (py : Interp)

/-- The branches of `_apply_execute` that write a part, with their tools. The branch of
    `emit_position_confirmed` does nothing. -/
def Part.handlers : (p : Part) → List (String × Fold p.Carrier)
  | sources => [
      ("emit_source_proposed", emitSourceProposed),
      ("emit_source_confirmed", emitSourceConfirmed),
      ("emit_source_connected", emitSourceConnected),
      ("emit_source_profiled", emitSourceProfiled)]
  | memory => [("emit_memory_written", emitMemoryWritten)]
  | kpiNodes => [("emit_kpi_node", emitKpiNode)]
  | people => [
      ("emit_person_proposed", emitPersonProposed py),
      ("emit_person_confirmed", emitPersonConfirmed),
      ("emit_person_archived", emitPersonArchived),
      ("emit_identity_linked", emitIdentityLinked py),
      ("emit_identity_unlinked", emitIdentityUnlinked),
      ("emit_position_proposed", emitPositionProposed),
      ("emit_position_rejected", emitPositionRejected)]
  | installs => [
      ("emit_install_completed", emitInstallCompleted),
      ("emit_install_revoked", emitInstallRevoked),
      ("emit_setup_mode_chosen", emitSetupModeChosen),
      ("emit_setup_completed", emitSetupCompleted)]
  | setupProgress => [("emit_setup_step_advanced", emitSetupStepAdvanced)]
  | roles => [
      ("emit_role_assigned", emitRoleAssigned py),
      ("emit_role_revoked", emitRoleRevoked),
      ("emit_domain_role_assigned", emitDomainRoleAssigned py),
      ("emit_resource_role_assigned", emitResourceRoleAssigned py),
      ("emit_resource_role_proposed", emitResourceRoleProposed py)]
  | dataProducts => [
      ("emit_data_product_proposed", emitDataProductProposed),
      ("emit_data_product_generated", emitDataProductGenerated py),
      ("emit_data_product_consumed", emitDataProductConsumed py),
      ("emit_data_product_archived", emitDataProductArchived)]
  | notebooks => [
      ("emit_notebook_proposed", emitNotebookProposed),
      ("emit_notebook_run", emitNotebookRun py),
      ("emit_notebook_published", emitNotebookPublished py),
      ("emit_notebook_archived", emitNotebookArchived)]
  | mcpCalls => [("emit_mcp_call_received", emitMcpCallReceived)]
  | topics => [("emit_topic_proposed", emitTopicProposed)]
  | externalCatalog => [("emit_external_catalog_imported", emitExternalCatalogImported py)]
  | externalLineage => [("emit_external_lineage_imported", emitExternalLineageImported py)]
  | externalPolicy => [("emit_external_policy_imported", emitExternalPolicyImported py)]
  | externalMetric => [("emit_external_metric_imported", emitExternalMetricImported py)]
  | catalogTables => [("emit_catalog_table_imported", emitCatalogTableImported py)]
  | agents => [("emit_agent_registered", emitAgentRegistered)]
  | agentGrants => [("emit_agent_grant", emitAgentGrant py)]
  | agentQueries => []
  | credentials => []
  | queryOutcomes => [("emit_query_outcome_recorded", emitQueryOutcomeRecorded py)]
  | queryTemplates => []
  | counts => []
  | axis a => (a.spec py).handlers py

def Part.all : List Part :=
  [sources, memory, kpiNodes, people, installs, setupProgress, roles, dataProducts, notebooks,
    mcpCalls, topics, externalCatalog, externalLineage, externalPolicy, externalMetric,
    catalogTables, agents, agentGrants, agentQueries, credentials, queryOutcomes, queryTemplates,
    counts, axis .lineageEdges, axis .qualityChecks, axis .schemaImpacts, axis .semanticTypes,
    axis .columnClassifications, axis .entityStitches, axis .sourceCandidates, axis .catalogDrifts]

/-- A branch of the fold: the part that it writes, and what it does there. -/
structure Branch where
  part : Part
  run : Fold part.Carrier

/-- All branches of `_apply_execute`. -/
def branches : List (String × Branch) :=
  Part.all.flatMap fun p => (p.handlers py).map fun h => (h.1, ⟨p, h.2⟩)

/-- Runs a fold on one part. -/
def State.onPart (s : State) (p : Part) (f : p.Carrier → Except Err p.Carrier) :
    Except Err State := do
  return Function.update s p (← f (s p))

/-- `_apply_execute`. -/
def applyExecute (e : LedgerRow) (s : State) : Except Err State := do
  match e.payload with
  | .dict payload =>
    match Dict.get payload "tool" with
    | .str tool =>
      match (branches py).lookup tool with
      | some b =>
        match Dict.getD payload "args" (.dict []) with
        | .dict args => s.onPart b.part (b.run e args)
        | v => throw (attributeError s!"'{v.typeName}' object has no attribute 'get'")
      | none => return s
    | _ => return s
  | v => throw (attributeError s!"'{v.typeName}' object has no attribute 'get'")

/-- The fold that `_apply_pevr_envelope` picks by the shape of a payload. -/
def envelopeBranch (payload : Dict) : Option Branch :=
  if isAgentQueryPayload payload then some ⟨.agentQueries, applyAgentQuery⟩
  else if isCredentialPayload payload then some ⟨.credentials, applyCredential py⟩
  else if isQueryTemplatePromotedPayload payload then some ⟨.queryTemplates, applyQueryTemplate py⟩
  else none

/-- `_apply_pevr_envelope`. -/
def applyPevrEnvelope (e : LedgerRow) (s : State) : Except Err State :=
  match e.payload with
  | .dict payload =>
    match envelopeBranch py payload with
    | some b => s.onPart b.part (b.run e payload)
    | none => .ok s
  | _ => .ok s

def countChat (e : LedgerRow) (c : Counts) : Counts :=
  if e.kind = "chat_received" ∨ e.kind = "chat_sent" then { c with chat := c.chat + 1 }
  else if e.kind = "resolve" then { c with resolve := c.resolve + 1 }
  else c

/-- One entry of `build_projections`. -/
def applyEntry (s : State) (e : LedgerRow) : Except Err State := do
  let s ← (if e.kind ∈ ["propose", "execute", "verify", "resolve"] then applyPevrEnvelope py e s
    else .ok s)
  if e.kind = "execute" then applyExecute py e s
  else s.onPart .counts fun c => return countChat e c

/-- The fold over the entries of a ledger. -/
def foldEntries (s : State) (es : List LedgerRow) : Except Err State := es.foldlM (applyEntry py) s

end

end Projection
