import Wormbase.Projection.Build

/-! What `build_projections` returns: the rows of every table in a fixed order, and the ramp. -/

namespace Projection
open Py

/-- `sorted(..., key=...)` where the sort key is a text or a tuple of texts. -/
def sortRows {ρ : Type} (key : ρ → List String) (rows : List ρ) : List ρ :=
  rows.insertionSort fun a b => (key a).map String.toList ≤ (key b).map String.toList

theorem sortRows_perm {ρ : Type} (key : ρ → List String) (rows : List ρ) :
    (sortRows key rows).Perm rows := List.perm_insertionSort _ _

structure RampRow where
  axis : String
  value : String

/-- `Projections`. -/
structure Projections where
  sources : List Source
  memory : List Memory
  kpiNodes : List Dict
  ramp : List RampRow
  persons : List Person
  personIdentities : List Identity
  installs : List Install
  roles : List Grant
  dataProducts : List DataProduct
  dataProductRuns : List DataProductRun
  dataProductConsumption : List Consumption
  notebooks : List Notebook
  notebookRuns : List NotebookRun
  setupProgress : List SetupProgress
  mcpCalls : List McpCall
  topics : List Topic
  externalCatalog : List ExternalCatalog
  externalLineage : List ExternalLineage
  externalPolicy : List ExternalPolicy
  externalMetric : List ExternalMetric
  agents : List Agent
  agentGrants : List AgentGrant
  agentQueries : List AgentQuery
  credentials : List Credential
  queryOutcomes : List QueryOutcome
  queryTemplates : List QueryTemplate
  axes : (a : Axis) → List (AxisRow a.Facts)
  catalogTables : List CatalogTable

/-- `_recompute_ramp`: integer percentages as texts. -/
def recomputeRamp (s : State) : List RampRow :=
  let percent := fun n : ℕ => String.ofList (PyFloat.digits (min 100 n))
  let sources := (s .sources).rows
  let profiled := (sources.filter fun r => r.2.status = .profiled).length
  let memory := (s .memory).length
  [⟨"ontology", percent (memory * 5)⟩,
    ⟨"schema", percent (profiled * 20)⟩,
    ⟨"business_definitions", percent (memory * 10)⟩,
    ⟨"kpi_relational", percent (sources.length * 15)⟩,
    ⟨"conversational", percent ((s .counts).chat * 2)⟩,
    ⟨"operational", percent ((s .counts).resolve * 5)⟩]

/-- `sorted` refuses keys of different kinds. -/
def sortKpiNodes (nodes : KpiNodes) : Except Err (List Dict) :=
  if sortable (nodes.rows.map Prod.fst) then
    .ok ((nodes.rows.insertionSort fun a b => Key.Before a.1 b.1).map Prod.snd)
  else .error (typeError "'<' not supported between instances of different types")

/-- Installs by tenant text and platform: platforms of one tenant are compared, so they must be of
    one kind. -/
def sortInstalls (installs : Installs) : Except Err (List Install) :=
  let ks := installs.rows.map Prod.fst
  if ks.all fun k => ks.all fun l => k.1 ≠ l.1 || k.2.kind = l.2.kind then
    .ok ((installs.rows.insertionSort fun a b =>
      a.1.1.toList < b.1.1.toList ∨ a.1.1 = b.1.1 ∧ Key.Before a.1.2 b.1.2).map Prod.snd)
  else .error (typeError "'<' not supported between instances of different types")

/-- The values of a dict in the order of its keys. -/
def sortedValues {κ ρ : Type} (key : κ → List String) (t : Dictionary κ ρ) : List ρ :=
  (sortRows (fun p => key p.1) t.rows).map Prod.snd

/-- `_state_to_projections`. Notebook cells stay behind. -/
def stateToProjections (py : Interp) (s : State) : Except Err Projections := do
  let kpiNodes ← sortKpiNodes (s .kpiNodes)
  let installs ← sortInstalls (s .installs)
  return {
    sources := sortedValues (fun k => [k]) (s .sources)
    memory := sortRows (fun m : Memory => [m.memoryId.str]) (s .memory)
    kpiNodes
    ramp := recomputeRamp s
    persons := sortedValues (fun k => [k]) (s .people).persons
    personIdentities := sortedValues (fun k => [k.1, k.2.1, k.2.2]) (s .people).identities
    installs
    roles := sortRows (fun g => [g.grantId.str]) (s .roles).rows
    dataProducts := sortedValues (fun k => [k]) (s .dataProducts).products
    dataProductRuns := sortRows (fun r => [r.runId.str]) (s .dataProducts).runs.rows
    dataProductConsumption :=
      sortRows (fun c => [c.consumptionId.str]) (s .dataProducts).consumption.rows
    notebooks := (sortedValues (fun k => [k]) (s .notebooks).notebooks).map
      fun nb => { nb with cells := [] }
    notebookRuns := sortRows (fun r => [r.runId.str]) (s .notebooks).runs.rows
    setupProgress := sortRows (fun p => [p.tenantId.str]) (s .setupProgress).rows
    mcpCalls := sortedValues (fun k => [k]) (s .mcpCalls)
    topics := sortedValues (fun k => [k]) (s .topics)
    externalCatalog := sortRows (fun r => [r.id.str]) (s .externalCatalog).rows
    externalLineage := sortRows (fun r => [r.id.str]) (s .externalLineage).rows
    externalPolicy := sortRows (fun r => [r.id.str]) (s .externalPolicy).rows
    externalMetric := sortRows (fun r => [r.id.str]) (s .externalMetric).rows
    agents := sortRows (fun a => [a.id.toStr py]) (s .agents).rows
    agentGrants := sortRows (fun g => [g.id]) (s .agentGrants).rows
    agentQueries := sortRows (fun q => [q.id.toStr py]) (s .agentQueries).rows
    credentials := sortRows (fun c => [c.id]) (s .credentials).rows.rows
    queryOutcomes := sortRows (fun r => [r.id]) (s .queryOutcomes).rows
    queryTemplates := sortRows (fun r => [r.id]) (s .queryTemplates).rows
    axes := fun a => sortRows (fun r => [r.companyId, r.id]) (s (.axis a)).rows
    catalogTables := sortRows (fun r => [r.companyId, r.sourceId, r.tableId, r.snapshotHash])
      (s .catalogTables).rows }

/-- The fold of a list of entries, from the empty state to the rows. -/
def projectionsOf (py : Interp) (es : List LedgerRow) : Except Err Projections := do
  stateToProjections py (← foldEntries py initialProjectionState es)

/-- `build_projections`. -/
def buildProjections (py : Interp) (d : Ledger.Dialect) (ledger : List Ledger.Entry)
    (companyId : UUID) (untilTs : Option DateTime) : Except Err Projections :=
  projectionsOf py ((Ledger.fetchEntries d ledger companyId untilTs).map LedgerRow.ofEntry)

theorem projectionsOf_ok {py : Interp} {es : List LedgerRow} {p : Projections}
    (h : projectionsOf py es = .ok p) : ∃ s, foldEntries py initialProjectionState es = .ok s ∧
      stateToProjections py s = .ok p := bind_eq_ok.mp h

/-- Nothing to sort by keys of different kinds: the rows are returned. -/
theorem stateToProjections_ok {py : Interp} {s : State} (hkpi : s .kpiNodes = .empty)
    (hinstalls : s .installs = .empty) : ∃ p, stateToProjections py s = .ok p := by
  have hk : sortKpiNodes (s .kpiNodes) = .ok [] := by rw [hkpi]; rfl
  have hi : sortInstalls (s .installs) = .ok [] := by rw [hinstalls]; rfl
  cases hp : stateToProjections py s with
  | ok p => exact ⟨p, rfl⟩
  | error x => simp [stateToProjections, hk, hi, bind, Except.bind, pure, Except.pure] at hp

theorem sortedValues_perm {κ ρ : Type} (key : κ → List String) (t : Dictionary κ ρ) :
    (sortedValues key t).Perm (t.rows.map Prod.snd) := (sortRows_perm _ _).map Prod.snd

end Projection
