import Wormbase.Projection.Output
import Wormbase.Lib.Constraint

/-! The SQL tables of the projection, and `persist_projections`.

    A row is kept with the columns that the fold wrote; of the other checks that a database makes,
    only primary keys and unique constraints are looked at. -/

namespace Projection
open Py

/-- What a constrained column holds. -/
inductive Cell where
  | uuid (u : UUID)
  | text (s : String)
  deriving DecidableEq

/-- A text column takes texts; null and what is no text is `none`. -/
def Cell.ofVal : Val → Option Cell
  | .str s => some (.text s)
  | _ => none

@[simp] theorem Cell.ofVal_eq_some {v : Val} {c : Cell} :
    Cell.ofVal v = some c ↔ ∃ s, v = .str s ∧ c = .text s := by
  cases v <;> simp [ofVal, eq_comm]

@[simp] theorem Cell.ofVal_str (s : String) : Cell.ofVal (.str s) = some (.text s) := rfl

theorem Cell.ofVal_ne_none {v : Val} : Cell.ofVal v ≠ none ↔ ∃ s, v = .str s := by
  cases v <;> simp [ofVal]

/-- A row that gets its company when it is inserted. -/
structure Owned (ρ : Type) where
  companyId : UUID
  row : ρ

structure RampEntry where
  companyId : UUID
  axis : String
  value : String
  asOf : DateTime

structure KpiNodeRow where
  companyId : UUID
  nodeId : Val
  name : Val
  domainId : Val
  ownerPersonId : Val
  parentNodeId : Val
  sourceResourceId : Val
  metricType : Val
  confidence : Val

/-- `n.get("node_id") or n.get("id")`. -/
def kpiNodeId (n : Dict) : Val := (n.get "node_id").or (n.get "id")

/-- A node of `_kpi_node_rows_for_persist`, when it has a name. -/
def kpiNodeRow (company : UUID) (n : Dict) : KpiNodeRow where
  companyId := company
  nodeId := kpiNodeId n
  name := n.get "name"
  domainId := n.get "domain_id"
  ownerPersonId := n.get "owner_person_id"
  parentNodeId := n.get "parent_node_id"
  sourceResourceId := n.get "source_resource_id"
  metricType := n.getD "metric_type" (.str "other")
  confidence := n.getD "confidence" (.str "proposed")

/-! ### The schema -/

inductive SqlTable where
  | sources | memory | kpiNodes | ramp | persons | personIdentities | installs | setupProgress
  | roles | dataProducts | dataProductRuns | dataProductConsumption | notebooks | notebookRuns
  | mcpCalls | topics | externalCatalog | externalLineage | externalPolicy | externalMetric
  | agents | agentGrants | agentQueries | credentials | queryOutcomes | queryTemplates
  | axis (a : Axis)
  | catalogTables
  deriving DecidableEq

/-- In the order of the inserts. -/
def SqlTable.all : List SqlTable :=
  [sources, memory, kpiNodes, ramp, persons, personIdentities, installs, setupProgress, roles,
    dataProducts, dataProductRuns, dataProductConsumption, notebooks, notebookRuns, mcpCalls, topics,
    externalCatalog, externalLineage, externalPolicy, externalMetric, agents, agentGrants,
    agentQueries, credentials, queryOutcomes, queryTemplates, axis .lineageEdges,
    axis .qualityChecks, axis .schemaImpacts, axis .semanticTypes, axis .columnClassifications,
    axis .entityStitches, axis .sourceCandidates, axis .catalogDrifts, catalogTables]

theorem SqlTable.mem_all (t : SqlTable) : t ∈ all := by
  cases t with
  | axis a => cases a <;> decide
  | _ => decide

theorem SqlTable.all_nodup : all.Nodup := by decide

@[reducible] def SqlTable.Row : SqlTable → Type
  | sources => Owned Source
  | memory => Owned Memory
  | kpiNodes => KpiNodeRow
  | ramp => RampEntry
  | persons => Person
  | personIdentities => Identity
  | installs => Install
  | setupProgress => SetupProgress
  | roles => Grant
  | dataProducts => DataProduct
  | dataProductRuns => DataProductRun
  | dataProductConsumption => Consumption
  | notebooks => Notebook
  | notebookRuns => NotebookRun
  | mcpCalls => McpCall
  | topics => Owned Topic
  | externalCatalog => ExternalCatalog
  | externalLineage => ExternalLineage
  | externalPolicy => ExternalPolicy
  | externalMetric => ExternalMetric
  | agents => Agent
  | agentGrants => AgentGrant
  | agentQueries => AgentQuery
  | credentials => Credential
  | queryOutcomes => QueryOutcome
  | queryTemplates => QueryTemplate
  | axis a => AxisRow a.Facts
  | catalogTables => CatalogTable

/-- The company of a row: `company_id` or `tenant_id`, a UUID or its text. -/
def SqlTable.ownedBy (company : UUID) : (t : SqlTable) → t.Row → Bool
  | sources, r => r.companyId = company
  | memory, r => r.companyId = company
  | kpiNodes, r => r.companyId = company
  | ramp, r => r.companyId = company
  | persons, r => r.tenantId = company
  | personIdentities, r => r.tenantId = company
  | installs, r => r.tenantId = company
  | setupProgress, r => r.tenantId = company
  | roles, r => r.tenantId = company
  | dataProducts, r => r.tenantId = company
  | dataProductRuns, r => r.tenantId = company
  | dataProductConsumption, r => r.tenantId = company
  | notebooks, r => r.tenantId = company
  | notebookRuns, r => r.tenantId = company
  | mcpCalls, r => r.tenantId = company
  | topics, r => r.companyId = company
  | externalCatalog, r => r.companyId = company
  | externalLineage, r => r.companyId = company
  | externalPolicy, r => r.companyId = company
  | externalMetric, r => r.companyId = company
  | agents, r => r.companyId.isText company.str
  | agentGrants, r => r.companyId = company.str
  | agentQueries, r => r.companyId = company.str
  | credentials, r => r.companyId = company.str
  | queryOutcomes, r => r.companyId = company.str
  | queryTemplates, r => r.companyId = company.str
  | axis _, r => r.companyId = company.str
  | catalogTables, r => r.companyId = company.str

/-- A constraint over columns that take no null. -/
def unique {ρ : Type} (columns : ρ → Option (List Cell)) : Constraint ρ (List Cell) :=
  ⟨columns, true⟩

/-- The primary key of a table, and its unique constraint if it has one. -/
def SqlTable.constraints : (t : SqlTable) → List (Constraint t.Row (List Cell))
  | sources => [unique fun r => some [.uuid r.companyId, .uuid r.row.sourceId]]
  | memory => [unique fun r => some [.uuid r.companyId, .uuid r.row.memoryId]]
  | kpiNodes => [unique fun r => (Cell.ofVal r.nodeId).map fun c => [.uuid r.companyId, c]]
  | ramp => [unique fun r => some [.uuid r.companyId, .text r.axis]]
  | persons => [unique fun r => some [.uuid r.personId]]
  | personIdentities => [unique fun r => some [.uuid r.identityId],
      unique fun r => some [.uuid r.tenantId, .text r.platform, .text r.platformUserId]]
  | installs => [unique fun r => some [.uuid r.installId],
      unique fun r => (Cell.ofVal r.platform).map fun c => [.uuid r.tenantId, c]]
  | setupProgress => [unique fun r => some [.uuid r.tenantId]]
  | roles => [unique fun r => some [.uuid r.grantId]]
  | dataProducts => [unique fun r => some [.uuid r.dataProductId]]
  | dataProductRuns => [unique fun r => some [.uuid r.runId]]
  | dataProductConsumption => [unique fun r => some [.uuid r.consumptionId]]
  | notebooks => [unique fun r => some [.uuid r.notebookId]]
  | notebookRuns => [unique fun r => some [.uuid r.runId]]
  | mcpCalls => [unique fun r => some [.uuid r.mcpCallId]]
  | topics => [unique fun r => some [.uuid r.companyId, .uuid r.row.topicId]]
  | externalCatalog => [unique fun r => some [.uuid r.id]]
  | externalLineage => [unique fun r => some [.uuid r.id]]
  | externalPolicy => [unique fun r => some [.uuid r.id],
      unique fun r => some [.uuid r.sourceId, .text r.policyFqn]]
  | externalMetric => [unique fun r => some [.uuid r.id],
      unique fun r => some [.uuid r.sourceId, .text r.name]]
  | agents => [unique fun r => (Cell.ofVal r.id).map fun c => [c],
      unique fun r => (Cell.ofVal r.personId).map fun c => [c]]
  | agentGrants => [unique fun r => some [.text r.id],
      unique fun r => some [.text r.agentId, .text r.grantKind, .text r.grantTarget]]
  | agentQueries => [unique fun r => (Cell.ofVal r.id).map fun c => [c]]
  | credentials => [unique fun r => some [.text r.id]]
  | queryOutcomes => [unique fun r => some [.text r.id]]
  | queryTemplates => [unique fun r => some [.text r.id]]
  | axis _ => [unique fun r => some [.text r.companyId, .text r.id]]
  | catalogTables => [unique fun r =>
      some [.text r.companyId, .text r.sourceId, .text r.tableId, .text r.snapshotHash]]

/-- The rows satisfy the constraints of the table. -/
def SqlTable.Lawful (t : SqlTable) (rows : List t.Row) : Prop := ∀ c ∈ t.constraints, c.Holds rows

instance (t : SqlTable) (rows : List t.Row) : Decidable (t.Lawful rows) :=
  inferInstanceAs (Decidable (∀ c ∈ t.constraints, c.Holds rows))

/-! ### Rows to insert -/

/-- `_ramp_rows_for_persist`. -/
def rampEntries (company : UUID) (asOf : DateTime) (ramp : List RampRow) : List RampEntry :=
  ramp.map fun r => ⟨company, r.axis, r.value, asOf⟩

/-- The rows that `persist_projections` inserts into a table. -/
def SqlTable.rows (company : UUID) (asOf : DateTime) (p : Projections) : (t : SqlTable) → List t.Row
  | sources => p.sources.map (Owned.mk company)
  | memory => p.memory.map (Owned.mk company)
  | kpiNodes => p.kpiNodes.map (kpiNodeRow company)
  | ramp => rampEntries company asOf p.ramp
  | persons => p.persons
  | personIdentities => p.personIdentities
  | installs => p.installs
  | setupProgress => p.setupProgress
  | roles => p.roles
  | dataProducts => p.dataProducts
  | dataProductRuns => p.dataProductRuns
  | dataProductConsumption => p.dataProductConsumption
  | notebooks => p.notebooks
  | notebookRuns => p.notebookRuns
  | mcpCalls => p.mcpCalls
  | topics => p.topics.map (Owned.mk company)
  | externalCatalog => p.externalCatalog
  | externalLineage => p.externalLineage
  | externalPolicy => p.externalPolicy
  | externalMetric => p.externalMetric
  | agents => p.agents
  | agentGrants => p.agentGrants
  | agentQueries => p.agentQueries
  | credentials => p.credentials
  | queryOutcomes => p.queryOutcomes
  | queryTemplates => p.queryTemplates
  | axis a => p.axes a
  | catalogTables => p.catalogTables

/-- A node without a name raises before any of its table's rows is inserted. -/
def SqlTable.checkNames (p : Projections) : SqlTable → Except Err Unit
  | kpiNodes => p.kpiNodes.forM fun n => discard (n.item "name")
  | _ => .ok ()

/-! ### `persist_projections` -/

abbrev Database := (t : SqlTable) → List t.Row

def integrityError : Err := ⟨"IntegrityError", "constraint failed"⟩

/-- The deletes: every row of the company, in every table. -/
def Database.wipe (company : UUID) (db : Database) : Database :=
  fun t => (db t).filter fun r => !t.ownedBy company r

/-- The insert into one table, refused as a whole when a constraint fails. -/
def insertRows (company : UUID) (asOf : DateTime) (p : Projections) (db : Database) (t : SqlTable) :
    Except Err Database := do
  t.checkNames p
  let rows := db t ++ t.rows company asOf p
  if t.Lawful rows then return Function.update db t rows else throw integrityError

/-- `persist_projections`, in one transaction: a refused insert leaves the database as it was. -/
def persistProjections (company : UUID) (asOf : DateTime) (p : Projections) (db : Database) :
    Except Err Database :=
  SqlTable.all.foldlM (insertRows company asOf p) (db.wipe company)

section
variable {company : UUID} {asOf : DateTime} {p : Projections} {db db' : Database} {t : SqlTable}

theorem insertRows_ok : insertRows company asOf p db t = .ok db' ↔
    t.checkNames p = .ok () ∧ t.Lawful (db t ++ t.rows company asOf p) ∧
      db' = Function.update db t (db t ++ t.rows company asOf p) := by
  rw [insertRows, bind_eq_ok]
  constructor
  · rintro ⟨u, hu, h⟩
    simp only at h
    split at h
    · rename_i hlaw
      exact ⟨hu, hlaw, (Except.ok.inj h).symm⟩
    · cases h
  · rintro ⟨hnames, hlaw, rfl⟩
    exact ⟨(), hnames, by simp only [hlaw, if_true]; rfl⟩

theorem insertAll_ok : ∀ {ts : List SqlTable} {db : Database}, ts.Nodup →
    (ts.foldlM (insertRows company asOf p) db = .ok db' ↔
      (∀ t ∈ ts, t.checkNames p = .ok () ∧ t.Lawful (db t ++ t.rows company asOf p)) ∧
        ∀ t, db' t = if t ∈ ts then db t ++ t.rows company asOf p else db t)
  | [], db, _ => by
    simp only [List.foldlM_nil, List.not_mem_nil, false_implies, implies_true, true_and, if_false]
    constructor
    · intro h t
      rw [Except.ok.inj h]
    · intro h
      rw [show db' = db from funext h]
      rfl
  | t :: ts, db, hnodup => by
    obtain ⟨ht, hnodup⟩ := List.nodup_cons.mp hnodup
    have hother : ∀ u ∈ ts, u ≠ t := fun u hu hut => ht (hut ▸ hu)
    rw [List.foldlM_cons, bind_eq_ok]
    constructor
    · rintro ⟨db₁, h₁, h⟩
      obtain ⟨hnames, hlaw, rfl⟩ := insertRows_ok.mp h₁
      obtain ⟨hall, hrows⟩ := (insertAll_ok hnodup).mp h
      refine ⟨fun u hu => ?_, fun u => ?_⟩
      · rcases List.mem_cons.mp hu with rfl | hu
        · exact ⟨hnames, hlaw⟩
        · have := hall u hu
          rwa [Function.update_of_ne (hother u hu)] at this
      · rw [hrows u]
        by_cases hut : u = t
        · subst hut
          simp [ht]
        · simp [hut]
    · rintro ⟨hall, hrows⟩
      obtain ⟨hnames, hlaw⟩ := hall t List.mem_cons_self
      refine ⟨_, insertRows_ok.mpr ⟨hnames, hlaw, rfl⟩, (insertAll_ok hnodup).mpr ⟨?_, fun u => ?_⟩⟩
      · intro u hu
        rw [Function.update_of_ne (hother u hu)]
        exact hall u (List.mem_cons_of_mem _ hu)
      · rw [hrows u]
        by_cases hut : u = t
        · subst hut
          simp [ht]
        · simp [hut]

/-- A persist that goes through replaces the company's rows in every table. -/
theorem persistProjections_ok : persistProjections company asOf p db = .ok db' ↔
    (∀ t : SqlTable, t.checkNames p = .ok () ∧
      t.Lawful (db.wipe company t ++ t.rows company asOf p)) ∧
    ∀ t, db' t = db.wipe company t ++ t.rows company asOf p := by
  rw [persistProjections, insertAll_ok SqlTable.all_nodup]
  simp [SqlTable.mem_all]

end

end Projection
