import Wormbase.Projection.Entry

/-! The mirror of external catalogs: snapshots, lineage, policies, metrics and tables. -/

namespace Projection
open Py

section
variable (py : Interp)

/-! ### Snapshots -/

structure ExternalCatalog where
  id : UUID
  companyId : UUID
  sourceId : UUID
  domainId : UUID
  sourceKind : Val
  snapshotHash : String
  tableCount : ℤ
  edgeCount : ℤ
  metricCount : ℤ
  importMode : Val
  importedAt : DateTime

def emitExternalCatalogImported : Fold (Table ExternalCatalog.id) := fun e args t => do
  let source ← args.item "source_id"
  let snapshot ← args.item "snapshot_hash"
  let id ← externalCatalogUuid py [.str e.company, source, snapshot]
  let row : ExternalCatalog := {
    id
    companyId := e.companyId
    sourceId := ← source.toUUID
    domainId := ← (← args.item "domain_id").toUUID
    sourceKind := ← args.item "source_kind"
    snapshotHash := ← joined snapshot
    tableCount := ← (← args.item "table_count").toInt
    edgeCount := ← (← args.item "edge_count").toInt
    metricCount := ← (← args.item "metric_count").toInt
    importMode := ← args.item "import_mode"
    importedAt := e.ts }
  return t.put row

/-! ### Lineage -/

structure ExternalLineage where
  id : UUID
  companyId : UUID
  sourceId : UUID
  upstream : String
  downstream : String
  importedAt : DateTime

/-- One edge of the list; what is not a pair is skipped. -/
def addEdge (e : LedgerRow) (source : Val) (t : Table ExternalLineage.id) (edge : Val) :
    Except Err (Table ExternalLineage.id) :=
  match edge with
  | .list [upstream, downstream] => do
    let upstream := upstream.toStr py
    let downstream := downstream.toStr py
    let id ← externalLineageUuid py [.str e.company, source, .str upstream, .str downstream]
    return t.put {
      id
      companyId := e.companyId
      sourceId := ← source.toUUID
      upstream, downstream
      importedAt := e.ts }
  | _ => return t

def emitExternalLineageImported : Fold (Table ExternalLineage.id) := fun e args t => do
  let source ← args.item "source_id"
  let edges ← ((args.getD "edges" (.list [])).or (.list [])).toList
  edges.foldlM (addEdge py e source) t

/-! ### Policies and metrics -/

structure ExternalPolicy where
  id : UUID
  companyId : UUID
  sourceId : UUID
  policyFqn : String
  policyKind : Val
  body : Val
  appliedTo : List Val
  importedAt : DateTime

def emitExternalPolicyImported : Fold (Table ExternalPolicy.id) := fun e args t => do
  let source ← args.item "source_id"
  let policyFqn ← args.item "policy_fqn"
  let id ← externalPolicyUuid py [.str e.company, source, policyFqn]
  let row : ExternalPolicy := {
    id
    companyId := e.companyId
    sourceId := ← source.toUUID
    policyFqn := ← joined policyFqn
    policyKind := ← args.item "policy_kind"
    body := args.get "body"
    appliedTo := ← ((args.getD "applied_to" (.list [])).or (.list [])).toList
    importedAt := e.ts }
  return t.put row

structure ExternalMetric where
  id : UUID
  companyId : UUID
  sourceId : UUID
  name : String
  expression : Val
  timeGrain : Val
  dimensions : List Val
  description : Val
  importedAt : DateTime

def emitExternalMetricImported : Fold (Table ExternalMetric.id) := fun e args t => do
  let source ← args.item "source_id"
  let name ← args.item "name"
  let id ← externalMetricUuid py [.str e.company, source, name]
  let row : ExternalMetric := {
    id
    companyId := e.companyId
    sourceId := ← source.toUUID
    name := ← joined name
    expression := args.get "expression"
    timeGrain := args.get "time_grain"
    dimensions := ← ((args.getD "dimensions" (.list [])).or (.list [])).toList
    description := args.get "description"
    importedAt := e.ts }
  return t.put row

/-! ### Tables of a snapshot -/

structure CatalogTable where
  companyId : String
  sourceId : String
  tableId : String
  snapshotHash : String
  columns : List (String × Option String)
  ts : DateTime

def CatalogTable.key (t : CatalogTable) : String × String × String × String :=
  (t.companyId, t.sourceId, t.tableId, t.snapshotHash)

/-- Name and type of a column; what has no name is skipped. -/
def catalogColumn : Val → Option (String × Option String)
  | .dict col =>
    match Dict.get col "name" with
    | .str name =>
      if name = "" then none
      else some (name, match Dict.get col "type" with
        | .none => none
        | t => some (t.toStr py))
    | _ => none
  | _ => none

/-- An entry without source, snapshot or table is skipped. -/
def emitCatalogTableImported : Fold (Table CatalogTable.key) := fun e args t => do
  let sourceId := (args.get "source_id").text py
  let snapshotHash := (args.get "snapshot_hash").text py
  let tableId := (args.get "table_id").text py
  if sourceId = "" ∨ snapshotHash = "" ∨ tableId = "" then return t
  let raw ← ((args.getD "columns" (.list [])).or (.list [])).toList
  return t.put {
    companyId := e.company
    sourceId, tableId, snapshotHash
    columns := raw.filterMap (catalogColumn py)
    ts := e.ts }

end

/-! ### What a handler puts -/

section
variable {py : Interp} {e : LedgerRow} {args : Dict}

theorem emitExternalCatalogImported_ok {t t' : Table ExternalCatalog.id}
    (h : emitExternalCatalogImported py e args t = .ok t') :
    ∃ r, r.companyId = e.companyId ∧ t' = t.put r := by
  obtain ⟨source, -, h⟩ := bind_eq_ok.mp h
  obtain ⟨snapshot, -, h⟩ := bind_eq_ok.mp h
  obtain ⟨id, -, h⟩ := bind_eq_ok.mp h
  obtain ⟨sourceId, -, h⟩ := bind_eq_ok.mp h
  obtain ⟨v, -, h⟩ := bind_eq_ok.mp h
  obtain ⟨domainId, -, h⟩ := bind_eq_ok.mp h
  obtain ⟨kind, -, h⟩ := bind_eq_ok.mp h
  obtain ⟨hash, -, h⟩ := bind_eq_ok.mp h
  obtain ⟨w, -, h⟩ := bind_eq_ok.mp h
  obtain ⟨tables, -, h⟩ := bind_eq_ok.mp h
  obtain ⟨x, -, h⟩ := bind_eq_ok.mp h
  obtain ⟨edges, -, h⟩ := bind_eq_ok.mp h
  obtain ⟨y, -, h⟩ := bind_eq_ok.mp h
  obtain ⟨metrics, -, h⟩ := bind_eq_ok.mp h
  obtain ⟨mode, -, h⟩ := bind_eq_ok.mp h
  exact ⟨_, rfl, (Except.ok.inj h).symm⟩

theorem addEdge_ok {t t' : Table ExternalLineage.id} {source edge : Val}
    (h : addEdge py e source t edge = .ok t') :
    t' = t ∨ ∃ r, r.companyId = e.companyId ∧ t' = t.put r := by
  unfold addEdge at h
  split at h
  · obtain ⟨id, -, h⟩ := bind_eq_ok.mp h
    obtain ⟨sourceId, -, h⟩ := bind_eq_ok.mp h
    exact .inr ⟨_, rfl, (Except.ok.inj h).symm⟩
  · exact .inl (Except.ok.inj h).symm

/-- What every edge keeps, an import keeps. -/
theorem emitExternalLineageImported_ok {P : Table ExternalLineage.id → Prop}
    {t t' : Table ExternalLineage.id} (h : emitExternalLineageImported py e args t = .ok t')
    (hput : ∀ u r, P u → r.companyId = e.companyId → P (u.put r)) (ht : P t) : P t' := by
  obtain ⟨source, -, hsource⟩ := bind_eq_ok.mp h
  obtain ⟨edges, -, hedges⟩ := bind_eq_ok.mp hsource
  clear h hsource
  induction edges generalizing t with
  | nil => rwa [← Except.ok.inj hedges]
  | cons edge edges ih =>
    obtain ⟨u, hu, h⟩ := bind_eq_ok.mp hedges
    rcases addEdge_ok hu with rfl | ⟨r, hr, rfl⟩
    · exact ih ht h
    · exact ih (hput t r ht hr) h

theorem emitExternalPolicyImported_ok {t t' : Table ExternalPolicy.id}
    (h : emitExternalPolicyImported py e args t = .ok t') : ∃ r,
      externalPolicyUuid py [.str e.company, args.get "source_id", args.get "policy_fqn"] = .ok r.id ∧
      (args.get "source_id").toUUID = .ok r.sourceId ∧ args.get "policy_fqn" = .str r.policyFqn ∧
      r.companyId = e.companyId ∧ t' = t.put r := by
  obtain ⟨source, hsource, h⟩ := bind_eq_ok.mp h
  obtain ⟨fqn, hfqn, h⟩ := bind_eq_ok.mp h
  obtain ⟨id, hid, h⟩ := bind_eq_ok.mp h
  obtain ⟨sourceId, hu, h⟩ := bind_eq_ok.mp h
  obtain ⟨text, htext, h⟩ := bind_eq_ok.mp h
  obtain ⟨kind, -, h⟩ := bind_eq_ok.mp h
  obtain ⟨applied, -, h⟩ := bind_eq_ok.mp h
  rw [item_get hsource, item_get hfqn]
  exact ⟨_, hid, hu, joined_ok htext, rfl, (Except.ok.inj h).symm⟩

theorem emitExternalMetricImported_ok {t t' : Table ExternalMetric.id}
    (h : emitExternalMetricImported py e args t = .ok t') : ∃ r,
      externalMetricUuid py [.str e.company, args.get "source_id", args.get "name"] = .ok r.id ∧
      (args.get "source_id").toUUID = .ok r.sourceId ∧ args.get "name" = .str r.name ∧
      r.companyId = e.companyId ∧ t' = t.put r := by
  obtain ⟨source, hsource, h⟩ := bind_eq_ok.mp h
  obtain ⟨name, hname, h⟩ := bind_eq_ok.mp h
  obtain ⟨id, hid, h⟩ := bind_eq_ok.mp h
  obtain ⟨sourceId, hu, h⟩ := bind_eq_ok.mp h
  obtain ⟨text, htext, h⟩ := bind_eq_ok.mp h
  obtain ⟨dimensions, -, h⟩ := bind_eq_ok.mp h
  rw [item_get hsource, item_get hname]
  exact ⟨_, hid, hu, joined_ok htext, rfl, (Except.ok.inj h).symm⟩

theorem emitCatalogTableImported_ok {t t' : Table CatalogTable.key}
    (h : emitCatalogTableImported py e args t = .ok t') :
    t' = t ∨ ∃ r, r.companyId = e.company ∧ t' = t.put r := by
  simp only [emitCatalogTableImported] at h
  split at h
  · exact .inl (Except.ok.inj h).symm
  · obtain ⟨columns, -, h⟩ := bind_eq_ok.mp h
    exact .inr ⟨_, rfl, (Except.ok.inj h).symm⟩

end

end Projection
