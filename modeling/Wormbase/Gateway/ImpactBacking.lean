import Wormbase.Gateway.SchemaImpact
import Wormbase.Readers.LakeAgreement

/-! What stands behind a schema impact: an edge or a drift of the projection, of the changed source and
    with the name of the changed column.

    Which table of the source it is of, no strategy asks: the readers are keyed by source and column. -/

namespace SchemaImpacts
open Py Readers
open Projection (LedgerRow AxisRow LineageEdge CatalogDrift Projections projectionsOf catalogDrifts)

/-! ### Impacts and what backs them -/

/-- A confirmed edge out of a column with this name, of a table of the source. -/
structure Leaves (sourceId srcColumn : String) (row : AxisRow LineageEdge) : Prop where
  state : row.state = .confirmed
  source : inSource sourceId row.facts.srcTableId = true
  column : row.facts.srcColumn = .str srcColumn

/-- An impact at the other end of an edge. -/
structure Reaches (row : AxisRow LineageEdge) (x : ProposedImpact) : Prop where
  edge : x.upstreamLineageEdgeId = some row.id
  table : x.tgtTableId = row.facts.tgtTableId
  column : row.facts.tgtColumn = .str x.tgtColumn

/-- An acknowledged drift, not proposed again since, on a column with this name of the source. -/
structure Drifted (py : Interp) (rows : List LedgerRow) (sourceId srcColumn : String) (row : AxisRow CatalogDrift) :
    Prop where
  state : row.state = .acknowledged
  last : ¬Reproposed py (catalogDrifts py) row.key rows
  source : row.facts.sourceId = sourceId
  column : row.facts.column = some srcColumn

/-- An impact that cites a drift. -/
def Cites (row : AxisRow CatalogDrift) (x : ProposedImpact) : Prop :=
  Dict.get x.evidence "upstream_drift_id" = .str row.id

/-- An impact is on the change that it was proposed for. -/
structure On (sourceId srcTable : String) (change : ColumnChange) (x : ProposedImpact) : Prop where
  source : x.sourceId = sourceId
  table : x.srcTable = srcTable
  column : x.srcColumn = change.srcColumn
  kind : x.changeKind = change.changeKind

/-- The three strategies return, each impact of theirs is backed, and each edge that the lineage strategy
    lets pass has its impact. -/
structure ImpactsBacked (py : Interp) (lower : String → String) (rows : List LedgerRow) (p : Projections) : Prop where
  lineage : ∀ (s : LineageEdgeStrategy) sourceId srcTable change, ∃ out,
    s.proposeImpacts py rows sourceId srcTable change = .ok out ∧
      (∀ x ∈ out, On sourceId srcTable change x ∧ ∃ row ∈ p.axes .lineageEdges,
        Leaves sourceId change.srcColumn row ∧ Reaches row x) ∧
      (sourceId ≠ "" → change.srcColumn ≠ "" → ∀ row ∈ p.axes .lineageEdges, Leaves sourceId change.srcColumn row →
        s.passes row.strategy row.confidence = true → ∀ tgtColumn, row.facts.tgtColumn = .str tgtColumn →
          tgtColumn ≠ "" → ∃ x ∈ out, Reaches row x)
  coercion : ∀ hasReader sourceId srcTable change, ∃ out,
    proposeCoercions py lower hasReader rows sourceId srcTable change = .ok out ∧
      ∀ x ∈ out, On sourceId srcTable change x ∧ ∃ row ∈ p.axes .lineageEdges,
        Leaves sourceId change.srcColumn row ∧ Reaches row x
  drift : ∀ confidence sourceId srcTable change, ∃ out,
    proposeDrifts py confidence rows sourceId srcTable change = .ok out ∧
      ∀ x ∈ out, On sourceId srcTable change x ∧ ∃ row ∈ p.axes .catalogDrifts,
        Drifted py rows sourceId change.srcColumn row ∧ Cites row x

/-! ### The records of a change -/

section
variable {py : Interp} {lower : String → String} {rows : List LedgerRow} {p : Projections} {company : UUID}
  {sourceId srcTable srcColumn : String} {change : ColumnChange} {row : AxisRow LineageEdge} {edge : LineageEdgeRecord}

theorem nonemptyText_eq_some {v : Val} {t : String} : nonemptyText v = some t ↔ v = .str t ∧ t ≠ "" := by
  cases v with
  | str s =>
    rw [nonemptyText]
    by_cases hs : s = ""
    · rw [if_pos hs]
      refine iff_of_false (by simp) fun h => h.2 ?_
      rw [← Val.str.inj h.1, hs]
    · rw [if_neg hs]
      constructor
      · intro h
        obtain rfl := Option.some.inj h
        exact ⟨rfl, hs⟩
      · rintro ⟨hv, -⟩
        rw [Val.str.inj hv]
  | _ => simp [nonemptyText]

/-- The record of an edge, read off. -/
theorem edgeOf_eq_some : edgeOf srcColumn row = some edge ↔ edge.tgtColumn ≠ "" ∧
    row.facts.tgtColumn = .str edge.tgtColumn ∧ edge = ⟨row.id, row.facts.srcTableId, srcColumn, row.facts.tgtTableId,
      edge.tgtColumn, row.confidence, row.strategy⟩ := by
  rw [edgeOf]
  constructor
  · intro h
    obtain ⟨t, ht, rfl⟩ := Option.map_eq_some_iff.mp h
    obtain ⟨hcolumn, hne⟩ := nonemptyText_eq_some.mp ht
    exact ⟨hne, hcolumn, rfl⟩
  · rintro ⟨hne, hcolumn, hedge⟩
    rw [nonemptyText_eq_some.mpr ⟨hcolumn, hne⟩, hedge]
    rfl

/-- What the reader gives to a strategy for a change. -/
theorem edges_of_change (hform : WellFormed py rows) (hids : DerivedIds py rows)
    (hcompany : ∀ e ∈ rows, e.companyId = company) (hp : projectionsOf py rows = .ok p) (sourceId srcColumn : String) :
    ∃ edges, listConfirmedEdges py sourceId srcColumn rows = .ok edges ∧
      (∀ edge ∈ edges, ∃ row ∈ p.axes .lineageEdges, Leaves sourceId srcColumn row ∧ edgeOf srcColumn row = some edge) ∧
      (sourceId ≠ "" → srcColumn ≠ "" → ∀ row ∈ p.axes .lineageEdges, Leaves sourceId srcColumn row →
        ∀ edge, edgeOf srcColumn row = some edge → edge ∈ edges) := by
  by_cases hempty : sourceId = "" ∨ srcColumn = ""
  · refine ⟨[], by rw [listConfirmedEdges, if_pos hempty], nofun, fun hsource hcolumn => ?_⟩
    exact absurd hempty (not_or.mpr ⟨hsource, hcolumn⟩)
  · obtain ⟨hsource, hcolumn⟩ := not_or.mp hempty
    obtain ⟨edges, hedges, -, hmem⟩ := edges_listed hform hids hcompany hp hsource hcolumn
    refine ⟨edges, hedges, fun edge hedge => ?_, fun _ _ row hrow hleaves edge hedge => ?_⟩
    · obtain ⟨row, hrow, hstate, ⟨hin, hcol⟩, hof⟩ := (hmem edge).mp hedge
      exact ⟨row, hrow, ⟨hstate, hin, hcol⟩, hof⟩
    · exact (hmem edge).mpr ⟨row, hrow, hleaves.state, ⟨hleaves.source, hleaves.column⟩, hedge⟩

theorem lineageImpact_reaches (hof : edgeOf change.srcColumn row = some edge) :
    On sourceId srcTable change (lineageImpact py sourceId srcTable change edge) ∧
      Reaches row (lineageImpact py sourceId srcTable change edge) := by
  obtain ⟨-, hcolumn, hedge⟩ := edgeOf_eq_some.mp hof
  refine ⟨⟨rfl, rfl, rfl, rfl⟩, ?_, ?_, hcolumn⟩
  · exact congrArg (fun e => some e.edgeId) hedge
  · exact congrArg (fun e => e.tgtTableId) hedge

theorem coercionImpact_reaches (hkind : change.changeKind = .columnTypeChanged)
    (hof : edgeOf change.srcColumn row = some edge) :
    On sourceId srcTable change (coercionImpact py lower sourceId srcTable change edge) ∧
      Reaches row (coercionImpact py lower sourceId srcTable change edge) := by
  obtain ⟨-, hcolumn, hedge⟩ := edgeOf_eq_some.mp hof
  refine ⟨⟨rfl, rfl, rfl, hkind.symm⟩, ?_, ?_, hcolumn⟩
  · exact congrArg (fun e => some e.edgeId) hedge
  · exact congrArg (fun e => e.tgtTableId) hedge

/-- What the lineage strategy proposes. -/
theorem lineage_backed (hform : WellFormed py rows) (hids : DerivedIds py rows)
    (hcompany : ∀ e ∈ rows, e.companyId = company) (hp : projectionsOf py rows = .ok p) (s : LineageEdgeStrategy)
    (sourceId srcTable : String) (change : ColumnChange) : ∃ out,
    s.proposeImpacts py rows sourceId srcTable change = .ok out ∧
      (∀ x ∈ out, On sourceId srcTable change x ∧ ∃ row ∈ p.axes .lineageEdges,
        Leaves sourceId change.srcColumn row ∧ Reaches row x) ∧
      (sourceId ≠ "" → change.srcColumn ≠ "" → ∀ row ∈ p.axes .lineageEdges, Leaves sourceId change.srcColumn row →
        s.passes row.strategy row.confidence = true → ∀ tgtColumn, row.facts.tgtColumn = .str tgtColumn →
          tgtColumn ≠ "" → ∃ x ∈ out, Reaches row x) := by
  obtain ⟨edges, hedges, hsound, hcomplete⟩ := edges_of_change hform hids hcompany hp sourceId change.srcColumn
  refine ⟨_, by rw [LineageEdgeStrategy.proposeImpacts, hedges]; rfl, fun x hx => ?_, ?_⟩
  · obtain ⟨edge, hedge, rfl⟩ := List.mem_map.mp hx
    obtain ⟨row, hrow, hleaves, hof⟩ := hsound edge (List.mem_filter.mp hedge).1
    obtain ⟨hon, hreaches⟩ := @lineageImpact_reaches py sourceId srcTable change row edge hof
    exact ⟨hon, row, hrow, hleaves, hreaches⟩
  · intro hsource hcolumn row hrow hleaves hpasses tgtColumn htgt hne
    have hof : edgeOf change.srcColumn row = some ⟨row.id, row.facts.srcTableId, change.srcColumn, row.facts.tgtTableId,
        tgtColumn, row.confidence, row.strategy⟩ := edgeOf_eq_some.mpr ⟨hne, htgt, rfl⟩
    have hedge := hcomplete hsource hcolumn row hrow hleaves _ hof
    refine ⟨_, List.mem_map_of_mem (List.mem_filter.mpr ⟨hedge, hpasses⟩), ?_⟩
    exact (@lineageImpact_reaches py sourceId srcTable change row _ hof).2

/-- What the type-coercion strategy proposes. -/
theorem coercion_backed (hform : WellFormed py rows) (hids : DerivedIds py rows)
    (hcompany : ∀ e ∈ rows, e.companyId = company) (hp : projectionsOf py rows = .ok p) (lower : String → String)
    (hasReader : Bool) (sourceId srcTable : String) (change : ColumnChange) : ∃ out,
    proposeCoercions py lower hasReader rows sourceId srcTable change = .ok out ∧
      ∀ x ∈ out, On sourceId srcTable change x ∧ ∃ row ∈ p.axes .lineageEdges,
        Leaves sourceId change.srcColumn row ∧ Reaches row x := by
  rw [proposeCoercions]
  by_cases hkind : change.changeKind = .columnTypeChanged
  · rw [if_neg (not_not.mpr hkind)]
    cases hasReader with
    | false => exact ⟨[], rfl, nofun⟩
    | true =>
      obtain ⟨edges, hedges, hsound, -⟩ := edges_of_change hform hids hcompany hp sourceId change.srcColumn
      refine ⟨_, by rw [hedges]; rfl, fun x hx => ?_⟩
      obtain ⟨edge, hedge, rfl⟩ := List.mem_map.mp hx
      obtain ⟨row, hrow, hleaves, hof⟩ := hsound edge hedge
      obtain ⟨hon, hreaches⟩ := @coercionImpact_reaches py lower sourceId srcTable change row edge hkind hof
      exact ⟨hon, row, hrow, hleaves, hreaches⟩
  · rw [if_pos hkind]
    exact ⟨[], rfl, nofun⟩

/-- What the strategy for acknowledged drifts proposes. -/
theorem drift_backed (hform : WellFormed py rows) (hcompany : ∀ e ∈ rows, e.companyId = company)
    (hp : projectionsOf py rows = .ok p) (confidence : PyFloat) (sourceId srcTable : String) (change : ColumnChange) :
    ∃ out, proposeDrifts py confidence rows sourceId srcTable change = .ok out ∧
      ∀ x ∈ out, On sourceId srcTable change x ∧ ∃ row ∈ p.axes .catalogDrifts,
        Drifted py rows sourceId change.srcColumn row ∧ Cites row x := by
  rw [proposeDrifts]
  by_cases hempty : sourceId = "" ∨ change.srcColumn = ""
  · rw [if_pos hempty]
    exact ⟨[], rfl, nofun⟩
  · obtain ⟨hsource, -⟩ := not_or.mp hempty
    obtain ⟨drifts, hdrifts, -, hmem⟩ := driftsFor_listed hform hcompany hp hsource (some change.srcColumn)
    rw [if_neg hempty, hdrifts]
    cases drifts with
    | nil => exact ⟨[], rfl, nofun⟩
    | cons winner others =>
      refine ⟨_, rfl, fun x hx => ?_⟩
      obtain rfl := List.mem_singleton.mp hx
      obtain ⟨row, hrow, hstate, hlast, ⟨hsource, hcolumn⟩, rfl⟩ := (hmem winner).mp List.mem_cons_self
      exact ⟨⟨rfl, rfl, rfl, rfl⟩, row, hrow, ⟨hstate, hlast, hsource, hcolumn⟩, rfl⟩

end

def customerEdge (edgeId table strategy : String) : Dict :=
  [(.str "edge_id", .str edgeId), (.str "src_table_id", .str table), (.str "src_column", .str "id"),
    (.str "tgt_table_id", .str "mart.facts"), (.str "tgt_column", .str "customer_id"),
    (.str "confidence", .float .one), (.str "strategy", .str strategy), (.str "confirmed_by_person_id", .str "ana")]

/-- An edge out of another table, and one out of the changed table that was guessed from a name. -/
def twoTables : List LedgerRow :=
  [Projection.executed 1 "emit_lineage_edge_proposed" (customerEdge "e1" "crm.public.orders" "dbt_manifest"),
    Projection.executed 2 "emit_lineage_edge_confirmed" (customerEdge "e1" "crm.public.orders" "dbt_manifest"),
    Projection.executed 3 "emit_lineage_edge_proposed" (customerEdge "e2" "crm.public.customers" "naming_heuristic"),
    Projection.executed 4 "emit_lineage_edge_confirmed" (customerEdge "e2" "crm.public.customers" "naming_heuristic")]

theorem twoTables_entries : ∀ e ∈ twoTables, Projection.AxisEntry .plain e := by
  intro e he
  simp only [twoTables, List.mem_cons, List.not_mem_nil, or_false] at he
  rcases he with rfl | rfl | rfl | rfl
  all_goals exact ⟨_, rfl, rfl, fun _ => ⟨.lineageEdges, _, _, rfl, by decide, _, rfl⟩⟩

def droppedId : ColumnChange := ⟨"crm.public.customers", "id", .columnDropped, some "int", none⟩

theorem twoTables_company : ∀ e ∈ twoTables, e.companyId = ⟨0⟩ := by
  intro e he
  simp only [twoTables, List.mem_cons, List.not_mem_nil, or_false] at he
  rcases he with rfl | rfl | rfl | rfl
  all_goals rfl

def foreignEdge : LineageEdgeRecord :=
  ⟨"e1", "crm.public.orders", "id", "mart.facts", "customer_id", .one, "dbt_manifest"⟩

theorem twoTables_proposes : LineageEdgeStrategy.proposeImpacts .plain {} twoTables "crm" "crm.public.customers" droppedId =
    .ok [lineageImpact .plain "crm" "crm.public.customers" droppedId foreignEdge] := by
  have hlisted : listConfirmedEdges .plain "crm" "id" twoTables = .ok
      [foreignEdge, ⟨"e2", "crm.public.customers", "id", "mart.facts", "customer_id", .one, "naming_heuristic"⟩] := rfl
  have hpasses : LineageEdgeStrategy.passes {} "dbt_manifest" .one = true := by decide +kernel
  have hstops : LineageEdgeStrategy.passes {} "naming_heuristic" .one = false := rfl
  rw [LineageEdgeStrategy.proposeImpacts, show droppedId.srcColumn = "id" from rfl, hlisted]
  simp only [bind, Except.bind, List.filter_cons, foreignEdge, hpasses, hstops]
  rfl

end SchemaImpacts
