import Wormbase.Readers.LakeScan
import Mathlib.Data.List.ReduceOption

/-! When the lake readers list the rows that the projection has. -/

namespace Readers
open Py Projection

section
variable {py : Interp} {a : Axis} {c : Scan} {rows : List LedgerRow} {p : Projections} {company : UUID}

theorem proposed_key {F : Type} {spec : AxisSpec F} {k : String × String} {args : Dict}
    (h : Proposed py spec k rows args) (hcompany : ∀ e ∈ rows, e.companyId = company) :
    k.1 = company.str ∧ (args.get spec.idArg).text py = k.2 := by
  obtain ⟨e, he, hprop⟩ := h
  unfold AxisSpec.proposal? at hprop
  split at hprop
  · split at hprop
    · rename_i hcond
      obtain rfl := Option.some.inj hprop
      have hkey := (keyOf_eq_some.mp hcond.2).2
      rw [LedgerRow.company, hcompany e he] at hkey
      exact ⟨(congrArg Prod.fst hkey).symm, congrArg Prod.snd hkey⟩
    · cases hprop
  · cases hprop

theorem proposed_of_row (hp : projectionsOf py rows = .ok p) {row : AxisRow a.Facts} (hrow : row ∈ p.axes a) :
    ∃ args, Proposed py (a.spec py) row.key rows args := by
  have hget := (mem_axes hp).mp hrow
  by_contra hnone
  have hnil := rowAfter_eq_none.mpr (proposals_eq_nil.mpr fun e he => by
    cases hprop : (a.spec py).proposal? py row.key e with
    | none => rfl
    | some args => exact absurd ⟨args, e, he, hprop⟩ hnone)
  rw [hget] at hnil
  cases hnil

/-- All rows are the company's. -/
theorem axes_company (hp : projectionsOf py rows = .ok p) (hcompany : ∀ e ∈ rows, e.companyId = company)
    {row : AxisRow a.Facts} (hrow : row ∈ p.axes a) : row.key = (company.str, row.id) := by
  obtain ⟨args, hprop⟩ := proposed_of_row hp hrow
  exact Prod.ext (proposed_key hprop hcompany).1 rfl

/-- The builder has read the confidence of every proposal as a number. -/
theorem proposed_float (hp : projectionsOf py rows = .ok p) {k : String × String} {args : Dict}
    (h : Proposed py (a.spec py) k rows args) :
    (args.getD "confidence" (.float (.finite false 0))).toFloat = .ok (confidenceOf args) := by
  obtain ⟨s, hs, -⟩ := projectionsOf_ok hp
  obtain ⟨e, he, hprop⟩ := h
  obtain ⟨es₁, es₂, rfl⟩ := List.append_of_mem he
  obtain ⟨u, -, hrest⟩ := foldEntries_append.mp hs
  obtain ⟨v, hv, -⟩ := foldEntries_cons.mp hrest
  have hstep := applyEntry_at hv (.axis a)
  unfold AxisSpec.proposal? at hprop
  split at hprop
  · rename_i tool args' hact
    split at hprop
    · rename_i hcond
      obtain rfl := Option.some.inj hprop
      obtain ⟨rfl, hkey⟩ := hcond
      have hrun : applyProposal py (a.spec py) e args' (u (.axis a)) = .ok (v (.axis a)) := by
        rw [← hstep]
        exact (stepAt_handler (by simp) hact List.mem_cons_self).symm
      have hid := (keyOf_eq_some.mp hkey).1
      simp only [applyProposal, hid, if_false] at hrun
      obtain ⟨x, hx, -⟩ := bind_eq_ok.mp hrun
      rw [confidenceOf, hx]
      rfl
    · cases hprop
  · cases hprop

/-- The fold over the entries of a key ends in the row with that key. -/
theorem row_of_key (hp : projectionsOf py rows = .ok p) {k : String × String} {row : AxisRow a.Facts} :
    rows.foldl ((a.spec py).rowStep py k) none = some row ↔ row ∈ p.axes a ∧ row.key = k := by
  obtain ⟨s, hs, hperm, -⟩ := @axes_perm py a rows p hp
  rw [← get?_axis hs, Table.get?_eq_some_iff, hperm.mem_iff]

/-! ### What a scan lists -/

/-- A call lists these records, each under its own id. -/
def Lists {ρ : Type} (idOf : ρ → String) (call : Except Err (List ρ)) (listed : ρ → Prop) : Prop :=
  ∃ out, call = .ok out ∧ (out.map idOf).Nodup ∧ ∀ x, x ∈ out ↔ listed x

theorem Lists.congr {ρ : Type} {idOf : ρ → String} {call : Except Err (List ρ)} {listed listed' : ρ → Prop}
    (h : Lists idOf call listed) (hiff : ∀ x, listed x ↔ listed' x) : Lists idOf call listed' := by
  obtain ⟨out, hout, hnodup, hmem⟩ := h
  exact ⟨out, hout, hnodup, fun x => (hmem x).trans (hiff x)⟩

theorem listRecords_mem {ρ : Type} {idOf : ρ → String}
    {record : String → Scanned → Except Err (Option ρ)} {shown : String → Scanned → Option ρ}
    (h : ∀ id r, kept (scan py c rows) id = some r → r.state = c.accepted →
      record id r = .ok (shown id r))
    (hid : ∀ id r x, shown id r = some x → idOf x = id) :
    Lists idOf (listRecords py c record rows) fun x =>
      ∃ id r, kept (scan py c rows) id = some r ∧ r.state = c.accepted ∧ shown id r = some x := by
  have hkept : ∀ q, q ∈ sortRows (fun p => [p.1]) (scan py c rows).rows ↔
      kept (scan py c rows) q.1 = some q.2 := by
    intro q
    rw [(sortRows_perm _ _).mem_iff, kept, Option.map_eq_some_iff]
    constructor
    · exact fun hq => ⟨q, Table.get?_eq_some_iff.mpr ⟨hq, rfl⟩, rfl⟩
    · rintro ⟨q', hq', hsnd⟩
      obtain ⟨hmem, hfst⟩ := Table.get?_eq_some_iff.mp hq'
      rwa [← show q' = q from Prod.ext hfst hsnd]
  let listed := (sortRows (fun p => [p.1]) (scan py c rows).rows).filter fun p => p.2.state = c.accepted
  have hlisted : ∀ q, q ∈ listed ↔ kept (scan py c rows) q.1 = some q.2 ∧ q.2.state = c.accepted := by
    intro q
    rw [List.mem_filter, hkept, decide_eq_true_eq]
  have hmap : listed.mapM (fun p => record p.1 p.2) = .ok (listed.map fun p => shown p.1 p.2) :=
    mapM_of_forall fun q hq => h q.1 q.2 ((hlisted q).mp hq).1 ((hlisted q).mp hq).2
  have hnodup : listed.Pairwise fun p q => p.1 ≠ q.1 :=
    (List.pairwise_map.mp (((sortRows_perm _ _).map Prod.fst).nodup_iff.mpr (scan py c rows).nodup)).filter _
  refine ⟨(listed.map fun p => shown p.1 p.2).reduceOption, ?_, ?_, fun x => ?_⟩
  · rw [listRecords, hmap]
    rfl
  · rw [List.reduceOption, List.filterMap_map, List.map_filterMap]
    refine List.Pairwise.filterMap _ (fun p q hpq x hx y hy hxy => hpq ?_) hnodup
    obtain ⟨x', hx', rfl⟩ := Option.map_eq_some_iff.mp hx
    obtain ⟨y', hy', rfl⟩ := Option.map_eq_some_iff.mp hy
    exact ((hid _ _ _ hx').symm.trans hxy).trans (hid _ _ _ hy')
  · rw [List.reduceOption_mem_iff, List.mem_map]
    constructor
    · rintro ⟨q, hq, hx⟩
      obtain ⟨hk, hstate⟩ := (hlisted q).mp hq
      exact ⟨q.1, q.2, hk, hstate, hx⟩
    · rintro ⟨id, r, hk, hstate, hx⟩
      exact ⟨(id, r), (hlisted (id, r)).mpr ⟨hk, hstate⟩, hx⟩

theorem eq_ok_of_join {ρ : Type} {call : Except Err (Option ρ)} {x : ρ} (h : call.toOption.join = some x) :
    call = .ok (some x) := by
  cases call with
  | error e => cases h
  | ok y => exact congrArg Except.ok h

/-- What is kept of an id is the fold over the entries of its key. -/
theorem kept_foldl (hreads : c.Reads (a.spec py)) (hp : projectionsOf py rows = .ok p)
    (hcompany : ∀ e ∈ rows, e.companyId = company) (id : String) :
    kept (scan py c rows) id = rows.foldl (keptStep py c (a.spec py) (company.str, id)) none := by
  obtain ⟨s, hs, -⟩ := projectionsOf_ok hp
  exact kept_scan (k := (company.str, id)) hreads hs
    (fun e he => by rw [LedgerRow.company, hcompany e he]) .empty

/-- A reader that keeps the state lists the rows in that state that it is asked for. -/
theorem keep_lists {ρ : Type} {idOf : ρ → String} {record : String → Scanned → Except Err (Option ρ)}
    {askedRow : AxisRow a.Facts → Prop} {recordOf : AxisRow a.Facts → Option ρ}
    (hreads : c.Reads (a.spec py)) (hpropose : c.propose = keepState)
    (hkeys : ∀ k, OneKey py c (a.spec py) k rows) (hp : projectionsOf py rows = .ok p)
    (hcompany : ∀ e ∈ rows, e.companyId = company)
    (hask : ∀ args row, Dumped py (a.spec py) args row → (c.asked args = true ↔ askedRow row))
    (hrecord : ∀ row r, Proposed py (a.spec py) row.key rows r.args → Dumped py (a.spec py) r.args row →
      c.asked r.args = true → r.state = c.accepted → Noted c row r →
        record row.id r = .ok (recordOf row))
    (hid : ∀ id r x, record id r = .ok (some x) → idOf x = id) :
    Lists idOf (listRecords py c record rows) fun x =>
      ∃ row ∈ p.axes a, row.state = c.accepted ∧ askedRow row ∧ recordOf row = some x := by
  have hfollows : ∀ id, Follows py c (a.spec py) (company.str, id) rows _ _ := fun id =>
    follows_run hreads hpropose rows (hkeys _)
  simp only [← kept_foldl hreads hp hcompany] at hfollows
  have hrow : ∀ id r, kept (scan py c rows) id = some r → ∃ row ∈ p.axes a, row.id = id ∧
      Proposed py (a.spec py) row.key rows r.args ∧ Dumped py (a.spec py) r.args row ∧
      c.asked r.args = true ∧ row.state = r.state ∧ Noted c row r := by
    intro id r hr
    have hf := hfollows id
    rw [hr] at hf
    obtain ⟨row, hget, hprop, hrest⟩ := hf
    obtain ⟨hmem, hkey⟩ := (row_of_key hp).mp hget
    exact ⟨row, hmem, congrArg Prod.snd hkey, hkey ▸ hprop, hrest⟩
  have hshown : ∀ id r, kept (scan py c rows) id = some r → r.state = c.accepted →
      ∃ row ∈ p.axes a, row.id = id ∧ row.state = c.accepted ∧ askedRow row ∧
        record id r = .ok (recordOf row) := by
    intro id r hr hstate
    obtain ⟨row, hmem, rfl, hprop, hdumped, hasked, hsame, hnoted⟩ := hrow id r hr
    exact ⟨row, hmem, rfl, hsame.trans hstate, (hask _ _ hdumped).mp hasked,
      hrecord row r hprop hdumped hasked hstate hnoted⟩
  have hlists := @listRecords_mem py c rows ρ idOf record
    (fun id r => ((record id r).toOption).join) (fun id r hr hstate => by
      obtain ⟨row, -, -, -, -, hrec⟩ := hshown id r hr hstate
      rw [hrec]
      rfl) fun id r x hx => hid id r x (eq_ok_of_join hx)
  refine hlists.congr fun x => ?_
  constructor
  · rintro ⟨id, r, hr, hstate, hx⟩
    obtain ⟨row, hmem, -, hrowstate, hasked, hrec⟩ := hshown id r hr hstate
    rw [hrec] at hx
    exact ⟨row, hmem, hrowstate, hasked, hx⟩
  · rintro ⟨row, hmem, hrowstate, hasked, hx⟩
    have hkey := axes_company hp hcompany hmem
    have hget := (row_of_key hp).mpr ⟨hmem, hkey⟩
    cases hr : kept (scan py c rows) row.id with
    | none =>
      have hf := hfollows row.id
      rw [hr, hget] at hf
      obtain ⟨args, -, hdumped, hno⟩ := hf row rfl
      rw [(hask _ _ hdumped).mpr hasked] at hno
      cases hno
    | some r =>
      have hf := hfollows row.id
      rw [hr, hget] at hf
      obtain ⟨row', hrow', hprop, hdumped, hasked', hsame, hnoted⟩ := hf
      obtain rfl := Option.some.inj hrow'
      have hstate : r.state = c.accepted := hsame.symm.trans hrowstate
      refine ⟨row.id, r, hr, hstate, ?_⟩
      rw [hrecord row r (hkey ▸ hprop) hdumped hasked' hstate hnoted]
      exact hx

/-- A reader that starts over lists the rows in that state that were not proposed again since. -/
theorem startOver_lists {ρ : Type} {idOf : ρ → String} {record : String → Scanned → Except Err (Option ρ)}
    {recordOf : AxisRow a.Facts → Option ρ} (hreads : c.Reads (a.spec py)) (hpropose : c.propose = startOver)
    (hasked : ∀ args, c.asked args = true) (hrefresh : ∀ old new, (a.spec py).refresh old new = new)
    (hp : projectionsOf py rows = .ok p) (hcompany : ∀ e ∈ rows, e.companyId = company)
    (hrecord : ∀ row r, Proposed py (a.spec py) row.key rows r.args → Dumped py (a.spec py) r.args row →
      r.state = c.accepted → Noted c row r → record row.id r = .ok (recordOf row))
    (hid : ∀ id r x, record id r = .ok (some x) → idOf x = id) :
    Lists idOf (listRecords py c record rows) fun x => ∃ row ∈ p.axes a,
      row.state = c.accepted ∧ ¬Reproposed py (a.spec py) row.key rows ∧ recordOf row = some x := by
  have hstarts : ∀ id, StartsOver py c (a.spec py) (company.str, id) rows _ _ := fun id =>
    startsOver_run hreads (axis_sound py a) hpropose hasked hrefresh rows
  simp only [← kept_foldl hreads hp hcompany] at hstarts
  have hrow : ∀ id r, kept (scan py c rows) id = some r → r.state = c.accepted →
      ∃ row ∈ p.axes a, row.id = id ∧ row.state = c.accepted ∧ ¬Reproposed py (a.spec py) row.key rows ∧
        record id r = .ok (recordOf row) := by
    intro id r hr hstate
    have hf := hstarts id
    rw [hr] at hf
    cases hget : rows.foldl ((a.spec py).rowStep py (company.str, id)) none with
    | none =>
      rw [hget] at hf
      exact absurd hf not_false
    | some row =>
      rw [hget] at hf
      obtain ⟨hprop, hdumped, hyes, hno, hnoted⟩ := hf
      obtain ⟨hmem, hkey⟩ := (row_of_key hp).mp hget
      obtain rfl : row.id = id := congrArg Prod.snd hkey
      rw [← hkey] at hprop hyes hno
      have hlast : ¬Reproposed py (a.spec py) row.key rows := fun h =>
        absurd ((hstate.symm.trans (hyes h))) hreads.accepted.2
      exact ⟨row, hmem, rfl, (hno hlast).symm.trans hstate, hlast,
        hrecord row r hprop hdumped hstate hnoted⟩
  have hlists := @listRecords_mem py c rows ρ idOf record
    (fun id r => ((record id r).toOption).join) (fun id r hr hstate => by
      obtain ⟨row, -, -, -, -, hrec⟩ := hrow id r hr hstate
      rw [hrec]
      rfl) fun id r x hx => hid id r x (eq_ok_of_join hx)
  refine hlists.congr fun x => ?_
  constructor
  · rintro ⟨id, r, hr, hstate, hx⟩
    obtain ⟨row, hmem, -, hrowstate, hlast, hrec⟩ := hrow id r hr hstate
    rw [hrec] at hx
    exact ⟨row, hmem, hrowstate, hlast, hx⟩
  · rintro ⟨row, hmem, hrowstate, hlast, hx⟩
    have hkey := axes_company hp hcompany hmem
    have hf := hstarts row.id
    rw [(row_of_key hp).mpr ⟨hmem, hkey⟩] at hf
    cases hr : kept (scan py c rows) row.id with
    | none =>
      rw [hr] at hf
      exact absurd hf not_false
    | some r =>
      rw [hr, ← hkey] at hf
      obtain ⟨hprop, hdumped, -, hno, hnoted⟩ := hf
      have hstate : r.state = c.accepted := (hno hlast).trans hrowstate
      refine ⟨row.id, r, hr, hstate, ?_⟩
      rw [hrecord row r hprop hdumped hstate hnoted]
      exact hx

end

/-! ### The four readers -/

section
variable (py : Interp)

/-- What the payload classes of the four proposals promise. -/
structure WellFormed (rows : List LedgerRow) : Prop where
  edge : ∀ k args, Proposed py (lineageEdges py) k rows args → args.has "confidence" = true
  type : ∀ k args, Proposed py (semanticTypes py) k rows args → args.has "confidence" = true ∧
    ∃ s, args.get "semantic_type" = .str s ∧ s ≠ ""
  classification : ∀ k args, Proposed py (columnClassifications py) k rows args →
    ∃ s, args.get "classification_level" = .str s ∧ s ≠ ""
  drift : ∀ k args, Proposed py (catalogDrifts py) k rows args →
    (args.get "source_id").text py ≠ "" ∧ (args.get "table_id").text py ≠ "" ∧
      (args.get "drift_kind").text py ≠ "" ∧
      (args.get "column" = .none ∨ ∃ s, args.get "column" = .str s)

/-- An id is derived from what is proposed: proposals with one id are about one edge, or one column. -/
structure DerivedIds (rows : List LedgerRow) : Prop where
  edge : ∀ k args args', Proposed py (lineageEdges py) k rows args →
    Proposed py (lineageEdges py) k rows args' → (lineageEdges py).facts args = (lineageEdges py).facts args'
  type : ∀ k args args', Proposed py (semanticTypes py) k rows args →
    Proposed py (semanticTypes py) k rows args' →
      (args.get "table_id").text py = (args'.get "table_id").text py ∧
      (args.get "column").text py = (args'.get "column").text py
  classification : ∀ k args args', Proposed py (columnClassifications py) k rows args →
    Proposed py (columnClassifications py) k rows args' →
      (args.get "table_id").text py = (args'.get "table_id").text py ∧
      (args.get "column").text py = (args'.get "column").text py

/-- The record of an edge; there is none of an edge that leads to a whole table. -/
def edgeOf (srcColumn : String) (row : AxisRow LineageEdge) : Option LineageEdgeRecord :=
  (nonemptyText row.facts.tgtColumn).map fun tgtColumn => {
    edgeId := row.id
    srcTableId := row.facts.srcTableId
    srcColumn
    tgtTableId := row.facts.tgtTableId
    tgtColumn
    confidence := row.confidence
    strategy := row.strategy }

def typeOf (row : AxisRow SemanticType) : ConfirmedSemanticTypeRecord where
  typeId := row.id
  semanticType := row.facts.semanticType
  confidence := row.confidence
  strategy := row.strategy

/-- The record of a classification; there is none where the table names no source. -/
def classificationOf (row : AxisRow ColumnClassification) : Option ConfirmedClassificationRecord :=
  if extractSourceId row.facts.tableId = "" then none
  else some {
    classificationId := row.id
    sourceId := extractSourceId row.facts.tableId
    tableId := row.facts.tableId
    column := row.facts.column
    classificationLevel := row.facts.classificationLevel
    confirmedAt := row.stateChangedAt
    confirmedByPersonId := row.stateChangedBy.getD "" }

def driftOf (row : AxisRow CatalogDrift) : AcknowledgedDriftRecord where
  driftId := row.id
  sourceId := row.facts.sourceId
  tableId := row.facts.tableId
  column := row.facts.column
  driftKind := row.facts.driftKind
  before := dict? row.facts.before
  after := dict? row.facts.after
  acknowledgedAt := row.stateChangedAt
  acknowledgedByPersonId := row.stateChangedBy.getD ""

/-- The readers list the confirmed rows that they are asked for, and the acknowledged drifts that
    were not proposed again since. -/
structure LakeReadersAgree (rows : List LedgerRow) (p : Projections) : Prop where
  edges : ∀ sourceId srcColumn, sourceId ≠ "" → srcColumn ≠ "" →
    Lists LineageEdgeRecord.edgeId (listConfirmedEdges py sourceId srcColumn rows) fun x =>
      ∃ row ∈ p.axes .lineageEdges, row.state = .confirmed ∧
        (inSource sourceId row.facts.srcTableId = true ∧ row.facts.srcColumn = .str srcColumn) ∧
        edgeOf srcColumn row = some x
  types : ∀ tableId column, tableId ≠ "" → column ≠ "" →
    Lists ConfirmedSemanticTypeRecord.typeId (listConfirmedTypes py tableId column rows) fun x =>
      ∃ row ∈ p.axes .semanticTypes, row.state = .confirmed ∧
        (row.facts.tableId = tableId ∧ row.facts.column = column) ∧ some (typeOf row) = some x
  classifications : ∀ sourceId srcColumn, sourceId ≠ "" → srcColumn ≠ "" →
    Lists ConfirmedClassificationRecord.classificationId
        (listConfirmedClassifications py sourceId srcColumn rows) fun x =>
      ∃ row ∈ p.axes .columnClassifications, row.state = .confirmed ∧
        (inSource sourceId row.facts.tableId = true ∧ row.facts.column = srcColumn) ∧
        classificationOf row = some x
  drifts : Lists AcknowledgedDriftRecord.driftId (listAcknowledgedDrifts py rows) fun x =>
    ∃ row ∈ p.axes .catalogDrifts, row.state = .acknowledged ∧
      ¬Reproposed py (catalogDrifts py) row.key rows ∧ some (driftOf row) = some x
  driftsFor : ∀ sourceId srcColumn, sourceId ≠ "" →
    Lists AcknowledgedDriftRecord.driftId (listAcknowledgedDriftsFor py sourceId srcColumn rows) fun x =>
      ∃ row ∈ p.axes .catalogDrifts, row.state = .acknowledged ∧
        ¬Reproposed py (catalogDrifts py) row.key rows ∧
        (row.facts.sourceId = sourceId ∧ row.facts.column = srcColumn) ∧ driftOf row = x

end

section
variable {py : Interp} {rows : List LedgerRow} {p : Projections} {company : UUID}

/-- A scan of an axis has the tools of the axis. -/
theorem Scan.Reads.ofAxis {a : Axis} {c : Scan} {accepted : Verdict}
    (hpropose : (a.spec py).proposeTool = c.proposeTool) (hid : (a.spec py).idArg = c.idArg)
    (hdecisions : (a.spec py).decisions =
      [⟨c.acceptTool, c.accepted, c.byArg, fun _ f => f⟩, rejectedBy c.rejectTool])
    (haccepted : c.accepted = accepted) (hverdict : accepted ≠ .rejected ∧ accepted ≠ .proposed) :
    c.Reads (a.spec py) := by
  have htools : ((Part.axis a).handlers py).map Prod.fst = [c.proposeTool, c.acceptTool, c.rejectTool] := by
    refine (handlers_fst ..).trans ?_
    rw [hpropose, hdecisions]
    rfl
  exact {
    proposeTool := hpropose
    idArg := hid
    decisions := hdecisions
    apart := htools ▸ handlers_nodup py (Part.axis a)
    known := fun t ht => List.mem_flatMap.mpr ⟨.axis a, Part.mem_all _, part_tools py (Part.axis a) ▸ htools ▸ ht⟩
    accepted := haccepted ▸ hverdict }

theorem floatOrSkip_proposed {a : Axis} (hp : projectionsOf py rows = .ok p) {k : String × String} {args : Dict}
    (h : Proposed py (a.spec py) k rows args) (hhas : args.has "confidence" = true) :
    floatOrSkip (args.get "confidence") = .ok (some (confidenceOf args)) := by
  have hfloat := proposed_float hp h
  obtain ⟨v, hv⟩ := Option.isSome_iff_exists.mp hhas
  have hget : args.getD "confidence" (.float (.finite false 0)) = args.get "confidence" := by
    rw [Dict.getD, Dict.get, hv]
    rfl
  rw [floatOrSkip, ← hget, hfloat]

theorem edges_listed (hform : WellFormed py rows) (hids : DerivedIds py rows)
    (hcompany : ∀ e ∈ rows, e.companyId = company) (hp : projectionsOf py rows = .ok p)
    {sourceId srcColumn : String} (hsource : sourceId ≠ "") (hcolumn : srcColumn ≠ "") :
    Lists LineageEdgeRecord.edgeId (listConfirmedEdges py sourceId srcColumn rows) fun x =>
      ∃ row ∈ p.axes .lineageEdges, row.state = .confirmed ∧
        (inSource sourceId row.facts.srcTableId = true ∧ row.facts.srcColumn = .str srcColumn) ∧
        edgeOf srcColumn row = some x := by
  have hreads : (edgeScan py sourceId srcColumn).Reads (Axis.lineageEdges.spec py) :=
    .ofAxis rfl rfl rfl rfl (by decide : Verdict.confirmed ≠ .rejected ∧ Verdict.confirmed ≠ .proposed)
  have hasked : ∀ args args', (lineageEdges py).facts args = (lineageEdges py).facts args' →
      (edgeScan py sourceId srcColumn).asked args = (edgeScan py sourceId srcColumn).asked args' := by
    intro args args' h
    have htable := congrArg LineageEdge.srcTableId h
    have hcol := congrArg LineageEdge.srcColumn h
    simp only [lineageEdges] at htable hcol
    simp only [edgeScan, htable, hcol]
  rw [listConfirmedEdges, if_neg (not_or.mpr ⟨hsource, hcolumn⟩)]
  refine @keep_lists py .lineageEdges _ rows p company _ _ _ _ _ hreads rfl (fun k args args' h h' =>
    ⟨hids.edge k args args' h h', hasked _ _ (hids.edge k args args' h h')⟩) hp hcompany ?_ ?_ ?_
  · intro args row hdumped
    rw [hdumped.facts]
    simp only [edgeScan, Bool.and_eq_true, Val.isText_iff]
    rfl
  · intro row r hprop hdumped hask _ _
    have hfloat := floatOrSkip_proposed hp hprop (hform.edge _ _ hprop)
    simp only [edgeOf, hdumped.facts, hdumped.confidence, hdumped.strategy]
    simp only [edgeRecord, hfloat, Axis.spec, lineageEdges]
    cases nonemptyText (r.args.get "tgt_column") with
    | none => rfl
    | some t => rfl
  · intro id r x hx
    simp only [edgeRecord] at hx
    split at hx
    · cases Except.ok.inj hx
    · obtain ⟨c, -, hx⟩ := bind_eq_ok.mp hx
      cases c with
      | none => cases Except.ok.inj hx
      | some c => rw [← Option.some.inj (Except.ok.inj hx)]

theorem types_listed (hform : WellFormed py rows) (hids : DerivedIds py rows)
    (hcompany : ∀ e ∈ rows, e.companyId = company) (hp : projectionsOf py rows = .ok p)
    {tableId column : String} (htable : tableId ≠ "") (hcolumn : column ≠ "") :
    Lists ConfirmedSemanticTypeRecord.typeId (listConfirmedTypes py tableId column rows) fun x =>
      ∃ row ∈ p.axes .semanticTypes, row.state = .confirmed ∧
        (row.facts.tableId = tableId ∧ row.facts.column = column) ∧ some (typeOf row) = some x := by
  have hreads : (typeScan py tableId column).Reads (Axis.semanticTypes.spec py) :=
    .ofAxis rfl rfl rfl rfl (by decide : Verdict.confirmed ≠ .rejected ∧ Verdict.confirmed ≠ .proposed)
  have hkeys : ∀ k, OneKey py (typeScan py tableId column) (Axis.semanticTypes.spec py) k rows := by
    intro k args args' h h'
    obtain ⟨hsame, hcol⟩ := hids.type k args args' h h'
    simp only [typeScan, Axis.spec, semanticTypes, hsame, hcol]
    exact ⟨rfl, trivial⟩
  rw [listConfirmedTypes, if_neg (not_or.mpr ⟨htable, hcolumn⟩)]
  refine @keep_lists py .semanticTypes _ rows p company _ _ _ _ _ hreads rfl hkeys hp hcompany ?_ ?_ ?_
  · intro args row hdumped
    rw [hdumped.facts]
    simp only [typeScan, Bool.and_eq_true, decide_eq_true_eq]
    rfl
  · intro row r hprop hdumped _ _ _
    obtain ⟨hhas, s, hs, hne⟩ := hform.type _ _ hprop
    have hfloat := floatOrSkip_proposed hp hprop hhas
    have htext : nonemptyText (r.args.get "semantic_type") = some s := by
      rw [hs, nonemptyText, if_neg hne]
    have hsame : (r.args.get "semantic_type").text py = s := by rw [hs, Val.text_str]
    simp only [typeOf, hdumped.facts, hdumped.confidence, hdumped.strategy]
    simp only [typeRecord, htext, hfloat, Axis.spec, semanticTypes, hsame]
    rfl
  · intro id r x hx
    simp only [typeRecord] at hx
    split at hx
    · cases Except.ok.inj hx
    · obtain ⟨c, -, hx⟩ := bind_eq_ok.mp hx
      cases c with
      | none => cases Except.ok.inj hx
      | some c => rw [← Option.some.inj (Except.ok.inj hx)]

theorem classifications_listed (hform : WellFormed py rows) (hids : DerivedIds py rows)
    (hcompany : ∀ e ∈ rows, e.companyId = company) (hp : projectionsOf py rows = .ok p)
    {sourceId srcColumn : String} (hsource : sourceId ≠ "") (hcolumn : srcColumn ≠ "") :
    Lists ConfirmedClassificationRecord.classificationId
        (listConfirmedClassifications py sourceId srcColumn rows) fun x =>
      ∃ row ∈ p.axes .columnClassifications, row.state = .confirmed ∧
        (inSource sourceId row.facts.tableId = true ∧ row.facts.column = srcColumn) ∧
        classificationOf row = some x := by
  have hreads : (classificationScan py sourceId srcColumn).Reads (Axis.columnClassifications.spec py) :=
    .ofAxis rfl rfl rfl rfl (by decide : Verdict.confirmed ≠ .rejected ∧ Verdict.confirmed ≠ .proposed)
  have hkeys : ∀ k, OneKey py (classificationScan py sourceId srcColumn)
      (Axis.columnClassifications.spec py) k rows := by
    intro k args args' h h'
    obtain ⟨hsame, hcol⟩ := hids.classification k args args' h h'
    simp only [classificationScan, Axis.spec, columnClassifications, hsame, hcol]
    exact ⟨rfl, trivial⟩
  rw [listConfirmedClassifications, if_neg (not_or.mpr ⟨hsource, hcolumn⟩)]
  refine @keep_lists py .columnClassifications _ rows p company _ _ _ _ _ hreads rfl hkeys hp hcompany ?_ ?_ ?_
  · intro args row hdumped
    rw [hdumped.facts]
    simp only [classificationScan, Bool.and_eq_true, decide_eq_true_eq]
    rfl
  · intro row r hprop hdumped hask hstate hnoted
    obtain ⟨s, hs, hne⟩ := hform.classification _ _ hprop
    obtain ⟨by', hnote, hby⟩ := hnoted hstate
    have htext : nonemptyText (r.args.get "classification_level") = some s := by
      rw [hs, nonemptyText, if_neg hne]
    have hlevel : (r.args.get "classification_level").text py = s := by rw [hs, Val.text_str]
    have hcol : (r.args.get "column").text py = srcColumn := by
      simp only [classificationScan, Bool.and_eq_true, decide_eq_true_eq] at hask
      exact hask.2
    simp only [classificationOf, hdumped.facts, hby]
    simp only [classificationRecord, htext, hnote, Axis.spec, columnClassifications, hlevel, hcol]
    split
    · rfl
    · rfl
  · intro id r x hx
    simp only [classificationRecord] at hx
    split at hx
    · cases Except.ok.inj hx
    · split at hx
      · cases Except.ok.inj hx
      · rw [← Option.some.inj (Except.ok.inj hx)]

theorem columnText_of_text {v : Val} (h : v = .none ∨ ∃ s, v = .str s) : columnText py v = v.text? py := by
  rcases h with rfl | ⟨s, rfl⟩
  · rfl
  · by_cases hs : s = ""
    · subst hs
      rfl
    · simp [columnText, Val.text?, Val.truthy, Val.toStr, hs]

theorem drifts_listed (hform : WellFormed py rows) (hcompany : ∀ e ∈ rows, e.companyId = company)
    (hp : projectionsOf py rows = .ok p) :
    Lists AcknowledgedDriftRecord.driftId (listAcknowledgedDrifts py rows) fun x =>
      ∃ row ∈ p.axes .catalogDrifts, row.state = .acknowledged ∧
        ¬Reproposed py (catalogDrifts py) row.key rows ∧ some (driftOf row) = some x := by
  have hreads : driftScan.Reads (Axis.catalogDrifts.spec py) :=
    .ofAxis rfl rfl rfl rfl
      (by decide : Verdict.acknowledged ≠ .rejected ∧ Verdict.acknowledged ≠ .proposed)
  refine @startOver_lists py .catalogDrifts _ rows p company _ _ _ _ hreads rfl (fun _ => rfl)
    (fun _ _ => rfl) hp hcompany ?_ ?_
  · intro row r hprop hdumped hstate hnoted
    obtain ⟨hsource, htable, hkind, hcol⟩ := hform.drift _ _ hprop
    obtain ⟨by', hnote, hby⟩ := hnoted hstate
    simp only [driftOf, hdumped.facts, hby]
    simp only [materialise, hsource, htable, hkind, hnote, Axis.spec, catalogDrifts,
      columnText_of_text hcol]
    rfl
  · intro id r x hx
    simp only [materialise] at hx
    split at hx
    · cases Except.ok.inj hx
    · rw [← Option.some.inj (Except.ok.inj hx)]

theorem driftsFor_listed (hform : WellFormed py rows) (hcompany : ∀ e ∈ rows, e.companyId = company)
    (hp : projectionsOf py rows = .ok p) {sourceId : String} (hsource : sourceId ≠ "")
    (srcColumn : Option String) :
    Lists AcknowledgedDriftRecord.driftId (listAcknowledgedDriftsFor py sourceId srcColumn rows) fun x =>
      ∃ row ∈ p.axes .catalogDrifts, row.state = .acknowledged ∧
        ¬Reproposed py (catalogDrifts py) row.key rows ∧
        (row.facts.sourceId = sourceId ∧ row.facts.column = srcColumn) ∧ driftOf row = x := by
  obtain ⟨out, hout, hnodup, hmem⟩ := drifts_listed hform hcompany hp
  rw [listAcknowledgedDriftsFor, if_neg hsource, hout]
  refine ⟨_, rfl, hnodup.sublist (List.filter_sublist.map _), fun x => ?_⟩
  rw [List.mem_filter, hmem, Bool.and_eq_true, decide_eq_true_eq, decide_eq_true_eq]
  constructor
  · rintro ⟨⟨row, hrow, hstate, hlast, hx⟩, hfacts⟩
    obtain rfl := Option.some.inj hx
    exact ⟨row, hrow, hstate, hlast, hfacts, rfl⟩
  · rintro ⟨row, hrow, hstate, hlast, hfacts, rfl⟩
    exact ⟨⟨row, hrow, hstate, hlast, rfl⟩, hfacts⟩

end

/-! ### Runs of the readers -/

theorem Proposed.action {py : Interp} {F : Type} {spec : AxisSpec F} {k : String × String}
    {rows : List LedgerRow} {args : Dict} (h : Proposed py spec k rows args) :
    ∃ e ∈ rows, e.action = some (spec.proposeTool, args) := by
  obtain ⟨e, he, hprop⟩ := h
  unfold AxisSpec.proposal? at hprop
  split at hprop
  · rename_i tool args' hact
    split at hprop
    · rename_i hcond
      exact ⟨e, he, by rw [hact, hcond.1, Option.some.inj hprop]⟩
    · cases hprop
  · cases hprop

def sampleEdgeArgs (tgtColumn : Val) : Dict :=
  [(.str "edge_id", .str "e"), (.str "src_table_id", .str "crm.orders"), (.str "src_column", .str "total"),
    (.str "tgt_table_id", .str "lake.orders"), (.str "tgt_column", tgtColumn),
    (.str "confidence", .float (.finite false 1)), (.str "confirmed_by_person_id", .str "ana")]

def sampleDrift : Dict :=
  [(.str "drift_id", .str "d"), (.str "source_id", .str "crm"), (.str "table_id", .str "crm.orders"),
    (.str "column", .str "total"), (.str "drift_kind", .str "column_removed"),
    (.str "confidence", .float (.finite false 1)), (.str "acknowledged_by_person_id", .str "ana")]

/-- An edge and a drift, each proposed and decided. -/
def decidedLake (tgtColumn : Val) : List LedgerRow :=
  [executed 1 "emit_lineage_edge_proposed" (sampleEdgeArgs tgtColumn),
    executed 2 "emit_lineage_edge_confirmed" (sampleEdgeArgs tgtColumn),
    executed 3 "emit_catalog_drift_proposed" sampleDrift,
    executed 4 "emit_catalog_drift_acknowledged" sampleDrift]

theorem decidedLake_proposals {tgtColumn : Val} {tool : String} {args : Dict}
    (h : ∃ e ∈ decidedLake tgtColumn, e.action = some (tool, args)) :
    tool = "emit_lineage_edge_proposed" ∧ args = sampleEdgeArgs tgtColumn ∨
      tool = "emit_lineage_edge_confirmed" ∨
      tool = "emit_catalog_drift_proposed" ∧ args = sampleDrift ∨
      tool = "emit_catalog_drift_acknowledged" := by
  obtain ⟨e, he, hact⟩ := h
  simp only [decidedLake, List.mem_cons, List.not_mem_nil, or_false] at he
  rcases he with rfl | rfl | rfl | rfl
  all_goals obtain ⟨rfl, rfl⟩ := Prod.mk.inj (Option.some.inj hact)
  · exact .inl ⟨rfl, rfl⟩
  · exact .inr (.inl rfl)
  · exact .inr (.inr (.inl ⟨rfl, rfl⟩))
  · exact .inr (.inr (.inr rfl))

theorem decidedLake_entries (tgtColumn : Val) : ∀ e ∈ decidedLake tgtColumn, AxisEntry .plain e := by
  intro e he
  simp only [decidedLake, List.mem_cons, List.not_mem_nil, or_false] at he
  rcases he with rfl | rfl | rfl | rfl
  · exact ⟨_, rfl, rfl, fun _ => ⟨.lineageEdges, _, _, rfl, by decide, _, rfl⟩⟩
  · exact ⟨_, rfl, rfl, fun _ => ⟨.lineageEdges, _, _, rfl, by decide, _, rfl⟩⟩
  · exact ⟨_, rfl, rfl, fun _ => ⟨.catalogDrifts, _, _, rfl, by decide, _, rfl⟩⟩
  · exact ⟨_, rfl, rfl, fun _ => ⟨.catalogDrifts, _, _, rfl, by decide, _, rfl⟩⟩

theorem decidedLake_edge {k : String × String} {args : Dict}
    (h : Proposed .plain (lineageEdges .plain) k (decidedLake (.str "sum")) args) : args = sampleEdgeArgs (.str "sum") := by
  have := decidedLake_proposals h.action
  simpa [lineageEdges] using this

theorem decidedLake_drift {k : String × String} {args : Dict}
    (h : Proposed .plain (catalogDrifts .plain) k (decidedLake (.str "sum")) args) : args = sampleDrift := by
  have := decidedLake_proposals h.action
  simpa [catalogDrifts] using this

theorem decidedLake_type {k : String × String} {args : Dict} :
    ¬Proposed .plain (semanticTypes .plain) k (decidedLake (.str "sum")) args := fun h => by
  have := decidedLake_proposals h.action
  simp [semanticTypes] at this

theorem decidedLake_classification {k : String × String} {args : Dict} :
    ¬Proposed .plain (columnClassifications .plain) k (decidedLake (.str "sum")) args := fun h => by
  have := decidedLake_proposals h.action
  simp [columnClassifications] at this

theorem decidedLake_wellFormed : WellFormed .plain (decidedLake (.str "sum")) where
  edge k args h := by
    rw [decidedLake_edge h]
    rfl
  type k args h := absurd h decidedLake_type
  classification k args h := absurd h decidedLake_classification
  drift k args h := by
    rw [decidedLake_drift h]
    exact ⟨by decide, by decide, by decide, .inr ⟨"total", rfl⟩⟩

theorem decidedLake_derivedIds : DerivedIds .plain (decidedLake (.str "sum")) where
  edge k args args' h h' := by rw [decidedLake_edge h, decidedLake_edge h']
  type k args args' h := absurd h decidedLake_type
  classification k args args' h := absurd h decidedLake_classification

theorem decidedLake_company (tgtColumn : Val) : ∀ e ∈ decidedLake tgtColumn, e.companyId = ⟨0⟩ := by
  intro e he
  simp only [decidedLake, List.mem_cons, List.not_mem_nil, or_false] at he
  rcases he with rfl | rfl | rfl | rfl
  all_goals rfl

/-- The edge leads to a whole table, and the drift is proposed again. -/
def hiddenLake : List LedgerRow :=
  decidedLake .none ++ [executed 5 "emit_catalog_drift_proposed" sampleDrift]

theorem hiddenLake_entries : ∀ e ∈ hiddenLake, AxisEntry .plain e := by
  intro e he
  rcases List.mem_append.mp he with he | he
  · exact decidedLake_entries .none e he
  · obtain rfl := List.mem_singleton.mp he
    exact ⟨_, rfl, rfl, fun _ => ⟨.catalogDrifts, _, _, rfl, by decide, _, rfl⟩⟩

end Readers
