import Wormbase.Projection.Output
import Wormbase.WriteActions.Effects

/-! What the projections make of a suppression: the record has the tool of the call that was not made, so
    the fold runs that tool's branch, on the record's own args. -/

namespace WriteActions
open Py Projection

/-! ### The tools -/

/-- The tools that the write actions hand to `_pevr`. -/
def writeTools : List String := [
  "emit_person_proposed", "emit_person_confirmed", "emit_person_archived", "emit_position_proposed",
  "emit_position_confirmed", "emit_position_rejected", "emit_resource_role_proposed",
  "emit_identity_linked", "emit_identity_unlinked", "emit_role_assigned", "emit_domain_role_assigned",
  "emit_resource_role_assigned", "emit_role_revoked", "emit_install_completed", "emit_setup_mode_chosen",
  "emit_setup_completed", "emit_setup_step_advanced", "emit_mcp_call_received", "emit_kpi_proposed",
  "emit_decision_recorded", "emit_process_map_proposed", "emit_tenant_signup_initiated",
  "emit_tenant_signup_completed", "emit_agent_registered", "emit_agent_grant",
  "emit_agent_metadata_updated", "emit_external_catalog_imported", "emit_external_lineage_imported",
  "emit_external_metric_imported", "emit_catalog_table_imported", "emit_lineage_edge_confirmed",
  "emit_lineage_edge_rejected", "emit_quality_check_confirmed", "emit_quality_check_rejected",
  "emit_schema_impact_confirmed", "emit_schema_impact_rejected", "emit_semantic_type_confirmed",
  "emit_semantic_type_rejected", "emit_column_classification_confirmed",
  "emit_column_classification_rejected", "emit_entity_stitch_confirmed", "emit_entity_stitch_rejected",
  "emit_source_candidate_promoted", "emit_source_candidate_rejected", "emit_catalog_drift_acknowledged",
  "emit_catalog_drift_rejected", "emit_person_invited", "emit_concept_confirmed"]

/-- Those whose branch needs an argument that the record does not have. -/
def strictTools : List String := [
  "emit_person_proposed", "emit_person_confirmed", "emit_person_archived", "emit_position_proposed",
  "emit_position_rejected", "emit_resource_role_proposed", "emit_identity_linked",
  "emit_identity_unlinked", "emit_role_assigned", "emit_domain_role_assigned",
  "emit_resource_role_assigned", "emit_role_revoked", "emit_install_completed", "emit_setup_mode_chosen",
  "emit_setup_step_advanced", "emit_mcp_call_received", "emit_agent_registered", "emit_agent_grant",
  "emit_external_catalog_imported", "emit_external_lineage_imported", "emit_external_metric_imported"]

section
variable {py : Interp} {c : Pevr} {refId company : UUID} {n : ℕ} {st : Stamp} {s s' : State}

/-- A branch raises on the record whatever the part holds, or leaves the part as it is. -/
def Reacts (c : Pevr) (refId : UUID) {σ : Type} (tool : String) (run : Fold σ) : Prop :=
  (tool ∈ strictTools ∧ ∀ e t, ∃ x, run e (suppressedArgs c refId) t = .error x) ∨
    (tool ∉ strictTools ∧ ∀ e t, run e (suppressedArgs c refId) t = .ok t)

/-- A record without the id of an axis is none of its proposals and decisions. -/
theorem axis_reacts {F : Type} {spec : AxisSpec F} (hid : (suppressedArgs c refId).get spec.idArg = .none)
    (hstrict : ∀ h ∈ spec.handlers py, h.1 ∉ strictTools) :
    ∀ h ∈ spec.handlers py, Reacts c refId h.1 h.2 := by
  intro h hmem
  have htext : (Val.none).text py = "" := rfl
  refine .inr ⟨hstrict h hmem, fun e t => ?_⟩
  rcases List.mem_cons.mp hmem with rfl | hmem
  · simp only [applyProposal, hid, htext, if_true]
    rfl
  · obtain ⟨d, -, rfl⟩ := List.mem_map.mp hmem
    simp only [applyDecision, hid, htext, if_true]
    rfl

/-- No install has no tenant. -/
theorem updateTenant_none (f : Install → Install) (t : Installs) : updateTenant .none f t = t := by
  have hnone : ∀ r : (String × Key) × Install, onValue (fun inst =>
      if Val.none.isText inst.tenantId.str then f inst else inst) r = r := fun r => by
    simp [onValue, Val.isText]
  simp only [updateTenant, Table.mapRows, funext hnone, List.map_id']

/-- What every branch makes of the record. -/
theorem handlers_react (p : Part) : ∀ h ∈ p.handlers py, h.1 ∈ writeTools → Reacts c refId h.1 h.2 := by
  cases p with
  | axis a =>
    intro h hmem _
    refine axis_reacts ?_ (fun h hmem => ?_) h hmem
    · cases a <;> rfl
    · have htool : h.1 ∈ a.tools := axis_tools py a ▸ List.mem_map_of_mem hmem
      have hlenient : ∀ tool ∈ a.tools, tool ∉ strictTools := by cases a <;> decide
      exact hlenient h.1 htool
  | installs =>
    simp only [Part.handlers, List.forall_mem_cons]
    refine ⟨fun _ => .inl ⟨by decide, fun _ _ => ⟨_, rfl⟩⟩, fun hwrite => absurd hwrite (by decide),
      fun _ => .inl ⟨by decide, fun _ _ => ⟨_, rfl⟩⟩, fun _ => .inr ⟨by decide, fun e t => ?_⟩,
      fun _ h => absurd h List.not_mem_nil⟩
    have hrun : emitSetupCompleted e (suppressedArgs c refId) t = .ok (updateTenant .none _ t) := rfl
    rw [hrun, updateTenant_none]
  | catalogTables =>
    simp only [Part.handlers, List.forall_mem_cons]
    exact ⟨fun _ => .inr ⟨by decide, fun _ _ => rfl⟩, fun _ h => absurd h List.not_mem_nil⟩
  | _ =>
    simp only [Part.handlers, List.forall_mem_cons]
    and_intros <;> first
      | exact fun hwrite => absurd hwrite (by decide)
      | exact fun _ => .inl ⟨by decide, fun _ _ => ⟨_, rfl⟩⟩
      | exact fun _ h => absurd h List.not_mem_nil

/-! ### The rows of the record -/

/-- The execute row of the record. -/
def suppressedExecute (c : Pevr) (refId company : UUID) (n : ℕ) (st : Stamp) : LedgerRow :=
  ⟨st.executeId, company, n + 2, st.ts, "execute", .dict [(.str "propose_entry_id", .str st.proposeId.str),
    (.str "tool", .str c.tool), (.str "args", .dict (suppressedArgs c refId)),
    (.str "result_ref", .str refId.str)], st.hash 1⟩

theorem applyEntry_suppressed : applyEntry py s (suppressedExecute c refId company n st) =
    match (branches py).lookup c.tool with
    | some b => s.onPart b.part (b.run (suppressedExecute c refId company n st) (suppressedArgs c refId))
    | none => .ok s := by
  have henv : applyPevrEnvelope py (suppressedExecute c refId company n st) s = .ok s := rfl
  have hkind : (suppressedExecute c refId company n st).kind = "execute" := rfl
  rw [applyEntry, henv, hkind]
  rfl

/-- A strict tool has a branch. -/
theorem branch_of_strict (h : c.tool ∈ strictTools) : ∃ b, (branches py).lookup c.tool = some b := by
  have hbranch : ∀ tool ∈ strictTools, tool ∈ Part.all.flatMap Part.tools := by decide +kernel
  have hmem := hbranch c.tool h
  rw [← branches_fst py, List.mem_map] at hmem
  obtain ⟨⟨tool, b⟩, hb, htool⟩ := hmem
  obtain rfl : tool = c.tool := htool
  exact ⟨b, (lookup_iff_mem (branches_fst py ▸ tools_nodup)).mpr hb⟩

theorem branch_reacts {b : Branch} (hwrite : c.tool ∈ writeTools)
    (hlookup : (branches py).lookup c.tool = some b) : Reacts c refId c.tool b.run := by
  obtain ⟨p, run⟩ := b
  have hmem := (lookup_iff_mem (handlers_nodup py p)).mp ((lookup_branches py).mp hlookup)
  exact handlers_react p _ hmem hwrite

/-- A strict tool stops the fold. -/
theorem applyEntry_strict (hwrite : c.tool ∈ writeTools) (hstrict : c.tool ∈ strictTools) :
    ∃ x, applyEntry py s (suppressedExecute c refId company n st) = .error x := by
  obtain ⟨b, hlookup⟩ := @branch_of_strict py c hstrict
  obtain ⟨-, herror⟩ | ⟨hlenient, -⟩ := @branch_reacts py c refId b hwrite hlookup
  · obtain ⟨x, hx⟩ := herror (suppressedExecute c refId company n st) (s b.part)
    refine ⟨x, ?_⟩
    simp only [applyEntry_suppressed, hlookup, State.onPart, hx, bind, Except.bind]
  · exact absurd hstrict hlenient

/-- Any other leaves the state. -/
theorem applyEntry_lenient (hwrite : c.tool ∈ writeTools) (hlenient : c.tool ∉ strictTools) :
    applyEntry py s (suppressedExecute c refId company n st) = .ok s := by
  rw [applyEntry_suppressed]
  cases hlookup : (branches py).lookup c.tool with
  | none => rfl
  | some b =>
    obtain ⟨hstrict, -⟩ | ⟨-, hok⟩ := @branch_reacts py c refId b hwrite hlookup
    · exact absurd hstrict hlenient
    · simp only [State.onPart, hok, bind, Except.bind, pure, Except.pure, Function.update_eq_self]

/-- Both states hold the same domain rows: they may count differently. -/
def SameRows (s s' : State) : Prop := ∀ p : Part, p ≠ .counts → s' p = s p

/-- The four rows of a lenient record move the counts only. -/
theorem fold_lenient (hwrite : c.tool ∈ writeTools) (hlenient : c.tool ∉ strictTools) :
    ∃ s', foldEntries py s (suppressedRows c refId company n st) = .ok s' ∧ SameRows s s' := by
  obtain ⟨s₁, h₁, hsame₁⟩ := @applyEntry_scaffold py s ⟨st.proposeId, company, n + 1, st.ts, "propose",
    .dict [(.str "target_kind", .str "reply_suppressed"), (.str "ref_id", .str refId.str),
      (.str "reason", .str ("silent_mode suppressed mcp_write/" ++ c.tool)),
      (.str "proposed_by", .str "silent_mode")], st.hash 0⟩ _ rfl rfl (by simp)
  obtain ⟨s₃, h₃, hsame₃⟩ := @applyEntry_scaffold py s₁ ⟨st.verifyId, company, n + 3, st.ts, "verify",
    .dict [(.str "execute_entry_id", .str st.executeId.str),
      (.str "checks", .list [.dict [(.str "name", .str "suppressed_recorded"), (.str "ok", .bool true)]]),
      (.str "passed", .bool true)], st.hash 2⟩ _ rfl rfl (by simp)
  obtain ⟨s₄, h₄, hsame₄⟩ := @applyEntry_scaffold py s₃ ⟨st.resolveId, company, n + 4, st.ts, "resolve",
    .dict [(.str "verify_entry_id", .str st.verifyId.str), (.str "outcome", .str "keep"),
      (.str "rationale", .str "silent_mode listen-only")], st.hash 3⟩ _ rfl rfl (by simp)
  refine ⟨s₄, foldEntries_cons.mpr ⟨s₁, h₁, foldEntries_cons.mpr ⟨s₁, applyEntry_lenient hwrite hlenient,
    foldEntries_cons.mpr ⟨s₃, h₃, foldEntries_cons.mpr ⟨s₄, h₄, rfl⟩⟩⟩⟩, fun p hp => ?_⟩
  rw [hsame₄ p hp, hsame₃ p hp, hsame₁ p hp]

/-- Those of a strict one stop the fold. -/
theorem fold_strict (hwrite : c.tool ∈ writeTools) (hstrict : c.tool ∈ strictTools) :
    foldEntries py s (suppressedRows c refId company n st) ≠ .ok s' := by
  intro h
  obtain ⟨u, -, h⟩ := foldEntries_cons.mp h
  obtain ⟨v, hv, -⟩ := foldEntries_cons.mp h
  obtain ⟨x, hx⟩ := @applyEntry_strict py c refId company n st u hwrite hstrict
  cases hx.symm.trans hv

/-! ### The rows after the record -/

theorem SameRows.onPart {q : Part} {f : q.Carrier → Except Err q.Carrier} {u : State} (h : SameRows s s')
    (hq : q ≠ .counts) (hu : s.onPart q f = .ok u) : ∃ u', s'.onPart q f = .ok u' ∧ SameRows u u' := by
  obtain ⟨hf, hother⟩ := onPart_ok hu
  refine ⟨Function.update s' q (u q), ?_, fun p hp => ?_⟩
  · simp only [State.onPart, h q hq, hf, bind, Except.bind, pure, Except.pure]
  · by_cases hpq : p = q
    · subst hpq
      exact Function.update_self _ _ _
    · rw [Function.update_of_ne hpq, h p hp, hother p hpq]

theorem SameRows.envelope {e : LedgerRow} {u : State} (h : SameRows s s')
    (hu : applyPevrEnvelope py e s = .ok u) :
    ∃ u', applyPevrEnvelope py e s' = .ok u' ∧ SameRows u u' := by
  unfold applyPevrEnvelope at hu ⊢
  split at hu
  · rename_i payload hpayload
    cases hbranch : envelopeBranch py payload with
    | none =>
      simp only [hbranch] at hu ⊢
      obtain rfl := Except.ok.inj hu
      exact ⟨s', rfl, h⟩
    | some b =>
      simp only [hbranch] at hu ⊢
      refine h.onPart ?_ hu
      unfold envelopeBranch at hbranch
      split_ifs at hbranch <;> rw [← Option.some.inj hbranch] <;> simp
  · obtain rfl := Except.ok.inj hu
    exact ⟨s', rfl, h⟩

/-- No tool writes the counts. -/
theorem branch_part {tool : String} {b : Branch} (h : (branches py).lookup tool = some b) :
    b.part ≠ .counts := by
  obtain ⟨p, run⟩ := b
  rintro rfl
  have hhandler := (lookup_branches py).mp h
  cases hhandler

theorem SameRows.execute {e : LedgerRow} {u : State} (h : SameRows s s')
    (hu : applyExecute py e s = .ok u) : ∃ u', applyExecute py e s' = .ok u' ∧ SameRows u u' := by
  unfold applyExecute at hu ⊢
  split at hu
  · rename_i payload hpayload
    split at hu
    · rename_i tool htool
      split at hu
      · rename_i b hlookup
        split at hu
        · exact h.onPart (branch_part hlookup) hu
        · cases hu
      · obtain rfl := Except.ok.inj hu
        exact ⟨s', rfl, h⟩
    · obtain rfl := Except.ok.inj hu
      exact ⟨s', rfl, h⟩
  · cases hu

/-- A step does the same to both states. -/
theorem SameRows.step {e : LedgerRow} {u : State} (h : SameRows s s') (hu : applyEntry py s e = .ok u) :
    ∃ u', applyEntry py s' e = .ok u' ∧ SameRows u u' := by
  obtain ⟨v, hv, hu⟩ := bind_eq_ok.mp hu
  have henvelope : ∃ v', (if e.kind ∈ ["propose", "execute", "verify", "resolve"] then
      applyPevrEnvelope py e s' else .ok s') = .ok v' ∧ SameRows v v' := by
    split at hv
    · rename_i hkind
      rw [if_pos hkind]
      exact h.envelope hv
    · rename_i hkind
      rw [if_neg hkind]
      obtain rfl := Except.ok.inj hv
      exact ⟨s', rfl, h⟩
  obtain ⟨v', hv', hsame⟩ := henvelope
  unfold applyEntry
  rw [hv']
  simp only [bind, Except.bind]
  split at hu
  · rename_i hkind
    rw [if_pos hkind]
    exact hsame.execute hu
  · rename_i hkind
    rw [if_neg hkind]
    obtain ⟨-, hother⟩ := onPart_ok hu
    refine ⟨_, rfl, fun p hp => ?_⟩
    rw [Function.update_of_ne hp, hsame p hp, hother p hp]

theorem SameRows.fold : ∀ {es : List LedgerRow} {s s' u : State}, SameRows s s' →
    foldEntries py s es = .ok u → ∃ u', foldEntries py s' es = .ok u' ∧ SameRows u u'
  | [], s, s', u, h, hu => by
    obtain rfl := Except.ok.inj hu
    exact ⟨s', rfl, h⟩
  | e :: es, s, s', u, h, hu => by
    obtain ⟨v, hv, hu⟩ := foldEntries_cons.mp hu
    obtain ⟨v', hv', hsame⟩ := h.step hv
    obtain ⟨u', hu', hrows⟩ := SameRows.fold hsame hu
    exact ⟨u', foldEntries_cons.mpr ⟨v', hv', hu'⟩, hrows⟩

/-! ### What the projections show -/

/-- Every row of the one is a row of the other, table by table. The ramp is no table: it counts resolve
    rows, those of the record too. -/
structure NoNewRow (p p' : Projections) : Prop where
  sources : p'.sources ⊆ p.sources
  memory : p'.memory ⊆ p.memory
  kpiNodes : p'.kpiNodes ⊆ p.kpiNodes
  persons : p'.persons ⊆ p.persons
  personIdentities : p'.personIdentities ⊆ p.personIdentities
  installs : p'.installs ⊆ p.installs
  roles : p'.roles ⊆ p.roles
  dataProducts : p'.dataProducts ⊆ p.dataProducts
  dataProductRuns : p'.dataProductRuns ⊆ p.dataProductRuns
  dataProductConsumption : p'.dataProductConsumption ⊆ p.dataProductConsumption
  notebooks : p'.notebooks ⊆ p.notebooks
  notebookRuns : p'.notebookRuns ⊆ p.notebookRuns
  setupProgress : p'.setupProgress ⊆ p.setupProgress
  mcpCalls : p'.mcpCalls ⊆ p.mcpCalls
  topics : p'.topics ⊆ p.topics
  externalCatalog : p'.externalCatalog ⊆ p.externalCatalog
  externalLineage : p'.externalLineage ⊆ p.externalLineage
  externalPolicy : p'.externalPolicy ⊆ p.externalPolicy
  externalMetric : p'.externalMetric ⊆ p.externalMetric
  agents : p'.agents ⊆ p.agents
  agentGrants : p'.agentGrants ⊆ p.agentGrants
  agentQueries : p'.agentQueries ⊆ p.agentQueries
  credentials : p'.credentials ⊆ p.credentials
  queryOutcomes : p'.queryOutcomes ⊆ p.queryOutcomes
  queryTemplates : p'.queryTemplates ⊆ p.queryTemplates
  axes : ∀ a, p'.axes a ⊆ p.axes a
  catalogTables : p'.catalogTables ⊆ p.catalogTables

/-- One state and its projections, another with the same rows: the same projections but for the ramp. -/
theorem SameRows.projections {p : Projections} (h : SameRows s s') (hp : stateToProjections py s = .ok p) :
    stateToProjections py s' = .ok { p with ramp := recomputeRamp s' } := by
  obtain ⟨kpi, hkpi, hp⟩ := bind_eq_ok.mp hp
  obtain ⟨installs, hinstalls, hp⟩ := bind_eq_ok.mp hp
  obtain rfl := Except.ok.inj hp
  have haxis : ∀ a, s' (.axis a) = s (.axis a) := fun a => h (.axis a) (by simp)
  simp only [stateToProjections, h .sources (by simp), h .memory (by simp), h .kpiNodes (by simp),
    h .people (by simp), h .installs (by simp), h .setupProgress (by simp), h .roles (by simp),
    h .dataProducts (by simp), h .notebooks (by simp), h .mcpCalls (by simp), h .topics (by simp),
    h .externalCatalog (by simp), h .externalLineage (by simp), h .externalPolicy (by simp),
    h .externalMetric (by simp), h .catalogTables (by simp), h .agents (by simp), h .agentGrants (by simp),
    h .agentQueries (by simp), h .credentials (by simp), h .queryOutcomes (by simp),
    h .queryTemplates (by simp), haxis, hkpi, hinstalls, bind, Except.bind, pure, Except.pure]

/-- Folding the ledger with the record raises nothing and shows no row that is not there without it. -/
def Unnoticed (py : Interp) (pre record post : List LedgerRow) (p : Projections) : Prop :=
  ∃ p', projectionsOf py (pre ++ record ++ post) = .ok p' ∧ NoNewRow p p'

/-- Where the ledger folds without the record, the record goes unnoticed as long as its tool is lenient. -/
theorem unnoticed_iff {pre post : List LedgerRow} {p : Projections} (hwrite : c.tool ∈ writeTools)
    (hbase : projectionsOf py (pre ++ post) = .ok p) :
    Unnoticed py pre (suppressedRows c refId company n st) post p ↔ c.tool ∉ strictTools := by
  obtain ⟨u, hu, hp⟩ := projectionsOf_ok hbase
  obtain ⟨v, hpre, hpost⟩ := foldEntries_append.mp hu
  constructor
  · rintro ⟨p', hp', -⟩ hstrict
    obtain ⟨w, hw, -⟩ := projectionsOf_ok hp'
    obtain ⟨x, hx, -⟩ := foldEntries_append.mp hw
    obtain ⟨y, -, hy⟩ := foldEntries_append.mp hx
    exact fold_strict hwrite hstrict hy
  · intro hlenient
    obtain ⟨w, hw, hsame⟩ := @fold_lenient py c refId company n st v hwrite hlenient
    obtain ⟨u', hu', hrows⟩ := hsame.fold hpost
    have hfold : foldEntries py initialProjectionState
        (pre ++ suppressedRows c refId company n st ++ post) = .ok u' :=
      foldEntries_append.mpr ⟨w, foldEntries_append.mpr ⟨v, hpre, hw⟩, hu'⟩
    refine ⟨_, bind_eq_ok.mpr ⟨u', hfold, hrows.projections hp⟩, ?_⟩
    constructor <;> intros <;> exact List.Subset.refl _

end

/-- `complete_setup`, with the instant as text. -/
def completeSetup (tenantId : UUID) (completedAt : String) : Pevr where
  targetKind := "setup_completed"
  refId := tenantId
  reason := "setup completed"
  proposedBy := "setup-orchestrator"
  tool := "emit_setup_completed"
  args := [(.str "tenant_id", .str tenantId.str), (.str "completed_at", .str completedAt)]
  resultRef := tenantId.str
  rationale := "setup completed via dashboard API or bot loop"

theorem empty_projects (py : Interp) : ∃ p, projectionsOf py ([] ++ []) = .ok p := ⟨_, rfl⟩

theorem setup_unnoticed : ∃ p, Unnoticed .plain []
    (suppressedRows (completeSetup ⟨1⟩ "2026-05-18T09:00:00Z") ⟨7⟩ ⟨1⟩ 0 instantStamp) [] p := by
  obtain ⟨p, hp⟩ := empty_projects .plain
  exact ⟨p, (unnoticed_iff (c := completeSetup ⟨1⟩ "2026-05-18T09:00:00Z") (by decide) hp).mpr (by decide)⟩

theorem suppressedPerson_raises : ¬∀ (py : Interp) (c : Pevr) (refId company : UUID) (n : ℕ) (st : Stamp)
    (pre post : List LedgerRow) (p : Projections), c.tool ∈ writeTools →
    projectionsOf py (pre ++ post) = .ok p →
    Unnoticed py pre (suppressedRows c refId company n st) post p := by
  intro h
  obtain ⟨p, hp⟩ := empty_projects .plain
  obtain ⟨p', hp', -⟩ := h .plain (archivePerson ⟨1⟩ ⟨2⟩ "left") ⟨7⟩ ⟨1⟩ 0 instantStamp [] [] p (by decide) hp
  obtain ⟨s, hs, -⟩ := projectionsOf_ok hp'
  rw [List.nil_append, List.append_nil] at hs
  exact fold_strict (by decide) (by decide) hs

end WriteActions
