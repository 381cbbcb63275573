import Wormbase.Projection.Parts
import Wormbase.Projection.Tables
import Wormbase.Lib.Run

/-! Which ledgers keep the primary keys and unique constraints of the projection tables.

    For each table, `Fits` says on the state before an entry and on the entry's args what the table
    asks of it. An entry that fits keeps a lawful table lawful, and one that does not breaks it. -/

namespace Projection
open Py

/-! ### Rows of a state -/

/-- The rows of a table as the state holds them, before they are sorted. -/
def SqlTable.stateRows (company : UUID) (asOf : DateTime) (s : State) : (t : SqlTable) → List t.Row
  | sources => (s .sources).rows.map fun p => ⟨company, p.2⟩
  | memory => (s .memory).map (Owned.mk company)
  | kpiNodes => (s .kpiNodes).rows.map fun p => kpiNodeRow company p.2
  | ramp => rampEntries company asOf (recomputeRamp s)
  | persons => (s .people).persons.rows.map Prod.snd
  | personIdentities => (s .people).identities.rows.map Prod.snd
  | installs => (s .installs).rows.map Prod.snd
  | setupProgress => (s .setupProgress).rows
  | roles => (s .roles).rows
  | dataProducts => (s .dataProducts).products.rows.map Prod.snd
  | dataProductRuns => (s .dataProducts).runs.rows
  | dataProductConsumption => (s .dataProducts).consumption.rows
  | notebooks => (s .notebooks).notebooks.rows.map fun p => { p.2 with cells := [] }
  | notebookRuns => (s .notebooks).runs.rows
  | mcpCalls => (s .mcpCalls).rows.map Prod.snd
  | topics => (s .topics).rows.map fun p => ⟨company, p.2⟩
  | externalCatalog => (s .externalCatalog).rows
  | externalLineage => (s .externalLineage).rows
  | externalPolicy => (s .externalPolicy).rows
  | externalMetric => (s .externalMetric).rows
  | agents => (s .agents).rows
  | agentGrants => (s .agentGrants).rows
  | agentQueries => (s .agentQueries).rows
  | credentials => (s .credentials).rows.rows
  | queryOutcomes => (s .queryOutcomes).rows
  | queryTemplates => (s .queryTemplates).rows
  | axis a => (s (.axis a)).rows
  | catalogTables => (s .catalogTables).rows

section
variable {py : Interp} {company : UUID} {asOf : DateTime} {s s' : State} {p : Projections}

theorem sortKpiNodes_perm {nodes : KpiNodes} {ns : List Dict} (h : sortKpiNodes nodes = .ok ns) :
    ns.Perm (nodes.rows.map Prod.snd) := by
  unfold sortKpiNodes at h
  split at h
  · rw [← Except.ok.inj h]
    exact (List.perm_insertionSort _ _).map Prod.snd
  · cases h

theorem sortInstalls_perm {installs : Installs} {xs : List Install}
    (h : sortInstalls installs = .ok xs) : xs.Perm (installs.rows.map Prod.snd) := by
  simp only [sortInstalls] at h
  split at h
  · rw [← Except.ok.inj h]
    exact (List.perm_insertionSort _ _).map Prod.snd
  · cases h

theorem sortedValues_map_perm {κ ρ σ : Type} (key : κ → List String) (t : Dictionary κ ρ)
    (f : ρ → σ) : ((sortedValues key t).map f).Perm (t.rows.map fun p => f p.2) := by
  have h := (sortedValues_perm key t).map f
  rwa [List.map_map] at h

/-- Sorting is all that happens between the state and the rows. -/
theorem rows_perm (h : stateToProjections py s = .ok p) (t : SqlTable) :
    (t.rows company asOf p).Perm (t.stateRows company asOf s) := by
  obtain ⟨ns, hns, h⟩ := bind_eq_ok.mp h
  obtain ⟨xs, hxs, h⟩ := bind_eq_ok.mp h
  obtain rfl := Except.ok.inj h
  cases t with
  | sources => exact sortedValues_map_perm (fun k => [k]) (s .sources) (Owned.mk company)
  | memory => exact (sortRows_perm _ (s .memory)).map _
  | kpiNodes => exact (List.map_map ▸ (sortKpiNodes_perm hns).map (kpiNodeRow company) :)
  | ramp => exact .refl _
  | installs => exact sortInstalls_perm hxs
  | topics => exact sortedValues_map_perm (fun k => [k]) (s .topics) (Owned.mk company)
  | notebooks => exact sortedValues_map_perm (fun k => [k]) (s .notebooks).notebooks _
  | persons => exact sortedValues_perm (fun k => [k]) (s .people).persons
  | personIdentities => exact sortedValues_perm (fun k => [k.1, k.2.1, k.2.2]) (s .people).identities
  | dataProducts => exact sortedValues_perm (fun k => [k]) (s .dataProducts).products
  | mcpCalls => exact sortedValues_perm (fun k => [k]) (s .mcpCalls)
  | _ => exact sortRows_perm _ _

def State.Lawful (company : UUID) (asOf : DateTime) (s : State) : Prop :=
  ∀ t : SqlTable, t.Lawful (t.stateRows company asOf s)

theorem lawful_rows (hs : s.Lawful company asOf) (h : stateToProjections py s = .ok p)
    (t : SqlTable) : t.Lawful (t.rows company asOf p) :=
  fun c hc => (hs t c hc).perm (rows_perm h t).symm

end

/-! ### What a table asks of an entry -/

/-- If the entry calls the tool, its args meet `P`. -/
def LedgerRow.Calls (e : LedgerRow) (tool : String) (P : Dict → Prop) : Prop :=
  ∀ args, e.action = some (tool, args) → P args

/-- No row under another key has the UUID that `v` spells. -/
def OneSpelling {ρ : Type} (id : ρ → UUID) (t : Dictionary String ρ) (v : Val) : Prop :=
  ∀ p ∈ t.rows, v ≠ .str p.1 → v.toUUID ≠ .ok (id p.2)

section
variable (py : Interp)

/-- If no row has the key of an identity, none has its row id or its unique columns. -/
def IdentityFits (identities : Dictionary IdentityKey Identity) (tid : String) (tenant : UUID)
    (platform userId : String) : Prop :=
  identities.get? (tid, platform, userId) = none → ∀ p ∈ identities.rows,
    identityUuid py [.str tid, .str platform, .str userId] ≠ .ok p.2.identityId ∧
      (p.2.tenantId, p.2.platform, p.2.platformUserId) ≠ (tenant, platform, userId)

def SqlTable.Fits (s : State) (e : LedgerRow) : SqlTable → Prop
  | sources => e.Calls "emit_source_proposed" fun args =>
      OneSpelling Source.sourceId (s .sources) (args.get "source_id")
  | memory => e.Calls "emit_memory_written" fun args =>
      ∀ m ∈ s .memory, (args.get "memory_id").toUUID ≠ .ok m.memoryId
  | kpiNodes => e.Calls "emit_kpi_node" fun args =>
      ∃ node, kpiNodeId args = .str node ∧
        ∀ p ∈ (s .kpiNodes).rows, (args.get "id").hash ≠ .ok p.1 → kpiNodeId p.2 ≠ .str node
  | persons => e.Calls "emit_person_proposed" fun args =>
      OneSpelling Person.personId (s .people).persons (args.get "person_id")
  | personIdentities =>
      (e.Calls "emit_person_proposed" fun args => ∀ tid tenant platform userId,
        args.get "tenant_id" = .str tid → (args.get "tenant_id").toUUID = .ok tenant →
          args.get "platform" = .str platform → args.get "platform_user_id" = .str userId →
            platform ≠ "" → userId ≠ "" →
              IdentityFits py (s .people).identities tid tenant platform userId) ∧
      e.Calls "emit_identity_linked" fun args => ∀ platform userId,
        args.get "platform" = .str platform → args.get "platform_user_id" = .str userId →
          IdentityFits py (s .people).identities e.company e.companyId platform userId
  | installs => e.Calls "emit_install_completed" fun args =>
      ∃ platform, args.get "platform" = .str platform ∧ ∀ p ∈ (s .installs).rows,
        ¬(args.get "tenant_id" = .str p.1.1 ∧ p.1.2 = .str platform) →
          (args.get "install_id").toUUID ≠ .ok p.2.installId ∧
            ((args.get "tenant_id").toUUID = .ok p.2.tenantId → p.2.platform ≠ .str platform)
  | dataProducts => e.Calls "emit_data_product_proposed" fun args =>
      OneSpelling DataProduct.dataProductId (s .dataProducts).products (args.get "data_product_id")
  | notebooks => e.Calls "emit_notebook_proposed" fun args =>
      OneSpelling Notebook.notebookId (s .notebooks).notebooks (args.get "notebook_id")
  | mcpCalls => e.Calls "emit_mcp_call_received" fun args =>
      OneSpelling McpCall.mcpCallId (s .mcpCalls) (args.get "mcp_call_id")
  | topics => e.Calls "emit_topic_proposed" fun args =>
      (∀ p ∈ (s .topics).rows, args.get "topic_id" ≠ .str p.1) →
        OneSpelling Topic.topicId (s .topics) (args.get "topic_id")
  | externalPolicy => e.Calls "emit_external_policy_imported" fun args =>
      ∀ r ∈ (s .externalPolicy).rows, externalPolicyUuid py
          [.str e.company, args.get "source_id", args.get "policy_fqn"] ≠ .ok r.id →
        (args.get "source_id").toUUID = .ok r.sourceId → args.get "policy_fqn" ≠ .str r.policyFqn
  | externalMetric => e.Calls "emit_external_metric_imported" fun args =>
      ∀ r ∈ (s .externalMetric).rows, externalMetricUuid py
          [.str e.company, args.get "source_id", args.get "name"] ≠ .ok r.id →
        (args.get "source_id").toUUID = .ok r.sourceId → args.get "name" ≠ .str r.name
  | agents => e.Calls "emit_agent_registered" fun args =>
      ∃ agent person, args.get "agent_id" = .str agent ∧ args.get "person_id" = .str person ∧
        ∀ r ∈ (s .agents).rows, r.id ≠ .str agent → r.personId ≠ .str person
  | agentGrants => e.Calls "emit_agent_grant" fun args =>
      ∀ r ∈ (s .agentGrants).rows, agentGrantUuid py
          [(args.get "company_id").or (.str e.company), args.get "agent_id", args.get "grant_kind",
            args.get "grant_target"] ≠ .ok r.id →
        ¬(args.get "agent_id" = .str r.agentId ∧ args.get "grant_kind" = .str r.grantKind ∧
          args.get "grant_target" = .str r.grantTarget)
  | agentQueries => ∀ payload, e.payload = .dict payload →
      e.kind ∈ ["propose", "execute", "verify", "resolve"] → isAgentQueryPayload payload = true →
        ∃ id, Dict.get payload "audit_trail_id" = .str id
  | _ => True

end

/-! ### One step -/

section
variable {py : Interp} {e : LedgerRow} {tool : String} {args : Dict}

theorem calls_iff (h : e.action = some (tool, args)) {tool' : String} {P : Dict → Prop} :
    e.Calls tool' P ↔ (tool = tool' → P args) := by
  simp only [LedgerRow.Calls, h, Option.some.injEq, Prod.mk.injEq]
  constructor
  · intro hall heq
    exact hall args ⟨heq, rfl⟩
  · rintro hP args' ⟨heq, rfl⟩
    exact hP heq

theorem calls_of_none (h : e.action = none) (tool : String) (P : Dict → Prop) : e.Calls tool P := by
  intro args hargs
  rw [h] at hargs
  cases hargs

/-- An entry leaves a plain part alone, or one of its handlers runs. -/
theorem stepAt_cases {p : Part} (hp : p ∉ [.agentQueries, .credentials, .queryTemplates, .counts])
    {t t' : p.Carrier} (h : stepAt py p t e = .ok t') :
    (t' = t ∧ ∀ tool ∈ p.tools, ∀ P, e.Calls tool P) ∨
      ∃ tool args run, e.action = some (tool, args) ∧ (tool, run) ∈ p.handlers py ∧
        run e args t = .ok t' := by
  rw [stepAt_plain hp, actAt] at h
  cases hact : e.action with
  | none =>
    rw [hact] at h
    exact .inl ⟨(Except.ok.inj h).symm, fun tool _ => calls_of_none hact tool⟩
  | some call =>
    obtain ⟨tool, args⟩ := call
    rw [hact] at h
    simp only at h
    cases hrun : (p.handlers py).lookup tool with
    | none =>
      rw [hrun] at h
      refine .inl ⟨(Except.ok.inj h).symm, fun tool' htool' P => (calls_iff hact).mpr ?_⟩
      rintro rfl
      rw [← part_tools py] at htool'
      obtain ⟨⟨_, run⟩, hmem, rfl⟩ := List.mem_map.mp htool'
      rw [(lookup_iff_mem (handlers_nodup py p)).mpr hmem] at hrun
      cases hrun
    | some run =>
      rw [hrun] at h
      exact .inr ⟨tool, args, run, rfl, (lookup_iff_mem (handlers_nodup py p)).mp hrun, h⟩

end

/-! ### Tables over dicts -/

section
variable {ρ κ : Type} {key : ρ → κ} {tbl : Table key} {t : SqlTable} {f : ρ → t.Row}

/-- The constraints of an SQL table on the rows of the state that it is made from. -/
def SqlTable.over (t : SqlTable) (f : ρ → t.Row) : List (Constraint ρ (List Cell)) :=
  t.constraints.map (Constraint.comap f)

theorem lawful_iff : t.Lawful (tbl.rows.map f) ↔ tbl.Satisfies (t.over f) := by
  simp only [SqlTable.Lawful, Table.Satisfies, SqlTable.over, List.forall_mem_map,
    Constraint.holds_comap]

theorem lawful_put [DecidableEq κ] (h : t.Lawful (tbl.rows.map f)) {r : ρ} :
    t.Lawful ((tbl.put r).rows.map f) ↔ ∀ c ∈ t.constraints,
      (c.required = true → c.columns (f r) ≠ none) ∧ ∀ y ∈ tbl.rows, key y ≠ key r →
        c.columns (f y) = c.columns (f r) → c.columns (f r) = none := by
  rw [lawful_iff, Table.satisfies_put (lawful_iff.mp h)]
  simp only [Table.Admits, SqlTable.over, List.forall_mem_map, Constraint.comap]

end

section
variable {ρ : Type} {tbl tbl' : Dictionary String ρ} {t : SqlTable} {f : String × ρ → t.Row}

/-- Changes that keep the constrained columns keep the constraints. -/
theorem lawful_updates {Keeps : ρ → ρ → Prop} (h : Updates Keeps tbl tbl')
    (hlaw : t.Lawful (tbl.rows.map f))
    (hkeeps : ∀ s r r', Keeps r r' → ∀ c ∈ t.constraints,
      c.columns (f (s, r')) = c.columns (f (s, r))) : t.Lawful (tbl'.rows.map f) := by
  rcases h with rfl | ⟨s, r, r', hget, hr', rfl⟩
  · exact hlaw
  · refine lawful_iff.mpr ((lawful_iff.mp hlaw).put_of_get? hget ?_)
    simp only [SqlTable.over, List.forall_mem_map, Constraint.comap]
    exact hkeeps s r r' hr'

/-- A row that is put under the text of its UUID. -/
theorem lawful_put_uuid {id : ρ → UUID} {name : UUID → List Cell} {c : Constraint t.Row (List Cell)}
    (hcs : t.constraints = [c]) (hname : Function.Injective name)
    (hcols : ∀ p, c.columns (f p) = some (name (id p.2))) (hlaw : t.Lawful (tbl.rows.map f))
    {v : Val} {s : String} {r : ρ} (hv : v = .str s) (hid : v.toUUID = .ok (id r)) :
    t.Lawful ((tbl.put (s, r)).rows.map f) ↔ OneSpelling id tbl v := by
  subst hv
  rw [lawful_put hlaw, hcs]
  simp only [List.mem_singleton, forall_eq, hcols, reduceCtorEq, ne_eq, not_false_eq_true,
    implies_true, true_and, OneSpelling, hid, Option.some.injEq, Except.ok.injEq, Val.str.injEq]
  constructor
  · intro h p hp hne heq
    exact h p hp (fun hs => hne hs.symm) (congrArg name heq.symm)
  · intro h p hp hne heq
    exact h p hp (fun hs => hne hs.symm) (hname heq).symm

end

/-! ### Tables that are keyed by their primary key -/

theorem uuid_cell_injective : Function.Injective fun u : UUID => [Cell.uuid u] := by
  intro u v h
  simpa using h

theorem text_cell_injective : Function.Injective fun s : String => [Cell.text s] := by
  intro s t h
  simpa using h

theorem owned_cell_injective (company : UUID) :
    Function.Injective fun u : UUID => [Cell.uuid company, Cell.uuid u] := by
  intro u v h
  simpa using h

/-- A table whose constraint spells out the key that its rows are kept under. -/
theorem lawful_keyed {κ : Type} {t : SqlTable} {key : t.Row → κ} {name : κ → List Cell}
    (hname : Function.Injective name)
    (hcs : t.constraints = [unique fun r => some (name (key r))]) (tbl : Table key) :
    t.Lawful tbl.rows := by
  intro c hc
  rw [hcs, List.mem_singleton] at hc
  subst hc
  exact Table.holds_of_key hname (fun _ => rfl) tbl

theorem ramp_lawful (company : UUID) (asOf : DateTime) (s : State) :
    SqlTable.Lawful .ramp (rampEntries company asOf (recomputeRamp s)) := by
  intro c hc
  obtain rfl := List.mem_singleton.mp hc
  refine ⟨fun _ _ _ => by simp [unique], ?_⟩
  simp [recomputeRamp, rampEntries, unique]

/-! ### The step of each table -/

section
variable {py : Interp} {company : UUID} {asOf : DateTime} {s s' : State} {e : LedgerRow}

/-- The table stays lawful exactly if the entry fits it. -/
def StepLaw (py : Interp) (company : UUID) (asOf : DateTime) (s s' : State) (e : LedgerRow)
    (t : SqlTable) : Prop :=
  t.Lawful (t.stateRows company asOf s) →
    (t.Lawful (t.stateRows company asOf s') ↔ t.Fits py s e)

theorem sources_step (h : stepAt py .sources (s .sources) e = .ok (s' .sources)) :
    StepLaw py company asOf s s' e .sources := by
  intro hlaw
  simp only [SqlTable.stateRows, SqlTable.Fits] at hlaw ⊢
  rcases stepAt_cases (by decide) h with ⟨heq, hcalls⟩ | ⟨tool, args, run, hact, hmem, hrun⟩
  · rw [heq]
    exact iff_of_true hlaw (hcalls _ (by decide) _)
  · rw [calls_iff hact]
    simp only [Part.handlers, List.mem_cons, Prod.mk.injEq, List.not_mem_nil, or_false] at hmem
    have hkeeps : Updates (fun r r' => r'.sourceId = r.sourceId) (s .sources) (s' .sources) →
        SqlTable.Lawful .sources ((s' .sources).rows.map fun p => ⟨company, p.2⟩) := by
      intro hupd
      refine lawful_updates hupd hlaw fun k r r' hr c hc => ?_
      obtain rfl := List.mem_singleton.mp hc
      simp [unique, hr]
    rcases hmem with ⟨rfl, rfl⟩ | ⟨rfl, rfl⟩ | ⟨rfl, rfl⟩ | ⟨rfl, rfl⟩
    · obtain ⟨sid, r, hsid, hid, heq⟩ := emitSourceProposed_ok hrun
      rw [heq, lawful_put_uuid rfl (owned_cell_injective company) (fun _ => rfl) hlaw hsid hid]
      simp
    · exact iff_of_true (hkeeps (emitSourceConfirmed_ok hrun)) (by simp)
    · exact iff_of_true (hkeeps (sourceReaches_ok hrun)) (by simp)
    · exact iff_of_true (hkeeps (sourceReaches_ok hrun)) (by simp)

theorem memory_step (h : stepAt py .memory (s .memory) e = .ok (s' .memory)) :
    StepLaw py company asOf s s' e .memory := by
  intro hlaw
  simp only [SqlTable.stateRows, SqlTable.Fits] at hlaw ⊢
  rcases stepAt_cases (by decide) h with ⟨heq, hcalls⟩ | ⟨tool, args, run, hact, hmem, hrun⟩
  · rw [heq]
    exact iff_of_true hlaw (hcalls _ (by decide) _)
  · rw [calls_iff hact]
    simp only [Part.handlers, List.mem_cons, Prod.mk.injEq, List.not_mem_nil, or_false] at hmem
    obtain ⟨rfl, rfl⟩ := hmem
    obtain ⟨m, hm, heq⟩ := emitMemoryWritten_ok hrun
    have hc := hlaw _ (List.mem_singleton.mpr rfl)
    simp only [heq, List.map_append, List.map_cons, List.map_nil, SqlTable.Lawful,
      SqlTable.constraints, List.mem_singleton, forall_eq, Constraint.holds_append, hc, true_and,
      List.forall_mem_map, hm]
    simp [Constraint.Holds, unique, eq_comm]

theorem kpiNodes_step (h : stepAt py .kpiNodes (s .kpiNodes) e = .ok (s' .kpiNodes)) :
    StepLaw py company asOf s s' e .kpiNodes := by
  intro hlaw
  simp only [SqlTable.stateRows, SqlTable.Fits] at hlaw ⊢
  rcases stepAt_cases (by decide) h with ⟨heq, hcalls⟩ | ⟨tool, args, run, hact, hmem, hrun⟩
  · rw [heq]
    exact iff_of_true hlaw (hcalls _ (by decide) _)
  · rw [calls_iff hact]
    simp only [Part.handlers, List.mem_cons, Prod.mk.injEq, List.not_mem_nil, or_false] at hmem
    obtain ⟨rfl, rfl⟩ := hmem
    obtain ⟨key, hkey, heq⟩ := emitKpiNode_ok hrun
    rw [heq, lawful_put hlaw, hkey]
    simp only [SqlTable.constraints, List.mem_singleton, forall_eq, unique, kpiNodeRow, ne_eq,
      Option.map_eq_none_iff, true_implies]
    rw [← ne_eq, Cell.ofVal_ne_none]
    constructor
    · rintro ⟨⟨node, hnode⟩, hnew⟩
      refine ⟨node, hnode, fun p hp hne hpnode => ?_⟩
      have := hnew p hp (fun hk => hne (congrArg _ hk.symm)) (by rw [hpnode, hnode])
      simp [hnode] at this
    · rintro ⟨node, hnode, hnew⟩
      refine ⟨⟨node, hnode⟩, fun p hp hne heq => ?_⟩
      simp only [hnode, Cell.ofVal_str, Option.map_some, Option.map_eq_some_iff] at heq
      obtain ⟨c, hc, heq⟩ := heq
      obtain ⟨node', hnode', rfl⟩ := Cell.ofVal_eq_some.mp hc
      simp only [List.cons.injEq, Cell.text.injEq, true_and, and_true] at heq
      exact absurd (heq ▸ hnode') (hnew p hp fun hk => hne (Except.ok.inj hk).symm)

theorem persons_step (h : stepAt py .people (s .people) e = .ok (s' .people)) :
    StepLaw py company asOf s s' e .persons := by
  intro hlaw
  simp only [SqlTable.stateRows, SqlTable.Fits] at hlaw ⊢
  rcases stepAt_cases (by decide) h with ⟨heq, hcalls⟩ | ⟨tool, args, run, hact, hmem, hrun⟩
  · rw [heq]
    exact iff_of_true hlaw (hcalls _ (by decide) _)
  · rw [calls_iff hact]
    simp only [Part.handlers, List.mem_cons, Prod.mk.injEq, List.not_mem_nil, or_false] at hmem
    have hkeeps : (s .people).Revises Person.SameIds (s' .people) →
        SqlTable.Lawful .persons ((s' .people).persons.rows.map Prod.snd) := by
      rintro ⟨hupd, -⟩
      refine lawful_updates hupd hlaw fun k r r' hr c hc => ?_
      obtain rfl := List.mem_singleton.mp hc
      simp [unique, hr.1]
    rcases hmem with ⟨rfl, rfl⟩ | ⟨rfl, rfl⟩ | ⟨rfl, rfl⟩ | ⟨rfl, rfl⟩ | ⟨rfl, rfl⟩ | ⟨rfl, rfl⟩ |
      ⟨rfl, rfl⟩
    · obtain ⟨pid, tid, r, hpid, hid, -, -, -, heq, -⟩ := emitPersonProposed_ok py hrun
      rw [heq, lawful_put_uuid rfl uuid_cell_injective (fun _ => rfl) hlaw hpid hid]
      simp
    · exact iff_of_true (hkeeps (emitPersonConfirmed_ok hrun)) (by simp)
    · exact iff_of_true (hkeeps (emitPersonArchived_ok hrun)) (by simp)
    · obtain ⟨person, -, heq, -⟩ := emitIdentityLinked_ok py hrun
      exact iff_of_true (heq ▸ hlaw) (by simp)
    · exact iff_of_true ((emitIdentityUnlinked_ok hrun).1 ▸ hlaw) (by simp)
    · exact iff_of_true (hkeeps (emitPositionProposed_ok hrun)) (by simp)
    · exact iff_of_true (hkeeps (emitPositionRejected_ok hrun)) (by simp)

/-- An identity row that is put unless its key is there. -/
theorem lawful_putIdentity {t : Dictionary IdentityKey Identity} {tid : String} {r : Identity}
    (hlaw : SqlTable.Lawful .personIdentities (t.rows.map Prod.snd))
    (hid : identityUuid py [.str tid, .str r.platform, .str r.platformUserId] = .ok r.identityId) :
    SqlTable.Lawful .personIdentities
        ((t.putNew ((tid, r.platform, r.platformUserId), r)).rows.map Prod.snd) ↔
      IdentityFits py t tid r.tenantId r.platform r.platformUserId := by
  rw [lawful_iff, Table.satisfies_putNew (lawful_iff.mp hlaw), IdentityFits]
  refine imp_congr_right fun hget => ?_
  have hnew := Table.get?_eq_none_iff.mp hget
  simp only [Table.Admits, SqlTable.over, SqlTable.constraints, List.map_cons, List.map_nil,
    List.forall_mem_cons, Constraint.comap, unique, hid, Except.ok.injEq, Option.some.injEq,
    List.cons.injEq, Cell.uuid.injEq, Cell.text.injEq, and_true, reduceCtorEq, ne_eq,
    not_false_eq_true, implies_true, true_and, List.not_mem_nil, false_implies, Prod.mk.injEq,
    imp_false]
  constructor
  · rintro ⟨h₁, h₂⟩ p hp
    exact ⟨fun heq => h₁ p hp (hnew p hp) heq.symm, h₂ p hp (hnew p hp)⟩
  · intro hall
    exact ⟨fun p hp _ heq => (hall p hp).1 heq.symm, fun p hp _ heq => (hall p hp).2 heq⟩

theorem personIdentities_step (h : stepAt py .people (s .people) e = .ok (s' .people)) :
    StepLaw py company asOf s s' e .personIdentities := by
  intro hlaw
  simp only [SqlTable.stateRows, SqlTable.Fits] at hlaw ⊢
  rcases stepAt_cases (by decide) h with ⟨heq, hcalls⟩ | ⟨tool, args, run, hact, hmem, hrun⟩
  · rw [heq]
    exact iff_of_true hlaw ⟨hcalls _ (by decide) _, hcalls _ (by decide) _⟩
  · rw [calls_iff hact, calls_iff hact]
    simp only [Part.handlers, List.mem_cons, Prod.mk.injEq, List.not_mem_nil, or_false] at hmem
    rcases hmem with ⟨rfl, rfl⟩ | ⟨rfl, rfl⟩ | ⟨rfl, rfl⟩ | ⟨rfl, rfl⟩ | ⟨rfl, rfl⟩ | ⟨rfl, rfl⟩ |
      ⟨rfl, rfl⟩
    · obtain ⟨pid, tid, p, -, -, htid, htenant, -, -, hids⟩ := emitPersonProposed_ok py hrun
      simp only [true_implies, String.reduceEq, false_implies, and_true]
      split at hids
      · rename_i htruthy
        obtain ⟨r, hplatform, huser, hid, -, htenant', heq⟩ := addIdentity_ok py hids
        rw [hplatform, huser] at hid htruthy
        rw [heq, lawful_putIdentity hlaw hid, htid, hplatform, huser]
        simp only [Val.str.injEq]
        constructor
        · rintro hfits _ tenant _ _ rfl htenant'' rfl rfl - -
          obtain rfl : tenant = r.tenantId := by
            rw [htenant']
            rw [htid, htenant''] at htenant
            exact Except.ok.inj htenant
          exact hfits
        · intro hfits
          simp only [Val.truthy, decide_eq_true_eq] at htruthy
          refine hfits _ _ _ _ rfl ?_ rfl rfl htruthy.1 htruthy.2
          rw [htenant', ← htenant, htid]
      · rename_i htruthy
        refine iff_of_true (hids ▸ hlaw) ?_
        rintro tid' tenant platform userId - - hplatform huser hp hu
        exact absurd ⟨by simpa [hplatform, Val.truthy] using hp, by simpa [huser, Val.truthy] using hu⟩
          htruthy
    · exact iff_of_true ((emitPersonConfirmed_ok hrun).2 ▸ hlaw) (by simp)
    · exact iff_of_true ((emitPersonArchived_ok hrun).2 ▸ hlaw) (by simp)
    · obtain ⟨person, -, -, hids⟩ := emitIdentityLinked_ok py hrun
      obtain ⟨r, hplatform, huser, hid, -, htenant, heq⟩ := addIdentity_ok py hids
      rw [hplatform, huser] at hid
      rw [heq, lawful_putIdentity hlaw hid, hplatform, huser, htenant]
      simp only [String.reduceEq, false_implies, true_implies, true_and, Val.str.injEq]
      constructor
      · rintro hfits _ _ rfl rfl
        exact hfits
      · intro hfits
        exact hfits _ _ rfl rfl
    · refine iff_of_true ?_ (by simp)
      rcases (emitIdentityUnlinked_ok hrun).2 with ⟨platform, userId, -, -, heq⟩ | ⟨-, heq⟩
      · rw [heq]
        exact lawful_iff.mpr ((lawful_iff.mp hlaw).erase _)
      · rwa [heq]
    · exact iff_of_true ((emitPositionProposed_ok hrun).2 ▸ hlaw) (by simp)
    · exact iff_of_true ((emitPositionRejected_ok hrun).2 ▸ hlaw) (by simp)

/-- The constraints of installs look at three columns. -/
theorem install_columns {r r' : Install} (hid : r'.installId = r.installId)
    (htenant : r'.tenantId = r.tenantId) (hplatform : r'.platform = r.platform) :
    ∀ c ∈ SqlTable.installs.constraints, c.columns r' = c.columns r := by
  intro c hc
  simp only [SqlTable.constraints, List.mem_cons, List.not_mem_nil, or_false] at hc
  rcases hc with rfl | rfl
  · simp [unique, hid]
  · simp [unique, htenant, hplatform]

theorem installs_step (h : stepAt py .installs (s .installs) e = .ok (s' .installs)) :
    StepLaw py company asOf s s' e .installs := by
  intro hlaw
  simp only [SqlTable.stateRows, SqlTable.Fits] at hlaw ⊢
  rcases stepAt_cases (by decide) h with ⟨heq, hcalls⟩ | ⟨tool, args, run, hact, hmem, hrun⟩
  · rw [heq]
    exact iff_of_true hlaw (hcalls _ (by decide) _)
  · rw [calls_iff hact]
    simp only [Part.handlers, List.mem_cons, Prod.mk.injEq, List.not_mem_nil, or_false] at hmem
    have hsat := lawful_iff.mp hlaw
    have hmap : ∀ target f, (∀ r, (f r).installId = r.installId) → (∀ r, (f r).tenantId = r.tenantId) →
        (∀ r, (f r).platform = r.platform) →
          SqlTable.Lawful .installs ((updateTenant target f (s .installs)).rows.map Prod.snd) := by
      intro target f hid htenant hplatform
      refine lawful_iff.mpr (hsat.mapRows ?_)
      simp only [SqlTable.over, List.forall_mem_map, Constraint.comap, onValue]
      intro c hc p
      split
      · exact install_columns (hid _) (htenant _) (hplatform _) c hc
      · rfl
    rcases hmem with ⟨rfl, rfl⟩ | ⟨rfl, rfl⟩ | ⟨rfl, rfl⟩ | ⟨rfl, rfl⟩
    · obtain ⟨tid, key, r, htid, htenant, hplatform, hkey, hid, heq⟩ := emitInstallCompleted_ok hrun
      rw [heq, lawful_put hlaw, hplatform, hid, htenant, htid]
      simp only [SqlTable.constraints, unique, List.forall_mem_cons, List.not_mem_nil,
        false_implies, implies_true, and_true, true_implies, reduceCtorEq, ne_eq,
        not_false_eq_true, true_and, Option.map_eq_none_iff, Option.some.injEq, List.cons.injEq,
        Cell.uuid.injEq, Except.ok.injEq, Val.str.injEq, imp_false]
      rw [← ne_eq (Cell.ofVal r.platform), Cell.ofVal_ne_none]
      constructor
      · rintro ⟨hids, ⟨platform, hpf⟩, hpairs⟩
        refine ⟨platform, hpf, fun p hp hne => ?_⟩
        rw [hpf] at hkey
        have hkey : Key.str platform = key := Except.ok.inj hkey
        have hne' : ¬p.1 = (tid, key) := fun heq => hne ⟨by rw [heq], by rw [heq, ← hkey]⟩
        refine ⟨fun hi => hids p hp hne' hi.symm, fun ht hp' => ?_⟩
        have := hpairs p hp hne' (by rw [hp', hpf, ht])
        simp [hpf] at this
      · rintro ⟨platform, hpf, hall⟩
        rw [hpf] at hkey
        have hkey : Key.str platform = key := Except.ok.inj hkey
        have hne' : ∀ p : (String × Key) × Install, ¬p.1 = (tid, key) →
            ¬(tid = p.1.1 ∧ p.1.2 = Key.str platform) := fun p hne heq =>
          hne (Prod.ext heq.1.symm (heq.2.trans hkey))
        refine ⟨fun p hp hne hi => (hall p hp (hne' p hne)).1 hi.symm, ⟨platform, hpf⟩,
          fun p hp hne heq => ?_⟩
        simp only [hpf, Cell.ofVal_str, Option.map_some, Option.map_eq_some_iff] at heq
        obtain ⟨c, hc, heq⟩ := heq
        obtain ⟨platform', hpf', rfl⟩ := Cell.ofVal_eq_some.mp hc
        simp only [List.cons.injEq, Cell.uuid.injEq, Cell.text.injEq, and_true] at heq
        exact absurd (heq.2 ▸ hpf') ((hall p hp (hne' p hne)).2 heq.1.symm)
    · obtain ⟨target, -, hrun⟩ := bind_eq_ok.mp hrun
      refine iff_of_true ?_ (by simp)
      rw [← Except.ok.inj hrun]
      refine lawful_iff.mpr (hsat.updateFirst ?_)
      simp only [SqlTable.over, List.forall_mem_map, Constraint.comap, onValue]
      intro c hc p
      refine install_columns ?_ ?_ ?_ c hc
      all_goals rfl
    · obtain ⟨target, -, hrun⟩ := bind_eq_ok.mp hrun
      obtain ⟨mode, -, hrun⟩ := bind_eq_ok.mp hrun
      rw [← Except.ok.inj hrun]
      exact iff_of_true (hmap _ _ (fun _ => rfl) (fun _ => rfl) fun _ => rfl) (by simp)
    · obtain ⟨target, -, hrun⟩ := bind_eq_ok.mp hrun
      rw [← Except.ok.inj hrun]
      exact iff_of_true (hmap _ _ (fun _ => rfl) (fun _ => rfl) fun _ => rfl) (by simp)

theorem dataProducts_step (h : stepAt py .dataProducts (s .dataProducts) e = .ok (s' .dataProducts)) :
    StepLaw py company asOf s s' e .dataProducts := by
  intro hlaw
  simp only [SqlTable.stateRows, SqlTable.Fits] at hlaw ⊢
  rcases stepAt_cases (by decide) h with ⟨heq, hcalls⟩ | ⟨tool, args, run, hact, hmem, hrun⟩
  · rw [heq]
    exact iff_of_true hlaw (hcalls _ (by decide) _)
  · rw [calls_iff hact]
    simp only [Part.handlers, List.mem_cons, Prod.mk.injEq, List.not_mem_nil, or_false] at hmem
    have hkeeps : Updates DataProduct.SameIds (s .dataProducts).products (s' .dataProducts).products →
        SqlTable.Lawful .dataProducts ((s' .dataProducts).products.rows.map Prod.snd) := by
      intro hupd
      refine lawful_updates hupd hlaw fun k r r' hr c hc => ?_
      obtain rfl := List.mem_singleton.mp hc
      simp [unique, hr.1]
    rcases hmem with ⟨rfl, rfl⟩ | ⟨rfl, rfl⟩ | ⟨rfl, rfl⟩ | ⟨rfl, rfl⟩
    · obtain ⟨dpid, r, hdpid, hid, -, heq, -⟩ := emitDataProductProposed_ok hrun
      rw [heq, lawful_put_uuid rfl uuid_cell_injective (fun _ => rfl) hlaw hdpid hid]
      simp
    · exact iff_of_true (hkeeps (emitDataProductGenerated_ok hrun).1) (by simp)
    · exact iff_of_true ((emitDataProductConsumed_ok hrun).1 ▸ hlaw) (by simp)
    · exact iff_of_true (hkeeps (emitDataProductArchived_ok hrun).1) (by simp)

theorem notebooks_step (h : stepAt py .notebooks (s .notebooks) e = .ok (s' .notebooks)) :
    StepLaw py company asOf s s' e .notebooks := by
  intro hlaw
  simp only [SqlTable.stateRows, SqlTable.Fits] at hlaw ⊢
  rcases stepAt_cases (by decide) h with ⟨heq, hcalls⟩ | ⟨tool, args, run, hact, hmem, hrun⟩
  · rw [heq]
    exact iff_of_true hlaw (hcalls _ (by decide) _)
  · rw [calls_iff hact]
    simp only [Part.handlers, List.mem_cons, Prod.mk.injEq, List.not_mem_nil, or_false] at hmem
    have hkeeps : Updates Notebook.SameIds (s .notebooks).notebooks (s' .notebooks).notebooks →
        SqlTable.Lawful .notebooks
          ((s' .notebooks).notebooks.rows.map fun p => { p.2 with cells := [] }) := by
      intro hupd
      refine lawful_updates hupd hlaw fun k r r' hr c hc => ?_
      obtain rfl := List.mem_singleton.mp hc
      simp [unique, hr.1]
    rcases hmem with ⟨rfl, rfl⟩ | ⟨rfl, rfl⟩ | ⟨rfl, rfl⟩ | ⟨rfl, rfl⟩
    · obtain ⟨nid, r, hnid, hid, -, heq, -⟩ := emitNotebookProposed_ok hrun
      rw [heq, lawful_put_uuid rfl uuid_cell_injective (fun _ => rfl) hlaw hnid hid]
      simp
    · exact iff_of_true (hkeeps (emitNotebookRun_ok hrun).1) (by simp)
    · exact iff_of_true (hkeeps (emitNotebookPublished_ok hrun).1) (by simp)
    · exact iff_of_true (hkeeps (emitNotebookArchived_ok hrun).1) (by simp)

theorem mcpCalls_step (h : stepAt py .mcpCalls (s .mcpCalls) e = .ok (s' .mcpCalls)) :
    StepLaw py company asOf s s' e .mcpCalls := by
  intro hlaw
  simp only [SqlTable.stateRows, SqlTable.Fits] at hlaw ⊢
  rcases stepAt_cases (by decide) h with ⟨heq, hcalls⟩ | ⟨tool, args, run, hact, hmem, hrun⟩
  · rw [heq]
    exact iff_of_true hlaw (hcalls _ (by decide) _)
  · rw [calls_iff hact]
    simp only [Part.handlers, List.mem_cons, Prod.mk.injEq, List.not_mem_nil, or_false] at hmem
    obtain ⟨rfl, rfl⟩ := hmem
    obtain ⟨id, r, hid, hu, -, heq⟩ := emitMcpCallReceived_ok hrun
    rw [heq, lawful_put_uuid rfl uuid_cell_injective (fun _ => rfl) hlaw hid hu]
    simp

theorem topics_step (h : stepAt py .topics (s .topics) e = .ok (s' .topics)) :
    StepLaw py company asOf s s' e .topics := by
  intro hlaw
  simp only [SqlTable.stateRows, SqlTable.Fits] at hlaw ⊢
  rcases stepAt_cases (by decide) h with ⟨heq, hcalls⟩ | ⟨tool, args, run, hact, hmem, hrun⟩
  · rw [heq]
    exact iff_of_true hlaw (hcalls _ (by decide) _)
  · rw [calls_iff hact]
    simp only [Part.handlers, List.mem_cons, Prod.mk.injEq, List.not_mem_nil, or_false] at hmem
    obtain ⟨rfl, rfl⟩ := hmem
    obtain ⟨key, r, hkey, heq, ⟨old, hget, hsame⟩ | ⟨hget, hu⟩⟩ := emitTopicProposed_ok hrun
    · refine iff_of_true ?_ (fun _ hnew => ?_)
      · rw [heq]
        refine lawful_iff.mpr ((lawful_iff.mp hlaw).put_of_get? hget ?_)
        simp [SqlTable.over, SqlTable.constraints, Constraint.comap, unique, hsame]
      · exact absurd hkey (hnew _ (Table.get?_eq_some_iff.mp hget).1)
    · rw [heq, lawful_put_uuid rfl (owned_cell_injective company) (fun _ => rfl) hlaw hkey hu]
      simp only [true_implies]
      refine ⟨fun hfits _ => hfits, fun hfits => hfits fun p hp hpkey => ?_⟩
      rw [hkey] at hpkey
      exact Table.get?_eq_none_iff.mp hget p hp (Val.str.inj hpkey).symm

/-- A row whose id is the key, with a source and a name that no other row may have together. -/
theorem put_pair {ρ : Type} {id source : ρ → UUID} {name : ρ → String} {t : Table id}
    (hsat : t.Satisfies [unique fun r => some [.uuid (id r)],
      unique fun r => some [.uuid (source r), .text (name r)]]) {r : ρ} :
    (t.put r).Satisfies [unique fun r => some [.uuid (id r)],
        unique fun r => some [.uuid (source r), .text (name r)]] ↔
      ∀ y ∈ t.rows, id r ≠ id y → source r = source y → name r ≠ name y := by
  refine (Table.satisfies_put hsat).trans ?_
  simp only [Table.Admits, unique, List.forall_mem_cons, List.not_mem_nil, false_implies,
    implies_true, and_true, reduceCtorEq, ne_eq, not_false_eq_true, true_and,
    Option.some.injEq, List.cons.injEq, Cell.uuid.injEq, Cell.text.injEq, imp_false, not_and]
  constructor
  · rintro ⟨-, hpairs⟩ y hy hne hs hn
    exact hpairs y hy (fun h => hne h.symm) hs.symm hn.symm
  · intro hall
    exact ⟨fun y _ hne => hne, fun y hy hne hs hn => hall y hy (fun h => hne h.symm) hs.symm hn.symm⟩

theorem externalPolicy_step (h : stepAt py .externalPolicy (s .externalPolicy) e =
    .ok (s' .externalPolicy)) : StepLaw py company asOf s s' e .externalPolicy := by
  intro hlaw
  simp only [SqlTable.stateRows, SqlTable.Fits] at hlaw ⊢
  rcases stepAt_cases (by decide) h with ⟨heq, hcalls⟩ | ⟨tool, args, run, hact, hmem, hrun⟩
  · rw [heq]
    exact iff_of_true hlaw (hcalls _ (by decide) _)
  · rw [calls_iff hact]
    simp only [Part.handlers, List.mem_cons, Prod.mk.injEq, List.not_mem_nil, or_false] at hmem
    obtain ⟨rfl, rfl⟩ := hmem
    obtain ⟨r, hid, hsource, hfqn, -, heq⟩ := emitExternalPolicyImported_ok hrun
    rw [heq, hid, hsource, hfqn]
    refine (put_pair hlaw).trans ?_
    simp

theorem externalMetric_step (h : stepAt py .externalMetric (s .externalMetric) e =
    .ok (s' .externalMetric)) : StepLaw py company asOf s s' e .externalMetric := by
  intro hlaw
  simp only [SqlTable.stateRows, SqlTable.Fits] at hlaw ⊢
  rcases stepAt_cases (by decide) h with ⟨heq, hcalls⟩ | ⟨tool, args, run, hact, hmem, hrun⟩
  · rw [heq]
    exact iff_of_true hlaw (hcalls _ (by decide) _)
  · rw [calls_iff hact]
    simp only [Part.handlers, List.mem_cons, Prod.mk.injEq, List.not_mem_nil, or_false] at hmem
    obtain ⟨rfl, rfl⟩ := hmem
    obtain ⟨r, hid, hsource, hname, -, heq⟩ := emitExternalMetricImported_ok hrun
    rw [heq, hid, hsource, hname]
    refine (put_pair hlaw).trans ?_
    simp

theorem agents_step (h : stepAt py .agents (s .agents) e = .ok (s' .agents)) :
    StepLaw py company asOf s s' e .agents := by
  intro hlaw
  simp only [SqlTable.stateRows, SqlTable.Fits] at hlaw ⊢
  rcases stepAt_cases (by decide) h with ⟨heq, hcalls⟩ | ⟨tool, args, run, hact, hmem, hrun⟩
  · rw [heq]
    exact iff_of_true hlaw (hcalls _ (by decide) _)
  · rw [calls_iff hact]
    simp only [Part.handlers, List.mem_cons, Prod.mk.injEq, List.not_mem_nil, or_false] at hmem
    obtain ⟨rfl, rfl⟩ := hmem
    obtain ⟨r, hid, hperson, -, -, heq⟩ := emitAgentRegistered_ok hrun
    rw [heq, ← hid, ← hperson]
    refine (Table.satisfies_put hlaw).trans ?_
    have htext : ∀ y ∈ (s .agents).rows, ∃ id, y.id = .str id := by
      intro y hy
      have := (hlaw _ List.mem_cons_self).1 rfl y hy
      simpa [unique, Cell.ofVal_ne_none] using this
    simp only [Table.Admits, SqlTable.constraints, unique, List.forall_mem_cons, List.not_mem_nil,
      false_implies, implies_true, and_true, true_implies, ne_eq, Option.map_eq_none_iff]
    rw [← ne_eq (Cell.ofVal r.id), ← ne_eq (Cell.ofVal r.personId), Cell.ofVal_ne_none,
      Cell.ofVal_ne_none]
    constructor
    · rintro ⟨⟨⟨id, hrid⟩, -⟩, ⟨person, hrperson⟩, hpersons⟩
      refine ⟨id, person, hrid, hrperson, fun y hy hne hyperson => ?_⟩
      obtain ⟨id', hyid⟩ := htext y hy
      have hkey : ¬y.key = r.key := by
        simp only [Agent.key, hyid, hrid]
        intro hk
        exact hne (hyid.trans (congrArg Val.str (Key.str.inj hk)))
      have := hpersons y hy hkey (by rw [hyperson, hrperson])
      rw [hrperson] at this
      cases this
    · rintro ⟨id, person, hrid, hrperson, hall⟩
      have hne : ∀ y ∈ (s .agents).rows, ¬y.key = r.key → ¬y.id = .str id := by
        intro y hy hk hyid
        exact hk (by rw [Agent.key, Agent.key, hyid, hrid])
      refine ⟨⟨⟨id, hrid⟩, fun y hy hk heq => ?_⟩, ⟨person, hrperson⟩, fun y hy hk heq => ?_⟩
      · obtain ⟨id', hyid⟩ := htext y hy
        refine absurd ?_ (hne y hy hk)
        simpa [hyid, hrid] using heq
      · simp only [hrperson, Cell.ofVal_str, Option.map_some, Option.map_eq_some_iff] at heq
        obtain ⟨c, hc, heq⟩ := heq
        obtain ⟨person', hyperson, rfl⟩ := Cell.ofVal_eq_some.mp hc
        simp only [List.cons.injEq, Cell.text.injEq, and_true] at heq
        exact absurd (heq ▸ hyperson) (hall y hy (hne y hy hk))

theorem agentGrants_step (h : stepAt py .agentGrants (s .agentGrants) e = .ok (s' .agentGrants)) :
    StepLaw py company asOf s s' e .agentGrants := by
  intro hlaw
  simp only [SqlTable.stateRows, SqlTable.Fits] at hlaw ⊢
  rcases stepAt_cases (by decide) h with ⟨heq, hcalls⟩ | ⟨tool, args, run, hact, hmem, hrun⟩
  · rw [heq]
    exact iff_of_true hlaw (hcalls _ (by decide) _)
  · rw [calls_iff hact]
    simp only [Part.handlers, List.mem_cons, Prod.mk.injEq, List.not_mem_nil, or_false] at hmem
    obtain ⟨rfl, rfl⟩ := hmem
    obtain ⟨r, hid, -, hagent, hkind, htarget, heq⟩ := emitAgentGrant_ok hrun
    rw [heq, hid, hagent, hkind, htarget]
    refine (Table.satisfies_put hlaw).trans ?_
    simp only [Table.Admits, SqlTable.constraints, unique, List.forall_mem_cons, List.not_mem_nil,
      false_implies, implies_true, and_true, true_implies, reduceCtorEq, ne_eq, not_false_eq_true,
      true_and, Option.some.injEq, List.cons.injEq, Cell.text.injEq, Except.ok.injEq,
      Val.str.injEq, imp_false, not_and]
    constructor
    · rintro ⟨-, htriples⟩ y hy hne ha hk ht
      exact htriples y hy (fun h => hne h.symm) ha.symm hk.symm ht.symm
    · intro hall
      exact ⟨fun y _ hne => hne, fun y hy hne ha hk ht =>
        hall y hy (fun h => hne h.symm) ha.symm hk.symm ht.symm⟩

/-- A put of an agent query, whose id is its key. -/
theorem lawful_putQuery {t : Table AgentQuery.key} (hlaw : SqlTable.Lawful .agentQueries t.rows)
    {r : AgentQuery} : SqlTable.Lawful .agentQueries (t.put r).rows ↔ ∃ id, r.id = .str id := by
  refine (Table.satisfies_put hlaw).trans ?_
  simp only [Table.Admits, SqlTable.constraints, unique, List.mem_singleton, forall_eq, ne_eq,
    Option.map_eq_none_iff, true_implies]
  rw [← ne_eq, Cell.ofVal_ne_none]
  constructor
  · exact And.left
  · rintro ⟨id, hid⟩
    refine ⟨⟨id, hid⟩, fun y hy hk heq => absurd ?_ hk⟩
    simp only [hid, Cell.ofVal_str, Option.map_some, Option.map_eq_some_iff] at heq
    obtain ⟨c, hc, heq⟩ := heq
    obtain ⟨id', hyid, rfl⟩ := Cell.ofVal_eq_some.mp hc
    simp only [List.cons.injEq, Cell.text.injEq, and_true] at heq
    rw [AgentQuery.key, AgentQuery.key, hyid, hid, heq]

theorem agentQueries_step (h : stepAt py .agentQueries (s .agentQueries) e = .ok (s' .agentQueries)) :
    StepLaw py company asOf s s' e .agentQueries := by
  intro hlaw
  simp only [SqlTable.stateRows, SqlTable.Fits] at hlaw ⊢
  obtain ⟨t, ht, h⟩ := bind_eq_ok.mp h
  obtain ⟨u, hu, h⟩ := bind_eq_ok.mp h
  have hut : u = t := by
    unfold actAt at hu
    split at hu
    · exact (Except.ok.inj hu).symm
    · exact (Except.ok.inj hu).symm
  have heq : s' .agentQueries = t := by rw [← Except.ok.inj h, ← hut]; rfl
  rw [heq]
  unfold envelopeAt at ht
  split at ht
  · rename_i payload hpayload
    by_cases hkind : e.kind ∈ ["propose", "execute", "verify", "resolve"]
    · rw [if_pos hkind] at ht
      simp only at ht
      by_cases hshape : isAgentQueryPayload payload = true
      · rw [if_pos hshape] at ht
        obtain ⟨k, r, hk, rfl, hcase⟩ := applyAgentQuery_ok ht
        rw [lawful_putQuery hlaw]
        have hfits : (∀ payload', e.payload = .dict payload' →
            e.kind ∈ ["propose", "execute", "verify", "resolve"] → isAgentQueryPayload payload' = true →
              ∃ id, Dict.get payload' "audit_trail_id" = .str id) ↔
            ∃ id, Dict.get payload "audit_trail_id" = .str id := by
          refine ⟨fun hall => hall payload hpayload hkind hshape, ?_⟩
          rintro hid payload' hpayload' - -
          rw [hpayload] at hpayload'
          exact Val.dict.inj hpayload' ▸ hid
        rw [hfits]
        rcases hcase with ⟨-, hid, -⟩ | ⟨q, hget, hid, -⟩
        · rw [hid]
        · -- the row that is there has a text id, and the payload names the same key
          obtain ⟨hq, hqkey⟩ := Table.get?_eq_some_iff.mp hget
          have hqid := (hlaw _ List.mem_cons_self).1 rfl q hq
          obtain ⟨id, hqid⟩ : ∃ id, q.id = .str id := by
            simpa [unique, Cell.ofVal_ne_none] using hqid
          refine iff_of_true ⟨id, hid.trans hqid⟩ ⟨id, ?_⟩
          rw [AgentQuery.key, hqid] at hqkey
          exact Val.hash_eq_str (hk.trans (congrArg Except.ok hqkey.symm))
      · rw [if_neg hshape] at ht
        obtain rfl := Except.ok.inj ht
        refine iff_of_true hlaw ?_
        rintro payload' hpayload' - hshape'
        rw [hpayload] at hpayload'
        exact absurd (Val.dict.inj hpayload' ▸ hshape') hshape
    · rw [if_neg hkind] at ht
      obtain rfl := Except.ok.inj ht
      exact iff_of_true hlaw fun _ _ hkind' => absurd hkind' hkind
  · rename_i hnot
    obtain rfl := Except.ok.inj ht
    exact iff_of_true hlaw fun payload hpayload => absurd hpayload (hnot payload)

/-! ### Runs -/

/-- One entry on a lawful state: the state stays lawful exactly if the entry fits every table. -/
theorem lawful_step (h : applyEntry py s e = .ok s') (hs : s.Lawful company asOf) :
    s'.Lawful company asOf ↔ ∀ t : SqlTable, t.Fits py s e := by
  refine forall_congr' fun t => ?_
  have hlaw := hs t
  cases t with
  | sources => exact sources_step (applyEntry_at h .sources) hlaw
  | memory => exact memory_step (applyEntry_at h .memory) hlaw
  | kpiNodes => exact kpiNodes_step (applyEntry_at h .kpiNodes) hlaw
  | ramp => exact iff_of_true (ramp_lawful company asOf s') trivial
  | persons => exact persons_step (applyEntry_at h .people) hlaw
  | personIdentities => exact personIdentities_step (applyEntry_at h .people) hlaw
  | installs => exact installs_step (applyEntry_at h .installs) hlaw
  | dataProducts => exact dataProducts_step (applyEntry_at h .dataProducts) hlaw
  | notebooks => exact notebooks_step (applyEntry_at h .notebooks) hlaw
  | mcpCalls => exact mcpCalls_step (applyEntry_at h .mcpCalls) hlaw
  | topics => exact topics_step (applyEntry_at h .topics) hlaw
  | externalPolicy => exact externalPolicy_step (applyEntry_at h .externalPolicy) hlaw
  | externalMetric => exact externalMetric_step (applyEntry_at h .externalMetric) hlaw
  | agents => exact agents_step (applyEntry_at h .agents) hlaw
  | agentGrants => exact agentGrants_step (applyEntry_at h .agentGrants) hlaw
  | agentQueries => exact agentQueries_step (applyEntry_at h .agentQueries) hlaw
  | setupProgress => exact iff_of_true (lawful_keyed uuid_cell_injective rfl _) trivial
  | roles => exact iff_of_true (lawful_keyed uuid_cell_injective rfl _) trivial
  | dataProductRuns => exact iff_of_true (lawful_keyed uuid_cell_injective rfl _) trivial
  | dataProductConsumption => exact iff_of_true (lawful_keyed uuid_cell_injective rfl _) trivial
  | notebookRuns => exact iff_of_true (lawful_keyed uuid_cell_injective rfl _) trivial
  | externalCatalog => exact iff_of_true (lawful_keyed uuid_cell_injective rfl _) trivial
  | externalLineage => exact iff_of_true (lawful_keyed uuid_cell_injective rfl _) trivial
  | credentials => exact iff_of_true (lawful_keyed text_cell_injective rfl _) trivial
  | queryOutcomes => exact iff_of_true (lawful_keyed text_cell_injective rfl _) trivial
  | queryTemplates => exact iff_of_true (lawful_keyed text_cell_injective rfl _) trivial
  | axis a =>
    have hname : Function.Injective fun k : String × String => [Cell.text k.1, Cell.text k.2] := by
      rintro ⟨c, i⟩ ⟨c', i'⟩ heq
      simpa using heq
    exact iff_of_true (lawful_keyed hname rfl _) trivial
  | catalogTables =>
    have hname : Function.Injective fun k : String × String × String × String =>
        [Cell.text k.1, Cell.text k.2.1, Cell.text k.2.2.1, Cell.text k.2.2.2] := by
      rintro ⟨c, i, j, k⟩ ⟨c', i', j', k'⟩ heq
      simpa using heq
    exact iff_of_true (lawful_keyed hname rfl _) trivial

theorem lawful_initial (company : UUID) (asOf : DateTime) :
    initialProjectionState.Lawful company asOf := by
  intro t
  cases t with
  | ramp => exact ramp_lawful company asOf _
  | _ => exact fun c hc => Constraint.holds_nil

/-- The fold as a step function. -/
def entryStep (py : Interp) (s : State) (e : LedgerRow) : Option State := (applyEntry py s e).toOption

theorem entryStep_some : entryStep py s e = some s' ↔ applyEntry py s e = .ok s' := by
  rw [entryStep]
  cases applyEntry py s e <;> simp [Except.toOption]

theorem exec_foldEntries : ∀ {es : List LedgerRow} {s : State},
    Run.exec (entryStep py) s es = some s' ↔ foldEntries py s es = .ok s'
  | [], s => by simp [Run.exec, foldEntries, pure, Except.pure]
  | e :: es, s => by
    rw [Run.exec_cons, foldEntries, List.foldlM_cons, bind_eq_ok]
    simp only [entryStep_some, exec_foldEntries, foldEntries]

/-- Each entry fits every table in the state that it meets. -/
def FitsAll (py : Interp) (es : List LedgerRow) : Prop :=
  Run.Guarded (entryStep py) (fun s e => ∀ t : SqlTable, t.Fits py s e) initialProjectionState es

/-- The entries before any point of a ledger that is folded leave a lawful state exactly if all
    entries fit. -/
theorem prefixes_lawful_iff {es : List LedgerRow} {s' : State}
    (h : foldEntries py initialProjectionState es = .ok s') :
    (∀ es₁, es₁ <+: es → ∀ s, foldEntries py initialProjectionState es₁ = .ok s →
      s.Lawful company asOf) ↔ FitsAll py es := by
  rw [FitsAll, ← Run.always_iff_guarded (P := State.Lawful company asOf) (I := fun _ => True)
    (fun _ _ _ _ _ => trivial)
    (fun s e s' _ hs hstep => lawful_step (entryStep_some.mp hstep) hs) trivial
    (lawful_initial company asOf) (exec_foldEntries.mpr h), Run.always_iff_prefix]
  simp only [exec_foldEntries]

theorem foldEntries_prefix {es₁ es : List LedgerRow} {s₀ s' : State} (hpre : es₁ <+: es)
    (h : foldEntries py s₀ es = .ok s') : ∃ s, foldEntries py s₀ es₁ = .ok s := by
  obtain ⟨es₂, rfl⟩ := hpre
  obtain ⟨s, hs, -⟩ := Run.exec_append.mp (exec_foldEntries.mpr h)
  exact ⟨s, exec_foldEntries.mp hs⟩

/-- What stays of a database next to the rows of a company that is persisted. -/
def Apart (company : UUID) (asOf : DateTime) (p : Projections) (db : Database) : Prop :=
  ∀ t : SqlTable, t.Lawful (db.wipe company t) ∧ ∀ c ∈ t.constraints,
    ∀ r ∈ db.wipe company t, ∀ r' ∈ t.rows company asOf p, c.columns r ≠ c.columns r'

/-- Rows that are lawful, next to a database that they do not clash with, are persisted. -/
theorem persist_goes_through {p : Projections} {db : Database}
    (hlaw : ∀ t : SqlTable, t.Lawful (t.rows company asOf p)) (hnames : ∀ t : SqlTable, t.checkNames p = .ok ())
    (hapart : Apart company asOf p db) : ∃ db', persistProjections company asOf p db = .ok db' := by
  refine ⟨_, persistProjections_ok.mpr ⟨fun t => ⟨hnames t, fun c hc => ?_⟩, fun _ => rfl⟩⟩
  refine Constraint.holds_append.mpr ⟨(hapart t).1 c hc, hlaw t c hc, fun r hr r' hr' heq => ?_⟩
  exact absurd heq ((hapart t).2 c hc r hr r' hr')

/-- The rows of every ledger whose entries fit satisfy the constraints, at every point of it, and
    are persisted; and a ledger whose rows satisfy them at every point has only entries that fit. -/
theorem fitting_ledger_keeps_constraints (py : Interp) (company : UUID) (asOf : DateTime)
    (es : List LedgerRow) :
    (FitsAll py es → ∀ es₁, es₁ <+: es → ∀ p, projectionsOf py es₁ = .ok p →
      (∀ t : SqlTable, t.Lawful (t.rows company asOf p)) ∧
        ((∀ t : SqlTable, t.checkNames p = .ok ()) → ∀ db, Apart company asOf p db →
          ∃ db', persistProjections company asOf p db = .ok db')) ∧
    ((∀ es₁, es₁ <+: es → ∃ p, projectionsOf py es₁ = .ok p ∧
      ∀ t : SqlTable, t.Lawful (t.rows company asOf p)) → FitsAll py es) := by
  constructor
  · intro hfits es₁ hpre p hp
    obtain ⟨s, hs, hsp⟩ := projectionsOf_ok hp
    have hfits₁ : FitsAll py es₁ := by
      obtain ⟨es₂, rfl⟩ := hpre
      exact (Run.guarded_append.mp hfits).1
    have hlaw : ∀ t : SqlTable, t.Lawful (t.rows company asOf p) :=
      lawful_rows ((prefixes_lawful_iff hs).mpr hfits₁ es₁ List.prefix_rfl s hs) hsp
    exact ⟨hlaw, fun hnames db hapart => persist_goes_through hlaw hnames hapart⟩
  · intro hall
    obtain ⟨p, hp, -⟩ := hall es List.prefix_rfl
    obtain ⟨s', hs', -⟩ := projectionsOf_ok hp
    refine (@prefixes_lawful_iff py company asOf es s' hs').mp fun es₁ hpre s hs => ?_
    obtain ⟨p₁, hp₁, hlaw⟩ := hall es₁ hpre
    obtain ⟨s₁, hs₁, hsp⟩ := projectionsOf_ok hp₁
    obtain rfl := Except.ok.inj (hs.symm.trans hs₁)
    exact fun t c hc => (hlaw t c hc).perm (rows_perm hsp t)

end

def sampleMemory : Dict :=
  [(.str "memory_id", .str "00000000-0000-0000-0000-000000000001"),
    (.str "content", .str "lunch is at one")]

/-- A memory that is written twice. -/
def repeatedMemory : List LedgerRow :=
  cycle 1 "emit_memory_written" sampleMemory ++ cycle 5 "emit_memory_written" sampleMemory

theorem repeatedMemory_built : ∃ s p, foldEntries .plain initialProjectionState repeatedMemory = .ok s ∧
    stateToProjections .plain s = .ok p ∧ (s .memory).map Memory.memoryId = [⟨1⟩, ⟨1⟩] := by
  obtain ⟨s, hs, hkpi, hinstalls, hmem⟩ : ∃ s,
      foldEntries .plain initialProjectionState repeatedMemory = .ok s ∧ s .kpiNodes = .empty ∧
        s .installs = .empty ∧ (s .memory).map Memory.memoryId = [⟨1⟩, ⟨1⟩] := ⟨_, rfl, rfl, rfl, rfl⟩
  obtain ⟨p, hp⟩ := @stateToProjections_ok .plain _ hkpi hinstalls
  exact ⟨s, p, hs, hp, hmem⟩

theorem repeatedMemory_aborts : ∃ p, projectionsOf .plain repeatedMemory = .ok p ∧
    ∀ company asOf, ¬SqlTable.Lawful .memory (SqlTable.rows company asOf p .memory) ∧
      ∀ db db', persistProjections company asOf p db ≠ .ok db' := by
  obtain ⟨s, p, hs, hp, hmem⟩ := repeatedMemory_built
  refine ⟨p, by rw [projectionsOf, hs]; exact hp, fun company asOf => ?_⟩
  have hnot : ¬SqlTable.Lawful .memory (SqlTable.rows company asOf p .memory) := by
    intro hlaw
    have hc := (hlaw _ (List.mem_singleton.mpr rfl)).perm (rows_perm hp .memory)
    simp only [List.map_eq_cons_iff, List.map_eq_nil_iff] at hmem
    obtain ⟨m, _, hrows, hm, n, _, rfl, hn, rfl⟩ := hmem
    rw [SqlTable.stateRows, hrows] at hc
    simp [Constraint.Holds, unique, hm, hn] at hc
  refine ⟨hnot, fun db db' hdb => hnot ?_⟩
  have hlaw := ((persistProjections_ok.mp hdb).1 .memory).2
  exact fun c hc => (hlaw c hc).sublist (List.sublist_append_right _ _)

/-- An entry that calls no tool and has not the shape of a query fits. -/
theorem quiet_fits {py : Interp} {s : State} {e : LedgerRow} {payload : Dict} (hact : e.action = none)
    (hpayload : e.payload = .dict payload) (hshape : isAgentQueryPayload payload = false)
    (t : SqlTable) : t.Fits py s e := by
  have hcalls := calls_of_none hact
  cases t with
  | personIdentities => exact ⟨hcalls _ _, hcalls _ _⟩
  | agentQueries =>
    rintro payload' hpayload' - hshape'
    rw [hpayload] at hpayload'
    rw [← Val.dict.inj hpayload', hshape] at hshape'
    cases hshape'
  | _ => first | exact hcalls _ _ | trivial

/-- Four rows on the empty state fit when the execute row does and the others are quiet. -/
theorem group_fits {py : Interp} {p e v r : LedgerRow} (hp : ∀ s (t : SqlTable), t.Fits py s p)
    (hsame : applyEntry py initialProjectionState p = .ok initialProjectionState)
    (he : ∀ t : SqlTable, t.Fits py initialProjectionState e)
    (hv : ∀ s (t : SqlTable), t.Fits py s v) (hr : ∀ s (t : SqlTable), t.Fits py s r) :
    FitsAll py [p, e, v, r] := by
  refine ⟨hp _, fun s hs => ⟨?_, fun _ _ => ⟨hv _, fun _ _ => ⟨hr _, fun _ _ => trivial⟩⟩⟩⟩
  obtain rfl := Except.ok.inj (hsame.symm.trans (entryStep_some.mp hs))
  exact he

/-- A cycle on the empty state fits when its execute entry does. -/
theorem cycle_fits {py : Interp} {seq : ℕ} {tool : String} {args : Dict}
    (h : ∀ t : SqlTable, t.Fits py initialProjectionState (executed (seq + 1) tool args)) :
    FitsAll py (cycle seq tool args) :=
  group_fits (fun _ => quiet_fits rfl rfl rfl)
    (congrArg Except.ok (Function.update_eq_self Part.counts initialProjectionState)) h
    (fun _ => quiet_fits rfl rfl rfl) (fun _ => quiet_fits rfl rfl rfl)

/-- The first memory of all fits. -/
theorem memory_fits {py : Interp} {e : LedgerRow} {payload args : Dict}
    (hact : e.action = some ("emit_memory_written", args)) (hpayload : e.payload = .dict payload)
    (hshape : isAgentQueryPayload payload = false) (t : SqlTable) :
    t.Fits py initialProjectionState e := by
  cases t with
  | memory =>
    rw [SqlTable.Fits, calls_iff hact]
    exact fun _ m hm => absurd hm List.not_mem_nil
  | personIdentities => simp [SqlTable.Fits, calls_iff hact]
  | agentQueries =>
    rintro payload' hpayload' - hshape'
    rw [hpayload] at hpayload'
    rw [← Val.dict.inj hpayload', hshape] at hshape'
    cases hshape'
  | _ => first | trivial | simp [SqlTable.Fits, calls_iff hact]

theorem singleMemory_fits : FitsAll .plain (cycle 1 "emit_memory_written" sampleMemory) :=
  cycle_fits (memory_fits rfl rfl rfl)

/-- A ledger that fits is persisted into an empty database, when it has no nodes and installs. -/
theorem fitting_persisted {py : Interp} {es : List LedgerRow} {s : State}
    (hs : foldEntries py initialProjectionState es = .ok s) (hfits : FitsAll py es)
    (hkpi : s .kpiNodes = .empty) (hinstalls : s .installs = .empty) (company : UUID)
    (asOf : DateTime) : ∃ p db, projectionsOf py es = .ok p ∧ stateToProjections py s = .ok p ∧
      persistProjections company asOf p (fun _ => []) = .ok db := by
  obtain ⟨p, hp⟩ := @stateToProjections_ok py _ hkpi hinstalls
  have hlaw := lawful_rows ((@prefixes_lawful_iff py company asOf es s hs).mpr hfits es
    List.prefix_rfl s hs) hp
  have hnodes : p.kpiNodes = [] := by
    have := @rows_perm py company asOf s p hp .kpiNodes
    rw [SqlTable.stateRows, hkpi] at this
    exact List.map_eq_nil_iff.mp this.eq_nil
  have hnames : ∀ t : SqlTable, t.checkNames p = .ok () := by
    intro t
    cases t with
    | kpiNodes =>
      rw [SqlTable.checkNames, hnodes]
      rfl
    | _ => rfl
  have hapart : Apart company asOf p fun _ => [] :=
    fun t => ⟨fun c _ => Constraint.holds_nil, fun _ _ _ hr => by cases hr⟩
  obtain ⟨db, hdb⟩ := persist_goes_through hlaw hnames hapart
  exact ⟨p, db, by rw [projectionsOf, hs]; exact hp, hp, hdb⟩

theorem singleMemory_persisted : ∃ p, projectionsOf .plain (cycle 1 "emit_memory_written" sampleMemory) =
    .ok p ∧ ∀ company asOf, SqlTable.Lawful .memory (SqlTable.rows company asOf p .memory) := by
  obtain ⟨s, hs, hkpi, hinstalls⟩ : ∃ s, foldEntries .plain initialProjectionState
      (cycle 1 "emit_memory_written" sampleMemory) = .ok s ∧ s .kpiNodes = .empty ∧
        s .installs = .empty := ⟨_, rfl, rfl, rfl⟩
  obtain ⟨p, -, hbuilt, -⟩ := fitting_persisted hs singleMemory_fits hkpi hinstalls ⟨0⟩
    ⟨⟨0, maxMicros_pos⟩, none⟩
  exact ⟨p, hbuilt, fun company asOf => ((fitting_ledger_keeps_constraints .plain company asOf _).1
    singleMemory_fits _ List.prefix_rfl p hbuilt).1 .memory⟩

end Projection
