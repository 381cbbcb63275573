import Wormbase.Projection.Constraints
import Wormbase.Py.UuidText

/-! Whose rows a persist writes.

    A persist leaves the rows of the other companies alone, and can be repeated, exactly if every
    row that it inserts is the company's own. The args of a few tools name a tenant or a company of
    their own, and the rows are the company's as long as they name it. -/

namespace Projection
open Py

/-! ### One persist -/

section
variable {company : UUID} {asOf : DateTime} {p : Projections} {db db' : Database}

theorem ownedBy_unique {a b : UUID} : ∀ {t : SqlTable} {r : t.Row}, t.ownedBy a r = true →
    t.ownedBy b r = true → a = b := by
  intro t r ha hb
  have htext : ∀ {s : String}, s = a.str → s = b.str → a = b := fun h h' =>
    UUID.str_injective (h.symm.trans h')
  cases t with
  | agents =>
    have hid := (Val.isText_iff.mp ha).symm.trans (Val.isText_iff.mp hb)
    exact UUID.str_injective (Val.str.inj hid)
  | agentGrants | agentQueries | credentials | queryOutcomes | queryTemplates | axis a
  | catalogTables =>
    simp only [SqlTable.ownedBy, decide_eq_true_eq] at ha hb
    exact htext ha hb
  | _ =>
    simp only [SqlTable.ownedBy, decide_eq_true_eq] at ha hb
    exact ha.symm.trans hb

/-- Every table has a key that takes no null. -/
theorem exists_required (t : SqlTable) : ∃ c ∈ t.constraints, c.required = true := by
  cases t <;> exact ⟨_, List.mem_cons_self, rfl⟩

/-- Every row that is inserted is the company's. -/
def OwnRows (company : UUID) (asOf : DateTime) (p : Projections) : Prop :=
  ∀ t : SqlTable, ∀ r ∈ t.rows company asOf p, t.ownedBy company r = true

/-- What a persist that went through promises: the rows of every other company are as before, and
    it goes through again, at the same time with the same tables, at another time with the same
    tables but for the time of the ramp. -/
structure Isolated (company : UUID) (asOf : DateTime) (p : Projections) (db db' : Database) :
    Prop where
  others : ∀ other, other ≠ company → ∀ t : SqlTable,
    (db' t).filter (t.ownedBy other) = (db t).filter (t.ownedBy other)
  again : persistProjections company asOf p db' = .ok db'
  later : ∀ asOf', ∃ db'', persistProjections company asOf' p db' = .ok db'' ∧
    ∀ t, t ≠ .ramp → db'' t = db' t

/-- Rows that are all the company's are what the next persist deletes. -/
theorem wipe_persisted (hown : OwnRows company asOf p)
    (h : persistProjections company asOf p db = .ok db') : db'.wipe company = db.wipe company := by
  obtain ⟨-, hrows⟩ := persistProjections_ok.mp h
  funext t
  have hgone : (t.rows company asOf p).filter (fun r => !t.ownedBy company r) = [] :=
    List.filter_eq_nil_iff.mpr fun r hr => by simp [hown t r hr]
  have hstay : (db.wipe company t).filter (fun r => !t.ownedBy company r) = db.wipe company t := by
    simp [Database.wipe]
  rw [Database.wipe, hrows t, List.filter_append, hgone, hstay, List.append_nil]

theorem ramp_lawful_later {asOf' : DateTime} {rows : List RampEntry} {ramp : List RampRow}
    (h : SqlTable.Lawful .ramp (rows ++ rampEntries company asOf ramp)) :
    SqlTable.Lawful .ramp (rows ++ rampEntries company asOf' ramp) := by
  intro c hc
  obtain rfl := List.mem_singleton.mp hc
  have hc := h _ (List.mem_singleton.mpr rfl)
  rw [Constraint.holds_append] at hc ⊢
  refine ⟨hc.1, ?_, fun x hx y hy => ?_⟩
  · have := hc.2.1
    simpa [Constraint.Holds, rampEntries, unique, List.pairwise_map] using this
  · obtain ⟨r, hr, rfl⟩ := List.mem_map.mp hy
    exact hc.2.2 x hx ⟨company, r.axis, r.value, asOf⟩ (List.mem_map.mpr ⟨r, hr, rfl⟩)

/-- A row of another company is still there when the next persist inserts it once more. -/
theorem ownRows_of_again (h : persistProjections company asOf p db = .ok db')
    (hagain : persistProjections company asOf p db' = .ok db') : OwnRows company asOf p := by
  obtain ⟨-, hrows⟩ := persistProjections_ok.mp h
  intro t r hr
  by_contra hown
  obtain ⟨c, hc, hreq⟩ := exists_required t
  have hlaw := ((persistProjections_ok.mp hagain).1 t).2 c hc
  obtain ⟨hold, hnew, hcross⟩ := Constraint.holds_append.mp hlaw
  have hstill : r ∈ db'.wipe company t := by
    refine List.mem_filter.mpr ⟨?_, by simpa using hown⟩
    rw [hrows t]
    exact List.mem_append_right _ hr
  exact hnew.1 hreq r hr (hcross r hstill r hr rfl)

theorem isolated_iff (h : persistProjections company asOf p db = .ok db') :
    Isolated company asOf p db db' ↔ OwnRows company asOf p := by
  obtain ⟨hok, hrows⟩ := persistProjections_ok.mp h
  constructor
  · intro hiso
    exact ownRows_of_again h hiso.again
  · intro hown
    have hwipe := wipe_persisted hown h
    refine ⟨fun other hne t => ?_, ?_, fun asOf' => ?_⟩
    · have hnone : (t.rows company asOf p).filter (t.ownedBy other) = [] :=
        List.filter_eq_nil_iff.mpr fun r hr hother => hne (ownedBy_unique hother (hown t r hr))
      rw [hrows t, List.filter_append, hnone, List.append_nil, Database.wipe, List.filter_filter]
      refine List.filter_congr fun r _ => ?_
      cases hother : t.ownedBy other r with
      | false => simp
      | true =>
        have : t.ownedBy company r = false := by
          by_contra hcompany
          exact hne (ownedBy_unique hother (by simpa using hcompany))
        simp [this]
    · refine persistProjections_ok.mpr ⟨fun t => ?_, fun t => ?_⟩
      · rw [hwipe]
        exact hok t
      · rw [hwipe]
        exact hrows t
    · refine ⟨_, persistProjections_ok.mpr ⟨fun t => ?_, fun _ => rfl⟩, fun t ht => ?_⟩
      · rw [hwipe]
        refine ⟨(hok t).1, ?_⟩
        cases t with
        | ramp => exact ramp_lawful_later (hok .ramp).2
        | _ => exact (hok _).2
      · rw [hwipe, hrows t]
        cases t with
        | ramp => exact absurd rfl ht
        | _ => rfl

end

/-! ### The fold -/

/-- Where the args of an entry name a tenant or a company of a row, they name this one. -/
structure LedgerRow.NamesOnly (company : UUID) (e : LedgerRow) : Prop where
  tenant : ∀ tool ∈ ["emit_person_proposed", "emit_install_completed", "emit_mcp_call_received",
    "emit_setup_step_advanced"],
      e.Calls tool fun args => (args.get "tenant_id").toUUID = .ok company
  agent : ∀ tool ∈ ["emit_agent_registered", "emit_agent_grant"],
    e.Calls tool fun args => (args.get "company_id").or (.str e.company) = .str company.str

/-- The rows of a part that carry a company or tenant of their own carry this one. -/
def Part.Owned (company : UUID) : (p : Part) → p.Carrier → Prop
  | people, t => (∀ p ∈ t.persons.rows, p.2.tenantId = company) ∧
      ∀ p ∈ t.identities.rows, p.2.tenantId = company
  | installs, t => ∀ p ∈ t.rows, p.2.tenantId = company
  | setupProgress, t => ∀ r ∈ t.rows, r.tenantId = company
  | roles, t => ∀ r ∈ t.rows, r.tenantId = company
  | dataProducts, t => (∀ p ∈ t.products.rows, p.2.tenantId = company) ∧
      (∀ r ∈ t.runs.rows, r.tenantId = company) ∧ ∀ r ∈ t.consumption.rows, r.tenantId = company
  | notebooks, t => (∀ p ∈ t.notebooks.rows, p.2.tenantId = company) ∧
      ∀ r ∈ t.runs.rows, r.tenantId = company
  | mcpCalls, t => ∀ p ∈ t.rows, p.2.tenantId = company
  | externalCatalog, t => ∀ r ∈ t.rows, r.companyId = company
  | externalLineage, t => ∀ r ∈ t.rows, r.companyId = company
  | externalPolicy, t => ∀ r ∈ t.rows, r.companyId = company
  | externalMetric, t => ∀ r ∈ t.rows, r.companyId = company
  | catalogTables, t => ∀ r ∈ t.rows, r.companyId = company.str
  | agents, t => ∀ r ∈ t.rows, r.companyId = .str company.str
  | agentGrants, t => ∀ r ∈ t.rows, r.companyId = company.str
  | agentQueries, t => ∀ r ∈ t.rows, r.companyId = company.str
  | credentials, t => ∀ r ∈ t.rows.rows, r.companyId = company.str
  | queryOutcomes, t => ∀ r ∈ t.rows, r.companyId = company.str
  | queryTemplates, t => ∀ r ∈ t.rows, r.companyId = company.str
  | axis _, t => ∀ r ∈ t.rows, r.companyId = company.str
  | _, _ => True

section
variable {py : Interp} {company : UUID} {asOf : DateTime} {s s' : State} {e : LedgerRow}
  {args : Dict} {tool : String}

theorem calls_of_mem {tools : List String} {P : Dict → Prop} (h : ∀ tool ∈ tools, e.Calls tool P)
    (hact : e.action = some (tool, args)) (hmem : tool ∈ tools) : P args :=
  h tool hmem args hact

/-- The person part: its rows are the tenant's that the args name. -/
theorem people_owned {people people' : People} {run : Fold People} (hcompany : e.companyId = company)
    (hnames : e.NamesOnly company) (hact : e.action = some (tool, args))
    (hmem : (tool, run) ∈ Part.people.handlers py) (hrun : run e args people = .ok people')
    (hown : Part.people.Owned company people) : Part.people.Owned company people' := by
  obtain ⟨hpersons, hids⟩ := hown
  have hrevise : people.Revises Person.SameIds people' → Part.people.Owned company people' := by
    rintro ⟨hupd, hsame⟩
    exact ⟨forall_mem_updates hupd (fun _ _ hr h => hr.2.trans h) hpersons, hsame ▸ hids⟩
  have hadd : ∀ {tid personId tenantId platform userId name email},
      addIdentity py e tid personId tenantId platform userId name email people.identities =
        .ok people'.identities → tenantId = company →
          ∀ p ∈ people'.identities.rows, p.2.tenantId = company := by
    rintro tid personId tenantId platform userId name email hadd rfl p hp
    obtain ⟨r, -, -, -, -, htenant, heq⟩ := addIdentity_ok py hadd
    rw [heq] at hp
    rcases Table.mem_putNew.mp hp with hp | ⟨rfl, -⟩
    · exact hids p hp
    · exact htenant
  simp only [Part.handlers, List.mem_cons, Prod.mk.injEq, List.not_mem_nil, or_false] at hmem
  rcases hmem with ⟨rfl, rfl⟩ | ⟨rfl, rfl⟩ | ⟨rfl, rfl⟩ | ⟨rfl, rfl⟩ | ⟨rfl, rfl⟩ | ⟨rfl, rfl⟩ |
    ⟨rfl, rfl⟩
  · obtain ⟨pid, tid, r, -, -, -, htenant, -, heq, hidentity⟩ := emitPersonProposed_ok py hrun
    have hr : r.tenantId = company := by
      have := calls_of_mem hnames.tenant hact (by decide)
      exact Except.ok.inj (htenant.symm.trans this)
    refine ⟨heq ▸ Table.forall_mem_put hpersons hr, ?_⟩
    split at hidentity
    · exact hadd hidentity hr
    · exact hidentity ▸ hids
  · exact hrevise (emitPersonConfirmed_ok hrun)
  · exact hrevise (emitPersonArchived_ok hrun)
  · obtain ⟨person, -, heq, hidentity⟩ := emitIdentityLinked_ok py hrun
    exact ⟨heq ▸ hpersons, hadd hidentity hcompany⟩
  · obtain ⟨heq, hidentity⟩ := emitIdentityUnlinked_ok hrun
    refine ⟨heq ▸ hpersons, ?_⟩
    rcases hidentity with ⟨platform, userId, -, -, heq⟩ | ⟨-, heq⟩
    · rw [heq]
      exact fun p hp => hids p (Table.mem_erase.mp hp).1
    · exact heq ▸ hids
  · exact hrevise (emitPositionProposed_ok hrun)
  · exact hrevise (emitPositionRejected_ok hrun)

theorem company_text (hcompany : e.companyId = company) : e.company = company.str :=
  congrArg UUID.str hcompany

theorem installs_owned {t t' : Installs} {run : Fold Installs} (hnames : e.NamesOnly company)
    (hact : e.action = some (tool, args)) (hmem : (tool, run) ∈ Part.installs.handlers py)
    (hrun : run e args t = .ok t') (hown : Part.installs.Owned company t) :
    Part.installs.Owned company t' := by
  have htenant : ∀ target f, (∀ r : Install, (f r).tenantId = r.tenantId) →
      Part.installs.Owned company (updateTenant target f t) := by
    intro target f hf p hp
    obtain ⟨q, hq, rfl⟩ := List.mem_map.mp hp
    simp only [onValue]
    split
    · exact (hf q.2).trans (hown q hq)
    · exact hown q hq
  simp only [Part.handlers, List.mem_cons, Prod.mk.injEq, List.not_mem_nil, or_false] at hmem
  rcases hmem with ⟨rfl, rfl⟩ | ⟨rfl, rfl⟩ | ⟨rfl, rfl⟩ | ⟨rfl, rfl⟩
  · obtain ⟨tid, key, r, -, hr, -, -, -, rfl⟩ := emitInstallCompleted_ok hrun
    have := calls_of_mem hnames.tenant hact (by decide)
    exact Table.forall_mem_put hown (Except.ok.inj (hr.symm.trans this))
  · obtain ⟨target, -, hrun⟩ := bind_eq_ok.mp hrun
    rw [← Except.ok.inj hrun]
    refine Table.forall_mem_updateRow (fun p hp => ?_) hown
    exact hp
  · obtain ⟨target, -, hrun⟩ := bind_eq_ok.mp hrun
    obtain ⟨mode, -, hrun⟩ := bind_eq_ok.mp hrun
    rw [← Except.ok.inj hrun]
    exact htenant _ _ fun _ => rfl
  · obtain ⟨target, -, hrun⟩ := bind_eq_ok.mp hrun
    rw [← Except.ok.inj hrun]
    exact htenant _ _ fun _ => rfl

/-- Every role handler leaves the tenants of the grants or adds a grant of the company. -/
theorem roles_owned {t t' : Roles} {run : Fold Roles} (hcompany : e.companyId = company)
    (hmem : (tool, run) ∈ Part.roles.handlers py) (hrun : run e args t = .ok t')
    (hown : Part.roles.Owned company t) : Part.roles.Owned company t' := by
  have hadd : ∀ {facet pid role scope scopeId scopeType grantedBy},
      addGrant py e facet pid role scope scopeId scopeType grantedBy t = .ok t' →
        Part.roles.Owned company t' := by
    intro facet pid role scope scopeId scopeType grantedBy h
    obtain ⟨r, -, hr, -, -, -, -, -, -, -, rfl⟩ := addGrant_ok h
    exact Table.forall_mem_put hown (hr.trans hcompany)
  simp only [Part.handlers, List.mem_cons, Prod.mk.injEq, List.not_mem_nil, or_false] at hmem
  rcases hmem with ⟨-, rfl⟩ | ⟨-, rfl⟩ | ⟨-, rfl⟩ | ⟨-, rfl⟩ | ⟨-, rfl⟩
  · exact hadd (emitRoleAssigned_ok hrun)
  · rw [emitRoleRevoked_ok hrun]
    refine Table.forall_mem_updateRow (fun g hg => ?_) hown
    exact hg
  · obtain ⟨domain, -, hrun⟩ := emitDomainRoleAssigned_ok hrun
    exact hadd hrun
  · obtain ⟨resource, -, hrun⟩ := emitResourceRoleAssigned_ok hrun
    exact hadd hrun
  · obtain ⟨resource, -, hrun⟩ := emitResourceRoleProposed_ok hrun
    exact hadd hrun

/-- Every other handler puts rows of the entry's company, or of the company that the args name. -/
theorem handler_owned {p : Part} {t t' : p.Carrier} {run : Fold p.Carrier}
    (hcompany : e.companyId = company) (hnames : e.NamesOnly company)
    (hact : e.action = some (tool, args)) (hmem : (tool, run) ∈ p.handlers py)
    (hrun : run e args t = .ok t') (hown : p.Owned company t) : p.Owned company t' := by
  have htext := company_text hcompany
  cases p with
  | people => exact people_owned hcompany hnames hact hmem hrun hown
  | installs => exact installs_owned hnames hact hmem hrun hown
  | roles => exact roles_owned hcompany hmem hrun hown
  | setupProgress =>
    obtain ⟨rfl, rfl⟩ := Prod.mk.inj (List.mem_singleton.mp hmem)
    obtain ⟨r, hr, rfl⟩ := emitSetupStepAdvanced_ok hrun
    have := calls_of_mem hnames.tenant hact (by decide)
    exact Table.forall_mem_put hown (Except.ok.inj (hr.symm.trans this))
  | dataProducts =>
    obtain ⟨hproducts, hruns, hconsumption⟩ := hown
    simp only [Part.handlers, List.mem_cons, Prod.mk.injEq, List.not_mem_nil, or_false] at hmem
    have hkept : Updates DataProduct.SameIds t.products t'.products →
        ∀ p ∈ t'.products.rows, p.2.tenantId = company := fun hupd =>
      forall_mem_updates hupd (fun _ _ hr h => hr.2.trans h) hproducts
    rcases hmem with ⟨-, rfl⟩ | ⟨-, rfl⟩ | ⟨-, rfl⟩ | ⟨-, rfl⟩
    · obtain ⟨dpid, r, -, -, hr, heq, heq', heq''⟩ := emitDataProductProposed_ok hrun
      exact ⟨heq ▸ Table.forall_mem_put hproducts (hr.trans hcompany), heq' ▸ hruns,
        heq'' ▸ hconsumption⟩
    · obtain ⟨hupd, heq, r, hr, heq'⟩ := emitDataProductGenerated_ok hrun
      exact ⟨hkept hupd, heq' ▸ Table.forall_mem_put hruns (hr.trans hcompany), heq ▸ hconsumption⟩
    · obtain ⟨heq, heq', r, hr, heq''⟩ := emitDataProductConsumed_ok hrun
      exact ⟨heq ▸ hproducts, heq' ▸ hruns,
        heq'' ▸ Table.forall_mem_put hconsumption (hr.trans hcompany)⟩
    · obtain ⟨hupd, heq, heq'⟩ := emitDataProductArchived_ok hrun
      exact ⟨hkept hupd, heq ▸ hruns, heq' ▸ hconsumption⟩
  | notebooks =>
    obtain ⟨hnotebooks, hruns⟩ := hown
    simp only [Part.handlers, List.mem_cons, Prod.mk.injEq, List.not_mem_nil, or_false] at hmem
    have hkept : Updates Notebook.SameIds t.notebooks t'.notebooks →
        ∀ p ∈ t'.notebooks.rows, p.2.tenantId = company := fun hupd =>
      forall_mem_updates hupd (fun _ _ hr h => hr.2.trans h) hnotebooks
    rcases hmem with ⟨-, rfl⟩ | ⟨-, rfl⟩ | ⟨-, rfl⟩ | ⟨-, rfl⟩
    · obtain ⟨nid, r, -, -, hr, heq, heq'⟩ := emitNotebookProposed_ok hrun
      exact ⟨heq ▸ Table.forall_mem_put hnotebooks (hr.trans hcompany), heq' ▸ hruns⟩
    · obtain ⟨hupd, r, hr, heq⟩ := emitNotebookRun_ok hrun
      exact ⟨hkept hupd, heq ▸ Table.forall_mem_put hruns (hr.trans hcompany)⟩
    · obtain ⟨hupd, heq⟩ := emitNotebookPublished_ok hrun
      exact ⟨hkept hupd, heq ▸ hruns⟩
    · obtain ⟨hupd, heq⟩ := emitNotebookArchived_ok hrun
      exact ⟨hkept hupd, heq ▸ hruns⟩
  | mcpCalls =>
    obtain ⟨rfl, rfl⟩ := Prod.mk.inj (List.mem_singleton.mp hmem)
    obtain ⟨id, r, -, -, hr, rfl⟩ := emitMcpCallReceived_ok hrun
    have := calls_of_mem hnames.tenant hact (by decide)
    exact Table.forall_mem_put hown (Except.ok.inj (hr.symm.trans this))
  | externalCatalog =>
    obtain ⟨-, rfl⟩ := Prod.mk.inj (List.mem_singleton.mp hmem)
    obtain ⟨r, hr, rfl⟩ := emitExternalCatalogImported_ok hrun
    exact Table.forall_mem_put hown (hr.trans hcompany)
  | externalLineage =>
    obtain ⟨-, rfl⟩ := Prod.mk.inj (List.mem_singleton.mp hmem)
    exact emitExternalLineageImported_ok (P := Part.externalLineage.Owned company) hrun
      (fun u r hu hr => Table.forall_mem_put hu (hr.trans hcompany)) hown
  | externalPolicy =>
    obtain ⟨-, rfl⟩ := Prod.mk.inj (List.mem_singleton.mp hmem)
    obtain ⟨r, -, -, -, hr, rfl⟩ := emitExternalPolicyImported_ok hrun
    exact Table.forall_mem_put hown (hr.trans hcompany)
  | externalMetric =>
    obtain ⟨-, rfl⟩ := Prod.mk.inj (List.mem_singleton.mp hmem)
    obtain ⟨r, -, -, -, hr, rfl⟩ := emitExternalMetricImported_ok hrun
    exact Table.forall_mem_put hown (hr.trans hcompany)
  | catalogTables =>
    obtain ⟨-, rfl⟩ := Prod.mk.inj (List.mem_singleton.mp hmem)
    rcases emitCatalogTableImported_ok hrun with rfl | ⟨r, hr, rfl⟩
    · exact hown
    · exact Table.forall_mem_put hown (hr.trans htext)
  | agents =>
    obtain ⟨rfl, rfl⟩ := Prod.mk.inj (List.mem_singleton.mp hmem)
    obtain ⟨r, -, -, hr, -, rfl⟩ := emitAgentRegistered_ok hrun
    have := calls_of_mem hnames.agent hact (by decide)
    exact Table.forall_mem_put hown (hr.trans this)
  | agentGrants =>
    obtain ⟨rfl, rfl⟩ := Prod.mk.inj (List.mem_singleton.mp hmem)
    obtain ⟨r, -, hr, -, -, -, rfl⟩ := emitAgentGrant_ok hrun
    have := calls_of_mem hnames.agent hact (by decide)
    exact Table.forall_mem_put hown (Val.str.inj (hr.symm.trans this))
  | queryOutcomes =>
    obtain ⟨-, rfl⟩ := Prod.mk.inj (List.mem_singleton.mp hmem)
    obtain ⟨r, hr, rfl⟩ := emitQueryOutcomeRecorded_ok hrun
    exact Table.forall_mem_put hown (hr.trans htext)
  | axis a =>
    rcases axisHandler_ok hmem hrun with rfl | ⟨r, hr, rfl⟩
    · exact hown
    · exact Table.forall_mem_put hown (hr.trans htext)
  | agentQueries | credentials | queryTemplates => exact absurd hmem List.not_mem_nil
  | _ => trivial

theorem envelope_owned {p : Part} {t t' : p.Carrier} (hcompany : e.companyId = company)
    (h : envelopeAt py p t e = .ok t') (hown : p.Owned company t) : p.Owned company t' := by
  have htext := company_text hcompany
  unfold envelopeAt at h
  split at h
  · rename_i payload hpayload
    split at h
    · split at h
      · split at h
        · obtain ⟨k, r, -, rfl, ⟨-, -, hr⟩ | ⟨q, hget, -, hr⟩⟩ := applyAgentQuery_ok h
          · exact Table.forall_mem_put hown (hr.trans htext)
          · exact Table.forall_mem_put hown (hr.trans (hown q (Table.get?_eq_some_iff.mp hget).1))
        · exact Except.ok.inj h ▸ hown
      · split at h
        · refine applyCredential_ok (P := fun rows => ∀ r ∈ rows.rows, r.companyId = company.str) h
            (fun u r hu hr => ?_) hown
          rcases hr with hr | ⟨c, hc, hr⟩
          · exact Table.forall_mem_put hu (hr.trans htext)
          · exact Table.forall_mem_put hu (hr.trans (hu c hc))
        · exact Except.ok.inj h ▸ hown
      · split at h
        · rcases applyQueryTemplate_ok h with rfl | ⟨r, hr, rfl⟩
          · exact hown
          · exact Table.forall_mem_put hown (hr.trans htext)
        · exact Except.ok.inj h ▸ hown
      · exact Except.ok.inj h ▸ hown
    · exact Except.ok.inj h ▸ hown
  · exact Except.ok.inj h ▸ hown

/-- One entry of the company. -/
theorem step_owned {p : Part} {t t' : p.Carrier} (hcompany : e.companyId = company)
    (hnames : e.NamesOnly company) (h : stepAt py p t e = .ok t') (hown : p.Owned company t) :
    p.Owned company t' := by
  obtain ⟨u, hu, h⟩ := bind_eq_ok.mp h
  obtain ⟨v, hv, h⟩ := bind_eq_ok.mp h
  have hown := envelope_owned hcompany hu hown
  have hown : p.Owned company v := by
    unfold actAt at hv
    split at hv
    · rename_i tool args hact
      split at hv
      · rename_i run hrun
        have hmem := (lookup_iff_mem (handlers_nodup py p)).mp hrun
        exact handler_owned hcompany hnames hact hmem hv hown
      · exact Except.ok.inj hv ▸ hown
    · exact Except.ok.inj hv ▸ hown
  rw [← Except.ok.inj h]
  cases p with
  | counts => trivial
  | _ => exact hown

theorem initial_owned (company : UUID) (p : Part) : p.Owned company (initialProjectionState p) := by
  cases p with
  | people | notebooks => exact ⟨fun _ h => absurd h List.not_mem_nil, fun _ h => absurd h List.not_mem_nil⟩
  | dataProducts => exact ⟨fun _ h => absurd h List.not_mem_nil,
      fun _ h => absurd h List.not_mem_nil, fun _ h => absurd h List.not_mem_nil⟩
  | sources | memory | kpiNodes | topics | counts => trivial
  | _ => exact fun _ h => absurd h List.not_mem_nil

/-- The rows of a ledger of the company whose entries name no other one are all the company's. -/
theorem ownRows_of_names {es : List LedgerRow} {p : Projections}
    (hes : ∀ e ∈ es, e.companyId = company ∧ e.NamesOnly company)
    (h : projectionsOf py es = .ok p) : OwnRows company asOf p := by
  obtain ⟨s, hs, hsp⟩ := projectionsOf_ok h
  have hown : ∀ p : Part, p.Owned company (s p) := fun p =>
    foldAt_invariant (P := p.Owned company)
      (fun e he t t' ht hstep => step_owned (hes e he).1 (hes e he).2 hstep ht)
      (initial_owned company p) (foldEntries_at hs p)
  intro t r hr
  replace hr := (rows_perm hsp t).mem_iff.mp hr
  cases t with
  | sources | memory | kpiNodes | ramp | topics =>
    obtain ⟨q, -, rfl⟩ := List.mem_map.mp hr
    exact decide_eq_true rfl
  | persons =>
    obtain ⟨q, hq, rfl⟩ := List.mem_map.mp hr
    exact decide_eq_true ((hown .people).1 q hq)
  | personIdentities =>
    obtain ⟨q, hq, rfl⟩ := List.mem_map.mp hr
    exact decide_eq_true ((hown .people).2 q hq)
  | installs =>
    obtain ⟨q, hq, rfl⟩ := List.mem_map.mp hr
    exact decide_eq_true (hown .installs q hq)
  | setupProgress => exact decide_eq_true (hown .setupProgress r hr)
  | roles => exact decide_eq_true (hown .roles r hr)
  | dataProducts =>
    obtain ⟨q, hq, rfl⟩ := List.mem_map.mp hr
    exact decide_eq_true ((hown .dataProducts).1 q hq)
  | dataProductRuns => exact decide_eq_true ((hown .dataProducts).2.1 r hr)
  | dataProductConsumption => exact decide_eq_true ((hown .dataProducts).2.2 r hr)
  | notebooks =>
    obtain ⟨q, hq, rfl⟩ := List.mem_map.mp hr
    exact decide_eq_true ((hown .notebooks).1 q hq)
  | notebookRuns => exact decide_eq_true ((hown .notebooks).2 r hr)
  | mcpCalls =>
    obtain ⟨q, hq, rfl⟩ := List.mem_map.mp hr
    exact decide_eq_true (hown .mcpCalls q hq)
  | externalCatalog => exact decide_eq_true (hown .externalCatalog r hr)
  | externalLineage => exact decide_eq_true (hown .externalLineage r hr)
  | externalPolicy => exact decide_eq_true (hown .externalPolicy r hr)
  | externalMetric => exact decide_eq_true (hown .externalMetric r hr)
  | agents => exact Val.isText_iff.mpr (hown .agents r hr)
  | agentGrants =>
    simp only [SqlTable.ownedBy, decide_eq_true_eq]
    exact hown .agentGrants r hr
  | agentQueries =>
    simp only [SqlTable.ownedBy, decide_eq_true_eq]
    exact hown .agentQueries r hr
  | credentials =>
    simp only [SqlTable.ownedBy, decide_eq_true_eq]
    exact hown .credentials r hr
  | queryOutcomes =>
    simp only [SqlTable.ownedBy, decide_eq_true_eq]
    exact hown .queryOutcomes r hr
  | queryTemplates =>
    simp only [SqlTable.ownedBy, decide_eq_true_eq]
    exact hown .queryTemplates r hr
  | axis a =>
    simp only [SqlTable.ownedBy, decide_eq_true_eq]
    exact hown (.axis a) r hr
  | catalogTables =>
    simp only [SqlTable.ownedBy, decide_eq_true_eq]
    exact hown .catalogTables r hr

end

/-- A persist that goes through is isolated exactly if all its rows are the company's; and they are
    for every ledger of the company whose entries name no other tenant or company. -/
theorem persist_isolated (company : UUID) (asOf : DateTime) :
    (∀ p db db', persistProjections company asOf p db = .ok db' →
      (Isolated company asOf p db db' ↔ OwnRows company asOf p)) ∧
    ∀ py es, (∀ e ∈ es, LedgerRow.companyId e = company ∧ e.NamesOnly company) →
      ∀ p, projectionsOf py es = .ok p →
        ∀ db db', persistProjections company asOf p db = .ok db' →
          Isolated company asOf p db db' := by
  refine ⟨fun p db db' h => isolated_iff h, fun py es hes p hp db db' h => ?_⟩
  exact (isolated_iff h).mpr (ownRows_of_names hes hp)

/-! ### Two ledgers of one company -/

/-- A person whose args name a tenant. -/
def samplePerson (tenant : String) : Dict :=
  [(.str "person_id", .str "00000000-0000-0000-0000-000000000001"), (.str "tenant_id", .str tenant),
    (.str "name", .str "Ana")]

theorem samplePerson_fits (tenant : String) :
    FitsAll .plain (cycle 1 "emit_person_proposed" (samplePerson tenant)) := by
  refine cycle_fits fun t => ?_
  have hact : (executed 2 "emit_person_proposed" (samplePerson tenant)).action =
      some ("emit_person_proposed", samplePerson tenant) := rfl
  cases t with
  | persons =>
    rw [SqlTable.Fits, calls_iff hact]
    exact fun _ m hm => absurd hm List.not_mem_nil
  | personIdentities =>
    rw [SqlTable.Fits, calls_iff hact, calls_iff hact]
    refine ⟨?_, by simp⟩
    rintro - tid u platform userId - - hplatform
    cases hplatform
  | agentQueries =>
    rintro payload hpayload - hshape
    obtain rfl := Val.dict.inj hpayload
    cases hshape
  | _ => first | trivial | simp [SqlTable.Fits, calls_iff hact]

/-- A person of another tenant: the row is inserted there and makes the next persist abort. -/
theorem foreignPerson_leaks : ∃ p, projectionsOf .plain
      (cycle 1 "emit_person_proposed" (samplePerson "00000000-0000-0000-0000-000000000002")) = .ok p ∧
    ∀ asOf, ∃ db, persistProjections ⟨0⟩ asOf p (fun _ => []) = .ok db ∧
    (db .persons).filter (SqlTable.ownedBy ⟨2⟩ .persons) ≠ [] ∧
    persistProjections ⟨0⟩ asOf p db ≠ .ok db ∧ ¬Isolated ⟨0⟩ asOf p (fun _ => []) db := by
  obtain ⟨s, hs, hkpi, hinstalls, hpersons⟩ : ∃ s, foldEntries .plain initialProjectionState
      (cycle 1 "emit_person_proposed" (samplePerson "00000000-0000-0000-0000-000000000002")) = .ok s ∧
        s .kpiNodes = .empty ∧ s .installs = .empty ∧
          (s .people).persons.rows.map (fun p => p.2.tenantId) = [⟨2⟩] := ⟨_, rfl, rfl, rfl, rfl⟩
  simp only [List.map_eq_cons_iff, List.map_eq_nil_iff] at hpersons
  obtain ⟨q, _, hrows, htenant, rfl⟩ := hpersons
  obtain ⟨p, -, hbuilt, -, -⟩ := fitting_persisted hs (samplePerson_fits _) hkpi hinstalls ⟨0⟩ ⟨⟨0, by decide⟩, none⟩
  refine ⟨p, hbuilt, fun asOf => ?_⟩
  obtain ⟨p', db, hbuilt', hp, hdb⟩ := fitting_persisted hs (samplePerson_fits _) hkpi hinstalls ⟨0⟩ asOf
  obtain rfl := Except.ok.inj (hbuilt.symm.trans hbuilt')
  have hmem : q.2 ∈ SqlTable.rows ⟨0⟩ asOf p .persons := by
    rw [(rows_perm hp .persons).mem_iff, SqlTable.stateRows, hrows]
    exact List.mem_singleton.mpr rfl
  have hnot : ¬OwnRows ⟨0⟩ asOf p := by
    intro hown
    have := hown .persons q.2 hmem
    simp [SqlTable.ownedBy, htenant] at this
  refine ⟨db, hdb, ?_, fun hagain => hnot (ownRows_of_again hdb hagain),
    fun hiso => hnot (ownRows_of_again hdb hiso.again)⟩
  have hthere : q.2 ∈ db .persons := by
    rw [(persistProjections_ok.mp hdb).2 .persons]
    exact List.mem_append_right _ hmem
  exact List.ne_nil_of_mem (List.mem_filter.mpr ⟨hthere, by simp [SqlTable.ownedBy, htenant]⟩)

/-- A person of the company itself. -/
theorem ownPerson_isolated (asOf : DateTime) : ∃ p db, projectionsOf .plain
      (cycle 1 "emit_person_proposed" (samplePerson "00000000-0000-0000-0000-000000000000")) = .ok p ∧
    persistProjections ⟨0⟩ asOf p (fun _ => []) = .ok db ∧ Isolated ⟨0⟩ asOf p (fun _ => []) db := by
  obtain ⟨s, hs, hkpi, hinstalls⟩ : ∃ s, foldEntries .plain initialProjectionState
      (cycle 1 "emit_person_proposed" (samplePerson "00000000-0000-0000-0000-000000000000")) = .ok s ∧
        s .kpiNodes = .empty ∧ s .installs = .empty := ⟨_, rfl, rfl, rfl⟩
  obtain ⟨p, db, hbuilt, -, hdb⟩ :=
    fitting_persisted hs (samplePerson_fits _) hkpi hinstalls ⟨0⟩ asOf
  refine ⟨p, db, hbuilt, hdb, (persist_isolated ⟨0⟩ asOf).2 .plain _ ?_ p hbuilt _ db hdb⟩
  have hquiet : ∀ e : LedgerRow, e.action = none → e.NamesOnly ⟨0⟩ := fun e hact =>
    ⟨fun tool _ => calls_of_none hact tool _, fun tool _ => calls_of_none hact tool _⟩
  have hact : (executed 2 "emit_person_proposed"
      (samplePerson "00000000-0000-0000-0000-000000000000")).action = some ("emit_person_proposed",
        samplePerson "00000000-0000-0000-0000-000000000000") := rfl
  intro e he
  simp only [cycle, List.mem_cons, List.not_mem_nil, or_false] at he
  rcases he with rfl | rfl | rfl | rfl
  · exact ⟨rfl, hquiet _ rfl⟩
  · refine ⟨rfl, ⟨fun tool _ => (calls_iff hact).mpr fun _ => rfl, fun tool htool => ?_⟩⟩
    refine (calls_iff hact).mpr ?_
    rintro rfl
    exact absurd htool (by decide)
  · exact ⟨rfl, hquiet _ rfl⟩
  · exact ⟨rfl, hquiet _ rfl⟩

end Projection
