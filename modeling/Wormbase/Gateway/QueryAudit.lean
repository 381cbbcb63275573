import Wormbase.Gateway.QueryCalls

/-! When a query leaves its audit cycle behind.

    The executor is asked before the cycle is written, so a query stays without one when the executor raises,
    or when the ledger does not take the cycle. -/

namespace Gateway
open Py
open Ledger (Entry)

section
variable {py : Interp} {chars : CharTable} {companyId : UUID} {agentId : String} {a : QueryAnswers}
  {sha256 : Bytes → Bytes} {d : Ledger.Dialect} {rows : List Entry}

/-! ### The rows of a cycle -/

/-- A field of the payload of a row. -/
def rowField (row : Entry) (name : String) : Val :=
  match row.payload with
  | .dict payload => Dict.get payload name
  | _ => .none

/-- The four rows of an `agent_query` cycle: the phases of one tool call under one id. -/
def CycleRows (companyId trail : UUID) (mcpTool : String) (new : List Entry) : Prop :=
  new.map (fun row => (row.companyId, row.kind, rowField row "audit_trail_id", rowField row "mcp_tool", rowField row "phase")) =
    [(companyId, .propose, .str trail.str, .str mcpTool, .str "propose"),
      (companyId, .execute, .str trail.str, .str mcpTool, .str "execute"),
      (companyId, .verify, .str trail.str, .str mcpTool, .str "verify"),
      (companyId, .resolve, .str trail.str, .str mcpTool, .str "resolve")]

/-- The ledger has a new cycle of a call. -/
def HoldsCycle (companyId : UUID) (a : QueryAnswers) (call : QueryCall) (rows rows' : List Entry) : Prop :=
  ∃ new, rows' = rows ++ new ∧ CycleRows companyId a.auditTrailId call.mcpTool new

theorem rowField_stored {b : Ledger.Body} {row : Entry} {D : List (String × Val)} (h : Ledger.Stored sha256 d b row)
    (hpayload : b.payload = .dict (D.map strItem)) (hkeys : (D.map Prod.fst).Nodup) (name : String) :
    rowField row name = backOf (Dict.get (D.map strItem) name) := by
  have hback := h.payload
  rw [hpayload] at hback
  rw [rowField, jsonColumn_dict hkeys hback]
  exact get_backDict name D

/-- The fields that every phase of a cycle has. -/
def phaseFields (agentId : String) (trail : UUID) (q : AgentQuery) (phase : String) (rowCount latencyMs : Val) :
    List (String × Val) :=
  [("agent_id", .str agentId), ("mcp_tool", .str q.mcpTool), ("args", .dict q.args), ("route_mode", .str q.routeMode),
    ("phase", .str phase), ("row_count", rowCount), ("cost_usd", .none), ("latency_ms", latencyMs), ("caused_by", .none),
    ("audit_trail_id", .str trail.str)]

section
variable (agentId : String) (trail : UUID) (ids : CycleIds) (q : AgentQuery) (metric : Val) (result : ℕ × String) (latencyMs : ℤ)

def executeFields : List (String × Val) :=
  ("propose_entry_id", .str ids.proposeId.str) :: (phaseFields agentId trail q "execute" (.int result.1) (.int latencyMs) ++
    [("result_ref", .str result.2), ("metric_name", metric)])

def verifyFields : List (String × Val) :=
  ("execute_entry_id", .str ids.executeId.str) :: (phaseFields agentId trail q "verify" (.int result.1) (.int latencyMs) ++
    [("passed", .bool true), ("checks", defaultChecks)])

def resolveFields : List (String × Val) :=
  ("verify_entry_id", .str ids.verifyId.str) :: (phaseFields agentId trail q "resolve" (.int result.1) (.int latencyMs) ++
    [("outcome", .str "keep"), ("rationale", .str "agent_query verified")])

/-- The fields of the four rows of a broker query. -/
def brokerFields : List (List (String × Val)) :=
  [phaseFields agentId trail q "propose" .none .none, executeFields agentId trail ids q metric result latencyMs,
    verifyFields agentId trail ids q result latencyMs, resolveFields agentId trail ids q result latencyMs]

end

theorem nodup_brokerFields (trail : UUID) (ids : CycleIds) (q : AgentQuery) (metric : Val) (result : ℕ × String)
    (latencyMs : ℤ) : ∀ D ∈ brokerFields agentId trail ids q metric result latencyMs, (D.map Prod.fst).Nodup := by
  simp [brokerFields, executeFields, verifyFields, resolveFields, phaseFields]

theorem setDefaults_broker (trail : UUID) (q : AgentQuery) (metric : Val) (result : ℕ × String) :
    setDefaults ((phaseFields agentId trail q "execute" (.int result.1) (.int a.latencyMs)).map strItem)
      (brokerBody a metric result) = (phaseFields agentId trail q "execute" (.int result.1) (.int a.latencyMs) ++
        [("result_ref", .str result.2), ("metric_name", metric)]).map strItem := by
  simp [setDefaults, phaseFields, brokerBody, strItem]

/-- The counts of a payload that a later phase copies. -/
theorem get_counts (trail : UUID) (q : AgentQuery) {phase name : String} {id rowCount latencyMs : Val}
    (hname : name ≠ "row_count" ∧ name ≠ "cost_usd" ∧ name ≠ "latency_ms") (extra : List (String × Val)) {payload : Dict}
    (hpayload : payload = ((name, id) :: (phaseFields agentId trail q phase rowCount latencyMs ++ extra)).map strItem) :
    payload.get "row_count" = rowCount ∧ payload.get "cost_usd" = .none ∧ payload.get "latency_ms" = latencyMs := by
  obtain ⟨h1, h2, h3⟩ := hname
  subst hpayload
  simp [Dict.get, Dict.get?, phaseFields, strItem, h1, h2, h3]

theorem brokerCycle_payloads (call : QueryCall) (route : String) (metric : Val) (result : ℕ × String) :
    (brokerCycle chars companyId agentId a call route metric result).payloads =
      .ok ((brokerFields agentId a.auditTrailId a.queryIds ⟨call.mcpTool, redactArgs chars call.args, route,
        brokerBody a metric result, defaultVerify⟩ metric result a.latencyMs).map fun D => D.map strItem) := by
  generalize hq : AgentQuery.mk call.mcpTool (redactArgs chars call.args) route (brokerBody a metric result) defaultVerify = q
  have hbody : q.executeBody = brokerBody a metric result := hq ▸ rfl
  have hverify : q.verifyBody = defaultVerify := hq ▸ rfl
  have hcounts : Dict.get (brokerBody a metric result) "row_count" = .int result.1 ∧
      Dict.get (brokerBody a metric result) "cost_usd" = .none ∧
      Dict.get (brokerBody a metric result) "latency_ms" = .int a.latencyMs := by
    simp [Dict.get, Dict.get?, brokerBody]
  have hphase : ∀ phase rowCount latencyMs, q.payload agentId a.auditTrailId phase rowCount .none latencyMs =
      (phaseFields agentId a.auditTrailId q phase rowCount latencyMs).map strItem := fun _ _ _ => rfl
  have hdefault : (Dict.getD defaultVerify "passed" (.bool true)).truthy = true ∧
      Dict.getD defaultVerify "checks" defaultChecks = defaultChecks := ⟨rfl, rfl⟩
  have hcall : brokerCycle chars companyId agentId a call route metric result =
      agentQueryPevr companyId agentId a.auditTrailId a.queryIds q := by rw [brokerCycle, hq]
  have hexec : (agentQueryPevr companyId agentId a.auditTrailId a.queryIds q).execPayload =
      .ok ((executeFields agentId a.auditTrailId a.queryIds q metric result a.latencyMs).map strItem) := by
    simp only [Ledger.Call.execPayload, agentQueryPevr, bind, Except.bind, hbody, hcounts, hphase, setDefaults_broker]
    exact Ledger.spread_strItems (by simp [phaseFields])
  have hver : (agentQueryPevr companyId agentId a.auditTrailId a.queryIds q).verifyPayload
      ((executeFields agentId a.auditTrailId a.queryIds q metric result a.latencyMs).map strItem) =
      .ok ((verifyFields agentId a.auditTrailId a.queryIds q result a.latencyMs).map strItem) := by
    have hget := @get_counts agentId a.auditTrailId q "execute" "propose_entry_id" (.str a.queryIds.proposeId.str)
      (.int result.1) (.int a.latencyMs) (by decide) [("result_ref", .str result.2), ("metric_name", metric)] _ rfl
    simp only [Ledger.Call.verifyPayload, agentQueryPevr, bind, Except.bind, hverify, hdefault, executeFields, hget, hphase]
    exact @Ledger.spread_strItems "execute_entry_id" a.queryIds.executeId (phaseFields agentId a.auditTrailId q "verify"
      (.int result.1) (.int a.latencyMs) ++ [("passed", .bool true), ("checks", defaultChecks)]) (by simp [phaseFields])
  have hpassed : Dict.get ((verifyFields agentId a.auditTrailId a.queryIds q result a.latencyMs).map strItem) "passed" =
      .bool true := by
    simp [Dict.get, Dict.get?, verifyFields, phaseFields, strItem]
  have hres : (agentQueryPevr companyId agentId a.auditTrailId a.queryIds q).resolvePayload
      ((verifyFields agentId a.auditTrailId a.queryIds q result a.latencyMs).map strItem) =
      .ok ((resolveFields agentId a.auditTrailId a.queryIds q result a.latencyMs).map strItem) := by
    have hget := @get_counts agentId a.auditTrailId q "verify" "execute_entry_id" (.str a.queryIds.executeId.str)
      (.int result.1) (.int a.latencyMs) (by decide) [("passed", .bool true), ("checks", defaultChecks)] _ rfl
    simp only [Ledger.Call.resolvePayload, agentQueryPevr, bind, Except.bind, hpassed, hphase]
    simp only [verifyFields, hget, hphase]
    exact @Ledger.spread_strItems "verify_entry_id" a.queryIds.verifyId (phaseFields agentId a.auditTrailId q "resolve"
      (.int result.1) (.int a.latencyMs) ++ [("outcome", .str "keep"), ("rationale", .str "agent_query verified")])
      (by simp [phaseFields])
  rw [hcall]
  exact bind_eq_ok.mpr ⟨_, hexec, bind_eq_ok.mpr ⟨_, hver, bind_eq_ok.mpr ⟨_, hres, rfl⟩⟩⟩

/-- The id, the tool and the phase of a row. -/
theorem get_phase (trail : UUID) (q : AgentQuery) (phase : String) (rowCount latencyMs : Val)
    {D extra : List (String × Val)} {name : String} {id : Val}
    (hname : name ≠ "audit_trail_id" ∧ name ≠ "mcp_tool" ∧ name ≠ "phase")
    (hD : D = phaseFields agentId trail q phase rowCount latencyMs ∨
      D = (name, id) :: (phaseFields agentId trail q phase rowCount latencyMs ++ extra)) :
    Dict.get (D.map strItem) "audit_trail_id" = .str trail.str ∧ Dict.get (D.map strItem) "mcp_tool" = .str q.mcpTool ∧
      Dict.get (D.map strItem) "phase" = .str phase := by
  obtain ⟨h1, h2, h3⟩ := hname
  rcases hD with rfl | rfl <;> simp [Dict.get, Dict.get?, phaseFields, strItem, h1, h2, h3]

/-- A row of a broker query shows the id, the tool and the phase of its payload. -/
theorem row_shows {b : Ledger.Body} {row : Entry} {D : List (String × Val)} (h : Ledger.Stored sha256 d b row)
    (hpayload : b.payload = .dict (D.map strItem)) (hkeys : (D.map Prod.fst).Nodup) {trail : UUID} {mcpTool phase : String}
    (hD : Dict.get (D.map strItem) "audit_trail_id" = .str trail.str ∧ Dict.get (D.map strItem) "mcp_tool" = .str mcpTool ∧
      Dict.get (D.map strItem) "phase" = .str phase) :
    (row.companyId, row.kind, rowField row "audit_trail_id", rowField row "mcp_tool", rowField row "phase") =
      (b.companyId, b.kind, .str trail.str, .str mcpTool, .str phase) := by
  obtain ⟨hcompany, -, hkind, -⟩ := h.fields
  obtain ⟨h1, h2, h3⟩ := hD
  rw [hcompany, hkind, rowField_stored h hpayload hkeys, rowField_stored h hpayload hkeys, rowField_stored h hpayload hkeys,
    h1, h2, h3]
  rfl

/-- A write of a broker query's cycle that returns leaves the four rows of the cycle. -/
theorem holdsCycle_of_write {call : QueryCall} {route : String} {metric : Val} {result : ℕ × String} {res : Ledger.WriteResult}
    {rows' : List Entry}
    (h : Ledger.write sha256 d rows (brokerCycle chars companyId agentId a call route metric result) = (.ok res, rows')) :
    HoldsCycle companyId a call rows rows' := by
  rcases @Ledger.write_cases sha256 d rows (brokerCycle chars companyId agentId a call route metric result) with
    ⟨res', ep, vp, rp, p, e, v, r, hg, hw⟩ | ⟨x, hx⟩
  · obtain ⟨-, rfl⟩ := Prod.mk.inj (h.symm.trans hw)
    refine ⟨[p, e, v, r], rfl, ?_⟩
    have hpayloads := Except.ok.inj (hg.payloads.symm.trans (brokerCycle_payloads call route metric result))
    simp only [brokerFields, List.map_cons, List.map_nil, List.cons.injEq, and_true] at hpayloads
    obtain ⟨hp, rfl, rfl, rfl⟩ := hpayloads
    have hkeys := @nodup_brokerFields agentId a.auditTrailId a.queryIds ⟨call.mcpTool, redactArgs chars call.args, route,
      brokerBody a metric result, defaultVerify⟩ metric result a.latencyMs
    simp only [brokerFields, List.forall_mem_cons] at hkeys
    obtain ⟨hkp, hke, hkv, hkr, -⟩ := hkeys
    have hpropose := row_shows hg.propose (congrArg Val.dict hp) hkp (@get_phase agentId _ _ _ _ _ _ [] "" .none (by decide) (.inl rfl))
    have hexecute := row_shows hg.execute rfl hke (get_phase _ _ _ _ _ (by decide) (.inr rfl))
    have hverify := row_shows hg.verify rfl hkv (get_phase _ _ _ _ _ (by decide) (.inr rfl))
    have hresolve := row_shows hg.resolve rfl hkr (get_phase _ _ _ _ _ (by decide) (.inr rfl))
    simp only [CycleRows, List.map_cons, List.map_nil]
    rw [hpropose, hexecute, hverify, hresolve]
    rfl
  · cases h.symm.trans hx

/-! ### When the executor is asked -/

/-- The gates let a call through, and its query is ready for the executor. -/
structure QueryCall.Asks (py : Interp) (agentId : String) (a : QueryAnswers) (call : QueryCall) (route : String)
    (metric : Val) : Prop where
  gates : applyGates py agentId call.mcpTool call.args a.ceiling a.gates = .ok none
  ready : call.prepared py a = some (.ok (route, metric))

theorem run_asks {call : QueryCall} {route : String} {metric : Val} (h : call.Asks py agentId a route metric) :
    call.run py chars companyId agentId a sha256 d rows =
      brokerTool chars companyId agentId a sha256 d call rows (.ok (route, metric)) := by
  obtain ⟨hgates, hready⟩ := h
  rw [QueryCall.run.eq_def, hgates]
  cases call with
  | query => cases hready
  | semanticMetric name filter =>
    exact congrArg (brokerTool chars companyId agentId a sha256 d (.semanticMetric name filter) rows)
      (Option.some.inj hready)
  | semanticQuerySpec spec =>
    exact congrArg (brokerTool chars companyId agentId a sha256 d (.semanticQuerySpec spec) rows) (Option.some.inj hready)

theorem asked_brokerTool {call : QueryCall} {prepared : Except Err (String × Val)}
    (h : (brokerTool chars companyId agentId a sha256 d call rows prepared).asked = true) :
    ∃ route metric, prepared = .ok (route, metric) := by
  cases prepared with
  | error x => cases h
  | ok p => exact ⟨p.1, p.2, rfl⟩

theorem asks_of_asked {call : QueryCall} (h : (call.run py chars companyId agentId a sha256 d rows).asked = true) :
    ∃ route metric, call.Asks py agentId a route metric := by
  rw [QueryCall.run.eq_def] at h
  cases hgates : applyGates py agentId call.mcpTool call.args a.ceiling a.gates with
  | error x =>
    rw [hgates] at h
    cases h
  | ok outcome =>
    rw [hgates] at h
    cases outcome with
    | some denial => cases h
    | none =>
      cases call with
      | query sql scopeToken resourceId =>
        simp only [federateTool] at h
        split at h
        · cases h
        · split at h <;> cases h
      | semanticMetric name filter =>
        obtain ⟨route, metric, hready⟩ := asked_brokerTool h
        exact ⟨route, metric, hgates, congrArg some hready⟩
      | semanticQuerySpec spec =>
        obtain ⟨route, metric, hready⟩ := asked_brokerTool h
        exact ⟨route, metric, hgates, congrArg some hready⟩

theorem asked_of_asks {call : QueryCall} {route : String} {metric : Val} (h : call.Asks py agentId a route metric) :
    (call.run py chars companyId agentId a sha256 d rows).asked = true := by
  rw [run_asks h]
  simp only [brokerTool]
  split <;> rfl

/-! ### The trace of a query -/

theorem not_holdsCycle_self {call : QueryCall} : ¬ HoldsCycle companyId a call rows rows := by
  rintro ⟨new, hrows, hnew⟩
  obtain rfl : new = [] := List.append_right_eq_self.mp hrows.symm
  cases hnew

/-- The rows that a broker query leaves: its cycle, or nothing new. -/
theorem holdsCycle_brokerTool (hinj : Function.Injective sha256) (hsound : Ledger.Sound sha256 d rows) {call : QueryCall}
    {route : String} {metric : Val} :
    HoldsCycle companyId a call rows (brokerTool chars companyId agentId a sha256 d call rows (.ok (route, metric))).rows ↔
      ∃ result, a.brokerResult = .ok result ∧ a.auditFault = none ∧ ∃ ep vp rp,
        Ledger.Writable d rows (brokerCycle chars companyId agentId a call route metric result) ep vp rp := by
  cases hresult : a.brokerResult with
  | error x =>
    simp only [brokerTool, hresult]
    exact iff_of_false not_holdsCycle_self fun ⟨_, h, _⟩ => nomatch h
  | ok result =>
    simp only [brokerTool, hresult, Except.ok.injEq, exists_eq_left']
    cases hfault : a.auditFault with
    | some x => exact iff_of_false not_holdsCycle_self fun h => nomatch h.1
    | none =>
      simp only [record, true_and]
      rw [← Ledger.write_returns_iff hinj hsound]
      constructor
      · intro h
        rcases @Ledger.write_cases sha256 d rows (brokerCycle chars companyId agentId a call route metric result) with
          ⟨res, _, _, _, _, _, _, _, -, hw⟩ | ⟨x, hx⟩
        · exact ⟨res, _, hw⟩
        · rw [hx] at h
          exact absurd h not_holdsCycle_self
      · rintro ⟨res, rows', hw⟩
        rw [hw]
        exact holdsCycle_of_write hw

/-- A call leaves the cycle of the query that it asked for exactly when the executor answers, the database does
    not fail and the ledger can take the cycle. -/
theorem query_audited_iff (hinj : Function.Injective sha256) (hsound : Ledger.Sound sha256 d rows) (call : QueryCall) :
    ((call.run py chars companyId agentId a sha256 d rows).asked = true →
      HoldsCycle companyId a call rows (call.run py chars companyId agentId a sha256 d rows).rows) ↔
    ∀ route metric, call.Asks py agentId a route metric → ∃ result, a.brokerResult = .ok result ∧ a.auditFault = none ∧
      ∃ ep vp rp, Ledger.Writable d rows (brokerCycle chars companyId agentId a call route metric result) ep vp rp := by
  constructor
  · intro h route metric hasks
    have hcycle := h (asked_of_asks hasks)
    rw [run_asks hasks] at hcycle
    exact (holdsCycle_brokerTool hinj hsound).mp hcycle
  · intro h hasked
    obtain ⟨route, metric, hasks⟩ := asks_of_asked hasked
    rw [run_asks hasks]
    exact (holdsCycle_brokerTool hinj hsound).mpr (h route metric hasks)

/-- The ledger takes the cycle of a query whose arguments have JSON of their own. -/
theorem writable_brokerCycle {call : QueryCall} {route : String} {metric : Val} {result : ℕ × String}
    (hroom : Ledger.Room rows (brokerCycle chars companyId agentId a call route metric result))
    (hargs : Ledger.Settled (.dict (redactArgs chars call.args))) (hmetric : Ledger.Settled metric)
    (hcount : checkInt result.1 = .ok ()) (hlatency : checkInt a.latencyMs = .ok ()) : ∃ ep vp rp,
      Ledger.Writable d rows (brokerCycle chars companyId agentId a call route metric result) ep vp rp := by
  have hpayloads := @brokerCycle_payloads chars companyId agentId a call route metric result
  have hkeys := @nodup_brokerFields agentId a.auditTrailId a.queryIds ⟨call.mcpTool, redactArgs chars call.args, route,
    brokerBody a metric result, defaultVerify⟩ metric result a.latencyMs
  have hchecks : Ledger.Settled defaultChecks := by
    refine Ledger.settled_list fun v hv => ?_
    obtain rfl := List.mem_singleton.mp hv
    refine @Ledger.settled_dict [("name", .str "agent_query_default"), ("ok", .bool true)] (by simp) ?_
    simp only [List.forall_mem_cons]
    exact ⟨Ledger.settled_str _, Ledger.settled_bool _, by simp⟩
  have hphase : ∀ phase rowCount latencyMs, Ledger.Settled rowCount → Ledger.Settled latencyMs →
      ∀ p ∈ phaseFields agentId a.auditTrailId ⟨call.mcpTool, redactArgs chars call.args, route, brokerBody a metric result,
        defaultVerify⟩ phase rowCount latencyMs, Ledger.Settled p.2 := by
    intro phase rowCount latencyMs hrows hms
    simp only [phaseFields, List.forall_mem_cons]
    exact ⟨Ledger.settled_str _, Ledger.settled_str _, hargs, Ledger.settled_str _, Ledger.settled_str _, hrows,
      Ledger.settled_none, hms, Ledger.settled_none, Ledger.settled_str _, by simp⟩
  have hrow := Ledger.settled_int hcount
  have hms := Ledger.settled_int hlatency
  have hall : ∀ D ∈ brokerFields agentId a.auditTrailId a.queryIds ⟨call.mcpTool, redactArgs chars call.args, route,
      brokerBody a metric result, defaultVerify⟩ metric result a.latencyMs, Ledger.Settled (.dict (D.map strItem)) := by
    intro D hD
    refine Ledger.settled_dict (hkeys D hD) ?_
    simp only [brokerFields, List.mem_cons, List.not_mem_nil, or_false] at hD
    rcases hD with rfl | rfl | rfl | rfl
    · exact hphase _ _ _ Ledger.settled_none Ledger.settled_none
    · simp only [executeFields, List.forall_mem_cons, List.forall_mem_append]
      exact ⟨Ledger.settled_str _, hphase _ _ _ hrow hms, Ledger.settled_str _, hmetric, by simp⟩
    · simp only [verifyFields, List.forall_mem_cons, List.forall_mem_append]
      exact ⟨Ledger.settled_str _, hphase _ _ _ hrow hms, Ledger.settled_bool _, hchecks, by simp⟩
    · simp only [resolveFields, List.forall_mem_cons, List.forall_mem_append]
      exact ⟨Ledger.settled_str _, hphase _ _ _ hrow hms, Ledger.settled_str _, Ledger.settled_str _, by simp⟩
  simp only [brokerFields, List.map_cons, List.map_nil] at hpayloads
  simp only [brokerFields, List.forall_mem_cons] at hall
  obtain ⟨hp, he, hv, hr, -⟩ := hall
  refine ⟨_, _, _, hroom.writable hpayloads ?_ ?_⟩
  · simp [Ledger.Call.passed, Dict.get, Dict.get?, verifyFields, phaseFields, strItem, Val.truthy]
  · simp only [List.forall_mem_cons]
    exact ⟨hp, he, hv, hr, by simp⟩

end

/-- A desk whose metric is in the catalog, with what the executor answers. -/
def queryDesk (brokerResult : Except Err (ℕ × String)) : QueryAnswers where
  gates := ⟨.ok [⟨"resource.read", "orders", "active", none⟩], none, .ok [], none⟩
  ceiling := none
  rowCount := .ok 1
  metric := some [(.str "primary_table", .str "orders")]
  table := none
  tables := []
  resourceClassification := .ok none
  brokerResult
  latencyMs := 5
  issuance := .ok ⟨"token-1", "2026-03-02T10:15:00+00:00"⟩
  auditTrailId := ⟨1⟩
  queryIds := ⟨⟨2⟩, ⟨3⟩, ⟨4⟩, ⟨5⟩, Ledger.midnight⟩
  credentialIds := ⟨⟨6⟩, ⟨7⟩, ⟨8⟩, ⟨9⟩, Ledger.midnight⟩
  catalogFault := none
  auditFault := none
  credentialFault := none
  otherSpec := .ok .none

theorem queryDesk_asks (brokerResult : Except Err (ℕ × String)) : QueryCall.Asks .plain "agent-1" (queryDesk brokerResult)
    (.semanticMetric "revenue" none) "broker" (.str "revenue") := ⟨rfl, rfl⟩

/-- The executor answers, and the cycle is there. -/
theorem answered_query_audited :
    ((QueryCall.semanticMetric "revenue" none).run .plain .ascii ⟨0⟩ "agent-1" (queryDesk (.ok (1, "rows"))) Ledger.tagHash
      .sqlite []).asked = true ∧ HoldsCycle ⟨0⟩ (queryDesk (.ok (1, "rows"))) (.semanticMetric "revenue" none) []
        ((QueryCall.semanticMetric "revenue" none).run .plain .ascii ⟨0⟩ "agent-1" (queryDesk (.ok (1, "rows")))
          Ledger.tagHash .sqlite []).rows := by
  refine ⟨asked_of_asks (queryDesk_asks _), (query_audited_iff Ledger.tagHash_injective Ledger.sound_nil _).mpr
    (fun route metric hasks => ?_) (asked_of_asks (queryDesk_asks _))⟩
  obtain ⟨rfl, rfl⟩ : "broker" = route ∧ Val.str "revenue" = metric := by
    simpa using (queryDesk_asks (.ok (1, "rows"))).ready.symm.trans hasks.ready
  have hsmall : ∀ k ≤ 4, checkInt (k : ℕ) = .ok () := fun k hk => checkInt_small (by omega)
  refine ⟨(1, "rows"), rfl, rfl, writable_brokerCycle ⟨Ledger.isoText_midnight, hsmall, by decide, by simp⟩ ?_
    (Ledger.settled_str _) (by decide +kernel) (by decide +kernel)⟩
  refine @Ledger.settled_dict [("name", .str (redactText .ascii "revenue")), ("filter", .dict [])] (by simp) ?_
  simp only [List.forall_mem_cons]
  exact ⟨Ledger.settled_str _, @Ledger.settled_dict [] (by simp) (by simp), by simp⟩

/-- The executor raises after it was asked, and the ledger has no cycle. -/
theorem failed_query_unaudited :
    ((QueryCall.semanticMetric "revenue" none).run .plain .ascii ⟨0⟩ "agent-1"
      (queryDesk (.error ⟨"OperationalError", "connection lost"⟩)) Ledger.tagHash .sqlite []).asked = true ∧
    ¬ HoldsCycle ⟨0⟩ (queryDesk (.error ⟨"OperationalError", "connection lost"⟩)) (.semanticMetric "revenue" none) []
      ((QueryCall.semanticMetric "revenue" none).run .plain .ascii ⟨0⟩ "agent-1"
        (queryDesk (.error ⟨"OperationalError", "connection lost"⟩)) Ledger.tagHash .sqlite []).rows := by
  have hasks := queryDesk_asks (.error ⟨"OperationalError", "connection lost"⟩)
  refine ⟨asked_of_asks hasks, ?_⟩
  rw [run_asks hasks]
  exact not_holdsCycle_self

end Gateway
