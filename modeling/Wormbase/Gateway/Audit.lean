import Wormbase.Gateway.LakeTools
import Wormbase.Projection.Agents

/-! What the cycles of the lake tools say: how much of the arguments gets into them, and whether they
    tell a denial from a success. -/

namespace Gateway
open Py

section
variable {py : Interp} {chars : CharTable} {companyId : UUID} {agentId : String} {a : Answers}

/-! ### The gates see the redacted arguments -/

theorem redactValue_typeName (v : Val) : (redactValue chars v).typeName = v.typeName := by
  cases v <;> rfl

theorem or_redact (v w : Val) :
    redactValue chars (v.or w) = (redactValue chars v).or (redactValue chars w) := by
  rw [Val.or, Val.or, redactValue_truthy]
  split <;> rfl

/-- Whether there is a resource to look up does not change. -/
theorem candidate_redact (args : Dict) :
    (classificationCandidate (redactArgs chars args)).map Val.truthy =
      (classificationCandidate args).map Val.truthy := by
  simp only [classificationCandidate, redactArgs_get, ← or_redact, redactValue_truthy]
  split
  · simp only [Except.map, redactValue_truthy]
  · have hempty : redactValue chars (.dict []) = .dict [] := rfl
    rw [← hempty, ← or_redact, hempty]
    cases (args.get "filter").or (.dict []) with
    | dict kvs => simp only [redactValue, Except.map, redactArgs_get, redactValue_truthy]
    | _ => rfl

theorem classificationCheck_congr {args args' : Dict} {ceiling : String}
    {lookup : Option (Except Err (Option String))}
    (h : (classificationCandidate args).map Val.truthy = (classificationCandidate args').map Val.truthy) :
    classificationCheck py args ceiling lookup = classificationCheck py args' ceiling lookup := by
  simp only [classificationCheck]
  cases hc : classificationCandidate args with
  | error x =>
    cases hc' : classificationCandidate args' with
    | error x' =>
      simp only [hc, hc', Except.map, Except.error.injEq] at h
      rw [h]
    | ok c' => simp [hc, hc', Except.map] at h
  | ok c =>
    cases hc' : classificationCandidate args' with
    | error x' => simp [hc, hc', Except.map] at h
    | ok c' =>
      simp only [hc, hc', Except.map, Except.ok.injEq] at h
      simp only [bind, Except.bind, h]

/-- No lake tool has a channel. -/
theorem interjection_passes (call : LakeCall) (clarifyTools : List String) (answer : Except Err Bool) :
    interjectionCheck py call.mcpTool call.args clarifyTools answer = .ok none := by
  have hchannel : ((call.args.get "channel_id").or (call.args.get "source_id")).or (.str "") = .str "" := by
    cases call <;> rfl
  simp [interjectionCheck, hchannel, Val.truthy]

/-- Two calls of a tool with the same redacted arguments. -/
structure Alike (chars : CharTable) (c c' : LakeCall) : Prop where
  tool : c.mcpTool = c'.mcpTool
  redacted : redactArgs chars c.args = redactArgs chars c'.args

/-- The gates treat them alike. -/
theorem Alike.gate {c c' : LakeCall} (h : Alike chars c c') : c.gate py agentId a = c'.gate py agentId a := by
  have hclass : ∀ ceiling lookup, classificationCheck py c.args ceiling lookup =
      classificationCheck py c'.args ceiling lookup := fun ceiling lookup =>
    classificationCheck_congr (by rw [← @candidate_redact chars c.args, h.redacted, candidate_redact])
  have hpii : ∀ answer, statefulPiiCheck c.args answer = statefulPiiCheck c'.args answer := by
    have hwalk : walkStrings (.dict c.args) = [] ↔ walkStrings (.dict c'.args) = [] := by
      rw [← @walkStrings_redact chars (.dict c.args), ← @walkStrings_redact chars (.dict c'.args), redactValue,
        redactValue, h.redacted]
    intro answer
    simp only [statefulPiiCheck, hwalk]
  simp only [LakeCall.gate, applyGates, h.tool, hclass, hpii]
  cases a.gates.stateful with
  | none => rfl
  | some gates =>
    have hleft := @interjection_passes py c gates.clarifyTools gates.interjection
    have hright := @interjection_passes py c' gates.clarifyTools gates.interjection
    rw [h.tool] at hleft
    simp only [hleft, hright]

/-! ### The back ends answer alike -/

theorem ofMetric_named {name : String} (filter : Option (List (String × Val))) (hname : name ≠ "") :
    (QuerySpec.ofMetric name filter).named = some name := by
  simp [QuerySpec.named, QuerySpec.ofMetric, hname]

/-- What a plan compiles to may differ, whether it does so not. -/
theorem compileToSql_ok_iff {spec : QuerySpec} {plan : UpstreamPlan} {policies : List String} :
    (∃ compiled, compileToSql py spec plan policies = .ok compiled) ↔
      plan.upstreamKind.isText "snowflake" = true := by
  simp only [compileToSql]
  split
  · rename_i hkind
    exact iff_of_true ⟨_, rfl⟩ hkind
  · rename_i hkind
    exact iff_of_false (fun ⟨_, h⟩ => nomatch h) hkind

/-- The pipeline goes by the answers, and by whether there is a name at all. -/
theorem metricResult_ok_iff {name : String} {filter : Option (List (String × Val))}
    {result : String × ℕ × String} : LakeCall.metricResult py a name filter = .ok result ↔
      name ≠ "" ∧ ∃ metric, a.metric = some metric ∧
        (∃ primary, primaryTable metric (if ((metric.get "source_table_id").or (metric.get "source_id")).truthy
          then a.table else none) = .ok primary) ∧
        (metric.getD "source_kind" (.str "snowflake")).isText "snowflake" = true ∧
        ∃ classification, a.resourceClassification = .ok classification ∧
          ∃ answer, a.brokerResult = .ok answer ∧ result = (chooseRouteMode classification, answer) := by
  rcases eq_or_ne name "" with rfl | hname
  · exact iff_of_false (fun h => nomatch h) fun h => h.1 rfl
  · have hnamed := ofMetric_named filter hname
    cases hmetric : a.metric with
    | none =>
      refine iff_of_false (fun h => ?_) fun ⟨_, _, h, _⟩ => nomatch h
      obtain ⟨_, hv, -⟩ := bind_eq_ok.mp h
      obtain ⟨_, -, hv⟩ := bind_eq_ok.mp hv
      simp only [hnamed, Answers.catalogClient, hmetric] at hv
      cases hv
    | some metric =>
      have hvalid : validateQuerySpec py (QuerySpec.ofMetric name filter) a.catalogClient = .ok () := by
        refine bind_eq_ok.mpr ⟨(), by simp [QuerySpec.validate, hnamed], ?_⟩
        simp only [hnamed, Answers.catalogClient, hmetric]
      have hplan : ∀ plan, planQuery py (QuerySpec.ofMetric name filter) a.catalogClient = .ok plan ↔
          ∃ primary, primaryTable metric (if ((metric.get "source_table_id").or (metric.get "source_id")).truthy
            then a.table else none) = .ok primary ∧
            plan = ⟨metric.getD "source_kind" (.str "snowflake"),
              ((metric.get "source_table_id").or (metric.get "source_id")).or (.str "unknown"), primary,
              some metric⟩ := fun plan => by
        simp only [planQuery, hnamed, Answers.catalogClient, hmetric]
        rw [bind_eq_ok]
        exact exists_congr fun primary => and_congr_right fun _ =>
          ⟨fun h => (Except.ok.inj h).symm, fun h => congrArg Except.ok h.symm⟩
      constructor
      · intro h
        obtain ⟨_, -, hplanned⟩ := bind_eq_ok.mp h
        obtain ⟨plan, hp, hcompiled⟩ := bind_eq_ok.mp hplanned
        obtain ⟨compiled, hc, hclassified⟩ := bind_eq_ok.mp hcompiled
        obtain ⟨classification, hclass, hbroker⟩ := bind_eq_ok.mp hclassified
        obtain ⟨answer, hanswer, hresult⟩ := bind_eq_ok.mp hbroker
        have hkind := compileToSql_ok_iff.mp ⟨compiled, hc⟩
        obtain ⟨primary, hprimary, rfl⟩ := (hplan plan).mp hp
        exact ⟨hname, metric, rfl, ⟨primary, hprimary⟩, hkind, classification, hclass, answer, hanswer,
          (Except.ok.inj hresult).symm⟩
      · rintro ⟨-, metric', hmetric', ⟨primary, hprimary⟩, hkind, classification, hclass, answer, hanswer, rfl⟩
        obtain rfl := Option.some.inj hmetric'
        have hp := (hplan _).mpr ⟨primary, hprimary, rfl⟩
        obtain ⟨compiled, hc⟩ := (@compileToSql_ok_iff py (QuerySpec.ofMetric name filter)
          ⟨metric.getD "source_kind" (.str "snowflake"),
            ((metric.get "source_table_id").or (metric.get "source_id")).or (.str "unknown"), primary,
            some metric⟩ []).mpr hkind
        exact bind_eq_ok.mpr ⟨(), hvalid, bind_eq_ok.mpr ⟨_, hp, bind_eq_ok.mpr ⟨compiled, hc,
          bind_eq_ok.mpr ⟨classification, hclass, bind_eq_ok.mpr ⟨answer, hanswer, rfl⟩⟩⟩⟩⟩

/-! ### The rows of a call -/

/-- The payloads of the rows that a call writes. -/
def LakeCall.rows (py : Interp) (chars : CharTable) (companyId : UUID) (agentId : String) (call : LakeCall)
    (a : Answers) : List (Except Err (List Dict)) :=
  match call.writes py chars companyId agentId a with
  | .ok writes => writes.map Ledger.Call.payloads
  | .error _ => []

/-- The text that goes into the rows as it is. -/
def LakeCall.copied : LakeCall → Option String
  | semanticMetric name _ => some name
  | query _ _ resourceId => some resourceId
  | _ => none

/-- The gates let the call through, and the back end answers. -/
def LakeCall.Served (py : Interp) (agentId : String) (call : LakeCall) (a : Answers) : Prop :=
  call.gate py agentId a = .ok none ∧ ∃ served, call.serve py agentId a = .ok served

/-- What a call writes, in its three outcomes. -/
theorem rows_cases (call : LakeCall) :
    (¬call.Served py agentId a ∧ call.rows py chars companyId agentId a = [] ∧
      ∀ denial, call.gate py agentId a ≠ .ok (some denial)) ∨
    (∃ denial, call.gate py agentId a = .ok (some denial) ∧ ¬call.Served py agentId a ∧
      call.rows py chars companyId agentId a =
        [(agentQueryPevr companyId agentId a.auditTrailId a.queryIds (denialQuery call.mcpTool
          (redactArgs chars call.args) call.denialRoute denial)).payloads]) ∨
    ∃ served, call.gate py agentId a = .ok none ∧ call.serve py agentId a = .ok served ∧
      call.rows py chars companyId agentId a =
        (agentQueryPevr companyId agentId a.auditTrailId a.queryIds ⟨call.mcpTool,
          redactArgs chars call.args, served.routeMode, served.body, defaultVerify⟩).payloads ::
          (served.credential.map fun cred => (credentialWrite companyId a.credentialIds cred).payloads).toList := by
  cases hgate : call.gate py agentId a with
  | error x =>
    refine .inl ⟨fun h => ?_, ?_, fun _ h => nomatch h⟩
    · cases hgate.symm.trans h.1
    · simp only [LakeCall.rows, LakeCall.writes, hgate, bind, Except.bind]
  | ok outcome =>
    cases outcome with
    | some denial =>
      refine .inr (.inl ⟨denial, rfl, fun h => ?_, ?_⟩)
      · cases hgate.symm.trans h.1
      · simp only [LakeCall.rows, LakeCall.writes, hgate, bind, Except.bind, pure, Except.pure, List.map]
    | none =>
      cases hserve : call.serve py agentId a with
      | error x =>
        refine .inl ⟨fun h => ?_, ?_, fun _ h => nomatch h⟩
        · obtain ⟨served, hserved⟩ := h.2
          cases hserve.symm.trans hserved
        · simp only [LakeCall.rows, LakeCall.writes, hgate, hserve, bind, Except.bind]
      | ok served =>
        refine .inr (.inr ⟨served, rfl, rfl, ?_⟩)
        simp only [LakeCall.rows, LakeCall.writes, hgate, hserve, bind, Except.bind, pure, Except.pure,
          List.map_cons]
        cases served.credential <;> rfl

/-! ### Calls with the same redacted arguments -/

/-- One tool, so one shape of the arguments. -/
theorem of_mcpTool {c c' : LakeCall} (h : c.mcpTool = c'.mcpTool) :
    (∃ filter filter', c = .catalogTables filter ∧ c' = .catalogTables filter') ∨
    (∃ name filter name' filter', c = .semanticMetric name filter ∧ c' = .semanticMetric name' filter') ∨
    (∃ resourceId direction resourceId' direction', c = .lineage resourceId direction ∧
      c' = .lineage resourceId' direction') ∨
    ∃ sql token resourceId sql' token' resourceId', c = .query sql token resourceId ∧
      c' = .query sql' token' resourceId' := by
  cases c <;> cases c' <;> first
    | exact .inl ⟨_, _, rfl, rfl⟩
    | exact .inr (.inl ⟨_, _, _, _, rfl, rfl⟩)
    | exact .inr (.inr (.inl ⟨_, _, _, _, rfl, rfl⟩))
    | exact .inr (.inr (.inr ⟨_, _, _, _, _, _, rfl, rfl⟩))
    | exact absurd h (by simp [LakeCall.mcpTool])

theorem denialRoute_congr {c c' : LakeCall} (h : c.mcpTool = c'.mcpTool) : c.denialRoute = c'.denialRoute := by
  obtain ⟨_, _, rfl, rfl⟩ | ⟨_, _, _, _, rfl, rfl⟩ | ⟨_, _, _, _, rfl, rfl⟩ | ⟨_, _, _, _, _, _, rfl, rfl⟩ :=
    of_mcpTool h <;> rfl

/-- What is served does not depend on more than the text that is copied. -/
theorem serve_ok_iff {c c' : LakeCall} (htool : c.mcpTool = c'.mcpTool) (hcopied : c.copied = c'.copied)
    (served : Served) : c.serve py agentId a = .ok served ↔ c'.serve py agentId a = .ok served := by
  obtain ⟨_, _, rfl, rfl⟩ | ⟨name, filter, name', filter', rfl, rfl⟩ | ⟨_, _, _, _, rfl, rfl⟩ |
    ⟨_, _, resourceId, _, _, resourceId', rfl, rfl⟩ := of_mcpTool htool
  · rfl
  · obtain rfl : name = name' := Option.some.inj hcopied
    have hresult : ∀ result, LakeCall.metricResult py a name filter = .ok result ↔
        LakeCall.metricResult py a name filter' = .ok result := fun result => by
      rw [metricResult_ok_iff, metricResult_ok_iff]
    simp only [LakeCall.serve, bind_eq_ok, hresult]
  · rfl
  · obtain rfl : resourceId = resourceId' := Option.some.inj hcopied
    rfl

/-- A text that redaction leaves empty was empty. -/
theorem redact_ne_empty {s s' : String} (h : redactText chars s = redactText chars s') :
    s ≠ "" ↔ s' ≠ "" := by
  rw [ne_eq, ne_eq, ← @redactText_eq_empty chars s, h, redactText_eq_empty]

/-- What redaction makes of the argument that is copied. -/
theorem Alike.copied {c c' : LakeCall} (h : Alike chars c c') :
    c.copied.map (redactText chars) = c'.copied.map (redactText chars) := by
  have hargs : ∀ name : String, Dict.get (redactArgs chars c.args) name = Dict.get (redactArgs chars c'.args) name :=
    fun name => by rw [h.redacted]
  obtain ⟨_, _, rfl, rfl⟩ | ⟨name, filter, name', filter', rfl, rfl⟩ | ⟨_, _, _, _, rfl, rfl⟩ |
    ⟨_, _, resourceId, _, _, resourceId', rfl, rfl⟩ := of_mcpTool h.tool
  · rfl
  · exact congrArg some (Val.str.inj (hargs "name"))
  · rfl
  · exact congrArg some (Val.str.inj (hargs "resource_id"))

/-- Back ends that answer alike serve both or neither. -/
theorem Alike.served {c c' : LakeCall} (h : Alike chars c c') :
    c.Served py agentId a ↔ c'.Served py agentId a := by
  refine and_congr (by rw [h.gate]) ?_
  have hcopied := h.copied
  obtain ⟨_, _, rfl, rfl⟩ | ⟨name, filter, name', filter', rfl, rfl⟩ | ⟨_, _, _, _, rfl, rfl⟩ |
    ⟨_, _, resourceId, _, _, resourceId', rfl, rfl⟩ := of_mcpTool h.tool
  · rfl
  · have hname : name ≠ "" ↔ name' ≠ "" := redact_ne_empty (Option.some.inj hcopied)
    have hresult : ∀ result, LakeCall.metricResult py a name filter = .ok result ↔
        LakeCall.metricResult py a name' filter' = .ok result := fun result => by
      rw [metricResult_ok_iff, metricResult_ok_iff, hname]
    simp only [LakeCall.serve, bind_eq_ok, hresult]
    constructor
    · rintro ⟨_, result, hok, -⟩
      exact ⟨_, result, hok, rfl⟩
    · rintro ⟨_, result, hok, -⟩
      exact ⟨_, result, hok, rfl⟩
  · rfl
  · simp only [LakeCall.serve, bind_eq_ok]
    constructor
    · rintro ⟨_, token, hok, -⟩
      exact ⟨_, token, hok, rfl⟩
    · rintro ⟨_, token, hok, -⟩
      exact ⟨_, token, hok, rfl⟩

/-- The rows go by the redacted arguments, the gates and what is served. -/
theorem Alike.rows {c c' : LakeCall} (h : Alike chars c c')
    (hserve : c.Served py agentId a → ∀ served, c.serve py agentId a = .ok served ↔
      c'.serve py agentId a = .ok served) :
    c.rows py chars companyId agentId a = c'.rows py chars companyId agentId a := by
  obtain ⟨hno, hrows, hnot⟩ | ⟨denial, hgate, hno, hrows⟩ | ⟨served, hgate, hok, hrows⟩ :=
    @rows_cases py chars companyId agentId a c
  · obtain ⟨-, hrows', -⟩ | ⟨denial, hgate', -, -⟩ | ⟨served, hgate', hok', -⟩ :=
      @rows_cases py chars companyId agentId a c'
    · rw [hrows, hrows']
    · exact absurd (h.gate.trans hgate') (hnot denial)
    · exact absurd (h.served.mpr ⟨hgate', served, hok'⟩) hno
  · obtain ⟨-, -, hnot⟩ | ⟨denial', hgate', -, hrows'⟩ | ⟨served, hgate', -, -⟩ :=
      @rows_cases py chars companyId agentId a c'
    · exact absurd (h.gate.symm.trans hgate) (hnot denial)
    · cases hgate.symm.trans (h.gate.trans hgate')
      rw [hrows, hrows', h.tool, h.redacted, denialRoute_congr h.tool]
    · cases hgate.symm.trans (h.gate.trans hgate')
  · have hok' := (hserve ⟨hgate, served, hok⟩ served).mp hok
    obtain ⟨hno, -, -⟩ | ⟨denial, hgate', -, -⟩ | ⟨served', -, hserved', hrows'⟩ :=
      @rows_cases py chars companyId agentId a c'
    · exact absurd (h.served.mp ⟨hgate, served, hok⟩) hno
    · cases hgate.symm.trans (h.gate.trans hgate')
    · cases hok'.symm.trans hserved'
      rw [hrows, hrows', h.tool, h.redacted]

/-- The rows of a call that is served have the text that it copies. -/
theorem copied_of_rows {c c' : LakeCall} (h : Alike chars c c') (hserved : c.Served py agentId a)
    (hrows : c.rows py chars companyId agentId a = c'.rows py chars companyId agentId a) :
    c.copied = c'.copied := by
  obtain ⟨hno, -, -⟩ | ⟨_, -, hno, -⟩ | ⟨served, -, hok, hleft⟩ := @rows_cases py chars companyId agentId a c
  · exact absurd hserved hno
  · exact absurd hserved hno
  obtain ⟨hno, -, -⟩ | ⟨_, -, hno, -⟩ | ⟨served', -, hok', hright⟩ := @rows_cases py chars companyId agentId a c'
  · exact absurd (h.served.mp hserved) hno
  · exact absurd (h.served.mp hserved) hno
  have heq := hleft.symm.trans (hrows.trans hright)
  obtain ⟨_, _, rfl, rfl⟩ | ⟨name, filter, name', filter', rfl, rfl⟩ | ⟨_, _, _, _, rfl, rfl⟩ |
    ⟨_, _, resourceId, _, _, resourceId', rfl, rfl⟩ := of_mcpTool h.tool
  · rfl
  · obtain ⟨result, -, hresult⟩ := bind_eq_ok.mp hok
    obtain ⟨result', -, hresult'⟩ := bind_eq_ok.mp hok'
    obtain rfl := Except.ok.inj hresult
    obtain rfl := Except.ok.inj hresult'
    have hquery := (List.cons.inj heq).1
    have hexecute := (List.cons.inj (List.cons.inj (Except.ok.inj hquery)).2).1
    have hname : name = name' := by
      simpa [Dict.get, Dict.get?, Dict.update, Dict.set, setDefaults, AgentQuery.payload] using
        congrArg (fun row => Dict.get row "metric_name") hexecute
    rw [LakeCall.copied, LakeCall.copied, hname]
  · rfl
  · obtain ⟨token, htoken, hresult⟩ := bind_eq_ok.mp hok
    obtain ⟨token', htoken', hresult'⟩ := bind_eq_ok.mp hok'
    obtain rfl := Except.ok.inj hresult
    obtain rfl := Except.ok.inj hresult'
    have hcredential := (List.cons.inj (List.cons.inj heq).2).1
    have hpropose := (List.cons.inj (Except.ok.inj hcredential)).1
    have htarget : resourceId = resourceId' := by
      simpa [Dict.get, Dict.get?, credentialWrite, LakeCall.credential] using
        congrArg (fun row => Dict.get row "target") hpropose
    rw [LakeCall.copied, LakeCall.copied, htarget]

/-- The cycles with a row that the projections take for an agent query. -/
def queryCycles (rows : List (Except Err (List Dict))) : List (List Dict) :=
  rows.filterMap fun cycle => match cycle with
    | .ok payloads => if payloads.any Projection.isAgentQueryPayload then some payloads else none
    | .error _ => none

/-- The outcome of the resolve row. -/
def cycleOutcome (payloads : List Dict) : Val :=
  match payloads.getLast? with
  | some payload => Dict.get payload "outcome"
  | none => .none

/-- There is one cycle, and its outcome says whether the gates denied the call. -/
def LakeCall.Audited (py : Interp) (chars : CharTable) (companyId : UUID) (agentId : String)
    (call : LakeCall) (a : Answers) : Prop :=
  ∃ cycle, queryCycles (call.rows py chars companyId agentId a) = [cycle] ∧
    (cycleOutcome cycle = .str "discard" ↔ ∃ denial, call.gate py agentId a = .ok (some denial))

/-- A query cycle resolves by the flag of its verify body. -/
theorem agentQuery_cycle (trail : UUID) (ids : CycleIds) (q : AgentQuery) :
    ∃ cycle, (agentQueryPevr companyId agentId trail ids q).payloads = .ok cycle ∧
      cycle.any Projection.isAgentQueryPayload = true ∧
      cycleOutcome cycle = .str (if (q.verifyBody.getD "passed" (.bool true)).truthy then "keep"
        else "discard") := by
  refine ⟨_, rfl, ?_, ?_⟩
  · rw [List.any_cons]
    simp [agentQueryPevr, AgentQuery.payload, Projection.isAgentQueryPayload, Dict.has, Dict.get?]
  · simp [agentQueryPevr, cycleOutcome, AgentQuery.payload, Dict.update, Dict.set, Dict.get, Dict.get?,
      Val.truthy]

theorem credential_cycle (ids : CycleIds) (resourceId : String) (token : Issuance) :
    queryCycles [(credentialWrite companyId ids (LakeCall.credential agentId resourceId token)).payloads] =
      [] := rfl

theorem serve_credential {call : LakeCall} {served : Served} (h : call.serve py agentId a = .ok served) :
    served.credential = none ∨ ∃ resourceId token,
      served.credential = some (LakeCall.credential agentId resourceId token) := by
  cases call with
  | query sql scopeToken resourceId =>
    obtain ⟨token, -, hresult⟩ := bind_eq_ok.mp h
    obtain rfl := Except.ok.inj hresult
    exact .inr ⟨resourceId, token, rfl⟩
  | _ =>
    obtain ⟨result, -, hresult⟩ := bind_eq_ok.mp h
    obtain rfl := Except.ok.inj hresult
    exact .inl rfl

/-- A denial is kept, and a call that raises leaves no cycle. -/
theorem LakeCall.Audited.served {call : LakeCall} (h : call.Audited py chars companyId agentId a) :
    call.Served py agentId a := by
  obtain ⟨cycle, hcycle, hverdict⟩ := h
  obtain ⟨-, hrows, -⟩ | ⟨denial, hgate, -, hrows⟩ | ⟨served, hgate, hok, -⟩ :=
    @rows_cases py chars companyId agentId a call
  · rw [hrows] at hcycle
    exact absurd hcycle.symm (List.cons_ne_nil cycle [])
  · obtain ⟨denied, hpayloads, hquery, houtcome⟩ := @agentQuery_cycle companyId agentId a.auditTrailId
      a.queryIds (denialQuery call.mcpTool (redactArgs chars call.args) call.denialRoute denial)
    rw [hrows, queryCycles, List.filterMap_cons, hpayloads] at hcycle
    simp only [hquery, if_true, List.filterMap_nil, List.cons.injEq, and_true] at hcycle
    obtain rfl := hcycle
    have hdiscard := houtcome.symm.trans (hverdict.mpr ⟨denial, hgate⟩)
    exact absurd (Val.str.inj hdiscard) (by simp [denialQuery, Dict.getD, Dict.get?, Val.truthy])
  · exact ⟨hgate, served, hok⟩

theorem LakeCall.Served.audited {call : LakeCall} (h : call.Served py agentId a) :
    call.Audited py chars companyId agentId a := by
  obtain ⟨hno, -, -⟩ | ⟨_, -, hno, -⟩ | ⟨served, hgate, hok, hrows⟩ :=
    @rows_cases py chars companyId agentId a call
  · exact absurd h hno
  · exact absurd h hno
  obtain ⟨cycle, hpayloads, hquery, houtcome⟩ := @agentQuery_cycle companyId agentId a.auditTrailId
    a.queryIds ⟨call.mcpTool, redactArgs chars call.args, served.routeMode, served.body, defaultVerify⟩
  refine ⟨cycle, ?_, ?_⟩
  · rw [hrows, queryCycles, List.filterMap_cons, hpayloads]
    simp only [hquery, if_true]
    obtain hnone | ⟨resourceId, token, hsome⟩ := serve_credential hok
    · rw [hnone]
      rfl
    · rw [hsome]
      rfl
  · rw [houtcome]
    exact iff_of_false (by simp [defaultVerify, Dict.getD, Dict.get?, Val.truthy])
      fun ⟨_, h⟩ => nomatch hgate.symm.trans h

theorem audited_iff (call : LakeCall) :
    call.Audited py chars companyId agentId a ↔ call.Served py agentId a :=
  ⟨fun h => h.served, fun h => h.audited⟩

end

/-- An agent with one active grant, and back ends that answer. -/
def mailDesk : Answers where
  gates := ⟨.ok [⟨"resource.read", "inbox", "active", none⟩], none, .ok [], none⟩
  ceiling := none
  rowCount := .ok 1
  metric := none
  table := none
  tables := []
  resourceClassification := .ok none
  brokerResult := .ok (1, "rows")
  latencyMs := 5
  issuance := .ok ⟨"token-1", "2026-03-02T10:15:00+00:00"⟩
  auditTrailId := ⟨1⟩
  queryIds := ⟨⟨2⟩, ⟨3⟩, ⟨4⟩, ⟨5⟩, ⟨⟨0, maxMicros_pos⟩, none⟩⟩
  credentialIds := ⟨⟨6⟩, ⟨7⟩, ⟨8⟩, ⟨9⟩, ⟨⟨0, maxMicros_pos⟩, none⟩⟩

/-- The two inboxes are one text once they are redacted. -/
theorem inbox_redacted : redactText .ascii "inbox/ana@x.io" = redactText .ascii "inbox/bob@y.io" := by
  decide +kernel

theorem lineage_alike : Alike .ascii (.lineage "inbox/ana@x.io" "up") (.lineage "inbox/bob@y.io" "up") := by
  refine ⟨rfl, ?_⟩
  simp only [LakeCall.args, redactArgs, redactValue, inbox_redacted]

theorem query_alike : Alike .ascii (.query "select 1" none "inbox/ana@x.io")
    (.query "select 1" none "inbox/bob@y.io") := by
  refine ⟨rfl, ?_⟩
  simp only [LakeCall.args, redactArgs, redactValue, inbox_redacted]

theorem denied_keeps : ¬∀ (py : Interp) (chars : CharTable) (companyId : UUID) (agentId : String)
    (call : LakeCall) (a : Answers), call.Audited py chars companyId agentId a := by
  intro h
  have hserved := (h .plain .ascii ⟨0⟩ "agent-1" (.catalogTables none)
    { mailDesk with gates := ⟨.ok [], none, .ok [], none⟩ }).served
  exact nomatch hserved.1

end Gateway
