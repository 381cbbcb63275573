import Wormbase.Gateway.QuerySpec
import Wormbase.Gateway.Redaction
import Wormbase.Ledger.WritePrimitive

/-! The four lake tools: gates, redaction, the back end, and the cycles that they write.

    What the lookups, the stateful gates and the back ends answer in a call is part of the input, and so
    are ids and times. -/

namespace Gateway
open Py

/-! ### What a call meets -/

structure GateDenial where
  reason : String
  gateName : String
  suggestedFix : Option String

/-- A budget is a `Decimal`, by its value and its text. -/
structure AgentGrant where
  grantKind : String
  grantTarget : String
  status : String
  budgetRemainingUsd : Option (ℚ × String)

/-- The decision of a stateful gate. -/
structure GateDecision where
  allow : Bool
  reason : String
  missing : List Val
  suggestedAction : Option String

/-- `StatefulGateBundle`, by what its gates answer. -/
structure StatefulGates where
  pii : Except Err Unit
  warmup : Except Err GateDecision
  clarifyTools : List String
  interjection : Except Err Bool
  concepts : Option (Except Err (List String))
  knowledge : Except Err GateDecision

/-- `GateChain`, by what its lookups answer; the classification gate may have none. -/
structure GateChain where
  accessGrants : Except Err (List AgentGrant)
  classification : Option (Except Err (Option String))
  costGrants : Except Err (List AgentGrant)
  stateful : Option StatefulGates

/-- The ids and the clock of one cycle. -/
structure CycleIds where
  proposeId : UUID
  executeId : UUID
  verifyId : UUID
  resolveId : UUID
  now : DateTime

/-- A token of the issuer: its id, and when it expires, as ISO text. -/
structure Issuance where
  tokenId : String
  expiresAt : String

/-- What the environment answers in one call. -/
structure Answers where
  gates : GateChain
  ceiling : Option String
  rowCount : Except Err ℕ
  metric : Option Dict
  table : Option Dict
  tables : List Dict
  resourceClassification : Except Err (Option String)
  brokerResult : Except Err (ℕ × String)
  latencyMs : ℤ
  issuance : Except Err Issuance
  auditTrailId : UUID
  queryIds : CycleIds
  credentialIds : CycleIds

def Answers.catalogClient (a : Answers) : CatalogClient := ⟨fun _ => a.metric, fun _ => a.table, a.tables⟩

section
variable (py : Interp) (chars : CharTable) (companyId : UUID) (agentId : String)

/-! ### The gates -/

/-- `_TOOL_GRANT_KINDS`: all tools accept the same kinds. -/
def toolGrantKinds (mcpTool : String) : Option (List String) :=
  if mcpTool ∈ ["lake.catalog.tables", "lake.semantic.metric", "lake.lineage", "lake.query",
      "lake.semantic.search", "lake.semantic.query_spec", "lake.query.suggest_correction",
      "lake.query.record_outcome", "lake.semantic.gap", "decisions.list", "decisions.get",
      "decisions.search", "processes.list", "processes.get", "data_products.list", "data_products.get",
      "data_products.consume"] then
    some ["domain.read", "resource.read"]
  else none

/-- `AgentAccessGate.check`. -/
def accessCheck (mcpTool : String) (lookup : Except Err (List AgentGrant)) :
    Except Err (Option GateDenial) :=
  match toolGrantKinds mcpTool with
  | none =>
    .ok (some ⟨"unknown mcp_tool " ++ quoted py mcpTool ++ "; no grant policy", "agent_access", none⟩)
  | some accepted => do
    let grants ← lookup
    let acceptedSet := "resource.maintainer" :: accepted
    return if grants.any fun g => g.status = "active" && g.grantKind ∈ acceptedSet then none
      else some ⟨"agent " ++ quoted py agentId ++ " lacks an active grant in " ++ String.ofList
        ((Val.list ((acceptedSet.insertionSort (· ≤ ·)).map .str)).repr py) ++ " for tool " ++
          quoted py mcpTool, "agent_access", some "ask an admin to assign domain.read or resource.read"⟩

/-- `_rank`. -/
def rank : Option String → ℕ
  | some "public" => 0
  | some "confidential" => 2
  | some "pii" => 3
  | some "regulated" => 4
  | _ => 1

/-- The resource that the classification gate looks up. -/
def classificationCandidate (args : Dict) : Except Err Val :=
  let named := (args.get "resource_id").or (args.get "source_id")
  if named.truthy then .ok named
  else
    match (args.get "filter").or (.dict []) with
    | .dict filter => .ok (Dict.get filter "resource_id")
    | v => .error (attributeError s!"'{v.typeName}' object has no attribute 'get'")

/-- `ClassificationGate.check`. -/
def classificationCheck (args : Dict) (ceiling : String) (lookup : Option (Except Err (Option String))) :
    Except Err (Option GateDenial) := do
  let candidate ← classificationCandidate args
  match candidate.truthy, lookup with
  | true, some answer =>
    match ← answer with
    | none => return none
    | some classification =>
      return if rank (some ceiling) < rank (some classification) then
        some ⟨"resource classification " ++ quoted py classification ++ " exceeds agent ceiling " ++
          quoted py ceiling, "classification",
          some "raise the agent's classification_ceiling grant, or query a lower-classification view"⟩
        else none
  | _, _ => return none

/-- `CostGate.check`. -/
def costCheck (lookup : Except Err (List AgentGrant)) : Except Err (Option GateDenial) := do
  let grants ← lookup
  let modelGrants := grants.filter fun g => g.grantKind = "model.access" && g.status = "active"
  let exhausted := modelGrants.filterMap fun g =>
    g.budgetRemainingUsd.bind fun b => if b.1 ≤ 0 then some (g.grantTarget, b.2) else none
  return exhausted.head?.map fun e =>
    ⟨"agent model budget exhausted: target=" ++ e.1 ++ " remaining=" ++ e.2, "cost",
      some "ask an admin to top up the agent's model.access budget_remaining_usd"⟩

/-- `StatefulPIIGateAdapter.check`. -/
def statefulPiiCheck (args : Dict) (answer : Except Err Unit) : Except Err (Option GateDenial) :=
  if walkStrings (.dict args) = [] then .ok none else answer.map fun _ => none

/-- `StatefulWarmupGateAdapter.check`. -/
def warmupCheck (answer : Except Err GateDecision) : Except Err (Option GateDenial) := do
  let decision ← answer
  return if decision.allow then none
    else some ⟨"warmup gate denied: " ++ decision.reason, "warmup_stateful",
      some "wait for the worm's schema-axis ramp to cross threshold, then retry"⟩

/-- `StatefulInterjectionGateAdapter.check`. -/
def interjectionCheck (mcpTool : String) (args : Dict) (clarifyTools : List String)
    (answer : Except Err Bool) : Except Err (Option GateDenial) :=
  let channelId := ((args.get "channel_id").or (args.get "source_id")).or (.str "")
  if mcpTool ∈ clarifyTools ∧ channelId.truthy then do
    let allowed ← answer
    return if allowed then none
      else some ⟨"interjection budget exhausted for channel " ++ String.ofList (channelId.repr py),
        "interjection_stateful",
        some "wait for the daily window to roll over, or raise the channel's daily_interjection_budget"⟩
  else .ok none

/-- `StatefulKnowledgeGateAdapter.check`. -/
def knowledgeCheck (concepts : Option (Except Err (List String))) (answer : Except Err GateDecision) :
    Except Err (Option GateDenial) :=
  match concepts with
  | none => .ok none
  | some extracted => do
    match ← extracted with
    | [] => return none
    | _ :: _ =>
      let decision ← answer
      return if decision.allow then none
        else some ⟨"knowledge gap: missing " ++ String.ofList ((Val.list decision.missing).repr py),
          "knowledge_stateful", decision.suggestedAction⟩

/-- The first denial of the checks in their order. -/
def firstDenial : List (Except Err (Option GateDenial)) → Except Err (Option GateDenial)
  | [] => .ok none
  | check :: checks => do
    match ← check with
    | some denial => return some denial
    | none => firstDenial checks

/-- `apply_gates`. The gate for redaction never denies. -/
def applyGates (mcpTool : String) (args : Dict) (ceiling : Option String) (chain : GateChain) :
    Except Err (Option GateDenial) :=
  firstDenial ([accessCheck py agentId mcpTool chain.accessGrants,
    classificationCheck py args (ceiling.getD "internal") chain.classification,
    costCheck chain.costGrants] ++
    match chain.stateful with
    | none => []
    | some gates => [statefulPiiCheck args gates.pii, warmupCheck gates.warmup,
      interjectionCheck py mcpTool args gates.clarifyTools gates.interjection,
      knowledgeCheck py gates.concepts gates.knowledge])

/-! ### `agent_query_pevr` -/

/-- `d.setdefault(k, v)` for every item of `body`. -/
def setDefaults (d body : Dict) : Dict :=
  body.foldl (fun d p => if d.any fun q => q.1 = p.1 then d else d ++ [p]) d

/-- What one `agent_query` cycle is written for. -/
structure AgentQuery where
  mcpTool : String
  args : Dict
  routeMode : String
  executeBody : Dict
  verifyBody : Dict

/-- `_payload_for_phase`, with the correlation key. -/
def AgentQuery.payload (q : AgentQuery) (auditTrailId : UUID) (phase : String)
    (rowCount costUsd latencyMs : Val) : Dict :=
  [(.str "agent_id", .str agentId), (.str "mcp_tool", .str q.mcpTool), (.str "args", .dict q.args),
    (.str "route_mode", .str q.routeMode), (.str "phase", .str phase), (.str "row_count", rowCount),
    (.str "cost_usd", costUsd), (.str "latency_ms", latencyMs), (.str "caused_by", .none),
    (.str "audit_trail_id", .str auditTrailId.str)]

def defaultChecks : Val :=
  .list [.dict [(.str "name", .str "agent_query_default"), (.str "ok", .bool true)]]

/-- What `verify_fn` gives when there is none. -/
def defaultVerify : Dict := [(.str "checks", defaultChecks), (.str "passed", .bool true)]

/-- `agent_query_pevr`, as the write that it makes. -/
def agentQueryPevr (auditTrailId : UUID) (ids : CycleIds) (q : AgentQuery) : Ledger.Call where
  companyId
  propose := q.payload agentId auditTrailId "propose" .none .none .none
  executeFn := .ok (.dict (setDefaults (q.payload agentId auditTrailId "execute"
    (q.executeBody.get "row_count") (q.executeBody.get "cost_usd") (q.executeBody.get "latency_ms"))
      q.executeBody))
  verifyFn := fun executePayload => .ok (.dict (q.payload agentId auditTrailId "verify"
    (executePayload.get "row_count") (executePayload.get "cost_usd") (executePayload.get "latency_ms") ++
      [(.str "passed", .bool (q.verifyBody.getD "passed" (.bool true)).truthy),
        (.str "checks", q.verifyBody.getD "checks" defaultChecks)]))
  resolveFn := fun verifyPayload => .ok (.dict (q.payload agentId auditTrailId "resolve"
    (verifyPayload.get "row_count") (verifyPayload.get "cost_usd") (verifyPayload.get "latency_ms") ++
      [(.str "outcome", .str (if (verifyPayload.get "passed").truthy then "keep" else "discard")),
        (.str "rationale", .str (if (verifyPayload.get "passed").truthy then "agent_query verified"
          else "agent_query verify failed"))]))
  timestamp := none
  quadrant := .activeDeterministic
  now := ids.now
  proposeId := ids.proposeId
  executeId := ids.executeId
  verifyId := ids.verifyId
  resolveId := ids.resolveId

def optionText : Option String → Val
  | some s => .str s
  | none => .none

/-- `_emit_denial_agent_query`. -/
def denialQuery (mcpTool : String) (args : Dict) (routeMode : String) (denial : GateDenial) : AgentQuery where
  mcpTool
  args
  routeMode
  executeBody := [(.str "denial_gate", .str denial.gateName), (.str "denial_reason", .str denial.reason),
    (.str "suggested_fix", optionText denial.suggestedFix)]
  verifyBody := [(.str "checks", .list [.dict [(.str "name", .str "gate_chain"), (.str "ok", .bool false),
    (.str "denial", .dict [(.str "gate_name", .str denial.gateName),
      (.str "reason", .str denial.reason)])]]), (.str "passed", .bool true), (.str "status", .str "denied")]

/-! ### The tools -/

inductive LakeCall where
  | catalogTables (filter : Option (List (String × Val)))
  | semanticMetric (name : String) (filter : Option (List (String × Val)))
  | lineage (resourceId direction : String)
  | query (sql : String) (scopeToken : Option String) (resourceId : String)

/-- `filter or {}`. -/
def filterArg (filter : Option (List (String × Val))) : Val :=
  .dict ((filter.getD []).map fun p => (.str p.1, p.2))

/-- `choose_route_mode`. -/
def chooseRouteMode (classification : Option String) : String :=
  if classification ∈ [some "confidential", some "pii", some "regulated"] then "broker" else "broker"

/-- What a back end leaves to write: the route, the body of the execute phase, and a credential. -/
structure Served where
  routeMode : String
  body : Dict
  credential : Option Dict

namespace LakeCall

def mcpTool : LakeCall → String
  | catalogTables _ => "lake.catalog.tables"
  | semanticMetric .. => "lake.semantic.metric"
  | lineage .. => "lake.lineage"
  | query .. => "lake.query"

def args : LakeCall → Dict
  | catalogTables filter => [(.str "filter", filterArg filter)]
  | semanticMetric name filter => [(.str "name", .str name), (.str "filter", filterArg filter)]
  | lineage resourceId direction => [(.str "resource_id", .str resourceId), (.str "direction", .str direction)]
  | query sql scopeToken resourceId => [(.str "sql", .str sql), (.str "scope_token", optionText scopeToken),
      (.str "resource_id", .str resourceId)]

/-- The route that a denial is recorded with. -/
def denialRoute : LakeCall → String
  | query .. => "federate"
  | _ => "broker"

/-- The pipeline of `lake_semantic_metric` up to the answer of the broker. -/
def metricResult (a : Answers) (name : String) (filter : Option (List (String × Val))) :
    Except Err (String × ℕ × String) := do
  let spec := QuerySpec.ofMetric name filter
  validateQuerySpec py spec a.catalogClient
  let plan ← planQuery py spec a.catalogClient
  let _ ← compileToSql py spec plan []
  let classification ← a.resourceClassification
  let result ← a.brokerResult
  return (chooseRouteMode classification, result)

/-- `CredentialPayload` of a federate call. -/
def credential (resourceId : String) (token : Issuance) : Dict :=
  [(.str "agent_id", .str agentId), (.str "credential_kind", .str "data"), (.str "target", .str resourceId),
    (.str "status", .str "active"), (.str "ttl_expires_at", .str token.expiresAt),
    (.str "issued_by", .str "agent-gateway")]

/-- What the tool does once the gates have let it through. -/
def serve (a : Answers) : LakeCall → Except Err Served
  | catalogTables _ => do
    let rows ← a.rowCount
    return ⟨"broker", [(.str "row_count", .int rows), (.str "result_ref", .str "projection_external_catalog")],
      none⟩
  | semanticMetric name filter => do
    let result ← metricResult py a name filter
    return ⟨result.1, [(.str "row_count", .int result.2.1), (.str "latency_ms", .int a.latencyMs),
      (.str "result_ref", .str result.2.2), (.str "metric_name", .str name)], none⟩
  | lineage _ _ => do
    let rows ← a.rowCount
    return ⟨"broker", [(.str "row_count", .int rows), (.str "result_ref", .str "projection_external_lineage")],
      none⟩
  | query _ _ resourceId => do
    let token ← a.issuance
    return ⟨"federate", [(.str "row_count", .int 0), (.str "result_ref", .str token.tokenId),
      (.str "token_id", .str token.tokenId)], some (credential agentId resourceId token)⟩

end LakeCall

/-- The write of a credential. -/
def credentialWrite (ids : CycleIds) (cred : Dict) : Ledger.Call where
  companyId
  propose := cred
  executeFn := .ok (.dict cred)
  verifyFn := fun _ => .ok (.dict (cred ++ [(.str "checks", .list [.dict [(.str "name", .str "credential_recorded"),
    (.str "ok", .bool true)]]), (.str "passed", .bool true)]))
  resolveFn := fun _ => .ok (.dict (cred ++ [(.str "outcome", .str "keep"),
    (.str "rationale", .str "federate_token_issued")]))
  timestamp := none
  quadrant := .activeDeterministic
  now := ids.now
  proposeId := ids.proposeId
  executeId := ids.executeId
  verifyId := ids.verifyId
  resolveId := ids.resolveId

namespace LakeCall

def gate (call : LakeCall) (a : Answers) : Except Err (Option GateDenial) :=
  applyGates py agentId call.mcpTool call.args a.ceiling a.gates

/-- The writes of a call, as long as each of them returns. -/
def writes (call : LakeCall) (a : Answers) : Except Err (List Ledger.Call) := do
  let redactedArgs := redactArgs chars call.args
  match ← call.gate py agentId a with
  | some denial => return [agentQueryPevr companyId agentId a.auditTrailId a.queryIds
      (denialQuery call.mcpTool redactedArgs call.denialRoute denial)]
  | none => do
    let served ← call.serve py agentId a
    return agentQueryPevr companyId agentId a.auditTrailId a.queryIds
      ⟨call.mcpTool, redactedArgs, served.routeMode, served.body, defaultVerify⟩ ::
        (served.credential.map (credentialWrite companyId a.credentialIds)).toList

end LakeCall

end

end Gateway
