import Wormbase.Gateway.LakeTools
import Wormbase.Ledger.Settled

/-! The three tools that take a query, against a ledger.

    `lake.semantic.metric` and `lake.semantic.query_spec` ask the broker's executor and then write the audit
    cycle; `lake.query` issues a token and never asks it. Whatever the catalog, the executor and the database
    do, failures among it, is part of the input. -/

namespace Gateway
open Py
open Ledger (Entry)

/-- What the environment answers in one call, with the failures of the catalog and of the database. -/
structure QueryAnswers extends Answers where
  catalogFault : Option Err
  auditFault : Option Err
  credentialFault : Option Err
  /-- What becomes of a spec with a field of another type than the documented one. -/
  otherSpec : Except Err Val

/-- A call of a tool that takes a query. -/
inductive QueryCall where
  | semanticMetric (name : String) (filter : Option (List (String × Val)))
  | query (sql : String) (scopeToken : Option String) (resourceId : String)
  | semanticQuerySpec (spec : List (String × Val))

/-- What a tool returns. -/
inductive QueryReply where
  | denied (auditTrailId : UUID) (denial : GateDenial)
  | metric (auditTrailId : UUID) (metricName : Val) (rowCount : ℕ) (rowsHash : String) (latencyMs : ℤ)
  | federate (auditTrailId : UUID) (sql tokenId expiresAt : String)

/-- The end of a call: what it returns or raises, the rows of the ledger, and whether the executor was asked. -/
structure Ended where
  result : Except Err QueryReply
  rows : List Entry
  asked : Bool

/-! ### Specs -/

def textOrNone : Val → Option (Option String)
  | .none => some none
  | .str s => some (some s)
  | _ => none

def textOf : Val → Option String
  | .str s => some s
  | _ => none

/-- `_tuple` of a list of texts, or of none. -/
def textTuple : Val → Option (List String)
  | .none => some []
  | .list xs => xs.mapM textOf
  | _ => none

def textKeyed : Key × Val → Option (String × Val)
  | (.str k, v) => some (k, v)
  | _ => none

def filterOf : Val → Option (Option (List (String × Val)))
  | .none => some none
  | .dict kvs => (kvs.mapM textKeyed).map some
  | _ => none

/-- `tuple(spec_dict["time_range"]) if spec_dict.get("time_range") else None` of a pair of texts. -/
def timeRangeOf (v : Val) : Option (Option (String × String)) :=
  if v.truthy then
    match v with
    | .list [.str start, .str stop] => some (some (start, stop))
    | _ => none
  else some none

/-- The `QuerySpec` of a dict; none when a field has another type than the documented one. -/
def querySpecOf (spec : Dict) : Option (Except Err QuerySpec) := do
  let metric ← textOrNone (spec.get "metric")
  let dimensions ← textTuple (spec.get "dimensions")
  let measures ← textTuple (spec.get "measures")
  let filter ← filterOf (spec.get "filter")
  let timeRange ← timeRangeOf (spec.get "time_range")
  return do
    let limit ← (spec.getD "limit" (.int 1000)).toInt
    return ⟨metric, dimensions, measures, filter, timeRange, limit⟩

section
variable (py : Interp) (chars : CharTable) (companyId : UUID) (agentId : String) (a : QueryAnswers)

/-- The catalog answers, or raises. -/
def QueryAnswers.catalog : Except Err CatalogClient :=
  match a.catalogFault with
  | some x => .error x
  | none => .ok a.catalogClient

/-- Validate, plan and compile. -/
def compileSpec (spec : QuerySpec) : Except Err CompiledQuery := do
  spec.validate
  let catalog ← a.catalog
  validateQuerySpec py spec catalog
  let plan ← planQuery py spec catalog
  compileToSql py spec plan []

namespace QueryCall

def mcpTool : QueryCall → String
  | semanticMetric .. => "lake.semantic.metric"
  | query .. => "lake.query"
  | semanticQuerySpec _ => "lake.semantic.query_spec"

def args : QueryCall → Dict
  | semanticMetric name filter => [(.str "name", .str name), (.str "filter", filterArg filter)]
  | query sql scopeToken resourceId => [(.str "sql", .str sql), (.str "scope_token", optionText scopeToken),
      (.str "resource_id", .str resourceId)]
  | semanticQuerySpec spec => [(.str "spec", .dict (spec.map strItem))]

def denialRoute : QueryCall → String
  | query .. => "federate"
  | _ => "broker"

/-- What `lake_semantic_metric` does before it asks the executor: the route and the name of the metric. -/
def metricPrepared (name : String) (filter : Option (List (String × Val))) : Except Err (String × Val) := do
  let _ ← compileSpec py a (QuerySpec.ofMetric name filter)
  let classification ← a.resourceClassification
  return (chooseRouteMode classification, .str name)

/-- What `lake_semantic_query_spec` does before it asks the executor. -/
def specPrepared (spec : List (String × Val)) : Except Err (String × Val) :=
  match querySpecOf (spec.map strItem) with
  | none => a.otherSpec.map fun metric => ("broker", metric)
  | some read => do
    let querySpec ← read
    let _ ← compileSpec py a querySpec
    return ("broker", optionText querySpec.metric)

/-- What a tool gets ready for the executor; `lake_query` has nothing for it. -/
def prepared : QueryCall → Option (Except Err (String × Val))
  | semanticMetric name filter => some (metricPrepared py a name filter)
  | semanticQuerySpec spec => some (specPrepared py a spec)
  | query .. => none

end QueryCall

/-- The body of the execute phase of a broker query. -/
def brokerBody (metric : Val) (result : ℕ × String) : Dict :=
  [(.str "row_count", .int result.1), (.str "latency_ms", .int a.latencyMs), (.str "result_ref", .str result.2),
    (.str "metric_name", metric)]

/-- The cycle of a query that the executor has answered. -/
def brokerCycle (call : QueryCall) (route : String) (metric : Val) (result : ℕ × String) : Ledger.Call :=
  agentQueryPevr companyId agentId a.auditTrailId a.queryIds
    ⟨call.mcpTool, redactArgs chars call.args, route, brokerBody a metric result, defaultVerify⟩

/-- The cycle of a denial. -/
def deniedCycle (call : QueryCall) (denial : GateDenial) : Ledger.Call :=
  agentQueryPevr companyId agentId a.auditTrailId a.queryIds
    (denialQuery call.mcpTool (redactArgs chars call.args) call.denialRoute denial)

/-- The cycle of a token. -/
def federateCycle (call : QueryCall) (token : Issuance) : Ledger.Call :=
  agentQueryPevr companyId agentId a.auditTrailId a.queryIds
    ⟨call.mcpTool, redactArgs chars call.args, "federate", [(.str "row_count", .int 0), (.str "result_ref", .str token.tokenId),
      (.str "token_id", .str token.tokenId)], defaultVerify⟩

variable (sha256 : Bytes → Bytes) (d : Ledger.Dialect)

/-- `ledger.write`, which also raises when the database fails. -/
def record (fault : Option Err) (rows : List Entry) (c : Ledger.Call) : Except Err Unit × List Entry :=
  match fault with
  | some x => (.error x, rows)
  | none => ((Ledger.write sha256 d rows c).1.map fun _ => (), (Ledger.write sha256 d rows c).2)

/-- `lake_semantic_metric` and `lake_semantic_query_spec` behind the gates. -/
def brokerTool (call : QueryCall) (rows : List Entry) : Except Err (String × Val) → Ended
  | .error x => ⟨.error x, rows, false⟩
  | .ok (route, metric) =>
    match a.brokerResult with
    | .error x => ⟨.error x, rows, true⟩
    | .ok result =>
      let written := record sha256 d a.auditFault rows (brokerCycle chars companyId agentId a call route metric result)
      ⟨written.1.map fun _ => .metric a.auditTrailId metric result.1 result.2 a.latencyMs, written.2, true⟩

/-- `lake_query` behind the gates. -/
def federateTool (call : QueryCall) (sql resourceId : String) (rows : List Entry) : Ended :=
  match a.issuance with
  | .error x => ⟨.error x, rows, false⟩
  | .ok token =>
    let audited := record sha256 d a.auditFault rows (federateCycle chars companyId agentId a call token)
    match audited.1 with
    | .error x => ⟨.error x, audited.2, false⟩
    | .ok _ =>
      let credited := record sha256 d a.credentialFault audited.2
        (credentialWrite companyId a.credentialIds (LakeCall.credential agentId resourceId token))
      ⟨credited.1.map fun _ => .federate a.auditTrailId sql token.tokenId token.expiresAt, credited.2, false⟩

/-- A call of one of the tools. -/
def QueryCall.run (call : QueryCall) (rows : List Entry) : Ended :=
  match applyGates py agentId call.mcpTool call.args a.ceiling a.gates with
  | .error x => ⟨.error x, rows, false⟩
  | .ok (some denial) =>
    let written := record sha256 d a.auditFault rows (deniedCycle chars companyId agentId a call denial)
    ⟨written.1.map fun _ => .denied a.auditTrailId denial, written.2, false⟩
  | .ok none =>
    match call with
    | .query sql scopeToken resourceId =>
      federateTool chars companyId agentId a sha256 d (.query sql scopeToken resourceId) sql resourceId rows
    | .semanticMetric name filter =>
      brokerTool chars companyId agentId a sha256 d (.semanticMetric name filter) rows (QueryCall.metricPrepared py a name filter)
    | .semanticQuerySpec spec =>
      brokerTool chars companyId agentId a sha256 d (.semanticQuerySpec spec) rows (QueryCall.specPrepared py a spec)

end

end Gateway
