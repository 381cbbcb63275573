import Wormbase.Gateway.LakeTools
import Wormbase.Projection.Cycles
import Wormbase.Projection.RowIds

/-! The cycles that the identity helpers write, one for an agent's query and one for a credential, and what the
    fold of the projections makes of the four rows of each.

    Both put the payload of their kind on every phase, so each of the four rows is told by its shape. -/

namespace Identity
open Py Projection
open Gateway (setDefaults defaultChecks)

/-! ### `agent_query_pevr` -/

/-- The arguments of `agent_query_pevr`, and what its callbacks return. -/
structure Query where
  agentId : String
  mcpTool : String
  args : Dict
  routeMode : String
  causedBy : Val
  executeBody : Dict
  verifyBody : Dict

/-- `_payload_for_phase`, with the correlation key. -/
def Query.fields (q : Query) (auditTrailId : UUID) (phase : String) (rowCount costUsd latencyMs : Val) :
    List (String × Val) :=
  [("agent_id", .str q.agentId), ("mcp_tool", .str q.mcpTool), ("args", .dict q.args),
    ("route_mode", .str q.routeMode), ("phase", .str phase), ("row_count", rowCount), ("cost_usd", costUsd),
    ("latency_ms", latencyMs), ("caused_by", q.causedBy), ("audit_trail_id", .str auditTrailId.str)]

/-- One call of `agent_query_pevr` that the ledger has taken. -/
structure QueryCycle where
  stamp : Stamp
  auditTrailId : UUID
  query : Query

namespace QueryCycle
variable (c : QueryCycle)

/-- The fields of a phase, where the measurements are those of a dict. -/
def fieldsOf (phase : String) (measured : Dict) : List (String × Val) :=
  c.query.fields c.auditTrailId phase (measured.get "row_count") (measured.get "cost_usd")
    (measured.get "latency_ms")

/-- `_execute`. -/
def execute : Dict := setDefaults ((c.fieldsOf "execute" c.query.executeBody).map strItem) c.query.executeBody

/-- `_verify`. -/
def verify (executePayload : Dict) : Dict :=
  (c.fieldsOf "verify" executePayload).map strItem ++
    [(.str "passed", .bool (c.query.verifyBody.getD "passed" (.bool true)).truthy),
      (.str "checks", c.query.verifyBody.getD "checks" defaultChecks)]

/-- `_resolve`. -/
def resolve (verifyPayload : Dict) : Dict :=
  (c.fieldsOf "resolve" verifyPayload).map strItem ++
    [(.str "outcome", .str (if (verifyPayload.get "passed").truthy then "keep" else "discard")),
      (.str "rationale", .str (if (verifyPayload.get "passed").truthy then "agent_query verified"
        else "agent_query verify failed"))]

/-- The write of the call. -/
def cycle : Cycle :=
  let verify := c.verify (linked "propose_entry_id" c.stamp.proposeId c.execute)
  { stamp := c.stamp
    propose := (c.query.fields c.auditTrailId "propose" .none .none .none).map strItem
    execute := c.execute
    verify
    resolve := c.resolve (linked "execute_entry_id" c.stamp.executeId verify) }

end QueryCycle

/-- The query of a lake tool, which has no parent query. -/
def ofLakeTool (agentId : String) (q : Gateway.AgentQuery) : Query :=
  ⟨agentId, q.mcpTool, q.args, q.routeMode, .none, q.executeBody, q.verifyBody⟩

/-- The payloads of its cycle are those that the lake tools write. -/
theorem payloads_agentQueryPevr (companyId : UUID) (agentId : String) (auditTrailId : UUID) (ids : Gateway.CycleIds)
    (q : Gateway.AgentQuery) (st : Stamp) (hpropose : ids.proposeId = st.proposeId)
    (hexecute : ids.executeId = st.executeId) (hverify : ids.verifyId = st.verifyId) :
    (Gateway.agentQueryPevr companyId agentId auditTrailId ids q).payloads =
      .ok (QueryCycle.cycle ⟨st, auditTrailId, ofLakeTool agentId q⟩).payloads := by
  have hspread : ∀ (name : String) (id : UUID) (body : Dict),
      Ledger.spread name id (.dict body) = .ok (linked name id body) := fun _ _ _ => rfl
  have hfields : ∀ phase rowCount costUsd latencyMs, q.payload agentId auditTrailId phase rowCount costUsd latencyMs =
      ((ofLakeTool agentId q).fields auditTrailId phase rowCount costUsd latencyMs).map strItem :=
    fun _ _ _ _ => rfl
  have hbody : q.executeBody = (ofLakeTool agentId q).executeBody := rfl
  have hverdict : q.verifyBody = (ofLakeTool agentId q).verifyBody := rfl
  generalize ofLakeTool agentId q = query at hfields hbody hverdict ⊢
  simp only [Ledger.Call.payloads, Ledger.Call.execPayload, Ledger.Call.verifyPayload, Ledger.Call.resolvePayload,
    Gateway.agentQueryPevr, bind, Except.bind, hspread, pure, Except.pure, hpropose, hexecute, hverify, hfields, hbody,
    hverdict, Cycle.payloads, Cycle.executePayload, Cycle.verifyPayload, Cycle.resolvePayload, QueryCycle.cycle,
    QueryCycle.execute, QueryCycle.verify, QueryCycle.resolve, QueryCycle.fieldsOf]
  rfl

/-! ### `_emit_credential_pevr` -/

inductive CredentialKind where
  | data | model

def CredentialKind.text : CredentialKind → String
  | data => "data"
  | model => "model"

inductive CredentialStatus where
  | active | revoked

def CredentialStatus.text : CredentialStatus → String
  | active => "active"
  | revoked => "revoked"

/-- A credential event that the ledger has taken: a `CredentialPayload`, and what its writer adds to the verify and
    the resolve row. -/
structure CredentialCycle where
  stamp : Stamp
  agentId : String
  credentialKind : CredentialKind
  target : String
  status : CredentialStatus
  ttlExpiresAt : String
  issuedBy : String
  check : String
  rationale : String

namespace CredentialCycle
variable (c : CredentialCycle)

def fields : List (String × Val) :=
  [("agent_id", .str c.agentId), ("credential_kind", .str c.credentialKind.text), ("target", .str c.target),
    ("status", .str c.status.text), ("ttl_expires_at", .str c.ttlExpiresAt), ("issued_by", .str c.issuedBy)]

def verifyFields : List (String × Val) :=
  c.fields ++ [("checks", .list [.dict [(.str "name", .str c.check), (.str "ok", .bool true)]]),
    ("passed", .bool true)]

def resolveFields : List (String × Val) := c.fields ++ [("outcome", .str "keep"), ("rationale", .str c.rationale)]

def cycle : Cycle where
  stamp := c.stamp
  propose := c.fields.map strItem
  execute := c.fields.map strItem
  verify := c.verifyFields.map strItem
  resolve := c.resolveFields.map strItem

end CredentialCycle

/-! ### Looking up fields -/

section
variable {D : List (String × Val)} {body extra : Dict} {name field : String} {id : UUID} {v : Val}

theorem get?_append (d e : Dict) (name : String) :
    Dict.get? (d ++ e) name = (Dict.get? d name).or (Dict.get? e name) := by
  simp only [Dict.get?, List.find?_append]
  cases d.find? fun p => p.1 = .str name with
  | none => simp
  | some p => simp

/-- The defaults that are set are for fields that are not there. -/
theorem setDefaults_eq (d body : Dict) : ∃ extra, setDefaults d body = d ++ extra ∧
    ∀ name, (d.get? name).isSome = true → extra.get? name = none := by
  have hfold : ∀ (body extra : Dict), (∀ name, (d.get? name).isSome = true → extra.get? name = none) →
      ∃ extra', setDefaults (d ++ extra) body = d ++ extra' ∧
        ∀ name, (d.get? name).isSome = true → extra'.get? name = none := by
    intro body
    induction body with
    | nil => exact fun extra hextra => ⟨extra, rfl, hextra⟩
    | cons p body ih =>
      intro extra hextra
      rw [setDefaults, List.foldl_cons]
      split
      · exact ih extra hextra
      · rename_i hnew
        rw [List.append_assoc]
        refine ih (extra ++ [p]) fun name hname => ?_
        have hother : p.1 ≠ .str name := by
          intro hp
          obtain ⟨w, hw⟩ := Option.isSome_iff_exists.mp hname
          rw [Dict.get?, Option.map_eq_some_iff] at hw
          obtain ⟨q, hq, -⟩ := hw
          refine hnew (List.any_eq_true.mpr ⟨q, ?_, ?_⟩)
          · exact List.mem_append_left _ (List.mem_of_find?_eq_some hq)
          · have hkey := List.find?_some hq
            simp only [decide_eq_true_eq] at hkey
            simp [hkey, hp]
        rw [get?_append, hextra name hname]
        simp [Dict.get?, hother]
  obtain ⟨extra, hextra, hnone⟩ := hfold body [] fun _ _ => rfl
  exact ⟨extra, by simpa using hextra, hnone⟩

theorem update_append : ∀ (m m' base : Dict), base.update (m ++ m') = (base.update m).update m'
  | [], _, _ => by simp [Dict.update]
  | (.str name, w) :: m, m', base => by
    rw [List.cons_append, Dict.update, Dict.update, update_append m m']
  | (.int _, _) :: m, m', base | (.float _, _) :: m, m', base | (.bool _, _) :: m, m', base
  | (.none, _) :: m, m', base | (.other _ _, _) :: m, m', base => by
    simp only [List.cons_append, Dict.update]
    exact update_append m m' _

/-- A field of a payload that the ledger has put an id to. -/
theorem get?_linked (hnodup : (field :: D.map Prod.fst).Nodup) (hmem : (name, v) ∈ D)
    (hextra : extra.get? name = none) : Dict.get? (linked field id (D.map strItem ++ extra)) name = some v := by
  have hput := @update_strItems D [(field, .str id.str)] (by simpa using hnodup)
  rw [linked, update_append, get?_update hextra]
  rw [List.map_cons, List.map_nil, strItem] at hput
  rw [hput]
  exact get?_strItems (by simpa using hnodup) (List.mem_cons_of_mem _ hmem)

/-- A payload with the fields. -/
def Reads (payload : Dict) (D : List (String × Val)) : Prop := ∀ p ∈ D, Dict.get? payload p.1 = some p.2

theorem reads_strItems (hnodup : (D.map Prod.fst).Nodup) : Reads (D.map strItem) D :=
  fun _ hp => get?_strItems hnodup hp

theorem reads_linked (hnodup : (field :: D.map Prod.fst).Nodup) (hextra : ∀ p ∈ D, extra.get? p.1 = none) :
    Reads (linked field id (D.map strItem ++ extra)) D :=
  fun p hp => get?_linked hnodup hp (hextra p hp)

theorem reads_setDefaults (hnodup : (field :: D.map Prod.fst).Nodup) (body : Dict) :
    Reads (linked field id (setDefaults (D.map strItem) body)) D := by
  obtain ⟨extra, heq, hnone⟩ := setDefaults_eq (D.map strItem) body
  rw [heq]
  refine reads_linked hnodup fun p hp => hnone p.1 ?_
  rw [get?_strItems (List.nodup_cons.mp hnodup).2 hp]
  rfl

end

/-! ### One phase of a query -/

section
variable {py : Interp} {c : QueryCycle} {company : UUID} {n : ℕ} {e : LedgerRow} {payload : Dict}
  {t : Table AgentQuery.key}

theorem query_shape {q : Query} {auditTrailId : UUID} {phase : String} {rowCount costUsd latencyMs : Val}
    (h : Reads payload (q.fields auditTrailId phase rowCount costUsd latencyMs)) : isAgentQueryPayload payload = true := by
  simp only [Reads, Query.fields, List.forall_mem_cons] at h
  obtain ⟨-, htool, -, hroute, hphase, -, -, -, -, haudit, -⟩ := h
  simp [isAgentQueryPayload, Dict.has, haudit, hphase, htool, hroute]

/-- The row of a query that is filled in by a phase. -/
def fill (r : AgentQuery) (status rowCount costUsd latencyMs causedBy : Val) : AgentQuery :=
  { r with
    status
    rowCount := orKept rowCount r.rowCount
    costUsd := orKept costUsd r.costUsd
    latencyMs := orKept latencyMs r.latencyMs
    causedBy := orKept causedBy r.causedBy }

/-- The row that a phase opens. -/
def opened (q : Query) (auditTrailId company : UUID) (ts : DateTime) (status rowCount costUsd latencyMs : Val) :
    AgentQuery where
  id := .str auditTrailId.str
  companyId := company.str
  agentId := .str q.agentId
  mcpTool := .str q.mcpTool
  args := .dict q.args
  routeMode := .str q.routeMode
  status
  rowCount
  costUsd
  latencyMs
  causedBy := q.causedBy
  startedAt := ts

theorem stepAt_query {q : Query} {auditTrailId : UUID} {phase : String} {rowCount costUsd latencyMs : Val}
    (hkind : e.kind ∈ ["propose", "execute", "verify", "resolve"]) (hpayload : e.payload = .dict payload)
    (h : Reads payload (q.fields auditTrailId phase rowCount costUsd latencyMs)) :
    stepAt py .agentQueries t e = .ok (t.put (match t.get? (.str auditTrailId.str) with
      | none => opened q auditTrailId e.companyId e.ts (.str phase) rowCount costUsd latencyMs
      | some r => fill r (.str phase) rowCount costUsd latencyMs q.causedBy)) := by
  have hshape := query_shape h
  simp only [Reads, Query.fields, List.forall_mem_cons] at h
  obtain ⟨hagent, htool, hargs, hroute, hphase, hrows, hcost, hlatency, hcaused, haudit, -⟩ := h
  have hrun : applyAgentQuery e payload t = .ok (t.put (match t.get? (.str auditTrailId.str) with
      | none => opened q auditTrailId e.companyId e.ts (.str phase) rowCount costUsd latencyMs
      | some r => fill r (.str phase) rowCount costUsd latencyMs q.causedBy)) := by
    simp only [applyAgentQuery, Dict.item, Dict.getD, Dict.get, hagent, htool, hargs, hroute, hphase, hrows, hcost,
      hlatency, hcaused, haudit, Val.hash, bind, Except.bind, Option.getD_some]
    cases t.get? (.str auditTrailId.str) with
    | none => rfl
    | some r => rfl
  have hact : ∀ u, actAt py .agentQueries u e = .ok u := by
    intro u
    unfold actAt
    split
    · rfl
    · rfl
  simp only [stepAt, envelopeAt, hpayload, hkind, if_true, hshape, hrun, bind, Except.bind, hact]
  rfl

/-! ### The rows of a query -/

/-- The row of a query: its arguments from the propose row, its measurements from the verify row, how it ended from
    the resolve row. -/
def rowOf (company : UUID) (c : Cycle) : AgentQuery where
  id := c.propose.get "audit_trail_id"
  companyId := company.str
  agentId := c.propose.get "agent_id"
  mcpTool := c.propose.get "mcp_tool"
  args := c.propose.get "args"
  routeMode := c.propose.get "route_mode"
  status := c.resolvePayload.get "phase"
  rowCount := c.verifyPayload.get "row_count"
  costUsd := c.verifyPayload.get "cost_usd"
  latencyMs := c.verifyPayload.get "latency_ms"
  causedBy := c.propose.get "caused_by"
  startedAt := c.stamp.ts

/-- The row of a query after one more cycle with its id. -/
def addTo (r : AgentQuery) (c : Cycle) : AgentQuery :=
  fill r (c.resolvePayload.get "phase") (c.verifyPayload.get "row_count") (c.verifyPayload.get "cost_usd")
    (c.verifyPayload.get "latency_ms") (c.propose.get "caused_by")

/-- The row of a query's id after a cycle with that id. -/
def joined (company : UUID) (c : Cycle) : Option AgentQuery → AgentQuery
  | none => rowOf company c
  | some r => addTo r c

theorem nodup_fields {field : String} (hfield : field ∈ ["propose_entry_id", "execute_entry_id", "verify_entry_id"])
    (q : Query) (auditTrailId : UUID) (phase : String) (rowCount costUsd latencyMs : Val) :
    (field :: (q.fields auditTrailId phase rowCount costUsd latencyMs).map Prod.fst).Nodup := by
  simp only [List.mem_cons, List.not_mem_nil, or_false] at hfield
  rcases hfield with rfl | rfl | rfl <;> simp [Query.fields]

theorem reads_propose (c : QueryCycle) :
    Reads c.cycle.propose (c.query.fields c.auditTrailId "propose" .none .none .none) :=
  reads_strItems (List.nodup_cons.mp (@nodup_fields "propose_entry_id" (by simp) ..)).2

/-- A later phase copies the measurements. -/
theorem fieldsOf_copied {phase phase' : String} {measured payload : Dict}
    (h : Reads payload (c.fieldsOf phase measured)) : c.fieldsOf phase' payload = c.fieldsOf phase' measured := by
  simp only [Reads, QueryCycle.fieldsOf, Query.fields, List.forall_mem_cons] at h
  obtain ⟨-, -, -, -, -, hrows, hcost, hlatency, -⟩ := h
  simp only [QueryCycle.fieldsOf]
  rw [Dict.get, Dict.get, Dict.get, hrows, hcost, hlatency]
  rfl

theorem reads_execute (c : QueryCycle) : Reads c.cycle.executePayload (c.fieldsOf "execute" c.query.executeBody) :=
  reads_setDefaults (nodup_fields (by simp) ..) c.query.executeBody

theorem reads_verify (c : QueryCycle) : Reads c.cycle.verifyPayload (c.fieldsOf "verify" c.query.executeBody) := by
  rw [← fieldsOf_copied (reads_execute c)]
  refine reads_linked (nodup_fields (by simp) ..) fun p hp => ?_
  simp only [QueryCycle.fieldsOf, Query.fields, List.mem_cons, List.not_mem_nil, or_false] at hp
  rcases hp with rfl | rfl | rfl | rfl | rfl | rfl | rfl | rfl | rfl | rfl <;> simp [Dict.get?]

theorem reads_resolve (c : QueryCycle) : Reads c.cycle.resolvePayload (c.fieldsOf "resolve" c.query.executeBody) := by
  rw [← fieldsOf_copied (reads_verify c)]
  refine reads_linked (nodup_fields (by simp) ..) fun p hp => ?_
  simp only [QueryCycle.fieldsOf, Query.fields, List.mem_cons, List.not_mem_nil, or_false] at hp
  rcases hp with rfl | rfl | rfl | rfl | rfl | rfl | rfl | rfl | rfl | rfl <;> simp [Dict.get?]

theorem rowOf_cycle (c : QueryCycle) (company : UUID) : rowOf company c.cycle =
    opened c.query c.auditTrailId company c.stamp.ts (.str "resolve") (c.query.executeBody.get "row_count")
      (c.query.executeBody.get "cost_usd") (c.query.executeBody.get "latency_ms") := by
  have hpropose := reads_propose c
  have hverify := reads_verify c
  have hresolve := reads_resolve c
  simp only [Reads, QueryCycle.fieldsOf, Query.fields, List.forall_mem_cons] at hpropose hverify hresolve
  obtain ⟨hagent, htool, hargs, hroute, -, -, -, -, hcaused, haudit, -⟩ := hpropose
  obtain ⟨-, -, -, -, -, hrows, hcost, hlatency, -⟩ := hverify
  obtain ⟨-, -, -, -, hphase, -⟩ := hresolve
  simp only [rowOf, opened, Dict.get, hagent, htool, hargs, hroute, hcaused, haudit, hrows, hcost, hlatency, hphase,
    Option.getD_some]
  rfl

theorem addTo_cycle (c : QueryCycle) (r : AgentQuery) : addTo r c.cycle =
    fill r (.str "resolve") (c.query.executeBody.get "row_count") (c.query.executeBody.get "cost_usd")
      (c.query.executeBody.get "latency_ms") c.query.causedBy := by
  have hpropose := reads_propose c
  have hverify := reads_verify c
  have hresolve := reads_resolve c
  simp only [Reads, QueryCycle.fieldsOf, Query.fields, List.forall_mem_cons] at hpropose hverify hresolve
  obtain ⟨-, -, -, -, -, -, -, -, hcaused, -⟩ := hpropose
  obtain ⟨-, -, -, -, -, hrows, hcost, hlatency, -⟩ := hverify
  obtain ⟨-, -, -, -, hphase, -⟩ := hresolve
  simp only [addTo, Dict.get, hcaused, hrows, hcost, hlatency, hphase, Option.getD_some]

theorem orKept_orKept (v w : Val) : orKept v (orKept v w) = orKept v w := by
  cases v <;> rfl

theorem orKept_none (v : Val) : orKept v .none = v := by
  cases v <;> rfl

theorem orKept_self (v : Val) : orKept v v = v := by
  cases v <;> rfl

/-- The same phase contents again change the phase only. -/
theorem fill_fill (r : AgentQuery) (status status' rowCount costUsd latencyMs causedBy : Val) :
    fill (fill r status rowCount costUsd latencyMs causedBy) status' rowCount costUsd latencyMs causedBy =
      fill r status' rowCount costUsd latencyMs causedBy := by
  simp only [fill, orKept_orKept]

theorem key_fill (r : AgentQuery) (status rowCount costUsd latencyMs causedBy : Val) :
    (fill r status rowCount costUsd latencyMs causedBy).key = r.key := rfl

/-- The four rows of a query's cycle open its row, or fill in the row that is there under its id. -/
theorem fold_query (c : QueryCycle) (company : UUID) (n : ℕ) (t : Table AgentQuery.key) :
    (c.cycle.rows company n).foldlM (stepAt py .agentQueries) t =
      .ok (t.put (joined company c.cycle (t.get? (.str c.auditTrailId.str)))) := by
  -- what a later phase makes of the row that the propose row has left
  have hlater : ∀ {e : LedgerRow} {payload : Dict} {phase : String} (r : AgentQuery),
      r.key = .str c.auditTrailId.str → e.kind ∈ ["propose", "execute", "verify", "resolve"] →
      e.payload = .dict payload → Reads payload (c.fieldsOf phase c.query.executeBody) →
      stepAt py .agentQueries (t.put r) e = .ok (t.put (fill r (.str phase) (c.query.executeBody.get "row_count")
        (c.query.executeBody.get "cost_usd") (c.query.executeBody.get "latency_ms") c.query.causedBy)) := by
    intro e payload phase r hkey hkind hpayload hreads
    have hget : (t.put r).get? (.str c.auditTrailId.str) = some r := by rw [Table.get?_put, if_pos hkey]
    rw [stepAt_query hkind hpayload hreads, hget]
    exact congrArg Except.ok (Table.put_put t (key_fill ..))
  obtain ⟨p, e, v, x, hrows, hp, he, hv, hx⟩ := c.cycle.rows_eq company n
  obtain ⟨first, hfirst, hkey, hlast⟩ : ∃ first : AgentQuery,
      stepAt py .agentQueries t p = .ok (t.put first) ∧ first.key = .str c.auditTrailId.str ∧
      fill first (.str "resolve") (c.query.executeBody.get "row_count") (c.query.executeBody.get "cost_usd")
        (c.query.executeBody.get "latency_ms") c.query.causedBy =
        joined company c.cycle (t.get? (.str c.auditTrailId.str)) := by
    refine ⟨_, stepAt_query (by simp [hp.kind]) hp.payload (reads_propose c), ?_⟩
    rw [hp.companyId, hp.ts]
    cases hget : t.get? (.str c.auditTrailId.str) with
    | none =>
      refine ⟨rfl, ?_⟩
      simp only [joined, rowOf_cycle, fill, opened, orKept_none, orKept_self]
      rfl
    | some r =>
      refine ⟨(Table.get?_eq_some_iff.mp hget).2, ?_⟩
      simp only [joined, addTo_cycle, fill, orKept_orKept]
      rfl
  rw [← hlast, hrows]
  simp only [List.foldlM_cons, List.foldlM_nil, bind, Except.bind, hfirst]
  rw [hlater first hkey (by simp [he.kind]) he.payload (reads_execute c)]
  simp only
  rw [hlater _ ((key_fill ..).trans hkey) (by simp [hv.kind]) hv.payload (reads_verify c), fill_fill]
  simp only
  rw [hlater _ ((key_fill ..).trans hkey) (by simp [hx.kind]) hx.payload (reads_resolve c), fill_fill]
  rfl

end

/-! ### The rows of a credential -/

section
variable {py : Interp} {c : CredentialCycle} {company id : UUID} {n : ℕ} {e : LedgerRow} {D : List (String × Val)}

/-- The id of the row that a propose row opens. -/
def credentialId (py : Interp) (company proposeId : UUID) : String :=
  (textUuid py ("|".intercalate [company.str, proposeId.str])).hex

theorem credentialUuid_eq (py : Interp) (company proposeId : UUID) :
    credentialUuid py [.str company.str, .str proposeId.str] = .ok (credentialId py company proposeId) := by
  have hdigest := digestUuid_str py [company.str, proposeId.str]
  rw [List.map_cons, List.map_cons, List.map_nil] at hdigest
  rw [credentialUuid, digestHex, hdigest]
  rfl

/-- The row of a credential: what was issued to whom from the propose row, how it stands from the resolve row. -/
def credentialOf (py : Interp) (company : UUID) (c : Cycle) : Credential where
  id := credentialId py company c.stamp.proposeId
  companyId := company.str
  agentId := c.propose.get "agent_id"
  credentialKind := c.propose.get "credential_kind"
  target := c.propose.get "target"
  status := c.resolvePayload.get "status"
  ttlExpiresAt := parseIsoTs (c.resolvePayload.get "ttl_expires_at")
  issuedBy := c.propose.get "issued_by"
  issuedAt := c.stamp.ts

theorem get?_absent {name : String} (h : name ∉ D.map Prod.fst) : Dict.get? (D.map strItem) name = none := by
  rw [Dict.get?, Option.map_eq_none_iff, List.find?_eq_none]
  intro p hp
  obtain ⟨q, hq, rfl⟩ := List.mem_map.mp hp
  have hne : q.1 ≠ name := fun heq => h (heq ▸ List.mem_map_of_mem hq)
  simpa [strItem] using hne

theorem linked_strItems {field : String} (hnodup : (field :: D.map Prod.fst).Nodup) :
    linked field id (D.map strItem) = ((field, .str id.str) :: D).map strItem := by
  have hput := @update_strItems D [(field, .str id.str)] (by simpa using hnodup)
  rwa [List.map_cons, List.map_nil, strItem] at hput

theorem str_ne_empty (u : UUID) : u.str ≠ "" := by
  intro h
  have hlength := u.length_text
  have htext : u.text = [] := by simpa [UUID.str] using congrArg String.toList h
  rw [htext] at hlength
  cases hlength

theorem or_str (u : UUID) (w : Val) : (Val.str u.str).or w = .str u.str := by
  simp [Val.or, Val.truthy, str_ne_empty u]

/-- The fields of a credential payload, whatever else is in it. -/
theorem credential_shape {payload : Dict} (h : Reads payload c.fields) (hquery : payload.get? "audit_trail_id" = none) :
    isAgentQueryPayload payload = false ∧ isCredentialPayload payload = true := by
  simp only [Reads, CredentialCycle.fields, List.forall_mem_cons] at h
  obtain ⟨-, hkind, -, -, httl, hissuer, -⟩ := h
  constructor
  · simp [isAgentQueryPayload, Dict.has, hquery]
  · cases hk : c.credentialKind <;>
      simp [isCredentialPayload, Dict.has, Dict.get, hkind, httl, hissuer, hk, CredentialKind.text, Val.isText]

theorem stepAt_credential {payload : Dict} {t : Credentials} (hkind : e.kind ∈ ["propose", "execute", "verify", "resolve"])
    (hpayload : e.payload = .dict payload) (h : Reads payload c.fields)
    (hquery : payload.get? "audit_trail_id" = none) :
    stepAt py .credentials t e = applyCredential py e payload t := by
  obtain ⟨hother, hshape⟩ := credential_shape h hquery
  have hact : ∀ u, actAt py .credentials u e = .ok u := by
    intro u
    unfold actAt
    split
    · rfl
    · rfl
  simp only [stepAt, envelopeAt, hpayload, hkind, if_true, hother, hshape, Bool.not_false, Bool.and_self, bind,
    Except.bind, hact]
  cases applyCredential py e payload t <;> rfl

/-- A later phase finds the row that the entry it names leads to. -/
theorem applyCredential_later {payload : Dict} {t : Credentials} {prior rowId : String} {r : Credential}
    (hkind : e.kind ≠ "propose") (h : Reads payload c.fields)
    (hprior : (((payload.get "verify_entry_id").or (payload.get "execute_entry_id")).or
      (payload.get "propose_entry_id")).text py = prior)
    (hchain : t.chain.get? prior = some (prior, rowId)) (hrow : t.rows.get? rowId = some r) :
    applyCredential py e payload t = .ok ⟨t.chain.put (e.entryId.str, rowId), t.rows.put { r with
      status := .str c.status.text
      ttlExpiresAt := (parseIsoTs (.str c.ttlExpiresAt)).orElse fun _ => r.ttlExpiresAt
      issuedAt := if e.kind = "resolve" then e.ts else r.issuedAt }⟩ := by
  simp only [Reads, CredentialCycle.fields, List.forall_mem_cons] at h
  obtain ⟨-, -, -, hstatus, httl, -, -⟩ := h
  have hown := credentialUuid_eq py e.companyId e.entryId
  rw [← LedgerRow.company] at hown
  simp only [applyCredential, hown, hkind, if_false, hprior, hchain, Dict.item, hstatus, httl, bind, Except.bind, pure,
    Except.pure, hrow]

/-- The fields of the four payloads of a credential's cycle. -/
structure Shown (c : CredentialCycle) (payload : Dict) (back : List (String × Val)) : Prop where
  reads : Reads payload c.fields
  back : ∀ name ∈ ["audit_trail_id", "propose_entry_id", "execute_entry_id", "verify_entry_id"],
    payload.get? name = back.lookup name

theorem shown_linked {field : String} {extra : List (String × Val)}
    (hnodup : (field :: (c.fields ++ extra).map Prod.fst).Nodup)
    (hextra : ∀ name ∈ ["audit_trail_id", "propose_entry_id", "execute_entry_id", "verify_entry_id"],
      name ∉ extra.map Prod.fst) :
    Shown c (linked field id ((c.fields ++ extra).map strItem)) [(field, .str id.str)] := by
  rw [linked_strItems hnodup]
  constructor
  · intro p hp
    have hmem : p ∈ (field, Val.str id.str) :: (c.fields ++ extra) :=
      List.mem_cons_of_mem _ (List.mem_append_left _ hp)
    exact get?_strItems (by rwa [List.map_cons]) hmem
  · intro name hname
    by_cases heq : name = field
    · subst heq
      simp [Dict.get?, strItem]
    · have habsent : name ∉ ((field, Val.str id.str) :: (c.fields ++ extra)).map Prod.fst := by
        have hfields : name ∉ c.fields.map Prod.fst := by
          simp only [List.mem_cons, List.not_mem_nil, or_false] at hname
          rcases hname with rfl | rfl | rfl | rfl <;> simp [CredentialCycle.fields]
        simp only [List.map_cons, List.map_append, List.mem_cons, List.mem_append, not_or]
        exact ⟨heq, hfields, hextra name hname⟩
      have hbeq : (name == field) = false := by simpa using heq
      rw [get?_absent habsent, List.lookup_cons, hbeq]
      rfl

theorem nodup_credential {field : String} (hfield : field ∈ ["propose_entry_id", "execute_entry_id", "verify_entry_id"]) :
    (field :: (c.fields ++ []).map Prod.fst).Nodup ∧ (field :: c.verifyFields.map Prod.fst).Nodup ∧
      (field :: c.resolveFields.map Prod.fst).Nodup := by
  simp only [List.mem_cons, List.not_mem_nil, or_false] at hfield
  rcases hfield with rfl | rfl | rfl <;>
    simp [CredentialCycle.verifyFields, CredentialCycle.resolveFields, CredentialCycle.fields]

theorem shown_execute (c : CredentialCycle) :
    Shown c c.cycle.executePayload [("propose_entry_id", .str c.stamp.proposeId.str)] := by
  have h := @shown_linked c c.stamp.proposeId "propose_entry_id" [] (nodup_credential (by simp)).1 (by simp)
  rwa [List.append_nil] at h

theorem shown_verify (c : CredentialCycle) :
    Shown c c.cycle.verifyPayload [("execute_entry_id", .str c.stamp.executeId.str)] :=
  shown_linked (nodup_credential (by simp)).2.1 (by simp)

theorem shown_resolve (c : CredentialCycle) :
    Shown c c.cycle.resolvePayload [("verify_entry_id", .str c.stamp.verifyId.str)] :=
  shown_linked (nodup_credential (by simp)).2.2 (by simp)

theorem credentialOf_cycle (py : Interp) (c : CredentialCycle) (company : UUID) : credentialOf py company c.cycle =
    ⟨credentialId py company c.stamp.proposeId, company.str, .str c.agentId, .str c.credentialKind.text,
      .str c.target, .str c.status.text, parseIsoTs (.str c.ttlExpiresAt), .str c.issuedBy, c.stamp.ts⟩ := by
  have hpropose : Reads c.cycle.propose c.fields :=
    reads_strItems (by simp [CredentialCycle.fields])
  have hresolve := (shown_resolve c).reads
  simp only [Reads, CredentialCycle.fields, List.forall_mem_cons] at hpropose hresolve
  obtain ⟨hagent, hkind, htarget, -, -, hissuer, -⟩ := hpropose
  obtain ⟨-, -, -, hstatus, httl, -, -⟩ := hresolve
  simp only [credentialOf, Dict.get, hagent, hkind, htarget, hstatus, httl, hissuer, Option.getD_some]
  rfl

/-- A propose phase puts the row. -/
theorem propose_credential {p : LedgerRow} (t : Credentials)
    (hp : p.Is company c.stamp.proposeId c.stamp.ts "propose" c.cycle.propose) :
    stepAt py .credentials t p =
      .ok ⟨t.chain.put (p.entryId.str, credentialId py company c.stamp.proposeId),
        t.rows.put (credentialOf py company c.cycle)⟩ := by
  have hreads : Reads c.cycle.propose c.fields := reads_strItems (by simp [CredentialCycle.fields])
  have hquery : c.cycle.propose.get? "audit_trail_id" = none := get?_absent (by simp [CredentialCycle.fields])
  rw [stepAt_credential (by simp [hp.kind]) hp.payload hreads hquery]
  simp only [Reads, CredentialCycle.fields, List.forall_mem_cons] at hreads
  obtain ⟨hagent, hkind, htarget, hstatus, httl, hissuer, -⟩ := hreads
  have hown := credentialUuid_eq py company c.stamp.proposeId
  simp only [applyCredential, LedgerRow.company, hp.companyId, hp.entryId, hown, hp.kind, if_true, credentialRow,
    Dict.item, hagent, hkind, htarget, hstatus, httl, hissuer, hp.ts, bind, Except.bind, pure, Except.pure,
    credentialOf_cycle]

/-- A later phase that names the entry before it leaves the row as it is. -/
theorem later_credential {t : Credentials} {payload : Dict} {prior : UUID} {field kind : String} {id : UUID}
    (he : e.Is company id c.stamp.ts kind payload) (hkind : kind ∈ ["execute", "verify", "resolve"])
    (hfield : field ∈ ["propose_entry_id", "execute_entry_id", "verify_entry_id"])
    (h : Shown c payload [(field, .str prior.str)]) {chain : Dictionary String String}
    (hchain : chain.get? prior.str = some (prior.str, credentialId py company c.stamp.proposeId)) :
    stepAt py .credentials ⟨chain, t.rows.put (credentialOf py company c.cycle)⟩ e =
      .ok ⟨chain.put (id.str, credentialId py company c.stamp.proposeId),
        t.rows.put (credentialOf py company c.cycle)⟩ := by
  have hnot : e.kind ≠ "propose" := by
    rw [he.kind]
    simp only [List.mem_cons, List.not_mem_nil, or_false] at hkind
    rcases hkind with rfl | rfl | rfl <;> simp
  have hphase : e.kind ∈ ["propose", "execute", "verify", "resolve"] := by
    rw [he.kind]
    exact List.mem_cons_of_mem _ hkind
  have hprior : (((payload.get "verify_entry_id").or (payload.get "execute_entry_id")).or
      (payload.get "propose_entry_id")).text py = prior.str := by
    have hnone : ∀ w : Val, Val.none.or w = w := fun w => rfl
    simp only [Dict.get, h.back "verify_entry_id" (by simp), h.back "execute_entry_id" (by simp),
      h.back "propose_entry_id" (by simp)]
    simp only [List.mem_cons, List.not_mem_nil, or_false] at hfield
    rcases hfield with rfl | rfl | rfl <;>
      simp [List.lookup_cons, or_str, hnone, Val.text_str]
  have hquery : payload.get? "audit_trail_id" = none := by
    rw [h.back "audit_trail_id" (by simp)]
    simp only [List.mem_cons, List.not_mem_nil, or_false] at hfield
    rcases hfield with rfl | rfl | rfl <;> rfl
  have hkey : (credentialOf py company c.cycle).id = credentialId py company c.stamp.proposeId := rfl
  rw [stepAt_credential hphase he.payload h.reads hquery,
    applyCredential_later hnot h.reads hprior hchain (by rw [Table.get?_put, if_pos hkey])]
  have hsame : { credentialOf py company c.cycle with
      status := .str c.status.text
      ttlExpiresAt := (parseIsoTs (.str c.ttlExpiresAt)).orElse fun _ => (credentialOf py company c.cycle).ttlExpiresAt
      issuedAt := if e.kind = "resolve" then e.ts else (credentialOf py company c.cycle).issuedAt } =
      credentialOf py company c.cycle := by
    rw [credentialOf_cycle, he.ts]
    simp
  rw [hsame, Table.put_put _ rfl, he.entryId]

/-- The four rows of a credential's cycle put its row. -/
theorem fold_credential (c : CredentialCycle) (company : UUID) (n : ℕ) (t : Credentials) :
    ∃ chain, (c.cycle.rows company n).foldlM (stepAt py .credentials) t =
      .ok ⟨chain, t.rows.put (credentialOf py company c.cycle)⟩ := by
  obtain ⟨p, e, v, x, hrows, hp, he, hv, hx⟩ := c.cycle.rows_eq company n
  have hids : c.cycle.stamp = c.stamp := rfl
  rw [hids] at hp he hv hx
  have hfound : ∀ (chain : Dictionary String String) (k row : String), (chain.put (k, row)).get? k = some (k, row) :=
    fun chain k row => by rw [Table.get?_put, if_pos rfl]
  rw [hrows]
  simp only [List.foldlM_cons, List.foldlM_nil, bind, Except.bind, propose_credential t hp]
  rw [hp.entryId, later_credential he (by simp) (by simp) (shown_execute c) (hfound ..)]
  simp only
  rw [later_credential hv (by simp) (by simp) (shown_verify c) (hfound ..)]
  simp only
  rw [later_credential hx (by simp) (by simp) (shown_resolve c) (hfound ..)]
  exact ⟨_, rfl⟩

end

end Identity
