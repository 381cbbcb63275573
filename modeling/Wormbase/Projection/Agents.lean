import Wormbase.Projection.Entry

/-! Agents with their grants, queries and credentials, and the query improvement loop.

    Agent queries, credentials and query templates are not wrapped in an action: they are told by the
    shape of the payload, in every phase of a cycle. -/

namespace Projection
open Py

section
variable (py : Interp)

/-! ### Agents -/

structure Agent where
  id : Val
  companyId : Val
  personId : Val
  externalProvider : Val
  displayName : Val
  registeredAt : DateTime
  status : String

def Agent.key (a : Agent) : Key := a.id.keyOf

def emitAgentRegistered : Fold (Table Agent.key) := fun e args agents => do
  let agentId ← args.item "agent_id"
  let _ ← agentId.hash
  let row : Agent := {
    id := agentId
    companyId := (args.get "company_id").or (.str e.company)
    personId := ← args.item "person_id"
    externalProvider := ← args.item "external_provider"
    displayName := ← args.item "display_name"
    registeredAt := e.ts
    status := "active" }
  return agents.put row

/-! ### Grants -/

structure AgentGrant where
  id : String
  companyId : String
  agentId : String
  grantKind : String
  grantTarget : String
  status : Val
  grantedBy : Val
  grantedAt : DateTime
  budgetRemainingUsd : Val

/-- Assigning and revoking write the same row: the id comes from agent, kind and target. -/
def emitAgentGrant : Fold (Table AgentGrant.id) := fun e args grants => do
  let agentId ← args.item "agent_id"
  let grantKind ← args.item "grant_kind"
  let grantTarget ← args.item "grant_target"
  let company := (args.get "company_id").or (.str e.company)
  let id ← agentGrantUuid py [company, agentId, grantKind, grantTarget]
  let row : AgentGrant := {
    id
    companyId := ← joined company
    agentId := ← joined agentId
    grantKind := ← joined grantKind
    grantTarget := ← joined grantTarget
    status := ← args.item "status"
    grantedBy := ← args.item "granted_by"
    grantedAt := e.ts
    budgetRemainingUsd := args.get "budget_remaining_usd" }
  return grants.put row

/-! ### Agent queries -/

structure AgentQuery where
  id : Val
  companyId : String
  agentId : Val
  mcpTool : Val
  args : Val
  routeMode : Val
  status : Val
  rowCount : Val
  costUsd : Val
  latencyMs : Val
  causedBy : Val
  startedAt : DateTime

def AgentQuery.key (q : AgentQuery) : Key := q.id.keyOf

/-- `_is_agent_query_payload`. -/
def isAgentQueryPayload (payload : Dict) : Bool :=
  payload.has "audit_trail_id" && payload.has "phase" && payload.has "mcp_tool" &&
    payload.has "route_mode"

/-- The new value where there is one. -/
def orKept (new old : Val) : Val :=
  match new with
  | .none => old
  | v => v

/-- One phase of a query: the first opens the row, the others fill it in. -/
def applyAgentQuery : Fold (Table AgentQuery.key) := fun e payload queries => do
  let auditId ← payload.item "audit_trail_id"
  let key ← auditId.hash
  let status := payload.getD "phase" (.str e.kind)
  match queries.get? key with
  | none =>
    let row : AgentQuery := {
      id := auditId
      companyId := e.company
      agentId := ← payload.item "agent_id"
      mcpTool := ← payload.item "mcp_tool"
      args := payload.getD "args" (.dict [])
      routeMode := ← payload.item "route_mode"
      status
      rowCount := payload.get "row_count"
      costUsd := payload.get "cost_usd"
      latencyMs := payload.get "latency_ms"
      causedBy := payload.get "caused_by"
      startedAt := e.ts }
    return queries.put row
  | some q =>
    return queries.put { q with
      status
      rowCount := orKept (payload.get "row_count") q.rowCount
      costUsd := orKept (payload.get "cost_usd") q.costUsd
      latencyMs := orKept (payload.get "latency_ms") q.latencyMs
      causedBy := orKept (payload.get "caused_by") q.causedBy }

/-! ### Credentials -/

structure Credential where
  id : String
  companyId : String
  agentId : Val
  credentialKind : Val
  target : Val
  status : Val
  ttlExpiresAt : Option DateTime
  issuedBy : Val
  issuedAt : DateTime

/-- `chain` leads from the entry id of a phase to the row of its cycle. -/
structure Credentials where
  chain : Dictionary String String
  rows : Table Credential.id

/-- `_is_credential_payload`. -/
def isCredentialPayload (payload : Dict) : Bool :=
  ((payload.get "credential_kind").isText "data" ||
      (payload.get "credential_kind").isText "model") &&
    payload.has "ttl_expires_at" && payload.has "issued_by"

/-- `_parse_iso_ts`. -/
def parseIsoTs : Val → Option DateTime
  | .datetime t => some (if t.utcoffset.isSome then t else t.replaceUtc)
  | .str s => (fromisoformat (zuluToOffset s.toList)).map fun t =>
      if t.utcoffset.isSome then t else t.replaceUtc
  | _ => none

def credentialRow (e : LedgerRow) (payload : Dict) (id : String) : Except Err Credential := do
  return {
    id
    companyId := e.company
    agentId := ← payload.item "agent_id"
    credentialKind := ← payload.item "credential_kind"
    target := ← payload.item "target"
    status := ← payload.item "status"
    ttlExpiresAt := parseIsoTs (← payload.item "ttl_expires_at")
    issuedBy := ← payload.item "issued_by"
    issuedAt := e.ts }

/-- A propose phase opens a row. A later phase finds the row through the entry that it names, or
    opens one of its own. -/
def applyCredential : Fold Credentials := fun e payload creds => do
  let entryId := e.entryId.str
  let priorRef := ((payload.get "verify_entry_id").or (payload.get "execute_entry_id")).or
    (payload.get "propose_entry_id")
  let ownId ← credentialUuid py [.str e.company, .str entryId]
  if e.kind = "propose" then
    let row ← credentialRow e payload ownId
    return ⟨creds.chain.put (entryId, ownId), creds.rows.put row⟩
  else
    let (rowId, rows) ← match creds.chain.get? (priorRef.text py) with
      | some (_, rowId) => pure (rowId, creds.rows)
      | none => do pure (ownId, creds.rows.put (← credentialRow e payload ownId))
    let chain := creds.chain.put (entryId, rowId)
    match rows.get? rowId with
    | none => return ⟨chain, rows⟩
    | some c =>
      let ttl := parseIsoTs (← payload.item "ttl_expires_at")
      return ⟨chain, rows.put { c with
        status := ← payload.item "status"
        ttlExpiresAt := ttl.orElse fun _ => c.ttlExpiresAt
        issuedAt := if e.kind = "resolve" then e.ts else c.issuedAt }⟩

/-! ### Query outcomes and templates -/

structure QueryOutcome where
  id : String
  companyId : String
  agentQueryId : String
  nlQuestion : String
  finalQuerySpec : Dict
  resultSummary : Dict
  used : Bool
  useful : Bool
  userCorrection : Val
  qualityScore : String
  embedding : Option (List PyFloat)
  recordedAt : DateTime

/-- A non-empty list of numbers; `none` also where an element is none. An overflow raises. -/
def readEmbedding (raw : Val) : Except Err (Option (List PyFloat)) :=
  match raw with
  | .list (v :: vs) =>
    match (v :: vs).mapM Val.toFloat with
    | .ok xs => .ok (some xs)
    | .error x => if x.cls = "TypeError" ∨ x.cls = "ValueError" then .ok none else .error x
  | _ => .ok none

def emitQueryOutcomeRecorded : Fold (Table QueryOutcome.id) := fun e args t => do
  let id ← queryOutcomeUuid py [.str e.company, .str e.entryId.str]
  let embedding ← readEmbedding (args.get "embedding")
  return t.put {
    id
    companyId := e.company
    agentQueryId := (args.get "agent_query_id").text py
    nlQuestion := (args.get "nl_question").text py
    finalQuerySpec := dictOrEmpty (args.get "final_query_spec")
    resultSummary := dictOrEmpty (args.get "result_summary")
    used := (args.get "used").truthy
    useful := (args.get "useful").truthy
    userCorrection := args.get "user_correction"
    qualityScore := ((args.get "quality_score").or (.str "0")).toStr py
    embedding
    recordedAt := e.ts }

structure QueryTemplate where
  id : String
  companyId : String
  domainId : String
  nlIntent : String
  querySpec : Dict
  promotedFromOutcomeIds : List String
  qualityScore : String
  hitCount : ℕ
  promotedAt : DateTime

/-- `_is_query_template_promoted_payload`. -/
def isQueryTemplatePromotedPayload (payload : Dict) : Bool :=
  payload.has "nl_intent" && payload.has "promoted_from_outcome_ids" && payload.has "query_spec"

/-- The propose phase is the promotion; the others add nothing. -/
def applyQueryTemplate : Fold (Table QueryTemplate.id) := fun e payload t => do
  if e.kind = "propose" then
    let id ← queryTemplateUuid py [.str e.company, .str e.entryId.str]
    return t.put {
      id
      companyId := e.company
      domainId := (payload.get "domain_id").text py
      nlIntent := (payload.get "nl_intent").text py
      querySpec := dictOrEmpty (payload.get "query_spec")
      promotedFromOutcomeIds := match payload.get "promoted_from_outcome_ids" with
        | .list ids => ids.map (Val.toStr py)
        | _ => []
      qualityScore := ((payload.get "quality_score").or (.str "0")).toStr py
      hitCount := 0
      promotedAt := e.ts }
  else return t

end

/-! ### What a handler puts -/

section
variable {py : Interp} {e : LedgerRow} {args : Dict}

theorem emitAgentRegistered_ok {t t' : Table Agent.key} (h : emitAgentRegistered e args t = .ok t') :
    ∃ r, r.id = args.get "agent_id" ∧ r.personId = args.get "person_id" ∧
      r.companyId = (args.get "company_id").or (.str e.company) ∧ (∃ k, r.id.hash = .ok k) ∧
      t' = t.put r := by
  obtain ⟨agentId, hagent, h⟩ := bind_eq_ok.mp h
  obtain ⟨k, hk, h⟩ := bind_eq_ok.mp h
  obtain ⟨person, hperson, h⟩ := bind_eq_ok.mp h
  obtain ⟨provider, -, h⟩ := bind_eq_ok.mp h
  obtain ⟨name, -, h⟩ := bind_eq_ok.mp h
  rw [item_get hagent, item_get hperson]
  exact ⟨_, rfl, rfl, rfl, ⟨k, hk⟩, (Except.ok.inj h).symm⟩

theorem emitAgentGrant_ok {t t' : Table AgentGrant.id} (h : emitAgentGrant py e args t = .ok t') :
    ∃ r, agentGrantUuid py [(args.get "company_id").or (.str e.company), args.get "agent_id",
        args.get "grant_kind", args.get "grant_target"] = .ok r.id ∧
      (args.get "company_id").or (.str e.company) = .str r.companyId ∧
      args.get "agent_id" = .str r.agentId ∧ args.get "grant_kind" = .str r.grantKind ∧
      args.get "grant_target" = .str r.grantTarget ∧ t' = t.put r := by
  obtain ⟨agentId, hagent, h⟩ := bind_eq_ok.mp h
  obtain ⟨kind, hkind, h⟩ := bind_eq_ok.mp h
  obtain ⟨target, htarget, h⟩ := bind_eq_ok.mp h
  obtain ⟨id, hid, h⟩ := bind_eq_ok.mp h
  obtain ⟨companyText, hcompany, h⟩ := bind_eq_ok.mp h
  obtain ⟨agentText, hagentText, h⟩ := bind_eq_ok.mp h
  obtain ⟨kindText, hkindText, h⟩ := bind_eq_ok.mp h
  obtain ⟨targetText, htargetText, h⟩ := bind_eq_ok.mp h
  obtain ⟨status, -, h⟩ := bind_eq_ok.mp h
  obtain ⟨grantedBy, -, h⟩ := bind_eq_ok.mp h
  rw [item_get hagent, item_get hkind, item_get htarget]
  exact ⟨_, hid, joined_ok hcompany, joined_ok hagentText, joined_ok hkindText, joined_ok htargetText,
    (Except.ok.inj h).symm⟩

/-- A query phase opens the row of its trail id, or fills in the row that has it. -/
theorem applyAgentQuery_ok {t t' : Table AgentQuery.key} (h : applyAgentQuery e args t = .ok t') :
    ∃ k r, (args.get "audit_trail_id").hash = .ok k ∧ t' = t.put r ∧
      ((t.get? k = none ∧ r.id = args.get "audit_trail_id" ∧ r.companyId = e.company) ∨
        ∃ q, t.get? k = some q ∧ r.id = q.id ∧ r.companyId = q.companyId) := by
  obtain ⟨auditId, haudit, h⟩ := bind_eq_ok.mp h
  obtain ⟨k, hk, h⟩ := bind_eq_ok.mp h
  rw [item_get haudit]
  simp only at h
  cases hget : t.get? k with
  | none =>
    rw [hget] at h
    obtain ⟨agentId, -, h⟩ := bind_eq_ok.mp h
    obtain ⟨tool, -, h⟩ := bind_eq_ok.mp h
    obtain ⟨route, -, h⟩ := bind_eq_ok.mp h
    exact ⟨k, _, hk, (Except.ok.inj h).symm, .inl ⟨hget, rfl, rfl⟩⟩
  | some q =>
    rw [hget] at h
    exact ⟨k, _, hk, (Except.ok.inj h).symm, .inr ⟨q, hget, rfl, rfl⟩⟩

theorem credentialRow_ok {id : String} {r : Credential} (h : credentialRow e args id = .ok r) :
    r.companyId = e.company := by
  obtain ⟨agent, -, h⟩ := bind_eq_ok.mp h
  obtain ⟨kind, -, h⟩ := bind_eq_ok.mp h
  obtain ⟨target, -, h⟩ := bind_eq_ok.mp h
  obtain ⟨status, -, h⟩ := bind_eq_ok.mp h
  obtain ⟨ttl, -, h⟩ := bind_eq_ok.mp h
  obtain ⟨issuer, -, h⟩ := bind_eq_ok.mp h
  rw [← Except.ok.inj h]

/-- The rows after a credential phase: one of the company may be put, and one may be filled in. -/
theorem applyCredential_ok {P : Table Credential.id → Prop} {t t' : Credentials}
    (h : applyCredential py e args t = .ok t')
    (hput : ∀ u r, P u → r.companyId = e.company ∨ (∃ c ∈ u.rows, r.companyId = c.companyId) →
      P (u.put r)) (ht : P t.rows) : P t'.rows := by
  obtain ⟨ownId, -, h⟩ := bind_eq_ok.mp h
  split at h
  · obtain ⟨row, hrow, h⟩ := bind_eq_ok.mp h
    rw [← Except.ok.inj h]
    exact hput _ _ ht (.inl (credentialRow_ok hrow))
  · obtain ⟨rowId, rows, hrows, h⟩ : ∃ rowId rows, P rows ∧
        (match rows.get? rowId with
        | none => Except.ok ⟨t.chain.put (e.entryId.str, rowId), rows⟩
        | some c => do
          let ttl := parseIsoTs (← args.item "ttl_expires_at")
          return ⟨t.chain.put (e.entryId.str, rowId), rows.put { c with
            status := ← args.item "status"
            ttlExpiresAt := ttl.orElse fun _ => c.ttlExpiresAt
            issuedAt := if e.kind = "resolve" then e.ts else c.issuedAt }⟩) = Except.ok t' := by
      simp only at h
      split at h
      · rename_i rowId _
        exact ⟨rowId, t.rows, ht, h⟩
      · obtain ⟨row, hrow, h⟩ := bind_eq_ok.mp h
        exact ⟨ownId, t.rows.put row, hput _ _ ht (.inl (credentialRow_ok hrow)), h⟩
    cases hget : rows.get? rowId with
    | none =>
      rw [hget] at h
      rwa [← Except.ok.inj h]
    | some c =>
      rw [hget] at h
      obtain ⟨ttl, -, h⟩ := bind_eq_ok.mp h
      obtain ⟨status, -, h⟩ := bind_eq_ok.mp h
      rw [← Except.ok.inj h]
      exact hput _ _ hrows (.inr ⟨c, (Table.get?_eq_some_iff.mp hget).1, rfl⟩)

theorem emitQueryOutcomeRecorded_ok {t t' : Table QueryOutcome.id}
    (h : emitQueryOutcomeRecorded py e args t = .ok t') :
    ∃ r, r.companyId = e.company ∧ t' = t.put r := by
  obtain ⟨id, -, h⟩ := bind_eq_ok.mp h
  obtain ⟨embedding, -, h⟩ := bind_eq_ok.mp h
  exact ⟨_, rfl, (Except.ok.inj h).symm⟩

theorem applyQueryTemplate_ok {t t' : Table QueryTemplate.id}
    (h : applyQueryTemplate py e args t = .ok t') :
    t' = t ∨ ∃ r, r.companyId = e.company ∧ t' = t.put r := by
  unfold applyQueryTemplate at h
  split at h
  · obtain ⟨id, -, h⟩ := bind_eq_ok.mp h
    exact .inr ⟨_, rfl, (Except.ok.inj h).symm⟩
  · exact .inl (Except.ok.inj h).symm

end

end Projection
