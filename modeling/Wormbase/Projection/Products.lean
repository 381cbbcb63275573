import Wormbase.Projection.Entry

/-! Data products, notebooks, MCP calls and topics. -/

namespace Projection
open Py

def seqText (seq : ℕ) : String := String.ofList (intText seq)

/-! ### Data products -/

inductive ProductStatus where | proposed | generated | archived
  deriving DecidableEq

structure DataProduct where
  dataProductId : UUID
  tenantId : UUID
  name : Val
  kind : Val
  status : ProductStatus
  requestedByPersonId : UUID
  domainId : Option UUID
  latestRunSeq : Option ℕ
  generatedAt : Option DateTime
  contentHash : Val
  contentsUri : Val
  lastUpdatedSeq : ℕ

structure DataProductRun where
  runId : UUID
  dataProductId : UUID
  tenantId : UUID
  generatedBy : Val
  ts : DateTime
  sourceHashes : List Val
  contentHash : Val
  durationMs : ℤ

structure Consumption where
  consumptionId : UUID
  dataProductId : UUID
  tenantId : UUID
  personId : UUID
  surface : Val
  channel : Val
  ts : DateTime

structure DataProducts where
  products : Dictionary String DataProduct
  runs : Table DataProductRun.runId
  consumption : Table Consumption.consumptionId

section
variable (py : Interp)

def emitDataProductProposed : Fold DataProducts := fun e args dps => do
  let (dpid, dataProductId) ← uuidText (← args.item "data_product_id")
  let row : DataProduct := {
    dataProductId
    tenantId := e.companyId
    name := ← args.item "name"
    kind := ← args.item "kind"
    status := .proposed
    requestedByPersonId := ← (← args.item "requested_by_person_id").toUUID
    domainId := ← (args.get "domain_id").toUUID?
    latestRunSeq := none
    generatedAt := none
    contentHash := .none
    contentsUri := .none
    lastUpdatedSeq := e.seq }
  return { dps with products := dps.products.put (dpid, row) }

def emitDataProductGenerated : Fold DataProducts := fun e args dps => do
  let dpid ← args.item "data_product_id"
  let runId ← dataProductUuid py [.str e.company, dpid, .str "run", .str (seqText e.seq)]
  let contentHash ← args.item "content_hash"
  let run : DataProductRun := {
    runId
    dataProductId := ← dpid.toUUID
    tenantId := e.companyId
    generatedBy := ← args.item "generated_by"
    ts := e.ts
    sourceHashes := ← (args.getD "source_hashes" (.list [])).toList
    contentHash
    durationMs := ← (← args.item "duration_ms").toInt }
  let products ← updateAt dps.products dpid fun dp => do
    return { dp with
      status := .generated
      latestRunSeq := some e.seq
      generatedAt := some e.ts
      contentHash
      contentsUri := ← args.item "contents_uri"
      lastUpdatedSeq := e.seq }
  return { dps with products, runs := dps.runs.put run }

def emitDataProductConsumed : Fold DataProducts := fun e args dps => do
  let dpid ← args.item "data_product_id"
  let consumptionId ←
    dataProductUuid py [.str e.company, dpid, .str "consume", .str (seqText e.seq)]
  let row : Consumption := {
    consumptionId
    dataProductId := ← dpid.toUUID
    tenantId := e.companyId
    personId := ← (← args.item "consumed_by_person_id").toUUID
    surface := ← args.item "surface"
    channel := args.get "channel"
    ts := e.ts }
  return { dps with consumption := dps.consumption.put row }

def emitDataProductArchived : Fold DataProducts := fun e args dps => do
  let products ← updateAt dps.products (← args.item "data_product_id") fun dp =>
    return { dp with status := .archived, lastUpdatedSeq := e.seq }
  return { dps with products }

end

section
variable {py : Interp} {e : LedgerRow} {args : Dict} {t t' : DataProducts}

theorem emitDataProductProposed_ok (h : emitDataProductProposed e args t = .ok t') : ∃ dpid r,
    args.get "data_product_id" = .str dpid ∧
    (args.get "data_product_id").toUUID = .ok r.dataProductId ∧ r.tenantId = e.companyId ∧
    t'.products = t.products.put (dpid, r) ∧ t'.runs = t.runs ∧ t'.consumption = t.consumption := by
  obtain ⟨v, hv, h⟩ := bind_eq_ok.mp h
  obtain ⟨⟨dpid, u⟩, hid, h⟩ := bind_eq_ok.mp h
  obtain ⟨name, -, h⟩ := bind_eq_ok.mp h
  obtain ⟨kind, -, h⟩ := bind_eq_ok.mp h
  obtain ⟨w, -, h⟩ := bind_eq_ok.mp h
  obtain ⟨person, -, h⟩ := bind_eq_ok.mp h
  obtain ⟨domain, -, h⟩ := bind_eq_ok.mp h
  obtain rfl := Except.ok.inj h
  obtain ⟨hv', hu⟩ := uuidText_ok hid
  rw [item_get hv]
  exact ⟨dpid, _, hv', hu, rfl, rfl, rfl, rfl⟩

/-- A later version of a product: id and tenant stay. -/
def DataProduct.SameIds (r r' : DataProduct) : Prop :=
  r'.dataProductId = r.dataProductId ∧ r'.tenantId = r.tenantId

theorem emitDataProductGenerated_ok (h : emitDataProductGenerated py e args t = .ok t') :
    Updates DataProduct.SameIds t.products t'.products ∧ t'.consumption = t.consumption ∧
      ∃ run, run.tenantId = e.companyId ∧ t'.runs = t.runs.put run := by
  obtain ⟨v, -, h⟩ := bind_eq_ok.mp h
  obtain ⟨runId, -, h⟩ := bind_eq_ok.mp h
  obtain ⟨contentHash, -, h⟩ := bind_eq_ok.mp h
  obtain ⟨product, -, h⟩ := bind_eq_ok.mp h
  obtain ⟨generatedBy, -, h⟩ := bind_eq_ok.mp h
  obtain ⟨hashes, -, h⟩ := bind_eq_ok.mp h
  obtain ⟨w, -, h⟩ := bind_eq_ok.mp h
  obtain ⟨duration, -, h⟩ := bind_eq_ok.mp h
  obtain ⟨products, hproducts, h⟩ := bind_eq_ok.mp h
  obtain rfl := Except.ok.inj h
  refine ⟨updateAt_updates hproducts fun r r' hr => ?_, rfl, _, rfl, rfl⟩
  obtain ⟨uri, -, hr⟩ := bind_eq_ok.mp hr
  rw [← Except.ok.inj hr]
  exact ⟨rfl, rfl⟩

theorem emitDataProductConsumed_ok (h : emitDataProductConsumed py e args t = .ok t') :
    t'.products = t.products ∧ t'.runs = t.runs ∧
      ∃ r, r.tenantId = e.companyId ∧ t'.consumption = t.consumption.put r := by
  obtain ⟨v, -, h⟩ := bind_eq_ok.mp h
  obtain ⟨id, -, h⟩ := bind_eq_ok.mp h
  obtain ⟨product, -, h⟩ := bind_eq_ok.mp h
  obtain ⟨w, -, h⟩ := bind_eq_ok.mp h
  obtain ⟨person, -, h⟩ := bind_eq_ok.mp h
  obtain ⟨surface, -, h⟩ := bind_eq_ok.mp h
  obtain rfl := Except.ok.inj h
  exact ⟨rfl, rfl, _, rfl, rfl⟩

theorem emitDataProductArchived_ok (h : emitDataProductArchived e args t = .ok t') :
    Updates DataProduct.SameIds t.products t'.products ∧ t'.runs = t.runs ∧
      t'.consumption = t.consumption := by
  obtain ⟨v, -, h⟩ := bind_eq_ok.mp h
  obtain ⟨products, hproducts, h⟩ := bind_eq_ok.mp h
  obtain rfl := Except.ok.inj h
  refine ⟨updateAt_updates hproducts fun r r' hr => ?_, rfl, rfl⟩
  rw [← Except.ok.inj hr]
  exact ⟨rfl, rfl⟩

end

/-! ### Notebooks -/

inductive NotebookStatus where | proposed | run | published | archived
  deriving DecidableEq

/-- `cells` stays in the state: the table has no column for it. -/
structure Notebook where
  notebookId : UUID
  tenantId : UUID
  name : Val
  kernel : Val
  status : NotebookStatus
  ownerPersonId : UUID
  domainId : Option UUID
  latestRunId : Option UUID
  latestPublishedRunId : Option UUID
  version : Val
  lastUpdatedSeq : ℕ
  cells : List Val

structure NotebookRun where
  runId : UUID
  notebookId : UUID
  tenantId : UUID
  status : Val
  ts : DateTime
  runBy : Val
  kernelStateHash : Val
  durationMs : ℤ

structure Notebooks where
  notebooks : Dictionary String Notebook
  runs : Table NotebookRun.runId

section
variable (py : Interp)

def emitNotebookProposed : Fold Notebooks := fun e args nbs => do
  let (nid, notebookId) ← uuidText (← args.item "notebook_id")
  let row : Notebook := {
    notebookId
    tenantId := e.companyId
    name := ← args.item "name"
    kernel := ← args.item "kernel"
    status := .proposed
    ownerPersonId := ← (← args.item "proposed_by_person_id").toUUID
    domainId := ← (args.get "domain_id").toUUID?
    latestRunId := none
    latestPublishedRunId := none
    version := .none
    lastUpdatedSeq := e.seq
    cells := ← (args.getD "cells" (.list [])).toList }
  return { nbs with notebooks := nbs.notebooks.put (nid, row) }

def emitNotebookRun : Fold Notebooks := fun e args nbs => do
  let nid ← args.item "notebook_id"
  let runId ← notebookRunUuid py [.str e.company, nid, .str "run", .str (seqText e.seq)]
  let run : NotebookRun := {
    runId
    notebookId := ← nid.toUUID
    tenantId := e.companyId
    status := ← args.item "status"
    ts := e.ts
    runBy := ← args.item "run_by"
    kernelStateHash := ← args.item "kernel_state_hash"
    durationMs := ← (← args.item "duration_ms").toInt }
  let notebooks ← updateAt nbs.notebooks nid fun nb =>
    return { nb with status := .run, latestRunId := some runId, lastUpdatedSeq := e.seq }
  return ⟨notebooks, nbs.runs.put run⟩

def emitNotebookPublished : Fold Notebooks := fun e args nbs => do
  let nid ← args.item "notebook_id"
  let publishedRunId ←
    notebookRunUuid py [.str e.company, nid, .str "publish", .str (seqText e.seq)]
  let notebooks ← updateAt nbs.notebooks nid fun nb => do
    let version ← args.item "version"
    let owner ← (← args.item "owner_person_id").toUUID
    let domainId ← (args.get "domain_id").toUUID?
    return { nb with
      status := .published
      latestPublishedRunId := some publishedRunId
      version
      ownerPersonId := owner
      domainId := domainId.orElse fun _ => nb.domainId
      lastUpdatedSeq := e.seq }
  return { nbs with notebooks }

def emitNotebookArchived : Fold Notebooks := fun e args nbs => do
  let notebooks ← updateAt nbs.notebooks (← args.item "notebook_id") fun nb =>
    return { nb with status := .archived, lastUpdatedSeq := e.seq }
  return { nbs with notebooks }

end

section
variable {py : Interp} {e : LedgerRow} {args : Dict} {t t' : Notebooks}

theorem emitNotebookProposed_ok (h : emitNotebookProposed e args t = .ok t') : ∃ nid r,
    args.get "notebook_id" = .str nid ∧ (args.get "notebook_id").toUUID = .ok r.notebookId ∧
      r.tenantId = e.companyId ∧ t'.notebooks = t.notebooks.put (nid, r) ∧ t'.runs = t.runs := by
  obtain ⟨v, hv, h⟩ := bind_eq_ok.mp h
  obtain ⟨⟨nid, u⟩, hid, h⟩ := bind_eq_ok.mp h
  obtain ⟨name, -, h⟩ := bind_eq_ok.mp h
  obtain ⟨kernel, -, h⟩ := bind_eq_ok.mp h
  obtain ⟨w, -, h⟩ := bind_eq_ok.mp h
  obtain ⟨person, -, h⟩ := bind_eq_ok.mp h
  obtain ⟨domain, -, h⟩ := bind_eq_ok.mp h
  obtain ⟨cells, -, h⟩ := bind_eq_ok.mp h
  obtain rfl := Except.ok.inj h
  obtain ⟨hv', hu⟩ := uuidText_ok hid
  rw [item_get hv]
  exact ⟨nid, _, hv', hu, rfl, rfl, rfl⟩

/-- A later version of a notebook: id and tenant stay. -/
def Notebook.SameIds (r r' : Notebook) : Prop :=
  r'.notebookId = r.notebookId ∧ r'.tenantId = r.tenantId

theorem emitNotebookRun_ok (h : emitNotebookRun py e args t = .ok t') :
    Updates Notebook.SameIds t.notebooks t'.notebooks ∧
      ∃ run, run.tenantId = e.companyId ∧ t'.runs = t.runs.put run := by
  obtain ⟨v, -, h⟩ := bind_eq_ok.mp h
  obtain ⟨runId, -, h⟩ := bind_eq_ok.mp h
  obtain ⟨notebook, -, h⟩ := bind_eq_ok.mp h
  obtain ⟨status, -, h⟩ := bind_eq_ok.mp h
  obtain ⟨runBy, -, h⟩ := bind_eq_ok.mp h
  obtain ⟨hash, -, h⟩ := bind_eq_ok.mp h
  obtain ⟨w, -, h⟩ := bind_eq_ok.mp h
  obtain ⟨duration, -, h⟩ := bind_eq_ok.mp h
  obtain ⟨notebooks, hnotebooks, h⟩ := bind_eq_ok.mp h
  obtain rfl := Except.ok.inj h
  refine ⟨updateAt_updates hnotebooks fun r r' hr => ?_, _, rfl, rfl⟩
  rw [← Except.ok.inj hr]
  exact ⟨rfl, rfl⟩

theorem emitNotebookPublished_ok (h : emitNotebookPublished py e args t = .ok t') :
    Updates Notebook.SameIds t.notebooks t'.notebooks ∧ t'.runs = t.runs := by
  obtain ⟨v, -, h⟩ := bind_eq_ok.mp h
  obtain ⟨runId, -, h⟩ := bind_eq_ok.mp h
  obtain ⟨notebooks, hnotebooks, h⟩ := bind_eq_ok.mp h
  obtain rfl := Except.ok.inj h
  refine ⟨updateAt_updates hnotebooks fun r r' hr => ?_, rfl⟩
  obtain ⟨version, -, hr⟩ := bind_eq_ok.mp hr
  obtain ⟨w, -, hr⟩ := bind_eq_ok.mp hr
  obtain ⟨owner, -, hr⟩ := bind_eq_ok.mp hr
  obtain ⟨domain, -, hr⟩ := bind_eq_ok.mp hr
  rw [← Except.ok.inj hr]
  exact ⟨rfl, rfl⟩

theorem emitNotebookArchived_ok (h : emitNotebookArchived e args t = .ok t') :
    Updates Notebook.SameIds t.notebooks t'.notebooks ∧ t'.runs = t.runs := by
  obtain ⟨v, -, h⟩ := bind_eq_ok.mp h
  obtain ⟨notebooks, hnotebooks, h⟩ := bind_eq_ok.mp h
  obtain rfl := Except.ok.inj h
  refine ⟨updateAt_updates hnotebooks fun r r' hr => ?_, rfl⟩
  rw [← Except.ok.inj hr]
  exact ⟨rfl, rfl⟩

end

/-! ### MCP calls -/

structure McpCall where
  mcpCallId : UUID
  tenantId : UUID
  callerPersonId : Option UUID
  toolName : Val
  argsHash : Val
  clientUa : Val
  startedAt : DateTime
  outcome : Val
  latencyMs : ℤ

abbrev McpCalls := Dictionary String McpCall

def emitMcpCallReceived : Fold McpCalls := fun e args calls => do
  let (mcpId, mcpCallId) ← uuidText (← args.item "mcp_call_id")
  let row : McpCall := {
    mcpCallId
    tenantId := ← (← args.item "tenant_id").toUUID
    callerPersonId := ← (args.get "caller_person_id").toUUID?
    toolName := ← args.item "tool_name"
    argsHash := ← args.item "args_hash"
    clientUa := args.get "client_ua"
    startedAt := e.ts
    outcome := ← args.item "outcome"
    latencyMs := ← (← args.item "latency_ms").toInt }
  return calls.put (mcpId, row)

theorem emitMcpCallReceived_ok {e : LedgerRow} {args : Dict} {t t' : McpCalls}
    (h : emitMcpCallReceived e args t = .ok t') : ∃ id r,
      args.get "mcp_call_id" = .str id ∧ (args.get "mcp_call_id").toUUID = .ok r.mcpCallId ∧
        (args.get "tenant_id").toUUID = .ok r.tenantId ∧ t' = t.put (id, r) := by
  obtain ⟨v, hv, h⟩ := bind_eq_ok.mp h
  obtain ⟨⟨id, u⟩, hid, h⟩ := bind_eq_ok.mp h
  obtain ⟨w, hw, h⟩ := bind_eq_ok.mp h
  obtain ⟨tenant, htenant, h⟩ := bind_eq_ok.mp h
  obtain ⟨caller, -, h⟩ := bind_eq_ok.mp h
  obtain ⟨tool, -, h⟩ := bind_eq_ok.mp h
  obtain ⟨hash, -, h⟩ := bind_eq_ok.mp h
  obtain ⟨outcome, -, h⟩ := bind_eq_ok.mp h
  obtain ⟨x, -, h⟩ := bind_eq_ok.mp h
  obtain ⟨latency, -, h⟩ := bind_eq_ok.mp h
  obtain ⟨hv', hu⟩ := uuidText_ok hid
  rw [item_get hv, item_get hw]
  exact ⟨id, _, hv', hu, htenant, (Except.ok.inj h).symm⟩

/-! ### Topics -/

structure Topic where
  topicId : UUID
  label : Val
  clusterSignature : Val
  clusterSize : ℤ
  memberMessageIds : List Val
  firstSeenAt : DateTime
  lastSeenAt : DateTime
  confidence : String
  servedBy : Val
  lastUpdatedSeq : ℕ

abbrev Topics := Dictionary String Topic

/-- `_parse_topic_ts`. -/
def parseTopicTs : Val → Except Err DateTime
  | .datetime t => .ok (if t.utcoffset.isSome then t else t.replaceUtc)
  | .str s =>
    match fromisoformat s.toList with
    | some t => .ok (if t.utcoffset.isSome then t else t.replaceUtc)
    | none => .error (valueError "Invalid isoformat string")
  | _ => .error (valueError "unparseable topic ts")

/-- A known topic keeps its id and the time it was first seen. -/
def emitTopicProposed : Fold Topics := fun e args topics => do
  let tid ← args.item "topic_id"
  let existing := match ← tid.hash with
    | .str s => topics.get? s
    | _ => none
  let confidence ← (args.getD "confidence" (.float (.finite false (1 / 2)))).toFloat
  let label ← args.item "label"
  let clusterSignature ← args.item "cluster_signature"
  let clusterSize ← (← args.item "cluster_size").toInt
  let memberMessageIds ← (args.getD "member_message_ids" (.list [])).toList
  let lastSeenAt ← parseTopicTs (← args.item "last_seen_at")
  let (key, topicId, firstSeenAt) ← match existing with
    | some (key, t) => pure (key, t.topicId, t.firstSeenAt)
    | none => do
      let (key, topicId) ← uuidText tid
      pure (key, topicId, ← parseTopicTs (← args.item "first_seen_at"))
  return topics.put (key, {
    topicId, label, clusterSignature, clusterSize, memberMessageIds, firstSeenAt, lastSeenAt
    confidence := String.ofList confidence.fixed2
    servedBy := args.getD "served_by" (.str "heuristic")
    lastUpdatedSeq := e.seq })

/-- A topic is put under its text: with the id it has, or with the UUID of a text that is new. -/
theorem emitTopicProposed_ok {e : LedgerRow} {args : Dict} {t t' : Topics}
    (h : emitTopicProposed e args t = .ok t') : ∃ key r, args.get "topic_id" = .str key ∧
      t' = t.put (key, r) ∧
        ((∃ old, t.get? key = some (key, old) ∧ r.topicId = old.topicId) ∨
          t.get? key = none ∧ (args.get "topic_id").toUUID = .ok r.topicId) := by
  obtain ⟨v, hv, h⟩ := bind_eq_ok.mp h
  obtain ⟨k, hk, h⟩ := bind_eq_ok.mp h
  obtain ⟨confidence, -, h⟩ := bind_eq_ok.mp h
  obtain ⟨label, -, h⟩ := bind_eq_ok.mp h
  obtain ⟨signature, -, h⟩ := bind_eq_ok.mp h
  obtain ⟨w, -, h⟩ := bind_eq_ok.mp h
  obtain ⟨size, -, h⟩ := bind_eq_ok.mp h
  obtain ⟨members, -, h⟩ := bind_eq_ok.mp h
  obtain ⟨x, -, h⟩ := bind_eq_ok.mp h
  obtain ⟨last, -, h⟩ := bind_eq_ok.mp h
  rw [item_get hv]
  simp only at h
  cases k with
  | str s =>
    obtain rfl := Val.hash_eq_str hk
    simp only at h
    cases hget : t.get? s with
    | some p =>
      obtain ⟨key, old⟩ := p
      rw [hget] at h
      obtain rfl := Except.ok.inj h
      obtain rfl : key = s := (Table.get?_eq_some_iff.mp hget).2
      exact ⟨key, _, rfl, rfl, .inl ⟨old, hget, rfl⟩⟩
    | none =>
      rw [hget] at h
      obtain ⟨⟨key, u⟩, hid, h⟩ := bind_eq_ok.mp h
      obtain ⟨y, -, h⟩ := bind_eq_ok.mp h
      obtain ⟨z, -, h⟩ := bind_eq_ok.mp h
      obtain rfl := Except.ok.inj h
      obtain ⟨hkey, hu⟩ := uuidText_ok hid
      obtain rfl := Val.str.inj hkey
      exact ⟨s, _, rfl, rfl, .inr ⟨hget, hu⟩⟩
  | _ =>
    -- no topic is found, and `UUID(v)` then raises
    obtain ⟨⟨key, u⟩, hid, h⟩ := bind_eq_ok.mp h
    rw [(uuidText_ok hid).1] at hk
    cases hk

end Projection
