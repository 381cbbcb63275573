import Wormbase.Gateway.Compounding
import Wormbase.Py.Decimal

/-! The three reactivities on recorded query outcomes: outcomes become templates, failures become bad
    patterns, and a good outcome becomes a proposed data product.

    Each reads the ledger itself; the readers of the projection that a factory can be given instead are
    left out. `str.lower` and the payload class of data products are parameters. -/

namespace Gateway
open Py FirstFit

/-! ### Instants -/

/-- An aware datetime in microseconds; a naive one does not compare with it. -/
def instantOf (t : DateTime) : Except Err ℤ :=
  match t.utcoffset with
  | some o => .ok (t.wall - o)
  | none => .error (typeError "can't compare offset-naive and offset-aware datetimes")

/-- `now - timedelta(days=days)`, where a naive `now` is read as UTC. -/
def cutoffOf (now : DateTime) (days : ℕ) : Except Err ℤ :=
  if (now.wall : ℕ) < days * dayMicros then .error (overflowError "date value out of range")
  else do return (← instantOf (if now.utcoffset = none then now.replaceUtc else now)) - days * dayMicros

/-- `isinstance(ts, datetime) and ts < cutoff`. -/
def isBefore (entry : Dict) (cutoff : ℤ) : Except Err Bool :=
  match entry.get "ts" with
  | .datetime t => do return (← instantOf t) < cutoff
  | _ => .ok false

/-- The payload of a row of a kind, where it is a dict. -/
def payloadOf (kind : String) (entry : Dict) : Option Dict :=
  if (entry.get "kind").isText kind then
    match (entry.get "payload").or (.dict []) with
    | .dict payload => some payload
    | _ => none
  else none

/-- The execute rows of a tool from the cutoff on. -/
def executeEntries (tool : String) (cutoff : ℤ) (entries : List Dict) : Except Err (List Dict) :=
  selectM (fun r =>
    match payloadOf "execute" r with
    | none => .ok false
    | some payload =>
      if !(payload.get "tool").isText tool then .ok false
      else do return !(← isBefore r cutoff)) entries

/-- `_outcome_execute_entries`. -/
def outcomeExecuteEntries : ℤ → List Dict → Except Err (List Dict) := executeEntries "emit_query_outcome_recorded"

/-! ### Intents and quality -/

/-- `" ".join(s.split())`. -/
def joinWords (s : List Char) : List Char :=
  [' '].intercalate ((s.splitOnP whitespace).filter (· ≠ []))

section
variable (py : Interp) (lower : List Char → List Char)

/-- `_canonical_intent`. -/
def canonicalIntent (nlQuestion : String) : String := String.ofList (joinWords (lower nlQuestion.toList))

/-- The canonical intent of an outcome. -/
def intentOf (payload : Dict) : String := canonicalIntent lower ((payload.get "nl_question").text py)

/-- `_quality_decimal`. -/
def qualityDecimal (payload : Dict) : Option Decimal :=
  match payload.get "quality_score" with
  | .none => none
  | raw => Decimal.ofText (raw.toStr py)

def qualityGate : Decimal := .finite false 9 (-1)
def badQualityCutoff : Decimal := .finite false 3 (-1)

/-- `_high_quality_outcome`. -/
def highQualityOutcome (payload : Dict) : Except Err Bool :=
  match qualityDecimal py payload with
  | none => .ok false
  | some score =>
    if (payload.get "used").truthy && (payload.get "useful").truthy then Decimal.le qualityGate score
    else .ok false

/-- `_high_quality_outcome_template`. -/
def highQualityOutcomeTemplate (payload : Dict) : Except Err Bool :=
  match qualityDecimal py payload with
  | none => .ok false
  | some score => Decimal.le qualityGate score

/-- `_bad_outcome_filter`. -/
def badOutcomeFilter (payload : Dict) : Except Err Bool :=
  if (payload.get "used").truthy && !(payload.get "useful").truthy then .ok true
  else
    match qualityDecimal py payload with
    | none => .ok false
    | some score => Decimal.lt score badQualityCutoff

/-! ### Recorded outcomes -/

/-- The score that `lake_query_record_outcome` gives an outcome. -/
def outcomeQuality (used useful : Bool) : String :=
  if used && useful then "1.0" else if useful then "0.5" else if used then "0.2" else "0.0"

/-- The cycle that `lake_query_record_outcome` writes. -/
def outcomeCycle (agentId auditTrailId nlQuestion : String) (finalQuerySpec resultSummary : Dict)
    (used useful : Bool) (userCorrection : Option String) (embedding : Option (List PyFloat)) : Cycle where
  actionKind := "query_outcome_recorded"
  propose := [("target_kind", .str "query_outcome_recorded"), ("ref_id", .str auditTrailId),
    ("reason", .str ("record_outcome agent_query=" ++ auditTrailId ++ " used=" ++ (Val.bool used).toStr py ++
      " useful=" ++ (Val.bool useful).toStr py)),
    ("proposed_by", .str agentId)]
  execute := [("tool", .str "emit_query_outcome_recorded"),
    ("args", .dict [(.str "agent_query_id", .str auditTrailId), (.str "nl_question", .str nlQuestion),
      (.str "final_query_spec", .dict finalQuerySpec), (.str "result_summary", .dict resultSummary),
      (.str "used", .bool used), (.str "useful", .bool useful),
      (.str "user_correction", userCorrection.elim .none .str),
      (.str "quality_score", .str (outcomeQuality used useful)),
      (.str "embedding", embedding.elim .none fun xs => .list (xs.map .float))]),
    ("result_ref", .str auditTrailId)]
  verify := [("checks", .list [.dict [(.str "name", .str "outcome_recorded"), (.str "ok", .bool true)]]),
    ("passed", .bool true)]
  resolve := [("outcome", .str "keep"), ("rationale", .str "outcome_recorded")]

/-! ### Gathering and clustering -/

/-- `_make_gather_lookback_outcomes`. -/
def gatherLookbackOutcomes (lookbackDays : ℕ) (now : DateTime) (rows : List Dict) (_ : Dict) :
    Except Err (List Dict) := do
  outcomeExecuteEntries (← cutoffOf now lookbackDays) rows

/-- The entries that a filter passes and that have an intent, by domain and intent. -/
def clusterByIntent (filter : Dict → Except Err Bool) (entries : List Dict) : Except Err (List (List Dict)) := do
  let kept ← selectM (fun e => do
    return (← filter (outcomeArgs e)) && intentOf py lower (outcomeArgs e) ≠ "") entries
  return (group (fun e => (resolvedDomain py (outcomeArgs e), intentOf py lower (outcomeArgs e))) kept).map Prod.snd

/-- `_cluster_by_canonical_intent`. -/
def clusterByCanonicalIntent : List Dict → Except Err (List (List Dict)) :=
  clusterByIntent py lower (highQualityOutcomeTemplate py)

/-- `_cluster_by_canonical_intent_only`. -/
def clusterByCanonicalIntentOnly : List Dict → Except Err (List (List Dict)) :=
  clusterByIntent py lower (badOutcomeFilter py)

/-- Whether `_entry_embedding` is not `None`. -/
def hasEmbedding (e : Dict) : Except Err Bool := do return (← entryEmbedding e).isSome

/-- `_split_by_embedding_presence`. -/
def splitByEmbeddingPresence (entries : List Dict) : Except Err (List Dict × List Dict) := do
  return (← selectM hasEmbedding entries, ← selectM (fun e => do return !(← hasEmbedding e)) entries)

/-- `_make_hybrid_cluster_fn`: the pass on embeddings, then another one on the entries that have none. -/
def hybridCluster (byEmbedding substring : List Dict → Except Err (List (List Dict))) (entries : List Dict) :
    Except Err (List (List Dict)) := do
  let halves ← splitByEmbeddingPresence entries
  return (← byEmbedding halves.1) ++ (← substring halves.2)

/-! ### Templates -/

/-- The `(domain, canonical_intent)` of a propose row of `query_template_promoted`. -/
def promotionKey (r : Dict) : Option (String × String) := do
  let payload ← payloadOf "propose" r
  if !payload.has "nl_intent" || !payload.has "promoted_from_outcome_ids" then none
  else
    let intent := (payload.get "nl_intent").text py
    if intent = "" then none
    else some (((payload.get "domain_id").or (.str "_no_domain")).toStr py, canonicalIntent lower intent)

/-- `_existing_promotion_keys`. -/
def existingPromotionKeys (entries : List Dict) : List (String × String) :=
  entries.filterMap (promotionKey py lower)

/-- `_quality_decimal(args) or Decimal("0")`. -/
def qualityOrZero (payload : Dict) : Decimal :=
  match qualityDecimal py payload with
  | some q => if q.truthy then q else .finite false 0 0
  | none => .finite false 0 0

/-- What `max` compares: the quality, then the seq. -/
def rankOf (r : Dict) : Except Err (Decimal × ℤ) := do
  return (qualityOrZero py (outcomeArgs r), ← (r.getD "seq" (.int 0)).toInt)

/-- `a > b` of two ranks. -/
def ranksAbove (a b : Decimal × ℤ) : Except Err Bool := do
  if ← a.1.same b.1 then return b.2 < a.2
  return ← Decimal.lt b.1 a.1

/-- `max(cluster, key=...)`: the first of the highest. -/
def bestOf (first : Dict) (rest : List Dict) : Except Err Dict := do
  let best ← rest.foldlM (fun best r => do
    let rank ← rankOf py r
    if ← ranksAbove rank best.2 then return (r, rank)
    return best) (first, ← rankOf py first)
  return best.1

/-- The mean quality of a cluster, to four places. -/
def meanQuality (cluster : List Dict) : Except Err String := do
  match cluster.filterMap fun r => qualityDecimal py (outcomeArgs r) with
  | [] => Decimal.fixed4 qualityGate
  | qualities => Decimal.fixed4 (← Decimal.divNat qualities.length (← Decimal.sum qualities))

/-- `args.get("final_query_spec") or {}`, where it is a dict. -/
def specOf (args : Dict) : Dict :=
  match (args.get "final_query_spec").or (.dict []) with
  | .dict spec => spec
  | _ => []

/-- The ids of the members as texts. -/
def memberIds (cluster : List Dict) : List String := cluster.map fun r => (r.get "entry_id").toStr py

/-- One check of a verify step, which it passes. -/
def passedCheck (name : String) : List (String × Val) :=
  [("checks", .list [.dict [(.str "name", .str name), (.str "ok", .bool true)]]), ("passed", .bool true)]

def kept (rationale : String) : List (String × Val) :=
  [("outcome", .str "keep"), ("rationale", .str rationale)]

/-- A cycle whose payload lies on all its rows but the first, and a propose payload. -/
def plainCycle (kind : String) (propose payload : List (String × Val)) (check rationale : String) : Cycle where
  actionKind := kind
  propose
  execute := payload
  verify := payload ++ passedCheck check
  resolve := payload ++ kept rationale

/-- The cycle of a promoted template. -/
def templateCycle (domain intent : String) (querySpec : Dict) (ids : List String) (quality : String) : Cycle :=
  let payload := [("domain_id", .str domain), ("nl_intent", .str intent), ("query_spec", .dict querySpec),
    ("promoted_from_outcome_ids", .list (ids.map .str)), ("quality_score", .str quality)]
  plainCycle "query_template_promoted" payload payload "template_promoted"
    s!"cluster of {ids.length} outcomes promoted to template"

/-- `_emit_query_template_promoted`. -/
def emitQueryTemplatePromoted (_ : Occasion) (cluster rows : List Dict) : Except Err (Option Cycle) :=
  match cluster with
  | [] => .ok none
  | first :: rest =>
    let domain := resolvedDomain py (outcomeArgs first)
    let intent := intentOf py lower (outcomeArgs first)
    if intent = "" ∨ (domain, intent) ∈ existingPromotionKeys py lower rows then .ok none
    else do
      let best ← bestOf py first rest
      let quality ← meanQuality py cluster
      return some (templateCycle domain intent (specOf (outcomeArgs best)) (memberIds py cluster) quality)

/-! ### Bad patterns -/

/-- The `(domain, canonical_intent)` of a propose row of `bad_pattern_proposed`. -/
def badPatternKey (r : Dict) : Option (String × String) := do
  let payload ← payloadOf "propose" r
  if !(payload.get "target_kind").isText "bad_pattern_proposed" then none
  else
    let intent := (payload.get "canonical_intent").text py
    if intent = "" then none
    else some (((payload.get "domain_id").or (.str "_no_domain")).toStr py, intent)

/-- `_existing_bad_pattern_intents`. -/
def existingBadPatternIntents (entries : List Dict) : List (String × String) := entries.filterMap (badPatternKey py)

/-- `_bad_pattern_already_proposed`. -/
def badPatternAlreadyProposed (cluster rows : List Dict) : Except Err Bool :=
  match cluster with
  | [] => .ok true
  | first :: _ =>
    let domain := resolvedDomain py (outcomeArgs first)
    let intent := intentOf py lower (outcomeArgs first)
    .ok (intent = "" ∨ (domain, intent) ∈ existingBadPatternIntents py rows)

/-- The specs of the members that have one. -/
def failedSpecs (cluster : List Dict) : List Val :=
  cluster.filterMap fun r =>
    match (Dict.get (outcomeArgs r) "final_query_spec").or (.dict []) with
    | .dict spec => some (.dict spec)
    | _ => none

/-- The cycle of a bad pattern; `_no_domain` is written as `None`. -/
def badPatternCycle (domain intent : String) (ids : List String) (specs : List Val) : Cycle :=
  let domainId : Val := if domain = "_no_domain" then .none else .str domain
  let n := ids.length
  plainCycle "bad_pattern_proposed"
    [("target_kind", .str "bad_pattern_proposed"), ("canonical_intent", .str intent), ("domain_id", domainId),
      ("ref_id", .str intent),
      ("reason", .str s!"compounding-loop: {n} unsuccessful outcomes on intent '{intent}' within 14d"),
      ("proposed_by", .str "agent_gateway.compounding_loop")]
    [("canonical_intent", .str intent), ("failed_outcome_ids", .list (ids.map .str)),
      ("failed_query_specs", .list specs), ("failure_count", .int n),
      ("suggested_avoidance", .str (s!"Observed {n} unsuccessful attempts on the canonical intent '{intent}'. " ++
        "Avoid re-issuing the same QuerySpec shape; surface a clarifying question to the user or invoke " ++
        "lake.query.suggest_correction for a refined plan.")),
      ("domain_id", domainId)]
    "bad_pattern_proposed" s!"cluster of {n} unsuccessful outcomes flagged as bad pattern"

/-- `_emit_bad_pattern_proposed`. -/
def emitBadPatternProposed (_ : Occasion) (cluster _rows : List Dict) : Except Err (Option Cycle) :=
  match cluster with
  | [] => .ok none
  | first :: _ =>
    let intent := intentOf py lower (outcomeArgs first)
    if intent = "" then .ok none
    else .ok (some (badPatternCycle (resolvedDomain py (outcomeArgs first)) intent (memberIds py cluster)
      (failedSpecs cluster)))

/-! ### Data products -/

/-- What an execute row of `data_product_proposed` has for the agent query that it comes from. -/
def sourceAuditTrail (r : Dict) : Option Val := do
  let payload ← payloadOf "execute" r
  if !(payload.get "tool").isText "emit_data_product_proposed" then none
  else
    match (payload.get "args").or (.dict []) with
    | .dict args =>
      match (Dict.get args "parameters").or (.dict []) with
      | .dict params => some (Dict.get params "source_audit_trail_id")
      | _ => none
    | _ => none

/-- `_already_promoted_for_audit_trail`. -/
def alreadyPromotedForAuditTrail (rows : List Dict) (agentQueryId : Val) : Bool :=
  agentQueryId.truthy && (rows.filterMap sourceAuditTrail).any fun v => v.same agentQueryId

/-- `_data_product_novelty_key`. -/
def dataProductNoveltyKey (entry : Dict) : String :=
  let aqi := Dict.get (outcomeArgs entry) "agent_query_id"
  if aqi.truthy then "outcome_to_data_product:" ++ aqi.toStr py else "outcome_to_data_product"

/-- `args_for_entry`. -/
def dataProductArgs (args : Dict) (dpId : UUID) (quality : String) : List (String × Val) :=
  let agentQueryId := args.get "agent_query_id"
  let spec := specOf args
  let domainId : Val :=
    if (Dict.get spec "domain_id").truthy then
      match Val.toUUID (.str ((Dict.get spec "domain_id").toStr py)) with
      | .ok u => .str u.str
      | .error _ => .none
    else .none
  let text := agentQueryId.toStr py
  [("data_product_id", .str dpId.str),
    ("name", .str ("agent_query_" ++ String.ofList ((if text = "" then "unknown" else text).toList.take 8))),
    ("kind", .str "table"), ("requested_by_person_id", .str (UUID.str ⟨0⟩)), ("sources_required", .list []),
    ("domain_id", domainId),
    ("parameters", .dict [(.str "nl_question", .str (((args.get "nl_question").or
        (.str "(no question recorded)")).toStr py)),
      (.str "query_spec", .dict spec), (.str "source_audit_trail_id", agentQueryId),
      (.str "quality_score", .str quality), (.str "proposed_by", .str "agent_gateway.compounding_loop"),
      (.str "status", .str "proposed")]),
    ("prompted_by_message_id", .none)]

/-- The cycle of a proposed data product. -/
def dataProductCycle (agentQueryId : Val) (args : List (String × Val)) (dpId : UUID) (quality : String) : Cycle where
  actionKind := "data_product_proposed"
  propose := [("target_kind", .str "data_product_proposed"), ("ref_id", .str dpId.str),
    ("reason", .str ("outcome_to_data_product: auto-promotion of high-quality agent_query=" ++
      agentQueryId.toStr py ++ " (quality=" ++ quality ++ ")")),
    ("proposed_by", .str "agent_gateway.compounding_loop"), ("source_audit_trail_id", agentQueryId)]
  execute := [("tool", .str "emit_data_product_proposed"), ("args", .dict (args.map strItem)),
    ("result_ref", .str dpId.str)]
  verify := [("checks", .list [
      .dict [(.str "name", .str "data_product_proposed_payload_valid"), (.str "ok", .bool true)],
      .dict [(.str "name", .str "quality_threshold_met"), (.str "ok", .bool true)]]), ("passed", .bool true)]
  resolve := kept ("high-quality outcome (q=" ++ quality ++
    ") auto-promoted to data_product_proposed for admin review")

/-- `_emit_data_product_proposed`; `valid` is `DataProductProposedPayload`. -/
def emitDataProductProposed (valid : List (String × Val) → Bool) (o : Occasion) (cluster rows : List Dict) :
    Except Err (Option Cycle) :=
  match cluster with
  | [] => .ok none
  | entry :: _ =>
    let args := outcomeArgs entry
    let agentQueryId := Dict.get args "agent_query_id"
    if alreadyPromotedForAuditTrail rows agentQueryId then .ok none
    else do
      let quality ← Decimal.fixed4 (qualityOrZero py args)
      let argsForEntry := dataProductArgs py args o.uuid quality
      if !valid argsForEntry then return none
      return some (dataProductCycle py agentQueryId argsForEntry o.uuid quality)

/-! ### The reactivities -/

/-- `len(cluster) >= n`. -/
def atLeast (n : ℕ) (cluster : List Dict) : Except Err Bool := .ok (n ≤ cluster.length)

/-- Without an idempotency filter no cluster is skipped. -/
def noFilter (_ _ : List Dict) : Except Err Bool := .ok false

variable (byEmbedding : List Dict → Except Err (List (List Dict)))

/-- `OutcomeToTemplatePromotionReactivity`. -/
def outcomeToTemplate : Compounding where
  noveltyKey := fun _ => "outcome_to_template"
  qualityFilter := highQualityOutcomeTemplate py
  gather := gatherLookbackOutcomes 30
  cluster := hybridCluster byEmbedding (clusterByCanonicalIntent py lower)
  promotionThreshold := atLeast 3
  idempotencyFilter := noFilter
  promotionAction := emitQueryTemplatePromoted py lower

/-- `make_query_failure_to_bad_pattern_reactivity`. -/
def failureToBadPattern : Compounding where
  noveltyKey := fun _ => "failure_to_bad_pattern"
  qualityFilter := badOutcomeFilter py
  gather := gatherLookbackOutcomes 14
  cluster := hybridCluster byEmbedding (clusterByCanonicalIntentOnly py lower)
  promotionThreshold := atLeast 2
  idempotencyFilter := badPatternAlreadyProposed py lower
  promotionAction := emitBadPatternProposed py lower

/-- `QueryOutcomeToDataProductReactivity`. -/
def outcomeToDataProduct (valid : List (String × Val) → Bool) : Compounding where
  noveltyKey := dataProductNoveltyKey py
  qualityFilter := highQualityOutcome py
  gather := fun _ _ entry => .ok [entry]
  cluster := fun entries => .ok (entries.map fun e => [e])
  promotionThreshold := atLeast 1
  idempotencyFilter := noFilter
  promotionAction := emitDataProductProposed py valid

end

/-! ### The rows of a cycle -/

section
open Projection

theorem mem_rows {c : Cycle} {company : UUID} {n : ℕ} {st : Stamp} {r : LedgerRow}
    (h : r ∈ c.rows company n st) : r.kind ≠ "execute" ∧ r.kind ∈ ["propose", "verify", "resolve"] ∨
      r.kind = "execute" ∧ r.payload = .dict (backDict (("propose_entry_id", .str st.proposeId.str) :: c.execute)) := by
  simp only [Cycle.rows, stampedRows, List.mem_cons, List.not_mem_nil, or_false] at h
  rcases h with rfl | rfl | rfl | rfl
  · exact .inl ⟨by simp, by simp⟩
  · exact .inr ⟨rfl, rfl⟩
  · exact .inl ⟨by simp, by simp⟩
  · exact .inl ⟨by simp, by simp⟩

/-- The payload of the execute row. -/
theorem payloadOf_execute {r : LedgerRow} (hkind : r.kind = "execute") {p : Key × Val} {ps : Dict}
    (hpayload : r.payload = .dict (p :: ps)) : payloadOf "execute" (entryDict r) = some (p :: ps) := by
  have hk : (entryDict r).get "kind" = .str "execute" := congrArg Val.str hkind
  have hp : (entryDict r).get "payload" = .dict (p :: ps) := hpayload
  simp [payloadOf, hk, hp, Val.isText, Val.or, Val.truthy]

/-- The row of the execute step. -/
def Cycle.executeRow (c : Cycle) (company : UUID) (n : ℕ) (st : Stamp) : LedgerRow :=
  ⟨st.executeId, company, n + 1 + 1, st.ts, "execute",
    .dict (backDict (("propose_entry_id", .str st.proposeId.str) :: c.execute)), st.hash 1⟩

theorem Cycle.executeRow_mem (c : Cycle) (company : UUID) (n : ℕ) (st : Stamp) :
    c.executeRow company n st ∈ c.rows company n st := by
  simp only [Cycle.rows, stampedRows]
  exact List.mem_cons_of_mem _ List.mem_cons_self

/-- What a row of a cycle executes is the execute payload. -/
theorem payloadOf_row {c : Cycle} {company : UUID} {n : ℕ} {st : Stamp} {r : LedgerRow}
    (hr : r ∈ c.rows company n st) {payload : Dict} (h : payloadOf "execute" (entryDict r) = some payload) :
    payload = backDict (("propose_entry_id", .str st.proposeId.str) :: c.execute) := by
  rcases mem_rows hr with ⟨hne, -⟩ | ⟨hexecute, hpayload⟩
  · have hk : (entryDict r).get "kind" = .str r.kind := rfl
    simp [payloadOf, hk, Val.isText, hne] at h
  · exact Option.some.inj (h.symm.trans (payloadOf_execute hexecute hpayload))

/-- The execute payload has the fields of the writer. -/
theorem get_execute (c : Cycle) (st : Stamp) {name : String} (hname : name ≠ "propose_entry_id") :
    Dict.get (backDict (("propose_entry_id", .str st.proposeId.str) :: c.execute)) name =
      backOf (Dict.get (c.execute.map strItem) name) := by
  rw [get_backDict]
  simp [Dict.get, Dict.get?, strItem, Ne.symm hname]

end

/-! ### What an action writes -/

section
variable {py : Interp} {lower : List Char → List Char} {valid : List (String × Val) → Bool}

theorem emitQueryTemplatePromoted_ok {o : Occasion} {cluster rows : List Dict} {c : Cycle}
    (h : emitQueryTemplatePromoted py lower o cluster rows = .ok (some c)) : ∃ first rest best quality,
      cluster = first :: rest ∧ intentOf py lower (outcomeArgs first) ≠ "" ∧
      (resolvedDomain py (outcomeArgs first), intentOf py lower (outcomeArgs first)) ∉
        existingPromotionKeys py lower rows ∧
      bestOf py first rest = .ok best ∧ meanQuality py cluster = .ok quality ∧
      c = templateCycle (resolvedDomain py (outcomeArgs first)) (intentOf py lower (outcomeArgs first))
        (specOf (outcomeArgs best)) (memberIds py cluster) quality := by
  cases cluster with
  | nil => cases h
  | cons first rest =>
    rw [emitQueryTemplatePromoted] at h
    split at h
    · exact nomatch h
    · rename_i hnew
      obtain ⟨best, hbest, h⟩ := bind_eq_ok.mp h
      obtain ⟨quality, hquality, h⟩ := bind_eq_ok.mp h
      obtain rfl := Option.some.inj (Except.ok.inj h)
      exact ⟨first, rest, best, quality, rfl, (not_or.mp hnew).1, (not_or.mp hnew).2, hbest, hquality, rfl⟩

theorem emitBadPatternProposed_ok {o : Occasion} {cluster rows : List Dict} {c : Cycle}
    (h : emitBadPatternProposed py lower o cluster rows = .ok (some c)) : ∃ first rest,
      cluster = first :: rest ∧ intentOf py lower (outcomeArgs first) ≠ "" ∧
      c = badPatternCycle (resolvedDomain py (outcomeArgs first)) (intentOf py lower (outcomeArgs first))
        (memberIds py cluster) (failedSpecs cluster) := by
  cases cluster with
  | nil => cases h
  | cons first rest =>
    rw [emitBadPatternProposed] at h
    split at h
    · exact nomatch h
    · rename_i hintent
      exact ⟨first, rest, rfl, hintent, (Option.some.inj (Except.ok.inj h)).symm⟩

theorem emitDataProductProposed_ok {o : Occasion} {cluster rows : List Dict} {c : Cycle}
    (h : emitDataProductProposed py valid o cluster rows = .ok (some c)) : ∃ entry rest quality,
      cluster = entry :: rest ∧
      alreadyPromotedForAuditTrail rows (Dict.get (outcomeArgs entry) "agent_query_id") = false ∧
      c = dataProductCycle py (Dict.get (outcomeArgs entry) "agent_query_id")
        (dataProductArgs py (outcomeArgs entry) o.uuid quality) o.uuid quality := by
  cases cluster with
  | nil => cases h
  | cons entry rest =>
    rw [emitDataProductProposed] at h
    split at h
    · exact nomatch h
    · rename_i hnew
      obtain ⟨quality, hquality, h⟩ := bind_eq_ok.mp h
      dsimp only at h
      split at h
      · exact nomatch h
      · exact ⟨entry, rest, quality, rfl, by simpa using hnew, (Option.some.inj (Except.ok.inj h)).symm⟩

end
end Gateway
