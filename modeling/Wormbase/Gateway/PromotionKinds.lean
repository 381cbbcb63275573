import Wormbase.Gateway.GapEscalation
import Wormbase.Gateway.Recommendation
import Wormbase.Reactivity.Predicates

/-! By what kind the cycles of the compounding loop can be found.

    A reactivity that is registered for a kind sees a row of that kind, or an execute row whose tool emits
    it. The tools of the loop write cycles of their own here. -/

namespace Gateway
open Py Projection Reactivity

/-! ### The tools -/

/-- The cycle that `lake_semantic_gap` writes. -/
def semanticGapCycle (agentId nlQuestion reason : String) (metricName : Option String) (auditTrailId : UUID) :
    Cycle :=
  let gap := [("agent_id", .str agentId), ("nl_question", .str nlQuestion), ("reason", .str reason),
    ("proposed_metric_name", metricName.elim .none .str), ("audit_trail_id", .str auditTrailId.str)]
  plainCycle "semantic_gap_proposed" gap gap "gap_recorded" ("gap proposed: " ++ reason)

/-- The query that `lake_query_suggest_correction` proposes after a failure. -/
def refinedSpec (failureKind : String) : Dict :=
  let spec := fun (limit : ℤ) (rationale : String) =>
    [("metric", Val.none), ("dimensions", .list []), ("measures", .list []), ("filter", .none),
      ("time_range", .none), ("limit", .int limit), ("_rationale", .str rationale)].map strItem
  if failureKind = "empty" then spec 1000 "filter cleared; ran empty under prior filter"
  else if failureKind = "schema_mismatch" then spec 1000 "schema_mismatch; time_range cleared"
  else spec 100 "error; safe shape"

/-- The cycle that `lake_query_suggest_correction` writes. -/
def correctionCycle (originalQueryId failureKind failureDetail : String) : Cycle :=
  let correction := [("original_query_id", .str originalQueryId), ("failure_kind", .str failureKind),
    ("failure_detail", .str failureDetail), ("refined_query_spec", .dict (refinedSpec failureKind))]
  plainCycle "query_correction_suggested" correction correction "correction_recorded" "correction_suggested"

/-! ### Every cycle of the loop -/

section
variable (py : Interp) (lower : List Char → List Char) (valid : List (String × Val) → Bool)

/-- A cycle that a promotion or a tool writes, with its kind. -/
inductive Written : String → Cycle → Prop where
  | template {o cluster rows c} : emitQueryTemplatePromoted py lower o cluster rows = .ok (some c) →
      Written "query_template_promoted" c
  | badPattern {o cluster rows c} : emitBadPatternProposed py lower o cluster rows = .ok (some c) →
      Written "bad_pattern_proposed" c
  | dataProduct {o cluster rows c} : emitDataProductProposed py valid o cluster rows = .ok (some c) →
      Written "data_product_proposed" c
  | gap (agentId nlQuestion reason : String) (metricName : Option String) (auditTrailId : UUID) :
      Written "semantic_gap_proposed" (semanticGapCycle agentId nlQuestion reason metricName auditTrailId)
  | escalation {o cluster rows c} : emitSemanticGapEscalated py o cluster rows = .ok (some c) →
      Written "semantic_gap_escalated" c
  | recommendation {o cluster rows c} : emitDataProductRecommended py o cluster rows = .ok (some c) →
      Written "data_product_recommended" c
  | correction (originalQueryId failureKind failureDetail : String) :
      Written "query_correction_suggested" (correctionCycle originalQueryId failureKind failureDetail)

/-- The tool of an execute row. -/
def toolOf (r : LedgerRow) : Option Val := (payloadOf "execute" (entryDict r)).map fun payload => payload.get "tool"

/-- A row of the cycle has the kind for a reactivity, and its execute row emits it. -/
def Visible (kind : String) (rows : List LedgerRow) : Prop :=
  (∃ r ∈ rows, entryKind kind (entryDict r) = .ok true) ∧
    ∃ r ∈ rows, toolOf r = some (.str ("emit_" ++ kind))

end

/-! ### What is seen of a cycle -/

/-- No row of a cycle without a tool has a kind, but for the steps themselves. -/
theorem unseen {c : Cycle} {kind : String} (htool : Dict.get (c.execute.map strItem) "tool" = .none)
    (hkind : kind ∉ ["propose", "execute", "verify", "resolve"]) {company : UUID} {n : ℕ} {st : Stamp}
    {r : LedgerRow} (hr : r ∈ c.rows company n st) : entryKind kind (entryDict r) = .ok false := by
  simp only [List.mem_cons, List.not_mem_nil, or_false, not_or] at hkind
  obtain ⟨hpropose, hexec, hverify, hresolve⟩ := hkind
  rcases mem_rows hr with ⟨hne, hmem⟩ | ⟨hexecute, hpayload⟩
  · refine @entryKind_step kind r.kind (entryDict r) rfl hne ?_
    simp only [List.mem_cons, List.not_mem_nil, or_false] at hmem
    rcases hmem with h | h | h
    · exact h ▸ Ne.symm hpropose
    · exact h ▸ Ne.symm hverify
    · exact h ▸ Ne.symm hresolve
  · have hk : (entryDict r).get "kind" = .str "execute" := congrArg Val.str hexecute
    have hp : (entryDict r).get "payload" = r.payload := rfl
    have hnone := get_execute c st (by decide : "tool" ≠ "propose_entry_id")
    rw [htool, backOf_none] at hnone
    simp only [entryKind, hk, hp, hpayload, Val.isText, Ne.symm hexec, decide_false, Bool.false_eq_true,
      if_false, decide_true, if_true, Val.or, Val.truthy, backDict, List.map_cons, List.length_cons,
      Nat.add_eq_zero_iff, one_ne_zero, and_false, not_false_eq_true, ne_eq]
    simp only [backDict, List.map_cons] at hnone
    rw [hnone]
    rfl

theorem not_visible {c : Cycle} {kind : String} (htool : Dict.get (c.execute.map strItem) "tool" = .none)
    (hkind : kind ∉ ["propose", "execute", "verify", "resolve"]) (company : UUID) (n : ℕ) (st : Stamp) :
    ¬Visible kind (c.rows company n st) := by
  rintro ⟨⟨r, hr, hseen⟩, -⟩
  cases (unseen htool hkind hr).symm.trans hseen

/-- A cycle with the tool of its kind is seen. -/
theorem visible_of_tool {c : Cycle} {kind : String}
    (htool : Dict.get (c.execute.map strItem) "tool" = .str ("emit_" ++ kind)) (company : UUID) (n : ℕ)
    (st : Stamp) : Visible kind (c.rows company n st) := by
  have hget := get_execute c st (by decide : "tool" ≠ "propose_entry_id")
  rw [htool, backOf_str] at hget
  have hmem := c.executeRow_mem company n st
  refine ⟨⟨_, hmem, entryKind_action rfl rfl hget⟩, _, hmem, ?_⟩
  rw [toolOf, payloadOf_execute rfl rfl]
  exact congrArg some hget

/-! ### Which kinds are seen -/

section
variable {py : Interp} {lower : List Char → List Char} {valid : List (String × Val) → Bool}

/-- Of the seven kinds only the proposed data product is seen under its kind. -/
theorem promotions_visible_iff {kind : String} {c : Cycle} (h : Written py lower valid kind c) (company : UUID) (n : ℕ)
    (st : Stamp) : Visible kind (c.rows company n st) ↔ kind = "data_product_proposed" := by
  cases h with
  | template h =>
    obtain ⟨first, rest, best, quality, -, -, -, -, -, rfl⟩ := emitQueryTemplatePromoted_ok h
    exact iff_of_false (not_visible rfl (by decide) _ _ _) (by decide)
  | badPattern h =>
    obtain ⟨first, rest, -, -, rfl⟩ := emitBadPatternProposed_ok h
    exact iff_of_false (not_visible rfl (by decide) _ _ _) (by decide)
  | dataProduct h =>
    obtain ⟨entry, rest, quality, -, -, rfl⟩ := emitDataProductProposed_ok h
    exact iff_of_true (visible_of_tool rfl _ _ _) rfl
  | gap agentId nlQuestion reason metricName auditTrailId =>
    exact iff_of_false (not_visible rfl (by decide) _ _ _) (by decide)
  | escalation h =>
    obtain ⟨gap, rest, nlQuestion, reason, metricName, -, -, rfl⟩ := emitSemanticGapEscalated_ok h
    exact iff_of_false (not_visible rfl (by decide) _ _ _) (by decide)
  | recommendation h =>
    obtain ⟨text, dpId, seen, -, -, -, -, rfl⟩ := emitDataProductRecommended_ok h
    exact iff_of_false (not_visible rfl (by decide) _ _ _) (by decide)
  | correction originalQueryId failureKind failureDetail =>
    exact iff_of_false (not_visible rfl (by decide) _ _ _) (by decide)

end

/-- A gap that an agent has reported. -/
def unmatchedGap : Cycle := semanticGapCycle "agent-1" "what was our churn?" "no_match" none ⟨7⟩

theorem unmatchedGap_visible_iff : Visible "semantic_gap_proposed" (unmatchedGap.rows ⟨1⟩ 0 instantStamp) ↔
    "semantic_gap_proposed" = "data_product_proposed" :=
  @promotions_visible_iff .plain id (fun _ => true) _ _ (.gap "agent-1" "what was our churn?" "no_match" none ⟨7⟩) ⟨1⟩ 0
    instantStamp

theorem unmatchedGap_unseen : Written .plain id (fun _ => true) "semantic_gap_proposed" unmatchedGap ∧
    ¬Visible "semantic_gap_proposed" (unmatchedGap.rows ⟨1⟩ 0 instantStamp) :=
  ⟨.gap .., not_visible rfl (by decide) _ _ _⟩

end Gateway
