import Wormbase.Gateway.OutcomePromotions

/-! A data product that three different consumers of an agent surface use within a week is recommended. -/

namespace Gateway
open Py FirstFit

section
variable (py : Interp)

/-- `_agent_consumption_filter`. -/
def agentConsumptionFilter (payload : Dict) : Bool :=
  ["mcp", "agent", "api"].any fun surface => (payload.get "surface").isText surface

/-- `_data_product_consumed_entries`. -/
def dataProductConsumedEntries : ℤ → List Dict → Except Err (List Dict) :=
  executeEntries "emit_data_product_consumed"

/-- `_make_gather_lookback_consumptions`. -/
def gatherLookbackConsumptions (lookbackDays : ℕ) (now : DateTime) (rows : List Dict) (_ : Dict) :
    Except Err (List Dict) := do
  dataProductConsumedEntries (← cutoffOf now lookbackDays) rows

/-- `(entry.get("payload") or {}).get("args") or {}`, where it is a dict. -/
def consumptionArgs (entry : Dict) : Except Err (Option Dict) :=
  match (entry.get "payload").or (.dict []) with
  | .dict payload =>
    match (Dict.get payload "args").or (.dict []) with
    | .dict args => .ok (some args)
    | _ => .ok none
  | v => .error (attributeError s!"'{v.typeName}' object has no attribute 'get'")

/-- `_consumer_id`. -/
def consumerId (entry : Dict) : Except Err String := do
  match ← consumptionArgs entry with
  | none => return ""
  | some args =>
    let agent := args.get "consumed_by_agent_id"
    return if agent.truthy then agent.toStr py else (args.get "consumed_by_person_id").text py

/-- The data product that an entry names; nothing where an agent surface did not use one. -/
def consumedProduct (entry : Dict) : Except Err (Option String) := do
  match ← consumptionArgs entry with
  | none => return none
  | some args => return if agentConsumptionFilter args then (args.get "data_product_id").text? py else none

/-- `_cluster_by_data_product_id`. -/
def clusterByDataProductId (entries : List Dict) : Except Err (List (List Dict)) := do
  let named ← entries.mapM fun e => do return (← consumedProduct py e).map fun dp => (dp, e)
  return (group Prod.fst named.reduceOption).map fun g => g.2.map Prod.snd

/-- The text of the product of the first entry, which every entry of a cluster has. -/
def productText (cluster : List Dict) : Except Err (Option String) :=
  match cluster with
  | [] => .ok none
  | first :: _ => do
    match ← consumptionArgs first with
    | none => return none
    | some args => return (args.get "data_product_id").text? py

/-- The product that a propose row of `data_product_recommended` names. -/
def recommendedProduct (r : Dict) : Option String := do
  let payload ← payloadOf "propose" r
  if (payload.get "target_kind").isText "data_product_recommended" then
    some ((payload.get "data_product_id").text py)
  else none

/-- `_data_product_already_recommended`. -/
def dataProductAlreadyRecommended (cluster rows : List Dict) : Except Err Bool := do
  match ← productText py cluster with
  | none => return true
  | some dpId => return dpId ∈ rows.filterMap (recommendedProduct py)

/-- The ids that are not empty, each at its first place. -/
def distinctConsumers (cluster : List Dict) : Except Err (List String) := do
  let ids ← cluster.mapM (consumerId py)
  return (ids.filter (· ≠ "")).reverse.dedup.reverse

/-- The cycle of a recommended data product. -/
def recommendationCycle (dpId : UUID) (consumers : List String) : Cycle :=
  let n := consumers.length
  plainCycle "data_product_recommended"
    [("target_kind", .str "data_product_recommended"), ("data_product_id", .str dpId.str),
      ("ref_id", .str dpId.str),
      ("reason", .str (s!"compounding-loop: {n} distinct agent consumers of data_product_id=" ++ dpId.str ++
        " within 7d")),
      ("proposed_by", .str "agent_gateway.compounding_loop")]
    [("data_product_id", .str dpId.str), ("recommendation_score", .int n),
      ("consumer_agent_ids", .list (consumers.map .str)), ("consumed_within_days", .int 7)]
    "data_product_recommended"
    s!"cluster of {n} distinct consumers within 7d trended into a recommended data_product"

/-- `_emit_data_product_recommended`. -/
def emitDataProductRecommended (_ : Occasion) (cluster _rows : List Dict) : Except Err (Option Cycle) := do
  match ← productText py cluster with
  | none => return none
  | some text =>
    match Val.toUUID (.str text) with
    | .error _ => return none
    | .ok dpId =>
      let seen ← distinctConsumers py cluster
      if seen.length < 3 then return none
      return some (recommendationCycle dpId seen)

/-- At least three distinct consumers. -/
def threeConsumers (cluster : List Dict) : Except Err Bool := do
  return 3 ≤ (← distinctConsumers py cluster).length

/-- `make_data_product_consumption_to_recommendation_reactivity`. -/
def consumptionToRecommendation : Compounding where
  noveltyKey := fun _ => "consumption_to_recommendation"
  qualityFilter := fun args => .ok (agentConsumptionFilter args)
  gather := gatherLookbackConsumptions 7
  cluster := clusterByDataProductId py
  promotionThreshold := threeConsumers py
  idempotencyFilter := dataProductAlreadyRecommended py
  promotionAction := emitDataProductRecommended py

end

/-! ### What an action writes -/

section
variable {py : Interp}

theorem emitDataProductRecommended_ok {o : Occasion} {cluster rows : List Dict} {c : Cycle}
    (h : emitDataProductRecommended py o cluster rows = .ok (some c)) : ∃ text dpId seen,
      productText py cluster = .ok (some text) ∧ Val.toUUID (.str text) = .ok dpId ∧
      distinctConsumers py cluster = .ok seen ∧ 3 ≤ seen.length ∧ c = recommendationCycle dpId seen := by
  obtain ⟨found, hfound, h⟩ := bind_eq_ok.mp h
  cases found with
  | none => exact nomatch h
  | some text =>
    simp only at h
    split at h
    · exact nomatch h
    · rename_i dpId hdp
      obtain ⟨seen, hseen, h⟩ := bind_eq_ok.mp h
      split at h
      · exact nomatch h
      · rename_i hlength
        exact ⟨text, dpId, seen, hfound, hdp, hseen, by omega, (Option.some.inj (Except.ok.inj h)).symm⟩

end
end Gateway
