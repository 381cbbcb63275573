import Wormbase.Gateway.OutcomePromotions

/-! Semantic gaps that nobody resolves are escalated, one by one, on a clock tick.

    A gap is the propose row of its cycle. It is resolved by an imported metric that names it, or by an
    escalation. -/

namespace Gateway
open Py

section
variable (py : Interp)

/-- `str(v or "")` of the id of a row, and of the `ref_id` of its payload. -/
def entryIdText (r : Dict) : String := (r.get "entry_id").text py

def refIdText (r : Dict) : Except Err String :=
  match (r.get "payload").or (.dict []) with
  | .dict payload => .ok ((Dict.get payload "ref_id").text py)
  | v => .error (attributeError s!"'{v.typeName}' object has no attribute 'get'")

/-- `isinstance(ts, datetime) and ts > cutoff`. -/
def isAfter (entry : Dict) (cutoff : ℤ) : Except Err Bool :=
  match entry.get "ts" with
  | .datetime t => do return cutoff < (← instantOf t)
  | _ => .ok false

/-- `_gap_propose_entries`. -/
def gapProposeEntries (cutoff : ℤ) (entries : List Dict) : Except Err (List Dict) :=
  selectM (fun r =>
    match payloadOf "propose" r with
    | none => .ok false
    | some payload =>
      if !(payload.get "target_kind").isText "semantic_gap_proposed" then .ok false
      else do return !(← isAfter r cutoff)) entries

/-- The gap that an execute row of an imported metric names. -/
def importedGap (r : Dict) : Option String := do
  let payload ← payloadOf "execute" r
  match (payload.get "args").or (.dict []) with
  | .dict args =>
    if (payload.get "tool").isText "emit_external_metric_imported" then
      (Dict.get args "promoted_from_gap_id").text? py
    else none
  | _ => none

/-- The gap that a propose row of `semantic_gap_escalated` names. -/
def escalatedGap (r : Dict) : Option String := do
  let payload ← payloadOf "propose" r
  if (payload.get "target_kind").isText "semantic_gap_escalated" then (payload.get "original_gap_id").text? py
  else none

/-- `_resolved_gap_ids`. -/
def resolvedGapIds (entries : List Dict) : List String :=
  entries.filterMap fun r => (importedGap py r).or (escalatedGap py r)

/-- `_make_gather_unresolved_gaps`. -/
def gatherUnresolvedGaps (days : ℕ) (now : DateTime) (rows : List Dict) (_ : Dict) : Except Err (List Dict) := do
  let candidates ← gapProposeEntries (← cutoffOf now days) rows
  let resolved := resolvedGapIds py rows
  selectM (fun r => do
    if (← refIdText py r) ∈ resolved then return false
    return entryIdText py r ∉ resolved) candidates

/-- `_gap_already_escalated`. -/
def gapAlreadyEscalated (cluster rows : List Dict) : Except Err Bool :=
  match cluster with
  | [] => .ok true
  | gap :: _ =>
    let gapId := entryIdText py gap
    .ok (gapId = "" ∨ gapId ∈ rows.filterMap (escalatedGap py))

/-- The first execute row of a semantic gap after a seq. -/
def executeRowAfter (proposeSeq : ℤ) : List Dict → Except Err (Option Dict)
  | [] => .ok none
  | r :: rs =>
    if !(r.get "kind").isText "execute" then executeRowAfter proposeSeq rs
    else do
      if (← (r.getD "seq" (.int 0)).toInt) ≤ proposeSeq then executeRowAfter proposeSeq rs
      else
        match payloadOf "execute" r with
        | some payload =>
          if (payload.get "tool").isText "emit_semantic_gap_proposed" then return some r
          else executeRowAfter proposeSeq rs
        | none => executeRowAfter proposeSeq rs

/-- `_semantic_gap_execute_row`: both of its tests on the result end in the row. -/
def semanticGapExecuteRow (rows : List Dict) (gap : Dict) : Except Err (Option Dict) := do
  let _ ← refIdText py gap
  executeRowAfter (← (gap.getD "seq" (.int 0)).toInt) rows

/-- The microseconds of `now - ts`, both read as UTC where they are naive. -/
def elapsed (now ts : DateTime) : ℤ :=
  let utc := fun (t : DateTime) => (t.wall : ℤ) - ((t.utcoffset.map Subtype.val).getD 0)
  utc now - utc ts

/-- `days_unresolved`. -/
def daysUnresolved (now : DateTime) (gap : Dict) : ℕ :=
  match gap.get "ts" with
  | .datetime ts => (elapsed now ts / dayMicros).toNat
  | _ => 7

/-- `reason`, where it is one of the three. -/
def gapReason (args : Dict) : String :=
  match (args.get "reason").or (.str "no_match") with
  | .str reason => if reason ∈ ["no_match", "low_confidence", "ambiguous"] then reason else "no_match"
  | _ => "no_match"

/-- The cycle of an escalated gap. -/
def gapCycle (gapId nlQuestion reason : String) (days : ℕ) (metricName : Val) : Cycle :=
  plainCycle "semantic_gap_escalated"
    [("target_kind", .str "semantic_gap_escalated"), ("original_gap_id", .str gapId), ("ref_id", .str gapId),
      ("reason", .str s!"compounding-loop: semantic_gap_proposed gap_id={gapId} unresolved after {days}d"),
      ("proposed_by", .str "agent_gateway.compounding_loop")]
    [("original_gap_id", .str gapId), ("nl_question", .str nlQuestion), ("reason", .str reason),
      ("days_unresolved", .int days), ("proposed_metric_name", metricName)]
    "semantic_gap_escalated" s!"gap unresolved after {days}d; escalated to admin metric-proposal queue"

/-- `_emit_semantic_gap_escalated`. -/
def emitSemanticGapEscalated (o : Occasion) (cluster rows : List Dict) : Except Err (Option Cycle) :=
  match cluster with
  | [] => .ok none
  | gap :: _ =>
    let gapId := entryIdText py gap
    if gapId = "" then .ok none
    else do
      let args := match ← semanticGapExecuteRow py rows gap with
        | some r => outcomeArgs r
        | none => []
      let metricName : Val := match args.get "proposed_metric_name" with
        | .none => .none
        | v => .str (v.toStr py)
      return some (gapCycle gapId (((args.get "nl_question").or (.str "(no question recorded)")).toStr py)
        (gapReason args) (daysUnresolved o.now gap) metricName)

/-- `make_semantic_gap_to_escalation_reactivity`. -/
def gapToEscalation : Compounding where
  noveltyKey := fun _ => "gap_to_escalation"
  qualityFilter := fun _ => .ok true
  gather := gatherUnresolvedGaps py 7
  cluster := fun entries => .ok (entries.map fun e => [e])
  promotionThreshold := atLeast 1
  idempotencyFilter := gapAlreadyEscalated py
  promotionAction := emitSemanticGapEscalated py

end

/-! ### What an action writes -/

section
variable {py : Interp}

theorem emitSemanticGapEscalated_ok {o : Occasion} {cluster rows : List Dict} {c : Cycle}
    (h : emitSemanticGapEscalated py o cluster rows = .ok (some c)) : ∃ gap rest nlQuestion reason metricName,
      cluster = gap :: rest ∧ entryIdText py gap ≠ "" ∧
      c = gapCycle (entryIdText py gap) nlQuestion reason (daysUnresolved o.now gap) metricName := by
  cases cluster with
  | nil => cases h
  | cons gap rest =>
    rw [emitSemanticGapEscalated] at h
    split at h
    · exact nomatch h
    · rename_i hid
      obtain ⟨row, -, h⟩ := bind_eq_ok.mp h
      exact ⟨gap, rest, _, _, _, rfl, hid, (Option.some.inj (Except.ok.inj h)).symm⟩

end
end Gateway
