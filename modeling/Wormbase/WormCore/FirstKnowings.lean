import Wormbase.Projection.Entry
import Wormbase.Py.FloatArith
import Wormbase.Py.IsoRoundTrip
import Mathlib.Data.List.Sort

/-! `compute_first_knowings`: what the worm has detected and nobody has confirmed.

    The rows are those that `fetch` hands out, so their seqs are integers and their times are datetimes. -/

namespace WormCore
open Py
open Projection (LedgerRow)

inductive PhenomenonKind where | kpiGap | domainGap | processGap | reactivityGap | personGap
  deriving DecidableEq

/-- `PHENOMENON_KINDS`. -/
def PhenomenonKind.all : List PhenomenonKind := [.kpiGap, .domainGap, .processGap, .reactivityGap, .personGap]

inductive ScopeFilter where | mine | team | company
  deriving DecidableEq

inductive RecencyFilter where | hour | day | week | all

structure FirstKnowingRow where
  kind : PhenomenonKind
  summary : String
  firstDetectedSeq : ℕ
  firstDetectedTs : String
  refId : String
  referencedInSeq : ℤ
  confidence : Option PyFloat
  noveltyKey : String
  proposedBy : String
  targetKind : String
  scope : ScopeFilter

/-- The rows, and for each `referenced_in_seq` the chat rows around it. -/
structure FirstKnowingsResult where
  rows : List FirstKnowingRow
  chatterContext : List (ℤ × List LedgerRow)

/-! ### Helpers -/

section
variable (isAlnum : Char → Bool)

/-- `_looks_like_uuid`. -/
def looksLikeUuid (s : String) : Bool := s.length = 36 && s.toList.all fun c => c = '-' || isAlnum c

/-- `_is_worm_proposer`. -/
def isWormProposer (proposedBy : String) : Bool :=
  proposedBy ≠ "" && proposedBy ∉ ["admin", "human", "system"] && !looksLikeUuid isAlnum proposedBy

end

/-- `_ts_of`. -/
def knownTs (r : LedgerRow) : DateTime := if r.ts.utcoffset = none then r.ts.replaceUtc else r.ts

/-- `_execute_args`. -/
def executeArgs (r : LedgerRow) : Except Err (Option (String × Dict)) :=
  if r.kind ≠ "execute" then .ok none
  else do
    let payload ← orMapping r.payload
    match Dict.get payload "tool", (Dict.get payload "args").or (.dict []) with
    | .str tool, .dict args => return some (tool, args)
    | .str tool, _ => return some (tool, [])
    | _, _ => return none

/-- `_propose_payload`. -/
def proposePayload (r : LedgerRow) : Option Dict :=
  if r.kind ≠ "propose" then none
  else match r.payload.or (.dict []) with
    | .dict payload => some payload
    | _ => none

/-- `_scope_of`. -/
def scopeOf (targetKind : String) (args : Dict) : ScopeFilter :=
  let inferred := if targetKind = "person_proposed" then ScopeFilter.mine else .company
  match Dict.get args "audience" with
  | .str audience =>
    if audience.startsWith "person:" then .mine
    else if audience.startsWith "team:" then .team
    else if audience = "company" then .company
    else inferred
  | _ => inferred

/-- The first of some fields that is not empty, or else a text. -/
def labelOf (d : Dict) (names : List String) (unknown : String) : Val :=
  names.foldr (fun name rest => (Dict.get d name).or rest) (.str unknown)

section
variable (py : Interp)

/-- `_summarize_phenomenon_gap`. -/
def summarizePhenomenonGap (gapKind : String) (suggested : Dict) (confidence : PyFloat) : String :=
  let detected := fun (what : String) (label : Val) =>
    what ++ " gap detected: " ++ label.toStr py ++ " (confidence " ++ String.ofList confidence.fixed2 ++ ")"
  if gapKind = "kpi" then detected "KPI" (labelOf suggested ["label", "name", "kpi_label"] "an unknown KPI")
  else if gapKind = "domain" then detected "Domain" (labelOf suggested ["name", "domain"] "an unknown domain")
  else if gapKind = "process" then detected "Process" (labelOf suggested ["label", "topic"] "a recurring workflow")
  else if gapKind = "reactivity" then
    detected "Reactivity" (labelOf suggested ["name", "predicate"] "an unobserved trigger")
  else "Phenomenon gap (" ++ gapKind ++ ") detected (confidence " ++ String.ofList confidence.fixed2 ++ ")"

/-- `_summarize_person_propose`. -/
def summarizePersonPropose (args : Dict) : String :=
  "Person gap: '" ++ (labelOf args ["name"] "an unidentified Person").toStr py ++ "' on " ++
    (labelOf args ["platform"] "unknown platform").toStr py ++ " not yet confirmed"

/-- `_summarize_reactivity_propose`. -/
def summarizeReactivityPropose (args : Dict) : String :=
  "Reactivity gap: '" ++ (labelOf args ["name", "predicate"] "an unnamed Reactivity").toStr py ++
    "' proposed but not confirmed"

/-- `_gap_kind_to_first_knowing`. -/
def gapKindToFirstKnowing (gapKind : String) : PhenomenonKind :=
  if gapKind = "domain" then .domainGap
  else if gapKind = "process" then .processGap
  else if gapKind = "reactivity" then .reactivityGap
  else .kpiGap

/-- The span of a recency label in microseconds. -/
def RecencyFilter.span : RecencyFilter → Option ℤ
  | .hour => some 3600000000
  | .day => some 86400000000
  | .week => some 604800000000
  | .all => none

/-- `_within_window`, where `now` is aware. -/
def withinWindow (ts : DateTime) (now : Fin maxMicros) (recency : RecencyFilter) : Except Err Bool :=
  match recency.span with
  | none => .ok true
  | some span =>
    match ts.utcoffset with
    | some o => .ok ((now : ℤ) - (ts.wall - o.val) ≤ span)
    | none => .error (typeError "can't subtract offset-naive and offset-aware datetimes")

/-! ### What has been confirmed -/

/-- The id that a confirmation confirms, or that a resolution resolves; empty for another action. -/
def confirmedRef (tool : String) (args : Dict) : String :=
  if tool = "emit_person_confirmed" then (Dict.get args "person_id").text py
  else if tool = "emit_kpi_confirmed" ∨ tool = "emit_kpi_resolved" then (Dict.get args "kpi_id").text py
  else if tool = "emit_reactivity_confirmed" ∨ tool = "emit_reactivity_disabled" then
    (Dict.get args "reactivity_id").text py
  else if tool = "emit_domain_confirmed" then (Dict.get args "domain_id").text py
  else if tool = "emit_data_product_confirmed" ∨ tool = "emit_data_product_published" then
    ((Dict.get args "data_product_id").or (Dict.get args "artifact_id")).text py
  else if tool = "emit_phenomenon_gap_resolved" then
    let noveltyKey := (Dict.get args "novelty_key").text py
    if noveltyKey = "" then "" else "phenomenon_gap:" ++ noveltyKey
  else ""

/-- The id of the person that is archived; empty for another action. -/
def archivedRef (tool : String) (args : Dict) : String :=
  if tool = "emit_person_archived" then (Dict.get args "person_id").text py else ""

structure KnowingsIndex where
  confirmedRefs : List String
  archivedRefs : List String
  chatRows : List LedgerRow

def addRef (ref : String) (refs : List String) : List String := if ref = "" then refs else ref :: refs

/-- `chat_rows_by_seq[seq] = row`. -/
def putChat (r : LedgerRow) (chatRows : List LedgerRow) : List LedgerRow :=
  chatRows.filter (fun other => other.seq ≠ r.seq) ++ [r]

/-- One row of the first pass. -/
def indexStep (index : KnowingsIndex) (r : LedgerRow) : Except Err KnowingsIndex :=
  if r.kind = "chat_received" then .ok { index with chatRows := putChat r index.chatRows }
  else do
    match ← executeArgs r with
    | none => return index
    | some (tool, args) =>
      if tool = "emit_chat_received" ∨ tool = "channel_adapter.emit_chat_received" then
        return { index with chatRows := putChat r index.chatRows }
      else
        return { index with
          confirmedRefs := addRef (confirmedRef py tool args) index.confirmedRefs
          archivedRefs := addRef (archivedRef py tool args) index.archivedRefs }

def indexOf (rows : List LedgerRow) : Except Err KnowingsIndex := rows.foldlM (indexStep py) ⟨[], [], []⟩

/-! ### What has been detected -/

/-- `except (TypeError, ValueError)`. -/
def orElseZero {α : Type} (zero : α) : Except Err α → Except Err α
  | .ok x => .ok x
  | .error e => if e.cls = "TypeError" ∨ e.cls = "ValueError" then .ok zero else .error e

/-- `args.get("gap_kind") or args.get("kind") or ""`, if it is a text. -/
def gapKindOf (args : Dict) : Option String :=
  match (Dict.get args "gap_kind").or ((Dict.get args "kind").or (.str "")) with
  | .str gapKind => some gapKind
  | _ => none

/-- The reference of a gap: its novelty key, or else its seq. -/
def gapRef (seq : ℕ) (args : Dict) : String :=
  let noveltyKey := (Dict.get args "novelty_key").text py
  "phenomenon_gap:" ++ if noveltyKey = "" then String.ofList (Nat.toDigits 10 seq) else noveltyKey

/-- `args.get("suggested_proposal") or {}`, if it is a mapping. -/
def suggestedOf (args : Dict) : Dict :=
  match (Dict.get args "suggested_proposal").or (.dict []) with
  | .dict suggested => suggested
  | _ => []

/-- The row of a gap. -/
def gapRow (r : LedgerRow) (args : Dict) (gapKind ref : String) : Except Err FirstKnowingRow := do
  let confidence ← orElseZero .zero ((Dict.get args "confidence").or (.float .zero)).toFloat
  let referencedInSeq ← orElseZero 0 ((Dict.get args "referenced_in_seq").or (.int 0)).toInt
  return {
    kind := gapKindToFirstKnowing gapKind
    summary := summarizePhenomenonGap py gapKind (suggestedOf args) confidence
    firstDetectedSeq := r.seq
    firstDetectedTs := (knownTs r).isoformat
    refId := ref
    referencedInSeq
    confidence := some confidence
    noveltyKey := (Dict.get args "novelty_key").text py
    proposedBy := "phenomenon_gap_detector"
    targetKind := "phenomenon_gap_detected"
    scope := scopeOf "phenomenon_gap_detected" args }

/-- `seen_keys` and `out_rows`. -/
abbrev Found := List (String × String) × List FirstKnowingRow

def gapStep (confirmedRefs : List String) (found : Found) (r : LedgerRow) : Except Err Found := do
  match ← executeArgs r with
  | none => return found
  | some (tool, args) =>
    if tool = "emit_phenomenon_gap_detected" then
      match gapKindOf args with
      | none => return found
      | some gapKind =>
        let ref := gapRef py r.seq args
        if ("phenomenon_gap_detected", ref) ∈ found.1 ∨ ref ∈ confirmedRefs then return found
        else return (("phenomenon_gap_detected", ref) :: found.1, found.2 ++ [← gapRow py r args gapKind ref])
    else return found

/-- `_find_matching_execute_args`. -/
def findMatchingExecuteArgs (proposeSeq : ℕ) (targetKind : String) : List LedgerRow → Except Err Dict
  | [] => .ok []
  | r :: rows =>
    if r.seq ≤ proposeSeq then findMatchingExecuteArgs proposeSeq targetKind rows
    else if proposeSeq + 8 < r.seq then .ok []
    else do
      match ← executeArgs r with
      | none => findMatchingExecuteArgs proposeSeq targetKind rows
      | some (tool, args) =>
        if tool = "emit_" ++ targetKind then return args else findMatchingExecuteArgs proposeSeq targetKind rows

/-- The row of a raw proposal of a person or of a reactivity. -/
def proposalRow (rows : List LedgerRow) (r : LedgerRow) (targetKind ref proposedBy : String) :
    Except Err FirstKnowingRow := do
  let args ← findMatchingExecuteArgs r.seq targetKind rows
  let person : Bool := targetKind = "person_proposed"
  return {
    kind := if person then .personGap else .reactivityGap
    summary := if person then summarizePersonPropose py args else summarizeReactivityPropose py args
    firstDetectedSeq := r.seq
    firstDetectedTs := (knownTs r).isoformat
    refId := ref
    referencedInSeq := 0
    confidence := none
    noveltyKey := ""
    proposedBy
    targetKind
    scope := if person then .mine else scopeOf targetKind args }

variable (isAlnum : Char → Bool)

def proposalStep (rows : List LedgerRow) (index : KnowingsIndex) (found : Found) (r : LedgerRow) : Except Err Found :=
  match proposePayload r with
  | none => .ok found
  | some payload =>
    let targetKind := (Dict.get payload "target_kind").text py
    let ref := (Dict.get payload "ref_id").text py
    let proposedBy := (Dict.get payload "proposed_by").text py
    if ref = "" ∨ targetKind = "" then .ok found
    else if !isWormProposer isAlnum proposedBy then .ok found
    else if targetKind ≠ "person_proposed" ∧ targetKind ≠ "reactivity_proposed" then .ok found
    else if ref ∈ index.confirmedRefs ∨ ref ∈ index.archivedRefs then .ok found
    else if (targetKind, ref) ∈ found.1 then .ok found
    else do return ((targetKind, ref) :: found.1, found.2 ++ [← proposalRow py rows r targetKind ref proposedBy])

/-- The candidates of both folds. -/
def candidates (rows : List LedgerRow) (index : KnowingsIndex) : Except Err (List FirstKnowingRow) := do
  let gaps ← rows.foldlM (gapStep py index.confirmedRefs) ([], [])
  return (← rows.foldlM (proposalStep py isAlnum rows index) gaps).2

/-! ### Filters and context -/

/-- A candidate passes the selectors. -/
def selected (kinds : List PhenomenonKind) (scope : Option ScopeFilter) (recency : RecencyFilter) (now : Fin maxMicros)
    (r : FirstKnowingRow) : Except Err Bool :=
  if r.kind ∉ kinds then .ok false
  else if scope.any (· ≠ r.scope) then .ok false
  else match fromisoformat r.firstDetectedTs.toList with
    | some ts => withinWindow ts now recency
    | none => .error (valueError ("Invalid isoformat string: '" ++ r.firstDetectedTs ++ "'"))

def filterSelected (keep : FirstKnowingRow → Except Err Bool) : List FirstKnowingRow → Except Err (List FirstKnowingRow)
  | [] => .ok []
  | r :: rows => do
    let kept ← keep r
    let rest ← filterSelected keep rows
    return if kept then r :: rest else rest

/-- The chat rows around an anchor: the row with its seq, or else the next newer one, is in the middle. -/
def chatterAround (chatRows : List LedgerRow) (radius : ℕ) (anchor : ℤ) : List LedgerRow :=
  let sorted := chatRows.insertionSort fun r r' => r.seq ≤ r'.seq
  match sorted.findIdx? fun r => anchor ≤ r.seq with
  | none => []
  | some pos => (sorted.take (pos + radius + 1)).drop (pos - radius)

def chatterContext (chatRows : List LedgerRow) (radius : ℕ) (rows : List FirstKnowingRow) :
    List (ℤ × List LedgerRow) :=
  rows.foldl (fun chatter r =>
    if r.referencedInSeq ≤ 0 ∨ r.referencedInSeq ∈ chatter.map Prod.fst then chatter
    else chatter ++ [(r.referencedInSeq, chatterAround chatRows radius r.referencedInSeq)]) []

/-- `compute_first_knowings`. Without a choice of kinds all five are wanted. -/
def computeFirstKnowings (rows : List LedgerRow) (kinds : List PhenomenonKind) (scope : Option ScopeFilter)
    (recency : RecencyFilter) (chatterContextRadius : ℕ) (now : Fin maxMicros) : Except Err FirstKnowingsResult := do
  let index ← indexOf py rows
  let out ← candidates py isAlnum rows index
  let wanted := if kinds = [] then PhenomenonKind.all else kinds
  let filtered ← filterSelected (selected wanted scope recency now) out
  let newest := filtered.insertionSort fun r r' => r'.firstDetectedSeq ≤ r.firstDetectedSeq
  return ⟨newest, chatterContext index.chatRows chatterContextRadius newest⟩

end

end WormCore
