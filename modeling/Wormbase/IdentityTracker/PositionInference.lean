import Wormbase.Py.FloatArith
import Wormbase.Reactivity.Registry
import Wormbase.WriteActions.Persons

/-! Positions of persons: the actions that propose, confirm and reject one, and
    `PositionInferenceReactivity`, which proposes them from chat.

    The reactivity keeps no memory. Who has a position already it reads off the ledger. -/

namespace IdentityTracker
open Py
open Projection (LedgerRow)
open WriteActions (Pevr textOrNone)

/-! ### The actions on a position -/

/-- `propose_position`. The payload class takes a confidence between 0 and 1. -/
def proposePosition (py : Interp) (personId : UUID) (position : String) (confidence : PyFloat) (signals : List String)
    (proposedBy : String) : Except Err Pevr :=
  if PyFloat.le .zero confidence && PyFloat.le confidence .one then
    .ok {
      targetKind := "position_proposed"
      refId := personId
      reason := "propose position " ++ String.ofList (reprStr py position) ++ " for person " ++ personId.str ++
        " (confidence=" ++ String.ofList confidence.fixed2 ++ ")"
      proposedBy
      tool := "emit_position_proposed"
      args := [(.str "person_id", .str personId.str), (.str "position", .str position),
        (.str "confidence", .float confidence), (.str "signals", .list (signals.map .str))]
      resultRef := personId.str
      rationale := "position proposed via signal scoring" }
  else .error ⟨"ValidationError", "Input should be greater than or equal to 0 and less than or equal to 1"⟩

/-- `confirm_position_proposal`. -/
def confirmPositionProposal (py : Interp) (personId : UUID) (position : String) (confirmedBy : UUID) : Pevr where
  targetKind := "position_confirmed"
  refId := personId
  reason := "confirm position " ++ String.ofList (reprStr py position) ++ " for person " ++ personId.str
  proposedBy := confirmedBy.str
  tool := "emit_position_confirmed"
  args := [(.str "person_id", .str personId.str), (.str "position", .str position),
    (.str "confirmed_by", .str confirmedBy.str)]
  resultRef := personId.str
  rationale := "position proposal confirmed via dashboard API"

/-- `f": {reason}" if reason else ""`. -/
def reasonSuffix : Option String → String
  | some reason => if reason = "" then "" else ": " ++ reason
  | none => ""

/-- `reject_position_proposal`. -/
def rejectPositionProposal (py : Interp) (personId : UUID) (position : String) (rejectedBy : UUID)
    (reason : Option String) : Pevr where
  targetKind := "position_rejected"
  refId := personId
  reason := "reject position " ++ String.ofList (reprStr py position) ++ " for person " ++ personId.str ++
    reasonSuffix reason
  proposedBy := rejectedBy.str
  tool := "emit_position_rejected"
  args := [(.str "person_id", .str personId.str), (.str "position", .str position),
    (.str "rejected_by", .str rejectedBy.str), (.str "reason", textOrNone reason)]
  resultRef := personId.str
  rationale := "position proposal rejected via dashboard API"

/-! ### Who has a position already -/

section
variable (py : Interp)

/-- `if pid: known.add(str(pid))`. -/
def addKnown (pid : Val) (known : List String) : List String :=
  if pid.truthy then pid.toStr py :: known else known

/-- What an action adds to the persons that are known to have a position. -/
def knownArgs (tool : Val) (args : Dict) (known : List String) : List String :=
  if tool.isText "emit_person_proposed" then
    if (args.get "position").truthy then addKnown py (args.get "person_id") known else known
  else if tool.isText "emit_position_assigned" ∨ tool.isText "emit_position_proposed" then
    addKnown py (args.get "person_id") known
  else known

def knownStep (known : List String) (r : LedgerRow) : Except Err (List String) :=
  if r.kind ≠ "execute" then .ok known
  else do
    let payload ← orMapping r.payload
    let args ← orMapping (Dict.get payload "args")
    return knownArgs py (Dict.get payload "tool") args known

/-- `_rehydrate_known_positions`. -/
def rehydrateKnownPositions (rows : List LedgerRow) : Except Err (List String) := rows.foldlM (knownStep py) []

/-! ### The reactivity -/

/-- The text of a row that a person has sent. -/
def chatText (personId : Val) (r : LedgerRow) : Except Err (Option Val) :=
  if r.kind ≠ "execute" then .ok none
  else do
    let payload ← orMapping r.payload
    if (Dict.get payload "tool").isText "channel_adapter.emit_chat_received" then
      let args ← orMapping (Dict.get payload "args")
      if (Dict.get args "sender_person").toStr py = personId.toStr py ∧ (Dict.get args "text").truthy then
        return some (Dict.get args "text")
      else return none
    else return none

/-- `_collect_person_chat_texts`, in the order of the seqs. -/
def collectPersonChatTexts (rows : List LedgerRow) (personId : Val) : Except Err (List Val) := do
  return (← (rows.insertionSort fun r r' => r.seq ≤ r'.seq).mapM (chatText py personId)).filterMap id

/-- What the scoring of some texts gives: the best position, its confidence and the signals. -/
structure Scored where
  position : Option String
  confidence : PyFloat
  signals : List String

/-- `sender_person in known`. -/
def inKnown (sender : Val) (known : List String) : Except Err Bool := do
  match ← sender.hash with
  | .str s => return known.contains s
  | _ => return false

/-- The proposal for a person without a position. The scoring of the texts and the threshold are given. -/
def infer (scoreSignals : List Val → Except Err Scored) (threshold : PyFloat) (rows : List LedgerRow) (sender : Val) :
    Except Err (Option Pevr) := do
  let texts ← collectPersonChatTexts py rows sender
  if texts.isEmpty then return none
  else
    let scored ← scoreSignals texts
    match scored.position with
    | none => return none
    | some position =>
      if PyFloat.lt scored.confidence threshold then return none
      else
        -- what is raised from here on is logged
        return (do
          let person ← sender.toUUID
          proposePosition py person position scored.confidence scored.signals "worm").toOption

/-- `PositionInferenceReactivity.fire` up to its write. -/
def fire (scoreSignals : List Val → Except Err Scored) (threshold : PyFloat) (rows : List LedgerRow)
    (entry : Dict) : Except Err (Option Pevr) := do
  let payload ← orMapping (entry.get "payload")
  if ((Dict.get payload "tool").or (.str "")).isText "channel_adapter.emit_chat_received" then
    let args ← orMapping (Dict.get payload "args")
    let sender := Dict.get args "sender_person"
    if sender.truthy then
      let known ← rehydrateKnownPositions py rows
      if ← inKnown sender known then return none
      else infer py scoreSignals threshold rows sender
    else return none
  else return none

end

end IdentityTracker
