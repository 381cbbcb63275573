import Wormbase.Gateway.Compounding
import Wormbase.Lib.Regex
import Wormbase.Py.FloatArith
import Wormbase.Py.UuidText
import Wormbase.WriteActions.Pevr

/-! `ResourceOwnershipReactivity`: maintainers of resources, proposed from who writes of them and who consumes them.

    It keeps no memory. Which pairs have a role already and how many signals there are it reads off the ledger. -/

namespace IdentityTracker
open Py Regex Expr
open Projection (LedgerRow)
open WriteActions (Pevr)

/-- What the reactivity needs of characters and texts: `\w`, and `str.lower`, of which the texts of UUIDs need the ASCII
    part only. -/
structure Letters where
  isWord : Char → Bool
  lower : String → String
  lower_ascii : ∀ s, (∀ c ∈ s.toList, c.toNat < 128) → lower s = String.ofList (s.toList.map Char.toLower)

def Letters.ascii : Letters where
  isWord c := c.isAlphanum || c = '_'
  lower s := String.ofList (s.toList.map Char.toLower)
  lower_ascii _ _ := rfl

/-! ### The action -/

/-- `propose_resource_role`. -/
def proposeResourceRole (py : Interp) (personId resourceId : UUID) (role : String) (confidence : PyFloat)
    (signals : List String) (proposedBy : UUID) : Except Err Pevr :=
  if PyFloat.le .zero confidence && PyFloat.le confidence .one then
    if role = "maintainer" || role = "contributor" then
      .ok {
        targetKind := "resource_role_proposed"
        refId := resourceId
        reason := "propose resource role " ++ String.ofList (reprStr py role) ++ " on resource " ++ resourceId.str ++
          " for person " ++ personId.str ++ " (confidence=" ++ String.ofList confidence.fixed2 ++ ")"
        proposedBy := proposedBy.str
        tool := "emit_resource_role_proposed"
        args := [(.str "person_id", .str personId.str), (.str "resource_id", .str resourceId.str),
          (.str "role", .str role), (.str "confidence", .float confidence), (.str "signals", .list (signals.map .str)),
          (.str "proposed_by", .str proposedBy.str)]
        resultRef := resourceId.str
        rationale := "resource role proposed via chatter signal aggregation" }
    else .error ⟨"ValidationError", "Value error, invalid resource role " ++ String.ofList (reprStr py role) ++
      "; expected one of ['contributor', 'maintainer']"⟩
  else .error ⟨"ValidationError", "Input should be greater than or equal to 0 and less than or equal to 1"⟩

/-! ### The ids in a text -/

section
variable (letters : Letters)

def hexDigit : Expr Char :=
  .one fun c => ('0' ≤ c && c ≤ '9') || ('a' ≤ c && c ≤ 'f') || ('A' ≤ c && c ≤ 'F')

def dash : Expr Char := .one (· = '-')

/-- `_UUID_RE`. -/
def uuidPattern : Expr Char := between letters.isWord
  [hexDigit.times 8, dash, hexDigit.times 4, dash, hexDigit.times 4, dash, hexDigit.times 4, dash, hexDigit.times 12]

/-- `_extract_resource_ids`. -/
def extractResourceIds (text : String) : List String :=
  (((uuidPattern letters).findAll text.toList).map fun m => letters.lower (String.ofList m)).foldl
    (fun seen norm => if norm ∈ seen then seen else seen ++ [norm]) []

/-- `_extract_resource_ids(v)`. -/
def extractFrom : Val → Except Err (List String)
  | .str text => .ok (extractResourceIds letters text)
  | .bytes _ => .error (typeError "cannot use a string pattern on a bytes-like object")
  | v => .error (typeError ("expected string or bytes-like object, got '" ++ v.typeName ++ "'"))

/-! ### Which pairs have a role -/

variable (py : Interp)

/-- `if pid and rid: known.add((str(pid), str(rid)))`. -/
def addPair (pid rid : Val) (known : List (String × String)) : List (String × String) :=
  if pid.truthy && rid.truthy then (pid.toStr py, rid.toStr py) :: known else known

def knownRoleStep (known : List (String × String)) (r : LedgerRow) : Except Err (List (String × String)) :=
  if r.kind ≠ "execute" then .ok known
  else do
    let payload ← orMapping r.payload
    let tool := Dict.get payload "tool"
    if tool.isText "emit_resource_role_proposed" || tool.isText "emit_resource_role_assigned" then
      let args ← orMapping (Dict.get payload "args")
      return addPair py (Dict.get args "person_id") (Dict.get args "resource_id") known
    else return known

/-- `_rehydrate_known_resource_roles`. -/
def rehydrateKnownResourceRoles (rows : List LedgerRow) : Except Err (List (String × String)) :=
  rows.foldlM (knownRoleStep py) []

/-! ### The signals of a pair -/

/-- The counts of the signals. A token is a key of the dict once it is counted. -/
structure Signals where
  chatMention : ℕ
  dataProductConsumed : ℕ

/-- `sum(signals.values())`. -/
def Signals.total (s : Signals) : ℕ := s.chatMention + s.dataProductConsumed

/-- `sorted(signals.keys())`. -/
def Signals.tokens (s : Signals) : List String :=
  (if s.chatMention = 0 then [] else ["chat_mention"]) ++
    if s.dataProductConsumed = 0 then [] else ["data_product_consumed"]

def signalStep (person resource : String) (counts : Signals) (r : LedgerRow) : Except Err Signals :=
  if r.kind ≠ "execute" then .ok counts
  else do
    let payload ← orMapping r.payload
    let tool := Dict.get payload "tool"
    if tool.isText "channel_adapter.emit_chat_received" then
      let args ← orMapping (Dict.get payload "args")
      if (Dict.get args "sender_person").toStr py = person then
        let mentions ← extractFrom letters ((Dict.get args "text").or (.str ""))
        if resource ∈ mentions then return { counts with chatMention := counts.chatMention + 1 }
        else return counts
      else return counts
    else if tool.isText "emit_data_product_consumed" then
      let args ← orMapping (Dict.get payload "args")
      if (Dict.get args "consumed_by_person_id").toStr py = person ∧
          letters.lower ((Dict.get args "data_product_id").toStr py) = resource then
        return { counts with dataProductConsumed := counts.dataProductConsumed + 1 }
      else return counts
    else return counts

/-- `_aggregate_resource_signals`. -/
def aggregateResourceSignals (rows : List LedgerRow) (person resource : String) : Except Err Signals :=
  (rows.insertionSort fun r r' => r.seq ≤ r'.seq).foldlM (signalStep letters py person (letters.lower resource)) ⟨0, 0⟩

/-! ### The reactivity -/

/-- `min(1.0, signal_count / 4.0)`. -/
def signalConfidence (n : ℕ) : Except Err PyFloat :=
  match PyFloat.ofInt n with
  | some x => do
    return PyFloat.min .one (← PyFloat.div x (.finite false 4))
  | none => .error (overflowError "int too large to convert to float")

/-- The pair that an entry is taken for: of the resources in a message the first. -/
def candidate (tool : Val) (args : Val) : Except Err (Option (String × String)) :=
  if tool.isText "channel_adapter.emit_chat_received" then do
    let args ← orMapping args
    let sender := Dict.get args "sender_person"
    let text := (Dict.get args "text").or (.str "")
    if sender.truthy && text.truthy then
      let mentioned ← extractFrom letters text
      return mentioned.head?.map fun resource => (sender.toStr py, resource)
    else return none
  else if tool.isText "emit_data_product_consumed" then do
    let args ← orMapping args
    let consumer := Dict.get args "consumed_by_person_id"
    let product := Dict.get args "data_product_id"
    if consumer.truthy && product.truthy then return some (consumer.toStr py, product.toStr py)
    else return none
  else .ok none

/-- The proposal for a pair without a role, if its signals reach the threshold. -/
def propose (threshold : PyFloat) (rows : List LedgerRow) (person resource : String) : Except Err (Option Pevr) := do
  let signals ← aggregateResourceSignals letters py rows person resource
  if signals.total = 0 then return none
  else
    let confidence ← signalConfidence signals.total
    if PyFloat.lt confidence threshold then return none
    else
      -- what is raised from here on is logged
      return (do
        let personId ← (Val.str person).toUUID
        let resourceId ← (Val.str resource).toUUID
        proposeResourceRole py personId resourceId "maintainer" confidence signals.tokens ⟨0⟩).toOption

/-- `ResourceOwnershipReactivity.fire` up to its write. -/
def ResourceOwnership.fire (threshold : PyFloat) (rows : List LedgerRow) (entry : Dict) : Except Err (Option Pevr) := do
  let payload ← orMapping (entry.get "payload")
  match ← candidate letters py ((Dict.get payload "tool").or (.str "")) (Dict.get payload "args") with
  | none => return none
  | some pair =>
    let known ← rehydrateKnownResourceRoles py rows
    if pair ∈ known then return none
    else propose letters py threshold rows pair.1 pair.2

end

end IdentityTracker
