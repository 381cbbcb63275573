import Wormbase.Governance.Clarifications
import Wormbase.Ledger.Actions
import Wormbase.Reactivity.Registry

/-! `_LedgerBackedChatStore` and `InterjectionBudgetReactivity`: the policy of a channel, the questions
    asked in it today, and the record that its budget is consumed.

    The record is itself an entry of the policy it was made under. -/

namespace ChatPresence
open Py
open Ledger (Entry Mint)
open Governance.InterjectionGate (Gate askedContent notBefore)

/-! ### The policy of a channel -/

inductive Talkativeness where | lurker | responsive | proactive
  deriving DecidableEq

def Talkativeness.name : Talkativeness → String
  | .lurker => "lurker"
  | .responsive => "responsive"
  | .proactive => "proactive"

structure ChatPolicy where
  talkativeness : Talkativeness
  dailyInterjectionBudget : ℤ
  deriving DecidableEq

/-- `_DEFAULT_POLICY`. -/
def defaultPolicy : ChatPolicy := ⟨.responsive, 3⟩

/-- The args of a row that sets the policy of a channel. -/
def channelPolicy (channelId : String) (r : Entry) : Except Err (Option Dict) :=
  if r.kind ≠ .execute then .ok none
  else
    match r.payload with
    | .dict payload =>
      if (Dict.get payload "tool").isText "emit_policy_applied" then do
        let args ← orMapping (Dict.get payload "args")
        if (Dict.get args "policy_name").isText "policy:channel_talkativeness" then
          let appliesTo ← orMapping (Dict.get args "applies_to")
          return if (Dict.get appliesTo "channel_id").isText channelId then some args else none
        else return none
      else .ok none
    | v => .error (attributeError s!"'{v.typeName}' object has no attribute 'get'")

/-- The loop of `read_policy`, from what was found before: the last write wins. -/
def policyArgs (channelId : String) : Option Dict → List Entry → Except Err (Option Dict)
  | latest, [] => .ok latest
  | latest, r :: rows => do
    match ← channelPolicy channelId r with
    | some args => policyArgs channelId (some args) rows
    | none => policyArgs channelId latest rows

def talkativenessOf (v : Val) : Talkativeness :=
  if v.isText "lurker" then .lurker else if v.isText "proactive" then .proactive else .responsive

/-- `int(budget)`, or 3 after a `TypeError` or a `ValueError`. -/
def budgetOf (v : Val) : Except Err ℤ :=
  match v.toInt with
  | .ok n => .ok n
  | .error x => if x.cls = "TypeError" ∨ x.cls = "ValueError" then .ok 3 else .error x

def policyOf : Option Dict → Except Err ChatPolicy
  | none => .ok defaultPolicy
  | some args => do
    return ⟨talkativenessOf (Dict.getD args "talkativeness" (.str "responsive")),
      ← budgetOf (Dict.getD args "daily_interjection_budget" (.int 3))⟩

/-! ### The questions of today -/

/-- Whether a row counts for a channel. -/
def countsToday (channelId : String) (start : Fin maxMicros) (r : Entry) : Except Err Bool :=
  if r.kind ≠ .execute then .ok false
  else
    match r.payload with
    | .dict payload => do
      let args ← orMapping (Dict.get payload "args")
      if (Dict.get args "content").isText (askedContent channelId) then notBefore start r.ts else return false
    | v => .error (attributeError s!"'{v.typeName}' object has no attribute 'get'")

/-- The loop over the rows. -/
def countToday (channelId : String) (start : Fin maxMicros) : List Entry → Except Err ℕ
  | [] => .ok 0
  | r :: rows => do
    let counted ← countsToday channelId start r
    return (if counted then 1 else 0) + (← countToday channelId start rows)

section
variable (d : Ledger.Dialect) (g : Gate)

/-- `ledger.fetch(company_id)`. -/
def fetch (rows : List Entry) : List Entry := Ledger.fetchEntries d rows g.companyId none

/-- `read_policy`. -/
def readPolicy (rows : List Entry) (channelId : String) : Except Err ChatPolicy := do
  policyOf (← policyArgs channelId none (fetch d g rows))

/-- `count_interjections_today`, with the start of the day. -/
def countInterjectionsToday (rows : List Entry) (channelId : String) (now : DateTime) :
    Except Err (Fin maxMicros × ℕ) := do
  let start ← g.windowStart now
  return (start, ← countToday channelId start (fetch d g rows))

/-! ### The observer of the budget -/

/-- `content.split(":", 1)[1]`. -/
def afterColon (content : String) : String := String.ofList ((content.toList.dropWhile (· ≠ ':')).drop 1)

/-- What an observer sees of a channel at the threshold. -/
structure Observation where
  channelId : String
  now : DateTime
  start : Fin maxMicros
  count : ℕ
  policy : ChatPolicy

/-- What `fire` has read before it writes, if the budget is consumed. -/
def observe (py : Interp) (rows : List Entry) (entry : Dict) (clock : DateTime) : Except Err (Option Observation) := do
  let args ← Reactivity.Registry.entryArgs entry
  let content := (Dict.get args "content").text py
  if "clarify_asked:".toList.isPrefixOf content.toList then
    let channelId := afterColon content
    match (entry.get "ts").or (.datetime clock) with
    | .datetime now =>
      let today ← countInterjectionsToday d g rows channelId now
      let policy ← readPolicy d g rows channelId
      return if (today.2 : ℤ) < policy.dailyInterjectionBudget then none
        else some ⟨channelId, now, today.1, today.2, policy⟩
    | v => .error (attributeError s!"'{v.typeName}' object has no attribute 'astimezone'")
  else return none

/-- The args of the snapshot. -/
def Observation.args (o : Observation) (snapshotId : UUID) : List (String × Val) :=
  [("policy_id", .str snapshotId.str), ("policy_name", .str "policy:channel_talkativeness"),
    ("applies_to", .dict ([("scope", .str "channel"), ("channel_id", .str o.channelId)].map strItem)),
    ("rule", .str s!"interjection_budget_consumed:{o.channelId}:{o.count}"),
    ("gate_impl", .str "channel_talkativeness_default"), ("talkativeness", .str o.policy.talkativeness.name),
    ("daily_interjection_budget", .int o.policy.dailyInterjectionBudget), ("current_count", .int o.count)]

/-- The ids that a snapshot draws. -/
structure Draw where
  snapshotId : UUID
  mint : Mint

/-- The write of the snapshot, at the time of the entry. -/
def Observation.call (o : Observation) (w : Draw) : Ledger.Call :=
  Ledger.emit g.companyId { w.mint with timestamp := some o.now }
    [("target_kind", .str "policy_applied"), ("ref_id", .str w.snapshotId.str),
      ("reason", .str s!"interjection_budget_consumed:{o.channelId}"), ("proposed_by", .str "chat-worm")]
    "emit_policy_applied" (o.args w.snapshotId) (.str o.channelId)
    (.list [.dict ([("name", .str "snapshot_recorded"), ("ok", .bool true)].map strItem)])
    "interjection budget consumed observation" .activeDeterministic

/-- `InterjectionBudgetReactivity.fire`: whether it fires, the snapshot it leaves, and the committed
    rows after it. -/
def fire (py : Interp) (sha256 : Bytes → Bytes) (rows : List Entry) (entry : Dict) (w : Draw) :
    Except Err Bool × Option Observation × List Entry :=
  match observe d g py rows entry w.mint.now with
  | .error x => (.error x, none, rows)
  | .ok none => (.ok false, none, rows)
  | .ok (some o) =>
    let done := Ledger.write sha256 d rows (o.call g w)
    match done.1 with
    | .error x => (.error x, none, done.2)
    | .ok _ => (.ok true, some o, done.2)

end

end ChatPresence
