import Wormbase.Reactivity.Predicates
import Wormbase.Subscriptions.Filter

/-! `SubscriptionDispatcher`: matching, the index of what was delivered, the transport call and the
    record of it, one subscription after the other.

    What the transport answers, and what becomes of the ledger write, is part of the input. -/

namespace Subscriptions
open Py

/-- The kinds that the dispatcher's predicate keeps out. -/
def metaKinds : List String :=
  ["agent_subscription_created", "agent_subscription_revoked", "agent_event_delivered"]

/-- `SubscriptionDispatcher.predicate.match`. -/
def dispatcherPredicate (entry : Dict) : Except Err Bool :=
  Reactivity.negated (Reactivity.anyOf (metaKinds.map fun kind => Reactivity.entryKind kind entry))

/-- `deserialize_filter`. -/
def deserializeFilter (d : Dict) : Except Err AgentEventFilter := do
  let kinds ← (d.getD "kinds" (.list [])).toList
  let domains ← (d.getD "domains" (.list [])).toList
  let paths ← (d.getD "payload_path_eq" (.list [])).toList
  let payloadPathEq ← paths.mapM Val.toList
  return ⟨kinds, domains, d.get "agent_id_ref", payloadPathEq⟩

/-! ### The environment of a delivery -/

/-- What the transport does with an event. The stream has no status. -/
inductive Reply where
  | returned (status : String) (durationMs : ℤ) (error : Option String)
  | raised (x : Err) (durationMs : ℤ)

/-- What becomes of the write of the record: it goes to the ledger, it raises, or the process ends
    there; in both cases the rows may have been committed before. -/
inductive Fate where
  | goes
  | raises (committed : Bool)
  | ends (committed : Bool)

structure Env where
  reply : Reply
  now : DateTime
  proposeId : UUID
  executeId : UUID
  verifyId : UUID
  resolveId : UUID
  fate : Fate

/-! ### The record -/

/-- The locals of `_deliver` that go into the record. -/
structure Delivery where
  subId : String
  seq : ℤ
  kind : String
  transport : String
  status : String
  durationMs : ℤ
  error : Option String

namespace Delivery
variable (v : Delivery)

def transportUsed : String :=
  if v.transport ∈ ["webhook", "mcp_stream"] then v.transport else "mcp_stream"

def errorVal : Val :=
  match v.error with
  | some e => .str e
  | none => .none

def propose : Dict :=
  [(.str "target_kind", .str "agent_event_delivered"), (.str "subscription_id", .str v.subId),
    (.str "triggering_entry_seq", .int v.seq), (.str "triggering_entry_kind", .str v.kind),
    (.str "transport_used", .str v.transportUsed), (.str "delivery_status", .str v.status)]

def executeArgs : Dict :=
  [(.str "subscription_id", .str v.subId), (.str "triggering_entry_seq", .int v.seq),
    (.str "triggering_entry_kind", .str v.kind), (.str "transport_used", .str v.transportUsed),
    (.str "delivery_status", .str v.status), (.str "duration_ms", .int v.durationMs),
    (.str "error", v.errorVal)]

def execute : Dict :=
  [(.str "tool", .str "emit_agent_event_delivered"), (.str "args", .dict v.executeArgs),
    (.str "result_ref", .str v.subId)]

def verify : Dict :=
  [(.str "checks", .list [.dict [(.str "name", .str "agent_event_delivered_recorded"),
    (.str "ok", .bool true)]]), (.str "passed", .bool true), (.str "delivery_status", .str v.status)]

def resolve : Dict :=
  [(.str "outcome", .str "keep"), (.str "rationale", .str ("agent_event_delivered: subscription=" ++
    v.subId ++ " triggering_seq=" ++ String.ofList (intText v.seq) ++ " status=" ++ v.status))]

/-- The call of `ledger.write`. -/
def call (companyId : UUID) (env : Env) : Ledger.Call where
  companyId
  propose := v.propose
  executeFn := .ok (.dict v.execute)
  verifyFn := fun _ => .ok (.dict v.verify)
  resolveFn := fun _ => .ok (.dict v.resolve)
  timestamp := some env.now
  quadrant := .activeDeterministic
  now := env.now
  proposeId := env.proposeId
  executeId := env.executeId
  verifyId := env.verifyId
  resolveId := env.resolveId

end Delivery

/-! ### The index of what was delivered -/

section
variable (py : Interp)

/-- The key that a row adds to `_build_delivered_index`. -/
def deliveredKey (e : Dict) : Except Err (Option (String × ℤ)) :=
  if (e.get "kind").isText "execute" then
    match (e.get "payload").or (.dict []) with
    | .dict payload =>
      if (Dict.get payload "tool").isText "emit_agent_event_delivered" then
        match (Dict.get payload "args").or (.dict []) with
        | .dict args =>
          let sid := (Dict.get args "subscription_id").text py
          match ((Dict.get args "triggering_entry_seq").or (.int 0)).toInt with
          | .ok seq => .ok (if sid = "" then none else some (sid, seq))
          | .error x => if x.cls ∈ ["TypeError", "ValueError"] then .ok none else .error x
        | _ => .ok none
      else .ok none
    | _ => .ok none
  else .ok none

/-- `_build_delivered_index`. -/
def deliveredIndex (entries : List Dict) : Except Err (List (String × ℤ)) := do
  return (← entries.mapM (deliveredKey py)).reduceOption

/-! ### Matching -/

/-- What the loop makes of a subscription before it looks at the index: its id, where its filter
    matches and it has one. A filter that cannot be read is passed over. -/
def candidate (sub entry : Dict) : Except Err (Option String) :=
  let read : Except Err AgentEventFilter :=
    match (sub.get "filter").or (.dict []) with
    | .dict d => deserializeFilter d
    | v => .error (attributeError s!"'{v.typeName}' object has no attribute 'get'")
  match read with
  | .error _ => .ok none
  | .ok eventFilter => do
    let predicateFn ← compileFilter eventFilter
    match ← predicateFn entry with
    | false => return none
    | true =>
      let subId := (sub.get "subscription_id").text py
      return if subId = "" then none else some subId

/-! ### Delivering -/

/-- A call of `_deliver`: whether the transport took the event, whether the record of it is in the
    ledger, and whether the index of the fire has it. -/
structure Attempt where
  subId : String
  seq : ℤ
  handed : Bool
  recorded : Bool
  noted : Bool

/-- `_do_transport`: the record, and whether the transport took the event. -/
def doTransport (sub : Dict) (subId : String) (seq : ℤ) (kind : String) (replayMode : Bool)
    (reply : Reply) : Delivery × Bool :=
  let transport := (sub.get "transport").text py
  let record := fun status durationMs error =>
    (⟨subId, seq, kind, transport, status, durationMs, error⟩ : Delivery)
  let failed := fun (x : Err) durationMs =>
    record "failed" durationMs (some (x.cls ++ ": " ++ String.ofList (x.msg.toList.take 200)))
  if replayMode then (record "delivered" 0 none, false)
  else if transport = "webhook" then
    if (sub.get "webhook_url").truthy && (sub.get "webhook_secret_ref").truthy then
      match reply with
      | .returned status durationMs error => (record status durationMs error, status = "delivered")
      | .raised x durationMs => (failed x durationMs, false)
    else (record "no_target" 0 (some "webhook subscription missing url or secret_ref"), false)
  else if transport = "mcp_stream" then
    match reply with
    | .returned _ durationMs _ => (record "delivered" durationMs none, true)
    | .raised x durationMs => (failed x durationMs, false)
  else (record "failed" 0 (some ("unknown transport: " ++ String.ofList (reprStr py transport))), false)

/-- The locals of `fire`, with the ledger and all calls of `_deliver` so far. -/
structure Firing where
  rows : List Ledger.Entry
  index : List (String × ℤ)
  actions : ℕ
  attempts : List Attempt

/-- Why a fire stops before its last subscription. -/
inductive Stop where
  | raised (x : Err)
  | ended

variable (sha256 : Bytes → Bytes) (d : Ledger.Dialect) (companyId : UUID) (replayMode : Bool)

/-- `_deliver`, and what `fire` does with its result. -/
def deliver (sub : Dict) (subId : String) (seq : ℤ) (kind : String) (env : Env) (s : Firing) :
    Firing × Option Stop :=
  let t := doTransport py sub subId seq kind replayMode env.reply
  let w := Ledger.write sha256 d s.rows (t.1.call companyId env)
  let note := fun recorded noted => s.attempts ++ [(⟨subId, seq, t.2, recorded, noted⟩ : Attempt)]
  match env.fate, w.1 with
  | .goes, .ok _ => (⟨w.2, (subId, seq) :: s.index, s.actions + 1, note true true⟩, none)
  | .raises true, .ok _ => ({ s with rows := w.2, attempts := note true false }, none)
  | .ends true, .ok _ => ({ s with rows := w.2, attempts := note true false }, some .ended)
  | .ends _, _ => ({ s with attempts := note false false }, some .ended)
  | _, _ => ({ s with attempts := note false false }, none)

/-- The loop of `fire`, each subscription with what its delivery would meet. -/
def offers (entry : Dict) (seq : ℤ) (kind : String) : List (Dict × Env) → Firing → Firing × Option Stop
  | [], s => (s, none)
  | (sub, env) :: rest, s =>
    match candidate py sub entry with
    | .error x => (s, some (.raised x))
    | .ok none => offers entry seq kind rest s
    | .ok (some subId) =>
      if (subId, seq) ∈ s.index then offers entry seq kind rest s
      else
        match deliver py sha256 d companyId replayMode sub subId seq kind env s with
        | (s, none) => offers entry seq kind rest s
        | (s, some stop) => (s, some stop)

/-- `fire`, from a ledger and the calls of `_deliver` before it. -/
def fire (entry : Dict) (active : List (Dict × Env)) (rows : List Ledger.Entry)
    (attempts : List Attempt) : Firing × Option Stop :=
  let idle : Firing := ⟨rows, [], 0, attempts⟩
  if active = [] then (idle, none)
  else
    let read : Except Err (ℤ × List (String × ℤ)) := do
      let seq ← ((entry.getD "seq" (.int 0)).or (.int 0)).toInt
      return (seq, ← deliveredIndex py ((Ledger.fetchEntries d rows companyId none).map Ledger.Entry.dict))
    match read with
    | .error x => (idle, some (.raised x))
    | .ok (seq, index) =>
      offers py sha256 d companyId replayMode entry seq ((entry.get "kind").text py) active
        { idle with index }

end

end Subscriptions
