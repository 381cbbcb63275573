import Wormbase.Lib.Tally
import Wormbase.ProcessExtractor.Similarity
import Wormbase.Py.FloatArith
import Wormbase.Reactivity.OwnState
import Wormbase.Reactivity.Predicates

/-! `SystemMapNodeReactivity`: who mentions whom, who speaks where and what a channel is about, counted from
    chat and written to the ledger one node at a time.

    The counts and the set of dirty nodes live in the process. A fire counts its message, takes the dirty node
    of the greatest weight out of the set and writes it; a message that the condition holds back is not
    counted. -/

namespace ProcessExtractor.SystemMap
open Py Reactivity Reactivity.Registry

/-! ### The accumulator -/

structure Edge where
  kind : String
  targetId : String
  weight : PyFloat
  deriving DecidableEq

/-- `SystemMapNodePayload`. -/
structure Node where
  nodeKind : String
  nodeId : String
  edges : List Edge
  deriving DecidableEq

/-- `SystemMapAccumulator`, with the counters of all channels in one tally. -/
structure Accumulator where
  personToPerson : List ((String × String) × ℕ)
  channelToTopic : List ((String × String) × ℕ)
  personToChannel : List ((String × String) × ℕ)
  dirtyNodes : List String

def Accumulator.empty : Accumulator := ⟨[], [], [], []⟩

/-- A chat message with a text; the ids are empty where the entry has none. -/
structure Chat where
  senderId : String
  channelId : String
  text : String

def domainHints : List (String × List String) :=
  [("finance", ["q3", "q4", "close", "revenue", "invoice", "stripe", "runway"]),
    ("eng", ["deploy", "release", "incident", "rollback", "ci", "build", "merge"]),
    ("marketing", ["campaign", "launch", "newsletter", "ads", "spend"]),
    ("sales", ["pipeline", "lead", "deal", "renewal", "churn"]),
    ("ops", ["on-call", "oncall", "ticket", "support", "sev"])]

/-- `float(w)`; no count that a process can reach overflows. -/
def weightOf (w : ℕ) : PyFloat := (PyFloat.ofInt w).getD (.inf false)

section
variable (ops : TextOps)

/-- `_detect_domain`. -/
def detectDomain (text : String) : String :=
  let lo := String.ofList (ops.lower text.toList)
  match domainHints.find? fun p => p.2.any fun h => occursIn h lo with
  | some p => p.1
  | none => "general"

/-- A character of `[\w.-]`. -/
def isTokenChar (c : Char) : Bool := ops.isWord c || c = '.' || c = '-'

/-- The tokens that `@(\w[\w.-]*)` finds, with the fuel to read on. -/
def mentionsFrom : ℕ → List Char → List String
  | 0, _ => []
  | _ + 1, [] => []
  | fuel + 1, '@' :: c :: s =>
    if ops.isWord c then
      String.ofList (c :: s.takeWhile (isTokenChar ops)) :: mentionsFrom fuel (s.dropWhile (isTokenChar ops))
    else mentionsFrom fuel (c :: s)
  | fuel + 1, _ :: s => mentionsFrom fuel s

def mentionTokens (text : String) : List String := mentionsFrom ops text.length text.toList

namespace Chat

/-- What a message adds to each counter. -/
def speaksIn (c : Chat) : List (String × String) :=
  if c.senderId ≠ "" ∧ c.channelId ≠ "" then [(c.senderId, c.channelId)] else []

def mentions (c : Chat) : List (String × String) :=
  if c.senderId ≠ "" then (mentionTokens ops c.text).map fun target => (c.senderId, target) else []

def topics (c : Chat) : List (String × String) :=
  if c.channelId ≠ "" then [(c.channelId, detectDomain ops c.text)] else []

end Chat

namespace Accumulator

/-- `add_message`. -/
def addMessage (acc : Accumulator) (c : Chat) : Accumulator :=
  { acc with
    personToChannel := c.speaksIn.foldl Tally.bump acc.personToChannel
    personToPerson := (c.mentions ops).foldl Tally.bump acc.personToPerson
    channelToTopic := (c.topics ops).foldl Tally.bump acc.channelToTopic }

def markDirty (acc : Accumulator) (nodeId : String) : Accumulator :=
  if nodeId = "" ∨ nodeId ∈ acc.dirtyNodes then acc else { acc with dirtyNodes := acc.dirtyNodes ++ [nodeId] }

def clearDirty (acc : Accumulator) (nodeId : String) : Accumulator :=
  { acc with dirtyNodes := acc.dirtyNodes.filter (· ≠ nodeId) }

/-- `node_id in self.channel_to_topic`. -/
def isChannel (acc : Accumulator) (nodeId : String) : Bool := acc.channelToTopic.any fun p => p.1.1 = nodeId

def nodeKindFor (acc : Accumulator) (nodeId : String) : String := if acc.isChannel nodeId then "channel" else "person"

/-- The edges of a node in one counter. -/
def edgesOf (kind : String) (t : List ((String × String) × ℕ)) (nodeId : String) : List Edge :=
  t.filterMap fun p => if p.1.1 = nodeId ∧ 0 < p.2 then some ⟨kind, p.1.2, weightOf p.2⟩ else none

def edgesFor (acc : Accumulator) (nodeId : String) : List Edge :=
  if acc.isChannel nodeId then edgesOf "topic" acc.channelToTopic nodeId
  else edgesOf "mentions" acc.personToPerson nodeId ++ edgesOf "speaks_in" acc.personToChannel nodeId

/-- The payload of a node as it stands. -/
def nodeAt (acc : Accumulator) (nodeId : String) : Node := ⟨acc.nodeKindFor nodeId, nodeId, acc.edgesFor nodeId⟩

/-- A dirty node with edges, and their sum. -/
def candidate (acc : Accumulator) (nodeId : String) : Option (PyFloat × String) :=
  if acc.edgesFor nodeId = [] then none
  else some (PyFloat.sum ((acc.edgesFor nodeId).map Edge.weight), nodeId)

/-- The order of the keys `(-weight, node_id)`. -/
def Ahead (c d : PyFloat × String) : Prop := PyFloat.lt d.1 c.1 = true ∨ c.1 = d.1 ∧ c.2 ≤ d.2

instance : DecidableRel Ahead := fun _ _ => inferInstanceAs (Decidable (_ ∨ _))

/-- `flush_one_node`: the node, and the accumulator that is left. -/
def flushOneNode (acc : Accumulator) : Option Node × Accumulator :=
  match (acc.dirtyNodes.filterMap acc.candidate).insertionSort Ahead with
  | [] => (none, { acc with dirtyNodes := [] })
  | c :: _ => (some (acc.nodeAt c.2), acc.clearDirty c.2)

end Accumulator

/-! ### The reactivity -/

/-- What the reactivity finds: whether it is active, whether the execute row of its cycle gets into the ledger
    and what the write returns, and the clock. -/
structure Call where
  active : Bool
  stored : Bool
  written : Except Err Unit
  complete : written = .ok () → stored = true
  now : ℕ → Instant
  firedAt : Instant
  recorded : Except Err Unit

/-- What a fire leaves: its result, the accumulator and the `system_map_node` entry in the ledger. -/
structure Fire where
  result : Except Err Result
  acc : Accumulator
  nodes : List Node

/-- The state of the reactivity: its accumulator, and the nodes it has written. -/
structure Desk where
  acc : Accumulator
  nodes : List Node

def reactivityId : String := "system_map_node"

variable (py : Interp)

/-- `str(raw) if raw is not None else ""`. -/
def idOf : Val → String
  | .none => ""
  | raw => raw.toStr py

/-- What `update_from_chat_entry` reads; nothing of an entry without a text. -/
def readChat (args : Dict) : Option Chat :=
  match args.get "text" with
  | .str text =>
    if text = "" then none
    else some ⟨idOf py (args.get "sender_person"), idOf py (args.get "channel_id"), text⟩
  | _ => none

def updateFromChatEntry (args : Dict) (acc : Accumulator) : Accumulator :=
  match readChat py args with
  | none => acc
  | some c => ((acc.addMessage ops c).markDirty c.senderId).markDirty c.channelId

def fire (entry : Dict) (call : Call) (acc : Accumulator) : Fire :=
  match entryArgs entry with
  | .error x => ⟨.error x, acc, []⟩
  | .ok args =>
    let flushed := (updateFromChatEntry ops py args acc).flushOneNode
    match flushed.1 with
    | none => ⟨.ok ⟨false, "", []⟩, flushed.2, []⟩
    | some node =>
      let nodes := if call.stored then [node] else []
      match call.written with
      | .error x => ⟨.error x, flushed.2, nodes⟩
      | .ok _ => ⟨.ok ⟨true, s!"system_map_node:{node.nodeId}", [("per_tenant", 1)]⟩, flushed.2, nodes⟩

variable (perTenantBudget : ℤ)

def condition : Condition := .and [.dailyBudget ⟨none, none, some perTenantBudget⟩, .domainEnabled]

def turn (entry : Dict) (call : Call) (desk : Desk) : Turn where
  id := reactivityId
  active := call.active
  predicate := fun _ => (entryKind "chat_received" entry).map fun matched => (matched, none)
  condition := condition perTenantBudget
  fire := fun _ => (fire ops py entry call desk.acc).result
  now := call.now
  firedAt := call.firedAt
  write := call.recorded

abbrev keeper : Keeper Desk Call where
  id := reactivityId
  turn := turn ops py perTenantBudget
  after := fun entry call desk _ =>
    ⟨(fire ops py entry call desk.acc).acc, desk.nodes ++ (fire ops py entry call desk.acc).nodes⟩
  turn_id := fun _ _ _ => rfl

/-! ### Dispatches -/

/-- A turn of another reactivity. -/
abbrev Other := {t : Turn // t.id ≠ reactivityId}

def Other.binding (t : Other) : Binding Call reactivityId := .other t.1 t.2

/-- An entry that is dispatched, with the bindings before and after that of the reactivity. -/
structure MapRound where
  entry : Dict
  before : List Other
  call : Call
  after : List Other

def MapRound.round (r : MapRound) : Round Call reactivityId :=
  ⟨r.entry, r.before.map Other.binding ++ .own r.call :: r.after.map Other.binding⟩

/-- The chat message of an entry that the predicate matches. -/
def chatOf (entry : Dict) : Option Chat :=
  match entryKind "chat_received" entry, entryArgs entry with
  | .ok true, .ok args => readChat py args
  | _, _ => none

/-- The registry, the reactivity, and the chat messages that were dispatched so far. -/
structure World where
  stores : Registry.Stores
  desk : Desk
  dispatched : List Chat

def World.fresh (disabled : List String) : World := ⟨.fresh disabled, ⟨.empty, []⟩, []⟩

variable (company : UUID)

def step (w : World) (r : MapRound) : Option World :=
  ((keeper ops py perTenantBudget).step py company (w.stores, w.desk) r.round).map fun st =>
    ⟨st.1, st.2, w.dispatched ++ (chatOf py r.entry).toList⟩

end

end ProcessExtractor.SystemMap
