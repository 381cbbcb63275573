import Wormbase.Subscriptions.Delivery

/-! `stream_subscription`, as the turns that its generator takes: the check of the owner, the replay of
    what the ledger records, then the queue. `ListModeTransport` makes one answer of them.

    What the reader of subscriptions and the ledger answer is part of the input. -/

namespace Subscriptions
open Py

/-! ### `StreamRegistry` -/

structure StreamRegistry where
  maxsize : ℤ
  queues : String → Option (List Dict)

namespace StreamRegistry
variable (r : StreamRegistry) (subscriptionId : String)

/-- `queue_for`, as the events of the queue. -/
def queueFor : List Dict := (r.queues subscriptionId).getD []

/-- `Queue.full`. A queue without a positive size is never full. -/
def full : Bool := 0 < r.maxsize && r.maxsize ≤ (r.queueFor subscriptionId).length

def setQueue (q : List Dict) : StreamRegistry :=
  { r with queues := Function.update r.queues subscriptionId (some q) }

/-- `push`: the oldest event leaves a full queue. -/
def push (event : Dict) : StreamRegistry :=
  let q := r.queueFor subscriptionId
  r.setQueue subscriptionId ((if r.full subscriptionId then q.tail else q) ++ [event])

def size : ℕ := (r.queueFor subscriptionId).length

@[simp] theorem queueFor_setQueue (q : List Dict) :
    (r.setQueue subscriptionId q).queueFor subscriptionId = q := by
  simp [setQueue, queueFor]

theorem queueFor_push {r : StreamRegistry} {subscriptionId : String} (event : Dict)
    (h : r.full subscriptionId = false) :
    (r.push subscriptionId event).queueFor subscriptionId = r.queueFor subscriptionId ++ [event] := by
  simp [push, h]

end StreamRegistry

/-! ### The events -/

/-- `event_payload` of `_deliver`. -/
def eventPayload (subId : String) (seq : ℤ) (kind : String) (ts args : Val) : Dict :=
  [(.str "subscription_id", .str subId), (.str "triggering_entry_seq", .int seq), (.str "kind", .str kind),
    (.str "ts", ts), (.str "args", args)]

def replayEvent (subId : String) (seq : ℤ) (kind status : String) : Dict :=
  [(.str "subscription_id", .str subId), (.str "triggering_entry_seq", .int seq), (.str "kind", .str kind),
    (.str "delivery_status", .str status), (.str "replay", .bool true)]

def deniedEvent (reason : String) : Dict :=
  [(.str "status", .str "denied"), (.str "reason", .str reason)]

/-- The triggering seq that an event names. -/
def eventSeq (event : Dict) : Option ℤ :=
  match event.get "triggering_entry_seq" with
  | .int seq => some seq
  | _ => none

/-! ### The generator -/

section
variable (py : Interp)

/-- What a row adds to `_replay_delivered`. -/
def replayed (subscriptionId : String) (sinceSeq : ℤ) (e : Dict) : Except Err (Option Dict) :=
  if (e.get "kind").isText "execute" then
    match (e.get "payload").or (.dict []) with
    | .dict payload =>
      if (Dict.get payload "tool").isText "emit_agent_event_delivered" then
        match (Dict.get payload "args").or (.dict []) with
        | .dict args =>
          if (Dict.get args "subscription_id").text py = subscriptionId then
            match ((Dict.get args "triggering_entry_seq").or (.int 0)).toInt with
            | .ok seq =>
              if seq ≤ sinceSeq then .ok none
              else .ok (some (replayEvent subscriptionId seq
                ((Dict.get args "triggering_entry_kind").text py)
                ((Dict.get args "delivery_status").text py)))
            | .error x => if x.cls ∈ ["TypeError", "ValueError"] then .ok none else .error x
          else .ok none
        | v => .error (attributeError s!"'{v.typeName}' object has no attribute 'get'")
      else .ok none
    | v => .error (attributeError s!"'{v.typeName}' object has no attribute 'get'")
  else .ok none

/-- `_replay_delivered`. -/
def replayDelivered (subscriptionId : String) (sinceSeq : ℤ) (entries : List Dict) :
    Except Err (List Dict) := do
  return (← entries.mapM (replayed py subscriptionId sinceSeq)).reduceOption

/-- The parameters of `stream_subscription`. -/
structure StreamCall where
  subscriptionId : String
  sinceSeq : ℤ
  callingAgentId : String

/-- The event that answers a caller who is not the owner of an active subscription. -/
def StreamCall.denial (c : StreamCall) (active : List Dict) : Option Dict :=
  match active.find? fun row => (row.get "subscription_id").text py = c.subscriptionId with
  | none =>
    some (deniedEvent ("subscription " ++ String.ofList (reprStr py c.subscriptionId) ++ " not active"))
  | some row =>
    if (row.get "agent_id").text py = c.callingAgentId then none
    else some (deniedEvent ("calling agent " ++ String.ofList (reprStr py c.callingAgentId) ++
      " does not own subscription " ++ String.ofList (reprStr py c.subscriptionId)))

/-- Where the generator is: before the check, before the ledger is read, in the replay, in the loop over
    the queue, or at its end. -/
inductive Position where
  | opened
  | checked
  | replaying (rest : List Dict)
  | tailing
  | closed

/-- What the generator does next. At an empty queue it waits for a push. -/
inductive Turn where
  | yields (event : Dict) (position : Position) (registry : StreamRegistry)
  | moves (position : Position)
  | waits
  | stops
  | raised (x : Err)

/-- The generator of `stream_subscription`, from one place where it may be held up to the next. -/
def StreamCall.turn (c : StreamCall) (active fetched : List Dict) (registry : StreamRegistry) :
    Position → Turn
  | .opened =>
    match c.denial py active with
    | some event => .yields event .closed registry
    | none => .moves (if 0 < c.sinceSeq then .checked else .tailing)
  | .checked =>
    match replayDelivered py c.subscriptionId c.sinceSeq fetched with
    | .error x => .raised x
    | .ok events => .moves (.replaying events)
  | .replaying (event :: rest) => .yields event (.replaying rest) registry
  | .replaying [] => .moves .tailing
  | .tailing =>
    match registry.queueFor c.subscriptionId with
    | event :: rest => .yields event .tailing (registry.setQueue c.subscriptionId rest)
    | [] => .waits
  | .closed => .stops

/-! ### `ListModeTransport` -/

/-- The answer of the tool, or that the generator waits for a push. -/
inductive Answer where
  | returned (response : Dict)
  | waits
  | raised (x : Err)

def StreamCall.response (c : StreamCall) (events : List Dict) : Dict :=
  [(.str "subscription_id", .str c.subscriptionId), (.str "events", .list (events.map .dict))]

/-- How far a position is from the end of the replay, and the events before it and in the queue. -/
def Position.distance (registry : StreamRegistry) (subscriptionId : String) : Position → ℕ × ℕ
  | .opened => (3, 0)
  | .checked => (2, 0)
  | .replaying rest => (1, rest.length)
  | .tailing => (0, registry.size subscriptionId + 1)
  | .closed => (0, 0)

/-- A turn that yields or moves brings the generator nearer to its end. -/
theorem StreamCall.turn_distance {c : StreamCall} {active fetched : List Dict}
    {registry registry' : StreamRegistry} {position position' : Position}
    (h : (∃ event, c.turn py active fetched registry position = .yields event position' registry') ∨
      (c.turn py active fetched registry position = .moves position' ∧ registry' = registry)) :
    Prod.Lex (· < ·) (· < ·) (position'.distance registry' c.subscriptionId)
      (position.distance registry c.subscriptionId) := by
  cases position with
  | opened =>
    simp only [turn] at h
    split at h
    · rcases h with ⟨event, h⟩ | ⟨h, -⟩
      · obtain ⟨-, rfl, -⟩ := Turn.yields.inj h
        exact .left _ _ (by omega)
      · cases h
    · rcases h with ⟨event, h⟩ | ⟨h, -⟩
      · cases h
      · obtain rfl := Turn.moves.inj h
        split <;> exact .left _ _ (by omega)
  | checked =>
    simp only [turn] at h
    split at h
    · rcases h with ⟨event, h⟩ | ⟨h, -⟩ <;> cases h
    · rcases h with ⟨event, h⟩ | ⟨h, -⟩
      · cases h
      · obtain rfl := Turn.moves.inj h
        exact .left _ _ (by omega)
  | replaying rest =>
    cases rest with
    | nil =>
      rcases h with ⟨event, h⟩ | ⟨h, -⟩
      · cases h
      · obtain rfl := Turn.moves.inj h
        exact .left _ _ (by omega)
    | cons event rest =>
      rcases h with ⟨event', h⟩ | ⟨h, -⟩
      · obtain ⟨-, rfl, rfl⟩ := Turn.yields.inj h
        exact .right _ (Nat.lt_succ_self _)
      · cases h
  | tailing =>
    simp only [turn] at h
    split at h
    · rename_i event rest hqueue
      rcases h with ⟨event', h⟩ | ⟨h, -⟩
      · obtain ⟨-, rfl, rfl⟩ := Turn.yields.inj h
        refine .right _ ?_
        simp [StreamRegistry.size, hqueue]
      · cases h
    · rcases h with ⟨event, h⟩ | ⟨h, -⟩ <;> cases h
  | closed => rcases h with ⟨event, h⟩ | ⟨h, -⟩ <;> cases h

/-- The loop of `ListModeTransport.deliver`. -/
def StreamCall.collect (c : StreamCall) (active fetched : List Dict) (position : Position)
    (registry : StreamRegistry) (events : List Dict) : Answer :=
  match _h : c.turn py active fetched registry position with
  | .yields event position' registry' =>
    if (event.get "status").isText "denied" then .returned (c.response (events ++ [event]))
    else if registry'.size c.subscriptionId = 0 then .returned (c.response (events ++ [event]))
    else c.collect active fetched position' registry' (events ++ [event])
  | .moves position' => c.collect active fetched position' registry events
  | .waits => .waits
  | .stops => .returned (c.response events)
  | .raised x => .raised x
termination_by position.distance registry c.subscriptionId
decreasing_by
  · exact c.turn_distance py (.inl ⟨event, _h⟩)
  · exact c.turn_distance py (.inr ⟨_h, rfl⟩)

/-- `ListModeTransport.deliver`. -/
def StreamCall.deliver (c : StreamCall) (active fetched : List Dict) (position : Position)
    (registry : StreamRegistry) : Answer :=
  c.collect py active fetched position registry []

/-- The replay events that the generator still has before it, the check being passed and the ledger being
    read. -/
def StreamCall.Pending (c : StreamCall) (active fetched : List Dict) (events : List Dict) :
    Position → Prop
  | .opened => c.denial py active = none ∧ if 0 < c.sinceSeq
      then replayDelivered py c.subscriptionId c.sinceSeq fetched = .ok events else events = []
  | .checked => replayDelivered py c.subscriptionId c.sinceSeq fetched = .ok events
  | .replaying rest => rest = events
  | .tailing => events = []
  | .closed => False

end

/-! ### What the answer holds -/

section
variable {py : Interp} {c : StreamCall} {active fetched : List Dict} {registry : StreamRegistry}

theorem collect_yields {position position' : Position} {registry' : StreamRegistry} {event : Dict}
    {events : List Dict}
    (h : c.turn py active fetched registry position = .yields event position' registry') :
    c.collect py active fetched position registry events =
      if (event.get "status").isText "denied" then .returned (c.response (events ++ [event]))
      else if registry'.size c.subscriptionId = 0 then .returned (c.response (events ++ [event]))
      else c.collect py active fetched position' registry' (events ++ [event]) := by
  rw [StreamCall.collect]
  split
  · rename_i h'
    obtain ⟨rfl, rfl, rfl⟩ := Turn.yields.inj (h.symm.trans h')
    rfl
  all_goals
    rename_i h'
    cases h.symm.trans h'

theorem collect_moves {position position' : Position} {events : List Dict}
    (h : c.turn py active fetched registry position = .moves position') :
    c.collect py active fetched position registry events =
      c.collect py active fetched position' registry events := by
  rw [StreamCall.collect]
  split
  · rename_i h'
    cases h.symm.trans h'
  · rename_i h'
    rw [Turn.moves.inj (h.symm.trans h')]
  all_goals
    rename_i h'
    cases h.symm.trans h'

/-- Only the replay events left tell one position from another. -/
theorem collect_pending {position : Position} {pending events : List Dict}
    (h : c.Pending py active fetched pending position) :
    c.collect py active fetched position registry events =
      c.collect py active fetched (.replaying pending) registry events := by
  have hchecked : replayDelivered py c.subscriptionId c.sinceSeq fetched = .ok pending →
      c.collect py active fetched .checked registry events =
        c.collect py active fetched (.replaying pending) registry events := fun hreplay =>
    collect_moves (by simp only [StreamCall.turn, hreplay])
  have htailing : c.collect py active fetched (.replaying []) registry events =
      c.collect py active fetched .tailing registry events := collect_moves rfl
  cases position with
  | opened =>
    obtain ⟨hdenial, hreplay⟩ := h
    have hmoves : c.turn py active fetched registry .opened =
        .moves (if 0 < c.sinceSeq then .checked else .tailing) := by
      simp only [StreamCall.turn, hdenial]
    rw [collect_moves hmoves]
    split
    · rename_i hsince
      rw [if_pos hsince] at hreplay
      exact hchecked hreplay
    · rename_i hsince
      rw [if_neg hsince] at hreplay
      rw [hreplay, htailing]
  | checked => exact hchecked h
  | replaying rest => rw [show rest = pending from h]
  | tailing => rw [show pending = [] from h, htailing]
  | closed => exact h.elim

/-- The loop over the queue takes all of it. -/
theorem collect_tailing : ∀ {queue : List Dict} {registry : StreamRegistry} {events : List Dict},
    registry.queueFor c.subscriptionId = queue → queue ≠ [] →
    (∀ event ∈ queue, (event.get "status").isText "denied" = false) →
    c.collect py active fetched .tailing registry events = .returned (c.response (events ++ queue))
  | [], _, _, _, hne, _ => absurd rfl hne
  | event :: rest, registry, events, hqueue, _, hallowed => by
    obtain ⟨hevent, hrest⟩ := List.forall_mem_cons.mp hallowed
    have hyields : c.turn py active fetched registry .tailing =
        .yields event .tailing (registry.setQueue c.subscriptionId rest) := by
      simp only [StreamCall.turn, hqueue]
    rw [collect_yields hyields, if_neg (by simp [hevent])]
    split
    · rename_i hsize
      have hnil : rest = [] := by simpa [StreamRegistry.size] using hsize
      rw [hnil]
    · rename_i hsize
      have hne : rest ≠ [] := by simpa [StreamRegistry.size] using hsize
      rw [collect_tailing (registry.queueFor_setQueue _ rest) hne hrest, List.append_assoc]
      rfl

/-- While the queue has an event, the loop goes through the replay, and then through the queue. -/
theorem collect_replaying (hqueue : registry.queueFor c.subscriptionId ≠ [])
    (hlive : ∀ event ∈ registry.queueFor c.subscriptionId, (event.get "status").isText "denied" = false) :
    ∀ {pending events : List Dict}, (∀ event ∈ pending, (event.get "status").isText "denied" = false) →
    c.collect py active fetched (.replaying pending) registry events =
      .returned (c.response (events ++ (pending ++ registry.queueFor c.subscriptionId)))
  | [], events, _ => by
    rw [collect_moves rfl]
    exact collect_tailing rfl hqueue hlive
  | event :: rest, events, hallowed => by
    obtain ⟨hevent, hrest⟩ := List.forall_mem_cons.mp hallowed
    have hsize : registry.size c.subscriptionId ≠ 0 := by simpa [StreamRegistry.size] using hqueue
    rw [collect_yields rfl, if_neg (by simp [hevent]), if_neg hsize,
      collect_replaying hqueue hlive hrest, List.append_assoc]
    rfl

/-- With an empty queue the loop ends at the first event of the replay. -/
theorem collect_drained {event : Dict} {rest : List Dict}
    (hqueue : registry.queueFor c.subscriptionId = []) :
    c.collect py active fetched (.replaying (event :: rest)) registry [] =
      .returned (c.response [event]) := by
  have hsize : registry.size c.subscriptionId = 0 := by simp [StreamRegistry.size, hqueue]
  rw [collect_yields rfl, if_pos hsize, ite_self, List.nil_append]

theorem response_inj {events events' : List Dict} (h : c.response events = c.response events') :
    events = events' := by
  simp only [StreamCall.response, List.cons.injEq, Prod.mk.injEq, Val.list.injEq, and_true, true_and] at h
  exact List.map_injective_iff.mpr (fun _ _ => Val.dict.inj) h

/-- The answer has the replay and the queue exactly when the queue has an event, or the replay no more
    than one. -/
theorem listMode_complete_iff (py : Interp) (c : StreamCall) (active fetched : List Dict)
    (registry : StreamRegistry) (position : Position) (pending : List Dict)
    (hpending : c.Pending py active fetched pending position)
    (havailable : pending ++ registry.queueFor c.subscriptionId ≠ [])
    (hallowed : ∀ event ∈ pending ++ registry.queueFor c.subscriptionId,
      (event.get "status").isText "denied" = false) :
    c.deliver py active fetched position registry =
        .returned (c.response (pending ++ registry.queueFor c.subscriptionId)) ↔
      registry.queueFor c.subscriptionId ≠ [] ∨ pending.length ≤ 1 := by
  obtain ⟨hreplay, hlive⟩ := List.forall_mem_append.mp hallowed
  rw [StreamCall.deliver, collect_pending hpending]
  rcases eq_or_ne (registry.queueFor c.subscriptionId) [] with hqueue | hqueue
  · simp only [hqueue, List.append_nil, ne_eq, not_true_eq_false, false_or] at havailable ⊢
    obtain ⟨event, rest, rfl⟩ := List.exists_cons_of_ne_nil havailable
    rw [collect_drained hqueue]
    constructor
    · intro h
      rw [← response_inj (Answer.returned.inj h)]
      exact le_rfl
    · intro h
      have hnil : rest = [] := by simpa using h
      rw [hnil]
  · rw [collect_replaying hqueue hlive hreplay, List.nil_append]
    exact iff_of_true rfl (.inl hqueue)

end

/-! ### Two replay events and an empty queue -/

/-- The execute row of a delivery to `s-1`, as the ledger hands it out. -/
def deliveredRow (seq : ℤ) : Dict :=
  [(.str "kind", .str "execute"), (.str "payload", .dict ((⟨"s-1", seq, "propose", "mcp_stream", "delivered",
    0, none⟩ : Delivery).stored ⟨1⟩))]

def resumeCall : StreamCall := ⟨"s-1", 1, "agent-1"⟩

def ownedBy (agentId : String) : List Dict :=
  [[(.str "subscription_id", .str "s-1"), (.str "agent_id", .str agentId)]]

def replayOf (seq : ℤ) : Dict := replayEvent "s-1" seq "propose" "delivered"

theorem resumeCall_pending : resumeCall.Pending .plain (ownedBy "agent-1") [deliveredRow 5, deliveredRow 6]
    [replayOf 5, replayOf 6] .opened := ⟨rfl, rfl⟩

/-- With an event in the queue the answer has all three. -/
theorem resumeCall_complete : resumeCall.deliver .plain (ownedBy "agent-1")
    [deliveredRow 5, deliveredRow 6] .opened
    (StreamRegistry.push ⟨1000, fun _ => none⟩ "s-1" (eventPayload "s-1" 7 "propose" .none .none)) =
      .returned (resumeCall.response
        [replayOf 5, replayOf 6, eventPayload "s-1" 7 "propose" .none .none]) :=
  (listMode_complete_iff .plain resumeCall (ownedBy "agent-1") [deliveredRow 5, deliveredRow 6]
    (StreamRegistry.push ⟨1000, fun _ => none⟩ "s-1" (eventPayload "s-1" 7 "propose" .none .none)) .opened
    [replayOf 5, replayOf 6] resumeCall_pending (by simp) (by
      intro event hevent
      rcases List.mem_append.mp hevent with hreplay | hlive
      · simp only [List.mem_cons, List.not_mem_nil, or_false] at hreplay
        rcases hreplay with rfl | rfl <;> rfl
      · obtain rfl := List.mem_singleton.mp hlive
        rfl)).mpr (.inl (List.cons_ne_nil _ _))

theorem emptyQueue_loses_replay : ¬∀ (py : Interp) (c : StreamCall) (active fetched : List Dict)
    (registry : StreamRegistry) (position : Position) (pending : List Dict),
    c.Pending py active fetched pending position →
    pending ++ registry.queueFor c.subscriptionId ≠ [] →
    (∀ event ∈ pending ++ registry.queueFor c.subscriptionId,
      (event.get "status").isText "denied" = false) →
    c.deliver py active fetched position registry =
      .returned (c.response (pending ++ registry.queueFor c.subscriptionId)) := by
  intro h
  have hall := h .plain resumeCall (ownedBy "agent-1") [deliveredRow 5, deliveredRow 6]
    ⟨1000, fun _ => none⟩ .opened [replayOf 5, replayOf 6] resumeCall_pending (by simp) (by
      intro event hevent
      simp only [StreamRegistry.queueFor, Option.getD_none, List.append_nil, List.mem_cons,
        List.not_mem_nil, or_false] at hevent
      rcases hevent with rfl | rfl <;> rfl)
  rw [StreamCall.deliver, collect_pending resumeCall_pending, collect_drained rfl] at hall
  have hlen := congrArg List.length (response_inj (Answer.returned.inj hall))
  simp [StreamRegistry.queueFor] at hlen

end Subscriptions
