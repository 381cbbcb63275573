import Wormbase.Lib.Join
import Wormbase.Reactivity.Novelty
import Wormbase.Reactivity.ProcessMapper

/-! `SourceMentionedReactivity` and `DecisionRecordReactivity`: an offer for a data source that a chat
    message mentions, and the record of a decision in it.

    Both have a window of an hour in their condition, under a fixed key. -/

namespace Reactivity
open Py Registry

/-- `hours=1.0`. -/
def hour : ℤ := 3600000000

/-! ### Data sources in chat -/

namespace SourceMentioned

def dataSourceKeywords : List String :=
  ["stripe", "salesforce", "hubspot", "snowflake", "postgres", "postgresql", "s3", "google sheets",
    "airtable", "mixpanel", "amplitude", "segment", "fivetran", "dbt"]

/-- A keyword, and the channel where it stands in a message. -/
structure Mention where
  keyword : String
  listed : keyword ∈ dataSourceKeywords
  channel : String
  deriving DecidableEq

/-- What the reactivity finds: whether its services are there, what `on_proactive_mention` and
    `read_policy` do, whether the offer gets to the channel and the write of its cycle, the verdict of
    `LiveOnly`, and the clock. -/
structure Call where
  active : Bool
  services : Bool
  offer : Except Err Bool
  policy : Except Err Unit
  sent : Bool
  written : Except Err Unit
  live : Except Err Bool
  now : ℕ → Instant
  firedAt : Instant
  recorded : Except Err Unit

def reactivityId : String := "source_mentioned"

theorem reactivityId_ne : reactivityId ≠ "" := by decide

def condition (call : Call) : Condition :=
  .and [.and [.notRecentlyFired "source_mention" hour, .custom fun _ _ => call.live], .domainEnabled]

/-- `_entry_chat_args`. -/
def entryChatArgs (entry : Dict) : Except Err (Option Dict) :=
  if (entry.get "kind").isText "execute" then
    match (entry.get "payload").or (.dict []) with
    | .dict payload =>
      let tool := Dict.get payload "tool"
      if tool.isText "emit_chat_received" || tool.isText "channel_adapter.emit_chat_received" then
        match Dict.get payload "args" with
        | .dict args => .ok (some args)
        | _ => .ok none
      else .ok none
    | v => .error (attributeError s!"'{v.typeName}' object has no attribute 'get'")
  else .ok none

section
variable (py : Interp) (lower : String → String)

/-- `match_keyword`, with the keyword known to be one of the list. -/
def matchKeyword (text : String) : Option { kw // kw ∈ dataSourceKeywords } :=
  if text = "" then none else dataSourceKeywords.attach.find? fun kw => occursIn kw.1 (lower text)

/-- `DataKeywordMatch`. -/
def dataKeywordMatch (entry : Dict) : Except Err Bool := do
  match ← entryChatArgs entry with
  | none => return false
  | some args =>
    let text := lower ((Dict.get args "text").text py)
    return text ≠ "" && dataSourceKeywords.any fun kw => occursIn kw text

/-- The mention of an entry, unless it has no channel or no keyword. -/
def mentionOf (entry : Dict) : Except Err (Option Mention) := do
  let args ← entryArgs entry
  let channel := Dict.get args "channel_id"
  match matchKeyword lower ((Dict.get args "text").text py) with
  | none => return none
  | some kw => return if channel.truthy then some ⟨kw.1, kw.2, channel.toStr py⟩ else none

/-- `f"source_mention:{kw}:{channel_id}"`. -/
def Mention.noveltyKey (m : Mention) : String := s!"source_mention:{m.keyword}:{m.channel}"

/-- What a call of `fire` returns or raises, and what it has offered by then. -/
def fire (entry : Dict) (call : Call) : Except Err Result × Option Mention :=
  let quiet : Except Err Result := .ok ⟨false, "", []⟩
  if !call.services then (quiet, none)
  else match mentionOf py lower entry with
    | .error x => (.error x, none)
    | .ok none => (quiet, none)
    | .ok (some m) =>
      match call.offer, call.policy with
      | .error x, _ => (.error x, none)
      | .ok false, _ => (quiet, none)
      | .ok true, .error x => (.error x, none)
      | .ok true, .ok _ =>
        -- the offer is sent before its cycle is written
        let said := if call.sent then some m else none
        match call.written with
        | .error x => (.error x, said)
        | .ok _ => (if call.sent then .ok ⟨true, m.noveltyKey, [("per_owner", 1)]⟩ else quiet, said)

def turn (entry : Dict) (call : Call) : Turn where
  id := reactivityId
  active := call.active
  predicate := fun _ => do
    if ← entryKind "chat_received" entry then return (← dataKeywordMatch py lower entry, none)
    else return (false, none)
  condition := condition call
  fire := fun _ => (fire py lower entry call).1
  now := call.now
  firedAt := call.firedAt
  write := call.recorded

end

section
variable {py : Interp} {lower : String → String} {entry : Dict} {call : Call}

/-- What a call of `fire` does: it offers nothing and does not fire; or it offers, and fires if the
    cycle can be written. -/
theorem fire_cases (py : Interp) (lower : String → String) (entry : Dict) (call : Call) :
    ((fire py lower entry call).2 = none ∧ ∀ r, (fire py lower entry call).1 = .ok r → r.fired = false) ∨
    ∃ m, (fire py lower entry call).2 = some m ∧ call.sent = true ∧ mentionOf py lower entry = .ok (some m) ∧
      ((∃ x, call.written = .error x ∧ (fire py lower entry call).1 = .error x) ∨
        (fire py lower entry call).1 = .ok ⟨true, m.noveltyKey, [("per_owner", 1)]⟩) := by
  unfold fire
  cases call.services with
  | false => exact .inl ⟨rfl, not_fired⟩
  | true =>
    simp only [Bool.not_true, Bool.false_eq_true, if_false]
    cases hmention : mentionOf py lower entry with
    | error x => exact .inl ⟨rfl, nofun⟩
    | ok found =>
      cases found with
      | none => exact .inl ⟨rfl, not_fired⟩
      | some m =>
        cases call.offer with
        | error x => exact .inl ⟨rfl, nofun⟩
        | ok offered =>
          cases offered with
          | false => exact .inl ⟨rfl, not_fired⟩
          | true =>
            cases call.policy with
            | error x => exact .inl ⟨rfl, nofun⟩
            | ok u =>
              cases hsent : call.sent with
              | false =>
                cases call.written with
                | error x => exact .inl ⟨rfl, nofun⟩
                | ok u => exact .inl ⟨rfl, not_fired⟩
              | true =>
                cases hwritten : call.written with
                | error x => exact .inr ⟨m, rfl, rfl, rfl, .inl ⟨x, rfl, rfl⟩⟩
                | ok u => exact .inr ⟨m, rfl, rfl, rfl, .inr rfl⟩

theorem predicate_key {s : Stores} {key : Option String}
    (h : (turn py lower entry call).predicate s = .ok (true, key)) : key = none := by
  obtain ⟨kind, -, h⟩ := bind_eq_ok.mp h
  cases kind with
  | false => cases Except.ok.inj h
  | true =>
    obtain ⟨found, -, h⟩ := bind_eq_ok.mp h
    exact (congrArg Prod.snd (Except.ok.inj h)).symm

theorem no_colon {kw : String} (h : kw ∈ dataSourceKeywords) : ':' ∉ kw.toList := by
  have hall : ∀ kw ∈ dataSourceKeywords, ':' ∉ kw.toList := by decide +kernel
  exact hall kw h

theorem noveltyKey_toList (m : Mention) :
    m.noveltyKey.toList = "source_mention:".toList ++ (m.keyword.toList ++ ':' :: m.channel.toList) := by
  have hcolon : ":".toList = [':'] := rfl
  show ("source_mention:" ++ m.keyword ++ ":" ++ m.channel).toList = _
  rw [String.toList_append, String.toList_append, String.toList_append, hcolon, List.append_assoc,
    List.append_assoc, List.singleton_append]

/-- No keyword has a colon, so the key tells keyword and channel. -/
theorem noveltyKey_inj (m m' : Mention) (h : m.noveltyKey = m'.noveltyKey) : m = m' := by
  have hlist := congrArg String.toList h
  rw [noveltyKey_toList, noveltyKey_toList] at hlist
  have htail := List.append_cancel_left hlist
  obtain ⟨hkeyword, hchannel⟩ := Join.eq_of_append_cons_eq (no_colon m.listed) (no_colon m'.listed) htail
  obtain ⟨keyword, listed, channel⟩ := m
  obtain ⟨keyword', listed', channel'⟩ := m'
  obtain rfl : keyword = keyword' := String.toList_inj.mp hkeyword
  obtain rfl : channel = channel' := String.toList_inj.mp hchannel
  rfl

theorem noveltyKey_length (m : Mention) : "source_mention".length < m.noveltyKey.length := by
  have hlen : ("source_mention:".toList ++ (m.keyword.toList ++ ':' :: m.channel.toList)).length =
      "source_mention:".length + (m.keyword.length + (m.channel.length + 1)) := by
    simp only [List.length_append, List.length_cons, String.length_toList]
  rw [← String.length_toList (s := m.noveltyKey), noveltyKey_toList, hlen]
  have hlong : "source_mention:".length = 15 := rfl
  have hshort : "source_mention".length = 14 := rfl
  omega

end

/-- What is sent is also written down. -/
def Call.Booked (call : Call) : Prop := call.sent = true → ∃ u, call.written = .ok u

def speaker (py : Interp) (lower : String → String) : Speaker Call Mention where
  id := reactivityId
  literal := "source_mention"
  window := hour
  turn := turn py lower
  about := fun entry call => (fire py lower entry call).2
  key := Mention.noveltyKey
  Booked := Call.Booked
  window_nonneg := by decide
  turn_id := fun _ _ => rfl
  key_ne := fun m h => by
    have := noveltyKey_length m
    rw [h] at this
    exact absurd this (by decide)
  key_inj := noveltyKey_inj
  reads := fun {entry call m} hm => by
    rcases fire_cases py lower entry call with ⟨hnone, -⟩ | ⟨m', -, -, hmention, -⟩
    · rw [hnone] at hm
      cases hm
    · obtain ⟨args, hargs, -⟩ := bind_eq_ok.mp hmention
      exact ⟨args, hargs⟩
  reports := fun {entry call m} hbooked hm s => by
    rcases fire_cases py lower entry call with ⟨hnone, -⟩ | ⟨m', hm', hsent, -, hend⟩
    · rw [hnone] at hm
      cases hm
    · obtain rfl := Option.some.inj (hm'.symm.trans hm)
      rcases hend with ⟨x, hwritten, -⟩ | hfire
      · obtain ⟨u, hu⟩ := hbooked hsent
        rw [hwritten] at hu
        cases hu
      · exact ⟨_, hfire, rfl, rfl⟩
  fires := fun {entry call s r} hfire hfired => by
    rcases fire_cases py lower entry call with ⟨-, hquiet⟩ | ⟨m, hm, -⟩
    · rw [hquiet r hfire] at hfired
      cases hfired
    · exact ⟨m, hm⟩
  asks := fun {_ _ entry call s} hreach =>
    reaches_asks rfl List.mem_cons_self List.mem_cons_self reactivityId_ne (by decide)
      (fun _ => predicate_key) hreach

end SourceMentioned

/-! ### Decisions in chat -/

namespace DecisionRecord

/-- What the reactivity finds: what `synthesize_decision` makes of a text with decision language, the
    write of the record, and the clock. -/
structure Call where
  active : Bool
  synthesized : Except Err Unit
  written : Except Err Unit
  now : ℕ → Instant
  firedAt : Instant
  recorded : Except Err Unit

def reactivityId : String := "decision_record"

theorem reactivityId_ne : reactivityId ≠ "" := by decide

/-- `DailyBudget(per_tenant=20)`. -/
def budget : Caps := ⟨none, none, some 20⟩

def condition : Condition :=
  .and [.and [.dailyBudget budget, .notRecentlyFired "decision" hour], .domainEnabled]

section
variable (py : Interp) (matchesDecision : String → Bool)

/-- `MatchesDecisionPattern`: the text is one in which a decision pattern is found. -/
def decides (args : Dict) : Bool :=
  match Dict.get args "text" with
  | .str text => text ≠ "" && matchesDecision text
  | _ => false

/-- `str(args.get("message_id") or args.get("ts") or "")`. -/
def messageId (args : Dict) : String := ((Dict.get args "message_id").or (Dict.get args "ts")).text py

/-- `f"decision:{message_id}" if message_id else "decision"`. -/
def noveltyKey (messageId : String) : String := if messageId = "" then "decision" else s!"decision:{messageId}"

/-- What a call of `fire` returns or raises, and the message whose decision it has recorded. -/
def fire (entry : Dict) (call : Call) : Except Err Result × Option String :=
  match entryArgs entry with
  | .error x => (.error x, none)
  | .ok args =>
    if decides matchesDecision args then
      match call.synthesized, call.written with
      | .error x, _ | .ok _, .error x => (.error x, none)
      | .ok _, .ok _ =>
        (.ok ⟨true, noveltyKey (messageId py args), [("per_tenant", 1)]⟩, some (messageId py args))
    else (.ok ⟨false, "", []⟩, none)

def turn (entry : Dict) (call : Call) : Turn where
  id := reactivityId
  active := call.active
  predicate := fun _ => do
    if ← entryKind "chat_received" entry then
      return (← ProcessMapper.argsPredicate (decides matchesDecision) entry, none)
    else return (false, none)
  condition := condition
  fire := fun _ => (fire py matchesDecision entry call).1
  now := call.now
  firedAt := call.firedAt
  write := call.recorded

end

section
variable {py : Interp} {matchesDecision : String → Bool} {entry : Dict} {call : Call}

/-- A call of `fire` records nothing and does not fire, or it records a decision and fires. -/
theorem fire_cases (py : Interp) (matchesDecision : String → Bool) (entry : Dict) (call : Call) :
    ((fire py matchesDecision entry call).2 = none ∧
      ∀ r, (fire py matchesDecision entry call).1 = .ok r → r.fired = false) ∨
    ∃ args id, entryArgs entry = .ok args ∧ (fire py matchesDecision entry call).2 = some id ∧
      (fire py matchesDecision entry call).1 = .ok ⟨true, noveltyKey id, [("per_tenant", 1)]⟩ := by
  unfold fire
  cases hargs : entryArgs entry with
  | error x => exact .inl ⟨rfl, nofun⟩
  | ok args =>
    by_cases hdecides : decides matchesDecision args = true
    · simp only [hdecides, if_true]
      cases call.synthesized with
      | error x => exact .inl ⟨rfl, nofun⟩
      | ok u =>
        cases call.written with
        | error x => exact .inl ⟨rfl, nofun⟩
        | ok u => exact .inr ⟨args, _, rfl, rfl, rfl⟩
    · simp only [hdecides]
      exact .inl ⟨rfl, not_fired⟩

theorem predicate_key {s : Stores} {key : Option String}
    (h : (turn py matchesDecision entry call).predicate s = .ok (true, key)) : key = none := by
  obtain ⟨kind, -, h⟩ := bind_eq_ok.mp h
  cases kind with
  | false => cases Except.ok.inj h
  | true =>
    obtain ⟨found, -, h⟩ := bind_eq_ok.mp h
    exact (congrArg Prod.snd (Except.ok.inj h)).symm

theorem noveltyKey_toList {id : String} (hid : id ≠ "") :
    (noveltyKey id).toList = "decision".toList ++ ':' :: id.toList := by
  have hcolon : "decision:".toList = "decision".toList ++ [':'] := rfl
  rw [noveltyKey, if_neg hid]
  show ("decision:" ++ id).toList = _
  rw [String.toList_append, hcolon, List.append_assoc, List.singleton_append]

theorem noveltyKey_inj (id id' : String) (h : noveltyKey id = noveltyKey id') : id = id' := by
  have hlist := congrArg String.toList h
  have hnone : (noveltyKey "").toList = "decision".toList := rfl
  rcases eq_or_ne id "" with rfl | hid
  · rcases eq_or_ne id' "" with rfl | hid'
    · rfl
    · rw [hnone, noveltyKey_toList hid', List.self_eq_append_right] at hlist
      cases hlist
  · rcases eq_or_ne id' "" with rfl | hid'
    · rw [hnone, noveltyKey_toList hid, List.append_right_eq_self] at hlist
      cases hlist
    · rw [noveltyKey_toList hid, noveltyKey_toList hid'] at hlist
      exact String.toList_inj.mp (List.cons.inj (List.append_cancel_left hlist)).2

end

def speaker (py : Interp) (matchesDecision : String → Bool) : Speaker Call String where
  id := reactivityId
  literal := "decision"
  window := hour
  turn := turn py matchesDecision
  about := fun entry call => (fire py matchesDecision entry call).2
  key := noveltyKey
  Booked := fun _ => True
  window_nonneg := by decide
  turn_id := fun _ _ => rfl
  key_ne := fun id h => by
    have hlist := congrArg String.toList h
    rcases eq_or_ne id "" with rfl | hid
    · exact absurd hlist (by decide)
    · rw [noveltyKey_toList hid] at hlist
      exact List.append_ne_nil_of_right_ne_nil _ (List.cons_ne_nil _ _) hlist
  key_inj := noveltyKey_inj
  reads := fun {entry call m} hm => by
    rcases fire_cases py matchesDecision entry call with ⟨hnone, -⟩ | ⟨args, id, hargs, -, -⟩
    · rw [hnone] at hm
      cases hm
    · exact ⟨args, hargs⟩
  reports := fun {entry call m} _ hm s => by
    rcases fire_cases py matchesDecision entry call with ⟨hnone, -⟩ | ⟨args, id, -, hid, hfire⟩
    · rw [hnone] at hm
      cases hm
    · obtain rfl := Option.some.inj (hid.symm.trans hm)
      exact ⟨_, hfire, rfl, rfl⟩
  fires := fun {entry call s r} hfire hfired => by
    rcases fire_cases py matchesDecision entry call with ⟨-, hquiet⟩ | ⟨args, id, -, hid, -⟩
    · rw [hquiet r hfire] at hfired
      cases hfired
    · exact ⟨id, hid⟩
  asks := fun {_ _ entry call s} hreach =>
    reaches_asks rfl List.mem_cons_self (List.mem_cons_of_mem _ List.mem_cons_self)
      reactivityId_ne (by decide) (fun _ => predicate_key) hreach

end DecisionRecord

/-! ### Offers and decisions within an hour -/

/-- For every sequence of entries that are dispatched under a clock that does not go back: the offers
    for one keyword in one channel are more than an hour apart exactly if each mention that is let
    through would be novel under the key that its fire reports, and so are the records of decisions in
    one message. -/
theorem novelty_windows_iff (py : Interp) (lower : String → String) (matchesDecision : String → Bool)
    (company : UUID) (disabled : List String) :
    (∀ rs : List (Round SourceMentioned.Call SourceMentioned.reactivityId),
      (∀ r ∈ rs, ∀ b ∈ r.bindings, (SourceMentioned.speaker py lower).Settled r.entry b) →
        ((SourceMentioned.speaker py lower).WindowHolds py company disabled rs ↔
          Run.Guarded ((SourceMentioned.speaker py lower).keeper.step py company)
            (fun st r => (SourceMentioned.speaker py lower).keeper.Each py company
              ((SourceMentioned.speaker py lower).Novel py company) r.entry st r.bindings)
            (.fresh disabled, []) rs)) ∧
    ∀ rs : List (Round DecisionRecord.Call DecisionRecord.reactivityId),
      (∀ r ∈ rs, ∀ b ∈ r.bindings, (DecisionRecord.speaker py matchesDecision).Settled r.entry b) →
        ((DecisionRecord.speaker py matchesDecision).WindowHolds py company disabled rs ↔
          Run.Guarded ((DecisionRecord.speaker py matchesDecision).keeper.step py company)
            (fun st r => (DecisionRecord.speaker py matchesDecision).keeper.Each py company
              ((DecisionRecord.speaker py matchesDecision).Novel py company) r.entry st r.bindings)
            (.fresh disabled, []) rs) :=
  ⟨fun rs => (SourceMentioned.speaker py lower).windowHolds_iff disabled rs,
    fun rs => (DecisionRecord.speaker py matchesDecision).windowHolds_iff disabled rs⟩

/-- A chat message as it is recorded. -/
def chatMessage (text : String) : Dict :=
  [(.str "seq", .int 1), (.str "kind", .str "execute"), (.str "payload", .dict
    [(.str "tool", .str "emit_chat_received"), (.str "args", .dict
      [(.str "message_id", .str "m1"), (.str "channel_id", .str "C1"), (.str "text", .str text)])])]

/-- Everything works, at an instant. -/
def offering (instant : Instant) : SourceMentioned.Call :=
  ⟨true, true, .ok true, .ok (), true, .ok (), .ok true, fun _ => instant, instant, .ok ()⟩

def recording (instant : Instant) : DecisionRecord.Call :=
  ⟨true, .ok (), .ok (), fun _ => instant, instant, .ok ()⟩

/-- A message is dispatched at some instants. -/
def mentions (instants : List Instant) : List (Round SourceMentioned.Call SourceMentioned.reactivityId) :=
  instants.map fun instant => ⟨chatMessage "stripe", [.own (offering instant)]⟩

def decisions (instants : List Instant) : List (Round DecisionRecord.Call DecisionRecord.reactivityId) :=
  instants.map fun instant => ⟨chatMessage "ship it", [.own (recording instant)]⟩

theorem mention_once : (SourceMentioned.speaker .plain id).WindowHolds .plain ⟨1⟩ [] (mentions [0]) := by
  refine ((novelty_windows_iff .plain id (fun _ => true) ⟨1⟩ []).1 (mentions [0]) ?_).mpr ?_
  · intro r hr b hb
    obtain rfl := List.mem_singleton.mp hr
    obtain rfl := List.mem_singleton.mp hb
    exact ⟨fun _ => ⟨(), rfl⟩, fun _ => le_rfl⟩
  · exact ⟨⟨fun _ _ _ _ => rfl, fun _ => trivial⟩, fun _ _ => trivial⟩

def stripe : SourceMentioned.Mention := ⟨"stripe", by decide, "C1"⟩

theorem not_apart_of_map {μ : Type} {log : List (Said μ)} {m : μ} {t t' : Instant}
    (hlog : (log.map fun a => (a.about, a.time)) = [(m, t), (m, t')]) (hclose : t' - hour ≤ t) :
    ¬Apart hour log := by
  intro hapart
  have hpairs : (log.map fun a => (a.about, a.time)).Pairwise fun a b => a.1 = b.1 → a.2 < b.2 - hour :=
    List.pairwise_map.mpr hapart
  rw [hlog] at hpairs
  exact absurd (List.rel_of_pairwise_cons hpairs List.mem_cons_self rfl) (not_lt.mpr hclose)

/-- Within a second one message is offered for twice, and its decision recorded twice. -/
theorem same_message_twice :
    ¬(SourceMentioned.speaker .plain id).WindowHolds .plain ⟨1⟩ [] (mentions [0, 1000000]) ∧
    ¬(DecisionRecord.speaker .plain fun _ => true).WindowHolds .plain ⟨1⟩ [] (decisions [0, 1000000]) := by
  constructor
  · intro hholds
    have htwo : (Run.exec ((SourceMentioned.speaker .plain id).keeper.step .plain ⟨1⟩) (.fresh [], [])
        (mentions [0, 1000000])).map (fun st => st.2.map fun a => (a.about, a.time)) =
          some [(stripe, 0), (stripe, 1000000)] := by decide +kernel
    obtain ⟨st, hst, hlog⟩ := Option.map_eq_some_iff.mp htwo
    exact not_apart_of_map hlog (by decide) (hholds st hst)
  · intro hholds
    have htwo : (Run.exec ((DecisionRecord.speaker .plain fun _ => true).keeper.step .plain ⟨1⟩)
        (.fresh [], []) (decisions [0, 1000000])).map (fun st => st.2.map fun a => (a.about, a.time)) =
          some [("m1", 0), ("m1", 1000000)] := by decide +kernel
    obtain ⟨st, hst, hlog⟩ := Option.map_eq_some_iff.mp htwo
    exact not_apart_of_map hlog (by decide) (hholds st hst)

end Reactivity
