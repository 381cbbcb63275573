import Wormbase.Reactivity.OwnState
import Wormbase.Reactivity.Predicates

/-! `StatementToOwnerReactivity`: what a chat message is about is matched to a topic, the topic to its
    owner, and the owner gets a direct message.

    The owner is resolved inside `fire`. The budget of the condition is read, and after a fire charged,
    under the owner that the args of the entry name. -/

namespace Reactivity.StatementToOwner
open Py Registry

/-! ### What a fire finds -/

structure Topic where
  kind : String
  id : UUID
  label : String
  confidence : PyFloat
  domainId : Option UUID

structure Person where
  personId : UUID
  name : String
  platformUserId : Option String

/-- What the entry says: the text, who said it, and where. -/
structure Statement where
  text : String
  senderPerson : Option String
  speakerLabel : String
  channelLabel : String
  ts : String
  seq : ℤ

structure DMRef where
  platform : String
  platformChannelId : String
  platformMessageId : String

/-- A direct message. -/
structure DM where
  ownerId : UUID
  ownerPlatformId : String
  topic : Topic
  statement : Statement
  resources : Dict

/-- What becomes of a message on the wire: a sender can also raise for one that has arrived. -/
structure Sent where
  delivered : Bool
  ref : Except Err DMRef

/-- The fields of the reactivity as they answer to one entry, the write of its proposal, and what the
    clock says to the condition, to `fire` and to the bookkeeping. -/
structure Call where
  active : Bool
  topicExtractor : Option (String → Except Err (Option Topic))
  ownerLookup : Option (Topic → Except Err (Option Person))
  resourceAggregator : Option (Topic → Except Err Dict)
  dmSender : Option Sent
  confidenceThreshold : PyFloat
  conversationId : UUID
  written : Except Err Unit
  now : ℕ → Instant
  fireNow : Instant
  firedAt : Instant
  recorded : Except Err Unit

/-! ### The reactivity -/

def reactivityId : String := "statement_to_owner"

/-- `DailyBudget(per_owner=3, per_domain=10, per_tenant=50)`. -/
def budget : Caps := ⟨some 3, some 10, some 50⟩

/-- `timedelta(hours=4.0)`. -/
def fourHours : ℤ := 4 * 3600000000

def condition : Condition :=
  .and [.and [.dailyBudget budget, .notRecentlyFired "" fourHours], .domainEnabled]

section
variable (py : Interp)

/-- The statement of an entry, unless it has no text. -/
def readStatement (entry : Dict) : Except Err (Option Statement) := do
  let args ← entryArgs entry
  let text := stripText ((Dict.get args "text").text py)
  if text = "" then return none
  else
    let label := ((Dict.get args "sender_label").or (Dict.get args "sender_name")).text py
    let seq ← sourceSeq entry
    return some
      { text
        senderPerson := firstText py args ["sender_person", "sender_person_id"]
        speakerLabel := if label = "" then "(unknown speaker)" else label
        channelLabel := ((Dict.get args "channel_id").or (.str "(unknown channel)")).toStr py
        ts := (Dict.get args "ts").text py
        seq }

/-- A statement with its topic and the owner of that. -/
structure Match where
  statement : Statement
  topic : Topic
  owner : Person

/-- Topic, owner and the guard against self-statements; what raises there counts as not found. -/
def resolve (entry : Dict) (call : Call) : Except Err (Option Match) :=
  match call.topicExtractor, call.ownerLookup with
  | some extract, some lookup => do
    match ← readStatement py entry with
    | none => return none
    | some statement =>
      match extract statement.text with
      | .ok (some topic) =>
        if topic.confidence.lt call.confidenceThreshold then return none
        else
          match lookup topic with
          | .ok (some owner) =>
            if statement.senderPerson = some owner.personId.str then return none
            else return some ⟨statement, topic, owner⟩
          | _ => return none
      | _ => return none
  | _, _ => .ok none

/-- `f"topic:{topic.id}:owner:{owner.person_id}"`. -/
def Match.noveltyKey (m : Match) : String := s!"topic:{m.topic.id.str}:owner:{m.owner.personId.str}"

def Match.budgetUsed (m : Match) : List (String × ℤ) :=
  [("per_owner", 1), ("per_domain", if m.topic.domainId.isSome then 1 else 0), ("per_tenant", 1)]

def Call.resources (call : Call) (topic : Topic) : Dict :=
  match call.resourceAggregator with
  | none => []
  | some aggregate => (aggregate topic).toOption.getD []

/-- The message that arrives, if one does, and the channel that is noted down. -/
def Call.send (call : Call) (m : Match) : List DM × String :=
  match call.dmSender, m.owner.platformUserId with
  | some sent, some platformId =>
    if platformId = "" then ([], s!"unknown:{m.owner.personId.str}")
    else
      (if sent.delivered then
          [⟨m.owner.personId, platformId, m.topic, m.statement, call.resources m.topic⟩] else [],
        match sent.ref with
        | .ok ref =>
          if ref.platform = "" then ref.platformChannelId else s!"{ref.platform}:{ref.platformChannelId}"
        | .error _ => "")
  | _, _ => ([], s!"unknown:{m.owner.personId.str}")

/-- The args of `emit_resource_conversation_proposed`. -/
def payloadArgs (call : Call) (m : Match) (channel : String) : Dict :=
  [(.str "conversation_id", .str call.conversationId.str),
    (.str "topic", .dict
      [(.str "kind", .str m.topic.kind), (.str "id", .str m.topic.id.str), (.str "label", .str m.topic.label),
        (.str "confidence", .float m.topic.confidence),
        (.str "domain_id", match m.topic.domainId with | some d => .str d.str | none => .none)]),
    (.str "owner_id", .str m.owner.personId.str),
    (.str "resources", .dict (call.resources m.topic)),
    (.str "statement_seq", .int m.statement.seq),
    (.str "channel", .str channel)]

/-- What a call of `fire` returns or raises, the messages that have arrived by then, and the args that
    it has written. -/
structure Fire where
  result : Except Err Result
  dms : List DM
  conversations : List Dict

/-- `ReactivityResult(fired=False)`. -/
def Fire.quiet (dms : List DM) : Fire := ⟨.ok ⟨false, "", []⟩, dms, []⟩

def fire (entry : Dict) (call : Call) (s : Stores) : Fire :=
  match resolve py entry call with
  | .error x => ⟨.error x, [], []⟩
  | .ok none => .quiet []
  | .ok (some m) =>
    if novel s reactivityId m.noveltyKey fourHours call.fireNow then
      let sent := call.send m
      -- `statement_seq: int = Field(ge=0)` is the one check that typed values can fail
      if m.statement.seq < 0 then .quiet sent.1
      else
        match call.written with
        | .error x => ⟨.error x, sent.1, []⟩
        | .ok _ => ⟨.ok ⟨true, m.noveltyKey, m.budgetUsed⟩, sent.1, [payloadArgs call m sent.2]⟩
    else .quiet []

def turn (entry : Dict) (call : Call) : Turn where
  id := reactivityId
  active := call.active
  predicate := fun _ => (entryKind "chat_received" entry).map fun matched => (matched, none)
  condition := condition
  fire := fun s => (fire py entry call s).result
  now := call.now
  firedAt := call.firedAt
  write := call.recorded

/-- The messages that have reached owners and the conversations that were proposed. -/
structure Outbox where
  dms : List DM
  conversations : List Dict

abbrev keeper : Keeper Outbox Call where
  id := reactivityId
  turn := fun entry call _ => turn py entry call
  after := fun entry call x s =>
    ⟨x.dms ++ (fire py entry call s).dms, x.conversations ++ (fire py entry call s).conversations⟩
  turn_id := fun _ _ _ => rfl

end

/-- The messages to one owner. -/
def Outbox.toOwner (x : Outbox) (owner : UUID) : ℕ := (x.dms.map DM.ownerId).count owner

/-- The owner can be addressed, and the message arrives. -/
def Call.Delivers (call : Call) (m : Match) : Prop :=
  ∃ sent platformId, call.dmSender = some sent ∧ m.owner.platformUserId = some platformId ∧
    platformId ≠ "" ∧ sent.delivered = true

/-- The readings of the clock that the reactivity goes by fall on a day. -/
def OnDay (D : ℤ) : Binding Call reactivityId → Prop
  | .own call => (∀ i, dayOf (call.now i) = D) ∧ dayOf call.firedAt = D
  | .other _ _ => True

section
variable (py : Interp) (company : UUID)

/-- When the entry is let through and a message about it goes to an owner, the args of the entry name
    that owner, its seq is not negative and the proposal can be written. -/
def Named (entry : Dict) (st : Stores × Outbox) : Binding Call reactivityId → Prop
  | .own call => (turn py entry call).reaches py company entry st.1 = true → ∀ m,
      resolve py entry call = .ok (some m) →
        novel st.1 reactivityId m.noveltyKey fourHours call.fireNow = true → call.Delivers m →
          entryKey py company entry .owner = .ok (some m.owner.personId.str) ∧ 0 ≤ m.statement.seq ∧
            call.written = .ok ()
  | .other _ _ => True

/-- In no run over a sequence of dispatched entries an owner gets more messages than the cap. -/
def CapHolds (s : Stores) (rs : List (Round Call reactivityId)) : Prop :=
  ∀ st', Run.exec ((keeper py).step py company) (s, ⟨[], []⟩) rs = some st' → ∀ owner,
    st'.2.toOwner owner ≤ 3

end

section
variable {py : Interp} {company : UUID} {entry : Dict} {call : Call} {s : Stores}

/-! ### One fire -/

/-- The one message of a match goes to its owner. -/
theorem send_dms (m : Match) :
    (call.send m).1 = [] ∨ call.Delivers m ∧ ∃ dm : DM, dm.ownerId = m.owner.personId ∧ (call.send m).1 = [dm] := by
  unfold Call.send
  cases hsender : call.dmSender with
  | none => exact .inl rfl
  | some sent =>
    cases hplatform : m.owner.platformUserId with
    | none => exact .inl rfl
    | some platformId =>
      by_cases hempty : platformId = ""
      · left
        simp only [hempty, if_true]
      · cases hdelivered : sent.delivered with
        | false =>
          left
          simp [hempty, hdelivered]
        | true =>
          right
          refine ⟨⟨sent, platformId, hsender, hplatform, hempty, hdelivered⟩,
            ⟨m.owner.personId, platformId, m.topic, m.statement, call.resources m.topic⟩, rfl, ?_⟩
          simp [hempty, hdelivered]

/-- What a call of `fire` does: nothing; or it sends and then does not write; or it sends and fires. -/
inductive Did (py : Interp) (entry : Dict) (call : Call) (s : Stores) : Fire → Prop
  | nothing (result : Except Err Result) (hquiet : ∀ r, result = .ok r → r.fired = false) :
      Did py entry call s ⟨result, [], []⟩
  | stopped (m : Match) (result : Except Err Result) (hquiet : ∀ r, result = .ok r → r.fired = false)
      (hresolve : resolve py entry call = .ok (some m))
      (hnovel : novel s reactivityId m.noveltyKey fourHours call.fireNow = true)
      (hstop : m.statement.seq < 0 ∨ call.written ≠ .ok ()) :
      Did py entry call s ⟨result, (call.send m).1, []⟩
  | fired (m : Match) (hresolve : resolve py entry call = .ok (some m))
      (hnovel : novel s reactivityId m.noveltyKey fourHours call.fireNow = true)
      (hseq : 0 ≤ m.statement.seq) (hwritten : call.written = .ok ()) :
      Did py entry call s
        ⟨.ok ⟨true, m.noveltyKey, m.budgetUsed⟩, (call.send m).1, [payloadArgs call m (call.send m).2]⟩

theorem did (py : Interp) (entry : Dict) (call : Call) (s : Stores) :
    Did py entry call s (fire py entry call s) := by
  unfold fire
  cases hresolve : resolve py entry call with
  | error x => exact .nothing _ nofun
  | ok found =>
    cases found with
    | none => exact .nothing _ not_fired
    | some m =>
      simp only
      by_cases hnovel : novel s reactivityId m.noveltyKey fourHours call.fireNow = true
      · rw [if_pos hnovel]
        by_cases hseq : m.statement.seq < 0
        · rw [if_pos hseq]
          exact .stopped m _ not_fired hresolve hnovel (.inl hseq)
        · rw [if_neg hseq]
          cases hwritten : call.written with
          | error x => exact .stopped m _ nofun hresolve hnovel (.inr (by simp [hwritten]))
          | ok u => exact .fired m hresolve hnovel (not_lt.mp hseq) hwritten
      · rw [if_neg hnovel]
        exact .nothing _ not_fired

theorem used_owner (m : Match) : (⟨true, m.noveltyKey, m.budgetUsed⟩ : Result).used .owner = 1 := rfl

/-- A fire always reports 1 for its owner. -/
theorem turn_uses {r : Result} (h : (fire py entry call s).result = .ok r) (hfired : r.fired = true) :
    r.used .owner = 1 := by
  have hdid := did py entry call s
  generalize fire py entry call s = f at h hdid
  cases hdid with
  | nothing result hquiet =>
    rw [hquiet r h] at hfired
    cases hfired
  | stopped m result hquiet hresolve hnovel hstop =>
    rw [hquiet r h] at hfired
    cases hfired
  | fired m hresolve hnovel hseq hwritten =>
    obtain rfl := Except.ok.inj h
    exact used_owner m

theorem requires_budget : Requires budget condition :=
  .conjunct List.mem_cons_self (.conjunct List.mem_cons_self .daily)

/-- A call of `fire` comes after a look at the budget. -/
theorem reaches_asked (h : (turn py entry call).reaches py company entry s = true) :
    ∃ i, dailyAllows py company budget entry s reactivityId (call.now i) = .ok true := by
  obtain ⟨hactive, noveltyKey, n, hpredicate, hallows⟩ := reaches_iff.mp h
  obtain ⟨i, hi⟩ := requires_budget.asked hallows
  exact ⟨i, hi⟩

/-! ### The counters of owners -/

/-- A fire is charged to the owner that the entry names, and to no other. -/
theorem fired_budgets {r : Result} {key : String} {D : ℤ}
    (hreach : (turn py entry call).reaches py company entry s = true)
    (hfire : (fire py entry call s).result = .ok r) (hfired : r.fired = true) :
    s.budgets (reactivityId, .owner, key, D) ≤
        (onFire py company entry s (turn py entry call) r).2.budgets (reactivityId, .owner, key, D) ∧
      (entryKey py company entry .owner = .ok (some key) → dayOf call.firedAt = D →
        s.budgets (reactivityId, .owner, key, D) + 1 ≤
          (onFire py company entry s (turn py entry call) r).2.budgets (reactivityId, .owner, key, D)) := by
  obtain ⟨i, hi⟩ := reaches_asked hreach
  obtain ⟨owner, domain, howner, hdomain⟩ := dailyAllows_read hi
  have hused : r.used .owner = 1 := turn_uses hfire hfired
  rw [onFire_budgets howner hdomain, hused, mul_one]
  refine ⟨by omega, fun hkey hday => ?_⟩
  obtain rfl := Except.ok.inj (howner.symm.trans hkey)
  have hmem : (reactivityId, Axis.owner, key, D) ∈ chargedKeys company (turn py entry call).id
      (dayOf (turn py entry call).firedAt) (some key) domain := by
    simp [chargedKeys, turn, hday]
  have := List.count_pos_iff.mpr hmem
  omega

/-- The counters of owners start at zero and never fall. -/
def Counting (st : Stores × Outbox) : Prop := ∀ key D, 0 ≤ st.1.budgets (reactivityId, .owner, key, D)

theorem counting_kept (entry : Dict) (st : Stores × Outbox) (b : Binding Call (keeper py).id)
    (st' : Stores × Outbox) (h : Counting st) (hkept : Kept py company (keeper py) entry st b st') :
    Counting st' := by
  cases hkept with
  | idle call hreach => exact h
  | quiet call hreach hquiet => exact h
  | fired call r hreach hfire hfired =>
    intro key D
    exact (h key D).trans (fired_budgets hreach hfire hfired).1
  | other t hid =>
    intro key D
    rw [Turn.run_frame t _ fun hk => hid hk.1.symm]
    exact h key D

/-! ### The messages to owners -/

/-- Each owner has got as many messages as were charged, and no more than the cap. -/
def Capped (D : ℤ) (st : Stores × Outbox) : Prop := ∀ owner : UUID,
  (st.2.toOwner owner : ℤ) ≤ st.1.budgets (reactivityId, .owner, owner.str, D) ∧ st.2.toOwner owner ≤ 3

theorem toOwner_append (x : Outbox) (dms : List DM) (cs : List Dict) (owner : UUID) :
    (⟨x.dms ++ dms, cs⟩ : Outbox).toOwner owner = x.toOwner owner + (dms.map DM.ownerId).count owner := by
  simp [Outbox.toOwner]

/-- Messages that are charged to their owners, each below the cap, keep to it. -/
theorem Capped.send {D : ℤ} {st : Stores × Outbox} (h : Capped D st) {s' : Stores} {dms : List DM}
    (cs : List Dict)
    (hcharged : ∀ owner : UUID, st.1.budgets (reactivityId, .owner, owner.str, D) +
      (dms.map DM.ownerId).count owner ≤ s'.budgets (reactivityId, .owner, owner.str, D))
    (hfree : ∀ owner : UUID, (dms.map DM.ownerId).count owner = 0 ∨
      (dms.map DM.ownerId).count owner = 1 ∧ st.1.budgets (reactivityId, .owner, owner.str, D) < 3) :
    Capped D (s', ⟨st.2.dms ++ dms, cs⟩) := by
  intro owner
  obtain ⟨hcount, hcap⟩ := h owner
  have hadd := toOwner_append st.2 dms cs owner
  have hcharge := hcharged owner
  rcases hfree owner with hzero | ⟨hone, hbelow⟩
  · refine ⟨?_, ?_⟩ <;> simp only [hadd] <;> omega
  · refine ⟨?_, ?_⟩ <;> simp only [hadd] <;> omega

/-- A message goes only to the owner that the entry names, and only in a fire. -/
theorem Named.sends {st : Stores × Outbox} (hnamed : Named py company entry st (.own call))
    (hreach : (turn py entry call).reaches py company entry st.1 = true) :
    (fire py entry call st.1).dms = [] ∨ ∃ dm r, (fire py entry call st.1).dms = [dm] ∧
      entryKey py company entry .owner = .ok (some dm.ownerId.str) ∧
        (fire py entry call st.1).result = .ok r ∧ r.fired = true := by
  have hdid := did py entry call st.1
  generalize fire py entry call st.1 = f at hdid ⊢
  cases hdid with
  | nothing result _ => exact .inl rfl
  | stopped m result _ hresolve hnovel hstop =>
    rcases @send_dms call m with hnone | ⟨hdelivers, -⟩
    · exact .inl hnone
    · obtain ⟨-, hseq, hwritten⟩ := hnamed hreach m hresolve hnovel hdelivers
      rcases hstop with hneg | hunwritten
      · exact absurd hseq (not_le.mpr hneg)
      · exact absurd hwritten hunwritten
  | fired m hresolve hnovel hseq hwritten =>
    rcases @send_dms call m with hnone | ⟨hdelivers, dm, howner, hdm⟩
    · exact .inl hnone
    · exact .inr ⟨dm, _, hdm, howner ▸ (hnamed hreach m hresolve hnovel hdelivers).1, rfl, rfl⟩

theorem capped_kept (D : ℤ) (entry : Dict) (st : Stores × Outbox) (b : Binding Call (keeper py).id)
    (st' : Stores × Outbox) (h : Capped D st) (hday : OnDay D b) (hnamed : Named py company entry st b)
    (hkept : Kept py company (keeper py) entry st b st') : Capped D st' := by
  cases hkept with
  | idle call hreach => exact h
  | other t hid =>
    intro owner
    rw [Turn.run_frame t _ fun hk => hid hk.1.symm]
    exact h owner
  | quiet call hreach hquiet =>
    rcases hnamed.sends hreach with hdms | ⟨dm, r, -, -, hresult, hfired⟩
    · refine h.send _ (fun owner => ?_) fun owner => .inl ?_ <;> simp [hdms]
    · rw [hquiet r hresult] at hfired
      cases hfired
  | fired call r hreach hfire hfired =>
    have hbudgets := fun owner : UUID =>
      @fired_budgets py company entry call st.1 r owner.str D hreach hfire hfired
    rcases hnamed.sends hreach with hdms | ⟨dm, -, hdms, hkey, -, -⟩
    · refine h.send _ (fun owner => ?_) fun owner => .inl ?_
      · simpa [hdms] using (hbudgets owner).1
      · simp [hdms]
    · -- the counter of that owner was below the cap, and is charged
      obtain ⟨i, hi⟩ := reaches_asked hreach
      have hbelow := dailyAllows_true hi hkey (show budget.of .owner = some 3 from rfl)
      rw [hday.1 i] at hbelow
      refine h.send _ (fun owner => ?_) fun owner => ?_
      · by_cases howner : dm.ownerId = owner
        · subst howner
          simpa [hdms] using (hbudgets dm.ownerId).2 hkey hday.2
        · simpa [hdms, howner] using (hbudgets owner).1
      · by_cases howner : dm.ownerId = owner
        · subst howner
          exact .inr ⟨by simp [hdms], hbelow⟩
        · exact .inl (by simp [hdms, howner])

end

/-- After any run from a new registry, and over every sequence of entries that are then dispatched on
    one day: if each entry about which an owner gets a message names that owner in its args, and the
    proposal can be written, no owner gets more messages than the cap. -/
theorem named_owners_capped (py : Interp) (company : UUID) (disabled : List String)
    (before rs : List (Round Call reactivityId)) (D : ℤ) (s : Stores) (x : Outbox)
    (hbefore : Run.exec ((keeper py).step py company) (.fresh disabled, ⟨[], []⟩) before = some (s, x))
    (hday : ∀ r ∈ rs, ∀ b ∈ r.bindings, OnDay D b)
    (hnamed : Run.Guarded ((keeper py).step py company)
      (fun st r => (keeper py).Each py company (Named py company) r.entry st r.bindings) (s, ⟨[], []⟩) rs) :
    CapHolds py company s rs := by
  intro st' hrun owner
  have hcounting : Counting (s, x) :=
    rounds_always counting_kept (fun _ _ => le_rfl) hbefore
  have hstart : Capped D (s, ⟨[], []⟩) := fun owner => ⟨hcounting owner.str D, Nat.zero_le 3⟩
  have hend : Capped D st' := rounds_invariant (capped_kept D) hstart hday hnamed hrun
  exact (hend owner).2

/-! ### Statements on one day -/

def carol : Person := ⟨⟨100⟩, "Carol", some "U-CAROL"⟩

/-- A chat message as it is recorded; `named` is what its args have beside the text. -/
def chatReceived (named : Dict) : Dict :=
  [(.str "seq", .int 1), (.str "kind", .str "execute"), (.str "payload", .dict
    [(.str "tool", .str "channel_adapter.emit_chat_received"),
      (.str "args", .dict ((.str "text", .str "our churn is up") :: named))])]

/-- The message is about a topic of Carol's, and everything works. -/
def aboutTopic (id : UUID) : Call where
  active := true
  topicExtractor := some fun _ => .ok (some ⟨"kpi", id, "churn", .exact 1, none⟩)
  ownerLookup := some fun _ => .ok (some carol)
  resourceAggregator := none
  dmSender := some ⟨true, .ok ⟨"slack", "D1", "1"⟩⟩
  confidenceThreshold := .finite false (1 / 2)
  conversationId := ⟨0⟩
  written := .ok ()
  now := fun _ => 0
  fireNow := 0
  firedAt := 0
  recorded := .ok ()

theorem aboutTopic_onDay (id : UUID) : OnDay 0 (.own (aboutTopic id)) := ⟨fun _ => rfl, rfl⟩

/-- One message that names its owner. -/
def namedOwner : List (Round Call reactivityId) :=
  [⟨chatReceived [(.str "owner_id", .str carol.personId.str)], [.own (aboutTopic ⟨1⟩)]⟩]

theorem namedOwner_capped : CapHolds .plain ⟨1⟩ (.fresh []) namedOwner := by
  refine named_owners_capped .plain ⟨1⟩ [] [] namedOwner 0 _ _ rfl ?_ ?_
  · simp only [namedOwner, List.forall_mem_singleton]
    exact aboutTopic_onDay ⟨1⟩
  · refine ⟨⟨fun _ m hm _ _ => ?_, fun _ => trivial⟩, fun _ _ => trivial⟩
    have hresolve : (resolve .plain (chatReceived [(.str "owner_id", .str carol.personId.str)])
      (aboutTopic ⟨1⟩)).toOption.map (fun found => found.map fun m => (m.owner.personId, m.statement.seq)) =
        some (some (carol.personId, 1)) := by decide +kernel
    have hm' : (resolve .plain (chatReceived [(.str "owner_id", .str carol.personId.str)])
      (aboutTopic ⟨1⟩)) = .ok (some m) := hm
    rw [hm'] at hresolve
    obtain ⟨howner, hseq⟩ := Prod.mk.inj (Option.some.inj (Option.some.inj hresolve))
    refine ⟨?_, ?_, rfl⟩
    · rw [howner]
      rfl
    · rw [hseq]
      exact Int.one_nonneg

/-- Four messages about four topics of Carol's. -/
def fourTopics : List (Round Call reactivityId) :=
  [⟨1⟩, ⟨2⟩, ⟨3⟩, ⟨4⟩].map fun id => ⟨chatReceived [], [.own (aboutTopic id)]⟩

/-- No message names its owner, so Carol gets all four. -/
theorem fourTopics_exceed_cap : (∀ r ∈ fourTopics, ∀ b ∈ r.bindings, OnDay 0 b) ∧
    ¬CapHolds .plain ⟨1⟩ (.fresh []) fourTopics := by
  constructor
  · simp only [fourTopics, List.forall_mem_map, List.forall_mem_singleton]
    exact fun id _ => aboutTopic_onDay id
  · intro hcap
    have hfour : (Run.exec ((keeper .plain).step .plain ⟨1⟩) (.fresh [], ⟨[], []⟩) fourTopics).map
        (fun st => st.2.toOwner carol.personId) = some 4 := by decide +kernel
    obtain ⟨st, hst, hcount⟩ := Option.map_eq_some_iff.mp hfour
    have := hcap st hst carol.personId
    omega

end Reactivity.StatementToOwner
