import Wormbase.ChannelAdapter.SessionParser
import Wormbase.Lib.Seen
import Wormbase.ProcessExtractor.Recurring
import Wormbase.Projection.Cycles

/-! `LedgerWriter.emit` of inbound messages: the key of a message is remembered, and then the message is written.

    A key that was remembered for a write that failed swallows the retry. -/

namespace ChannelAdapter
open Py Projection
open ProcessExtractor (ChatReceivedPayload DeliveryMode)

/-! ### The writer -/

/-- The keys of the messages that were emitted, the oldest first. -/
structure LedgerWriter where
  recentChatReceived : List (String × String)

def recentChatReceivedMax : ℕ := 1024

/-- One call of `emit`: its event, the ids that are drawn, and what a failing ledger raises. -/
structure Emit where
  event : ChatReceivedEvent
  refId : UUID
  stamp : Stamp
  failure : Option Err

/-- `dedup_key`. -/
def Emit.key (a : Emit) : String × String := (a.event.channelId, a.event.messageId)

inductive Outcome where
  | skipped
  | written (c : Cycle)
  | raised (x : Err)

section
variable (uuid5 : UUID → String → UUID) (slackUserNamespace : UUID) (isoText : DateTime → String)

/-- `slack_user_to_person_uuid`. -/
def slackUserToPersonUuid (slackUserId : String) : UUID :=
  uuid5 slackUserNamespace (if slackUserId = "" then "__unknown__" else slackUserId)

def validationError : Err := ⟨"ValidationError", "delivery_mode: Input should be 'push' or 'history_sync'"⟩

def deliveryMode (mode : String) : Except Err DeliveryMode :=
  if mode = "push" then .ok .push
  else if mode = "history_sync" then .ok .historySync
  else .error validationError

/-- The validated payload of an event. -/
def chatReceivedPayload (e : ChatReceivedEvent) : Except Err ChatReceivedPayload := do
  let mode ← deliveryMode e.deliveryMode
  pure {
    channelId := e.channelId
    messageId := e.messageId
    senderPerson := slackUserToPersonUuid uuid5 slackUserNamespace e.senderId
    text := e.text
    classification := .internal
    deliveryMode := mode
    platformTs := e.platformTs
    historySyncId := e.historySyncId
    mentionedJids := e.mentionedJids
    platformUserId := if e.senderId = "" then none else some e.senderId }

/-- The cycle of a message. -/
def chatReceivedCycle (a : Emit) (payload : ChatReceivedPayload) : Cycle where
  stamp := { a.stamp with ts := a.event.ts }
  propose := [(.str "target_kind", .str "chat_received"), (.str "ref_id", .str a.refId.str),
    (.str "reason", .str ("slack inbound from " ++
      if a.event.senderLabel = "" then a.event.senderId else a.event.senderLabel)),
    (.str "proposed_by", .str "channel-adapter")]
  execute := [(.str "tool", .str "channel_adapter.emit_chat_received"),
    (.str "args", .dict (payload.modelDump isoText)), (.str "result_ref", .str a.event.messageId)]
  verify := [(.str "checks", .list [.dict [(.str "name", .str "payload_valid"), (.str "ok", .bool true)]]),
    (.str "passed", .bool true)]
  resolve := [(.str "outcome", .str "keep"), (.str "rationale", .str "slack inbound persisted")]

/-- What comes of a message whose key is new. -/
def send (a : Emit) : Outcome :=
  match chatReceivedPayload uuid5 slackUserNamespace a.event with
  | .error x => .raised x
  | .ok payload =>
    match a.failure with
    | some x => .raised x
    | none => .written (chatReceivedCycle isoText a payload)

/-- `_emit_chat_received`. -/
def LedgerWriter.emit (w : LedgerWriter) (a : Emit) : LedgerWriter × Outcome :=
  if a.key ∈ w.recentChatReceived then (w, .skipped)
  else
    let recent := if recentChatReceivedMax ≤ w.recentChatReceived.length then w.recentChatReceived.tail
      else w.recentChatReceived
    (⟨recent ++ [a.key]⟩, send uuid5 slackUserNamespace isoText a)

/-! ### Runs -/

def LedgerWriter.after (w : LedgerWriter) (emits : List Emit) : LedgerWriter :=
  emits.foldl (fun w a => (w.emit uuid5 slackUserNamespace isoText a).1) w

/-- What comes of an emit after others, by a writer that starts with none. -/
def outcome (before : List Emit) (a : Emit) : Outcome :=
  ((LedgerWriter.after uuid5 slackUserNamespace isoText ⟨[]⟩ before).emit uuid5 slackUserNamespace isoText a).2

/-- The cycles that the ledger takes, by a writer that is in some state. -/
def LedgerWriter.cycles (w : LedgerWriter) : List Emit → List Cycle
  | [] => []
  | a :: emits =>
    let r := w.emit uuid5 slackUserNamespace isoText a
    match r.2 with
    | .written c => c :: r.1.cycles emits
    | _ => r.1.cycles emits

/-- The channel and the message that a cycle is about. -/
def chatKey (c : Cycle) : Val × Val :=
  match Dict.get c.execute "args" with
  | .dict args => (Dict.get args "channel_id", Dict.get args "message_id")
  | _ => (.none, .none)

/-! ### What a retry is promised -/

def Outcome.Raised (o : Outcome) : Prop := ∃ x, o = .raised x

/-- No message of a channel is written twice. -/
def WrittenOnce (emits : List Emit) : Prop :=
  ((LedgerWriter.cycles uuid5 slackUserNamespace isoText ⟨[]⟩ emits).map chatKey).Nodup

/-- An event whose emit raised is written by the next emit of the event that does not raise. -/
def RetriesWritten (emits : List Emit) : Prop :=
  ∀ before a mid b rest, emits = before ++ a :: mid ++ b :: rest → a.event = b.event →
    (outcome uuid5 slackUserNamespace isoText before a).Raised →
    (∀ mid₁ c mid₂, mid = mid₁ ++ c :: mid₂ → c.event = a.event →
      (outcome uuid5 slackUserNamespace isoText (before ++ a :: mid₁) c).Raised) →
    ¬(outcome uuid5 slackUserNamespace isoText (before ++ a :: mid) b).Raised →
    ∃ c, outcome uuid5 slackUserNamespace isoText (before ++ a :: mid) b = .written c

/-- The event is valid and the ledger takes it. -/
def Emit.Taken (a : Emit) : Prop := a.event.deliveryMode ∈ ["push", "history_sync"] ∧ a.failure = none

/-- No event is emitted again after the first emit of its key failed. -/
def FirstTaken (emits : List Emit) : Prop :=
  ∀ before a mid b rest, emits = before ++ a :: mid ++ b :: rest → a.event = b.event →
    a.key ∉ before.map Emit.key → a.Taken

end

/-! ### What is remembered -/

section
variable {uuid5 : UUID → String → UUID} {slackUserNamespace : UUID} {isoText : DateTime → String}
  {emits before : List Emit} {a : Emit}

theorem emit_recent (w : LedgerWriter) (a : Emit) : (w.emit uuid5 slackUserNamespace isoText a).1.recentChatReceived =
    Seen.see recentChatReceivedMax w.recentChatReceived a.key := by
  rw [LedgerWriter.emit, Seen.see]
  split <;> rfl

theorem after_snoc : LedgerWriter.after uuid5 slackUserNamespace isoText ⟨[]⟩ (emits ++ [a]) =
    ((LedgerWriter.after uuid5 slackUserNamespace isoText ⟨[]⟩ emits).emit uuid5 slackUserNamespace isoText a).1 := by
  rw [LedgerWriter.after, List.foldl_append]
  rfl

theorem after_recent (emits : List Emit) :
    (LedgerWriter.after uuid5 slackUserNamespace isoText ⟨[]⟩ emits).recentChatReceived =
      Seen.remembered recentChatReceivedMax (emits.map Emit.key) := by
  induction emits using List.reverseRecOn with
  | nil => rfl
  | append_singleton emits a ih =>
    rw [after_snoc, emit_recent, ih, List.map_append, List.map_singleton, Seen.remembered_snoc]

/-- A known key is skipped and a new one is sent, while the keys fit. -/
theorem outcome_eq (h : (before.map Emit.key).dedup.length ≤ recentChatReceivedMax) (a : Emit) :
    outcome uuid5 slackUserNamespace isoText before a =
      if a.key ∈ before.map Emit.key then .skipped else send uuid5 slackUserNamespace isoText a := by
  have hmem := @Seen.mem_remembered _ _ recentChatReceivedMax _ a.key h
  rw [← @after_recent uuid5 slackUserNamespace isoText] at hmem
  rw [outcome, LedgerWriter.emit]
  by_cases hk : a.key ∈ before.map Emit.key
  · rw [if_pos (hmem.mpr hk), if_pos hk]
  · rw [if_neg fun hin => hk (hmem.mp hin), if_neg hk]

theorem deliveryMode_ok (mode : String) : mode ∈ ["push", "history_sync"] ↔ ∃ m, deliveryMode mode = .ok m := by
  by_cases hpush : mode = "push"
  · simp [deliveryMode, hpush]
  · by_cases hsync : mode = "history_sync"
    · simp [deliveryMode, hsync]
    · simp [deliveryMode, hpush, hsync]

/-- A message is written when it is taken, under its own key, and raises otherwise. -/
theorem send_cases (a : Emit) :
    (a.Taken ∧ ∃ c, send uuid5 slackUserNamespace isoText a = .written c ∧
      chatKey c = (.str a.event.channelId, .str a.event.messageId)) ∨
    (¬a.Taken ∧ (send uuid5 slackUserNamespace isoText a).Raised) := by
  rw [Emit.Taken, deliveryMode_ok, send, chatReceivedPayload]
  cases hmode : deliveryMode a.event.deliveryMode with
  | error x => exact .inr ⟨fun h => (nomatch h.1), x, rfl⟩
  | ok mode =>
    cases hfailure : a.failure with
    | some x => exact .inr ⟨fun h => (nomatch h.2), x, rfl⟩
    | none => exact .inl ⟨⟨⟨mode, rfl⟩, rfl⟩, _, rfl, rfl⟩

theorem fits_of_append {emits rest : List Emit} (h : ((emits ++ rest).map Emit.key).dedup.length ≤ recentChatReceivedMax) :
    (emits.map Emit.key).dedup.length ≤ recentChatReceivedMax := by
  refine Nat.le_trans (List.subperm_of_subset (List.nodup_dedup _) fun k hk => ?_).length_le h
  rw [List.mem_dedup] at hk ⊢
  rw [List.map_append]
  exact List.mem_append_left _ hk

/-! ### Once, and again after a failure -/

theorem cycles_snoc (w : LedgerWriter) : ∀ (emits : List Emit) (a : Emit),
    w.cycles uuid5 slackUserNamespace isoText (emits ++ [a]) = w.cycles uuid5 slackUserNamespace isoText emits ++
      match ((w.after uuid5 slackUserNamespace isoText emits).emit uuid5 slackUserNamespace isoText a).2 with
      | .written c => [c]
      | _ => [] := by
  intro emits
  induction emits generalizing w with
  | nil =>
    intro a
    simp only [List.nil_append, LedgerWriter.cycles, LedgerWriter.after, List.foldl_nil]
  | cons b emits ih =>
    intro a
    have hafter : w.after uuid5 slackUserNamespace isoText (b :: emits) =
        (w.emit uuid5 slackUserNamespace isoText b).1.after uuid5 slackUserNamespace isoText emits := rfl
    simp only [List.cons_append, LedgerWriter.cycles, ih, hafter]
    cases (w.emit uuid5 slackUserNamespace isoText b).2 with
    | written c => rfl
    | skipped => rfl
    | raised x => rfl

theorem written_once (h : (emits.map Emit.key).dedup.length ≤ recentChatReceivedMax) :
    WrittenOnce uuid5 slackUserNamespace isoText emits ∧
      ∀ k ∈ (LedgerWriter.cycles uuid5 slackUserNamespace isoText ⟨[]⟩ emits).map chatKey,
        ∃ a ∈ emits, k = (.str a.event.channelId, .str a.event.messageId) := by
  induction emits using List.reverseRecOn with
  | nil => exact ⟨List.nodup_nil, fun _ hk => (nomatch hk)⟩
  | append_singleton emits a ih =>
    have hfits := fits_of_append h
    obtain ⟨honce, hkeys⟩ := ih hfits
    have hout := @outcome_eq uuid5 slackUserNamespace isoText emits hfits a
    rw [outcome] at hout
    rw [WrittenOnce, cycles_snoc, hout]
    by_cases hk : a.key ∈ emits.map Emit.key
    · simp only [if_pos hk, List.append_nil]
      exact ⟨honce, fun k hin => (hkeys k hin).imp fun b hb => ⟨List.mem_append_left _ hb.1, hb.2⟩⟩
    · rw [if_neg hk]
      rcases @send_cases uuid5 slackUserNamespace isoText a with ⟨-, c, hsend, hkey⟩ | ⟨-, x, hsend⟩
      · simp only [hsend, List.map_append, List.map_singleton, hkey]
        have hnew : (Val.str a.event.channelId, Val.str a.event.messageId) ∉
            (LedgerWriter.cycles uuid5 slackUserNamespace isoText ⟨[]⟩ emits).map chatKey := by
          intro hin
          obtain ⟨b, hb, heq⟩ := hkeys _ hin
          obtain ⟨hchannel, hmessage⟩ := Prod.mk.inj heq
          have hsame : b.key = a.key :=
            Prod.ext (Val.str.inj hchannel).symm (Val.str.inj hmessage).symm
          exact hk (hsame ▸ List.mem_map_of_mem hb)
        refine ⟨List.nodup_append.mpr ⟨honce, List.nodup_singleton _, fun x hx y hy => ?_⟩, fun k hin => ?_⟩
        · rw [List.mem_singleton.mp hy]
          rintro rfl
          exact hnew hx
        · rcases List.mem_append.mp hin with hin | hin
          · exact (hkeys k hin).imp fun b hb => ⟨List.mem_append_left _ hb.1, hb.2⟩
          · exact ⟨a, by simp, List.mem_singleton.mp hin⟩
      · simp only [hsend, List.append_nil]
        exact ⟨honce, fun k hin => (hkeys k hin).imp fun b hb => ⟨List.mem_append_left _ hb.1, hb.2⟩⟩

theorem retries_written_iff (h : (emits.map Emit.key).dedup.length ≤ recentChatReceivedMax) :
    RetriesWritten uuid5 slackUserNamespace isoText emits ↔ FirstTaken emits := by
  constructor
  · intro hretry before a mid b rest hsplit hevent hnew
    rcases @send_cases uuid5 slackUserNamespace isoText a with ⟨htaken, -⟩ | ⟨-, hraised⟩
    · exact htaken
    · -- the first emit of the event after the failure is skipped
      exfalso
      obtain ⟨mid₁, c, mid₂, hrest, hc, hnone⟩ := Seen.exists_first (P := fun c : Emit => c.event = a.event)
        ⟨b, List.mem_append_right mid List.mem_cons_self, hevent.symm⟩
      have hemits : emits = before ++ a :: mid₁ ++ c :: mid₂ := by
        rw [hsplit, List.append_assoc, List.cons_append, hrest, List.append_assoc, List.cons_append]
      have hbefore : (before.map Emit.key).dedup.length ≤ recentChatReceivedMax :=
        @fits_of_append before (a :: mid₁ ++ c :: mid₂) (by rw [← List.append_assoc, ← hemits]; exact h)
      have hmid : ((before ++ a :: mid₁).map Emit.key).dedup.length ≤ recentChatReceivedMax :=
        @fits_of_append (before ++ a :: mid₁) (c :: mid₂) (hemits ▸ h)
      have hfirst := @outcome_eq uuid5 slackUserNamespace isoText before hbefore a
      have hagain := @outcome_eq uuid5 slackUserNamespace isoText (before ++ a :: mid₁) hmid c
      have hkey : c.key = a.key := by rw [Emit.key, Emit.key, hc]
      rw [if_neg hnew] at hfirst
      rw [if_pos (by rw [hkey]; simp)] at hagain
      obtain ⟨cycle, hwritten⟩ := hretry before a mid₁ c mid₂ hemits hc.symm (hfirst ▸ hraised)
        (fun m₁ d m₂ hm hd => absurd hd (hnone d (by simp [hm]))) (by rw [hagain]; rintro ⟨x, hx⟩; cases hx)
      rw [hagain] at hwritten
      cases hwritten
  · rintro hfirst before a mid b rest rfl hevent ⟨x, hraised⟩ - -
    have hbefore : (before.map Emit.key).dedup.length ≤ recentChatReceivedMax :=
      @fits_of_append before (a :: mid ++ b :: rest) (by rwa [← List.append_assoc])
    rw [outcome_eq hbefore] at hraised
    by_cases hk : a.key ∈ before.map Emit.key
    · rw [if_pos hk] at hraised
      cases hraised
    · rw [if_neg hk] at hraised
      have htaken := hfirst before a mid b rest rfl hevent hk
      rcases @send_cases uuid5 slackUserNamespace isoText a with ⟨-, c, hsend, -⟩ | ⟨hnot, -⟩
      · rw [hsend] at hraised
        cases hraised
      · exact absurd htaken hnot

/-- With no more keys than are remembered, every message is written once at most; and a retry is written exactly
    when no event comes again after the first emit of its key failed. -/
theorem retry_safe_iff (emits : List Emit) (h : (emits.map Emit.key).dedup.length ≤ recentChatReceivedMax) :
    (WrittenOnce uuid5 slackUserNamespace isoText emits ∧ RetriesWritten uuid5 slackUserNamespace isoText emits) ↔
      FirstTaken emits := by
  rw [← retries_written_iff h]
  exact and_iff_right (written_once h).1

end

/-! ### A retry -/

def hello : ChatReceivedEvent where
  sessionId := "s-1"
  eventId := "e-1"
  ts := instantStamp.ts
  channelId := "channel:C1"
  messageId := "1777152782.692639"
  senderId := "U1"
  senderLabel := "Ada"
  text := "hello"
  conversationLabel := "#general"
  deliveryMode := "push"
  platformTs := none
  historySyncId := none
  mentionedJids := none

/-- An emit of it, with a ledger that fails or does not. -/
def helloEmit (failure : Option Err) : Emit := ⟨hello, ⟨9⟩, instantStamp, failure⟩

def ledgerDown : Err := ⟨"OperationalError", "connection refused"⟩

theorem twice_emitted : (WrittenOnce (fun ns _ => ns) ⟨1⟩ DateTime.isoformat [helloEmit none, helloEmit none] ∧
    RetriesWritten (fun ns _ => ns) ⟨1⟩ DateTime.isoformat [helloEmit none, helloEmit none]) ↔
      FirstTaken [helloEmit none, helloEmit none] :=
  retry_safe_iff [helloEmit none, helloEmit none] (by decide)

/-- The retry of an event whose write failed is swallowed. -/
theorem retry_swallowed : ¬∀ (uuid5 : UUID → String → UUID) (ns : UUID) (isoText : DateTime → String)
    (emits : List Emit), (emits.map Emit.key).dedup.length ≤ recentChatReceivedMax →
    WrittenOnce uuid5 ns isoText emits ∧ RetriesWritten uuid5 ns isoText emits := by
  intro h
  have hfits : ([helloEmit (some ledgerDown), helloEmit none].map Emit.key).dedup.length ≤ recentChatReceivedMax := by
    decide
  have hretries := (h (fun ns _ => ns) ⟨1⟩ DateTime.isoformat _ hfits).2
  have htaken := (retries_written_iff hfits).mp hretries [] (helloEmit (some ledgerDown)) [] (helloEmit none) [] rfl rfl
    (fun hin => nomatch hin)
  exact nomatch htaken.2

end ChannelAdapter
