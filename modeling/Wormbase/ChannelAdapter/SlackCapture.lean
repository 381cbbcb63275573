import Wormbase.ChannelAdapter.LedgerWriter
import Mathlib.Data.String.Basic

/-! `GlobalLogCapture`: an admitted channel makes its latest message an entry of the ledger, and each of its files.

    One timestamp for a channel tells what has been seen. It is put back by an own message that is older, and it moves
    past a message whose write failed. -/

namespace ChannelAdapter
open Py Projection
open ProcessExtractor (ChatReceivedPayload)

/-! ### The capture -/

/-- What `fetch_latest_message` comes back with. -/
inductive Fetched where
  | raised (x : Err)
  | nothing
  | message (msg : Dict)

/-- One admit: what is fetched, what the writes draw, and which of them the ledger fails; 0 is the chat, and `k + 1`
    the file at `k`. -/
structure Admit where
  channelId : String
  fetched : Fetched
  refId : ℕ → UUID
  stamp : ℕ → Stamp
  failure : ℕ → Option Err

/-- A message with a timestamp is fetched. -/
def Admit.Gets (a : Admit) (ts : String) (msg : Dict) : Prop :=
  a.fetched = .message msg ∧ msg.get "ts" = .str ts ∧ ts ≠ ""

structure SlackClient where
  botId : Option String
  botUserId : Option String

structure GlobalLogCapture where
  lastTs : String → Option String
  emittedFiles : List (String × String × String)
  written : List Cycle

namespace GlobalLogCapture

def start : GlobalLogCapture := ⟨fun _ => none, [], []⟩

section
variable (py : Interp) (uuid5 : UUID → String → UUID) (slackUserNamespace : UUID) (isoText : DateTime → String)
  (slack : SlackClient)

def senderPerson (msg : Dict) : UUID :=
  slackUserToPersonUuid uuid5 slackUserNamespace
    ((((msg.get "user").or (msg.get "bot_id")).or (.str "")).toStr py)

def passedCheck (name : String) : Dict :=
  [(.str "checks", .list [.dict [(.str "name", .str name), (.str "ok", .bool true)]]), (.str "passed", .bool true)]

/-- The cycle of a chat message. -/
def chatCycle (a : Admit) (ts : String) (msg : Dict) (payload : ChatReceivedPayload) : Cycle where
  stamp := a.stamp 0
  propose := [(.str "target_kind", .str "chat_received"), (.str "ref_id", .str (a.refId 0).str),
    (.str "reason", .str ("openclaw log: allow channel " ++ a.channelId ++ " (slack user " ++
      ((((msg.get "user").or (msg.get "bot_id")).or (.str "")).or (.str "?")).toStr py ++ ")")),
    (.str "proposed_by", .str "channel-adapter.openclaw-log")]
  execute := [(.str "tool", .str "channel_adapter.emit_chat_received"),
    (.str "args", .dict (payload.modelDump isoText)), (.str "result_ref", .str ts)]
  verify := passedCheck "payload_valid"
  resolve := [(.str "outcome", .str "keep"), (.str "rationale", .str "openclaw-log path captured inbound")]

/-- The payload of a chat message with a text. -/
def chatPayload (a : Admit) (ts : String) (msg : Dict) (text : String) : ChatReceivedPayload where
  channelId := a.channelId
  messageId := ts
  senderPerson := senderPerson py uuid5 slackUserNamespace msg
  text := text
  classification := .internal

/-- `_emit_chat_received`: a text that is none is not valid, and a failing write is logged. -/
def emitChatReceived (s : GlobalLogCapture) (a : Admit) (ts : String) (msg : Dict) : GlobalLogCapture :=
  match (msg.get "text").or (.str ""), a.failure 0 with
  | .str text, none => { s with written := s.written ++
      [chatCycle py isoText a ts msg (chatPayload py uuid5 slackUserNamespace a ts msg text)] }
  | _, _ => s

/-- A value that is a string, or `None`. -/
def strOrNone : Val → Val
  | .str s => .str s
  | _ => .none

def fileSize : Val → Except Err Val
  | .int i => .ok (.int i)
  | .bool b => .ok (.bool b)
  | .float x => (Val.toInt (.float x)).map .int
  | _ => .ok .none

/-- The cycle of a file. -/
def fileCycle (a : Admit) (k : ℕ) (ts slackFileId : String) (msg file : Dict) (size : Val) : Cycle where
  stamp := a.stamp (k + 1)
  propose := [(.str "target_kind", .str "file_received"), (.str "ref_id", .str (a.refId (k + 1)).str),
    (.str "reason", .str ("openclaw log: file_share channel=" ++ a.channelId ++ " file=" ++ slackFileId)),
    (.str "proposed_by", .str "channel-adapter.openclaw-log")]
  execute := [(.str "tool", .str "channel_adapter.emit_file_received"),
    (.str "args", .dict [(.str "channel_id", .str a.channelId), (.str "message_id", .str ts),
      (.str "sender_person", .str (senderPerson py uuid5 slackUserNamespace msg).str),
      (.str "slack_file_id", .str slackFileId), (.str "file_name", strOrNone (file.get "name")),
      (.str "mimetype", strOrNone (file.get "mimetype")), (.str "file_size", size),
      (.str "url_private", strOrNone (file.get "url_private")), (.str "classification", .str "internal"),
      (.str "caption_text", ((msg.get "text").or (.str "")).or .none)]),
    (.str "result_ref", .str slackFileId)]
  verify := passedCheck "file_meta_present"
  resolve := [(.str "outcome", .str "keep"), (.str "rationale", .str "openclaw-log path captured file drop")]

/-- `_emit_file_received`. -/
def emitFileReceived (s : GlobalLogCapture) (a : Admit) (k : ℕ) (ts : String) (msg file : Dict) :
    Except Err GlobalLogCapture :=
  match file.get "id" with
  | .str id =>
    if id = "" ∨ (a.channelId, ts, id) ∈ s.emittedFiles then .ok s
    else do
      let size ← fileSize (file.get "size")
      match a.failure (k + 1) with
      | some _ => .ok s
      | none => .ok { s with
          written := s.written ++ [fileCycle py uuid5 slackUserNamespace a k ts id msg file size]
          emittedFiles := s.emittedFiles ++ [(a.channelId, ts, id)] }
  | _ => .ok s

/-- The files of a message from the `k`th on, and what is raised on the way. -/
def emitFiles (a : Admit) (ts : String) (msg : Dict) : GlobalLogCapture → ℕ → List Val → GlobalLogCapture × Option Err
  | s, _, [] => (s, none)
  | s, k, .dict file :: files =>
    match emitFileReceived py uuid5 slackUserNamespace s a k ts msg file with
    | .ok s => emitFiles a ts msg s (k + 1) files
    | .error x => (s, some x)
  | s, k, _ :: files => emitFiles a ts msg s (k + 1) files

/-- `is_self_echo_chat`. -/
def isSelfEcho (msg : Dict) : Bool :=
  (slack.botId.any fun id => (msg.get "bot_id").isText id) ||
    slack.botUserId.any fun id => (msg.get "user").isText id

def filesOf (msg : Dict) : List Val :=
  match msg.get "files" with
  | .list files => files
  | _ => []

def setLastTs (s : GlobalLogCapture) (channelId ts : String) : GlobalLogCapture :=
  { s with lastTs := Function.update s.lastTs channelId (some ts) }

/-- A message that carries a timestamp. -/
def capture (s : GlobalLogCapture) (a : Admit) (ts : String) (msg : Dict) : GlobalLogCapture × Option Err :=
  let last := s.lastTs a.channelId
  let alreadySeen := last.any (ts ≤ ·)
  let seen :=
    if !alreadySeen && !isSelfEcho slack msg then
      emitChatReceived py uuid5 slackUserNamespace isoText s a ts msg
    else if isSelfEcho slack msg then s.setLastTs a.channelId ts
    else s
  let r := emitFiles py uuid5 slackUserNamespace a ts msg seen 0 (filesOf msg)
  match r.2 with
  | some x => (r.1, some x)
  | none => (if alreadySeen then r.1 else r.1.setLastTs a.channelId ts, none)

/-- `on_channel_admit`. -/
def onChannelAdmit (s : GlobalLogCapture) (a : Admit) : GlobalLogCapture × Option Err :=
  match a.fetched with
  | .message msg =>
    match msg.get "ts" with
    | .str ts => if ts = "" then (s, none) else capture py uuid5 slackUserNamespace isoText slack s a ts msg
    | _ => (s, none)
  | _ => (s, none)

def after (admits : List Admit) : GlobalLogCapture :=
  admits.foldl (fun s a => (onChannelAdmit py uuid5 slackUserNamespace isoText slack s a).1) start

/-! ### What is captured -/

def argsOf (c : Cycle) : Dict :=
  match Dict.get c.execute "args" with
  | .dict args => args
  | _ => []

def hasTool (tool : String) (c : Cycle) : Bool := (Dict.get c.execute "tool").isText tool

/-- The channels and timestamps of the chat entries. -/
def chatsOf (written : List Cycle) : List (Val × Val) :=
  (written.filter (hasTool "channel_adapter.emit_chat_received")).map chatKey

def chats (s : GlobalLogCapture) : List (Val × Val) := chatsOf s.written

/-- The channels, timestamps and file ids of the file entries. -/
def fileEntries (s : GlobalLogCapture) : List (Val × Val × Val) :=
  (s.written.filter (hasTool "channel_adapter.emit_file_received")).map fun c =>
    (Dict.get (argsOf c) "channel_id", Dict.get (argsOf c) "message_id", Dict.get (argsOf c) "slack_file_id")

/-- A later state remembers no earlier timestamp. -/
def NoEarlier (s s' : GlobalLogCapture) : Prop :=
  ∀ channelId last, s.lastTs channelId = some last → ∃ last', s'.lastTs channelId = some last' ∧ last ≤ last'

/-- The write of the chat message is attempted and fails. -/
def ChatFails (s : GlobalLogCapture) (a : Admit) (ts : String) (msg : Dict) : Prop :=
  ((s.lastTs a.channelId).any (ts ≤ ·)) = false ∧ isSelfEcho slack msg = false ∧
    (∃ text, (msg.get "text").or (.str "") = .str text) ∧ a.failure 0 ≠ none

/-- Every message and file is captured once at most, no timestamp is put back, and what the ledger failed to take is
    written when it is fetched again. -/
structure ExactlyOnce (admits : List Admit) : Prop where
  chats : (after py uuid5 slackUserNamespace isoText slack admits).chats.Nodup
  files : (after py uuid5 slackUserNamespace isoText slack admits).fileEntries.Nodup
  forward : ∀ before a rest, admits = before ++ a :: rest →
    NoEarlier (after py uuid5 slackUserNamespace isoText slack before)
      (after py uuid5 slackUserNamespace isoText slack (before ++ [a]))
  chatAgain : ∀ before a mid b rest ts msg, admits = before ++ a :: mid ++ b :: rest → a.channelId = b.channelId →
    a.Gets ts msg → b.Gets ts msg →
    ChatFails slack (after py uuid5 slackUserNamespace isoText slack before) a ts msg → b.failure 0 = none →
    (.str a.channelId, .str ts) ∈
      (after py uuid5 slackUserNamespace isoText slack (before ++ a :: mid ++ [b])).chats
  fileAgain : ∀ before a mid b rest ts msg k file id, admits = before ++ a :: mid ++ b :: rest →
    a.channelId = b.channelId → a.Gets ts msg → b.Gets ts msg → (filesOf msg)[k]? = some (.dict file) →
    Dict.get file "id" = .str id → id ≠ "" → a.failure (k + 1) ≠ none → b.failure (k + 1) = none →
    (.str a.channelId, .str ts, .str id) ∈
      (after py uuid5 slackUserNamespace isoText slack (before ++ a :: mid ++ [b])).fileEntries

/-- An own message is no older than what is remembered, the ledger takes a new message of another sender, and the
    size of a file is no float without an integer part. -/
structure Sound (s : GlobalLogCapture) (a : Admit) : Prop where
  own : ∀ ts msg last, a.Gets ts msg → isSelfEcho slack msg = true → s.lastTs a.channelId = some last → last ≤ ts
  chat : ∀ ts msg, a.Gets ts msg → ¬ChatFails slack s a ts msg
  sizes : ∀ ts msg, a.Gets ts msg → ∀ file, .dict file ∈ filesOf msg → ∃ size, fileSize (Dict.get file "size") = .ok size

def SoundRun (admits : List Admit) : Prop := ∀ before a rest, admits = before ++ a :: rest →
  Sound slack (after py uuid5 slackUserNamespace isoText slack before) a

end

/-! ### One admit -/

section
variable {py : Interp} {uuid5 : UUID → String → UUID} {slackUserNamespace : UUID} {isoText : DateTime → String}
  {slack : SlackClient} {s s' : GlobalLogCapture} {a : Admit} {ts : String} {msg : Dict}

/-- What is remembered is what is in the ledger. -/
structure Held (s : GlobalLogCapture) : Prop where
  files : s.fileEntries = s.emittedFiles.map fun key => (.str key.1, .str key.2.1, .str key.2.2)
  emitted : s.emittedFiles.Nodup
  chats : s.chats.Nodup

/-- The remembered timestamps are past all chat entries. -/
def Remembered (s : GlobalLogCapture) : Prop :=
  ∀ channelId ts, (.str channelId, .str ts) ∈ s.chats → ∃ last, s.lastTs channelId = some last ∧ ts ≤ last

theorem chatsOf_append (written : List Cycle) (c : Cycle) : chatsOf (written ++ [c]) =
    chatsOf written ++ if hasTool "channel_adapter.emit_chat_received" c then [chatKey c] else [] := by
  simp only [chatsOf, List.filter_append, List.map_append, List.filter_cons, List.filter_nil]
  split <;> rfl

/-- A file leaves the chats and the timestamps alone. -/
theorem emitFileReceived_spec {k : ℕ} {file : Dict}
    (h : emitFileReceived py uuid5 slackUserNamespace s a k ts msg file = .ok s') :
    s'.lastTs = s.lastTs ∧ s'.chats = s.chats ∧ s.emittedFiles ⊆ s'.emittedFiles ∧
    (Held s → Held s') ∧ ∀ id, Dict.get file "id" = .str id → id ≠ "" → a.failure (k + 1) = none →
      (a.channelId, ts, id) ∈ s'.emittedFiles := by
  rw [emitFileReceived] at h
  split at h
  · rename_i id hid
    split at h
    · rename_i hknown
      obtain rfl := Except.ok.inj h
      refine ⟨rfl, rfl, List.Subset.refl _, fun hs => hs, fun id' hid' hne _ => ?_⟩
      obtain rfl := Val.str.inj (hid.symm.trans hid')
      exact hknown.resolve_left hne
    · rename_i hnew
      obtain ⟨size, hsize, h⟩ := bind_eq_ok.mp h
      split at h
      · rename_i x hx
        obtain rfl := Except.ok.inj h
        exact ⟨rfl, rfl, List.Subset.refl _, fun hs => hs, fun _ _ _ hnone => by rw [hx] at hnone; cases hnone⟩
      · obtain rfl := Except.ok.inj h
        have hchats : GlobalLogCapture.chats { s with
            written := s.written ++ [fileCycle py uuid5 slackUserNamespace a k ts id msg file size]
            emittedFiles := s.emittedFiles ++ [(a.channelId, ts, id)] } = s.chats := by
          have htool : hasTool "channel_adapter.emit_chat_received"
              (fileCycle py uuid5 slackUserNamespace a k ts id msg file size) = false := rfl
          rw [chats, chatsOf_append, htool]
          exact List.append_nil _
        refine ⟨rfl, hchats, List.subset_append_left _ _, fun hs => ?_, fun id' hid' _ _ => ?_⟩
        · have hfresh : (a.channelId, ts, id) ∉ s.emittedFiles := fun hin => hnew (.inr hin)
          refine ⟨?_, ?_, by rw [hchats]; exact hs.chats⟩
          · have htool : hasTool "channel_adapter.emit_file_received"
                (fileCycle py uuid5 slackUserNamespace a k ts id msg file size) = true := rfl
            rw [List.map_append, ← hs.files]
            simp only [fileEntries, List.filter_append, List.map_append, List.filter_cons, htool, if_true,
              List.filter_nil]
            rfl
          · exact List.nodup_append.mpr ⟨hs.emitted, List.nodup_singleton _, fun x hx y hy => by
              rw [List.mem_singleton.mp hy]
              rintro rfl
              exact hfresh hx⟩
        · obtain rfl := Val.str.inj (hid.symm.trans hid')
          simp
  · rename_i hno
    obtain rfl := Except.ok.inj h
    exact ⟨rfl, rfl, List.Subset.refl _, fun hs => hs, fun id hid => absurd hid (hno id)⟩

theorem emitFiles_spec : ∀ (files : List Val) (s : GlobalLogCapture) (k : ℕ),
    (∀ file, .dict file ∈ files → ∃ size, fileSize (Dict.get file "size") = .ok size) →
    (emitFiles py uuid5 slackUserNamespace a ts msg s k files).2 = none ∧
    (emitFiles py uuid5 slackUserNamespace a ts msg s k files).1.lastTs = s.lastTs ∧
    (emitFiles py uuid5 slackUserNamespace a ts msg s k files).1.chats = s.chats ∧
    s.emittedFiles ⊆ (emitFiles py uuid5 slackUserNamespace a ts msg s k files).1.emittedFiles ∧
    (Held s → Held (emitFiles py uuid5 slackUserNamespace a ts msg s k files).1) ∧
    ∀ j file id, files[j]? = some (.dict file) → Dict.get file "id" = .str id → id ≠ "" →
      a.failure (k + j + 1) = none →
      (a.channelId, ts, id) ∈ (emitFiles py uuid5 slackUserNamespace a ts msg s k files).1.emittedFiles := by
  intro files
  induction files with
  | nil => exact fun s k _ => ⟨rfl, rfl, rfl, List.Subset.refl _, fun h => h, fun _ _ _ h => (nomatch h)⟩
  | cons v files ih =>
    intro s k hsizes
    have hrest : ∀ file, .dict file ∈ files → ∃ size, fileSize (Dict.get file "size") = .ok size :=
      fun file hfile => hsizes file (List.mem_cons_of_mem v hfile)
    cases v with
    | dict file =>
      obtain ⟨size, hsize⟩ := hsizes file List.mem_cons_self
      obtain ⟨t, ht⟩ : ∃ t, emitFileReceived py uuid5 slackUserNamespace s a k ts msg file = .ok t := by
        rw [emitFileReceived]
        split
        · split
          · exact ⟨_, rfl⟩
          · simp only [hsize, bind, Except.bind]
            split <;> exact ⟨_, rfl⟩
        · exact ⟨_, rfl⟩
      obtain ⟨hlast, hchats, hmore, hheld, hown⟩ := emitFileReceived_spec ht
      obtain ⟨hnone, hlast', hchats', hmore', hheld', hown'⟩ := ih t (k + 1) hrest
      simp only [emitFiles, ht]
      refine ⟨hnone, hlast'.trans hlast, hchats'.trans hchats, List.Subset.trans hmore hmore', fun hs => hheld' (hheld hs), ?_⟩
      rintro (_ | j) file' id hj hid hne hfailure
      · obtain rfl := Val.dict.inj (Option.some.inj hj)
        exact hmore' (hown id hid hne hfailure)
      · exact hown' j file' id hj hid hne (by rwa [Nat.add_right_comm k 1 j])
    | _ =>
      obtain ⟨hnone, hlast', hchats', hmore', hheld', hown'⟩ := ih s (k + 1) hrest
      simp only [emitFiles]
      refine ⟨hnone, hlast', hchats', hmore', hheld', ?_⟩
      rintro (_ | j) file' id hj hid hne hfailure
      · cases Option.some.inj hj
      · exact hown' j file' id hj hid hne (by rwa [Nat.add_right_comm k 1 j])

theorem emitChatReceived_spec (s : GlobalLogCapture) (a : Admit) (ts : String) (msg : Dict) :
    (emitChatReceived py uuid5 slackUserNamespace isoText s a ts msg).lastTs = s.lastTs ∧
    (emitChatReceived py uuid5 slackUserNamespace isoText s a ts msg).emittedFiles = s.emittedFiles ∧
    (emitChatReceived py uuid5 slackUserNamespace isoText s a ts msg).fileEntries = s.fileEntries ∧
    ((emitChatReceived py uuid5 slackUserNamespace isoText s a ts msg).chats = s.chats ∨
      (emitChatReceived py uuid5 slackUserNamespace isoText s a ts msg).chats =
        s.chats ++ [(.str a.channelId, .str ts)]) := by
  rw [emitChatReceived]
  split
  · rename_i text _ _
    generalize hc : chatCycle py isoText a ts msg (chatPayload py uuid5 slackUserNamespace a ts msg text) = c
    have hchat : hasTool "channel_adapter.emit_chat_received" c = true := by rw [← hc]; rfl
    have hfile : hasTool "channel_adapter.emit_file_received" c = false := by rw [← hc]; rfl
    have hkey : chatKey c = (.str a.channelId, .str ts) := by rw [← hc]; rfl
    refine ⟨rfl, rfl, ?_, .inr ?_⟩
    · simp [fileEntries, hfile]
    · rw [chats, chatsOf_append, hchat, hkey]
      rfl
  · exact ⟨rfl, rfl, rfl, .inl rfl⟩

/-- What becomes of a message, when the sizes of its files can be read. -/
structure Captured (s s' : GlobalLogCapture) (a : Admit) (ts : String) (msg : Dict) (alreadySeen own : Bool) : Prop where
  lastTs : s'.lastTs =
    if alreadySeen && !own then s.lastTs else Function.update s.lastTs a.channelId (some ts)
  chats : s'.chats = s.chats ∨
    alreadySeen = false ∧ own = false ∧ s'.chats = s.chats ++ [(.str a.channelId, .str ts)]
  held : Held s → ((.str a.channelId, .str ts) ∈ s.chats → alreadySeen = true) → Held s'
  files : ∀ k file id, (filesOf msg)[k]? = some (.dict file) → Dict.get file "id" = .str id → id ≠ "" →
    a.failure (k + 1) = none → (a.channelId, ts, id) ∈ s'.emittedFiles

theorem capture_spec (s : GlobalLogCapture) (a : Admit) (ts : String) (msg : Dict)
    (hsizes : ∀ file, .dict file ∈ filesOf msg → ∃ size, fileSize (Dict.get file "size") = .ok size) :
    Captured s (capture py uuid5 slackUserNamespace isoText slack s a ts msg).1 a ts msg
      ((s.lastTs a.channelId).any (ts ≤ ·)) (isSelfEcho slack msg) := by
  rw [capture]
  generalize (s.lastTs a.channelId).any (ts ≤ ·) = alreadySeen
  generalize isSelfEcho slack msg = own
  -- the state in which the files are gone through
  obtain ⟨t, ht, hlast, hchats, hheld⟩ : ∃ t : GlobalLogCapture,
      (if !alreadySeen && !own then emitChatReceived py uuid5 slackUserNamespace isoText s a ts msg
        else if own then s.setLastTs a.channelId ts else s) = t ∧
      (t.lastTs = if own then Function.update s.lastTs a.channelId (some ts) else s.lastTs) ∧
      (t.chats = s.chats ∨
        alreadySeen = false ∧ own = false ∧ t.chats = s.chats ++ [(.str a.channelId, .str ts)]) ∧
      (Held s → ((.str a.channelId, .str ts) ∈ s.chats → alreadySeen = true) → Held t) := by
    refine ⟨_, rfl, ?_⟩
    cases alreadySeen with
    | true =>
      cases own with
      | true => exact ⟨rfl, .inl rfl, fun hs _ => ⟨hs.files, hs.emitted, hs.chats⟩⟩
      | false => exact ⟨rfl, .inl rfl, fun hs _ => hs⟩
    | false =>
      cases own with
      | true => exact ⟨rfl, .inl rfl, fun hs _ => ⟨hs.files, hs.emitted, hs.chats⟩⟩
      | false =>
        obtain ⟨hlast, hemitted, hfiles, hchats⟩ :=
          @emitChatReceived_spec py uuid5 slackUserNamespace isoText s a ts msg
        refine ⟨hlast, hchats.imp_right fun h => ⟨rfl, rfl, h⟩, fun hs hnew => ?_⟩
        refine ⟨hfiles.trans (hs.files.trans (by rw [← hemitted]; rfl)), hemitted ▸ hs.emitted, ?_⟩
        have hfresh : (Val.str a.channelId, Val.str ts) ∉ s.chats := fun hin => nomatch hnew hin
        rcases hchats with h | h
        · exact h ▸ hs.chats
        · have hnodup : (s.chats ++ [(Val.str a.channelId, Val.str ts)]).Nodup :=
            List.nodup_append.mpr ⟨hs.chats, List.nodup_singleton _, fun x hx y hy => by
              rw [List.mem_singleton.mp hy]
              rintro rfl
              exact hfresh hx⟩
          exact h ▸ hnodup
  obtain ⟨hnone, hlast', hchats', -, hheld', hfiles'⟩ :=
    @emitFiles_spec py uuid5 slackUserNamespace a ts msg (filesOf msg) t 0 hsizes
  simp only [ht, hnone]
  generalize (emitFiles py uuid5 slackUserNamespace a ts msg t 0 (filesOf msg)).1 = u at *
  cases alreadySeen with
  | true =>
    refine ⟨?_, ?_, fun hs hnew => hheld' (hheld hs hnew), fun k file id hk hid hne hfailure =>
      hfiles' k file id hk hid hne (by rwa [Nat.zero_add])⟩
    · simp only [if_true, hlast', hlast, Bool.true_and]
      cases own <;> rfl
    · exact .inl (hchats'.trans (hchats.resolve_right fun h => nomatch h.1))
  | false =>
    refine ⟨?_, ?_, fun hs hnew => ?_, fun k file id hk hid hne hfailure =>
      hfiles' k file id hk hid hne (by rwa [Nat.zero_add])⟩
    · simp only [setLastTs, hlast', hlast, Bool.false_and]
      cases own with
      | true => exact Function.update_idem ..
      | false => rfl
    · exact hchats.imp hchats'.trans fun ⟨hseen, hown, h⟩ => ⟨hseen, hown, hchats'.trans h⟩
    · have hu := hheld' (hheld hs hnew)
      exact ⟨hu.files, hu.emitted, hu.chats⟩

/-- A sound admit keeps what is remembered, and puts no timestamp back. -/
theorem admit_spec (hs : Held s) (hrem : Remembered s) (h : Sound slack s a) :
    Held (onChannelAdmit py uuid5 slackUserNamespace isoText slack s a).1 ∧
    Remembered (onChannelAdmit py uuid5 slackUserNamespace isoText slack s a).1 ∧
    NoEarlier s (onChannelAdmit py uuid5 slackUserNamespace isoText slack s a).1 ∧
    ∀ ts msg k file id, a.Gets ts msg → (filesOf msg)[k]? = some (.dict file) → Dict.get file "id" = .str id →
      id ≠ "" → a.failure (k + 1) = none →
      (a.channelId, ts, id) ∈ (onChannelAdmit py uuid5 slackUserNamespace isoText slack s a).1.emittedFiles := by
  by_cases hgets : ∃ ts msg, a.Gets ts msg
  · obtain ⟨ts, msg, hgets⟩ := hgets
    have hstep : onChannelAdmit py uuid5 slackUserNamespace isoText slack s a =
        capture py uuid5 slackUserNamespace isoText slack s a ts msg := by
      simp only [onChannelAdmit, hgets.1, hgets.2.1, hgets.2.2, if_false]
    obtain ⟨hlast, hchats, hheld, hfiles⟩ :=
      @capture_spec py uuid5 slackUserNamespace isoText slack s a ts msg (h.sizes ts msg hgets)
    rw [hstep]
    generalize (capture py uuid5 slackUserNamespace isoText slack s a ts msg).1 = s' at *
    have hforward : NoEarlier s s' := by
      intro channelId last hold
      rw [hlast]
      split
      · exact ⟨last, hold, le_rfl⟩
      · rename_i hmoved
        by_cases hchannel : channelId = a.channelId
        · subst hchannel
          refine ⟨ts, Function.update_self .., ?_⟩
          by_cases hown : isSelfEcho slack msg = true
          · exact h.own ts msg last hgets hown hold
          · have hnew : ¬ts ≤ last := by simpa [hold, hown] using hmoved
            exact (not_le.mp hnew).le
        · exact ⟨last, by rw [Function.update_of_ne hchannel, hold], le_rfl⟩
    refine ⟨hheld hs fun hin => ?_, ?_, hforward, ?_⟩
    · obtain ⟨last, hold, hle⟩ := hrem _ _ hin
      simpa [hold] using hle
    · intro channelId ts' hin
      rcases hchats with h | ⟨hseen, hown, h⟩
      · obtain ⟨last, hold, hle⟩ := hrem channelId ts' (h ▸ hin)
        obtain ⟨last', hnew, hle'⟩ := hforward channelId last hold
        exact ⟨last', hnew, hle.trans hle'⟩
      · rcases List.mem_append.mp (h ▸ hin) with hin | hin
        · obtain ⟨last, hold, hle⟩ := hrem channelId ts' hin
          obtain ⟨last', hnew, hle'⟩ := hforward channelId last hold
          exact ⟨last', hnew, hle.trans hle'⟩
        · obtain ⟨hchannel, hts⟩ := Prod.mk.inj (List.mem_singleton.mp hin)
          obtain rfl := Val.str.inj hchannel
          obtain rfl := Val.str.inj hts
          refine ⟨ts', ?_, le_rfl⟩
          rw [hlast, hseen]
          exact Function.update_self ..
    · intro ts' msg' k file id hgets' hk hid hne hfailure
      obtain rfl : msg = msg' := Fetched.message.inj (hgets.1.symm.trans hgets'.1)
      obtain rfl : ts = ts' := Val.str.inj (hgets.2.1.symm.trans hgets'.2.1)
      exact hfiles k file id hk hid hne hfailure
  · have hnothing : (onChannelAdmit py uuid5 slackUserNamespace isoText slack s a).1 = s := by
      rw [onChannelAdmit]
      split
      · rename_i msg hmsg
        split
        · rename_i ts hts
          split
          · rfl
          · rename_i hne
            exact absurd ⟨ts, msg, hmsg, hts, hne⟩ hgets
        · rfl
      · rfl
    rw [hnothing]
    exact ⟨hs, hrem, fun _ last hold => ⟨last, hold, le_rfl⟩,
      fun ts msg _ _ _ h => absurd ⟨ts, msg, h⟩ hgets⟩

/-! ### All runs -/

theorem after_snoc (admits : List Admit) (a : Admit) :
    after py uuid5 slackUserNamespace isoText slack (admits ++ [a]) =
      (onChannelAdmit py uuid5 slackUserNamespace isoText slack
        (after py uuid5 slackUserNamespace isoText slack admits) a).1 := by
  rw [after, List.foldl_append]
  rfl

theorem held_after {admits : List Admit} (h : SoundRun py uuid5 slackUserNamespace isoText slack admits) :
    Held (after py uuid5 slackUserNamespace isoText slack admits) ∧
      Remembered (after py uuid5 slackUserNamespace isoText slack admits) := by
  induction admits using List.reverseRecOn with
  | nil => exact ⟨⟨rfl, List.nodup_nil, List.nodup_nil⟩, fun _ _ hin => nomatch hin⟩
  | append_singleton admits a ih =>
    have hbefore : SoundRun py uuid5 slackUserNamespace isoText slack admits := by
      rintro before b rest rfl
      exact h before b (rest ++ [a]) (by simp)
    obtain ⟨hheld, hrem⟩ := ih hbefore
    rw [after_snoc]
    obtain ⟨hheld', hrem', -, -⟩ := admit_spec hheld hrem (h admits a [] rfl)
    exact ⟨hheld', hrem'⟩

theorem SoundRun.init {before rest : List Admit} (h : SoundRun py uuid5 slackUserNamespace isoText slack (before ++ rest)) :
    SoundRun py uuid5 slackUserNamespace isoText slack before := by
  rintro first a more rfl
  exact h first a (more ++ rest) (by simp)

/-- A run whose admits are all sound captures every message and file once, puts no timestamp back, and writes what the
    ledger failed to take when it is fetched again. -/
theorem exactly_once {admits : List Admit} (h : SoundRun py uuid5 slackUserNamespace isoText slack admits) :
    ExactlyOnce py uuid5 slackUserNamespace isoText slack admits := by
  obtain ⟨hheld, -⟩ := held_after h
  constructor
  · exact hheld.chats
  · rw [hheld.files]
    refine hheld.emitted.map fun key key' heq => ?_
    obtain ⟨hchannel, hrest⟩ := Prod.mk.inj heq
    obtain ⟨hts, hid⟩ := Prod.mk.inj hrest
    exact Prod.ext (Val.str.inj hchannel) (Prod.ext (Val.str.inj hts) (Val.str.inj hid))
  · rintro before a rest rfl
    obtain ⟨hheld, hrem⟩ := held_after h.init
    obtain ⟨-, -, hforward, -⟩ :=
      @admit_spec py uuid5 slackUserNamespace isoText slack _ a hheld hrem (h before a rest rfl)
    rw [after_snoc]
    exact hforward
  · intro before a mid b rest ts msg hsplit _ hgets _ hfails _
    rw [List.append_assoc, List.cons_append] at hsplit
    exact absurd hfails ((h before a (mid ++ b :: rest) hsplit).chat ts msg hgets)
  · rintro before a mid b rest ts msg k file id rfl hchannel _ hgets hk hid hne _ hfailure
    obtain ⟨hheld, hrem⟩ := held_after h.init
    obtain ⟨hheld', -, -, hfiles⟩ :=
      @admit_spec py uuid5 slackUserNamespace isoText slack _ b hheld hrem (h (before ++ a :: mid) b rest rfl)
    rw [after_snoc, hheld'.files, hchannel]
    exact List.mem_map.mpr ⟨_, hfiles ts msg k file id hgets hk hid hne hfailure, rfl⟩

end

/-! ### An own message that is older -/

def plainAdmit (msg : Dict) : Admit where
  channelId := "C1"
  fetched := .message msg
  refId := fun _ => ⟨9⟩
  stamp := fun _ => instantStamp
  failure := fun _ => none

def helloMessage : Dict := [(.str "ts", .str "2.0"), (.str "user", .str "U1"), (.str "text", .str "hello"),
  (.str "files", .list [.dict [(.str "id", .str "F1"), (.str "size", .int 3)]])]

def ownMessage : Dict := [(.str "ts", .str "1.0"), (.str "bot_id", .str "B1"), (.str "text", .str "hi")]

def helloRun : List Admit := [plainAdmit helloMessage, plainAdmit helloMessage]

theorem helloRun_sound : SoundRun .plain (fun ns _ => ns) ⟨1⟩ DateTime.isoformat ⟨some "B1", none⟩ helloRun := by
  intro before a rest hsplit
  have ha : a ∈ helloRun := hsplit ▸ List.mem_append_right before List.mem_cons_self
  obtain rfl : a = plainAdmit helloMessage := by simpa [helloRun] using ha
  have hmsg : ∀ ts msg, (plainAdmit helloMessage).Gets ts msg → msg = helloMessage :=
    fun ts msg hgets => (Fetched.message.inj hgets.1).symm
  constructor
  · intro ts msg last hgets hown
    rw [hmsg ts msg hgets] at hown
    cases hown
  · intro ts msg hgets hfails
    exact hfails.2.2.2 rfl
  · intro ts msg hgets file hfile
    rw [hmsg ts msg hgets] at hfile
    have hone : filesOf helloMessage = [.dict [(.str "id", .str "F1"), (.str "size", .int 3)]] := rfl
    rw [hone, List.mem_singleton] at hfile
    obtain rfl := Val.dict.inj hfile
    exact ⟨.int 3, rfl⟩

theorem helloRun_exactlyOnce :
    ExactlyOnce .plain (fun ns _ => ns) ⟨1⟩ DateTime.isoformat ⟨some "B1", none⟩ helloRun :=
  exactly_once helloRun_sound

/-- An own message that is older than the last one puts the remembered timestamp back. -/
theorem timestamp_put_back : ¬∀ (py : Interp) (uuid5 : UUID → String → UUID) (ns : UUID) (isoText : DateTime → String)
    (slack : SlackClient) (admits : List Admit), ExactlyOnce py uuid5 ns isoText slack admits := by
  intro h
  have hforward := (h .plain (fun ns _ => ns) ⟨1⟩ DateTime.isoformat ⟨some "B1", none⟩
    [plainAdmit helloMessage, plainAdmit ownMessage]).forward [plainAdmit helloMessage] (plainAdmit ownMessage) [] rfl
  have hbefore : (after .plain (fun ns _ => ns) ⟨1⟩ DateTime.isoformat ⟨some "B1", none⟩
      [plainAdmit helloMessage]).lastTs "C1" = some "2.0" := by decide +kernel
  have hafter : (after .plain (fun ns _ => ns) ⟨1⟩ DateTime.isoformat ⟨some "B1", none⟩
      ([plainAdmit helloMessage] ++ [plainAdmit ownMessage])).lastTs "C1" = some "1.0" := by decide +kernel
  obtain ⟨last, hlast, hle⟩ := hforward "C1" "2.0" hbefore
  obtain rfl := Option.some.inj (hafter.symm.trans hlast)
  exact absurd hle (by decide)

end GlobalLogCapture

end ChannelAdapter
