import Wormbase.Gateway.Redaction
import Wormbase.Py.IsoFormat
import Wormbase.Py.Loads

/-! `parse_session_line`: a line of an OpenClaw session becomes a chat event, or nothing.

    The parser checks the shape of the message and of its content, but takes the line for an object and
    the text of a text block for a string. -/

namespace ChannelAdapter
open Py Regex Gateway

/-! ### Events -/

structure ChatReceivedEvent where
  sessionId : String
  eventId : String
  ts : DateTime
  channelId : String
  messageId : String
  senderId : String
  senderLabel : String
  text : String
  conversationLabel : String
  deliveryMode : String
  platformTs : Option DateTime
  historySyncId : Option String
  mentionedJids : Option (List String)

structure ChatSentEvent where
  sessionId : String
  eventId : String
  ts : DateTime
  text : String
  inReplyTo : Option String

inductive ParsedEvent where
  | received (e : ChatReceivedEvent)
  | sent (e : ChatSentEvent)

/-- `chat_type`. -/
inductive ChatType where
  | direct
  | group
  deriving DecidableEq

/-- `WhatsAppInboundEnvelope`. -/
structure Envelope where
  ts : DateTime
  senderJid : String
  botJid : String
  chatType : ChatType
  charCount : Option ℕ

/-! ### Patterns -/

/-- A text of an expression. -/
def text (s : String) : Expr Char := .all (s.toList.map literal)

def spaces (least : ℕ) : Expr Char := .rep (.one whitespace) least none

/-- The first place where something is found. -/
def searchWith {β : Type} (f : Option Char → List Char → Option β) : Option Char → List Char → Option β
  | before, [] => f before []
  | before, c :: s => (f before (c :: s)).or (searchWith f (some c) s)

/-- `part in s`. -/
def hasText (part : String) (s : List Char) : Bool :=
  (searchWith (fun _ s => if part.toList.isPrefixOf s then some () else none) none s).isSome

/-- What stands before the block: `Conversation info \(untrusted metadata\):\s*```json\s*`. -/
def blockStart : Expr Char := .all
  [text "Conversation info (untrusted metadata):", spaces 0, text "```json", spaces 0]

/-- What stands after it: `\s*````. -/
def blockEnd : Expr Char := .all [spaces 0, text "```"]

/-- `.*?\}`, then what stands after the block. -/
def closeBlock (acc : List Char) : List Char → Option (List Char)
  | [] => none
  | c :: s => if c = '}' ∧ blockEnd.ends (some c) s ≠ [] then some (acc.reverse ++ ['}']) else closeBlock (c :: acc) s

/-- `_JSON_BLOCK_RE.search(body).group(1)`. -/
def jsonBlock (body : List Char) : Option (List Char) :=
  searchWith (fun before s => (blockStart.ends before s).findSome? fun p =>
    match p.2 with
    | '{' :: s => (closeBlock [] s).map ('{' :: ·)
    | _ => none) none body

/-- What stands before the text of a message:
    `^System:\s+\[[^\]]+\]\s+Slack message in\s+\S+\s+from\s+[^:]+:\s+`. -/
def systemLine : Expr Char := .all
  [text "System:", spaces 1, literal '[', .rep (.one (· ≠ ']')) 1 none, literal ']', spaces 1,
    text "Slack message in", spaces 1, .rep (.one fun c => !whitespace c) 1 none, spaces 1, text "from", spaces 1,
    .rep (.one (· ≠ ':')) 1 none, literal ':', spaces 1]

/-- `_SYSTEM_LINE_RE.search(body).group(1)`: the rest of the line. -/
def systemText (body : List Char) : Option (List Char) :=
  searchWith (fun before s =>
    if before = none ∨ before = some '\n' then
      (systemLine.ends before s).head?.map fun p => p.2.takeWhile (· ≠ '\n')
    else none) none body

section
variable (chars : CharTable)

/-- `@(\d+)\b`. -/
def mention : Expr Char := .all [literal '@', .rep (.one chars.isDecimal) 1 none, .edge chars.isWord]

/-- `_WHATSAPP_MENTION_RE.findall(s)`. -/
def mentions : ℕ → Option Char → List Char → List (List Char)
  | 0, _, _ => []
  | _ + 1, _, [] => []
  | fuel + 1, before, c :: s =>
    match (mention chars).matchAt before (c :: s) with
    | some p => s.take (s.length - p.2.length) :: mentions fuel p.1 p.2
    | none => mentions fuel (some c) s

end

/-! ### Messages -/

def slackInboundMarker : String := "Slack message in"
def bootstrapMarkers : List String := ["[Bootstrap pending]", "[Bootstrap]"]

/-- The texts of the text blocks. -/
def textParts (content : List Val) : List Val :=
  content.filterMap fun c =>
    match c with
    | .dict block => if (Dict.get block "type").isText "text" then some (Dict.getD block "text" (.str "")) else none
    | _ => none

/-- The items of a `join`, which have to be texts. -/
def strItems : ℕ → List Val → Except Err (List String)
  | _, [] => .ok []
  | i, .str s :: vs => do return s :: (← strItems (i + 1) vs)
  | i, v :: _ => .error (typeError s!"sequence item {i}: expected str instance, {v.typeName} found")

/-- `"\n".join(parts)`. -/
def joinLines (parts : List Val) : Except Err String := do return "\n".intercalate (← strItems 0 parts)

section
variable (py : Interp) (chars : CharTable) (depth : ℕ) (lookup : Option (DateTime → Option Envelope))
variable (sessionId eventId : String) (ts : DateTime)

/-- A message with the marker of Slack. -/
def slackMessage (body : String) : Except Err (Option ChatReceivedEvent) :=
  match jsonBlock body.toList with
  | none => .ok none
  | some block =>
    match loads depth block with
    | .error e => if e.cls = "JSONDecodeError" then .ok none else .error e
    | .ok (.dict info) =>
      let field := fun name => (Dict.getD info name (.str "")).toStr py
      .ok (some {
        sessionId, eventId, ts
        channelId := field "chat_id"
        messageId := field "message_id"
        senderId := field "sender_id"
        senderLabel := field "sender"
        text := stripText (((systemText body.toList).map String.ofList).getD body)
        conversationLabel := field "conversation_label"
        deliveryMode := "push"
        platformTs := none
        historySyncId := none
        mentionedJids := none })
    | .ok v => .error (attributeError s!"'{v.typeName}' object has no attribute 'get'")

/-- Any other message: a direct message of WhatsApp, if an envelope is near. -/
def whatsappMessage (body : String) : Option ChatReceivedEvent :=
  if bootstrapMarkers.any fun marker => marker.toList.isPrefixOf (body.toList.dropWhile whitespace) then none
  else
    match lookup.bind fun find => find ts with
    | none => none
    | some envelope =>
      let cleaned := stripText body
      if envelope.chatType ≠ .direct ∨ cleaned = "" then none
      else
        let phones := mentions chars (cleaned.length + 1) none cleaned.toList
        some {
          sessionId, eventId, ts
          channelId := envelope.senderJid
          messageId := eventId
          senderId := envelope.senderJid
          senderLabel := String.ofList (envelope.senderJid.toList.takeWhile (· ≠ '@'))
          text := cleaned
          conversationLabel := ""
          deliveryMode := "push"
          platformTs := some envelope.ts
          historySyncId := none
          mentionedJids := if phones = [] then none
            else some (phones.map fun p => String.ofList p ++ "@s.whatsapp.net") }

/-- `_parse_user_message`. -/
def parseUserMessage (msg : Dict) : Except Err (Option ChatReceivedEvent) :=
  match msg.get "content" with
  | .list content =>
    if textParts content = [] then .ok none
    else do
      let body ← joinLines (textParts content)
      if hasText slackInboundMarker body.toList then slackMessage py depth sessionId eventId ts body
      else return whatsappMessage chars lookup sessionId eventId ts body
  | _ => .ok none

/-- A block that calls a tool. -/
def isToolCall (c : Val) : Bool :=
  match c with
  | .dict block => (Dict.get block "type").isText "toolCall"
  | _ => false

/-- `_parse_assistant_message`. -/
def parseAssistantMessage (msg : Dict) (last : Option String) : Except Err (Option ChatSentEvent) :=
  if !(msg.get "stopReason").isText "stop" then .ok none
  else
    match msg.get "content" with
    | .list content =>
      if content.any isToolCall ∨ textParts content = [] then .ok none
      else do
        let body := stripText (← joinLines ((textParts content).filter Val.truthy))
        if body = "" then return none
        return some { sessionId, eventId, ts, text := body, inReplyTo := last }
    | _ => .ok none

end

section
variable (py : Interp) (chars : CharTable) (depth : ℕ) (lookup : Option (DateTime → Option Envelope))

/-- `parse_session_line`. -/
def parseSessionLine (sessionId rawLine : String) (last : Option String) : Except Err (Option ParsedEvent) :=
  let line := stripText rawLine
  if line = "" then .ok none
  else
    match loads depth line.toList with
    | .error e => if e.cls = "JSONDecodeError" then .ok none else .error e
    | .ok (.dict obj) =>
      if !(Dict.get obj "type").isText "message" then .ok none
      else
        match Dict.get obj "message", Dict.get obj "timestamp" with
        | .dict msg, .str ts =>
          let eventId := (Dict.get obj "id").text py
          match fromisoformat (zuluToOffset ts.toList) with
          | none => .ok none
          | some ts =>
            if (Dict.get msg "role").isText "user" then do
              return (← parseUserMessage py chars depth lookup sessionId eventId ts msg).map .received
            else if (Dict.get msg "role").isText "assistant" then do
              return (← parseAssistantMessage sessionId eventId ts msg last).map .sent
            else .ok none
        | _, _ => .ok none
    | .ok v => .error (attributeError s!"'{v.typeName}' object has no attribute 'get'")

end

/-! ### Which lines are parsed -/

section
variable (depth : ℕ)

/-- `json.loads` takes the text or finds that it is no JSON: it is not nested too deeply, and no integer has too
    many digits. -/
def Decodes (s : List Char) : Prop :=
  match loads depth s with
  | .error e => e.cls = "JSONDecodeError"
  | .ok _ => True

/-- A user message whose text blocks have texts, and whose block of JSON decodes if it comes from Slack. -/
def UserReadable (msg : Dict) : Prop :=
  ∀ content, msg.get "content" = .list content → (∀ v ∈ textParts content, ∃ s, v = .str s) ∧
    ∀ body, joinLines (textParts content) = .ok body → hasText slackInboundMarker body.toList →
      ∀ block, jsonBlock body.toList = some block → Decodes depth block

/-- A final reply whose text blocks have texts, or nothing. -/
def AssistantReadable (msg : Dict) : Prop :=
  msg.get "stopReason" = .str "stop" → ∀ content, msg.get "content" = .list content →
    content.any isToolCall ∨ ∀ v ∈ textParts content, v.truthy → ∃ s, v = .str s

/-- A line that is no JSON, or an object whose message, if it is a message with a time, is readable for its
    role. -/
def Readable (rawLine : String) : Prop :=
  match loads depth (stripText rawLine).toList with
  | .error e => e.cls = "JSONDecodeError"
  | .ok (.dict obj) => Dict.get obj "type" = .str "message" → ∀ msg, Dict.get obj "message" = .dict msg →
      ∀ ts, Dict.get obj "timestamp" = .str ts → fromisoformat (zuluToOffset ts.toList) ≠ none →
      (Dict.get msg "role" = .str "user" → UserReadable depth msg) ∧
        (Dict.get msg "role" = .str "assistant" → AssistantReadable msg)
  | .ok _ => False

end

theorem strItems_ok_iff : ∀ {vs : List Val} {i : ℕ}, (∃ ss, strItems i vs = .ok ss) ↔ ∀ v ∈ vs, ∃ s, v = .str s
  | [], i => by simp [strItems]
  | v :: vs, i => by
    rw [List.forall_mem_cons, ← @strItems_ok_iff vs (i + 1)]
    cases v with
    | str s =>
      constructor
      · rintro ⟨ss, h⟩
        obtain ⟨rest, hrest, -⟩ := bind_eq_ok.mp h
        exact ⟨⟨s, rfl⟩, rest, hrest⟩
      · rintro ⟨-, rest, hrest⟩
        exact ⟨s :: rest, by rw [strItems, hrest]; rfl⟩
    | _ => simp [strItems]

theorem joinLines_ok_iff {vs : List Val} : (∃ s, joinLines vs = .ok s) ↔ ∀ v ∈ vs, ∃ s, v = .str s := by
  rw [← @strItems_ok_iff vs 0]
  constructor
  · rintro ⟨s, h⟩
    obtain ⟨ss, hss, -⟩ := bind_eq_ok.mp h
    exact ⟨ss, hss⟩
  · rintro ⟨ss, hss⟩
    exact ⟨_, by rw [joinLines, hss]; rfl⟩

section
variable {py : Interp} {chars : CharTable} {depth : ℕ} {lookup : Option (DateTime → Option Envelope)}
variable {sessionId eventId : String} {ts : DateTime}

/-- What is found between the braces of a block starts with a brace. -/
theorem jsonBlock_brace {body block : List Char} (h : jsonBlock body = some block) : ∃ s, block = '{' :: s := by
  have hfind : ∀ {before : Option Char} {s : List Char}, searchWith (fun before s =>
      (blockStart.ends before s).findSome? fun p =>
        match p.2 with
        | '{' :: s => (closeBlock [] s).map ('{' :: ·)
        | _ => none) before s = some block → ∃ s, block = '{' :: s := by
    intro before s
    have hhere : ∀ {before : Option Char} {s : List Char}, ((blockStart.ends before s).findSome? fun p =>
        match p.2 with
        | '{' :: s => (closeBlock [] s).map ('{' :: ·)
        | _ => none) = some block → ∃ s, block = '{' :: s := by
      intro before s h
      obtain ⟨p, -, hp⟩ := List.exists_of_findSome?_eq_some h
      split at hp
      · obtain ⟨rest, -, rfl⟩ := Option.map_eq_some_iff.mp hp
        exact ⟨rest, rfl⟩
      · cases hp
    induction s generalizing before with
    | nil => exact hhere
    | cons c s ih =>
      intro h
      rcases Option.or_eq_some_iff.mp h with h | ⟨-, h⟩
      · exact hhere h
      · exact ih h
  exact hfind h

theorem slackMessage_ok_iff {body : String} : (∃ e, slackMessage py depth sessionId eventId ts body = .ok e) ↔
    ∀ block, jsonBlock body.toList = some block → Decodes depth block := by
  rw [slackMessage]
  cases hblock : jsonBlock body.toList with
  | none => simp
  | some block =>
    obtain ⟨s, rfl⟩ := jsonBlock_brace hblock
    simp only [Option.some.injEq, forall_eq', Decodes]
    cases hloads : loads depth ('{' :: s) with
    | error e =>
      by_cases he : e.cls = "JSONDecodeError" <;> simp [he]
    | ok v =>
      obtain ⟨d, rfl⟩ := loads_dict hloads
      simp

theorem parseUserMessage_ok_iff {msg : Dict} :
    (∃ e, parseUserMessage py chars depth lookup sessionId eventId ts msg = .ok e) ↔ UserReadable depth msg := by
  rw [parseUserMessage, UserReadable]
  split
  · rename_i content hcontent
    simp only [hcontent, Val.list.injEq, forall_eq']
    split
    · rename_i hnone
      have hbody : ∀ body, joinLines [] = .ok body → hasText slackInboundMarker body.toList ≠ true := by
        rintro body hbody
        obtain rfl := Except.ok.inj hbody
        decide
      simp only [hnone, List.not_mem_nil, false_imp_iff, implies_true, true_and]
      exact iff_of_true ⟨none, rfl⟩ fun body hb hmark => absurd hmark (hbody body hb)
    · rw [← joinLines_ok_iff]
      constructor
      · rintro ⟨e, h⟩
        obtain ⟨body, hbody, h⟩ := bind_eq_ok.mp h
        refine ⟨⟨body, hbody⟩, ?_⟩
        rintro body' hbody' hmark
        obtain rfl := Except.ok.inj (hbody.symm.trans hbody')
        rw [if_pos hmark] at h
        exact slackMessage_ok_iff.mp ⟨e, h⟩
      · rintro ⟨⟨body, hbody⟩, hblock⟩
        rw [hbody]
        by_cases hmark : hasText slackInboundMarker body.toList
        · obtain ⟨e, he⟩ := (@slackMessage_ok_iff py depth sessionId eventId ts body).mpr (hblock body hbody hmark)
          exact ⟨e, by simp [bind, Except.bind, hmark, he]⟩
        · exact ⟨_, by simp only [bind, Except.bind, hmark]; rfl⟩
  · rename_i hnot
    exact iff_of_true ⟨none, rfl⟩ fun content hcontent => absurd hcontent (hnot content)

theorem parseAssistantMessage_ok_iff {msg : Dict} {last : Option String} :
    (∃ e, parseAssistantMessage sessionId eventId ts msg last = .ok e) ↔ AssistantReadable msg := by
  rw [parseAssistantMessage, AssistantReadable]
  split
  · rename_i hstop
    refine iff_of_true ⟨none, rfl⟩ fun h => ?_
    simp [h, Val.isText] at hstop
  · rename_i hstop
    have hstop : msg.get "stopReason" = .str "stop" := Val.isText_iff.mp (by simpa using hstop)
    simp only [hstop, forall_true_left]
    split
    · rename_i content hcontent
      simp only [hcontent, Val.list.injEq, forall_eq']
      split
      · rename_i hearly
        refine iff_of_true ⟨none, rfl⟩ ?_
        exact hearly.imp id fun hnone => by simp [hnone]
      · rename_i hlate
        rw [not_or] at hlate
        rw [or_iff_right hlate.1]
        have hjoin := @joinLines_ok_iff ((textParts content).filter Val.truthy)
        simp only [List.mem_filter, and_imp] at hjoin
        rw [← hjoin]
        constructor
        · rintro ⟨e, h⟩
          obtain ⟨body, hbody, -⟩ := bind_eq_ok.mp h
          exact ⟨body, hbody⟩
        · rintro ⟨body, hbody⟩
          rw [hbody]
          by_cases hempty : stripText body = ""
          · exact ⟨none, by simp only [bind, Except.bind, hempty]; rfl⟩
          · exact ⟨_, by simp only [bind, Except.bind, if_neg hempty]; rfl⟩
    · rename_i hnot
      exact iff_of_true ⟨none, rfl⟩ fun content hcontent => absurd hcontent (hnot content)

theorem map_ok_iff {α β : Type} {x : Except Err (Option α)} {f : α → β} :
    (∃ r, (do return (← x).map f : Except Err (Option β)) = .ok r) ↔ ∃ e, x = .ok e := by
  cases x with
  | error e => simp [bind, Except.bind]
  | ok e => simp [bind, Except.bind, pure, Except.pure]

/-- The parser takes a line exactly when it is readable. -/
theorem parseSessionLine_ok_iff {rawLine : String} {last : Option String} :
    (∃ e, parseSessionLine py chars depth lookup sessionId rawLine last = .ok e) ↔ Readable depth rawLine := by
  rw [parseSessionLine, Readable]
  dsimp only
  split
  · rename_i hempty
    have hloads : loads depth (stripText rawLine).toList = .error jsonDecodeError := by
      rw [hempty]
      rfl
    rw [hloads]
    exact iff_of_true ⟨none, rfl⟩ rfl
  · cases hloads : loads depth (stripText rawLine).toList with
    | error e =>
      by_cases he : e.cls = "JSONDecodeError" <;> simp [he]
    | ok v =>
      cases v with
      | dict obj =>
        dsimp only
        split
        · rename_i htype
          refine iff_of_true ⟨none, rfl⟩ fun h => ?_
          simp [h, Val.isText] at htype
        · rename_i htype
          have htype : Dict.get obj "type" = .str "message" := Val.isText_iff.mp (by simpa using htype)
          simp only [htype, forall_true_left]
          split
          · rename_i msg ts hmsg hts
            simp only [hmsg, hts, Val.dict.injEq, Val.str.injEq, forall_eq']
            split
            · rename_i hnone
              exact iff_of_true ⟨none, rfl⟩ fun h => absurd hnone h
            · rename_i time htime
              simp only [htime, ne_eq, reduceCtorEq, not_false_eq_true, forall_true_left]
              split
              · rename_i hrole
                have hrole : Dict.get msg "role" = .str "user" := Val.isText_iff.mp hrole
                rw [map_ok_iff, parseUserMessage_ok_iff]
                simp [hrole]
              · rename_i huser
                split
                · rename_i hrole
                  have hrole : Dict.get msg "role" = .str "assistant" := Val.isText_iff.mp hrole
                  rw [map_ok_iff, parseAssistantMessage_ok_iff]
                  simp [hrole]
                · rename_i hassistant
                  refine iff_of_true ⟨none, rfl⟩ ⟨fun h => ?_, fun h => ?_⟩
                  · exact absurd (Val.isText_iff.mpr h) huser
                  · exact absurd (Val.isText_iff.mpr h) hassistant
          · rename_i hnot
            exact iff_of_true ⟨none, rfl⟩ fun msg hmsg ts hts => absurd hts (hnot msg ts hmsg)
      | _ => simp

end
end ChannelAdapter
