import Wormbase.WriteActions.Pevr
import Wormbase.WriteActions.Persons

/-! `SetupConversationLoop`: the onboarding of a tenant, in direct messages to its installer.

    The step that the installer is at, and the replies that were handled, are read off the ledger in every
    cycle. What the loop itself remembers is the channel and the questions that it has posted. -/

namespace SetupConversation
open Py
open Projection (LedgerRow Stamp stampedRows)
open WriteActions (Pevr)

/-! ### Scripts -/

structure SetupStep where
  id : String
  botSays : String
  onAnswer : String
  expects : Option String := none
  options : List String := []
  next : Option String := none

/-- A loaded script has a step. -/
structure SetupScript where
  domainPack : String
  first : SetupStep
  rest : List SetupStep

namespace SetupScript
variable (script : SetupScript)

def steps : List SetupStep := script.first :: script.rest

def byId (id : String) : Option SetupStep := script.steps.find? fun s => s.id = id

def nextAfter (id : String) : Option SetupStep := (script.byId id).bind fun s => s.next.bind script.byId

def ids : List String := script.steps.map SetupStep.id

end SetupScript

/-- `saas-default.yml`, the script of every tenant. -/
def saasDefault : SetupScript where
  domainPack := "saas"
  first := {
    id := "domain_pack"
    botSays := "Welcome! What's your team's primary focus? Reply with one of:\nsaas, marketplace, fintech, custom."
    expects := some "one_of"
    options := ["saas", "marketplace", "fintech", "custom"]
    onAnswer := "emit_domain_registered_for_pack"
    next := some "classification_default" }
  rest := [
    { id := "classification_default"
      botSays := "Got it. For your sales / customer / revenue data, default\nclassification: internal or confidential?"
      expects := some "one_of"
      options := ["internal", "confidential"]
      onAnswer := "emit_classification_default"
      next := some "invite_admins" },
    { id := "invite_admins"
      botSays := "Who else should be admin? Tag them, e.g. @bob @carol.\nOr reply 'skip' to do this later."
      expects := some "free_text"
      onAnswer := "parse_mentions_emit_role_assigned"
      next := some "first_kpi" },
    { id := "first_kpi"
      botSays := "What's your most important KPI for the next quarter? Free text — I'll\npropose; you confirm in the dashboard."
      expects := some "free_text"
      onAnswer := "emit_kpi_proposed"
      next := some "done" },
    { id := "done"
      botSays := "All set! Your dashboard is at $DASHBOARD_URL. The worm is now lurking\nand will start helping. /research will show experiments for your\nrole within 24h."
      onAnswer := "emit_setup_completed" }]

/-- A script as it is meant: every step leads to the one after it, and the last one, and no other,
    completes the setup. -/
structure Linear (script : SetupScript) : Prop where
  distinct : script.ids.Nodup
  named : "" ∉ script.ids
  linked : ∀ (k : ℕ) (step : SetupStep), script.steps[k]? = some step → step.next = script.ids[k + 1]?
  last : ∀ (k : ℕ) (step : SetupStep), script.steps[k]? = some step →
    (step.onAnswer = "emit_setup_completed" ↔ k + 1 = script.steps.length)

/-! ### Answers -/

section
variable (py : Interp) (lower : String → String)

/-- `parse_answer`: the value, or the error that is told to the installer. -/
def parseAnswer (step : SetupStep) (rawText : String) : Except String String :=
  let text := stripText rawText
  match step.expects with
  | none => .ok text
  | some "one_of" =>
    if step.options = [] then .error "step has no options"
    else
      match step.options.find? fun opt => lower opt = lower text with
      | some opt => .ok opt
      | none => .error ("answer must be one of " ++ (Val.list (step.options.map .str)).toStr py ++ "; got " ++
          String.ofList (reprStr py text))
  | some "free_text" => if text = "" then .error "answer must not be empty" else .ok text
  | some expects => .error ("unknown expects: " ++ expects)

/-- The characters of `[A-Za-z0-9_]`. -/
def isWord (c : Char) : Bool := ('a' ≤ c && c ≤ 'z') || ('A' ≤ c && c ≤ 'Z') || ('0' ≤ c && c ≤ '9') || c = '_'

/-- The mention at the start of a text: `<@id>`, or `@name`. -/
def mentionAt : List Char → Option (String × List Char)
  | '<' :: '@' :: cs =>
    match cs.takeWhile isWord, cs.dropWhile isWord with
    | c :: id, '>' :: rest => some (String.ofList (c :: id), rest)
    | _, _ => none
  | '@' :: cs =>
    let inName := fun c => isWord c || c = '.' || c = '-'
    match cs.takeWhile inName with
    | [] => none
    | name => some (String.ofList name, cs.dropWhile inName)
  | _ => none

/-- The mentions of a text, left to right; the fuel is its length. -/
def mentions : ℕ → List Char → List String
  | 0, _ => []
  | _, [] => []
  | n + 1, c :: cs =>
    match mentionAt (c :: cs) with
    | some (token, rest) => token :: mentions n rest
    | none => mentions n cs

/-- `parse_mentions`: each mention once, in the order in which they are seen. -/
def parseMentions (rawText : String) : List String :=
  let text := lower (stripText rawText)
  if text = "" ∨ text = "skip" then []
  else ((mentions rawText.toList.length rawText.toList).reverse.dedup).reverse

/-! ### What is written -/

/-- A write to the ledger of the tenant: the rows it leaves after `n` others. -/
abbrev Emission := UUID → ℕ → Stamp → List LedgerRow

/-- `_memory_log`. -/
def memoryLog (memoryId : UUID) (content : String) (tags : List String) : Emission := fun company n st =>
  stampedRows company n st
    [(.str "target_kind", .str "memory_written"), (.str "ref_id", .str company.str),
      (.str "reason", .str "setup_conversation answer"), (.str "proposed_by", .str "setup_conversation")]
    [(.str "propose_entry_id", .str st.proposeId.str), (.str "tool", .str "emit_memory_written"),
      (.str "args", .dict [(.str "memory_id", .str memoryId.str), (.str "content", .str content),
        (.str "tags", .list (tags.map .str))]), (.str "result_ref", .str "setup")]
    [(.str "execute_entry_id", .str st.executeId.str),
      (.str "checks", .list [.dict [(.str "name", .str "setup_memory"), (.str "ok", .bool true)]]),
      (.str "passed", .bool true)]
    [(.str "verify_entry_id", .str st.verifyId.str), (.str "outcome", .str "keep"),
      (.str "rationale", .str "setup answer logged")]

/-- `complete_setup`, with the text of the time. -/
def completeSetup (completedAt : String) : Emission := fun company n st =>
  Pevr.rows {
    targetKind := "setup_completed"
    refId := company
    reason := "setup completed"
    proposedBy := "setup-orchestrator"
    tool := "emit_setup_completed"
    args := [(.str "tenant_id", .str company.str), (.str "completed_at", .str completedAt)]
    resultRef := company.str
    rationale := "setup completed via dashboard API or bot loop" } company n st

/-- `advance_setup_step`. -/
def advanceSetupStep (stepId : String) (person : UUID) : Emission := fun company n st =>
  Pevr.rows {
    targetKind := "setup_step_advanced"
    refId := company
    reason := "setup step advanced to " ++ stepId
    proposedBy := person.str
    tool := "emit_setup_step_advanced"
    args := [(.str "tenant_id", .str company.str), (.str "step_id", .str stepId),
      (.str "advanced_by_person_id", .str person.str)]
    resultRef := company.str
    rationale := "bot setup advanced to step " ++ stepId } company n st

/-- `_dispatch_on_answer`: the writes of an answer. -/
def dispatchOnAnswer (step : SetupStep) (value : String) (memoryId : ℕ → UUID) (completedAt : String) : List Emission :=
  match step.onAnswer with
  | "emit_domain_registered_for_pack" =>
    [memoryLog (memoryId 0) ("setup:domain_pack:" ++ value) ["setup", "domain_pack", value]]
  | "emit_classification_default" =>
    [memoryLog (memoryId 0) ("setup:classification_default:" ++ value) ["setup", "classification_default", value]]
  | "parse_mentions_emit_role_assigned" =>
    (parseMentions lower value).mapIdx fun k mention =>
      memoryLog (memoryId k) ("setup:invite_admin:" ++ mention) ["setup", "invite_admin", mention]
  | "emit_kpi_proposed" => [memoryLog (memoryId 0) ("setup:first_kpi:" ++ value) ["setup", "first_kpi"]]
  | "emit_setup_completed" => [completeSetup completedAt]
  | _ => []

end

/-! ### The fold of a tenant -/

/-- What `_fold_tenant_session` has found so far. -/
structure Scan where
  installer : Option UUID
  userId : Option String
  platform : Option String
  mode : Option String
  completed : Bool
  lastAdvanceSeq : ℕ
  lastStep : Option String

def Scan.empty : Scan := ⟨none, none, none, none, false, 0, none⟩

section
variable (py : Interp)

/-- An execute row with a tool and args. -/
def scanArgs (seq : ℕ) (tool : Val) (args : Dict) (s : Scan) : Except Err Scan :=
  if tool.isText "emit_install_completed" then
    if (args.get "platform").toStr py = "slack" then
      let id := args.get "installer_person_id"
      if id.truthy then do return { s with platform := some "slack", installer := some (← (Val.str (id.toStr py)).toUUID) }
      else .ok { s with platform := some "slack" }
    else .ok s
  else if tool.isText "emit_person_proposed" then
    let userId := args.get "platform_user_id"
    if (s.installer.any fun p => (args.get "person_id").isText p.str) ∧ userId.truthy ∧
      (args.get "platform").isText "slack" then .ok { s with userId := some (userId.toStr py) }
    else .ok s
  else if tool.isText "emit_setup_mode_chosen" then .ok { s with mode := some ((args.get "mode").text py) }
  else if tool.isText "emit_setup_completed" then .ok { s with completed := true }
  else if tool.isText "emit_setup_step_advanced" then
    if s.lastAdvanceSeq < seq then
      .ok { s with lastAdvanceSeq := seq, lastStep := some ((args.get "step_id").text py) }
    else .ok s
  else .ok s

def scanRow (s : Scan) (r : LedgerRow) : Except Err Scan :=
  if r.kind ≠ "execute" then .ok s
  else do
    let payload ← orMapping r.payload
    let args ← orMapping (Dict.get payload "args")
    scanArgs py r.seq (Dict.get payload "tool") args s

def scan (rows : List LedgerRow) : Except Err Scan := rows.foldlM (scanRow py) .empty

/-- `_TenantSession`. -/
structure Session where
  installer : UUID
  userId : String
  dmChannelId : Option String
  lastAdvanceSeq : ℕ
  awaitingStep : String
  posted : List String

/-- The step after the last one, or the last one again where no step is after it. -/
def awaitingStep (script : SetupScript) (lastStep : Option String) : String :=
  match lastStep with
  | some last =>
    if last = "" then script.first.id
    else ((script.nextAfter last).map SetupStep.id).getD last
  | none => script.first.id

/-- The session that a scan gives, if the tenant is on the bot path and not done. -/
def Scan.session (s : Scan) (script : SetupScript) : Option Session :=
  match s.installer, s.userId with
  | some installer, some userId =>
    if s.platform = some "slack" ∧ s.mode = some "bot" ∧ s.completed = false then
      some ⟨installer, userId, none, s.lastAdvanceSeq, awaitingStep script s.lastStep, []⟩
    else none
  | _, _ => none

/-- The step of the script that the session waits at. -/
def Session.step (sess : Session) (script : SetupScript) : Option SetupStep :=
  script.byId (if sess.awaitingStep = "" then script.first.id else sess.awaitingStep)

/-- What the loop remembers of a tenant goes into the session of the next cycle. -/
def Session.rehydrate (s : Session) : Option Session → Session
  | none => s
  | some prior => { s with
      dmChannelId := prior.dmChannelId.or s.dmChannelId
      lastAdvanceSeq := max prior.lastAdvanceSeq s.lastAdvanceSeq
      posted := prior.posted ++ s.posted }

end

/-! ### One cycle -/

/-- A message in the channel. It stands in the ledger too, from where it has its seq. -/
structure Reply where
  seq : ℕ
  userId : String
  text : String
  deriving DecidableEq

/-- What a cycle finds outside the ledger: whether the loop gets to the tenant, what the reads, sends and
    writes raise, the messages that the adapter gives of those after a seq, and ids and times. -/
structure Attempt where
  reached : Bool
  read : Except Err Unit
  openDm : Except Err String
  post : Except Err Unit
  fetched : Except Err (Reply → Bool)
  reprompt : ℕ → Except Err Unit
  written : ℕ → Except Err Unit
  stamp : ℕ → Stamp
  memoryId : ℕ → UUID
  completedAt : String

/-- The ledger of a tenant, the loop's memory of it, the messages in its channel, those that were
    answered with an error, and those that were no answer to the step they came at. -/
structure State where
  rows : List LedgerRow
  prior : Option Session
  chat : List Reply
  prompted : List Reply
  invalid : List Reply

section
variable (py : Interp) (lower : String → String) (script : SetupScript) (company : UUID)

/-- The replies one after the other: those that were answered with an error, and the first answer. -/
def readReplies (userId : String) (step : SetupStep) (reprompt : ℕ → Except Err Unit) :
    ℕ → List Reply → List Reply × Except Err (Option String)
  | _, [] => ([], .ok none)
  | k, m :: ms =>
    if m.userId ≠ userId then readReplies userId step reprompt k ms
    else
      match parseAnswer py lower step m.text with
      | .ok value => ([], .ok (some value))
      | .error _ =>
        match reprompt k with
        | .error x => ([], .error x)
        | .ok _ =>
          let rest := readReplies userId step reprompt (k + 1) ms
          (m :: rest.1, rest.2)

/-- Some writes one after the other until one fails. -/
def emitAll (a : Attempt) : ℕ → List LedgerRow → List Emission → Except Err Unit × List LedgerRow
  | _, rows, [] => (.ok (), rows)
  | k, rows, w :: ws =>
    match a.written k with
    | .error x => (.error x, rows)
    | .ok _ => emitAll a (k + 1) (rows ++ w company rows.length (a.stamp k)) ws

/-- `_handle_setup_answer`: what it raises, and the rows after it. -/
def handleSetupAnswer (a : Attempt) (sess : Session) (step : SetupStep) (value : String) (rows : List LedgerRow) :
    Except Err Unit × List LedgerRow :=
  let writes := dispatchOnAnswer lower step value a.memoryId a.completedAt
  let done := emitAll company a 0 rows writes
  match done.1 with
  | .error _ => (.ok (), done.2)
  | .ok _ => emitAll company a writes.length done.2 [advanceSetupStep step.id sess.installer]

/-- `_drive_tenant`: the number of advances or what is raised, and the state then. -/
def driveTenant (a : Attempt) (sess : Session) (s : State) : Except Err ℕ × State :=
  match sess.dmChannelId.elim a.openDm .ok with
  | .error x => (.error x, { s with prior := some sess })
  | .ok channel =>
    let sess := { sess with dmChannelId := some channel }
    match sess.step script with
    | none => (.ok 0, { s with prior := some sess })
    | some step =>
      if step.id ∉ sess.posted then
        match a.post with
        | .error x => (.error x, { s with prior := some sess })
        | .ok _ => (.ok 0, { s with prior := some { sess with posted := step.id :: sess.posted } })
      else
        match a.fetched with
        | .error x => (.error x, { s with prior := some sess })
        | .ok gives =>
          let replies := (s.chat.filter fun m => sess.lastAdvanceSeq < m.seq).filter gives
          let found := readReplies py lower sess.userId step a.reprompt 0 replies
          let s := { s with prior := some sess, prompted := s.prompted ++ found.1 }
          match found.2 with
          | .error x => (.error x, s)
          | .ok none => (.ok 0, s)
          | .ok (some value) =>
            let done := handleSetupAnswer lower company a sess step value s.rows
            (done.1.map fun _ => 1, { s with rows := done.2 })

/-- `run_once` for one tenant. -/
def runOnce (a : Attempt) (s : State) : Except Err ℕ × State :=
  match a.read.bind fun _ => scan py s.rows with
  | .error x => (.error x, s)
  | .ok found =>
    match found.session script with
    | none => (.ok 0, s)
    | some sess =>
      let sess := sess.rehydrate s.prior
      if a.reached then driveTenant py lower script company a sess s else (.ok 0, { s with prior := some sess })

end

end SetupConversation
