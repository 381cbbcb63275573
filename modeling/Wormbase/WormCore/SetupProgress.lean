import Wormbase.WormCore.SetupConversation
import Wormbase.Lib.Run
import Mathlib.Data.List.Nodup
import Mathlib.Data.List.Dedup

/-! The steps that a setup conversation records, and how often it asks again.

    The ledger says which step is next and where the last one was recorded, and nothing of the replies that
    were answered with an error: for those the loop has to rely on the adapter. -/

namespace SetupConversation
open Py
open Projection (LedgerRow Stamp stampedRows)

/-! ### Runs -/

section
variable (py : Interp) (lower : String → String) (script : SetupScript) (company : UUID)

/-- The step that a row records. -/
def stepOf (r : LedgerRow) : Option String :=
  match r.payload with
  | .dict payload =>
    if r.kind = "execute" ∧ (Dict.get payload "tool").isText "emit_setup_step_advanced" then
      match Dict.get payload "args" with
      | .dict args => some ((Dict.get args "step_id").text py)
      | _ => none
    else none
  | _ => none

/-- The steps that are recorded, in the order of the ledger. -/
def recorded (rows : List LedgerRow) : List String := rows.filterMap (stepOf py)

/-- The installer, and the step that the next reply has to answer. -/
def asked (rows : List LedgerRow) : Option (String × SetupStep) :=
  match scan py rows with
  | .error _ => none
  | .ok found => (found.session script).bind fun sess => (sess.step script).map fun step => (sess.userId, step)

/-- A reply of the installer that does not answer the step. -/
def isInvalid (rows : List LedgerRow) (m : Reply) : Bool :=
  match asked py script rows with
  | none => false
  | some (userId, step) => m.userId = userId && (parseAnswer py lower step m.text).toOption.isNone

/-- `_emit_chat_received`, where `args` is the dump of the payload. -/
def chatReceived (label messageId : String) (refId : UUID) (args : Dict) : Emission := fun company n st =>
  stampedRows company n st
    [(.str "target_kind", .str "chat_received"), (.str "ref_id", .str refId.str),
      (.str "reason", .str ("slack inbound from " ++ label)), (.str "proposed_by", .str "channel-adapter")]
    [(.str "propose_entry_id", .str st.proposeId.str), (.str "tool", .str "channel_adapter.emit_chat_received"),
      (.str "args", .dict args), (.str "result_ref", .str messageId)]
    [(.str "execute_entry_id", .str st.executeId.str),
      (.str "checks", .list [.dict [(.str "name", .str "payload_valid"), (.str "ok", .bool true)]]),
      (.str "passed", .bool true)]
    [(.str "verify_entry_id", .str st.verifyId.str), (.str "outcome", .str "keep"),
      (.str "rationale", .str "slack inbound persisted")]

/-- A message in the channel, a cycle of the loop, or a restart of its process. -/
inductive Op where
  | reply (userId text label messageId : String) (refId : UUID) (args : Dict) (stamp : Stamp)
  | cycle (a : Attempt)
  | restart

def next (s : State) : Op → State
  | .reply userId text label messageId refId args st =>
    let m : Reply := ⟨s.rows.length + 2, userId, text⟩
    { s with
      rows := s.rows ++ chatReceived label messageId refId args company s.rows.length st
      chat := s.chat ++ [m]
      invalid := if isInvalid py lower script s.rows m then s.invalid ++ [m] else s.invalid }
  | .cycle a => (runOnce py lower script company a s).2
  | .restart => { s with prior := none }

def step (s : State) (op : Op) : Option State := some (next py lower script company s op)

/-- A tenant whose installer has chosen the bot, and for whom no step is recorded. -/
structure Tenant where
  rows : List LedgerRow
  installer : UUID
  userId : String
  ready : scan py rows = .ok ⟨some installer, some userId, some "slack", some "bot", false, 0, none⟩
  fresh : recorded py rows = []

def Tenant.start (t : Tenant py) : State := ⟨t.rows, none, [], [], []⟩

/-- The steps are recorded in the order of the script, each of them once and all of them when the setup is
    completed, and there are no more error messages than invalid replies. -/
structure Progress (s : State) : Prop where
  inOrder : recorded py s.rows <+: script.ids
  whole : ∀ found, scan py s.rows = .ok found → found.completed = true → recorded py s.rows = script.ids
  asks : s.prompted.length ≤ s.invalid.dedup.length

/-- The adapter gives no reply again that was answered with an error since the last step was recorded, and
    where the setup is completed, the step that completes it is recorded too. -/
structure Sound (s : State) (a : Attempt) : Prop where
  fresh : ∀ found gives, scan py s.rows = .ok found → a.fetched = .ok gives →
    ∀ m ∈ s.prompted, found.lastAdvanceSeq < m.seq → gives m = false
  closes : ∀ userId step, asked py script s.rows = some (userId, step) → step.onAnswer = "emit_setup_completed" →
    a.written 0 = .ok () → a.written 1 = .ok ()

def Within (s : State) : Op → Prop
  | .cycle a => Sound py script s a
  | _ => True

end

/-! ### Writes -/

section
variable {py : Interp} {company : UUID} {rows : List LedgerRow} {found : Scan} {w : Emission} {tool : String}
  {args : Dict} {n : ℕ} {st : Stamp}

/-- A write of a tool with args. -/
def Emission.Writes (w : Emission) (company : UUID) (tool : String) (args : Dict) : Prop :=
  ∀ n st, ∃ propose execute verify resolve, w company n st =
    stampedRows company n st propose execute verify resolve ∧
      Dict.get execute "tool" = .str tool ∧ Dict.get execute "args" = .dict args

theorem Emission.Writes.length (hw : w.Writes company tool args) : (w company n st).length = 4 := by
  obtain ⟨propose, execute, verify, resolve, hrows, -, -⟩ := hw n st
  rw [hrows]
  rfl

theorem scanRow_skips {r : LedgerRow} (h : r.kind ≠ "execute") : scanRow py found r = .ok found := by
  rw [scanRow, if_pos h]

/-- Of the four rows of a write, the fold reads the second. -/
theorem scan_writes (h : scan py rows = .ok found) (hw : w.Writes company tool args) :
    scan py (rows ++ w company n st) = scanArgs py (n + 2) (.str tool) args found := by
  obtain ⟨propose, execute, verify, resolve, hrows, htool, hargs⟩ := hw n st
  have hexecute : scanRow py found ⟨st.executeId, company, n + 1 + 1, st.ts, "execute", .dict execute, st.hash 1⟩ =
      scanArgs py (n + 2) (.str tool) args found := by
    rw [scanRow, if_neg (by simp), orMapping_dict]
    simp only [bind, Except.bind, hargs, htool, orMapping_dict]
  rw [scan] at h ⊢
  rw [List.foldlM_append, h, hrows]
  simp only [stampedRows, bind, Except.bind, List.foldlM_cons, List.foldlM_nil]
  rw [scanRow_skips (by simp)]
  simp only
  rw [show ((1 : Fin 4) : ℕ) = 1 from rfl, hexecute]
  cases scanArgs py (n + 2) (.str tool) args found with
  | error x => rfl
  | ok found' =>
    simp only
    rw [scanRow_skips (by simp)]
    simp only
    rw [scanRow_skips (by simp)]
    rfl

theorem stepOf_skips {r : LedgerRow} (h : r.kind ≠ "execute") : stepOf py r = none := by
  rw [stepOf]
  split
  · rw [if_neg fun hc => h hc.1]
  · rfl

theorem recorded_writes (hw : w.Writes company tool args) : recorded py (rows ++ w company n st) =
    recorded py rows ++ if tool = "emit_setup_step_advanced" then [(Dict.get args "step_id").text py] else [] := by
  obtain ⟨propose, execute, verify, resolve, hrows, htool, hargs⟩ := hw n st
  have hexecute : stepOf py ⟨st.executeId, company, n + 1 + 1, st.ts, "execute", .dict execute, st.hash 1⟩ =
      if tool = "emit_setup_step_advanced" then some ((Dict.get args "step_id").text py) else none := by
    simp only [stepOf, hargs, htool, Val.isText, true_and, decide_eq_true_eq]
  rw [recorded, recorded, List.filterMap_append, hrows]
  simp only [stampedRows]
  rw [List.filterMap_cons_none (stepOf_skips (by simp)), show ((1 : Fin 4) : ℕ) = 1 from rfl, List.filterMap_cons,
    hexecute, List.filterMap_cons_none (stepOf_skips (by simp)), List.filterMap_cons_none (stepOf_skips (by simp)),
    List.filterMap_nil]
  by_cases hadvanced : tool = "emit_setup_step_advanced"
  · rw [if_pos hadvanced, if_pos hadvanced]
  · rw [if_neg hadvanced, if_neg hadvanced]

/-- The tools that the fold of a tenant reads. -/
def setupTools : List String :=
  ["emit_install_completed", "emit_person_proposed", "emit_setup_mode_chosen", "emit_setup_completed",
    "emit_setup_step_advanced"]

theorem scanArgs_quiet (h : tool ∉ setupTools) : scanArgs py n (.str tool) args found = .ok found := by
  simp only [setupTools, List.mem_cons, List.not_mem_nil, or_false, not_or] at h
  obtain ⟨h₁, h₂, h₃, h₄, h₅⟩ := h
  simp only [scanArgs, Val.isText, h₁, h₂, h₃, h₄, h₅, decide_false, Bool.false_eq_true, if_false]

theorem scanArgs_completed : scanArgs py n (.str "emit_setup_completed") args found =
    .ok { found with completed := true } := by
  simp [scanArgs, Val.isText]

theorem scanArgs_advanced (h : found.lastAdvanceSeq < n) : scanArgs py n (.str "emit_setup_step_advanced") args found =
    .ok { found with lastAdvanceSeq := n, lastStep := some ((Dict.get args "step_id").text py) } := by
  simp [scanArgs, Val.isText, h]

/-- What writes of no interest to the setup leave as it was. -/
structure Same (py : Interp) (rows rows' : List LedgerRow) : Prop where
  scan : scan py rows' = scan py rows
  recorded : recorded py rows' = recorded py rows
  length : rows.length ≤ rows'.length

theorem Same.refl (rows : List LedgerRow) : Same py rows rows := ⟨rfl, rfl, le_rfl⟩

theorem Same.write (hscan : SetupConversation.scan py rows = .ok found) (hw : w.Writes company tool args)
    (hquiet : tool ∉ setupTools) : Same py rows (rows ++ w company n st) := by
  refine ⟨?_, ?_, by simp⟩
  · rw [scan_writes hscan hw, scanArgs_quiet hquiet, hscan]
  · rw [recorded_writes hw, if_neg, List.append_nil]
    rintro rfl
    exact hquiet (by simp [setupTools])

end

/-! ### The script -/

section
variable {script : SetupScript} {k : ℕ} {step : SetupStep}

theorem Linear.byId (hlinear : Linear script) (hk : script.steps[k]? = some step) : script.byId step.id = some step := by
  have hmem : step ∈ script.steps := List.mem_of_getElem? hk
  cases hfind : script.byId step.id with
  | none =>
    have habsent := List.find?_eq_none.mp hfind step hmem
    simp at habsent
  | some other =>
    have hid : other.id = step.id := by simpa using List.find?_some hfind
    rw [List.inj_on_of_nodup_map hlinear.distinct (List.mem_of_find?_eq_some hfind) hmem hid]

theorem Linear.nextAfter (hlinear : Linear script) (hk : script.steps[k]? = some step) :
    script.nextAfter step.id = script.steps[k + 1]? := by
  rw [SetupScript.nextAfter, hlinear.byId hk, Option.bind_some, hlinear.linked k step hk, SetupScript.ids,
    List.getElem?_map]
  cases hnext : script.steps[k + 1]? with
  | none => rfl
  | some step' => exact hlinear.byId hnext

theorem Linear.id_ne (hlinear : Linear script) (hk : script.steps[k]? = some step) : step.id ≠ "" := fun hempty =>
  hlinear.named (hempty ▸ List.mem_map_of_mem (List.mem_of_getElem? hk))

theorem take_ids_succ (hk : script.steps[k]? = some step) :
    script.ids.take (k + 1) = script.ids.take k ++ [step.id] := by
  rw [List.take_add_one, SetupScript.ids, List.getElem?_map, hk]
  rfl

/-- After the first `k` steps the next one is awaited. -/
theorem Linear.awaitingStep (hlinear : Linear script) (hk : script.steps[k]? = some step) :
    awaitingStep script (script.ids.take k).getLast? = step.id := by
  cases k with
  | zero =>
    obtain rfl := Option.some.inj hk
    rfl
  | succ k =>
    obtain ⟨last, hlast⟩ : ∃ last, script.steps[k]? = some last := by
      have hlt := (List.getElem?_eq_some_iff.mp hk).1
      exact ⟨_, List.getElem?_eq_getElem (by omega)⟩
    rw [take_ids_succ hlast, List.getLast?_concat, SetupConversation.awaitingStep, if_neg (hlinear.id_ne hlast),
      hlinear.nextAfter hlast, hk]
    rfl

end

/-! ### One cycle -/

section
variable {py : Interp} {lower : String → String} {script : SetupScript} {company : UUID} {rows : List LedgerRow}
  {found : Scan} {step : SetupStep} {a : Attempt} {value : String} {k : ℕ}

/-- The replies that are answered with an error are replies of the installer that are no answer. -/
theorem readReplies_asks {userId : String} {reprompt : ℕ → Except Err Unit} : ∀ {ms : List Reply} {k : ℕ},
    (readReplies py lower userId step reprompt k ms).1.Sublist ms ∧
      ∀ m ∈ (readReplies py lower userId step reprompt k ms).1,
        m.userId = userId ∧ (parseAnswer py lower step m.text).toOption.isNone = true
  | [], _ => ⟨List.Sublist.refl _, nofun⟩
  | m :: ms, k => by
    have hsame := @readReplies_asks userId reprompt ms k
    have hnext := @readReplies_asks userId reprompt ms (k + 1)
    rw [readReplies]
    by_cases huser : m.userId = userId
    · rw [if_neg (not_not.mpr huser)]
      cases hparse : parseAnswer py lower step m.text with
      | ok value => exact ⟨List.nil_sublist _, nofun⟩
      | error message =>
        cases reprompt k with
        | error x => exact ⟨List.nil_sublist _, nofun⟩
        | ok u =>
          refine ⟨hnext.1.cons_cons m, ?_⟩
          intro m' hm'
          rcases List.mem_cons.mp hm' with rfl | hm'
          · exact ⟨huser, by rw [hparse]; rfl⟩
          · exact hnext.2 m' hm'
    · rw [if_pos huser]
      exact ⟨hsame.1.cons m, hsame.2⟩

/-- Writes that the setup does not read, however many of them go through. -/
theorem emitAll_same : ∀ {ws : List Emission} {k : ℕ} {rows : List LedgerRow}, scan py rows = .ok found →
    (∀ w ∈ ws, ∃ tool args, w.Writes company tool args ∧ tool ∉ setupTools) →
    Same py rows (emitAll company a k rows ws).2
  | [], _, rows, _, _ => Same.refl rows
  | w :: ws, k, rows, hscan, hquiet => by
    rw [emitAll]
    cases a.written k with
    | error x => exact Same.refl rows
    | ok u =>
      obtain ⟨tool, args, hw, htool⟩ := hquiet w List.mem_cons_self
      have hfirst : Same py rows (rows ++ w company rows.length (a.stamp k)) := Same.write hscan hw htool
      have hrest := @emitAll_same ws (k + 1) _ (hfirst.scan.trans hscan) fun w' hw' =>
        hquiet w' (List.mem_cons_of_mem w hw')
      exact ⟨hrest.scan.trans hfirst.scan, hrest.recorded.trans hfirst.recorded, hfirst.length.trans hrest.length⟩

/-- An answer that does not complete the setup is only put into memory. -/
theorem dispatchOnAnswer_quiet (h : step.onAnswer ≠ "emit_setup_completed") (memoryId : ℕ → UUID) (completedAt : String) :
    ∀ w ∈ dispatchOnAnswer lower step value memoryId completedAt,
      ∃ tool args, w.Writes company tool args ∧ tool ∉ setupTools := by
  have hlog : ∀ id content tags, ∃ tool args, (memoryLog id content tags).Writes company tool args ∧
      tool ∉ setupTools := fun id content tags =>
    ⟨"emit_memory_written", _, fun n st => ⟨_, _, _, _, rfl, rfl, rfl⟩, by decide⟩
  intro w hw
  rw [dispatchOnAnswer] at hw
  split at hw
  · obtain rfl := List.mem_singleton.mp hw
    exact hlog _ _ _
  · obtain rfl := List.mem_singleton.mp hw
    exact hlog _ _ _
  · obtain ⟨j, hj, rfl⟩ := List.mem_mapIdx.mp hw
    exact hlog _ _ _
  · obtain rfl := List.mem_singleton.mp hw
    exact hlog _ _ _
  · rename_i hcompletes
    exact absurd hcompletes h
  · cases hw

theorem dispatchOnAnswer_completes (h : step.onAnswer = "emit_setup_completed") (memoryId : ℕ → UUID)
    (completedAt : String) :
    dispatchOnAnswer lower step value memoryId completedAt = [completeSetup completedAt] := by
  simp only [dispatchOnAnswer, h]

/-- The step is recorded; with the last one the setup is completed. -/
structure Advanced (py : Interp) (step : SetupStep) (found : Scan) (rows rows' : List LedgerRow) : Prop where
  scan : ∃ seq, rows.length < seq ∧ seq ≤ rows'.length ∧ scan py rows' = .ok { found with
    completed := found.completed || step.onAnswer = "emit_setup_completed", lastAdvanceSeq := seq
    lastStep := some step.id }
  recorded : recorded py rows' = recorded py rows ++ [step.id]

theorem advanceSetupStep_writes (stepId : String) (person : UUID) :
    (advanceSetupStep stepId person).Writes company "emit_setup_step_advanced"
      [(.str "tenant_id", .str company.str), (.str "step_id", .str stepId),
        (.str "advanced_by_person_id", .str person.str)] :=
  fun _ _ => ⟨_, _, _, _, rfl, rfl, rfl⟩

theorem completeSetup_writes (completedAt : String) : (completeSetup completedAt).Writes company "emit_setup_completed"
    [(.str "tenant_id", .str company.str), (.str "completed_at", .str completedAt)] :=
  fun _ _ => ⟨_, _, _, _, rfl, rfl, rfl⟩

/-- The write of an advance that goes through, after others that left the last advance where it was. -/
theorem advanced_write (hscan : scan py rows = .ok found) (hseq : found.lastAdvanceSeq ≤ rows.length) (person : UUID)
    (st : Stamp) : ∃ seq, rows.length < seq ∧
      seq ≤ (rows ++ advanceSetupStep step.id person company rows.length st).length ∧
      scan py (rows ++ advanceSetupStep step.id person company rows.length st) =
        .ok { found with lastAdvanceSeq := seq, lastStep := some step.id } ∧
      recorded py (rows ++ advanceSetupStep step.id person company rows.length st) = recorded py rows ++ [step.id] := by
  have hw := @advanceSetupStep_writes company step.id person
  have hid : (Dict.get [(.str "tenant_id", .str company.str), (.str "step_id", .str step.id),
      (.str "advanced_by_person_id", .str person.str)] "step_id").text py = step.id := Val.text_str py step.id
  refine ⟨rows.length + 2, by omega, ?_, ?_, ?_⟩
  · rw [List.length_append, hw.length]
    omega
  · rw [scan_writes hscan hw, scanArgs_advanced (by omega), hid]
  · rw [recorded_writes hw, if_pos rfl, hid]

/-- An answer either leaves the setup as it was, or its step is recorded: the two writes that complete the
    setup fail together or go through together. -/
theorem handleSetupAnswer_cases (hscan : scan py rows = .ok found) (hseq : found.lastAdvanceSeq ≤ rows.length)
    (sess : Session) (hcloses : step.onAnswer = "emit_setup_completed" → a.written 0 = .ok () → a.written 1 = .ok ()) :
    Same py rows (handleSetupAnswer lower company a sess step value rows).2 ∨
      Advanced py step found rows (handleSetupAnswer lower company a sess step value rows).2 := by
  rw [handleSetupAnswer]
  by_cases hcompletes : step.onAnswer = "emit_setup_completed"
  · rw [dispatchOnAnswer_completes hcompletes, emitAll]
    cases hfirst : a.written 0 with
    | error x => exact .inl (Same.refl rows)
    | ok u =>
      right
      have hw := @completeSetup_writes company a.completedAt
      have hsecond := hcloses hcompletes hfirst
      have hdone := @scan_writes py company rows found _ _ _ rows.length (a.stamp 0) hscan hw
      rw [scanArgs_completed] at hdone
      have hlength : (rows ++ completeSetup a.completedAt company rows.length (a.stamp 0)).length = rows.length + 4 := by
        rw [List.length_append, hw.length]
      obtain ⟨seq, hlt, hle, hafter, hsteps⟩ := @advanced_write py company _ _ step hdone
        (by simp only [hlength]; omega) sess.installer (a.stamp 1)
      simp only [emitAll, List.length_singleton, hsecond]
      refine ⟨⟨seq, by omega, hle, ?_⟩, ?_⟩
      · rw [hafter]
        simp [hcompletes]
      · rw [hsteps, recorded_writes hw, if_neg (by decide), List.append_nil]
  · have hsame := @emitAll_same py company found a (dispatchOnAnswer lower step value a.memoryId a.completedAt) 0 rows
      hscan (dispatchOnAnswer_quiet hcompletes _ _)
    cases hwrites : (emitAll company a 0 rows (dispatchOnAnswer lower step value a.memoryId a.completedAt)).1 with
    | error x =>
      left
      exact hsame
    | ok u =>
      simp only [emitAll]
      cases a.written (dispatchOnAnswer lower step value a.memoryId a.completedAt).length with
      | error x => exact .inl hsame
      | ok u' =>
        right
        obtain ⟨seq, hlt, hle, hafter, hsteps⟩ := @advanced_write py company _ _ step (hsame.scan.trans hscan)
          (hseq.trans hsame.length) sess.installer
          (a.stamp (dispatchOnAnswer lower step value a.memoryId a.completedAt).length)
        refine ⟨⟨seq, lt_of_le_of_lt hsame.length hlt, hle, ?_⟩, ?_⟩
        · rw [hafter]
          simp [hcompletes]
        · rw [hsteps, hsame.recorded]

end

/-! ### The invariant -/

section
variable {py : Interp} {lower : String → String} {script : SetupScript} {company : UUID} {t : Tenant py} {k seq : ℕ}
  {s : State} {rows : List LedgerRow} {step : SetupStep}

/-- The fold of a tenant that is done with `k` steps. -/
def Tenant.scanned (t : Tenant py) (script : SetupScript) (k seq : ℕ) : Scan :=
  ⟨some t.installer, some t.userId, some "slack", some "bot", decide (script.steps.length ≤ k), seq,
    (script.ids.take k).getLast?⟩

/-- The tenant is done with `k` steps, the last of them recorded at `seq`. -/
structure At (lower : String → String) (script : SetupScript) (t : Tenant py) (k seq : ℕ) (s : State) : Prop where
  bound : k ≤ script.steps.length
  recorded : recorded py s.rows = script.ids.take k
  scan : scan py s.rows = .ok (t.scanned script k seq)
  seq_le : seq ≤ s.rows.length
  chat_le : ∀ m ∈ s.chat, m.seq ≤ s.rows.length
  chat_nodup : s.chat.Nodup
  pending : ∀ step, script.steps[k]? = some step → ∀ m ∈ s.chat, seq < m.seq → m.userId = t.userId →
    (parseAnswer py lower step m.text).toOption.isNone = true → m ∈ s.invalid
  prior : ∀ p, s.prior = some p → p.lastAdvanceSeq ≤ seq
  prompted_sub : s.prompted ⊆ s.invalid
  prompted_nodup : s.prompted.Nodup

theorem At.start (t : Tenant py) : At lower script t 0 0 t.start where
  bound := Nat.zero_le _
  recorded := t.fresh
  scan := t.ready
  seq_le := Nat.zero_le _
  chat_le := nofun
  chat_nodup := List.nodup_nil
  pending := nofun
  prior := nofun
  prompted_sub := nofun
  prompted_nodup := List.nodup_nil

theorem At.progress (h : At lower script t k seq s) : Progress py script s := by
  refine ⟨?_, ?_, ?_⟩
  · rw [h.recorded]
    exact List.take_prefix k _
  · intro found hfound hcompleted
    obtain rfl := Except.ok.inj (h.scan.symm.trans hfound)
    have hall : script.steps.length ≤ k := by simpa [Tenant.scanned] using hcompleted
    rw [h.recorded, List.take_of_length_le (by simpa [SetupScript.ids] using hall)]
  · have hsub : s.prompted ⊆ s.invalid.dedup := fun m hm => List.mem_dedup.mpr (h.prompted_sub hm)
    exact (List.subperm_of_subset h.prompted_nodup hsub).length_le

theorem At.restart (h : At lower script t k seq s) : At lower script t k seq { s with prior := none } :=
  { h with prior := nofun }

theorem At.remember (h : At lower script t k seq s) {sess : Session} (hseq : sess.lastAdvanceSeq ≤ seq) :
    At lower script t k seq { s with prior := some sess } :=
  { h with prior := fun _ hp => Option.some.inj hp ▸ hseq }

/-- Rows that the setup does not read. -/
theorem At.same (h : At lower script t k seq s) (hsame : Same py s.rows rows) :
    At lower script t k seq { s with rows } :=
  { h with
    recorded := hsame.recorded.trans h.recorded
    scan := hsame.scan.trans h.scan
    seq_le := h.seq_le.trans hsame.length
    chat_le := fun m hm => (h.chat_le m hm).trans hsame.length }

/-- After an advance there is no reply left for the next step. -/
theorem At.advance (h : At lower script t k seq s) (hlinear : Linear script) (hk : script.steps[k]? = some step)
    (hadvanced : Advanced py step (t.scanned script k seq) s.rows rows) :
    ∃ seq', At lower script t (k + 1) seq' { s with rows } := by
  obtain ⟨seq', hlt, hle, hscan⟩ := hadvanced.scan
  have hklt : k < script.steps.length := (List.getElem?_eq_some_iff.mp hk).1
  refine ⟨seq', ?_⟩
  exact { h with
    bound := hklt
    recorded := by rw [hadvanced.recorded, h.recorded, take_ids_succ hk]
    scan := by
      rw [hscan, Tenant.scanned, Tenant.scanned, take_ids_succ hk, List.getLast?_concat]
      have hlast : (step.onAnswer = "emit_setup_completed") = (script.steps.length ≤ k + 1) :=
        propext ((hlinear.last k step hk).trans ⟨fun heq => heq.ge, fun hge => le_antisymm hklt hge⟩)
      simp only [hlast, decide_eq_false (not_le.mpr hklt), Bool.false_or]
    seq_le := hle
    chat_le := fun m hm => by
      have hm' := h.chat_le m hm
      simp only
      omega
    pending := fun step' _ m hm hseq => by
      have hm' := h.chat_le m hm
      omega
    prior := fun p hp => by
      have hp' := h.prior p hp
      have hseq := h.seq_le
      omega }

/-- Replies that are answered with an error for the first time. -/
theorem At.prompt (h : At lower script t k seq s) {found : List Reply} (hfound : ∀ m ∈ found, m ∈ s.invalid)
    (hnodup : found.Nodup) (hnew : ∀ m ∈ s.prompted, m ∉ found) :
    At lower script t k seq { s with prompted := s.prompted ++ found } :=
  { h with
    prompted_sub := fun m hm => (List.mem_append.mp hm).elim (fun hold => h.prompted_sub hold) (hfound m)
    prompted_nodup := List.Nodup.append h.prompted_nodup hnodup hnew }

/-- The session of a tenant that is not done. -/
theorem Linear.session (hlinear : Linear script) (hk : script.steps[k]? = some step) :
    (t.scanned script k seq).session script = some ⟨t.installer, t.userId, none, seq, step.id, []⟩ := by
  have hklt : k < script.steps.length := (List.getElem?_eq_some_iff.mp hk).1
  simp only [Tenant.scanned, Scan.session, decide_eq_false (not_le.mpr hklt), and_self, if_true,
    hlinear.awaitingStep hk]

theorem Linear.sessionStep (hlinear : Linear script) (hk : script.steps[k]? = some step) {sess : Session}
    (hawaiting : sess.awaitingStep = step.id) : sess.step script = some step := by
  rw [Session.step, hawaiting, if_neg (hlinear.id_ne hk), hlinear.byId hk]

theorem At.asked (h : At lower script t k seq s) (hlinear : Linear script) (hk : script.steps[k]? = some step) :
    asked py script s.rows = some (t.userId, step) := by
  rw [SetupConversation.asked, h.scan]
  simp only [hlinear.session hk, Option.bind_some]
  rw [hlinear.sessionStep hk rfl]
  rfl

theorem At.reply (h : At lower script t k seq s) (hlinear : Linear script) (userId text label messageId : String)
    (refId : UUID) (args : Dict) (st : Stamp) :
    At lower script t k seq (next py lower script company s (.reply userId text label messageId refId args st)) := by
  have hw : (chatReceived label messageId refId args).Writes company "channel_adapter.emit_chat_received" args :=
    fun _ _ => ⟨_, _, _, _, rfl, rfl, rfl⟩
  have hsame : Same py s.rows (s.rows ++ chatReceived label messageId refId args company s.rows.length st) :=
    Same.write h.scan hw (by decide)
  have hlength : (s.rows ++ chatReceived label messageId refId args company s.rows.length st).length =
      s.rows.length + 4 := by rw [List.length_append, hw.length]
  have hafter := h.same hsame
  have hgrows : ∀ m ∈ s.invalid, m ∈ (next py lower script company s
      (.reply userId text label messageId refId args st)).invalid := by
    intro m hm
    simp only [next]
    split
    · exact List.mem_append_left _ hm
    · exact hm
  exact { hafter with
    chat_le := fun m hm => by
      rcases List.mem_append.mp hm with hold | hnew
      · exact hafter.chat_le m hold
      · obtain rfl := List.mem_singleton.mp hnew
        simp only [next, hlength]
        omega
    chat_nodup := by
      refine List.Nodup.append h.chat_nodup (List.nodup_singleton _) fun m hold hnew => ?_
      obtain rfl := List.mem_singleton.mp hnew
      have hle := h.chat_le _ hold
      simp only at hle
      omega
    pending := fun step hk m hm hseq huser hparse => by
      rcases List.mem_append.mp hm with hold | hnew
      · exact hgrows m (h.pending step hk m hold hseq huser hparse)
      · obtain rfl := List.mem_singleton.mp hnew
        have hinvalid : isInvalid py lower script s.rows ⟨s.rows.length + 2, userId, text⟩ = true := by
          rw [isInvalid, h.asked hlinear hk]
          exact Bool.and_eq_true_iff.mpr ⟨decide_eq_true huser, hparse⟩
        simp only [next, hinvalid, if_true]
        exact List.mem_append_right _ (List.mem_singleton.mpr rfl)
    prompted_sub := fun m hm => hgrows m (h.prompted_sub hm) }

/-- A cycle that gets to the tenant. -/
theorem At.driveTenant (h : At lower script t k seq s) (hlinear : Linear script) (hk : script.steps[k]? = some step)
    {a : Attempt} (hsound : Sound py script s a) {sess : Session} (hinstaller : sess.userId = t.userId)
    (hseq : sess.lastAdvanceSeq = seq) (hawaiting : sess.awaitingStep = step.id) :
    ∃ k' seq', At lower script t k' seq' (driveTenant py lower script company a sess s).2 := by
  obtain ⟨installer, userId, dm, lastAdvanceSeq, awaiting, posted⟩ := sess
  obtain rfl : userId = t.userId := hinstaller
  obtain rfl : lastAdvanceSeq = seq := hseq
  obtain rfl : awaiting = step.id := hawaiting
  rw [SetupConversation.driveTenant]
  cases (Option.elim dm a.openDm .ok) with
  | error x => exact ⟨k, lastAdvanceSeq, h.remember le_rfl⟩
  | ok channel =>
    have hstep : Session.step ⟨installer, t.userId, some channel, lastAdvanceSeq, step.id, posted⟩ script = some step :=
      hlinear.sessionStep hk rfl
    simp only [hstep]
    split
    · cases a.post with
      | error x => exact ⟨k, lastAdvanceSeq, h.remember le_rfl⟩
      | ok u => exact ⟨k, lastAdvanceSeq, h.remember le_rfl⟩
    · cases hfetched : a.fetched with
      | error x => exact ⟨k, lastAdvanceSeq, h.remember le_rfl⟩
      | ok gives =>
        simp only
        obtain ⟨hsub, hasks⟩ := @readReplies_asks py lower step t.userId a.reprompt
          ((s.chat.filter fun m => lastAdvanceSeq < m.seq).filter gives) 0
        generalize readReplies py lower t.userId step a.reprompt 0
          ((s.chat.filter fun m => lastAdvanceSeq < m.seq).filter gives) = found at hsub hasks ⊢
        have hgiven : ∀ m ∈ found.1, m ∈ s.chat ∧ lastAdvanceSeq < m.seq ∧ gives m = true := by
          intro m hm
          obtain ⟨hpending, hgives⟩ := List.mem_filter.mp (hsub.subset hm)
          obtain ⟨hchat, hlt⟩ := List.mem_filter.mp hpending
          exact ⟨hchat, by simpa using hlt, hgives⟩
        have hprompted : At lower script t k lastAdvanceSeq { s with
            prior := some ⟨installer, t.userId, some channel, lastAdvanceSeq, step.id, posted⟩
            prompted := s.prompted ++ found.1 } := (h.prompt
          (fun m hm => h.pending step hk m (hgiven m hm).1 (hgiven m hm).2.1 (hasks m hm).1 (hasks m hm).2)
          (hsub.nodup ((h.chat_nodup.filter _).filter _))
          (fun m hold hm => by
            have hnot := hsound.fresh _ gives h.scan hfetched m hold (hgiven m hm).2.1
            rw [(hgiven m hm).2.2] at hnot
            cases hnot)).remember le_rfl
        obtain ⟨asks, outcome⟩ := found
        cases outcome with
        | error x => exact ⟨k, lastAdvanceSeq, hprompted⟩
        | ok answer =>
          cases answer with
          | none => exact ⟨k, lastAdvanceSeq, hprompted⟩
          | some value =>
            rcases @handleSetupAnswer_cases py lower company s.rows _ step a value h.scan h.seq_le ⟨installer, t.userId, some channel, lastAdvanceSeq, step.id, posted⟩
                (fun hcompletes => hsound.closes t.userId step (h.asked hlinear hk) hcompletes) with hsame | hadvanced
            · exact ⟨k, lastAdvanceSeq, hprompted.same hsame⟩
            · obtain ⟨seq', hafter⟩ := hprompted.advance hlinear hk hadvanced
              exact ⟨k + 1, seq', hafter⟩

theorem At.cycle (h : At lower script t k seq s) (hlinear : Linear script) {a : Attempt} (hsound : Sound py script s a) :
    ∃ k' seq', At lower script t k' seq' (next py lower script company s (.cycle a)) := by
  rw [next, runOnce]
  cases a.read with
  | error x => exact ⟨k, seq, h⟩
  | ok u =>
    simp only [Except.bind, h.scan]
    cases hk : script.steps[k]? with
    | none =>
      have hdone : script.steps.length ≤ k := List.getElem?_eq_none_iff.mp hk
      simp only [Tenant.scanned, Scan.session, hdone, decide_true, Bool.true_eq_false, and_false, if_false]
      exact ⟨k, seq, h⟩
    | some step =>
      rw [hlinear.session hk]
      simp only
      have hseq : (Session.rehydrate ⟨t.installer, t.userId, none, seq, step.id, []⟩ s.prior).lastAdvanceSeq = seq := by
        cases hprior : s.prior with
        | none => rfl
        | some p => exact max_eq_right (h.prior p hprior)
      have huser : (Session.rehydrate ⟨t.installer, t.userId, none, seq, step.id, []⟩ s.prior).userId = t.userId := by
        cases s.prior <;> rfl
      have hawaiting : (Session.rehydrate ⟨t.installer, t.userId, none, seq, step.id, []⟩ s.prior).awaitingStep =
          step.id := by
        cases s.prior <;> rfl
      split
      · exact h.driveTenant hlinear hk hsound huser hseq hawaiting
      · exact ⟨k, seq, h.remember hseq.le⟩

theorem At.next (h : At lower script t k seq s) (hlinear : Linear script) {op : Op} (hwithin : Within py script s op) :
    ∃ k' seq', At lower script t k' seq' (next py lower script company s op) := by
  cases op with
  | reply userId text label messageId refId args st =>
    exact ⟨k, seq, h.reply hlinear userId text label messageId refId args st⟩
  | cycle a => exact h.cycle hlinear hwithin
  | restart => exact ⟨k, seq, h.restart⟩

/-- Along every run in which the adapter gives no answered reply again and the setup is not completed without
    its last step, the steps are recorded in order, each once, with no more error messages than invalid
    replies. -/
theorem setup_progress (hlinear : Linear script) (t : Tenant py) {ops : List Op}
    (hwithin : Run.Guarded (SetupConversation.step py lower script company) (Within py script) t.start ops)
    (h : Run.exec (SetupConversation.step py lower script company) t.start ops = some s) : Progress py script s := by
  have hinvariant : ∃ k seq, At lower script t k seq s :=
    Run.guarded_invariant (I := fun s => ∃ k seq, At lower script t k seq s)
      (fun s op s' ⟨k, seq, hat⟩ hop hstep => Option.some.inj hstep ▸ hat.next hlinear hop)
      ⟨0, 0, At.start t⟩ hwithin h
  obtain ⟨k, seq, hat⟩ := hinvariant
  exact hat.progress

end

/-! ### A reply that the adapter gives twice -/

/-- A write of a tool with no more than its args. -/
def seeded (tool : String) (args : Dict) : Emission := fun company n st =>
  stampedRows company n st [] [(.str "tool", .str tool), (.str "args", .dict args)] [] []

theorem seeded_writes {company : UUID} (tool : String) (args : Dict) : (seeded tool args).Writes company tool args :=
  fun _ _ => ⟨_, _, _, _, rfl, rfl, rfl⟩

theorem scanArgs_installed {py : Interp} {n : ℕ} {found : Scan} {person : UUID} :
    scanArgs py n (.str "emit_install_completed")
      [(.str "platform", .str "slack"), (.str "installer_person_id", .str person.str)] found =
        .ok { found with platform := some "slack", installer := some person } := by
  have htruthy : (Val.str person.str).truthy = true := by
    have hback := UUID.toUUID_str person
    rw [Val.truthy, decide_eq_true_eq]
    intro hempty
    rw [hempty] at hback
    cases hback
  have hid : Dict.get [(.str "platform", .str "slack"), (.str "installer_person_id", .str person.str)]
      "installer_person_id" = .str person.str := rfl
  simp only [scanArgs, hid, htruthy, Val.toStr_str, UUID.toUUID_str]
  rfl

/-- A tenant with its install, its installer and the choice of the bot. -/
def onboarded : List LedgerRow :=
  seeded "emit_install_completed" [(.str "platform", .str "slack"), (.str "installer_person_id", .str (UUID.mk 7).str)]
      ⟨1⟩ 0 Projection.instantStamp ++
    seeded "emit_person_proposed" [(.str "person_id", .str (UUID.mk 7).str), (.str "platform", .str "slack"),
      (.str "platform_user_id", .str "UINSTALL")] ⟨1⟩ 4 Projection.instantStamp ++
    seeded "emit_setup_mode_chosen" [(.str "mode", .str "bot")] ⟨1⟩ 8 Projection.instantStamp

def carol : Tenant .plain where
  rows := onboarded
  installer := ⟨7⟩
  userId := "UINSTALL"
  ready := by
    have hinstall := @scan_writes .plain ⟨1⟩ [] .empty _ _ _ 0 Projection.instantStamp rfl (seeded_writes "emit_install_completed"
      [(.str "platform", .str "slack"), (.str "installer_person_id", .str (UUID.mk 7).str)])
    rw [scanArgs_installed] at hinstall
    have hperson := @scan_writes .plain ⟨1⟩ _ _ _ _ _ 4 Projection.instantStamp hinstall (seeded_writes "emit_person_proposed" [(.str "person_id", .str (UUID.mk 7).str), (.str "platform", .str "slack"),
      (.str "platform_user_id", .str "UINSTALL")])
    exact (@scan_writes .plain ⟨1⟩ _ _ _ _ _ 8 Projection.instantStamp (hperson.trans rfl) (seeded_writes "emit_setup_mode_chosen" [(.str "mode", .str "bot")])).trans rfl
  fresh := by decide +kernel

theorem saasDefault_linear : Linear saasDefault where
  distinct := by decide
  named := by decide
  linked
    | 0, _, rfl | 1, _, rfl | 2, _, rfl | 3, _, rfl | 4, _, rfl => rfl
  last
    | 0, _, rfl | 1, _, rfl | 2, _, rfl | 3, _, rfl | 4, _, rfl => by decide

/-- Everything works, and the adapter gives the history of the channel. -/
def smooth : Attempt where
  reached := true
  read := .ok ()
  openDm := .ok "D1"
  post := .ok ()
  fetched := .ok fun _ => true
  reprompt := fun _ => .ok ()
  written := fun _ => .ok ()
  stamp := fun _ => Projection.instantStamp
  memoryId := fun _ => ⟨0⟩
  completedAt := "2026-01-01T00:00:00Z"

def hello : Op := .reply "UINSTALL" "hello" "Carol" "1.0" ⟨5⟩ [] Projection.instantStamp

/-- `str.lower` on texts of ASCII characters. -/
def asciiLower (s : String) : String := String.ofList (s.toList.map Char.toLower)

theorem smooth_sound {py : Interp} {script : SetupScript} {s : State} (h : s.prompted = []) : Sound py script s smooth where
  fresh := fun _ _ _ _ _ hm => absurd (h ▸ hm) List.not_mem_nil
  closes := fun _ _ _ _ _ => rfl

/-- The first question, a reply that is no answer to it, and the error message. -/
theorem hello_progress : ∃ s, Run.exec (step .plain asciiLower saasDefault ⟨1⟩) carol.start
    [.cycle smooth, hello, .cycle smooth] = some s ∧ Progress .plain saasDefault s := by
  refine ⟨_, rfl, @setup_progress .plain asciiLower saasDefault ⟨1⟩ _ saasDefault_linear carol
    [.cycle smooth, hello, .cycle smooth] ?_ rfl⟩
  refine Run.guarded_cons (smooth_sound rfl) rfl (Run.guarded_cons trivial rfl
    (Run.guarded_cons (smooth_sound ?_) rfl trivial))
  decide +kernel

/-- One invalid reply is answered with an error in every cycle. -/
theorem hello_asked_again : ∃ s, Run.exec (step .plain asciiLower saasDefault ⟨1⟩) carol.start
    [.cycle smooth, hello, .cycle smooth, .cycle smooth] = some s ∧ ¬Progress .plain saasDefault s := by
  refine ⟨_, rfl, fun hprogress => ?_⟩
  have hinvalid := hprogress.asks.trans (List.dedup_sublist _).length_le
  revert hinvalid
  decide +kernel

end SetupConversation
