import Wormbase.ChannelAdapter.Tailer

/-! When the tailer loses an event: the saved offset of a session passes a line whose event was not handled.

    The pump leaves the offset of a failed event where it was, but the reading goes on behind the event, and the next
    one that is handled moves the offset over both. -/

namespace ChannelAdapter
open Py Gateway Lines

/-- Every line of a session up to a place has been gone through. -/
def PassedTo (s : State) (session : String) (pos : ℕ) : Prop :=
  ∀ p, IsEnd newline (s.content session) p → p ≤ pos → ∃ event, (session, p, event) ∈ s.passed

/-- Every event of a session up to a place has been handled. -/
def HandledTo (s : State) (session : String) (pos : ℕ) : Prop :=
  ∀ p, (session, p, true) ∈ s.passed → p ≤ pos → (session, p) ∈ s.handled

/-- No offset has passed a line that was not gone through, or gave an event that was not handled. -/
def NoneLost (s : State) : Prop :=
  ∀ session pos, pos = s.offsets.get session ∨ pos = s.offsets.saved session →
    PassedTo s session pos ∧ HandledTo s session pos

section
variable (py : Interp) (chars : CharTable) (depth : ℕ)

/-- In a reading of a file the handler does not return for an event after it failed for an earlier one, and a line
    whose event is not handled yet gives an event again. -/
def Retried (s : State) : Action → Prop
  | .read lookup handled _ =>
    match s.reader with
    | .inside session pos _ missed =>
      match nextLine newline (s.content session) pos with
      | none => True
      | some (line, p) =>
        match lineEvent py chars depth lookup session (s.lastInbound session) line with
        | .error _ => True
        | .ok none => (session, p, true) ∈ s.passed → (session, p) ∈ s.handled
        | .ok (some _) => handled = true → missed = false
    | _ => True
  | _ => True

end

/-! ### What every run keeps -/

structure InsideHeld (s : State) (session : String) (pos : ℕ) (missed : Bool) : Prop where
  behind : s.offsets.get session ≤ pos
  within : pos ≤ (s.content session).length
  passed : PassedTo s session pos
  handled : missed = false → HandledTo s session pos

structure Held (s : State) : Prop where
  saved_le : ∀ session, s.offsets.saved session ≤ s.offsets.get session
  ends : ∀ session p event, (session, p, event) ∈ s.passed → IsEnd newline (s.content session) p
  within : ∀ session, s.offsets.get session ≤ (s.content session).length
  passed : ∀ session, PassedTo s session (s.offsets.get session)
  handled : ∀ session, HandledTo s session (s.offsets.get session)
  inside : ∀ session pos queue missed, s.reader = .inside session pos queue missed → InsideHeld s session pos missed

variable {s s' : State} {session t : String} {pos p q : ℕ} {queue : List String} {missed event : Bool}

theorem PassedTo.mono (h : PassedTo s session q) (hpos : pos ≤ q) : PassedTo s session pos :=
  fun p hend hp => h p hend (hp.trans hpos)

theorem HandledTo.mono (h : HandledTo s session q) (hpos : pos ≤ q) : HandledTo s session pos :=
  fun p hmem hp => h p hmem (hp.trans hpos)

theorem Held.noneLost (h : Held s) : NoneLost s := by
  rintro session pos (rfl | rfl)
  · exact ⟨h.passed session, h.handled session⟩
  · exact ⟨(h.passed session).mono (h.saved_le session), (h.handled session).mono (h.saved_le session)⟩

theorem Held.start : Held .start where
  saved_le _ := le_rfl
  ends _ _ _ hmem := absurd hmem List.not_mem_nil
  within _ := le_rfl
  passed := by
    rintro session p ⟨q, c, rfl, hc, -⟩ -
    cases hc
  handled _ _ hmem := absurd hmem List.not_mem_nil
  inside _ _ _ _ hreader := nomatch hreader

/-- What a message leaves for the next reply does not matter here. -/
theorem Held.note (h : Held s) (e : ParsedEvent) : Held (s.note session e) := by
  cases e with
  | received e =>
    refine ⟨h.saved_le, h.ends, h.within, h.passed, h.handled, ?_⟩
    intro t pos queue missed hreader
    have hin := h.inside t pos queue missed hreader
    exact ⟨hin.behind, hin.within, hin.passed, hin.handled⟩
  | sent e => exact h

/-- A reader outside of the files holds nothing. -/
theorem Held.outside (h : Held s) (reader : Reader) (hout : ∀ session pos queue missed,
    reader ≠ .inside session pos queue missed) : Held { s with reader } :=
  ⟨h.saved_le, h.ends, h.within, h.passed, h.handled, fun session pos queue missed hreader =>
    absurd hreader (hout session pos queue missed)⟩

/-- A restart goes back to the saved offsets. -/
theorem Held.restart (h : Held s) :
    Held { s with offsets := s.offsets.load, lastInbound := fun _ => none, reader := .idle } :=
  ⟨fun _ => le_rfl, h.ends, fun t => (h.saved_le t).trans (h.within t), fun t => (h.passed t).mono (h.saved_le t),
    fun t => (h.handled t).mono (h.saved_le t), fun _ _ _ _ hreader => nomatch hreader⟩

/-- A file is read from the offset on, and nothing of this reading is missed yet. -/
theorem Held.enter (h : Held s) (session : String) (queue : List String) :
    Held { s with reader := .inside session (s.offsets.get session) queue false } := by
  refine ⟨h.saved_le, h.ends, h.within, h.passed, h.handled, ?_⟩
  intro t pos queue' missed hreader
  obtain ⟨rfl, rfl, rfl, rfl⟩ := Reader.inside.inj hreader
  exact ⟨le_rfl, h.within session, h.passed session, fun _ => h.handled session⟩

/-! ### Appends -/

theorem PassedTo.append {content : String → Bytes} {sessions : List String} {distinct : sessions.Nodup} {bytes : Bytes}
    (h : PassedTo s t pos) (hpos : pos ≤ (s.content t).length)
    (hcontent : content = Function.update s.content session (s.content session ++ bytes)) :
    PassedTo { s with sessions, distinct, content } t pos := by
  subst hcontent
  intro p hend hp
  apply h p ?_ hp
  rcases eq_or_ne t session with rfl | hne
  · exact IsEnd.of_append (by simpa using hend) (hp.trans hpos)
  · simpa [hne] using hend

theorem length_append (content : String → Bytes) (session t : String) (bytes : Bytes) :
    (content t).length ≤ (Function.update content session (content session ++ bytes) t).length := by
  rcases eq_or_ne t session with rfl | hne
  · simp
  · simp [hne]

theorem Held.append (h : Held s) {bytes : Bytes} (hstep : s' = { s with
      sessions := s.sessions.insert session
      distinct := s.distinct.insert
      content := Function.update s.content session (s.content session ++ bytes) }) : Held s' := by
  subst hstep
  have hlen := fun t => length_append s.content session t bytes
  refine ⟨h.saved_le, ?_, fun t => (h.within t).trans (hlen t), fun t => (h.passed t).append (h.within t) rfl,
    h.handled, ?_⟩
  · intro t p event hmem
    have hend := h.ends t p event hmem
    rcases eq_or_ne t session with rfl | hne
    · simpa using hend.append bytes
    · simpa [hne] using hend
  · intro t pos queue missed hreader
    have hin := h.inside t pos queue missed hreader
    exact ⟨hin.behind, hin.within.trans (hlen t), hin.passed.append hin.within rfl, hin.handled⟩

/-! ### Lines -/

theorem PassedTo.pass (h : PassedTo s t pos) : PassedTo (s.pass session p queue missed event) t pos := by
  intro q hend hq
  obtain ⟨event, hmem⟩ := h q hend hq
  exact ⟨event, List.mem_append_left _ hmem⟩

/-- The next line is the only one up to its end that was not gone through. -/
theorem PassedTo.next {line : Bytes} (h : PassedTo s session pos)
    (hline : nextLine newline (s.content session) pos = some (line, p)) :
    PassedTo (s.pass session p queue missed event) session p := by
  obtain ⟨-, -, honly⟩ := nextLine_end hline
  intro q hend hq
  rcases Nat.lt_or_ge pos q with hlt | hle
  · obtain rfl := honly q hend hlt hq
    exact ⟨event, by simp [State.pass]⟩
  · exact h.pass q hend hle

theorem HandledTo.next {line : Bytes} (h : HandledTo s session pos)
    (hends : ∀ session p event, (session, p, event) ∈ s.passed → IsEnd newline (s.content session) p)
    (hline : nextLine newline (s.content session) pos = some (line, p))
    (hp : (session, p, true) ∈ s.passed → (session, p) ∈ s.handled) : HandledTo s session p := by
  obtain ⟨-, -, honly⟩ := nextLine_end hline
  intro q hmem hq
  rcases Nat.lt_or_ge pos q with hlt | hle
  · obtain rfl := honly q (hends session q true hmem) hlt hq
    exact hp hmem
  · exact h q hmem hle

/-- A line gone through matters for the places behind it, if it gave an event. -/
theorem HandledTo.pass (h : HandledTo s t pos) (hlater : event = true → t = session → pos < p) :
    HandledTo (s.pass session p queue missed event) t pos := by
  intro q hmem hq
  rcases List.mem_append.mp hmem with hold | hnew
  · exact h q hold hq
  · obtain ⟨rfl, rfl, rfl⟩ : t = session ∧ q = p ∧ true = event := by simpa using hnew
    have := hlater rfl rfl
    omega

theorem ends_pass {line : Bytes} (h : Held s) (hline : nextLine newline (s.content session) pos = some (line, p)) :
    ∀ t q e, (t, q, e) ∈ s.passed ++ [(session, p, event)] → IsEnd newline (s.content t) q := by
  intro t q e hmem
  rcases List.mem_append.mp hmem with hold | hnew
  · exact h.ends t q e hold
  · obtain ⟨rfl, rfl, rfl⟩ : t = session ∧ q = p ∧ e = event := by simpa using hnew
    exact (nextLine_end hline).2.1

/-- A line is gone through that gave no event, or one the handler failed for. -/
theorem Held.pass {line : Bytes} {missed' : Bool} (h : Held s)
    (hreader : s.reader = .inside session pos queue missed)
    (hline : nextLine newline (s.content session) pos = some (line, p))
    (hnext : missed' = false → HandledTo (s.pass session p queue missed' event) session p) :
    Held (s.pass session p queue missed' event) := by
  have hin := h.inside session pos queue missed hreader
  obtain ⟨hlt, hend, -⟩ := nextLine_end hline
  refine ⟨h.saved_le, ends_pass h hline, h.within, fun t => (h.passed t).pass, ?_, ?_⟩
  · intro t
    apply (h.handled t).pass
    rintro - rfl
    exact lt_of_le_of_lt hin.behind hlt
  · rintro t q queue' missed'' hinside
    obtain ⟨rfl, rfl, rfl, rfl⟩ := Reader.inside.inj hinside
    exact ⟨hin.behind.trans hlt.le, hend.le_length, hin.passed.next hline, hnext⟩

theorem Held.skip {line : Bytes} (h : Held s) (hreader : s.reader = .inside session pos queue missed)
    (hline : nextLine newline (s.content session) pos = some (line, p))
    (hwaits : (session, p, true) ∈ s.passed → (session, p) ∈ s.handled) :
    Held (s.pass session p queue missed false) := by
  apply h.pass hreader hline
  intro hmissed
  have hhandled := (h.inside session pos queue missed hreader).handled hmissed
  exact (hhandled.next h.ends hline hwaits).pass (by intro hfalse; cases hfalse)

theorem Held.miss {line : Bytes} (h : Held s) (hreader : s.reader = .inside session pos queue missed)
    (hline : nextLine newline (s.content session) pos = some (line, p)) :
    Held (s.pass session p queue true true) :=
  h.pass hreader hline (by intro hfalse; cases hfalse)

theorem Held.keep {line : Bytes} {works : Bool} (h : Held s) (hreader : s.reader = .inside session pos queue false)
    (hline : nextLine newline (s.content session) pos = some (line, p)) :
    Held ((s.pass session p queue false true).keep session p works) := by
  have hin := h.inside session pos queue false hreader
  obtain ⟨hlt, hend, honly⟩ := nextLine_end hline
  have hget : ∀ t, ((s.pass session p queue false true).keep session p works).offsets.get t =
      if t = session then p else s.offsets.get t := fun t => State.get_keep ..
  have hmore : ∀ t, s.offsets.get t ≤ if t = session then p else s.offsets.get t := by
    intro t
    split
    · rename_i ht
      exact ht ▸ hin.behind.trans hlt.le
    · exact le_rfl
  have hpassed : PassedTo (s.pass session p queue false true) session p := hin.passed.next hline
  have hpast : HandledTo ((s.pass session p queue false true).keep session p works) session p := by
    intro q hmem hq
    rcases List.mem_append.mp hmem with hold | hnew
    · rcases Nat.lt_or_ge pos q with hafter | hle
      · obtain rfl := honly q (h.ends session q true hold) hafter hq
        simp [State.keep]
      · exact List.mem_append_left _ (hin.handled rfl q hold hle)
    · obtain rfl : q = p := by simpa using hnew
      simp [State.keep]
  refine ⟨?_, ends_pass h hline, ?_, ?_, ?_, ?_⟩
  · intro t
    rw [hget t]
    cases works with
    | true => exact (hget t).le
    | false => exact (h.saved_le t).trans (hmore t)
  · intro t
    rw [hget t]
    split
    · rename_i ht
      exact ht ▸ hend.le_length
    · exact h.within t
  · intro t
    rw [hget t]
    split
    · rename_i ht
      exact ht ▸ hpassed
    · have hother : PassedTo (s.pass session p queue false true) t (s.offsets.get t) := (h.passed t).pass
      exact hother
  · intro t
    rw [hget t]
    split
    · rename_i ht
      exact ht ▸ hpast
    · rename_i ht
      intro q hmem hq
      rcases List.mem_append.mp hmem with hold | hnew
      · exact List.mem_append_left _ (h.handled t q hold hq)
      · exact absurd (by simpa using hnew : t = session ∧ q = p).1 ht
  · rintro t q queue' missed' hinside
    obtain ⟨rfl, rfl, rfl, rfl⟩ := Reader.inside.inj hinside
    refine ⟨?_, hend.le_length, hpassed, fun _ => hpast⟩
    rw [hget, if_pos rfl]

/-! ### Runs -/

section
variable {py : Interp} {chars : CharTable} {depth : ℕ}

theorem Held.reading {lookup : Lookup} {handled saved : Bool} (h : Held s)
    (hretried : Retried py chars depth s (.read lookup handled saved))
    (hread : Reading py chars depth lookup handled saved s s') : Held s' := by
  cases hread with
  | close hreader hline => exact h.outside _ (by intros; nofun)
  | raised hreader hline hevent => exact h.outside _ (by intros; nofun)
  | @skip session pos queue missed line p hreader hline hevent =>
    simp only [Retried, hreader, hline, hevent] at hretried
    exact h.skip hreader hline hretried
  | @keep session pos queue missed line p e hreader hline hevent hhandled =>
    simp only [Retried, hreader, hline, hevent] at hretried
    obtain rfl := hretried hhandled
    have hnote : Held (s.note session e) := h.note e
    exact hnote.keep (by simpa using hreader) (by simpa using hline)
  | @miss session pos queue missed line p e hreader hline hevent hhandled =>
    have hnote : Held (s.note session e) := h.note e
    exact hnote.miss (by simpa using hreader) (by simpa using hline)

theorem held_step {a : Action} (h : Held s) (hretried : Retried py chars depth s a)
    (hstep : s.step py chars depth a = some s') : Held s' := by
  cases a with
  | append session bytes => exact h.append (Option.some.inj hstep).symm
  | scan =>
    simp only [State.step] at hstep
    split at hstep
    · cases hstep
      exact h.outside _ (by intros; intro h; cases h)
    · cases hstep
  | next =>
    simp only [State.step] at hstep
    split at hstep
    · cases hstep
      exact h.outside _ (by intros; intro h; cases h)
    · split at hstep
      · cases hstep
        exact h.outside _ (by intros; intro h; cases h)
      · cases hstep
        exact h.enter _ _
    · cases hstep
  | read lookup handled saved => exact h.reading hretried (reading_of_step hstep)
  | restart =>
    cases hstep
    exact h.restart

end

/-- In a run where no later event of a reading is handled after a failed one, no event is lost. -/
theorem tailing_loses_nothing {py : Interp} {chars : CharTable} {depth : ℕ} {actions : List Action}
    (hrun : Run.exec (State.step py chars depth) .start actions = some s')
    (hretried : Run.Guarded (State.step py chars depth) (Retried py chars depth) .start actions) : NoneLost s' :=
  (Run.guarded_invariant (fun _ _ _ => held_step) Held.start hretried hrun).noneLost

/-! ### Two replies -/

/-- A final reply of the agent, as it stands in a session file. -/
def replyText : List Char := render (.obj [("type", .str "message"), ("timestamp", .str "2026-05-01T10:00:00Z"),
  ("message", .obj [("role", .str "assistant"), ("stopReason", .str "stop"),
    ("content", .arr [.obj [("type", .str "text"), ("text", .str "Done.")]])])])

def replyLine : Bytes := encodeUtf8 (replyText ++ ['\n'])

/-- The state when the only file, just written, has been opened. -/
def opened (content : Bytes) : State :=
  { State.start with
    sessions := ["s"]
    distinct := List.nodup_singleton "s"
    content := Function.update (fun _ => []) "s" content
    reader := .inside "s" 0 [] false }

theorem step_append {content : Bytes} : State.step .plain .ascii 100 .start (.append "s" content) =
    some { opened content with reader := .idle } := by
  simp [State.step, State.start, opened]

theorem step_next {content : Bytes} (hne : content ≠ []) :
    State.step .plain .ascii 100 { opened content with reader := .scanning ["s"] } .next = some (opened content) := by
  simp [State.step, opened, State.start, OffsetState.get, hne]

theorem step_scan {content : Bytes} : State.step .plain .ascii 100 { opened content with reader := .idle } .scan =
    some { opened content with reader := .scanning ["s"] } := by
  have hqueue : (["s"].filter isRelevant).mergeSort (fun a b => fileName a ≤ fileName b) = ["s"] := by decide +kernel
  simp only [State.step, State.queue, opened, hqueue]

/-- A file is written, found by a scan and opened. -/
theorem exec_opened {content : Bytes} {actions : List Action} (hne : content ≠ [])
    (h : Run.exec (State.step .plain .ascii 100) (opened content) actions = some s') :
    Run.exec (State.step .plain .ascii 100) .start (.append "s" content :: .scan :: .next :: actions) = some s' :=
  Run.exec_cons.mpr ⟨_, step_append, Run.exec_cons.mpr ⟨_, step_scan, Run.exec_cons.mpr ⟨_, step_next hne, h⟩⟩⟩

theorem encodeUtf8_append (s t : List Char) : encodeUtf8 (s ++ t) = encodeUtf8 s ++ encodeUtf8 t := by
  simp [encodeUtf8, String.ofList_append]

theorem replyLine_eq : replyLine = encodeUtf8 replyText ++ [10] := encodeUtf8_append replyText ['\n']

theorem reply_plain : ∀ b ∈ encodeUtf8 replyText, newline b = false := by decide +kernel

def isSent : Except Err (Option ParsedEvent) → Bool
  | .ok (some (.sent _)) => true
  | _ => false

theorem isSent_iff {x : Except Err (Option ParsedEvent)} : isSent x = true ↔ ∃ e, x = .ok (some (.sent e)) := by
  constructor
  · rcases x with _ | _ | _ | e
    · nofun
    · nofun
    · nofun
    · exact fun _ => ⟨e, rfl⟩
  · rintro ⟨e, rfl⟩
    rfl

theorem reply_parsed :
    isSent (parseSessionLine .plain .ascii 100 none "s" (String.ofList (replyText ++ ['\n'])) none) = true := by
  have htext : stripText (String.ofList (replyText ++ ['\n'])) = String.ofList replyText := by
    rw [stripText, String.toList_ofList]
    exact congrArg String.ofList (by decide +kernel)
  unfold parseSessionLine
  simp only [htext, String.toList_ofList]
  decide +kernel

/-- The line is given to the handler as a reply. -/
theorem reply_event : ∃ e, lineEvent .plain .ascii 100 none "s" none replyLine = .ok (some (.sent e)) :=
  isSent_iff.mp ((congrArg isSent (lineEvent_text ..)).trans reply_parsed)

theorem opened_reader (content : Bytes) : (opened content).reader = .inside "s" 0 [] false := rfl

theorem opened_passed (content : Bytes) : (opened content).passed = [] := rfl

theorem opened_content (content : Bytes) : (opened content).content "s" = content := by simp [opened]

theorem first_reply {rest : Bytes} :
    nextLine newline ((opened (replyLine ++ rest)).content "s") 0 = some (replyLine, replyLine.length) := by
  have hline := @nextLine_line UInt8 newline [] _ rest 10 reply_plain rfl
  rw [opened_content, replyLine_eq]
  simpa using hline

theorem second_reply : nextLine newline ((opened (replyLine ++ replyLine)).content "s") replyLine.length =
    some (replyLine, replyLine.length + replyLine.length) := by
  have hline := @nextLine_line UInt8 newline replyLine _ [] 10 reply_plain rfl
  rw [← replyLine_eq] at hline
  rw [opened_content]
  simpa [replyLine_eq] using hline

theorem replies_ne : replyLine ++ replyLine ≠ [] := by simp [replyLine_eq]

theorem retried_fresh {py : Interp} {chars : CharTable} {depth : ℕ} {lookup : Lookup} {handled saved : Bool}
    (hreader : s.reader = .inside session pos queue false) (hpassed : s.passed = []) :
    Retried py chars depth s (.read lookup handled saved) := by
  unfold Retried
  simp only [hreader, hpassed]
  repeat' split
  all_goals simp

theorem guarded_opened {content : Bytes} : Run.Guarded (State.step .plain .ascii 100) (Retried .plain .ascii 100)
    (opened content) [.read none true true] :=
  ⟨retried_fresh (opened_reader content) (opened_passed content), fun _ _ => trivial⟩

/-- A reply that the handler returns for. -/
theorem tailing_keeps_reply : ∃ s', Run.exec (State.step .plain .ascii 100) .start
    [.append "s" (replyLine ++ replyLine), .scan, .next, .read none true true] = some s' ∧ NoneLost s' := by
  obtain ⟨e, hevent⟩ := reply_event
  have hread := step_of_reading (@Reading.keep .plain .ascii 100 none true true (opened (replyLine ++ replyLine))
    _ _ _ _ _ _ _ rfl first_reply hevent rfl)
  have hrun : Run.exec (State.step .plain .ascii 100) .start
      [.append "s" (replyLine ++ replyLine), .scan, .next, .read none true true] = some _ :=
    exec_opened replies_ne (Run.exec_cons.mpr ⟨_, hread, rfl⟩)
  refine ⟨_, hrun, tailing_loses_nothing hrun ?_⟩
  exact Run.guarded_cons trivial step_append (Run.guarded_cons trivial step_scan
    (Run.guarded_cons trivial (step_next replies_ne) guarded_opened))

/-- The handler fails for the first of two replies and returns for the second: the offset passes both. -/
theorem failed_reply_is_lost : ¬ ∀ actions s', Run.exec (State.step .plain .ascii 100) .start actions = some s' →
    NoneLost s' := by
  intro hall
  obtain ⟨e, hevent⟩ := reply_event
  let s₁ := ((opened (replyLine ++ replyLine)).note "s" (.sent e)).pass "s" replyLine.length [] true true
  let s₂ := ((s₁.note "s" (.sent e)).pass "s" (replyLine.length + replyLine.length) [] true true).keep "s"
    (replyLine.length + replyLine.length) true
  have hmiss : State.step .plain .ascii 100 (opened (replyLine ++ replyLine)) (.read none false true) = some s₁ :=
    step_of_reading (.miss rfl first_reply hevent rfl)
  have hcontent : s₁.content = (opened (replyLine ++ replyLine)).content := State.note_content ..
  have hlast : s₁.lastInbound "s" = none := rfl
  have hkeep : State.step .plain .ascii 100 s₁ (.read none true true) = some s₂ :=
    step_of_reading (.keep rfl (by rw [hcontent, second_reply]) (by rw [hlast, hevent]) rfl)
  have hrun : Run.exec (State.step .plain .ascii 100) .start
      [.append "s" (replyLine ++ replyLine), .scan, .next, .read none false true, .read none true true] = some s₂ :=
    exec_opened replies_ne (Run.exec_cons.mpr ⟨_, hmiss, Run.exec_cons.mpr ⟨_, hkeep, rfl⟩⟩)
  have hpassed : ("s", replyLine.length, true) ∈ s₂.passed := by simp [s₂, s₁, State.keep, State.pass]
  have hsaved : s₂.offsets.saved "s" = replyLine.length + replyLine.length := by
    simp [s₂, State.keep, OffsetState.save, OffsetState.set]
  have hhandled : s₂.handled = [("s", replyLine.length + replyLine.length)] := by
    simp [s₂, s₁, State.keep, State.pass, opened, State.start]
  have hlost := (hall _ s₂ hrun "s" _ (.inr rfl)).2 replyLine.length hpassed (by omega)
  have hne : replyLine.length ≠ 0 := by simp [replyLine_eq]
  simp [hhandled, hne] at hlost

end ChannelAdapter
