import Wormbase.ChannelAdapter.Tailing

/-! Which lines one scan goes through: all that are unread, unless one of them is not readable. The exception such a
    line raises leaves the whole scan, and the next scan meets the line again. -/

namespace ChannelAdapter
open Py Gateway Lines

/-- The complete lines of a session from a place on, with their ends. -/
def State.linesOf (s : State) (session : String) (pos : ℕ) : List (String × Bytes × ℕ) :=
  (linesFrom newline pos [] ((s.content session).drop pos)).map (session, ·)

/-- The complete lines behind the offset of a session. -/
def State.unread (s : State) (session : String) : List (String × Bytes × ℕ) := s.linesOf session (s.offsets.get session)

/-- What a scan still has to go through. -/
def State.remaining (s : State) : List (String × Bytes × ℕ) :=
  match s.reader with
  | .idle => []
  | .scanning queue => queue.flatMap s.unread
  | .inside session pos queue _ => s.linesOf session pos ++ queue.flatMap s.unread

/-- The session and the end of a line. -/
def lineEnd (l : String × Bytes × ℕ) : String × ℕ := (l.1, l.2.2)

/-- The lines gone through, by session and end. -/
def State.passedEnds (s : State) : List (String × ℕ) := s.passed.map fun l => (l.1, l.2.1)

/-- Each file is scanned once. -/
def State.QueueDistinct (s : State) : Prop :=
  match s.reader with
  | .idle => True
  | .scanning queue => queue.Nodup
  | .inside session _ queue _ => (session :: queue).Nodup

/-- A step of the scan: the files do not change meanwhile. -/
def Action.OfScan : Action → Prop
  | .next | .read .. => True
  | _ => False

section
variable (depth : ℕ)

/-- A line that is no text, or is readable. -/
structure ReadableLine (line : Bytes) : Prop where
  readable : ∀ rawLine, decodeUtf8 line = some rawLine → Readable depth rawLine

/-- How many steps the scan may still take, the lines apart. -/
def Reader.weight : Reader → ℕ
  | .idle => 0
  | .scanning queue => 2 * queue.length + 1
  | .inside _ _ queue _ => 2 * queue.length + 2

def State.work (s : State) : ℕ := s.remaining.length + s.reader.weight

/-- The scan goes on through the next lines it has to. -/
structure GoesOn (s s' : State) : Prop where
  distinct : s'.QueueDistinct
  shrinks : s'.work < s.work
  lines : ∃ gone, s.remaining = gone ++ s'.remaining ∧ s'.passedEnds = s.passedEnds ++ gone.map lineEnd ∧
    ∀ l ∈ gone, ReadableLine depth l.2.1

/-- The scan ends at a line it cannot read. -/
structure Stuck (s s' : State) : Prop where
  idle : s'.reader = .idle
  passed : s'.passed = s.passed
  line : ∃ l rest, s.remaining = l :: rest ∧ ¬ ReadableLine depth l.2.1

end

variable {py : Interp} {chars : CharTable} {depth : ℕ} {s s' : State}

theorem lineEvent_ok_iff {lookup : Lookup} {session : String} {last : Option String} {line : Bytes} :
    (∃ e, lineEvent py chars depth lookup session last line = .ok e) ↔ ReadableLine depth line := by
  rw [show ReadableLine depth line ↔ ∀ rawLine, decodeUtf8 line = some rawLine → Readable depth rawLine from
    ⟨ReadableLine.readable, ReadableLine.mk⟩, lineEvent]
  split
  · rename_i hnone
    simp [hnone]
  · rename_i rawLine hsome
    simp only [hsome, Option.some.injEq, forall_eq']
    exact parseSessionLine_ok_iff

theorem readable_of_ok {lookup : Lookup} {session : String} {last : Option String} {line : Bytes}
    {e : Option ParsedEvent} (h : lineEvent py chars depth lookup session last line = .ok e) : ReadableLine depth line :=
  lineEvent_ok_iff.mp ⟨e, h⟩

/-! ### Steps of a scan -/

theorem linesOf_some {session : String} {pos : ℕ} {line : Bytes} {p : ℕ}
    (hline : nextLine newline (s.content session) pos = some (line, p)) :
    s.linesOf session pos = (session, line, p) :: s.linesOf session p := by
  rw [State.linesOf, nextLine_some hline, List.map_cons, State.linesOf]

theorem linesOf_none {session : String} {pos : ℕ} (hline : nextLine newline (s.content session) pos = none) :
    s.linesOf session pos = [] := by
  rw [State.linesOf, nextLine_none hline, List.map_nil]

/-- A file that has not grown behind the offset has no unread line. -/
theorem unread_nil {session : String} (hsize : (s.content session).length ≤ s.offsets.get session) :
    s.unread session = [] := by
  rw [State.unread, State.linesOf, List.drop_eq_nil_of_le hsize]
  rfl

/-- A step between two lines. -/
theorem GoesOn.idly (hdistinct : s'.QueueDistinct) (hremaining : s.remaining = s'.remaining)
    (hpassed : s'.passed = s.passed) (hweight : s'.reader.weight < s.reader.weight) : GoesOn depth s s' := by
  refine ⟨hdistinct, ?_, [], hremaining, by simp [State.passedEnds, hpassed], by simp⟩
  rw [State.work, State.work, hremaining]
  omega

/-- What is unread in the other files does not depend on how far the reader is in this one. -/
theorem unread_congr {queue : List String} (hcontent : s'.content = s.content)
    (hoffsets : ∀ t ∈ queue, s'.offsets.get t = s.offsets.get t) : queue.flatMap s'.unread = queue.flatMap s.unread := by
  apply List.flatMap_congr
  intro t ht
  simp only [State.unread, State.linesOf, hcontent, hoffsets t ht]

/-- One line is gone through. -/
theorem GoesOn.line {session : String} {pos : ℕ} {queue : List String} {missed missed' : Bool} {line : Bytes} {p : ℕ}
    (hdistinct : s.QueueDistinct) (hreader : s.reader = .inside session pos queue missed)
    (hline : nextLine newline (s.content session) pos = some (line, p)) (hreadable : ReadableLine depth line)
    (hcontent : s'.content = s.content) (hoffsets : ∀ t, t ≠ session → s'.offsets.get t = s.offsets.get t)
    (hreader' : s'.reader = .inside session p queue missed')
    (hpassed : ∃ event, s'.passed = s.passed ++ [(session, p, event)]) :
    GoesOn depth s s' := by
  have hnodup : (session :: queue).Nodup := by simpa only [State.QueueDistinct, hreader] using hdistinct
  have hrest : queue.flatMap s'.unread = queue.flatMap s.unread := by
    apply unread_congr hcontent
    rintro t ht
    apply hoffsets t
    rintro rfl
    exact (List.nodup_cons.mp hnodup).1 ht
  have hlines : s'.linesOf session p = s.linesOf session p := by simp only [State.linesOf, hcontent]
  obtain ⟨event, hpassed⟩ := hpassed
  have hremaining : s.remaining = [(session, line, p)] ++ s'.remaining := by
    simp only [State.remaining, hreader, hreader', linesOf_some hline, hrest, hlines, List.cons_append,
      List.nil_append]
  refine ⟨by simpa only [State.QueueDistinct, hreader'] using hnodup, ?_, [(session, line, p)], hremaining, ?_, ?_⟩
  · rw [State.work, State.work, hremaining, hreader, hreader', List.length_append, List.length_singleton]
    simp only [Reader.weight]
    omega
  · simp [State.passedEnds, hpassed, lineEnd]
  · simpa using hreadable

theorem step_read {lookup : Lookup} {handled saved : Bool} (hdistinct : s.QueueDistinct)
    (hread : Reading py chars depth lookup handled saved s s') : GoesOn depth s s' ∨ Stuck depth s s' := by
  cases hread with
  | close hreader hline =>
    refine .inl (.idly ?_ ?_ rfl ?_)
    · simp only [State.QueueDistinct, hreader] at hdistinct
      exact (List.nodup_cons.mp hdistinct).2
    · simp only [State.remaining, hreader, linesOf_none hline, List.nil_append]
      rfl
    · simp [hreader, Reader.weight]
  | @raised session pos queue missed line p err hreader hline hevent =>
    refine .inr ⟨rfl, rfl, (session, line, p), s.linesOf session p ++ queue.flatMap s.unread, ?_, ?_⟩
    · simp only [State.remaining, hreader, linesOf_some hline, List.cons_append]
    · intro hreadable
      obtain ⟨e, he⟩ := lineEvent_ok_iff.mpr hreadable
      rw [hevent] at he
      cases he
  | @skip session pos queue missed line p hreader hline hevent =>
    have hreadable : ReadableLine depth line := readable_of_ok hevent
    exact .inl (.line hdistinct hreader hline hreadable rfl (fun _ _ => rfl) rfl ⟨false, rfl⟩)
  | @keep session pos queue missed line p e hreader hline hevent hhandled =>
    have hreadable : ReadableLine depth line := readable_of_ok hevent
    refine .inl (.line hdistinct hreader hline hreadable ?_ ?_ rfl ⟨true, ?_⟩)
    · simp [State.keep, State.pass]
    · intro t hne
      rw [State.get_keep, if_neg hne]
      simp [State.pass]
    · simp [State.keep, State.pass]
  | @miss session pos queue missed line p e hreader hline hevent hhandled =>
    have hreadable : ReadableLine depth line := readable_of_ok hevent
    refine .inl (.line hdistinct hreader hline hreadable ?_ ?_ rfl ⟨true, ?_⟩)
    · simp [State.pass]
    · intro t _
      simp [State.pass]
    · simp [State.pass]

theorem step_ofScan {a : Action} (ha : a.OfScan) (hdistinct : s.QueueDistinct)
    (hstep : s.step py chars depth a = some s') : GoesOn depth s s' ∨ Stuck depth s s' := by
  cases a with
  | append session bytes => exact ha.elim
  | scan => exact ha.elim
  | restart => exact ha.elim
  | read lookup handled saved => exact step_read hdistinct (reading_of_step hstep)
  | next =>
    left
    simp only [State.step] at hstep
    split at hstep
    · rename_i hreader
      cases hstep
      exact .idly trivial (by simp [State.remaining, hreader]) rfl (by simp [hreader, Reader.weight])
    · rename_i session queue hreader
      have hnodup : (session :: queue).Nodup := by simpa only [State.QueueDistinct, hreader] using hdistinct
      split at hstep
      · rename_i hsize
        cases hstep
        refine .idly (List.nodup_cons.mp hnodup).2 ?_ rfl (by simp [hreader, Reader.weight])
        simp only [State.remaining, hreader, List.flatMap_cons, unread_nil hsize, List.nil_append]
        rfl
      · cases hstep
        refine .idly hnodup ?_ rfl (by simp [hreader, Reader.weight, Nat.mul_add])
        simp only [State.remaining, hreader, List.flatMap_cons]
        rfl
    · cases hstep

theorem not_step_idle {a : Action} (hidle : s.reader = .idle) (ha : a.OfScan) :
    ¬ s.step py chars depth a = some s' := by
  cases a with
  | append session bytes => exact ha.elim
  | scan => exact ha.elim
  | restart => exact ha.elim
  | next => simp [State.step, hidle]
  | read lookup handled saved => simp [State.step, hidle]

/-! ### A whole scan -/

/-- The scan goes through the rest of its lines exactly if they are all readable. -/
theorem passed_iff : ∀ {actions : List Action} {s : State}, s.QueueDistinct → (∀ a ∈ actions, a.OfScan) →
    Run.exec (State.step py chars depth) s actions = some s' → s'.reader = .idle →
      (s'.passedEnds = s.passedEnds ++ s.remaining.map lineEnd ↔ ∀ l ∈ s.remaining, ReadableLine depth l.2.1)
  | [], s, _, _, hrun, hidle => by
    cases hrun
    simp [State.remaining, hidle]
  | a :: actions, s, hdistinct, hscan, hrun, hidle => by
    obtain ⟨t, ht, hrest⟩ := Run.exec_cons.mp hrun
    obtain ⟨ha, hactions⟩ := List.forall_mem_cons.mp hscan
    rcases step_ofScan ha hdistinct ht with hgoes | hstuck
    · obtain ⟨gone, hremaining, hpassed, hreadable⟩ := hgoes.lines
      have hnext := passed_iff hgoes.distinct hactions hrest hidle
      rw [hremaining, List.map_append, ← List.append_assoc, ← hpassed, hnext, List.forall_mem_append]
      exact (and_iff_right hreadable).symm
    · obtain ⟨l, rest, hremaining, hline⟩ := hstuck.line
      have hend : s' = t := by
        cases actions with
        | nil => exact (Option.some.inj hrest).symm
        | cons b actions =>
          obtain ⟨u, hu, -⟩ := Run.exec_cons.mp hrest
          exact absurd hu (not_step_idle hstuck.idle (List.forall_mem_cons.mp hactions).1)
      subst hend
      rw [hremaining]
      constructor
      · intro hall
        simp [State.passedEnds, hstuck.passed] at hall
      · intro hall
        exact absurd (hall l List.mem_cons_self) hline

/-- Until the scan is over a step of it can be taken. -/
theorem scan_progress (lookup : Lookup) (handled saved : Bool) (hbusy : s.reader ≠ .idle) :
    ∃ a, (a = .next ∨ a = .read lookup handled saved) ∧ ∃ t, s.step py chars depth a = some t := by
  cases hreader : s.reader with
  | idle => exact absurd hreader hbusy
  | scanning queue =>
    refine ⟨.next, .inl rfl, ?_⟩
    cases queue with
    | nil => simp [State.step, hreader]
    | cons session queue =>
      simp only [State.step, hreader]
      split
      · exact ⟨_, rfl⟩
      · exact ⟨_, rfl⟩
  | inside session pos queue missed =>
    refine ⟨.read lookup handled saved, .inr rfl, ?_⟩
    simp only [State.step, hreader]
    split
    · exact ⟨_, rfl⟩
    · split
      · exact ⟨_, rfl⟩
      · exact ⟨_, rfl⟩
      · split
        · exact ⟨_, rfl⟩
        · exact ⟨_, rfl⟩

theorem step_shrinks {a : Action} (ha : a.OfScan) (hdistinct : s.QueueDistinct)
    (hstep : s.step py chars depth a = some s') : s'.QueueDistinct ∧ s'.work < s.work := by
  rcases step_ofScan ha hdistinct hstep with hgoes | hstuck
  · exact ⟨hgoes.distinct, hgoes.shrinks⟩
  · obtain ⟨l, rest, hremaining, -⟩ := hstuck.line
    have hdone : s'.work = 0 := by simp [State.work, State.remaining, hstuck.idle, Reader.weight]
    refine ⟨by simp only [State.QueueDistinct, hstuck.idle], ?_⟩
    rw [hdone, State.work, hremaining, List.length_cons]
    omega

/-- Every scan comes to its end. -/
theorem scan_ends (lookup : Lookup) (handled saved : Bool) : ∀ (n : ℕ) (s : State), s.work ≤ n → s.QueueDistinct →
    ∃ actions s', (∀ a ∈ actions, a = .next ∨ a = .read lookup handled saved) ∧
      Run.exec (State.step py chars depth) s actions = some s' ∧ s'.reader = .idle
  | n, s, hwork, hdistinct => by
    by_cases hidle : s.reader = .idle
    · exact ⟨[], s, by simp, rfl, hidle⟩
    · obtain ⟨a, ha, t, ht⟩ := @scan_progress py chars depth s lookup handled saved hidle
      have hscan : a.OfScan := by rcases ha with rfl | rfl <;> trivial
      obtain ⟨hnext, hless⟩ := step_shrinks hscan hdistinct ht
      cases n with
      | zero => omega
      | succ n =>
        obtain ⟨actions, s', hactions, hrun, hend⟩ := scan_ends lookup handled saved n t (by omega) hnext
        exact ⟨a :: actions, s', List.forall_mem_cons.mpr ⟨ha, hactions⟩, Run.exec_cons.mpr ⟨t, ht, hrun⟩, hend⟩

/-- What a scan that starts now has to go through. -/
def State.unreadLines (s : State) : List (String × Bytes × ℕ) := s.queue.flatMap s.unread

theorem mem_unreadLines_iff {session : String} {p : ℕ} : (session, p) ∈ s.unreadLines.map lineEnd ↔
    (session ∈ s.sessions ∧ isRelevant session) ∧ s.offsets.get session < p ∧
      IsEnd newline (s.content session) p := by
  have hqueue : session ∈ s.queue ↔ session ∈ s.sessions ∧ isRelevant session := by
    rw [State.queue, List.mem_mergeSort, List.mem_filter]
  rw [← hqueue, ← mem_lines_iff]
  simp only [State.unreadLines, List.mem_map, List.mem_flatMap, State.unread, State.linesOf, lineEnd, Prod.mk.injEq]
  constructor
  · rintro ⟨_, ⟨t, ht, ⟨line, q⟩, hline, rfl⟩, rfl, rfl⟩
    exact ⟨ht, line, hline⟩
  · rintro ⟨ht, line, hline⟩
    exact ⟨(session, line, p), ⟨session, ht, (line, p), hline, rfl⟩, rfl, rfl⟩

theorem queue_nodup : s.queue.Nodup :=
  (List.mergeSort_perm _ _).nodup_iff.mpr (s.distinct.filter _)

/-- A line is parsed exactly if it is readable, each scan ends, and it has gone through every complete unread line of
    every session file exactly if all of them are readable. -/
theorem scan_reads_all {actions : List Action} (hidle : s.reader = .idle) (hscan : ∀ a ∈ actions, a.OfScan)
    (hrun : Run.exec (State.step py chars depth) s (.scan :: actions) = some s') (hend : s'.reader = .idle) :
    (∀ lookup session rawLine last,
      (∃ e, parseSessionLine py chars depth lookup session rawLine last = .ok e) ↔ Readable depth rawLine) ∧
    (∀ lookup handled saved, ∃ others t, (∀ a ∈ others, a = .next ∨ a = .read lookup handled saved) ∧
      Run.exec (State.step py chars depth) s (.scan :: others) = some t ∧ t.reader = .idle) ∧
    (∀ session p, (session, p) ∈ s.unreadLines.map lineEnd ↔ (session ∈ s.sessions ∧ isRelevant session) ∧
      s.offsets.get session < p ∧ IsEnd newline (s.content session) p) ∧
    (s'.passedEnds = s.passedEnds ++ s.unreadLines.map lineEnd ↔
      ∀ l ∈ s.unreadLines, ReadableLine depth l.2.1) := by
  have hstart : s.step py chars depth .scan = some { s with reader := .scanning s.queue } := by
    simp only [State.step, hidle]
  refine ⟨fun _ _ _ _ => parseSessionLine_ok_iff, ?_, fun _ _ => mem_unreadLines_iff, ?_⟩
  · intro lookup handled saved
    obtain ⟨others, t, hothers, ht, hdone⟩ := scan_ends lookup handled saved _ { s with reader := .scanning s.queue }
      le_rfl queue_nodup
    exact ⟨others, t, hothers, Run.exec_cons.mpr ⟨_, hstart, ht⟩, hdone⟩
  · obtain ⟨t, ht, hrest⟩ := Run.exec_cons.mp hrun
    obtain rfl := Option.some.inj (hstart.symm.trans ht)
    have hdistinct : State.QueueDistinct { s with reader := .scanning s.queue } := @queue_nodup s
    exact passed_iff hdistinct hscan hrest hend

/-- A line that is no JSON is gone through. -/
theorem scan_reads_plain_line : ∃ s', Run.exec (State.step .plain .ascii 100) { opened [120, 10] with reader := .idle }
      [.scan, .next, .read none true true, .read none true true, .next] = some s' ∧
    (s'.passedEnds = [("s", 2)] ↔ ReadableLine 100 [120, 10]) := by
  have hrun : (Run.exec (State.step .plain .ascii 100) { opened [120, 10] with reader := .idle }
      [.scan, .next, .read none true true, .read none true true, .next]).map State.reader = some .idle := by
    decide +kernel
  obtain ⟨s', hs', hend⟩ := Option.map_eq_some_iff.mp hrun
  have hall := (scan_reads_all rfl (by simp [Action.OfScan]) hs' hend).2.2.2
  have hlines : State.unreadLines { opened [120, 10] with reader := .idle } = [("s", [120, 10], 2)] := by decide +kernel
  rw [hlines] at hall
  exact ⟨s', hs', by simpa [State.passedEnds, opened, State.start, lineEnd] using hall⟩

/-- A list on a line raises, and no scan comes to the line behind it. -/
theorem list_line_stops_scan :
    (¬ ∃ e, parseSessionLine .plain .ascii 100 none "a" "[1]\n" none = .ok e) ∧
    ∃ s', Run.exec (State.step .plain .ascii 100) .start
        [.append "a" (encodeUtf8 ['[', '1', ']', '\n', 'x', '\n']), .scan, .next, .read none true true] = some s' ∧
      s'.reader = .idle ∧ s'.passed = [] ∧ ("a", 6) ∈ s'.unreadLines.map lineEnd := by
  constructor
  · rintro ⟨e, he⟩
    have hraise : (parseSessionLine .plain .ascii 100 none "a" "[1]\n" none).toOption.isNone = true := by decide +kernel
    rw [he] at hraise
    cases hraise
  · have hrun : (Run.exec (State.step .plain .ascii 100) .start
        [.append "a" (encodeUtf8 ['[', '1', ']', '\n', 'x', '\n']), .scan, .next, .read none true true]).any
          (fun s => s.reader = .idle && s.passed.isEmpty && (s.unreadLines.map lineEnd).contains ("a", 6)) = true := by
      decide +kernel
    obtain ⟨s', hs', hend⟩ := (Option.any_eq_true _ _).mp hrun
    simp only [Bool.and_eq_true, decide_eq_true_eq, List.isEmpty_iff, List.contains_iff_mem] at hend
    exact ⟨s', hs', hend.1.1, hend.1.2, hend.2⟩

end ChannelAdapter
