import Wormbase.ChannelAdapter.SessionParser
import Wormbase.Lib.Lines
import Wormbase.Lib.Run
import Mathlib.Data.List.Sort
import Mathlib.Data.String.Basic
import Mathlib.Logic.Function.Basic

/-! `tailer.py` and `state.py`: the tailer reads the session files line by line, the pump gives each event to the
    handler and saves how far it got.

    Everything outside the tailer comes as an action: writers append to the files, the handler and the save work or
    fail, and the process may restart at any time. -/

namespace ChannelAdapter
open Py Gateway Lines

/-! ### Offsets -/

/-- `OffsetState`, with what its file holds. A session without an offset is read from the start. -/
structure OffsetState where
  offsets : String → ℕ
  saved : String → ℕ

def OffsetState.get (o : OffsetState) (session : String) : ℕ := o.offsets session

def OffsetState.set (o : OffsetState) (session : String) (offset : ℕ) : OffsetState :=
  { o with offsets := Function.update o.offsets session offset }

/-- `save` leaves the file as it was when it fails. -/
def OffsetState.save (works : Bool) (o : OffsetState) : OffsetState := if works then { o with saved := o.offsets } else o

def OffsetState.load (o : OffsetState) : OffsetState := { o with offsets := o.saved }

/-! ### The tailer -/

/-- Where the tailer is: between two scans, between two files of one, or inside a file. `missed` says that an event
    of this reading of the file was not handled. -/
inductive Reader where
  | idle
  | scanning (queue : List String)
  | inside (session : String) (pos : ℕ) (queue : List String) (missed : Bool)
  deriving DecidableEq

/-- `passed` are the lines gone through, with their ends and whether they gave an event; `handled` the events the
    handler returned for. -/
structure State where
  sessions : List String
  distinct : sessions.Nodup
  content : String → Bytes
  offsets : OffsetState
  lastInbound : String → Option String
  reader : Reader
  passed : List (String × ℕ × Bool)
  handled : List (String × ℕ)

/-- No file yet, and no saved offset. -/
def State.start : State where
  sessions := []
  distinct := .nil
  content _ := []
  offsets := ⟨fun _ => 0, fun _ => 0⟩
  lastInbound _ := none
  reader := .idle
  passed := []
  handled := []

abbrev Lookup : Type := Option (DateTime → Option Envelope)

inductive Action where
  | append (session : String) (bytes : Bytes)
  | scan
  | next
  | read (lookup : Lookup) (handled saved : Bool)
  | restart

def fileName (session : String) : String := session ++ ".jsonl"

/-- `_is_relevant_jsonl`. -/
def isRelevant (session : String) : Bool :=
  !(fileName session).endsWith ".trajectory.jsonl" && !(fileName session).endsWith ".trajectory-path.json"

/-- The files of a scan, in the order of their names. -/
def State.queue (s : State) : List String :=
  (s.sessions.filter isRelevant).mergeSort fun a b => fileName a ≤ fileName b

def newline (b : UInt8) : Bool := b = 10

/-- `line.decode("utf-8")`. -/
def decodeUtf8 (line : Bytes) : Option String := String.fromUTF8? ⟨line.toArray⟩

theorem decodeUtf8_encodeUtf8 (s : List Char) : decodeUtf8 (encodeUtf8 s) = some (String.ofList s) := by
  have htext : (⟨(encodeUtf8 s).toArray⟩ : ByteArray) = (String.ofList s).toByteArray := rfl
  rw [decodeUtf8, htext, String.fromUTF8?, dif_pos (String.ofList s).isValidUTF8]
  rfl

section
variable (py : Interp) (chars : CharTable) (depth : ℕ)

/-- What a line of a session gives; a line that is no text is skipped. -/
def lineEvent (lookup : Lookup) (session : String) (last : Option String) (line : Bytes) :
    Except Err (Option ParsedEvent) :=
  match decodeUtf8 line with
  | none => .ok none
  | some rawLine => parseSessionLine py chars depth lookup session rawLine last

theorem lineEvent_text {lookup : Lookup} {session : String} {last : Option String} {text : List Char} :
    lineEvent py chars depth lookup session last (encodeUtf8 text) =
      parseSessionLine py chars depth lookup session (String.ofList text) last := by
  rw [lineEvent, decodeUtf8_encodeUtf8]

/-- The line is gone through, and the reading goes on behind it. -/
def State.pass (s : State) (session : String) (p : ℕ) (queue : List String) (missed event : Bool) : State :=
  { s with reader := .inside session p queue missed, passed := s.passed ++ [(session, p, event)] }

/-- `_last_inbound` after an event. -/
def State.note (s : State) (session : String) (e : ParsedEvent) : State :=
  match e with
  | .received e => { s with lastInbound := Function.update s.lastInbound session (some e.messageId) }
  | .sent _ => s

/-- The handler returned for an event: the offset moves behind it, and is saved if that works. -/
def State.keep (s : State) (session : String) (p : ℕ) (works : Bool) : State :=
  { s with offsets := (s.offsets.set session p).save works, handled := s.handled ++ [(session, p)] }

/-- `_scan_once`, `_read_from` and `pump`, one line at a time. -/
def State.step (s : State) : Action → Option State
  | .append session bytes => some { s with
      sessions := s.sessions.insert session
      distinct := s.distinct.insert
      content := Function.update s.content session (s.content session ++ bytes) }
  | .scan => match s.reader with
    | .idle => some { s with reader := .scanning s.queue }
    | _ => none
  | .next => match s.reader with
    | .scanning [] => some { s with reader := .idle }
    | .scanning (session :: queue) =>
      if (s.content session).length ≤ s.offsets.get session then some { s with reader := .scanning queue }
      else some { s with reader := .inside session (s.offsets.get session) queue false }
    | _ => none
  | .read lookup handled saved => match s.reader with
    | .inside session pos queue missed =>
      match nextLine newline (s.content session) pos with
      | none => some { s with reader := .scanning queue }
      | some (line, p) =>
        match lineEvent py chars depth lookup session (s.lastInbound session) line with
        -- the exception leaves the scan, and the next one starts over
        | .error _ => some { s with reader := .idle }
        | .ok none => some (s.pass session p queue missed false)
        | .ok (some e) =>
          if handled then some (((s.note session e).pass session p queue missed true).keep session p saved)
          else some ((s.note session e).pass session p queue true true)
    | _ => none
  | .restart => some { s with offsets := s.offsets.load, lastInbound := fun _ => none, reader := .idle }

/-- What a step inside a file can do. -/
inductive Reading (lookup : Lookup) (handled saved : Bool) (s : State) : State → Prop
  | close {session pos queue missed} (hreader : s.reader = .inside session pos queue missed)
      (hline : nextLine newline (s.content session) pos = none) :
      Reading lookup handled saved s { s with reader := .scanning queue }
  | raised {session pos queue missed line p err} (hreader : s.reader = .inside session pos queue missed)
      (hline : nextLine newline (s.content session) pos = some (line, p))
      (hevent : lineEvent py chars depth lookup session (s.lastInbound session) line = .error err) :
      Reading lookup handled saved s { s with reader := .idle }
  | skip {session pos queue missed line p} (hreader : s.reader = .inside session pos queue missed)
      (hline : nextLine newline (s.content session) pos = some (line, p))
      (hevent : lineEvent py chars depth lookup session (s.lastInbound session) line = .ok none) :
      Reading lookup handled saved s (s.pass session p queue missed false)
  | keep {session pos queue missed line p e} (hreader : s.reader = .inside session pos queue missed)
      (hline : nextLine newline (s.content session) pos = some (line, p))
      (hevent : lineEvent py chars depth lookup session (s.lastInbound session) line = .ok (some e))
      (hhandled : handled = true) :
      Reading lookup handled saved s (((s.note session e).pass session p queue missed true).keep session p saved)
  | miss {session pos queue missed line p e} (hreader : s.reader = .inside session pos queue missed)
      (hline : nextLine newline (s.content session) pos = some (line, p))
      (hevent : lineEvent py chars depth lookup session (s.lastInbound session) line = .ok (some e))
      (hhandled : handled = false) :
      Reading lookup handled saved s ((s.note session e).pass session p queue true true)

variable {py chars depth}

theorem reading_of_step {s s' : State} {lookup : Lookup} {handled saved : Bool}
    (h : s.step py chars depth (.read lookup handled saved) = some s') :
    Reading py chars depth lookup handled saved s s' := by
  simp only [State.step] at h
  split at h
  · rename_i session pos queue missed hreader
    split at h
    · rename_i hline
      cases h
      exact .close hreader hline
    · rename_i line p hline
      split at h
      · rename_i err hevent
        cases h
        exact .raised hreader hline hevent
      · rename_i hevent
        cases h
        exact .skip hreader hline hevent
      · rename_i e hevent
        cases handled with
        | true =>
          cases h
          exact .keep hreader hline hevent rfl
        | false =>
          cases h
          exact .miss hreader hline hevent rfl
  · cases h

theorem step_of_reading {s s' : State} {lookup : Lookup} {handled saved : Bool}
    (h : Reading py chars depth lookup handled saved s s') :
    s.step py chars depth (.read lookup handled saved) = some s' := by
  cases h with
  | close hreader hline => simp only [State.step, hreader, hline]
  | raised hreader hline hevent => simp only [State.step, hreader, hline, hevent]
  | skip hreader hline hevent => simp only [State.step, hreader, hline, hevent]
  | keep hreader hline hevent hhandled => simp only [State.step, hreader, hline, hevent, hhandled, if_true]
  | miss hreader hline hevent hhandled => simp [State.step, hreader, hline, hevent, hhandled]

end

@[simp] theorem State.note_content (s : State) (session : String) (e : ParsedEvent) :
    (s.note session e).content = s.content := by cases e <;> rfl

@[simp] theorem State.note_offsets (s : State) (session : String) (e : ParsedEvent) :
    (s.note session e).offsets = s.offsets := by cases e <;> rfl

@[simp] theorem State.note_passed (s : State) (session : String) (e : ParsedEvent) :
    (s.note session e).passed = s.passed := by cases e <;> rfl

@[simp] theorem State.note_handled (s : State) (session : String) (e : ParsedEvent) :
    (s.note session e).handled = s.handled := by cases e <;> rfl

@[simp] theorem State.note_reader (s : State) (session : String) (e : ParsedEvent) :
    (s.note session e).reader = s.reader := by cases e <;> rfl

/-- Only the session of the event has a new offset. -/
theorem State.get_keep (s : State) (session t : String) (p : ℕ) (works : Bool) :
    (s.keep session p works).offsets.get t = if t = session then p else s.offsets.get t := by
  cases works <;> exact Function.update_apply ..

end ChannelAdapter
