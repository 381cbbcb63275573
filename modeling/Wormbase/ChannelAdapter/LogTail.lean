import Wormbase.ChannelAdapter.Tailer
import Wormbase.Lib.Table
import Mathlib.Data.List.Induction

/-! `openclaw_log_tail.py`: the tailer follows the log of the day, and a poll hands on the lines that are complete.

    Writers append to the files, cut them, remove them and start the next day's between any two polls. The watcher of
    the WhatsApp envelopes polls in the same way. -/

namespace ChannelAdapter.OpenClawLogTailer
open Py Lines

/-- A file of the log directory; `base` is how much of it was there when the tailer first opened a log. -/
structure Log where
  name : String
  bytes : Bytes
  base : ℕ
  deriving DecidableEq

/-- `_current_path` and `_fh`, which are set and cleared together. A file that is removed stays open: `gone` is what the
    handle reads then. -/
structure Handle where
  path : String
  gone : Option Log
  pos : ℕ
  deriving DecidableEq

/-- `appended` are the complete lines written since the tailer first opened a log, `handed` those `_handle_line` got. -/
structure State where
  logs : Table Log.name
  handle : Option Handle
  started : Bool
  appended : List Bytes
  handed : List Bytes

def State.start : State := ⟨.empty, none, false, [], []⟩

/-- A file that is not there is empty. -/
def State.log (s : State) (name : String) : Log := (s.logs.get? name).getD ⟨name, [], 0⟩

/-- What the handle reads. -/
def State.file (s : State) (h : Handle) : Log := h.gone.getD (s.log h.path)

/-- What a poll meets: the day, whether the directory is listed, the file opened and found again, and the lines
    `_handle_line` raises for. -/
structure Poll where
  today : String
  lists : Bool
  opens : Bool
  found : Bool
  raises : Bytes → Bool

inductive Action where
  | append (name : String) (bytes : Bytes)
  | truncate (name : String) (size : ℕ)
  | remove (name : String)
  | poll (p : Poll)

/-! ### What writers do -/

/-- The line that is being written, as far as it came since the first open. -/
def Log.unended (l : Log) : Bytes := Lines.unended newline [] (l.bytes.drop l.base)

/-- The lines that are complete with what is appended. -/
def Log.completed (l : Log) (bytes : Bytes) : List Bytes :=
  (linesFrom newline l.bytes.length l.unended bytes).map Prod.fst

def State.append (s : State) (name : String) (bytes : Bytes) : State := { s with
  logs := s.logs.put { s.log name with bytes := (s.log name).bytes ++ bytes }
  appended := if s.started then s.appended ++ (s.log name).completed bytes else s.appended }

def State.truncate (s : State) (name : String) (size : ℕ) : State :=
  match s.logs.get? name with
  | none => s
  | some l => { s with logs := s.logs.put { l with bytes := l.bytes.take size, base := min l.base size } }

def Handle.unlink (h : Handle) (name : String) (l : Option Log) : Handle :=
  if h.path = name ∧ h.gone = none then { h with gone := l } else h

def State.remove (s : State) (name : String) : State := { s with
  logs := s.logs.erase name
  handle := s.handle.map fun h => h.unlink name (s.logs.get? name) }

/-! ### The poll -/

/-- `openclaw-*.log`. -/
def isLog (name : String) : Bool := name.startsWith "openclaw-" && name.endsWith ".log"

/-- `_latest_log_path`: the log of today, else the last by name. -/
def latestLogPath (p : Poll) (names : List String) : Option String :=
  let candidate := "openclaw-" ++ p.today ++ ".log"
  if candidate ∈ names then some candidate
  else if p.lists then ((names.filter isLog).mergeSort fun a b => a ≤ b).getLast? else none

/-- The size at the first open is what the lines since then are counted from. -/
def Log.mark (l : Log) : Log := { l with base := l.bytes.length }

/-- `_open_at_end`. -/
def State.openAtEnd (s : State) (path : String) (opens : Bool) : State :=
  if opens then { s with
    logs := if s.started then s.logs else s.logs.mapRows Log.mark fun _ => rfl
    handle := some ⟨path, none, (s.log path).bytes.length⟩
    started := true }
  else { s with handle := none }

/-- The lines up to the first one that `_handle_line` raises for, which ends the poll. -/
def handedOn (raises : Bytes → Bool) : List (Bytes × ℕ) → List (Bytes × ℕ)
  | [] => []
  | (line, p) :: lines => if raises line then [(line, p)] else (line, p) :: handedOn raises lines

/-- The `readline` loop. A line that is not complete is left to the next poll. -/
def State.drain (s : State) (raises : Bytes → Bool) (h : Handle) : State :=
  let lines := handedOn raises (linesFrom newline h.pos [] ((s.file h).bytes.drop h.pos))
  { s with
    handle := some { h with pos := lines.getLast?.elim h.pos Prod.snd }
    handed := s.handed ++ lines.map Prod.fst }

/-- `seek(0)` where the file is shorter than the position; `path` is what `stat` looks at, not the open file. -/
def Handle.rewind (h : Handle) (size : ℕ) : Handle := if size < h.pos then { h with pos := 0 } else h

def State.readOn (s : State) (path : String) (p : Poll) : State :=
  match s.handle with
  | none => s
  | some h => if p.found then s.drain p.raises (h.rewind (s.log path).bytes.length) else { s with handle := none }

/-- `_tick`. -/
def State.tick (s : State) (p : Poll) : State :=
  match latestLogPath p (s.logs.rows.map Log.name) with
  | none => s
  | some path =>
    if s.handle.map Handle.path = some path then s.readOn path p else (s.openAtEnd path p.opens).readOn path p

def State.step (s : State) : Action → State
  | .append name bytes => s.append name bytes
  | .truncate name size => s.truncate name size
  | .remove name => s.remove name
  | .poll p => s.tick p

def after (actions : List Action) : State := actions.foldl State.step .start

/-! ### What loses no line -/

/-- The complete lines of the open file that are not handed on yet, each with the place after it. -/
def State.unread (s : State) : List (Bytes × ℕ) :=
  match s.handle with
  | none => []
  | some h =>
    let pos := (h.rewind (s.file h).bytes.length).pos
    linesFrom newline pos [] ((s.file h).bytes.drop pos)

/-- The handle reads the file of this name. -/
structure State.Follows (s : State) (h : Handle) (name : String) : Prop where
  handle : s.handle = some h
  path : h.path = name
  there : h.gone = none

/-- A switch leaves nothing unread, and the file it goes to is not in the middle of a line. -/
structure State.SwitchesAtLine (s : State) (path : String) (p : Poll) : Prop where
  unread : s.unread = []
  line : s.started = true → p.opens = true → p.found = true → (s.log path).unended = []

/-- A poll of the file that is open finds it, and finds it cut exactly when it is. -/
structure State.SeesFile (s : State) (h : Handle) (p : Poll) : Prop where
  lost : p.found = false → s.unread = []
  cut : p.found = true → ((s.log h.path).bytes.length < h.pos ↔ (s.file h).bytes.length < h.pos)

/-- Complete lines go into the open log only, and after a cut it does not grow back to the position before it is
    polled. A cut takes no line that is unread, and keeps either nothing or all that was read. -/
def Meets (s : State) : Action → Prop
  | .append name bytes =>
    (∀ h, s.Follows h name → (s.file h).bytes.length < h.pos → (s.file h).bytes.length + bytes.length < h.pos) ∧
      (s.started = true → (∀ h, ¬s.Follows h name) → (s.log name).completed bytes = [])
  | .truncate name size => ∀ h, s.Follows h name → (size = 0 ∨ h.pos ≤ size) ∧ ∀ l ∈ s.unread, l.2 ≤ size
  | .remove _ => True
  | .poll p =>
    match latestLogPath p (s.logs.rows.map Log.name) with
    | none => s.unread = []
    | some path => match s.handle with
      | none => s.SwitchesAtLine path p
      | some h => if h.path = path then s.SeesFile h p else s.SwitchesAtLine path p

/-- Every step of the history meets the condition. -/
def Sound (actions : List Action) : Prop :=
  ∀ before a rest, actions = before ++ a :: rest → Meets (after before) a

/-- What a poll ends with: every line is handed on, or it ended at a line that `_handle_line` raised for. -/
def State.Polled (s : State) (p : Poll) : Prop :=
  (s.tick p).handed = (s.tick p).appended ∨
    ∃ lines line, (s.tick p).handed = s.handed ++ (lines ++ [line]) ∧ p.raises line = true

/-- The lines that are handed on are at all times the first of those appended, in their order, and after a poll they
    are all of them. -/
structure HandedOnce (actions : List Action) : Prop where
  inOrder : ∀ before, before <+: actions → (after before).handed <+: (after before).appended
  polled : ∀ before p rest, actions = before ++ .poll p :: rest → (after before).Polled p

/-! ### One file under a position -/

/-- Where the next poll reads on. -/
def Log.place (l : Log) (pos : ℕ) : ℕ := if l.bytes.length < pos then 0 else pos

def Log.linesAt (l : Log) (pos : ℕ) : List (Bytes × ℕ) :=
  linesFrom newline (l.place pos) [] (l.bytes.drop (l.place pos))

/-- A place where a line may begin: where the file stood at the first open, or behind a line since then. -/
structure Log.Begins (l : Log) (q : ℕ) : Prop where
  inside : q ≤ l.bytes.length
  base : l.base ≤ q
  line : q = l.base ∨ IsEnd newline l.bytes q

/-- A cut below the position is noticed, and everything is read again: nothing of it was there at the first open. -/
def Log.Aligned (l : Log) (pos : ℕ) : Prop := l.Begins (l.place pos)

def Log.grow (l : Log) (bytes : Bytes) : Log := { l with bytes := l.bytes ++ bytes }

def Log.cut (l : Log) (size : ℕ) : Log := { l with bytes := l.bytes.take size, base := min l.base size }

section
variable {l : Log} {pos q size : ℕ} {bytes : Bytes}

theorem Log.place_of_le (h : pos ≤ l.bytes.length) : l.place pos = pos := if_neg (Nat.not_lt.mpr h)

theorem Log.place_of_lt (h : l.bytes.length < pos) : l.place pos = 0 := if_pos h

theorem Log.place_place : l.place (l.place pos) = l.place pos := by
  rcases Nat.lt_or_ge l.bytes.length pos with hlt | hle
  · rw [place_of_lt hlt, place_of_le (Nat.zero_le _)]
  · rw [place_of_le hle, place_of_le hle]

theorem Log.Begins.grow (h : l.Begins q) : (l.grow bytes).Begins q := by
  have hlength : (l.grow bytes).bytes.length = l.bytes.length + bytes.length := List.length_append
  constructor
  · rw [hlength]
    exact Nat.le_add_right_of_le h.inside
  · exact h.base
  · rcases h.line with heq | hend
    · exact .inl heq
    · exact .inr (hend.append bytes)

theorem Log.Begins.unended (h : l.Begins q) : Lines.unended newline [] (l.bytes.drop q) = l.unended := by
  rcases h.line with rfl | hend
  · rfl
  · exact unended_drop h.base hend

/-- The place does not move when the file grows, if the file does not grow back over a cut. -/
theorem Log.place_grow (hgrow : l.bytes.length < pos → l.bytes.length + bytes.length < pos) :
    (l.grow bytes).place pos = l.place pos := by
  have hlength : (l.grow bytes).bytes.length = l.bytes.length + bytes.length := List.length_append
  rcases Nat.lt_or_ge l.bytes.length pos with hlt | hle
  · rw [place_of_lt hlt, place_of_lt (hlength ▸ hgrow hlt)]
  · rw [place_of_le hle, place_of_le (hlength ▸ Nat.le_add_right_of_le hle)]

/-- What is appended adds the lines it completes. -/
theorem Log.Aligned.grow (h : l.Aligned pos)
    (hgrow : l.bytes.length < pos → l.bytes.length + bytes.length < pos) : (l.grow bytes).Aligned pos ∧
      ((l.grow bytes).linesAt pos).map Prod.fst = (l.linesAt pos).map Prod.fst ++ l.completed bytes := by
  have hplace := place_grow hgrow
  refine ⟨?_, ?_⟩
  · rw [Log.Aligned, hplace]
    exact Log.Begins.grow h
  · have hdrop : (l.grow bytes).bytes.drop (l.place pos) = l.bytes.drop (l.place pos) ++ bytes :=
      List.drop_append_of_le_length h.inside
    have hlength : l.place pos + (l.bytes.drop (l.place pos)).length = l.bytes.length := by
      rw [List.length_drop]
      have := h.inside
      omega
    rw [linesAt, hplace, hdrop, linesFrom_append, hlength, Log.Begins.unended h, List.map_append]
    rfl

/-- The lines behind a place end behind it. -/
theorem Log.lt_of_mem {x : Bytes × ℕ} (hx : x ∈ l.linesAt pos) : l.place pos < x.2 :=
  lt_of_mem_linesFrom hx

/-- A cut that takes no line that is unread leaves the same lines to read. -/
theorem Log.Aligned.cut (h : l.Aligned pos) (hsize : size = 0 ∨ pos ≤ size) (hunread : ∀ x ∈ l.linesAt pos, x.2 ≤ size) :
    (l.cut size).Aligned pos ∧ (l.cut size).linesAt pos = l.linesAt pos := by
  have hlength : (l.cut size).bytes.length = min size l.bytes.length := List.length_take
  rcases hsize with rfl | hsize
  · have hplace : (l.cut 0).place pos = 0 := by
      rw [place, hlength]
      split
      · rfl
      · omega
    have hnone : l.linesAt pos = [] := List.eq_nil_iff_forall_not_mem.mpr fun x hx =>
      absurd (hunread x hx) (by have := lt_of_mem hx; omega)
    refine ⟨?_, ?_⟩
    · rw [Log.Aligned, hplace]
      exact ⟨Nat.zero_le _, Nat.le_of_eq (Nat.min_zero _), .inl (Nat.min_zero _).symm⟩
    · rw [hnone, linesAt, hplace]
      rfl
  · have hplace : (l.cut size).place pos = l.place pos := by
      rcases Nat.lt_or_ge l.bytes.length pos with hlt | hle
      · rw [place_of_lt hlt, place_of_lt (by omega)]
      · rw [place_of_le hle, place_of_le (by omega)]
    have hle : l.place pos ≤ size := by
      rw [place]
      split
      · exact Nat.zero_le _
      · exact hsize
    have hinside : l.place pos ≤ (l.bytes.take size).length := by
      rw [List.length_take]
      exact Nat.le_min.mpr ⟨hle, h.inside⟩
    refine ⟨?_, ?_⟩
    · rw [Log.Aligned, hplace]
      have hbase : (l.cut size).base = l.base := Nat.min_eq_left (Nat.le_trans h.base hle)
      refine ⟨hinside, hbase ▸ h.base, ?_⟩
      rcases h.line with heq | hend
      · exact .inl (hbase ▸ heq)
      · rw [← List.take_append_drop size l.bytes] at hend
        exact .inr (hend.of_append hinside)
    · have hdrop : l.bytes.drop (l.place pos) = (l.bytes.take size).drop (l.place pos) ++ l.bytes.drop size := by
        rw [← List.drop_append_of_le_length hinside, List.take_append_drop]
      have hlines := @linesFrom_append _ newline ((l.bytes.take size).drop (l.place pos)) [] (l.bytes.drop size)
        (l.place pos)
      have hall : l.linesAt pos = _ := (congrArg _ hdrop).trans hlines
      -- what the cut takes ends no line, for such a line would be unread
      have hlate : linesFrom newline (l.place pos + ((l.bytes.take size).drop (l.place pos)).length)
          (Lines.unended newline [] ((l.bytes.take size).drop (l.place pos))) (l.bytes.drop size) = [] := by
        rcases Nat.lt_or_ge size l.bytes.length with hlt | hge
        · refine List.eq_nil_iff_forall_not_mem.mpr fun x hx => ?_
          have hbehind := lt_of_mem_linesFrom hx
          have hbefore := hunread x (hall ▸ List.mem_append_right _ hx)
          rw [List.length_drop, List.length_take, Nat.min_eq_left (Nat.le_of_lt hlt)] at hbehind
          omega
        · rw [List.drop_eq_nil_of_le hge, linesFrom]
      rw [hall, hlate, List.append_nil, linesAt, hplace]
      rfl

/-- After some of the lines the position is behind the last of them. -/
theorem Log.Aligned.after {taken rest : List (Bytes × ℕ)} (h : l.Aligned pos) (hlines : l.linesAt pos = taken ++ rest) :
    l.Aligned (taken.getLast?.elim (l.place pos) Prod.snd) ∧
      l.linesAt (taken.getLast?.elim (l.place pos) Prod.snd) = rest := by
  have hbegins : l.Begins (taken.getLast?.elim (l.place pos) Prod.snd) := by
    cases hlast : taken.getLast? with
    | none => exact h
    | some x =>
      have hx : x ∈ l.linesAt pos := hlines ▸ List.mem_append_left rest (List.mem_of_getLast? hlast)
      obtain ⟨hlt, hend⟩ := mem_lines_iff.mp ⟨x.1, hx⟩
      exact ⟨hend.le_length, Nat.le_trans h.base (Nat.le_of_lt hlt), .inr hend⟩
  have hplace := place_of_le hbegins.inside
  refine ⟨?_, ?_⟩
  · rw [Log.Aligned, hplace]
    exact hbegins
  · rw [linesAt, hplace]
    exact lines_after hlines

/-- At the end of a file no line is there to read. -/
theorem Log.linesAt_end : l.linesAt l.bytes.length = [] := by
  rw [linesAt, place_of_le (Nat.le_refl _), List.drop_length, linesFrom]

/-- The end of a file is a place where a line may begin, if no line is open. -/
theorem Log.aligned_end (hbase : l.base ≤ l.bytes.length) (hline : l.unended = []) : l.Aligned l.bytes.length := by
  rw [Log.Aligned, place_of_le (Nat.le_refl _)]
  refine ⟨Nat.le_refl _, hbase, ?_⟩
  rcases unended_eq_nil hline with hnil | ⟨t, c, ht, hc⟩
  · exact .inl (Nat.le_antisymm (List.drop_eq_nil_iff.mp hnil) hbase)
  · obtain ⟨u, hu⟩ : ∃ u, l.bytes = u ++ [c] :=
      ⟨l.bytes.take l.base ++ t, by rw [List.append_assoc, ← ht, List.take_append_drop]⟩
    refine .inr ⟨u.length, c, ?_, ?_, hc⟩
    · rw [hu, List.length_append, List.length_singleton]
    · rw [hu, List.getElem?_concat_length]

theorem Log.aligned_mark : l.mark.Aligned l.bytes.length := by
  refine aligned_end (l := l.mark) (Nat.le_refl _) ?_
  rw [Log.unended, Log.mark, List.drop_length, Lines.unended]

end

/-! ### The state as a whole -/

/-- What is appended is what was handed on and what is still to read, and the reading is at a place where a line may
    begin. -/
structure State.Tight (s : State) : Prop where
  whole : ∀ l ∈ s.logs.rows, l.base ≤ l.bytes.length
  before : s.started = false → s.handle = none ∧ s.appended = [] ∧ s.handed = []
  kept : s.handed ++ s.unread.map Prod.fst = s.appended
  aligned : ∀ h, s.handle = some h → (s.file h).Aligned h.pos

section
variable {s s' : State} {h : Handle} {l : Log} {name path : String} {bytes : Bytes} {size : ℕ} {p : Poll}

theorem Handle.pos_rewind : (h.rewind l.bytes.length).pos = l.place h.pos := by
  rw [Handle.rewind, Log.place]
  split <;> rfl

theorem State.unread_none (hh : s.handle = none) : s.unread = [] := by rw [State.unread, hh]

theorem State.unread_some (hh : s.handle = some h) : s.unread = (s.file h).linesAt h.pos := by
  simp only [State.unread, hh, Handle.pos_rewind]
  rfl

theorem State.name_log (s : State) (name : String) : (s.log name).name = name := by
  rw [State.log]
  cases hget : s.logs.get? name with
  | none => rfl
  | some l => exact (Table.get?_eq_some_iff.mp hget).2

theorem State.Tight.base_le (hs : s.Tight) (name : String) : (s.log name).base ≤ (s.log name).bytes.length := by
  rw [State.log]
  cases hget : s.logs.get? name with
  | none => exact Nat.le_refl 0
  | some l => exact hs.whole l (Table.get?_eq_some_iff.mp hget).1

/-- A change to one file is seen by the handle that follows it, and by no other. -/
theorem State.file_put (hlogs : s'.logs = s.logs.put l) :
    s'.file h = if h.path = l.name ∧ h.gone = none then l else s.file h := by
  rw [State.file, State.file, State.log, State.log, hlogs, Table.get?_put]
  cases hgone : h.gone with
  | some g => simp
  | none =>
    by_cases hpath : h.path = l.name
    · simp [hpath]
    · simp [hpath, Ne.symm hpath]

theorem State.Follows.file (hf : s.Follows h name) : s.file h = s.log name := by
  rw [State.file, hf.there, hf.path, Option.getD_none]

/-- Either the handle follows the file, or the file is not what it reads. -/
theorem State.follows_or (name : String) (hh : s.handle = some h) : s.Follows h name ∨
    (¬(h.path = name ∧ h.gone = none) ∧ ∀ h', ¬s.Follows h' name) := by
  by_cases hand : h.path = name ∧ h.gone = none
  · exact .inl ⟨hh, hand.1, hand.2⟩
  · refine .inr ⟨hand, ?_⟩
    intro h' hf
    obtain rfl : h = h' := Option.some.inj (hh.symm.trans hf.handle)
    exact hand ⟨hf.path, hf.there⟩

/-! ### What each step keeps -/

/-- A writer changes one file: what it adds to the lines is what the handle that follows the file has more to read. -/
theorem State.Tight.put {more : List Bytes} (hs : s.Tight) (hlogs : s'.logs = s.logs.put l)
    (hhandle : s'.handle = s.handle) (hstarted : s'.started = s.started) (hhanded : s'.handed = s.handed)
    (happended : s'.appended = s.appended ++ more) (hbase : l.base ≤ l.bytes.length)
    (hfollows : ∀ h, s.Follows h l.name →
      l.Aligned h.pos ∧ (l.linesAt h.pos).map Prod.fst = ((s.file h).linesAt h.pos).map Prod.fst ++ more)
    (hother : (∀ h, ¬s.Follows h l.name) → more = []) : s'.Tight := by
  have hnobody : s.handle = none → more = [] := fun hh => hother fun h hf => nomatch hh.symm.trans hf.handle
  constructor
  · rw [hlogs]
    exact Table.forall_mem_put hs.whole hbase
  · intro hstart
    obtain ⟨hnone, hempty, hnothing⟩ := hs.before (hstarted ▸ hstart)
    exact ⟨hhandle.trans hnone, by rw [happended, hempty, hnobody hnone]; rfl, hhanded.trans hnothing⟩
  · rw [happended, hhanded, ← hs.kept, List.append_assoc]
    congr 1
    cases hh : s.handle with
    | none =>
      rw [State.unread_none (hhandle.trans hh), State.unread_none hh, hnobody hh]
      rfl
    | some h =>
      rw [State.unread_some (hhandle.trans hh), State.unread_some hh, State.file_put hlogs]
      rcases State.follows_or l.name hh with hf | ⟨hnot, hnone⟩
      · rw [if_pos ⟨hf.path, hf.there⟩]
        exact (hfollows h hf).2
      · rw [if_neg hnot, hother hnone, List.append_nil]
  · intro h hh
    rw [hhandle] at hh
    rw [State.file_put hlogs]
    rcases State.follows_or l.name hh with hf | ⟨hnot, -⟩
    · rw [if_pos ⟨hf.path, hf.there⟩]
      exact (hfollows h hf).1
    · rw [if_neg hnot]
      exact hs.aligned h hh

theorem State.Tight.append (hs : s.Tight) (hm : Meets s (.append name bytes)) : (s.append name bytes).Tight := by
  obtain ⟨hgrow, hother⟩ := hm
  have hname : ((s.log name).grow bytes).name = name := s.name_log name
  have hbase : ((s.log name).grow bytes).base ≤ ((s.log name).grow bytes).bytes.length := by
    refine Nat.le_trans (hs.base_le name) ?_
    rw [Log.grow, List.length_append]
    exact Nat.le_add_right _ _
  cases hstarted : s.started with
  | false =>
    have happended : (s.append name bytes).appended = s.appended ++ [] := by
      rw [State.append, hstarted, List.append_nil]
      rfl
    refine hs.put (l := (s.log name).grow bytes) rfl rfl rfl rfl happended hbase ?_ fun _ => rfl
    intro h hf
    exact nomatch (hs.before hstarted).1.symm.trans hf.handle
  | true =>
    have happended : (s.append name bytes).appended = s.appended ++ (s.log name).completed bytes := if_pos hstarted
    refine hs.put (l := (s.log name).grow bytes) rfl rfl rfl rfl happended hbase ?_ ?_
    · intro h hf
      rw [hname] at hf
      rw [← hf.file]
      exact (hs.aligned h hf.handle).grow (hgrow h hf)
    · rw [hname]
      exact hother hstarted

theorem State.Tight.truncate (hs : s.Tight) (hm : Meets s (.truncate name size)) : (s.truncate name size).Tight := by
  cases hget : s.logs.get? name with
  | none =>
    have hsame : s.truncate name size = s := by rw [State.truncate, hget]
    rwa [hsame]
  | some l =>
    have hnext : s.truncate name size = { s with logs := s.logs.put (l.cut size) } := by
      rw [State.truncate, hget]
      rfl
    obtain ⟨hmem, hname⟩ := Table.get?_eq_some_iff.mp hget
    have hlog : s.log name = l := by rw [State.log, hget, Option.getD_some]
    have hbase : (l.cut size).base ≤ (l.cut size).bytes.length := by
      have := hs.whole l hmem
      simp only [Log.cut, List.length_take]
      omega
    rw [hnext]
    have happended : s.appended = s.appended ++ [] := (List.append_nil _).symm
    refine hs.put (l := l.cut size) rfl rfl rfl rfl happended hbase ?_ fun _ => rfl
    intro h hf
    have hf : s.Follows h name := hname ▸ hf
    obtain ⟨hsize, hunread⟩ := hm h hf
    rw [State.unread_some hf.handle, hf.file, hlog] at hunread
    have haligned := hs.aligned h hf.handle
    rw [hf.file, hlog] at haligned
    obtain ⟨hcut, hlines⟩ := haligned.cut hsize hunread
    rw [hf.file, hlog, hlines, List.append_nil]
    exact ⟨hcut, rfl⟩

/-- The open file stays open when its name is removed. -/
theorem State.file_remove (s : State) (h : Handle) (name : String) :
    (s.remove name).file (h.unlink name (s.logs.get? name)) = s.file h := by
  rw [Handle.unlink]
  split
  · rename_i hand
    obtain ⟨rfl, hgone⟩ := hand
    rw [State.file, State.file, hgone]
    cases hget : s.logs.get? h.path with
    | none =>
      simp only [Option.getD_none, State.log, hget, State.remove, Table.get?_erase, if_true]
    | some l => simp only [Option.getD_some, Option.getD_none, State.log, hget]
  · rename_i hnot
    rw [State.file, State.file]
    cases hgone : h.gone with
    | some g => rfl
    | none =>
      have hpath : name ≠ h.path := fun heq => hnot ⟨heq.symm, hgone⟩
      simp only [Option.getD_none, State.log, State.remove, Table.get?_erase, if_neg hpath]

theorem State.Tight.remove (hs : s.Tight) (name : String) : (s.remove name).Tight := by
  have hpos : ∀ h : Handle, (h.unlink name (s.logs.get? name)).pos = h.pos := by
    intro h
    rw [Handle.unlink]
    split <;> rfl
  have hunread : (s.remove name).unread = s.unread := by
    cases hh : s.handle with
    | none => rw [State.unread_none hh, State.unread_none (s := s.remove name) (congrArg (Option.map _) hh)]
    | some h =>
      rw [State.unread_some hh, State.unread_some (s := s.remove name) (congrArg (Option.map _) hh),
        State.file_remove, hpos]
  constructor
  · intro l hl
    exact hs.whole l (Table.mem_erase.mp hl).1
  · intro hstarted
    obtain ⟨hnone, happended, hhanded⟩ := hs.before hstarted
    exact ⟨congrArg (Option.map _) hnone, happended, hhanded⟩
  · rw [hunread]
    exact hs.kept
  · intro h' hh'
    obtain ⟨h, hh, rfl⟩ := Option.map_eq_some_iff.mp hh'
    rw [State.file_remove, hpos]
    exact hs.aligned h hh

/-! ### What a poll does -/

/-- The lines of a poll are the first ones; the others are left only behind a line that raises. -/
theorem handedOn_spec (raises : Bytes → Bool) : ∀ lines : List (Bytes × ℕ), ∃ rest,
    lines = handedOn raises lines ++ rest ∧
      (rest = [] ∨ ∃ xs x, handedOn raises lines = xs ++ [x] ∧ raises x.1 = true)
  | [] => ⟨[], rfl, .inl rfl⟩
  | (line, q) :: lines => by
    rw [handedOn]
    split
    · rename_i hraises
      exact ⟨lines, rfl, .inr ⟨[], (line, q), rfl, hraises⟩⟩
    · obtain ⟨rest, hlines, hrest⟩ := handedOn_spec raises lines
      refine ⟨rest, congrArg _ hlines, ?_⟩
      rcases hrest with hnil | ⟨xs, x, hxs, hx⟩
      · exact .inl hnil
      · exact .inr ⟨(line, q) :: xs, x, congrArg _ hxs, hx⟩

/-- What a state comes to in a poll. -/
structure State.Drains (s : State) (raises : Bytes → Bool) (s' : State) : Prop where
  tight : s'.Tight
  polled : s'.handed = s'.appended ∨ ∃ lines line, s'.handed = s.handed ++ (lines ++ [line]) ∧ raises line = true

/-- With nothing to read everything is handed on. -/
theorem State.Tight.idle (hs : s.Tight) (hunread : s.unread = []) {raises : Bytes → Bool} : s.Drains raises s := by
  refine ⟨hs, .inl ?_⟩
  rw [← hs.kept, hunread, List.map_nil, List.append_nil]

theorem State.Tight.close (hs : s.Tight) (hunread : s.unread = []) : State.Tight { s with handle := none } := by
  refine ⟨hs.whole, ?_, ?_, fun h hh => nomatch hh⟩
  · intro hstarted
    exact ⟨rfl, (hs.before hstarted).2⟩
  · rw [← hs.kept, hunread]
    rfl

theorem State.Tight.drain (hs : s.Tight) (hh : s.handle = some h) (raises : Bytes → Bool) :
    s.Drains raises (s.drain raises { h with pos := (s.file h).place h.pos }) := by
  obtain ⟨rest, hlines, hrest⟩ := handedOn_spec raises ((s.file h).linesAt h.pos)
  obtain ⟨haligned, hleft⟩ := (hs.aligned h hh).after hlines
  have hkept := hs.kept
  rw [State.unread_some hh, hlines, List.map_append, ← List.append_assoc] at hkept
  constructor
  · constructor
    · exact hs.whole
    · intro hstarted
      exact nomatch (hs.before hstarted).1.symm.trans hh
    · rw [State.unread_some rfl]
      refine Eq.trans ?_ hkept
      exact congrArg (s.handed ++ (handedOn raises ((s.file h).linesAt h.pos)).map Prod.fst ++ List.map Prod.fst ·) hleft
    · intro h' hh'
      obtain rfl := Option.some.inj hh'
      exact haligned
  · rcases hrest with rfl | ⟨xs, x, hxs, hx⟩
    · rw [List.map_nil, List.append_nil] at hkept
      exact .inl hkept
    · refine .inr ⟨xs.map Prod.fst, x.1, ?_, hx⟩
      refine congrArg (s.handed ++ ·) ((congrArg (List.map Prod.fst) hxs).trans ?_)
      rw [List.map_append, List.map_singleton]

/-- A poll that finds the open file and sees its size reads on where the file stands. -/
theorem State.Tight.readOn (hs : s.Tight)
    (hsees : ∀ h, s.handle = some h → h.path = path ∧ s.SeesFile h p) : s.Drains p.raises (s.readOn path p) := by
  cases hh : s.handle with
  | none =>
    rw [State.readOn, hh]
    exact hs.idle (State.unread_none hh)
  | some h =>
    obtain ⟨rfl, hlost, hcut⟩ := hsees h hh
    cases hfound : p.found with
    | false =>
      have hnext : s.readOn h.path p = { s with handle := none } := by
        rw [State.readOn, hh]
        exact if_neg (by rw [hfound]; decide)
      rw [hnext]
      exact ⟨hs.close (hlost hfound), ((hs.close (hlost hfound)).idle rfl).polled⟩
    | true =>
      have hrewind : h.rewind (s.log h.path).bytes.length = { h with pos := (s.file h).place h.pos } := by
        rw [Handle.rewind, Log.place]
        by_cases hlt : (s.file h).bytes.length < h.pos
        · rw [if_pos hlt, if_pos ((hcut hfound).mpr hlt)]
        · rw [if_neg hlt, if_neg fun h => hlt ((hcut hfound).mp h)]
      have hnext : s.readOn h.path p = s.drain p.raises { h with pos := (s.file h).place h.pos } := by
        rw [State.readOn, hh, ← hrewind]
        exact if_pos hfound
      rw [hnext]
      exact hs.drain hh p.raises

theorem get?_mark (logs : Table Log.name) (name : String) :
    (logs.mapRows Log.mark fun _ => rfl).get? name = (logs.get? name).map Log.mark :=
  List.find?_map

theorem State.Tight.whole_openAtEnd (hs : s.Tight) : ∀ l ∈ (s.openAtEnd path true).logs.rows,
    l.base ≤ l.bytes.length := by
  have hlogs : (s.openAtEnd path true).logs = if s.started then s.logs else s.logs.mapRows Log.mark fun _ => rfl := rfl
  rw [hlogs]
  split
  · exact hs.whole
  · intro l hl
    obtain ⟨l, -, rfl⟩ := List.mem_map.mp hl
    exact Nat.le_refl _

/-- The log that is opened is read from its end, where a line may begin. -/
theorem State.Tight.openAtEnd (hs : s.Tight) (hunread : s.unread = [])
    (hline : s.started = true → (s.log path).unended = []) :
    (s.openAtEnd path true).Tight ∧ ∃ h, (s.openAtEnd path true).handle = some h ∧ h.path = path ∧
      (s.openAtEnd path true).file h = (s.openAtEnd path true).log path ∧
        h.pos = ((s.openAtEnd path true).log path).bytes.length := by
  obtain ⟨s', hs'⟩ : ∃ s', s' = s.openAtEnd path true := ⟨_, rfl⟩
  have hhandle : s'.handle = some ⟨path, none, (s.log path).bytes.length⟩ := hs' ▸ rfl
  have hlogs : s'.logs = if s.started then s.logs else s.logs.mapRows Log.mark fun _ => rfl := hs' ▸ rfl
  have hfile : s'.file ⟨path, none, (s.log path).bytes.length⟩ = s'.log path := rfl
  have hlog : (s'.log path).bytes = (s.log path).bytes ∧ (s'.log path).Aligned (s.log path).bytes.length := by
    cases hstarted : s.started with
    | true =>
      rw [hstarted] at hlogs
      have hsame : s'.log path = s.log path :=
        congrArg (fun logs : Table Log.name => (logs.get? path).getD ⟨path, [], 0⟩) hlogs
      rw [hsame]
      exact ⟨rfl, Log.aligned_end (hs.base_le path) (hline hstarted)⟩
    | false =>
      rw [hstarted] at hlogs
      have hmark : s'.log path = (s.log path).mark := by
        refine (congrArg (fun logs : Table Log.name => (logs.get? path).getD ⟨path, [], 0⟩) hlogs).trans ?_
        refine (congrArg (Option.getD · ⟨path, [], 0⟩) (get?_mark s.logs path)).trans ?_
        rw [State.log]
        cases s.logs.get? path <;> rfl
      rw [hmark]
      exact ⟨rfl, Log.aligned_mark⟩
  rw [← hs']
  refine ⟨⟨hs' ▸ hs.whole_openAtEnd, ?_, ?_, ?_⟩, _, hhandle, rfl, hfile, congrArg List.length hlog.1.symm⟩
  · intro hstarted
    have hopened : s'.started = true := hs' ▸ rfl
    exact nomatch hopened.symm.trans hstarted
  · have hkept := hs.kept
    have happended : s'.appended = s.appended := hs' ▸ rfl
    have hhanded : s'.handed = s.handed := hs' ▸ rfl
    rw [hunread] at hkept
    rw [State.unread_some hhandle, hfile, ← hlog.1, Log.linesAt_end, happended, hhanded]
    exact hkept
  · intro h hh
    obtain rfl := Option.some.inj (hhandle.symm.trans hh)
    exact hlog.2

/-- A log that is gone again right after it was opened is closed. -/
theorem State.Tight.lost (hs : s.Tight) (hunread : s.unread = []) :
    State.Tight { s.openAtEnd path true with handle := none } := by
  have hwhole : ∀ l ∈ (s.openAtEnd path true).logs.rows, l.base ≤ l.bytes.length := hs.whole_openAtEnd
  refine ⟨hwhole, fun hstarted => (nomatch hstarted), ?_, fun h hh => (nomatch hh)⟩
  have hkept := hs.kept
  rw [hunread] at hkept
  exact hkept

theorem State.Tight.switch (hs : s.Tight) (hm : s.SwitchesAtLine path p) :
    s.Drains p.raises ((s.openAtEnd path p.opens).readOn path p) := by
  obtain ⟨hunread, hline⟩ := hm
  cases hopens : p.opens with
  | false => exact ⟨hs.close hunread, ((hs.close hunread).idle rfl).polled⟩
  | true =>
    cases hfound : p.found with
    | false =>
      have hnext : (s.openAtEnd path true).readOn path p = { s.openAtEnd path true with handle := none } :=
        if_neg (by rw [hfound]; decide)
      rw [hnext]
      exact ⟨hs.lost hunread, ((hs.lost hunread).idle rfl).polled⟩
    | true =>
      obtain ⟨htight, h, hh, hpath, hfile, -⟩ := hs.openAtEnd hunread fun hstarted => hline hstarted hopens hfound
      have hdrains : (s.openAtEnd path true).Drains p.raises ((s.openAtEnd path true).readOn path p) := by
        refine htight.readOn fun h' hh' => ?_
        obtain rfl := Option.some.inj (hh.symm.trans hh')
        refine ⟨hpath, fun hlost => (nomatch hfound.symm.trans hlost), fun _ => ?_⟩
        rw [hfile, hpath]
      exact ⟨hdrains.tight, hdrains.polled⟩

theorem State.Tight.tick (hs : s.Tight) (hm : Meets s (.poll p)) : s.Drains p.raises (s.tick p) := by
  simp only [Meets] at hm
  cases hpath : latestLogPath p (s.logs.rows.map Log.name) with
  | none =>
    rw [hpath] at hm
    have hnext : s.tick p = s := by rw [State.tick, hpath]
    rw [hnext]
    exact hs.idle hm
  | some path =>
    rw [hpath] at hm
    have hnext : s.tick p = if s.handle.map Handle.path = some path then s.readOn path p else
        (s.openAtEnd path p.opens).readOn path p := by rw [State.tick, hpath]
    rw [hnext]
    cases hh : s.handle with
    | none =>
      simp only [hh] at hm
      exact hs.switch hm
    | some h =>
      simp only [hh] at hm
      by_cases heq : h.path = path
      · rw [if_pos heq] at hm
        rw [Option.map_some, if_pos (congrArg some heq)]
        refine hs.readOn fun h' hh' => ?_
        obtain rfl := Option.some.inj (hh.symm.trans hh')
        exact ⟨heq, hm⟩
      · rw [if_neg heq] at hm
        rw [Option.map_some, if_neg fun hsome => heq (Option.some.inj hsome)]
        exact hs.switch hm

/-! ### Whole histories -/

theorem State.Tight.step {a : Action} (hs : s.Tight) (hm : Meets s a) : (s.step a).Tight := by
  cases a with
  | append name bytes => exact hs.append hm
  | truncate name size => exact hs.truncate hm
  | remove name => exact hs.remove name
  | poll p => exact (hs.tick hm).tight

theorem State.tight_start : State.start.Tight :=
  ⟨fun _ hl => (nomatch hl), fun _ => ⟨rfl, rfl, rfl⟩, rfl, fun _ hh => (nomatch hh)⟩

theorem after_snoc (actions : List Action) (a : Action) : after (actions ++ [a]) = (after actions).step a := by
  rw [after, List.foldl_append]
  rfl

theorem Sound.init {before rest : List Action} (h : Sound (before ++ rest)) : Sound before := by
  rintro first a more rfl
  exact h first a (more ++ rest) (by simp)

theorem tight_after {actions : List Action} (h : Sound actions) : (after actions).Tight := by
  induction actions using List.reverseRecOn with
  | nil => exact State.tight_start
  | append_singleton actions a ih =>
    rw [after_snoc]
    exact (ih h.init).step (h actions a [] rfl)

theorem Sound.nil : Sound [] := fun before _ _ heq => by simp at heq

theorem Sound.snoc {actions : List Action} {a : Action} (h : Sound actions) (ha : Meets (after actions) a) :
    Sound (actions ++ [a]) := by
  intro before b rest heq
  induction rest using List.reverseRecOn with
  | nil =>
    obtain ⟨rfl, hlast⟩ := List.append_inj' heq rfl
    obtain rfl : a = b := by simpa using hlast
    exact ha
  | append_singleton rest c _ =>
    rw [← List.cons_append, ← List.append_assoc] at heq
    exact h before b rest (List.append_inj' heq rfl).1

/-- The open log may grow while nothing of it was cut. -/
theorem State.Follows.meets_append (hf : s.Follows h name) (hsize : h.pos ≤ (s.file h).bytes.length) :
    Meets s (.append name bytes) := by
  refine ⟨fun h' hf' hlt => ?_, fun _ hnone => absurd hf (hnone h)⟩
  obtain rfl := Option.some.inj (hf.handle.symm.trans hf'.handle)
  exact absurd hlt (Nat.not_lt.mpr hsize)

/-- No log is open: only lines since the first open count. -/
theorem meets_append_closed (hh : s.handle = none) (hline : s.started = true → (s.log name).completed bytes = []) :
    Meets s (.append name bytes) :=
  ⟨fun _ hf => (nomatch hh.symm.trans hf.handle), fun hstarted _ => hline hstarted⟩

theorem meets_append_other (hh : s.handle = some h) (hpath : h.path ≠ name)
    (hline : (s.log name).completed bytes = []) : Meets s (.append name bytes) := by
  refine ⟨fun h' hf => ?_, fun _ _ => hline⟩
  obtain rfl := Option.some.inj (hh.symm.trans hf.handle)
  exact absurd hf.path hpath

theorem State.Follows.meets_poll (hf : s.Follows h name)
    (hlatest : latestLogPath p (s.logs.rows.map Log.name) = some name) (hfound : p.found = true) :
    Meets s (.poll p) := by
  simp only [Meets, hlatest, hf.handle, if_pos hf.path]
  refine ⟨fun hlost => (nomatch hfound.symm.trans hlost), fun _ => ?_⟩
  rw [hf.file, hf.path]

theorem meets_poll_switch (hlatest : latestLogPath p (s.logs.rows.map Log.name) = some path)
    (hother : s.handle.map Handle.path ≠ some path) (hm : s.SwitchesAtLine path p) : Meets s (.poll p) := by
  simp only [Meets, hlatest]
  cases hh : s.handle with
  | none => exact hm
  | some h =>
    have hpath : h.path ≠ path := fun heq => hother (by rw [hh, ← heq]; rfl)
    exact (if_neg hpath).mpr hm

end

def pollOf (today : String) : Poll := ⟨today, true, true, true, fun _ => false⟩

/-- The first line of a log is there when it is opened. -/
def openedRun : List Action := [.append "openclaw-1.log" [97, 10], .poll (pollOf "1")]

theorem openedRun_sound : Sound openedRun := by
  have hfirst : Sound [.append "openclaw-1.log" [97, 10]] :=
    Sound.nil.snoc (meets_append_closed rfl fun hstarted => nomatch hstarted)
  refine hfirst.snoc (@meets_poll_switch _ "openclaw-1.log" _ ?_ ?_ ⟨?_, ?_⟩)
  · decide +kernel
  · decide +kernel
  · decide +kernel
  · decide +kernel

/-- The next day's log is polled while it is empty, and then gets its first line. -/
def switchedRun : List Action := openedRun ++ [.append "openclaw-2.log" [], .poll (pollOf "2"),
  .append "openclaw-2.log" [98, 10], .poll (pollOf "2")]

theorem switchedRun_sound : Sound switchedRun := by
  have hempty : Sound (openedRun ++ [.append "openclaw-2.log" []]) := by
    have hh : (after openedRun).handle = some ⟨"openclaw-1.log", none, 2⟩ := by decide +kernel
    exact openedRun_sound.snoc (meets_append_other hh (by decide) (by decide +kernel))
  have hswitch : Sound (openedRun ++ [.append "openclaw-2.log" []] ++ [.poll (pollOf "2")]) := by
    refine hempty.snoc (@meets_poll_switch _ "openclaw-2.log" _ ?_ ?_ ⟨?_, ?_⟩)
    · decide +kernel
    · decide +kernel
    · decide +kernel
    · decide +kernel
  have hline : Sound (openedRun ++ [.append "openclaw-2.log" []] ++ [.poll (pollOf "2")] ++
      [.append "openclaw-2.log" [98, 10]]) := by
    have hf : State.Follows (after (openedRun ++ [.append "openclaw-2.log" []] ++ [.poll (pollOf "2")]))
      ⟨"openclaw-2.log", none, 0⟩ "openclaw-2.log" := ⟨by decide +kernel, rfl, rfl⟩
    exact hswitch.snoc (hf.meets_append (Nat.zero_le _))
  have hf : State.Follows (after (openedRun ++ [.append "openclaw-2.log" []] ++ [.poll (pollOf "2")] ++
    [.append "openclaw-2.log" [98, 10]])) ⟨"openclaw-2.log", none, 0⟩ "openclaw-2.log" :=
    ⟨by decide +kernel, rfl, rfl⟩
  exact hline.snoc (hf.meets_poll (by decide +kernel) rfl)

theorem not_handedOnce {before : List Action} {p : Poll} (hnothing : ((after before).tick p).handed = [])
    (hsome : ((after before).tick p).appended ≠ []) : ¬HandedOnce (before ++ [.poll p]) := by
  intro h
  rcases h.polled before p [] rfl with hall | ⟨lines, line, hlast, -⟩
  · exact hsome (hall ▸ hnothing)
  · rw [hnothing] at hlast
    simp at hlast

/-- A line goes into the next day's log before it is polled. -/
def rotatedRun : List Action := openedRun ++ [.append "openclaw-2.log" [98, 10]]

/-- The log is replaced by another one under its name. -/
def replacedRun : List Action := openedRun ++ [.remove "openclaw-1.log", .append "openclaw-1.log" [98, 10]]

/-- The log is emptied and grows back before it is polled. -/
def regrownRun : List Action := openedRun ++ [.truncate "openclaw-1.log" 0, .append "openclaw-1.log" [98, 10]]

end ChannelAdapter.OpenClawLogTailer
