import Wormbase.Ledger.Chain
import Wormbase.Lib.Run

/-! `ReactivityRunner.run_once` and `ReactivityRegistry.dispatch`, one await at a time.

    Between any two steps of a cycle other writers commit entries, and a dispatch commits entries of
    its own. A raise ends the cycle where it stands; the cursor is written only by the tail read. -/

namespace Reactivity
open Py Ledger

/-- The ledger of the runner's company: seq values from 1 without a gap. -/
structure Rows where
  entries : List Entry
  seqs : entries.map (·.seq) = List.range' 1 entries.length

def Rows.append (rows : Rows) (new : List Entry)
    (h : new.map (·.seq) = List.range' (rows.entries.length + 1) new.length) : Rows where
  entries := rows.entries ++ new
  seqs := by
    rw [List.map_append, rows.seqs, h, List.length_append, ← List.range'_append_1, Nat.add_comm 1]

/-- What one binding does with an entry. `fireLost` is a fire whose bookkeeping raises. -/
inductive Outcome where
  | inactive | noMatch | denied | raised | quiet | fired | fireLost
  deriving DecidableEq

/-- Whether the action of the reactivity has run. -/
def Outcome.acted : Outcome → Bool
  | fired | fireLost => true
  | _ => false

/-- An entry offered to a binding, and the cycle in which it was. -/
structure Attempt where
  cycle : ℕ
  reactivityId : String
  seq : ℕ
  acted : Bool

/-- The locals of `run_once`: the newest seq of the batch read, the rows still to dispatch and the
    number of fires. -/
structure Cycle where
  maxSeq : ℕ
  queue : List Entry
  fireTotal : ℕ

/-- Between cycles, between two dispatches, or in the dispatch of an entry with the bindings still to
    try and those that fired. -/
inductive Phase where
  | idle
  | cycle (c : Cycle)
  | dispatch (c : Cycle) (entry : Entry) (bindings : List String) (firedIds : List String)

/-- `own` holds the seqs that a dispatch wrote, in the cycle under way or in one that completed. -/
structure World where
  rows : Rows
  lastSeq : ℕ
  lastHash : Option Bytes
  phase : Phase
  own : List ℕ
  handed : List Entry
  cycles : ℕ
  attempts : List Attempt

inductive Action where
  | commit (byDispatch : Bool) (new : List Entry)
  | poll
  | hand (bindings : List String)
  | attempt (outcome : Outcome)
  | finish
  | raise
  | tail

/-- A runner with a cursor somewhere in the ledger. -/
def World.start (rows : Rows) (cursor : Fin (rows.entries.length + 1)) : World where
  rows := rows
  lastSeq := cursor
  lastHash := none
  phase := .idle
  own := []
  handed := []
  cycles := 0
  attempts := []

/-- `rows_sorted`. -/
def rowsSorted (rows : Rows) : List Entry := rows.entries.insertionSort SeqBefore

/-- `reset_detected`. -/
def resetDetected (sorted : List Entry) (maxSeq lastSeq : ℕ) (lastHash : Option Bytes) : Bool :=
  if maxSeq < lastSeq then true
  else if 0 < lastSeq && lastHash.isSome then
    match sorted.find? fun e => e.seq = lastSeq with
    | some e => some e.hash ≠ lastHash
    | none => false
  else false

namespace World

/-- The cursor of a runner that has seen a tenant reset. -/
def rewind (s : World) : World := { s with lastSeq := 0, lastHash := none }

/-- The batch read. -/
def poll (s : World) : World :=
  match (rowsSorted s.rows).getLast? with
  | none => if s.lastSeq ≠ 0 then s.rewind else s
  | some last =>
    let s := if resetDetected (rowsSorted s.rows) last.seq s.lastSeq s.lastHash then s.rewind else s
    { s with
      phase := .cycle ⟨last.seq, (rowsSorted s.rows).filter fun e => s.lastSeq < e.seq, 0⟩
      cycles := s.cycles + 1 }

/-- The tail read. -/
def readTail (s : World) : World :=
  match (rowsSorted s.rows).getLast? with
  | none => { s with phase := .idle }
  | some last => { s with phase := .idle, lastSeq := last.seq, lastHash := some last.hash }

/-- The cycle ends without the tail read, and the entries it wrote are entries like any other. -/
def abandon (s : World) : World :=
  { s with phase := .idle, own := s.own.filter (· ≤ s.lastSeq) }

/-- The entry is offered to a binding; an inactive one is passed over. -/
def record (s : World) (reactivityId : String) (entry : Entry) (outcome : Outcome) : World :=
  if outcome = .inactive then s
  else { s with attempts := s.attempts ++ [⟨s.cycles, reactivityId, entry.seq, outcome.acted⟩] }

end World

/-- One step of the runner or of another writer, if it can be taken. -/
def step (s : World) : Action → Option World
  | .commit byDispatch new =>
    if h : new.map (·.seq) = List.range' (s.rows.entries.length + 1) new.length then
      match byDispatch, s.phase with
      | true, .dispatch .. =>
        some { s with rows := s.rows.append new h, own := s.own ++ new.map (·.seq) }
      | true, _ => none
      | false, _ => some { s with rows := s.rows.append new h }
    else none
  | .poll =>
    match s.phase with
    | .idle => some s.poll
    | _ => none
  | .hand bindings =>
    match s.phase with
    | .cycle ⟨maxSeq, entry :: queue, fireTotal⟩ =>
      if bindings.Nodup then
        some { s with
          phase := .dispatch ⟨maxSeq, queue, fireTotal⟩ entry bindings []
          handed := s.handed ++ [entry] }
      else none
    | _ => none
  | .attempt outcome =>
    match s.phase with
    | .dispatch c entry (reactivityId :: bindings) firedIds =>
      let s := s.record reactivityId entry outcome
      match outcome with
      | .fired => some { s with phase := .dispatch c entry bindings (firedIds ++ [reactivityId]) }
      | .fireLost => some s.abandon
      | _ => some { s with phase := .dispatch c entry bindings firedIds }
    | _ => none
  | .finish =>
    match s.phase with
    | .dispatch c _ [] firedIds =>
      some { s with phase := .cycle { c with fireTotal := c.fireTotal + firedIds.length } }
    | _ => none
  | .raise =>
    match s.phase with
    | .idle => none
    | _ => some s.abandon
  | .tail =>
    match s.phase with
    | .cycle ⟨_, [], _⟩ => some s.readTail
    | _ => none

/-! ### What a step does to a runner whose cursor is in the ledger -/

theorem rowsSorted_eq (rows : Rows) : rowsSorted rows = rows.entries := by
  have hsorted : rows.entries.Pairwise SeqBefore := (pairwise_seq rows.seqs).imp le_of_lt
  exact hsorted.insertionSort_eq

theorem getLast?_rowsSorted {rows : Rows} {last : Entry} (h : (rowsSorted rows).getLast? = some last) :
    last ∈ rows.entries ∧ last.seq = rows.entries.length := by
  rw [rowsSorted_eq] at h
  have hseq := getLast?_seq rows.seqs
  rw [h] at hseq
  exact ⟨List.mem_of_getLast? h, hseq⟩

theorem getLast?_rowsSorted_none {rows : Rows} (h : (rowsSorted rows).getLast? = none) :
    rows.entries = [] := by
  rwa [rowsSorted_eq, List.getLast?_eq_none_iff] at h

theorem mem_append {rows : Rows} {new : List Entry}
    (h : new.map (·.seq) = List.range' (rows.entries.length + 1) new.length) {e : Entry}
    (he : e ∈ (rows.append new h).entries) :
    e ∈ rows.entries ∨ e ∈ new ∧ rows.entries.length < e.seq := by
  rcases List.mem_append.mp he with he | he
  · exact .inl he
  · have hseq : e.seq ∈ new.map (·.seq) := List.mem_map_of_mem he
    rw [h] at hseq
    have := List.mem_range'_1.mp hseq
    exact .inr ⟨he, by omega⟩

/-- The cursor is a place in the ledger, and the hash it remembers is the one there. -/
structure CursorOk (s : World) : Prop where
  le : s.lastSeq ≤ s.rows.entries.length
  hash : ∀ e ∈ s.rows.entries, e.seq = s.lastSeq → s.lastHash = none ∨ s.lastHash = some e.hash

/-- No reset is seen while the ledger only grows. -/
theorem CursorOk.not_reset {s : World} (h : CursorOk s) :
    resetDetected (rowsSorted s.rows) s.rows.entries.length s.lastSeq s.lastHash = false := by
  rw [resetDetected, if_neg (Nat.not_lt.mpr h.le)]
  split
  · rename_i hset
    rw [Bool.and_eq_true, Option.isSome_iff_exists] at hset
    obtain ⟨-, hash, hhash⟩ := hset
    split
    · rename_i e hfind
      rw [rowsSorted_eq] at hfind
      rcases h.hash e (List.mem_of_find?_eq_some hfind) (by simpa using List.find?_some hfind) with hn | hs
      · rw [hn] at hhash
        cases hhash
      · simp [hs]
    · rfl
  · rfl

section
variable (s : World) (id : String) (entry : Entry) (outcome : Outcome)

/-- Offering an entry to a binding only adds to the attempts. -/
theorem World.record_eq : s.record id entry outcome =
    { s with attempts := (s.record id entry outcome).attempts } := by
  unfold World.record
  split <;> rfl

end

/-- What a step can do. -/
inductive Moves (s : World) : Action → World → Prop
  | commit {new : List Entry}
      (h : new.map (·.seq) = List.range' (s.rows.entries.length + 1) new.length) :
      Moves s (.commit false new) { s with rows := s.rows.append new h }
  | write {new : List Entry} {c : Cycle} {entry : Entry} {bindings firedIds : List String}
      (hphase : s.phase = .dispatch c entry bindings firedIds)
      (h : new.map (·.seq) = List.range' (s.rows.entries.length + 1) new.length) :
      Moves s (.commit true new)
        { s with rows := s.rows.append new h, own := s.own ++ new.map (·.seq) }
  | pollEmpty (hphase : s.phase = .idle) (hrows : s.rows.entries = []) : Moves s .poll s
  | poll (hphase : s.phase = .idle) :
      Moves s .poll { s with
        phase := .cycle ⟨s.rows.entries.length, s.rows.entries.filter fun e => s.lastSeq < e.seq, 0⟩
        cycles := s.cycles + 1 }
  | hand {maxSeq fireTotal : ℕ} {entry : Entry} {queue : List Entry} {bindings : List String}
      (hphase : s.phase = .cycle ⟨maxSeq, entry :: queue, fireTotal⟩) (hbindings : bindings.Nodup) :
      Moves s (.hand bindings) { s with
        phase := .dispatch ⟨maxSeq, queue, fireTotal⟩ entry bindings []
        handed := s.handed ++ [entry] }
  | attempt {c : Cycle} {entry : Entry} {id : String} {bindings firedIds : List String}
      {outcome : Outcome} (hphase : s.phase = .dispatch c entry (id :: bindings) firedIds)
      (hacted : outcome.acted = false) :
      Moves s (.attempt outcome)
        { s.record id entry outcome with phase := .dispatch c entry bindings firedIds }
  | fired {c : Cycle} {entry : Entry} {id : String} {bindings firedIds : List String}
      (hphase : s.phase = .dispatch c entry (id :: bindings) firedIds) :
      Moves s (.attempt .fired)
        { s.record id entry .fired with phase := .dispatch c entry bindings (firedIds ++ [id]) }
  | fireLost {c : Cycle} {entry : Entry} {id : String} {bindings firedIds : List String}
      (hphase : s.phase = .dispatch c entry (id :: bindings) firedIds) :
      Moves s (.attempt .fireLost) (s.record id entry .fireLost).abandon
  | finish {c : Cycle} {entry : Entry} {firedIds : List String}
      (hphase : s.phase = .dispatch c entry [] firedIds) :
      Moves s .finish
        { s with phase := .cycle { c with fireTotal := c.fireTotal + firedIds.length } }
  | raise (hphase : s.phase ≠ .idle) : Moves s .raise s.abandon
  | tail {maxSeq fireTotal : ℕ} {hash : Option Bytes} (hphase : s.phase = .cycle ⟨maxSeq, [], fireTotal⟩)
      (hhash : ∀ e ∈ s.rows.entries, e.seq = s.rows.entries.length → hash = none ∨ hash = some e.hash) :
      Moves s .tail { s with phase := .idle, lastSeq := s.rows.entries.length, lastHash := hash }

theorem poll_moves {s : World} (hcursor : CursorOk s) (hphase : s.phase = .idle) :
    Moves s .poll s.poll := by
  unfold World.poll
  split
  · rename_i hlast
    have hrows := getLast?_rowsSorted_none hlast
    have hzero : s.lastSeq = 0 := by simpa [hrows] using hcursor.le
    rw [if_neg (by simpa using hzero)]
    exact .pollEmpty hphase hrows
  · rename_i last hlast
    simp only [(getLast?_rowsSorted hlast).2, hcursor.not_reset, Bool.false_eq_true, if_false]
    rw [rowsSorted_eq]
    exact .poll hphase

theorem readTail_moves {s : World} {maxSeq fireTotal : ℕ} (hcursor : CursorOk s)
    (hphase : s.phase = .cycle ⟨maxSeq, [], fireTotal⟩) : Moves s .tail s.readTail := by
  unfold World.readTail
  split
  · rename_i hlast
    have hrows := getLast?_rowsSorted_none hlast
    have hzero : s.lastSeq = s.rows.entries.length := by simpa [hrows] using hcursor.le
    have hsame : { s with phase := .idle } = { s with
        phase := .idle, lastSeq := s.rows.entries.length, lastHash := s.lastHash } := by rw [← hzero]
    rw [hsame]
    exact .tail hphase (by simp [hrows])
  · rename_i last hlast
    obtain ⟨hmem, hseq⟩ := getLast?_rowsSorted hlast
    rw [hseq]
    refine .tail hphase fun e he heq => .inr ?_
    rw [eq_of_seq s.rows.seqs he hmem (heq.trans hseq.symm)]

theorem step_moves {s s' : World} {a : Action} (hcursor : CursorOk s) (h : step s a = some s') :
    Moves s a s' := by
  cases a with
  | commit byDispatch new =>
    simp only [step] at h
    split at h
    · rename_i hnew
      split at h
      · rename_i hphase
        exact Option.some.inj h ▸ .write hphase hnew
      · cases h
      · exact Option.some.inj h ▸ .commit hnew
    · cases h
  | poll =>
    simp only [step] at h
    split at h
    · rename_i hphase
      exact Option.some.inj h ▸ poll_moves hcursor hphase
    · cases h
  | hand bindings =>
    simp only [step] at h
    split at h
    · rename_i hphase
      split at h
      · rename_i hbindings
        exact Option.some.inj h ▸ .hand hphase hbindings
      · cases h
    · cases h
  | attempt outcome =>
    simp only [step] at h
    split at h
    · rename_i hphase
      cases outcome with
      | fired => exact Option.some.inj h ▸ .fired hphase
      | fireLost => exact Option.some.inj h ▸ .fireLost hphase
      | inactive | noMatch | denied | raised | quiet =>
        exact Option.some.inj h ▸ .attempt hphase rfl
    · cases h
  | finish =>
    simp only [step] at h
    split at h
    · rename_i hphase
      exact Option.some.inj h ▸ .finish hphase
    · cases h
  | raise =>
    simp only [step] at h
    split at h
    · cases h
    · rename_i hphase
      exact Option.some.inj h ▸ .raise hphase
  | tail =>
    simp only [step] at h
    split at h
    · rename_i hphase
      exact Option.some.inj h ▸ readTail_moves hcursor hphase
    · cases h

end Reactivity
