import Wormbase.Lib.Run
import Wormbase.Projection.Cycles
import Mathlib.Logic.Function.Basic

/-! `ClockTickEmitter`: the ticks of a cadence are numbered by those that are in the ledger already.

    An emitter counts and then writes, and other entries may come in between. Restarts, failed writes and other
    cadences leave the count alone, so the numbers run on as long as a cadence has one emitter. -/

namespace ClockTick
open Py Projection

/-! ### The emitter -/

structure ClockTickEmitter where
  companyId : UUID
  tickIntervalS : ℤ
  positive : 0 < tickIntervalS

/-- The cadence of a row that reads as a clock tick; -1 where the tick names none. -/
def cadence (e : LedgerRow) : Except Err (Option ℤ) :=
  if e.kind ≠ "execute" then .ok none
  else match e.payload.or (.dict []) with
    | .dict payload =>
      if !(Dict.get payload "tool").isText "emit_clock_tick" then .ok none
      else match (Dict.get payload "args").or (.dict []) with
        | .dict args =>
          match (Dict.getD args "tick_interval_s" (.int (-1))).toInt with
          | .ok i => .ok (some i)
          | .error x => if x.cls = "TypeError" ∨ x.cls = "ValueError" then .ok none else .error x
        | _ => .ok none
    | _ => .ok none

def isTick (interval : ℤ) (e : LedgerRow) : Bool :=
  match cadence e with
  | .ok (some i) => i = interval
  | _ => false

namespace ClockTickEmitter
variable (m : ClockTickEmitter)

def slot : UUID × ℤ := (m.companyId, m.tickIntervalS)

/-- `_next_sequence_number`. -/
def nextSequenceNumber (rows : List LedgerRow) : Except Err ℕ :=
  (rows.filter fun e => e.companyId = m.companyId).foldlM (fun prior e => do
    let c ← cadence e
    pure (if c = some m.tickIntervalS then prior + 1 else prior)) 0

def refId (sequenceNumber : ℕ) : String :=
  "clock_tick:" ++ m.companyId.str ++ ":" ++ String.ofList (intText m.tickIntervalS) ++ ":" ++
    String.ofList (intText sequenceNumber)

/-- What `tick_once` writes. -/
def cycle (st : Stamp) (sequenceNumber : ℕ) : Cycle where
  stamp := st
  propose := [(.str "target_kind", .str "clock_tick"), (.str "ref_id", .str (m.refId sequenceNumber)),
    (.str "reason", .str ("periodic tick every " ++ String.ofList (intText m.tickIntervalS) ++ "s (seq=" ++
      String.ofList (intText sequenceNumber) ++ ")")),
    (.str "proposed_by", .str "reactivities.clock_tick_emitter")]
  execute := [(.str "tool", .str "emit_clock_tick"),
    (.str "args", .dict [(.str "tick_interval_s", .int m.tickIntervalS),
      (.str "sequence_number", .int sequenceNumber)]),
    (.str "result_ref", .str ("clock_tick:" ++ String.ofList (intText m.tickIntervalS) ++ ":" ++
      String.ofList (intText sequenceNumber)))]
  verify := [(.str "checks", .list [.dict [(.str "name", .str "clock_tick"), (.str "ok", .bool true)]]),
    (.str "passed", .bool true)]
  resolve := [(.str "outcome", .str "keep"),
    (.str "rationale", .str ("clock_tick emitted: cadence=" ++ String.ofList (intText m.tickIntervalS) ++
      "s sequence_number=" ++ String.ofList (intText sequenceNumber)))]

/-- The entries of the emitter's cadence. -/
def ticked (e : LedgerRow) : Bool := e.companyId = m.companyId ∧ isTick m.tickIntervalS e

end ClockTickEmitter

/-- The number that a tick carries. -/
def sequenceNumber (e : LedgerRow) : Val :=
  match e.payload with
  | .dict payload =>
    match Dict.get payload "args" with
    | .dict args => Dict.get args "sequence_number"
    | _ => .none
  | _ => .none

def sequenceNumbers (m : ClockTickEmitter) (rows : List LedgerRow) : List Val :=
  (rows.filter m.ticked).map sequenceNumber

/-! ### Runs -/

/-- The ledger, and what the emitter of a cadence has counted for the tick that it is about to write. -/
structure State where
  rows : List LedgerRow
  counted : UUID × ℤ → Option ℕ

inductive Event where
  | count (m : ClockTickEmitter)
  | write (m : ClockTickEmitter) (st : Stamp)
  | skip (m : ClockTickEmitter)
  | append (e : LedgerRow)

/-- No tick of an emitter's cadence. -/
def other (e : LedgerRow) : Bool :=
  match cadence e with
  | .ok (some i) => i ≤ 0
  | _ => true

/-- A tick counts and then writes; it is skipped where the count or the write fails, and where the emitter is
    restarted. Whatever is no tick may be appended at any time. -/
def step (s : State) : Event → Option State
  | .count m =>
    match s.counted m.slot, m.nextSequenceNumber s.rows with
    | none, .ok n => some { s with counted := Function.update s.counted m.slot (some n) }
    | none, .error _ => some s
    | some _, _ => none
  | .write m st =>
    match s.counted m.slot with
    | some n => some {
        rows := s.rows ++ (m.cycle st n).rows m.companyId (s.rows.filter fun e => e.companyId = m.companyId).length
        counted := Function.update s.counted m.slot none }
    | none => none
  | .skip m => some { s with counted := Function.update s.counted m.slot none }
  | .append e => if other e then some { s with rows := s.rows ++ [e] } else none

def start : State := ⟨[], fun _ => none⟩

/-! ### What the rows of a tick read as -/

section
variable {m m' : ClockTickEmitter} {e : LedgerRow} {rows rows' : List LedgerRow} {st : Stamp} {n k : ℕ}

theorem sequenceNumbers_append : sequenceNumbers m (rows ++ rows') = sequenceNumbers m rows ++ sequenceNumbers m rows' := by
  rw [sequenceNumbers, List.filter_append, List.map_append]
  rfl

theorem isTick_of_kind (h : e.kind ≠ "execute") (i : ℤ) : isTick i e = false := by
  rw [isTick, cadence, if_pos h]

theorem isTick_of_other (h : other e = true) {i : ℤ} (hi : 0 < i) : isTick i e = false := by
  rw [other] at h
  rw [isTick]
  split
  · rename_i j heq
    rw [heq] at h
    simp only [decide_eq_true_eq] at h
    exact decide_eq_false (by omega)
  · rfl

theorem payload_eq (m : ClockTickEmitter) (st : Stamp) (n : ℕ) : (m.cycle st n).executePayload =
    [(.str "propose_entry_id", .str st.proposeId.str), (.str "tool", .str "emit_clock_tick"),
      (.str "args", .dict [(.str "tick_interval_s", .int m.tickIntervalS), (.str "sequence_number", .int n)]),
      (.str "result_ref", .str ("clock_tick:" ++ String.ofList (intText m.tickIntervalS) ++ ":" ++
        String.ofList (intText n)))] := by
  simp [Cycle.executePayload, ClockTickEmitter.cycle, linked, Dict.update, Dict.set]

theorem cadence_execute {company id : UUID} {ts : DateTime}
    (h : e.Is company id ts "execute" (m.cycle st n).executePayload) :
    cadence e = .ok (some m.tickIntervalS) ∧ sequenceNumber e = .int n := by
  rw [payload_eq] at h
  constructor
  · simp [cadence, h.kind, h.payload, Val.or, Val.truthy, Dict.get, Dict.getD, Dict.get?, Val.isText, Val.toInt]
  · simp [sequenceNumber, h.payload, Dict.get, Dict.get?]

/-- A tick adds its number to its own cadence and to no other. -/
theorem sequenceNumbers_cycle (m m' : ClockTickEmitter) (st : Stamp) (n k : ℕ) :
    sequenceNumbers m' ((m.cycle st n).rows m.companyId k) = if m.slot = m'.slot then [.int n] else [] := by
  obtain ⟨p, e, v, r, hrows, hp, he, hv, hr⟩ := (m.cycle st n).rows_eq m.companyId k
  obtain ⟨hcadence, hnumber⟩ := cadence_execute he
  have hnot : ∀ e : LedgerRow, e.kind ≠ "execute" → m'.ticked e = false := fun e h => by
    simp [ClockTickEmitter.ticked, isTick_of_kind h]
  have htick : m'.ticked e = decide (m.slot = m'.slot) := by
    simp [ClockTickEmitter.ticked, ClockTickEmitter.slot, isTick, hcadence, he.companyId]
  rw [hrows, sequenceNumbers, List.filter_cons_of_neg (by simp [hnot p (by simp [hp.kind])]), List.filter_cons, htick]
  rw [List.filter_cons_of_neg (by simp [hnot v (by simp [hv.kind])]),
    List.filter_cons_of_neg (by simp [hnot r (by simp [hr.kind])]), List.filter_nil]
  by_cases h : m.slot = m'.slot
  · simp [h, hnumber]
  · simp [h]

/-- What is counted is the entries of the cadence. -/
theorem nextSequenceNumber_ok (h : m.nextSequenceNumber rows = .ok n) : n = (sequenceNumbers m rows).length := by
  have hfold : ∀ (rows : List LedgerRow) (prior n : ℕ), (rows.foldlM (fun prior e => do
      let c ← cadence e
      pure (if c = some m.tickIntervalS then prior + 1 else prior)) prior : Except Err ℕ) = .ok n →
      n = prior + rows.countP (isTick m.tickIntervalS) := by
    intro rows
    induction rows with
    | nil =>
      intro prior n h
      exact (Except.ok.inj h).symm
    | cons e rows ih =>
      intro prior n h
      rw [List.foldlM_cons] at h
      cases hc : cadence e with
      | error x =>
        rw [hc] at h
        cases h
      | ok c =>
        rw [hc] at h
        have hrest := ih _ _ h
        have htick : isTick m.tickIntervalS e = decide (c = some m.tickIntervalS) := by
          rw [isTick, hc]
          cases c <;> simp
        rw [List.countP_cons, htick]
        by_cases hown : c = some m.tickIntervalS
        · simp only [hown, if_true, decide_true] at hrest ⊢
          omega
        · simp only [hown, if_false, decide_false, Bool.false_eq_true] at hrest ⊢
          omega
  have hcount := hfold _ _ _ h
  rw [Nat.zero_add, List.countP_filter] at hcount
  rw [hcount, sequenceNumbers, List.length_map, ← List.countP_eq_length_filter]
  refine List.countP_congr fun e _ => ?_
  simp [ClockTickEmitter.ticked, and_comm]

/-! ### All runs -/

/-- The first natural numbers, as the ledger has them. -/
def firstNumbers (n : ℕ) : List Val := (List.range n).map fun k : ℕ => .int k

/-- The entries of each cadence are numbered from 0 on, and what an emitter has counted still holds. -/
structure Numbered (s : State) : Prop where
  numbers : ∀ m, ∃ n, sequenceNumbers m s.rows = firstNumbers n
  counted : ∀ m n, s.counted m.slot = some n → sequenceNumbers m s.rows = firstNumbers n

theorem Numbered.start : Numbered start := ⟨fun _ => ⟨0, rfl⟩, fun _ _ h => (nomatch h)⟩

theorem Numbered.length {s : State} (h : Numbered s) (m : ClockTickEmitter) :
    sequenceNumbers m s.rows = firstNumbers (sequenceNumbers m s.rows).length := by
  obtain ⟨n, hn⟩ := h.numbers m
  have hlength : (firstNumbers n).length = n := by rw [firstNumbers, List.length_map, List.length_range]
  rw [hn, hlength]

theorem slot_congr (h : m.slot = m'.slot) (rows : List LedgerRow) : sequenceNumbers m rows = sequenceNumbers m' rows := by
  obtain ⟨hcompany, hinterval⟩ := Prod.mk.inj h
  have hticked : m.ticked = m'.ticked := by
    funext e
    simp only [ClockTickEmitter.ticked, hcompany, hinterval]
  rw [sequenceNumbers, sequenceNumbers, hticked]

theorem Numbered.step {s s' : State} {event : Event} (h : Numbered s) (hstep : step s event = some s') :
    Numbered s' := by
  cases event with
  | count m =>
    simp only [ClockTick.step] at hstep
    split at hstep
    · rename_i n _ hn
      obtain rfl := Option.some.inj hstep
      refine ⟨h.numbers, fun m' k hk => ?_⟩
      by_cases hslot : m'.slot = m.slot
      · simp only [hslot, Function.update_self] at hk
        obtain rfl := Option.some.inj hk
        rw [slot_congr hslot, nextSequenceNumber_ok hn]
        exact h.length m
      · simp only [Function.update_of_ne hslot] at hk
        exact h.counted m' k hk
    · obtain rfl := Option.some.inj hstep
      exact h
    · cases hstep
  | write m st =>
    simp only [ClockTick.step] at hstep
    split at hstep
    · rename_i n hn
      obtain rfl := Option.some.inj hstep
      have hnumbers := h.counted m n hn
      constructor
      · intro m'
        rw [sequenceNumbers_append, sequenceNumbers_cycle]
        by_cases hslot : m.slot = m'.slot
        · refine ⟨n + 1, ?_⟩
          rw [if_pos hslot, ← slot_congr hslot, hnumbers, firstNumbers, firstNumbers, List.range_succ, List.map_append]
          rfl
        · rw [if_neg hslot, List.append_nil]
          exact h.numbers m'
      · intro m' k hk
        by_cases hslot : m'.slot = m.slot
        · simp only [hslot, Function.update_self] at hk
          cases hk
        · simp only [Function.update_of_ne hslot] at hk
          rw [sequenceNumbers_append, sequenceNumbers_cycle, if_neg (Ne.symm hslot), List.append_nil]
          exact h.counted m' k hk
    · cases hstep
  | skip m =>
    obtain rfl := Option.some.inj hstep
    refine ⟨h.numbers, fun m' k hk => ?_⟩
    by_cases hslot : m'.slot = m.slot
    · simp only [hslot, Function.update_self] at hk
      cases hk
    · simp only [Function.update_of_ne hslot] at hk
      exact h.counted m' k hk
  | append e =>
    simp only [ClockTick.step] at hstep
    split at hstep
    · rename_i hother
      obtain rfl := Option.some.inj hstep
      have hnone : ∀ m, sequenceNumbers m (s.rows ++ [e]) = sequenceNumbers m s.rows := by
        intro m
        have hticked : m.ticked e = false := by
          simp [ClockTickEmitter.ticked, isTick_of_other hother m.positive]
        rw [sequenceNumbers_append, sequenceNumbers, sequenceNumbers, List.filter_cons_of_neg (by simp [hticked]),
          List.filter_nil, List.map_nil, List.append_nil]
      exact ⟨fun m => by rw [hnone]; exact h.numbers m, fun m k hk => by rw [hnone]; exact h.counted m k hk⟩
    · cases hstep

end

/-! ### Two cadences and a restart -/

def hourly : ClockTickEmitter := ⟨⟨7⟩, 3600, by decide⟩
def daily : ClockTickEmitter := ⟨⟨7⟩, 86400, by decide⟩

def restartedRun : List Event :=
  [.count hourly, .count daily, .write daily instantStamp, .write hourly instantStamp, .count hourly, .skip hourly,
    .count hourly, .write hourly instantStamp]

end ClockTick
