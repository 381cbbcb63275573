import Wormbase.WormCore.CompositeScore
import Mathlib.Tactic.IntervalCases

/-! When the composite score counts what the ledger holds.

    Every row of the ledger is of one of the four phases, so a test on the row kind `gate_fired` or `chat_received`
    never holds: the gate precision stays neutral, and no chat message is counted. -/

namespace WormCore
open Py
open Projection (LedgerRow)

/-! ### What the window holds -/

/-- The action of an execute row. -/
def action (r : LedgerRow) : Option String :=
  match r.kind, r.payload with
  | "execute", .dict payload =>
    match Dict.get payload "tool" with
    | .str tool => some tool
    | _ => none
  | _, _ => none

/-- The args of an action. -/
def actionArgs (r : LedgerRow) : Dict :=
  match r.payload with
  | .dict payload =>
    match Dict.get payload "args" with
    | .dict args => args
    | _ => []
  | _ => []

/-- The actions that record a chat message. -/
def chatActions : List String := ["emit_chat_received", "channel_adapter.emit_chat_received"]

def chatMessages (window : List LedgerRow) : ℕ := window.countP fun r => (action r).any (· ∈ chatActions)
def memories (window : List LedgerRow) : ℕ := window.countP fun r => action r = some "emit_memory_written"
def kpiProposals (window : List LedgerRow) : ℕ := window.countP fun r => action r = some "emit_kpi_proposed"

section
variable (py : Interp)

/-- The subject of an allowed firing of a gate. -/
def allowedFiring (r : LedgerRow) : Option String :=
  if action r = some "emit_gate_fired" ∧ (Dict.get (actionArgs r) "outcome").isText "allowed" then
    some ((Dict.getD (actionArgs r) "subject_ref" (.str "")).toStr py)
  else none

/-- The row resolves the experiment `subject` with `outcome`. -/
def resolves (subject outcome : String) (r : LedgerRow) : Bool :=
  action r = some "emit_experiment_resolved" && (Dict.get (actionArgs r) "outcome").isText outcome &&
    (Dict.getD (actionArgs r) "experiment_id" (.str "")).toStr py = subject && subject ≠ ""

/-- The allowed firings whose subject was later kept, and those whose subject was later discarded. -/
def gateCounts : List LedgerRow → ℕ × ℕ
  | [] => (0, 0)
  | r :: later =>
    match allowedFiring py r with
    | none => gateCounts later
    | some subject =>
      if later.any (resolves py subject "keep") then ((gateCounts later).1 + 1, (gateCounts later).2)
      else if later.any (resolves py subject "discard") then ((gateCounts later).1, (gateCounts later).2 + 1)
      else gateCounts later

/-- The share of the upheld among the resolved, neutral when none was resolved. -/
def gateShare (counts : ℕ × ℕ) : PyFloat :=
  if counts.1 + counts.2 = 0 then neutralRatio else .ofMag false ((counts.1 : ℚ) / (counts.1 + counts.2 : ℕ))

/-- The share of the cap that a number of increments makes up. -/
def rampShare (increments : ℕ) : PyFloat := .ofMag false (min 1 ((increments : ℚ) / rampDeltaCap))

/-- The score counts what the window holds. -/
structure CountsWindow (window : List LedgerRow) (s : CompositeScore) : Prop where
  gate : s.components .gatePrecision = gateShare (gateCounts py window)
  ramp : s.components .rampDelta = rampShare (chatMessages window + memories window + kpiProposals window)
  score : s.score.InUnit

/-- The rows of the window at a height. -/
def windowAt (rows : List LedgerRow) (ledgerHeight : Option ℤ) (windowDays : ℤ) (now : Option DateTime) : List LedgerRow :=
  (inWindow (inScope rows (ledgerHeight.getD (highestSeq rows))) windowDays now).toOption.getD []

/-- As many upheld as rejected, up to what the rounding of a division can tell. -/
def EvenCounts (counts : ℕ × ℕ) : Prop :=
  (2 ^ 54 - 1) * counts.2 ≤ (2 ^ 54 + 1) * counts.1 ∧ (2 ^ 53 - 1) * counts.1 ≤ (2 ^ 53 + 1) * counts.2

end

/-- Every row is of one of the four phases of a cycle. -/
def Phased (rows : List LedgerRow) : Prop := ∀ r ∈ rows, ∃ k : Ledger.Kind, r.kind = k.text

theorem Phased.of_subset {rows rows' : List LedgerRow} (h : Phased rows) (hsub : rows' ⊆ rows) : Phased rows' :=
  fun r hr => h r (hsub hr)

theorem kind_ne {r : LedgerRow} (h : ∃ k : Ledger.Kind, r.kind = k.text) :
    r.kind ≠ "gate_fired" ∧ r.kind ≠ "chat_received" := by
  obtain ⟨k, hk⟩ := h
  rw [hk]
  cases k <;> decide

/-! ### The shares -/

/-- A share of gates is one half exactly for even counts. -/
theorem gateShare_eq_neutral (counts : ℕ × ℕ) : gateShare counts = neutralRatio ↔ EvenCounts counts := by
  obtain ⟨u, r⟩ := counts
  rw [gateShare]
  split
  · rename_i h
    have hu : u = 0 := by simp only at h; omega
    have hr : r = 0 := by simp only at h; omega
    subst hu hr
    exact iff_of_true rfl ⟨le_rfl, le_rfl⟩
  rename_i h
  have hpos : (0 : ℚ) < (u + r : ℕ) := by exact_mod_cast Nat.pos_of_ne_zero h
  have hle : (u : ℚ) ≤ (u + r : ℕ) := by exact_mod_cast Nat.le_add_right u r
  have hhalf := PyFloat.toDouble_eq_half (div_nonneg (Nat.cast_nonneg u) hpos.le) ((div_le_one hpos).mpr hle)
  have hshare : PyFloat.ofMag false ((u : ℚ) / (u + r : ℕ)) = neutralRatio ↔
      PyFloat.toDouble ((u : ℚ) / (u + r : ℕ)) = some (1 / 2) := by
    rw [PyFloat.ofMag, neutralRatio]
    constructor
    · intro h
      split at h
      · rename_i q hq
        rw [hq, (PyFloat.finite.inj h).2]
      · cases h
    · intro h
      rw [h]
  rw [hshare, hhalf, ← mul_div_assoc, ← mul_div_assoc, le_div_iff₀ hpos, div_le_iff₀ hpos, EvenCounts]
  push_cast
  constructor
  · rintro ⟨h₁, h₂⟩
    constructor
    · have : ((2 ^ 54 - 1 : ℕ) : ℚ) * r ≤ ((2 ^ 54 + 1 : ℕ) : ℚ) * u := by norm_num at h₁ ⊢; linarith
      exact_mod_cast this
    · have : ((2 ^ 53 - 1 : ℕ) : ℚ) * u ≤ ((2 ^ 53 + 1 : ℕ) : ℚ) * r := by norm_num at h₂ ⊢; linarith
      exact_mod_cast this
  · rintro ⟨h₁, h₂⟩
    have h₁ : ((2 ^ 54 - 1 : ℕ) : ℚ) * r ≤ ((2 ^ 54 + 1 : ℕ) : ℚ) * u := by exact_mod_cast h₁
    have h₂ : ((2 ^ 53 - 1 : ℕ) : ℚ) * u ≤ ((2 ^ 53 + 1 : ℕ) : ℚ) * r := by exact_mod_cast h₂
    norm_num at h₁ h₂ ⊢
    constructor <;> linarith

theorem rampShare_full {n : ℕ} (h : 30 ≤ n) : rampShare n = .one := by
  have hn : (30 : ℚ) ≤ n := by exact_mod_cast h
  have hmin : min (1 : ℚ) ((n : ℚ) / rampDeltaCap) = ((1 : ℕ) : ℚ) := by
    rw [Nat.cast_one]
    refine min_eq_left ?_
    rw [le_div_iff₀ (by norm_num [rampDeltaCap])]
    simpa [rampDeltaCap] using hn
  rw [rampShare, hmin, PyFloat.ofMag, PyFloat.toDouble_natCast (by norm_num)]
  rfl

theorem rampShare_zero : rampShare 0 = neutralRamp := by
  simp [rampShare, PyFloat.ofMag, PyFloat.toDouble_zero, neutralRamp]

/-- The 31 shares of the cap are 31 doubles. -/
theorem rampShare_distinct : ((List.range 31).map fun n : ℕ => PyFloat.toDouble (min 1 ((n : ℚ) / 30))).Nodup := by
  decide +kernel

/-- Below the cap the share is no larger than 1. -/
theorem rampShare_below : ∀ n : ℕ, n < 30 → PyFloat.min .one (PyFloat.ofMag false ((n : ℚ) / 30)) = PyFloat.ofMag false ((n : ℚ) / 30) := by
  decide +kernel

/-- Below the cap, one more increment is another share. -/
theorem rampShare_eq_iff {m n : ℕ} (h : m ≤ n) : rampShare m = rampShare n ↔ n = m ∨ 30 ≤ m := by
  constructor
  · intro heq
    by_contra hne
    obtain ⟨hnm, hm⟩ := not_or.mp hne
    -- past the cap, `n` has the share of 30
    obtain ⟨k, hk, hmk, hshare⟩ : ∃ k, k < 31 ∧ m < k ∧ rampShare n = rampShare k := by
      rcases lt_or_ge n 31 with hn | hn
      · exact ⟨n, hn, by omega, rfl⟩
      · exact ⟨30, by omega, by omega, by rw [rampShare_full (by omega), rampShare_full le_rfl]⟩
    have hdouble : PyFloat.toDouble (min 1 ((m : ℚ) / 30)) = PyFloat.toDouble (min 1 ((k : ℚ) / 30)) := by
      have h : PyFloat.ofMag false (min 1 ((m : ℚ) / 30)) = PyFloat.ofMag false (min 1 ((k : ℚ) / 30)) := heq.trans hshare
      simp only [PyFloat.ofMag] at h
      split at h <;> rename_i hx <;> split at h <;> rename_i hy
      · rw [hx, hy, (PyFloat.finite.inj h).2]
      · cases h
      · cases h
      · rw [hx, hy]
    have hmk' := List.inj_on_of_nodup_map rampShare_distinct (List.mem_range.mpr (show m < 31 by omega)) (List.mem_range.mpr hk) hdouble
    omega
  · rintro (rfl | hm)
    · rfl
    · rw [rampShare_full hm, rampShare_full (by omega)]

/-- What `_ramp_delta` makes of its increments. -/
theorem rampShare_of_increments {n : ℕ} {v : PyFloat}
    (h : (if n = 0 then return neutralRamp else do
      let share ← (← (Val.int n).toFloat).div (.finite false rampDeltaCap)
      return PyFloat.min .one share : Except Err PyFloat) = .ok v) : v = rampShare n := by
  have hcap : (rampDeltaCap : ℚ) = 30 := by norm_num [rampDeltaCap]
  rcases Nat.eq_zero_or_pos n with rfl | hpos
  · rw [rampShare_zero]
    exact (Except.ok.inj h).symm
  rw [if_neg (by omega)] at h
  obtain ⟨f, hf, h⟩ := bind_eq_ok.mp h
  obtain ⟨share, hshare, h⟩ := bind_eq_ok.mp h
  rw [← Except.ok.inj h]
  simp only [Val.toFloat, PyFloat.ofInt, Int.natAbs_natCast] at hf
  cases hr : PyFloat.toDouble n with
  | none =>
    rw [hr] at hf
    cases hf
  | some r =>
    rw [hr] at hf
    have hf := Except.ok.inj hf
    subst hf
    have hdiv : share = PyFloat.ofMag false (r / 30) := by
      have hneg : decide ((n : ℤ) < 0) = false := by simp
      simp only [PyFloat.div, hcap, hneg] at hshare
      rw [if_neg (by norm_num)] at hshare
      exact (Except.ok.inj hshare).symm
    rw [hdiv]
    rcases lt_or_ge n 30 with hlt | hge
    · rw [PyFloat.toDouble_natCast (by omega)] at hr
      rw [← Option.some.inj hr]
      have hshort : (n : ℚ) / 30 < 1 := by
        rw [div_lt_one (by norm_num)]
        exact_mod_cast hlt
      rw [rampShare, hcap, min_eq_right hshort.le, rampShare_below n hlt]
    · have hr30 : ((30 : ℕ) : ℚ) ≤ r := PyFloat.le_toDouble (by norm_num) (by norm_num) (by exact_mod_cast hge) hr
      have hone : ((1 : ℕ) : ℚ) ≤ r / 30 := by
        rw [le_div_iff₀ (by norm_num)]
        simpa using hr30
      rw [rampShare_full hge, PyFloat.ofMag]
      cases hr' : PyFloat.toDouble (r / 30) with
      | none => rfl
      | some r' =>
        have hr1 : ((1 : ℕ) : ℚ) ≤ r' := PyFloat.le_toDouble le_rfl (by norm_num) hone hr'
        have hlt : ¬ r' < 1 := not_lt.mpr (by simpa using hr1)
        simp [PyFloat.min, PyFloat.one, PyFloat.lt, PyFloat.signed, hlt]

/-! ### Reading the rows -/

theorem isExecuteWithTool_ok {r : LedgerRow} {tool : String} {b : Bool} (h : isExecuteWithTool r tool = .ok b) :
    b = decide (action r = some tool) := by
  rw [isExecuteWithTool] at h
  split at h
  · rename_i hexec
    obtain ⟨v, hv, h⟩ := bind_eq_ok.mp h
    rw [← Except.ok.inj h, action, hexec]
    cases hp : r.payload with
    | dict payload =>
      rw [hp] at hv
      have hv : Dict.get payload "tool" = v := Except.ok.inj hv
      simp only [hv]
      cases v <;> simp [Val.isText]
    | _ =>
      rw [hp] at hv
      cases hv
  · rename_i hexec
    have haction : action r = none := by
      rw [action]
      split
      · rename_i heq _
        exact absurd heq hexec
      · rfl
    rw [← Except.ok.inj h, haction]
    rfl

/-- No firing of a gate is among the rows that the code reads. -/
theorem foldlM_allowedStep {window : List LedgerRow} (h : Phased window) : window.foldlM allowedStep [] = .ok [] := by
  induction window with
  | nil => rfl
  | cons r rest ih =>
    obtain ⟨hr, hrest⟩ := List.forall_mem_cons.mp h
    have hstep : allowedStep [] r = .ok [] := by
      have hkind : isKind r "gate_fired" = false := decide_eq_false (kind_ne hr).1
      simp only [allowedStep, hkind, Bool.not_false, if_true]
      rfl
    rw [List.foldlM_cons, hstep]
    exact ih hrest

theorem gateFirePrecision_neutral (py : Interp) {window : List LedgerRow} (h : Phased window) :
    gateFirePrecision py window = .ok neutralRatio := by
  rw [gateFirePrecision, foldlM_allowedStep h]
  rfl

theorem rampStep_ok {r : LedgerRow} {n n' : ℕ} (hr : ∃ k : Ledger.Kind, r.kind = k.text) (h : rampStep n r = .ok n') :
    n' = n + (if action r = some "emit_memory_written" then 1 else 0) +
      (if action r = some "emit_kpi_proposed" then 1 else 0) := by
  rw [rampStep, if_neg (kind_ne hr).2] at h
  obtain ⟨b, hb, h⟩ := bind_eq_ok.mp h
  rw [isExecuteWithTool_ok hb] at h
  by_cases hmem : action r = some "emit_memory_written"
  · rw [if_pos (decide_eq_true hmem)] at h
    rw [← Except.ok.inj h, hmem]
    simp
  rw [if_neg (by simpa using hmem)] at h
  obtain ⟨b', hb', h⟩ := bind_eq_ok.mp h
  rw [isExecuteWithTool_ok hb'] at h
  by_cases hkpi : action r = some "emit_kpi_proposed"
  · rw [if_pos (decide_eq_true hkpi)] at h
    rw [← Except.ok.inj h, hkpi]
    simp
  · rw [if_neg (by simpa using hkpi)] at h
    rw [← Except.ok.inj h, if_neg hmem, if_neg hkpi]
    rfl

/-- The code counts the memories and the KPI proposals. -/
theorem foldlM_rampStep {window : List LedgerRow} (h : Phased window) {n n' : ℕ} (hn : window.foldlM rampStep n = .ok n') :
    n' = n + memories window + kpiProposals window := by
  induction window generalizing n with
  | nil => exact (Except.ok.inj hn).symm
  | cons r rest ih =>
    obtain ⟨hr, hrest⟩ := List.forall_mem_cons.mp h
    rw [List.foldlM_cons] at hn
    obtain ⟨m, hm, hn⟩ := bind_eq_ok.mp hn
    have hstep := rampStep_ok hr hm
    have hih := ih hrest hn
    simp only [memories, kpiProposals, List.countP_cons, decide_eq_true_eq] at hih ⊢
    omega

theorem rampDelta_ok {window : List LedgerRow} (h : Phased window) {v : PyFloat} (hv : rampDelta window = .ok v) :
    v = rampShare (memories window + kpiProposals window) := by
  obtain ⟨n, hn, hv⟩ := bind_eq_ok.mp hv
  have hcount := foldlM_rampStep h hn
  rw [Nat.zero_add] at hcount
  rw [← hcount]
  exact rampShare_of_increments hv

/-! ### The score -/

theorem inWindow_subset {scope window : List LedgerRow} {windowDays : ℤ} {now : Option DateTime}
    (h : inWindow scope windowDays now = .ok window) : window ⊆ scope := by
  rw [inWindow] at h
  split at h
  · rw [← Except.ok.inj h]
    exact List.nil_subset _
  · obtain ⟨cutoff, -, h⟩ := bind_eq_ok.mp h
    rw [← Except.ok.inj h]
    exact fun r hr => List.mem_of_mem_filter hr

/-- When the score of a ledger of cycles counts what its window holds: a row stands at or below the height, as many
    allowed firings were upheld as rejected, and no chat message is in the window unless the cap is reached without. -/
structure CountedAlike (py : Interp) (scope window : List LedgerRow) : Prop where
  begun : scope ≠ []
  even : EvenCounts (gateCounts py window)
  quiet : chatMessages window = 0 ∨ rampDeltaCap ≤ memories window + kpiProposals window

theorem composite_score_counts_iff (py : Interp) (tenantId : String) {rows : List LedgerRow} (hphased : Phased rows)
    (ledgerHeight : Option ℤ) (windowDays : ℤ) (now : Option DateTime) {s : CompositeScore}
    (h : compositeScore py tenantId rows ledgerHeight windowDays now = .ok s) :
    CountsWindow py (windowAt rows ledgerHeight windowDays now) s ↔
      CountedAlike py (inScope rows (ledgerHeight.getD (highestSeq rows))) (windowAt rows ledgerHeight windowDays now) := by
  generalize hscope : inScope rows (ledgerHeight.getD (highestSeq rows)) = scope at *
  simp only [compositeScore, hscope] at h
  rw [windowAt, hscope]
  by_cases hempty : scope = []
  · -- with no row in scope the ramp is neutral as well, although nothing was counted
    subst hempty
    rw [if_pos rfl] at h
    obtain ⟨weights, -, h⟩ := bind_eq_ok.mp h
    have h := Except.ok.inj h
    subst h
    refine iff_of_false (fun hc => ?_) (fun hc => hc.begun rfl)
    have hramp : neutralRatio = rampShare 0 := hc.ramp
    rw [rampShare_zero, neutralRatio, neutralRamp] at hramp
    have hhalf := (PyFloat.finite.inj hramp).2
    norm_num at hhalf
  · rw [if_neg hempty] at h
    obtain ⟨window, hwindow, h⟩ := bind_eq_ok.mp h
    obtain ⟨gate, hgate, h⟩ := bind_eq_ok.mp h
    obtain ⟨keep, -, h⟩ := bind_eq_ok.mp h
    obtain ⟨ramp, hramp, h⟩ := bind_eq_ok.mp h
    obtain ⟨confirm, -, h⟩ := bind_eq_ok.mp h
    obtain ⟨weights, -, h⟩ := bind_eq_ok.mp h
    have h := Except.ok.inj h
    subst h
    have hat : (inWindow scope windowDays now).toOption.getD [] = window := by
      rw [hwindow]
      rfl
    have hphased : Phased window := hphased.of_subset fun r hr => by
      have hsub := inWindow_subset hwindow hr
      rw [← hscope] at hsub
      exact List.mem_of_mem_filter hsub
    rw [gateFirePrecision_neutral py hphased] at hgate
    have hgate : neutralRatio = gate := Except.ok.inj hgate
    have hramp := rampDelta_ok hphased hramp
    have hle : memories window + kpiProposals window ≤ chatMessages window + memories window + kpiProposals window := by omega
    rw [hat]
    constructor
    · rintro ⟨hg, hr, -⟩
      refine ⟨hempty, (gateShare_eq_neutral _).mp (hg.symm.trans hgate.symm), ?_⟩
      rcases (rampShare_eq_iff hle).mp (hramp.symm.trans hr) with hquiet | hfull
      · exact Or.inl (by omega)
      · exact Or.inr hfull
    · rintro ⟨-, heven, hquiet⟩
      refine ⟨hgate.symm.trans ((gateShare_eq_neutral _).mpr heven).symm, hramp.trans ?_, PyFloat.inUnit_clamp _⟩
      refine (rampShare_eq_iff hle).mpr ?_
      rcases hquiet with hquiet | hfull
      · exact Or.inl (by omega)
      · exact Or.inr hfull

/-! ### Two ledgers -/

/-- The rows of one cycle, written on the day `day`. -/
def cycleOn (day : Fin maxMicros) (seq : ℕ) (tool : String) (args : List (String × Val)) : List LedgerRow :=
  (Projection.cycle seq tool (args.map fun p => (.str p.1, p.2))).map fun r => { r with ts := ⟨day, some DateTime.utc⟩ }

/-- Ten days into the calendar. -/
def tenthDay : Fin maxMicros := ⟨10 * dayMicros, by decide⟩

/-- A ledger of one memory. -/
def memoryLedger : List LedgerRow := cycleOn tenthDay 1 "emit_memory_written" [("memory_id", .str "m1")]

theorem phased_cycleOn {day : Fin maxMicros} {seq : ℕ} {tool : String} {args : List (String × Val)} :
    Phased (cycleOn day seq tool args) := by
  intro r hr
  simp only [cycleOn, Projection.cycle, List.map_cons, List.map_nil, List.mem_cons, List.not_mem_nil, or_false] at hr
  rcases hr with rfl | rfl | rfl | rfl
  · exact ⟨.propose, rfl⟩
  · exact ⟨.execute, rfl⟩
  · exact ⟨.verify, rfl⟩
  · exact ⟨.resolve, rfl⟩

theorem exists_ok {α : Type} {x : Except Err α} (h : x.toOption.isSome = true) : ∃ a, x = .ok a := by
  cases x with
  | ok a => exact ⟨a, rfl⟩
  | error e => cases h

/-- A memory alone is counted. -/
theorem memory_counted : ∃ s, compositeScore .plain "t" memoryLedger none 7 none = .ok s ∧
    CountsWindow .plain (windowAt memoryLedger none 7 none) s := by
  obtain ⟨s, hs⟩ := exists_ok (show (compositeScore .plain "t" memoryLedger none 7 none).toOption.isSome = true by decide +kernel)
  refine ⟨s, hs, (composite_score_counts_iff .plain "t" phased_cycleOn none 7 none hs).mpr ⟨?_, ?_, ?_⟩⟩
  · exact List.ne_nil_of_length_pos (by decide +kernel)
  · rw [EvenCounts]
    decide +kernel
  · decide +kernel

/-- A gate that let an experiment pass, and the experiment that was kept. -/
def keptLedger : List LedgerRow :=
  cycleOn tenthDay 1 "emit_gate_fired" [("gate", .str "interjection"), ("outcome", .str "allowed"), ("subject_ref", .str "e1")] ++
    cycleOn tenthDay 5 "emit_experiment_resolved" [("experiment_id", .str "e1"), ("outcome", .str "keep")]

/-- Its one firing was upheld, and its precision stays neutral. -/
theorem upheld_firing_uncounted : Phased keptLedger ∧ ∃ s, compositeScore .plain "t" keptLedger none 7 none = .ok s ∧
    s.components .gatePrecision = neutralRatio ∧ gateShare (gateCounts .plain (windowAt keptLedger none 7 none)) = .one ∧
    ¬ CountsWindow .plain (windowAt keptLedger none 7 none) s := by
  refine ⟨?_, ?_⟩
  · intro r hr
    rcases List.mem_append.mp hr with hr | hr
    · exact phased_cycleOn r hr
    · exact phased_cycleOn r hr
  obtain ⟨s, hs⟩ := exists_ok (show (compositeScore .plain "t" keptLedger none 7 none).toOption.isSome = true by decide +kernel)
  have hgate : (compositeScore .plain "t" keptLedger none 7 none).toOption.map (fun s => s.components .gatePrecision) =
      some neutralRatio := by decide +kernel
  have hshare : gateShare (gateCounts .plain (windowAt keptLedger none 7 none)) = .one := by decide +kernel
  rw [hs] at hgate
  have hgate : s.components .gatePrecision = neutralRatio := Option.some.inj hgate
  refine ⟨s, hs, hgate, hshare, fun hc => ?_⟩
  have hne : neutralRatio ≠ .one := by decide +kernel
  exact hne (hgate.symm.trans (hc.gate.trans hshare))

end WormCore
