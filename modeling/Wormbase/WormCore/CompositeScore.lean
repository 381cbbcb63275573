import Wormbase.Projection.Entry
import Wormbase.Py.FloatArith
import Mathlib.Data.Finset.Card

/-! The composite score: four ratios over the rows of a window, weighted and clamped.

    Three of the ratios read the actions of execute rows. The gate precision and the chat messages of the ramp are
    told by the kind of the row itself. -/

namespace WormCore
open Py
open Projection (LedgerRow)

inductive Component where | gatePrecision | proposeKeepRatio | rampDelta | reactivityConfirmRate
  deriving DecidableEq

def Component.all : List Component := [.gatePrecision, .proposeKeepRatio, .rampDelta, .reactivityConfirmRate]

def Component.name : Component → String
  | gatePrecision => "gate_precision"
  | proposeKeepRatio => "propose_keep_ratio"
  | rampDelta => "ramp_delta"
  | reactivityConfirmRate => "reactivity_confirm_rate"

def defaultWindowDays : ℤ := 7

/-- `DEFAULT_WEIGHTS`. -/
def defaultWeights : Component → PyFloat := fun _ => .finite false (1 / 4)

def neutralRatio : PyFloat := .finite false (1 / 2)
def neutralRamp : PyFloat := .finite false 0
def rampDeltaCap : ℕ := 30

structure CompositeScore where
  tenantId : String
  ledgerHeight : ℤ
  score : PyFloat
  components : Component → PyFloat
  weights : Component → PyFloat

/-! ### Reading a row -/

/-- `v.get(name, missing)` of a value that should be a dict. -/
def getOf (v : Val) (name : String) (missing : Val) : Except Err Val :=
  match v with
  | .dict d => .ok (Dict.getD d name missing)
  | v => .error (attributeError s!"'{v.typeName}' object has no attribute 'get'")

/-- `_is_execute_with_tool`. -/
def isExecuteWithTool (r : LedgerRow) (tool : String) : Except Err Bool :=
  if r.kind = "execute" then do return (← getOf r.payload "tool" .none).isText tool else .ok false

/-- `_is_kind`. -/
def isKind (r : LedgerRow) (kind : String) : Bool := r.kind = kind

/-- `_ts_of`. -/
def tsOf (r : LedgerRow) : DateTime := if r.ts.utcoffset = none then r.ts.replaceUtc else r.ts

/-- `r["payload"].get("args", {})`. -/
def argsOf (r : LedgerRow) : Except Err Val := getOf r.payload "args" (.dict [])

/-- Whether a dict's outcome is a text. -/
def outcomeIs (args : Val) (outcome : String) : Except Err Bool := do
  return (← getOf args "outcome" .none).isText outcome

/-! ### The components -/

section
variable (py : Interp)

/-- The subjects of an experiment that was resolved. -/
def resolvedStep (refs : Finset String × Finset String) (r : LedgerRow) : Except Err (Finset String × Finset String) := do
  if !(← isExecuteWithTool r "emit_experiment_resolved") then return refs
  let args := (← argsOf r).or (.dict [])
  let subj := (← getOf args "experiment_id" (.str "")).toStr py
  if subj = "" then return refs
  if ← outcomeIs args "keep" then return (insert subj refs.1, refs.2)
  if ← outcomeIs args "discard" then return (refs.1, insert subj refs.2)
  return refs

/-- A firing counted as upheld or rejected. -/
def upheldStep (refs : Finset String × Finset String) (counts : ℕ × ℕ) (g : LedgerRow) : Except Err (ℕ × ℕ) := do
  let subj := (← getOf g.payload "subject_ref" (.str "")).toStr py
  if subj ∈ refs.1 then return (counts.1 + 1, counts.2)
  if subj ∈ refs.2 then return (counts.1, counts.2 + 1)
  return counts

/-- The firings that were allowed. -/
def allowedStep (allowed : List LedgerRow) (r : LedgerRow) : Except Err (List LedgerRow) := do
  if !isKind r "gate_fired" then return allowed
  if ← outcomeIs r.payload "allowed" then return allowed ++ [r]
  return allowed

/-- `_gate_fire_precision`. -/
def gateFirePrecision (window : List LedgerRow) : Except Err PyFloat := do
  let allowed ← window.foldlM allowedStep []
  if allowed = [] then return neutralRatio
  let refs ← window.foldlM (resolvedStep py) (∅, ∅)
  let counts ← allowed.foldlM (upheldStep py refs) (0, 0)
  let total := counts.1 + counts.2
  if total = 0 then return neutralRatio
  PyFloat.trueDiv counts.1 total

end

/-- An experiment counted as kept or discarded. -/
def keptStep (counts : ℕ × ℕ) (r : LedgerRow) : Except Err (ℕ × ℕ) := do
  if !(← isExecuteWithTool r "emit_experiment_resolved") then return counts
  let args ← argsOf r
  if ← outcomeIs args "keep" then return (counts.1 + 1, counts.2)
  if ← outcomeIs args "discard" then return (counts.1, counts.2 + 1)
  return counts

/-- `_propose_keep_ratio`. -/
def proposeKeepRatio (window : List LedgerRow) : Except Err PyFloat := do
  let counts ← window.foldlM keptStep (0, 0)
  let total := counts.1 + counts.2
  if total = 0 then return neutralRatio
  PyFloat.trueDiv counts.1 total

/-- The increments of the three axes. -/
def rampStep (increments : ℕ) (r : LedgerRow) : Except Err ℕ := do
  if r.kind = "chat_received" then return increments + 1
  if ← isExecuteWithTool r "emit_memory_written" then return increments + 1
  if ← isExecuteWithTool r "emit_kpi_proposed" then return increments + 1
  return increments

/-- `_ramp_delta`. -/
def rampDelta (window : List LedgerRow) : Except Err PyFloat := do
  let increments ← window.foldlM rampStep 0
  if increments = 0 then return neutralRamp
  let share ← (← (Val.int increments).toFloat).div (.finite false rampDeltaCap)
  return PyFloat.min .one share

/-- A reactivity that was proposed or confirmed. -/
def confirmStep (py : Interp) (ids : Finset String × Finset String) (r : LedgerRow) :
    Except Err (Finset String × Finset String) := do
  if ← isExecuteWithTool r "emit_reactivity_proposed" then
    let rid ← getOf (← argsOf r) "reactivity_id" .none
    return if rid.truthy then (insert (rid.toStr py) ids.1, ids.2) else ids
  if ← isExecuteWithTool r "emit_reactivity_confirmed" then
    let rid ← getOf (← argsOf r) "reactivity_id" .none
    return if rid.truthy then (ids.1, insert (rid.toStr py) ids.2) else ids
  return ids

/-- `_reactivity_confirm_rate`. -/
def reactivityConfirmRate (py : Interp) (window : List LedgerRow) : Except Err PyFloat := do
  let ids ← window.foldlM (confirmStep py) (∅, ∅)
  if ids.1 = ∅ then return neutralRatio
  PyFloat.trueDiv (ids.1 ∩ ids.2).card ids.1.card

/-! ### The weights -/

/-- The component of a key of the weights. -/
def Component.ofKey (k : Key) : Option Component := Component.all.find? fun c => k = .str c.name

/-- `{k: float(v) for k, v in args.items() if k in DEFAULT_WEIGHTS}`. -/
def weightItems (args : Val) : Except Err (List (Component × PyFloat)) :=
  match args with
  | .dict d => (d.filterMap fun p => (Component.ofKey p.1).map fun c => (c, p.2)).mapM fun p => do
      return (p.1, ← p.2.toFloat)
  | v => .error (attributeError s!"'{v.typeName}' object has no attribute 'items'")

/-- The last weights that a row brings. -/
def weightStep (seen : List (Component × PyFloat)) (r : LedgerRow) : Except Err (List (Component × PyFloat)) := do
  if !(← isExecuteWithTool r "emit_composite_score_weights") then return seen
  let w ← weightItems ((← argsOf r).or (.dict []))
  return if w = [] then seen else w

/-- `_resolve_weights`. -/
def resolveWeights (rows : List LedgerRow) (untilSeq : Option ℤ) : Except Err (Component → PyFloat) := do
  let seen ← (rows.takeWhile fun r => untilSeq.all fun n => decide ((r.seq : ℤ) ≤ n)).foldlM weightStep []
  let weights := seen.foldl (fun w p => Function.update w p.1 p.2) defaultWeights
  let total := PyFloat.sum (Component.all.map weights)
  if PyFloat.le total .zero then return defaultWeights
  let gate ← (weights .gatePrecision).div total
  let keep ← (weights .proposeKeepRatio).div total
  let ramp ← (weights .rampDelta).div total
  let confirm ← (weights .reactivityConfirmRate).div total
  return fun
    | .gatePrecision => gate
    | .proposeKeepRatio => keep
    | .rampDelta => ramp
    | .reactivityConfirmRate => confirm

/-! ### The score -/

/-- `max((int(r["seq"]) for r in rows), default=0)` -/
def highestSeq (rows : List LedgerRow) : ℤ := (rows.map fun r => (r.seq : ℤ)).max?.getD 0

/-- The rows up to a height. -/
def inScope (rows : List LedgerRow) (height : ℤ) : List LedgerRow := rows.filter fun r => decide ((r.seq : ℤ) ≤ height)

/-- `anchor - timedelta(days=days)`, as an instant. -/
def cutoffOf (anchor : DateTime) (days : ℤ) : Except Err ℤ :=
  if 999999999 < |days| then .error (overflowError s!"days={days}; must have magnitude <= 999999999")
  else
    let wall : ℤ := anchor.wall - days * dayMicros
    if wall < 0 ∨ maxMicros ≤ wall then .error (overflowError "date value out of range")
    else match anchor.utcoffset with
      | some o => .ok (wall - o)
      | none => .error (typeError "can't compare offset-naive and offset-aware datetimes")

/-- `_ts_of(r) >= cutoff`. -/
def since (cutoff : ℤ) (r : LedgerRow) : Bool :=
  match (tsOf r).utcoffset with
  | some o => cutoff ≤ (tsOf r).wall - o
  | none => false

/-- The rows of the window of a score. -/
def inWindow (scope : List LedgerRow) (windowDays : ℤ) (now : Option DateTime) : Except Err (List LedgerRow) := do
  match scope.getLast? with
  | none => return []
  | some last => return scope.filter (since (← cutoffOf (now.getD (tsOf last)) windowDays))

/-- `composite_score`. -/
def compositeScore (py : Interp) (tenantId : String) (rows : List LedgerRow) (ledgerHeight : Option ℤ) (windowDays : ℤ)
    (now : Option DateTime) : Except Err CompositeScore := do
  let height := ledgerHeight.getD (highestSeq rows)
  let scope := inScope rows height
  if scope = [] then
    let weights ← resolveWeights rows (some height)
    return ⟨tenantId, height, .finite false (1 / 2), fun _ => neutralRatio, weights⟩
  let window ← inWindow scope windowDays now
  let gate ← gateFirePrecision py window
  let keep ← proposeKeepRatio window
  let ramp ← rampDelta window
  let confirm ← reactivityConfirmRate py window
  let components : Component → PyFloat := fun
    | .gatePrecision => gate
    | .proposeKeepRatio => keep
    | .rampDelta => ramp
    | .reactivityConfirmRate => confirm
  let weights ← resolveWeights rows (some height)
  let score := PyFloat.sum (Component.all.map fun k => (components k).mul (weights k))
  return ⟨tenantId, height, PyFloat.max .zero (PyFloat.min .one score), components, weights⟩

end WormCore
