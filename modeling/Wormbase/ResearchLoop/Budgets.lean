import Wormbase.Ledger.TimedActions
import Wormbase.Lib.SlidingWindow
import Wormbase.ResearchLoop.KeepRate

/-! The daily budgets of the team loop and the company loop of the autoresearch.

    A loop counts the proposals of its audience in the ledger, over the day that ends now, before it makes one. What a
    cycle does after its proposal are writes of other tools. -/

namespace ResearchLoop
open Py
open Ledger (Entry Mint Logged timedActions timedAction fetchEntries)

/-! ### The loops -/

inductive Scope where | person | team | company
  deriving DecidableEq

/-- `_budget_for_scope`: what the environment gives as an integer, else the default of the scope. -/
def budgetForScope (given : Option ℤ) (scope : Scope) : ℕ :=
  match given with
  | some n => n.toNat
  | none =>
    match scope with
    | .person => 5
    | .team => 3
    | .company => 1

/-- A loop that has a budget. -/
inductive Loop where
  | team (teamDomainId : UUID)
  | company

def Loop.scope : Loop → Scope
  | .team _ => .team
  | .company => .company

/-- The marker of a loop's audience. -/
def Loop.audience : Loop → String
  | .team teamDomainId => "team:" ++ teamDomainId.str
  | .company => "company"

/-- What a cycle proposes: the person and the position it borrows, and what it makes of the candidate. -/
structure Proposal where
  experimentId : UUID
  forPersonId : UUID
  position : String
  headlineMetric : String
  proposedChange : Dict
  expectedDelta : PyFloat
  rationaleSuffix : String
  mint : Mint

/-- One call of `run_once`: the clock in UTC, the budget in the environment, and what is proposed. There may be nobody to
    borrow from, no candidate, or lessons that cannot be read. -/
structure LoopCycle where
  now : Fin maxMicros
  budget : Option ℤ
  proposal : Option Proposal

def proposalTool : String := "emit_experiment_proposed"

section
variable (py : Interp) (isoText : DateTime → String) (sha256 : Bytes → Bytes) (d : Ledger.Dialect) (companyId : UUID)

/-- `_normalise_audience`: proposals without an audience are of their person. -/
def normaliseAudience (args : Dict) : Option String :=
  if (Dict.get args "audience").truthy then some ((Dict.get args "audience").toStr py)
  else if (Dict.get args "for_person_id").truthy then some ("person:" ++ (Dict.get args "for_person_id").toStr py)
  else none

/-- Whether a row counts for an audience. -/
def countsFor (audience : String) (cutoff : ℤ) (r : Entry) : Except Err Bool := do
  if ← isExecuteWithTool r proposalTool then
    let args ← argsOf r
    return decide (normaliseAudience py args = some audience ∧ cutoff ≤ tsOf r)
  else return false

/-- The loop of `_audience_count_today`. -/
def countProposals (audience : String) (cutoff : ℤ) : List Entry → Except Err ℕ
  | [] => .ok 0
  | r :: rows => do
    let counts ← countsFor py audience cutoff r
    let n ← countProposals audience cutoff rows
    return (if counts then 1 else 0) + n

/-- `_audience_count_today`: there is no cutoff on the first day of the calendar. -/
def audienceCountToday (rows : List Entry) (audience : String) (now : Fin maxMicros) : Except Err ℕ :=
  if now.val < dayMicros then .error (overflowError "date value out of range")
  else countProposals py audience ((now : ℤ) - dayMicros) (fetchEntries d rows companyId none)

/-- The dump of an `ExperimentProposedPayload`; how a time is written is pydantic's. -/
def proposalArgs (audience : String) (now : Fin maxMicros) (p : Proposal) : List (String × Val) :=
  [("experiment_id", .str p.experimentId.str), ("for_person_id", .str p.forPersonId.str), ("position", .str p.position),
    ("headline_metric", .str p.headlineMetric), ("proposed_change", .dict p.proposedChange),
    ("expected_delta", .float p.expectedDelta), ("proposed_at", .str (isoText ⟨now, some DateTime.utc⟩)),
    ("audience", .str audience)]

/-- The cycle that `_emit_proposed` writes. -/
def proposalCall (audience : String) (now : Fin maxMicros) (p : Proposal) : Ledger.Call :=
  Ledger.emit companyId { p.mint with timestamp := some ⟨now, some DateTime.utc⟩ }
    [("target_kind", .str "experiment_proposed"), ("ref_id", .str p.experimentId.str),
      ("reason", .str s!"autoresearch proposal for {p.position} ({audience}){p.rationaleSuffix}"),
      ("proposed_by", .str "autoresearch_loop")]
    proposalTool (proposalArgs isoText audience now p) (.str p.experimentId.str)
    (.list [.dict ([("name", .str "payload_valid"), ("ok", .bool true)].map strItem)])
    s!"{proposalTool} persisted" .activeProbabilistic

/-- `TeamAutoresearchLoop.run_once` and `CompanyAutoresearchLoop.run_once`, as far as the proposal: the committed rows after
    it. A write that fails is logged. -/
def runOnce (rows : List Entry) (l : Loop) (c : LoopCycle) : List Entry :=
  if budgetForScope c.budget l.scope = 0 then rows
  else
    match audienceCountToday py d companyId rows l.audience c.now with
    | .error _ => rows
    | .ok used =>
      if budgetForScope c.budget l.scope ≤ used then rows
      else
        match c.proposal with
        | none => rows
        | some p => (Ledger.write sha256 d rows (proposalCall isoText companyId l.audience c.now p)).2

/-! ### Runs -/

/-- A cycle of a team's loop or of the company's, or an action that anybody writes for any company. -/
inductive LoopOp where
  | cycle (l : Loop) (c : LoopCycle)
  | write (c : Ledger.Call) (tool : String) (args : List (String × Val)) (hacts : c.Acts tool args)

def LoopOp.next (rows : List Entry) : LoopOp → List Entry
  | .cycle l c => runOnce py isoText sha256 d companyId rows l c
  | .write c _ _ _ => (Ledger.write sha256 d rows c).2

/-- The rows that a run leaves of a new ledger. Nothing else is kept, so a restart is no step. -/
def runLoops (ops : List LoopOp) : List Entry := ops.foldl (LoopOp.next py isoText sha256 d companyId) []

/-- An action that proposes an experiment of the audience. -/
def proposesFor (audience : String) (a : String × Dict) : Bool :=
  a.1 = proposalTool && normaliseAudience py a.2 = some audience

/-- When the experiments of an audience were proposed. -/
def proposalTimes (audience : String) (rows : List Entry) : List ℤ :=
  ((timedActions companyId rows).filter fun a => proposesFor py audience a.1).map Prod.snd

/-- The budget of the audience's own loop is at most the limit, and nobody else proposes for the audience. -/
def LoopOp.Respects (audience : String) (limit : ℕ) : LoopOp → Prop
  | .cycle l c => l.audience = audience → budgetForScope c.budget l.scope ≤ limit
  | .write c tool args _ => c.companyId = companyId → proposesFor py audience (tool, backDict args) = false

end

section
variable {py : Interp} {isoText : DateTime → String} {sha256 : Bytes → Bytes} {d : Ledger.Dialect} {companyId : UUID}
  {rows : List Entry} {r : Entry} {audience : String} {cutoff : ℤ} {limit : ℕ}

/-! ### What is counted -/

theorem countsFor_action (h : r.kind = .execute → (Ledger.action r).isSome) :
    countsFor py audience cutoff r = .ok ((timedAction r).any fun a => proposesFor py audience a.1 && decide (cutoff ≤ a.2)) := by
  rw [countsFor, isExecuteWithTool_action h, timedAction]
  cases haction : Ledger.action r with
  | none => rfl
  | some a =>
    obtain ⟨tool, args⟩ := a
    by_cases htool : tool = proposalTool
    · subst htool
      simp only [Option.any_some, decide_true, bind, Except.bind, if_true, argsOf_action haction, Option.map_some, proposesFor,
        Bool.true_and, Bool.decide_and]
      rfl
    · simp [htool, proposesFor, bind, Except.bind, pure, Except.pure]

/-- The count of the rows is that of the log. -/
theorem countProposals_log : ∀ {rows : List Entry}, (∀ r ∈ rows, r.kind = .execute → (Ledger.action r).isSome) →
    countProposals py audience cutoff rows =
      .ok ((rows.filterMap timedAction).countP fun a => proposesFor py audience a.1 && decide (cutoff ≤ a.2))
  | [], _ => rfl
  | r :: rows, h => by
    obtain ⟨hr, hrows⟩ := List.forall_mem_cons.mp h
    rw [countProposals, countsFor_action hr, countProposals_log hrows]
    cases haction : timedAction r with
    | none => simp [haction, bind, Except.bind, pure, Except.pure]
    | some a =>
      simp only [bind, Except.bind, pure, Except.pure, Option.any_some, List.filterMap_cons, haction, List.countP_cons,
        Except.ok.injEq]
      exact Nat.add_comm _ _

theorem audienceCountToday_times (h : Logged sha256 d companyId rows) {now : Fin maxMicros} {used : ℕ}
    (hused : audienceCountToday py d companyId rows audience now = .ok used) :
    used = (proposalTimes py companyId audience rows).countP fun t => (now : ℤ) - dayMicros ≤ t := by
  rw [audienceCountToday] at hused
  split at hused
  · cases hused
  · obtain ⟨-, hacting⟩ := Ledger.fetch_acting h.sound h.acting
    rw [countProposals_log hacting, Ledger.fetch_timed h.sound] at hused
    rw [← Except.ok.inj hused, proposalTimes, List.countP_map, List.countP_filter]
    refine List.countP_congr fun a _ => ?_
    simp [and_comm]

/-! ### One step -/

theorem audience_ne_empty (l : Loop) : l.audience ≠ "" := by
  cases l with
  | team teamDomainId =>
    intro h
    have hlen := congrArg String.length h
    simp [Loop.audience] at hlen
  | company => decide

theorem proposalCall_acts (l : Loop) (now : Fin maxMicros) (p : Proposal) :
    (proposalCall isoText companyId l.audience now p).Acts proposalTool (proposalArgs isoText l.audience now p) :=
  Ledger.emit_acts (by simp [proposalArgs])

/-- A proposal of a loop is one of its audience. -/
theorem proposes_own (l : Loop) (now : Fin maxMicros) (p : Proposal) :
    proposesFor py audience (proposalTool, backDict (proposalArgs isoText l.audience now p)) = decide (l.audience = audience) := by
  have haudience : Dict.get (backDict (proposalArgs isoText l.audience now p)) "audience" = .str l.audience := by
    rw [get_backDict]
    rfl
  have htruthy : (Val.str l.audience).truthy = true := by
    simpa [Val.truthy] using audience_ne_empty l
  simp only [proposesFor, normaliseAudience, haudience, htruthy, if_true, Val.toStr_str, Option.some.injEq, decide_true,
    Bool.true_and]

/-- What an action adds to the times: nothing, or that of a proposal for the audience. -/
theorem proposalTimes_write {c : Ledger.Call} {tool : String} {args : List (String × Val)} (hacts : c.Acts tool args) :
    proposalTimes py companyId audience (Ledger.write sha256 d rows c).2 = proposalTimes py companyId audience rows ∨
    c.companyId = companyId ∧ proposesFor py audience (tool, backDict args) = true ∧
      proposalTimes py companyId audience (Ledger.write sha256 d rows c).2 =
        proposalTimes py companyId audience rows ++ [Ledger.moment (Ledger.storeTs d c.ts)] := by
  rcases @Ledger.timedActions_write sha256 d rows c tool args hacts with ⟨res, rows', hw, hlog, hforeign⟩ | ⟨x, hw⟩
  · rw [hw]
    by_cases hcompany : c.companyId = companyId
    · subst hcompany
      rw [proposalTimes, hlog, List.filter_append, List.map_append]
      cases hproposes : proposesFor py audience (tool, backDict args) with
      | true =>
        refine .inr ⟨rfl, rfl, ?_⟩
        simp only [List.filter_cons, List.filter_nil, hproposes, if_true, List.map_cons, List.map_nil]
        rfl
      | false =>
        refine .inl ?_
        simp only [List.filter_cons, List.filter_nil, hproposes, Bool.false_eq_true, if_false, List.map_nil, List.append_nil]
        rfl
    · rw [proposalTimes, hforeign companyId (Ne.symm hcompany)]
      exact .inl rfl
  · rw [hw]
    exact .inl rfl

/-- The state of a run: the ledger, and the proposals of the audience within its limit. -/
structure Budgeted (py : Interp) (sha256 : Bytes → Bytes) (d : Ledger.Dialect) (companyId : UUID) (audience : String)
    (limit : ℕ) (rows : List Entry) : Prop where
  logged : Logged sha256 d companyId rows
  within : Sliding.Within (fun t : ℤ => t - dayMicros) limit (proposalTimes py companyId audience rows)

theorem Budgeted.runOnce (h : Budgeted py sha256 d companyId audience limit rows) (l : Loop) (c : LoopCycle)
    (hrespects : l.audience = audience → budgetForScope c.budget l.scope ≤ limit) :
    Budgeted py sha256 d companyId audience limit (runOnce py isoText sha256 d companyId rows l c) := by
  rw [ResearchLoop.runOnce]
  split
  · exact h
  split
  · exact h
  rename_i used hused
  split
  · exact h
  rename_i hroom
  split
  · exact h
  rename_i p _
  have hacts := @proposalCall_acts isoText companyId l c.now p
  refine ⟨h.logged.write hacts, ?_⟩
  rcases proposalTimes_write hacts with hsame | ⟨-, hproposes, hone⟩
  · rw [hsame]
    exact h.within
  · have hown : l.audience = audience := by
      rw [proposes_own] at hproposes
      exact of_decide_eq_true hproposes
    have hts : Ledger.moment (Ledger.storeTs d (proposalCall isoText companyId l.audience c.now p).ts) = c.now :=
      Ledger.moment_storeTs d c.now
    rw [hone, hts]
    refine h.within.concat (fun a b hab => Int.sub_le_sub_right hab _) ?_
    rw [hown] at hused
    rw [← audienceCountToday_times h.logged hused]
    exact Nat.lt_of_lt_of_le (Nat.lt_of_not_le hroom) (hrespects hown)

theorem Budgeted.next (h : Budgeted py sha256 d companyId audience limit rows) (op : LoopOp)
    (hrespects : op.Respects py companyId audience limit) :
    Budgeted py sha256 d companyId audience limit (op.next py isoText sha256 d companyId rows) := by
  cases op with
  | cycle l c => exact h.runOnce l c hrespects
  | write c tool args hacts =>
    refine ⟨h.logged.write hacts, ?_⟩
    rw [LoopOp.next]
    rcases proposalTimes_write hacts with hsame | ⟨hcompany, hproposes, -⟩
    · rw [hsame]
      exact h.within
    · exact absurd hproposes (Bool.eq_false_iff.mp (hrespects hcompany))

theorem budgeted_runLoops {ops : List LoopOp} (hrespects : ∀ op ∈ ops, op.Respects py companyId audience limit) :
    Budgeted py sha256 d companyId audience limit (runLoops py isoText sha256 d companyId ops) := by
  induction ops using List.reverseRecOn with
  | nil => exact ⟨Ledger.logged_nil, Sliding.within_nil⟩
  | append_singleton ops op ih =>
    obtain ⟨hops, hop⟩ := List.forall_mem_append.mp hrespects
    rw [runLoops, List.foldl_append]
    exact (ih hops).next op (hop op List.mem_cons_self)

/-- In every run of the loops of a company, with any clock, failing writes and writes of others, no day has more proposals of
    a loop's audience than the highest budget that its loop was given. -/
theorem budget_kept (py : Interp) (isoText : DateTime → String) (sha256 : Bytes → Bytes) (d : Ledger.Dialect) (companyId : UUID)
    (audience : String) (limit : ℕ) (ops : List LoopOp) (hrespects : ∀ op ∈ ops, op.Respects py companyId audience limit) :
    Sliding.Within (fun t : ℤ => t - dayMicros) limit
      (proposalTimes py companyId audience (runLoops py isoText sha256 d companyId ops)) :=
  (budgeted_runLoops hrespects).within

end

/-! ### A first proposal -/

/-- The second day of the calendar. -/
def secondDay : Fin maxMicros := ⟨dayMicros, by decide⟩

def firstProposal : Proposal := ⟨⟨6⟩, ⟨7⟩, "cfo", "arr", [], .zero, "", Ledger.sampleMint⟩

/-- A cycle of the company's loop, with the default budget. -/
def firstCycle : LoopCycle := ⟨secondDay, none, some firstProposal⟩

/-- The company proposes once a day, however often its loop turns and whatever the first team proposes. -/
theorem firstCycle_kept : Sliding.Within (fun t : ℤ => t - dayMicros) 1 (proposalTimes .plain ⟨1⟩ "company"
    (runLoops .plain (fun _ => "") Ledger.tagHash .sqlite ⟨1⟩
      [.cycle .company firstCycle, .cycle (.team ⟨8⟩) firstCycle, .cycle .company firstCycle])) := by
  refine budget_kept .plain (fun _ => "") Ledger.tagHash .sqlite ⟨1⟩ "company" 1 _ ?_
  simp only [List.forall_mem_cons]
  have hteam : Loop.audience (.team ⟨8⟩) ≠ "company" := by decide +kernel
  exact ⟨fun _ => Nat.le_refl _, fun h => absurd h hteam, fun _ => Nat.le_refl _, by simp⟩

end ResearchLoop
