import Wormbase.Ledger.Settled
import Wormbase.Lib.Allowance

/-! `InterjectionGate.allow`: so many clarifying questions a channel and UTC day.

    The gate keeps no count. It looks for its own records among the execute rows of its company, whoever wrote them. -/

namespace Governance.InterjectionGate
open Py Ledger

inductive QuestionType where | clarification | statement
  deriving DecidableEq

/-- One call of `allow`: its arguments, the reading of the clock and the ids that are drawn. -/
structure Ask where
  channelId : String
  questionType : QuestionType
  now : DateTime
  refId : UUID
  memoryId : UUID
  proposeId : UUID
  executeId : UUID
  verifyId : UUID
  resolveId : UUID

/-- The gate of a company. A naive reading of its clock is one in the zone of the machine. -/
structure Gate where
  companyId : UUID
  limit : ℕ
  zone : Fin maxMicros → Offset

def askedContent (channelId : String) : String := "clarify_asked:" ++ channelId

namespace Gate
variable (g : Gate)

/-- `now.astimezone(UTC).replace(hour=0, minute=0, second=0, microsecond=0)`. -/
def windowStart (now : DateTime) : Except Err (Fin maxMicros) :=
  match now.instant (now.utcoffset.getD (g.zone now.wall)) with
  | some u => .ok ⟨u - u % dayMicros, by omega⟩
  | none => .error (overflowError "date value out of range")

/-- The four entries of a write of the gate. -/
def call (a : Ask) (propose execute verify resolve : Dict) (quadrant : Quadrant) : Call where
  companyId := g.companyId
  propose := propose
  executeFn := .ok (.dict execute)
  verifyFn := fun _ => .ok (.dict verify)
  resolveFn := fun _ => .ok (.dict resolve)
  timestamp := some a.now
  quadrant := quadrant
  now := a.now
  proposeId := a.proposeId
  executeId := a.executeId
  verifyId := a.verifyId
  resolveId := a.resolveId

def proposal (targetKind : String) (refId : UUID) (reason : String) : Dict :=
  [(.str "target_kind", .str targetKind), (.str "ref_id", .str refId.str), (.str "reason", .str reason),
    (.str "proposed_by", .str "interjection_gate")]

def execution (tool : String) (args : Dict) (resultRef : String) : Dict :=
  [(.str "tool", .str tool), (.str "args", .dict args), (.str "result_ref", .str resultRef)]

def verification (check : String) : Dict :=
  [(.str "checks", .list [.dict [(.str "name", .str check), (.str "ok", .bool true)]]), (.str "passed", .bool true)]

def resolution (rationale : String) : Dict := [(.str "outcome", .str "keep"), (.str "rationale", .str rationale)]

def askedArgs (a : Ask) : Dict :=
  [(.str "memory_id", .str a.memoryId.str), (.str "content", .str (askedContent a.channelId)),
    (.str "tags", .list [.str "clarify_asked", .str ("channel:" ++ a.channelId)])]

/-- The record of a question that is allowed. -/
def askedCall (a : Ask) : Call :=
  g.call a (proposal "memory_written" a.refId "clarify_asked")
    (execution "emit_memory_written" (askedArgs a) "clarify_asked") (verification "clarify_logged")
    (resolution "clarify counted") .activeDeterministic

def blockedArgs (a : Ask) (count : ℕ) (start : Fin maxMicros) : Dict :=
  [(.str "gate", .str "interjection"), (.str "outcome", .str "blocked"), (.str "subject_ref", .str a.channelId),
    (.str "reason", .str s!"budget {g.limit} exhausted"), (.str "channel_id", .str a.channelId),
    (.str "current_count", .int count), (.str "limit", .int g.limit),
    (.str "window_start", .str (DateTime.isoformat ⟨start, some DateTime.utc⟩))]

/-- The record of a question over budget. -/
def blockedCall (a : Ask) (count : ℕ) (start : Fin maxMicros) : Call :=
  g.call a (proposal "gate_fired" a.refId "interjection_over_budget")
    (execution "emit_gate_fired" (g.blockedArgs a count start) "interjection") (verification "interjection_logged")
    (resolution "interjection blocked") .passiveDeterministic

end Gate

/-- `ts >= window_start`. -/
def notBefore (start : Fin maxMicros) (ts : DateTime) : Except Err Bool :=
  match ts.utcoffset with
  | some o => .ok ((start : ℤ) ≤ ts.wall - o)
  | none => .error (typeError "can't compare offset-naive and offset-aware datetimes")

/-- `payload["args"]`. -/
def argsOf : Val → Except Err Val
  | .dict payload => Dict.item payload "args"
  | .list _ => .error (typeError "list indices must be integers or slices, not str")
  | .str _ => .error (typeError "string indices must be integers, not 'str'")
  | v => .error (typeError s!"'{v.typeName}' object is not subscriptable")

/-- Whether a row counts for a channel. -/
def counts (channelId : String) (start : Fin maxMicros) (r : Entry) : Except Err Bool :=
  if r.kind ≠ .execute then .ok false
  else do
    match ← argsOf r.payload with
    | .dict args =>
      if (Dict.get args "content").isText (askedContent channelId) then notBefore start r.ts else .ok false
    | v => .error (attributeError s!"'{v.typeName}' object has no attribute 'get'")

/-- The loop over the rows. -/
def countAsked (channelId : String) (start : Fin maxMicros) : List Entry → Except Err ℕ
  | [] => .ok 0
  | r :: rows => do
    let counted ← counts channelId start r
    return (if counted then 1 else 0) + (← countAsked channelId start rows)

section
variable (sha256 : Bytes → Bytes) (d : Dialect) (g : Gate)

/-- The answer after a write, or what the write raises. -/
def answered (answer : Bool) (out : Except Err WriteResult × List Entry) : Except Err Bool × List Entry :=
  (out.1.map fun _ => answer, out.2)

/-- `allow`: the answer, and the committed rows after it. -/
def allow (rows : List Entry) (a : Ask) : Except Err Bool × List Entry :=
  if a.questionType ≠ .clarification then (.ok true, rows)
  else
    match g.windowStart a.now with
    | .error x => (.error x, rows)
    | .ok start =>
      match countAsked a.channelId start (fetchEntries d rows g.companyId none) with
      | .error x => (.error x, rows)
      | .ok count =>
        if count < g.limit then answered true (write sha256 d rows (g.askedCall a))
        else answered false (write sha256 d rows (g.blockedCall a count start))

end

/-! ### What the rows hold for a channel -/

/-- The instant of an aware datetime. -/
def stampOf (ts : DateTime) : ℤ := ts.wall - (ts.utcoffset.getD DateTime.utc).1

/-- The payload of a record of a channel. -/
def isRecord (channelId : String) : Val → Bool
  | .dict payload =>
    match Dict.get payload "args" with
    | .dict args => (Dict.get args "content").isText (askedContent channelId)
    | _ => false
  | _ => false

/-- The stamp of a record of a channel, as the gate reads it. -/
def recordOf (channelId : String) (r : Entry) : Option ℤ :=
  if r.kind = .execute ∧ isRecord channelId r.payload = true then some (stampOf (normalizeRow r).ts) else none

def Gate.stamps (g : Gate) (channelId : String) (rows : List Entry) : List ℤ :=
  (ofCompany rows g.companyId).filterMap (recordOf channelId)

/-- An execute row whose args are a mapping. -/
def Readable (r : Entry) : Prop := r.kind = .execute → ∃ payload args, r.payload = .dict payload ∧
  Dict.get? payload "args" = some (.dict args)

variable {sha256 : Bytes → Bytes} {d : Dialect} {g : Gate} {rows new : List Entry} {a : Ask} {channelId : String}
  {start : Fin maxMicros} {count : ℕ}

theorem stamps_append : g.stamps channelId (rows ++ new) = g.stamps channelId rows ++ g.stamps channelId new := by
  rw [Gate.stamps, ofCompany_append, List.filterMap_append]
  rfl

theorem normalizeRow_aware (r : Entry) : ∃ o, (normalizeRow r).ts.utcoffset = some o := by
  unfold normalizeRow
  split
  · exact ⟨_, rfl⟩
  · rename_i h
    exact Option.ne_none_iff_exists'.mp h

theorem notBefore_aware {ts : DateTime} {o : Offset} (h : ts.utcoffset = some o) :
    notBefore start ts = .ok (decide ((start : ℤ) ≤ stampOf ts)) := by
  rw [notBefore, h]
  simp [stampOf, h]

/-- A readable row is counted when it is a record that is not too old. -/
theorem counts_readable {r : Entry} (h : Readable r) : counts channelId start (normalizeRow r) =
    .ok ((recordOf channelId r).any fun t => (start : ℤ) ≤ t) := by
  obtain ⟨-, -, -, hkind, -, -⟩ := normalizeRow_fields r
  have hpayload : (normalizeRow r).payload = r.payload := by
    unfold normalizeRow
    split <;> rfl
  rw [counts, hkind, hpayload]
  by_cases hexec : r.kind = .execute
  · obtain ⟨payload, args, hp, hargs⟩ := h hexec
    obtain ⟨o, ho⟩ := normalizeRow_aware r
    have hget : Dict.get payload "args" = .dict args := by rw [Dict.get, hargs]; rfl
    have hitem : argsOf r.payload = .ok (.dict args) := by rw [hp, argsOf, Dict.item, hargs]
    rw [if_neg (not_not.mpr hexec), hitem]
    simp only [recordOf, hexec, hp, isRecord, hget, true_and, bind, Except.bind]
    split
    · rw [notBefore_aware ho]
      rfl
    · rfl
  · rw [if_pos hexec, recordOf, if_neg fun hrec => hexec hrec.1]
    rfl

theorem countAsked_readable : ∀ {rows : List Entry}, (∀ r ∈ rows, Readable r) →
    countAsked channelId start (rows.map normalizeRow) =
      .ok (Allowance.used start (rows.filterMap (recordOf channelId)))
  | [], _ => rfl
  | r :: rows, h => by
    obtain ⟨hr, hrest⟩ := List.forall_mem_cons.mp h
    rw [List.map_cons, countAsked, counts_readable hr, countAsked_readable hrest]
    cases hrec : recordOf channelId r with
    | none => simp [bind, Except.bind, pure, Except.pure, hrec]
    | some t =>
      simp only [bind, Except.bind, pure, Except.pure, Option.any_some, List.filterMap_cons, hrec, Allowance.used,
        List.countP_cons, Nat.add_comm]

/-- A row that the loop cannot read ends it. -/
theorem countAsked_error {x : Err} : ∀ {rows : List Entry} {r : Entry}, r ∈ rows →
    counts channelId start r = .error x → ∃ y, countAsked channelId start rows = .error y
  | [], _, hr, _ => absurd hr List.not_mem_nil
  | r' :: rows, r, hr, hx => by
    rw [countAsked]
    cases hfirst : counts channelId start r' with
    | error y => exact ⟨y, rfl⟩
    | ok b =>
      rcases List.mem_cons.mp hr with rfl | hr
      · cases hfirst.symm.trans hx
      · obtain ⟨y, hy⟩ := countAsked_error hr hx
        rw [hy]
        exact ⟨y, rfl⟩

/-- What the gate counts for a channel, when it can read all rows of the company. -/
theorem countAsked_fetch (h : ∀ r ∈ rows, r.companyId = g.companyId → Readable r) :
    countAsked channelId start (fetchEntries d rows g.companyId none) =
      .ok (Allowance.used start (g.stamps channelId rows)) := by
  have hperm := List.perm_insertionSort SeqBefore (ofCompany rows g.companyId)
  have hfetch : fetchEntries d rows g.companyId none =
      ((ofCompany rows g.companyId).insertionSort SeqBefore).map normalizeRow := by
    simp [fetchEntries]
  rw [hfetch, countAsked_readable fun r hr => ?_]
  · rw [Allowance.used, Allowance.used, Gate.stamps, (hperm.filterMap _).countP_eq]
  · obtain ⟨hrow, hcompany⟩ := List.mem_filter.mp (hperm.mem_iff.mp hr)
    exact h r hrow (of_decide_eq_true hcompany)

/-! ### What the gate writes -/

/-- The stamp of a record that the gate writes at a reading of its clock. -/
def ownStamp (d : Dialect) (a : Ask) : ℤ := stampOf (readTs d a.now)

/-- The rows of a write hold one record at most, in the execute row. -/
theorem stamps_group {c : Call} {n : ℕ} {prev : Bytes} {ep vp rp : Dict} {p e v r : Entry}
    (h : Group sha256 d c n prev ep vp rp p e v r) (hcompany : c.companyId = g.companyId)
    (hep : jsonColumn (.dict ep) = .ok (.dict ep)) : g.stamps channelId [p, e, v, r] =
      if isRecord channelId (.dict ep) = true then [stampOf (readTs d c.ts)] else [] := by
  have hkinds : p.kind = .propose ∧ e.kind = .execute ∧ v.kind = .verify ∧ r.kind = .resolve :=
    ⟨h.propose.fields.2.2.1, h.execute.fields.2.2.1, h.verify.fields.2.2.1, h.resolve.fields.2.2.1⟩
  have hpayload : e.payload = .dict ep := Except.ok.inj (h.execute.payload.symm.trans hep)
  have hts : (normalizeRow e).ts = readTs d c.ts := by
    obtain ⟨e', he', hrow⟩ := h.execute
    obtain ⟨hbody, -⟩ := sealEntry_ok he'
    obtain ⟨w, -, rfl⟩ := storeRow_ok hrow
    rw [normalizeRow_stored]
    exact congrArg (readTs d) (congrArg Body.ts hbody)
  have hown : ofCompany [p, e, v, r] g.companyId = [p, e, v, r] :=
    List.filter_eq_self.mpr fun row hrow => decide_eq_true ((h.company row hrow).trans hcompany)
  rw [Gate.stamps, hown]
  by_cases hrec : isRecord channelId (.dict ep) = true
  · simp [recordOf, hkinds, hpayload, hts, hrec]
  · simp [recordOf, hkinds, hpayload, hrec]

/-- The payload of an execute row whose write was proposed under an id. -/
def executed (proposeId : UUID) (execute : Dict) : Dict := (.str "propose_entry_id", .str proposeId.str) :: execute

theorem settled_proposal (targetKind : String) (refId : UUID) (reason : String) :
    Settled (.dict (Gate.proposal targetKind refId reason)) := by
  refine settled_entry (D := [("target_kind", _), ("ref_id", _), ("reason", _), ("proposed_by", _)]) rfl (by simp) ?_
  simp only [List.forall_mem_cons]
  exact ⟨settled_str _, settled_str _, settled_str _, settled_str _, nofun⟩

theorem settled_executed (id : UUID) {tool resultRef : String} {args : Dict} (h : Settled (.dict args)) :
    Settled (.dict (executed id (Gate.execution tool args resultRef))) := by
  refine settled_entry (D := [("propose_entry_id", _), ("tool", _), ("args", _), ("result_ref", _)]) rfl (by simp) ?_
  simp only [List.forall_mem_cons]
  exact ⟨settled_str _, settled_str _, h, settled_str _, nofun⟩

theorem settled_verification (id : UUID) (check : String) :
    Settled (.dict ((.str "execute_entry_id", .str id.str) :: Gate.verification check)) := by
  have hcheck : Settled (.dict [(.str "name", .str check), (.str "ok", .bool true)]) := by
    refine settled_entry (D := [("name", _), ("ok", _)]) rfl (by simp) ?_
    simp only [List.forall_mem_cons]
    exact ⟨settled_str _, settled_bool _, nofun⟩
  refine settled_entry (D := [("execute_entry_id", _), ("checks", _), ("passed", _)]) rfl (by simp) ?_
  simp only [List.forall_mem_cons]
  exact ⟨settled_str _, settled_list (by simpa using hcheck), settled_bool _, nofun⟩

theorem settled_resolution (id : UUID) (rationale : String) :
    Settled (.dict ((.str "verify_entry_id", .str id.str) :: Gate.resolution rationale)) := by
  refine settled_entry (D := [("verify_entry_id", _), ("outcome", _), ("rationale", _)]) rfl (by simp) ?_
  simp only [List.forall_mem_cons]
  exact ⟨settled_str _, settled_str _, settled_str _, nofun⟩

/-- The gate's writes go through, and leave one record at most. -/
theorem call_written (hinj : Function.Injective sha256) (hsound : Sound sha256 d rows)
    {targetKind reason tool resultRef check rationale : String} {args : Dict} {quadrant : Quadrant}
    (hargs : Settled (.dict args)) {c : Call}
    (hc : c = g.call a (Gate.proposal targetKind a.refId reason) (Gate.execution tool args resultRef)
      (Gate.verification check) (Gate.resolution rationale) quadrant)
    (hroom : Room rows c) : ∃ res new, write sha256 d rows c = (.ok res, rows ++ new) ∧ ∀ channelId,
      g.stamps channelId new = if (Dict.get args "content").isText (askedContent channelId) = true
        then [ownStamp d a] else [] := by
  subst hc
  have hep := @settled_executed a.proposeId tool resultRef args hargs
  obtain ⟨res, p, e, v, r, hw, hg⟩ := settled_write hinj hsound hroom rfl rfl (by
    simp only [List.forall_mem_cons]
    exact ⟨settled_proposal _ _ _, hep, settled_verification _ _, settled_resolution _ _, nofun⟩)
  exact ⟨res, _, hw, fun channelId => stamps_group hg rfl hep.column⟩

end Governance.InterjectionGate
