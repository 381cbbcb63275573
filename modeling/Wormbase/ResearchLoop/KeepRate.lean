import Wormbase.Ledger.Actions
import Wormbase.Py.FloatArith
import Wormbase.Py.IsoRoundTrip
import Wormbase.Projection.Cycles
import Mathlib.Data.List.Induction

/-! Keep rates: how many of the experiments that were resolved on a day were kept, by scope, and their
    publication, once for each scope and day.

    The publisher keeps no state. It looks for its own records among the execute rows of its company. -/

namespace ResearchLoop
open Py
open Ledger (Entry Mint Logged actions fetchEntries logged_nil)

/-! ### Days -/

def maxDays : ℕ := 3652059

theorem maxDays_pos : 0 < maxDays := by decide

/-- A `date`: the days since 0001-01-01. -/
abbrev Day := Fin maxDays

namespace Day

/-- `isoformat()`. -/
def text (day : Day) : String := String.ofList (dateText (day * dayMicros))

/-- The date of a wall clock. -/
def ofWall (wall : Fin maxMicros) : Day := ⟨wall / dayMicros, Nat.div_lt_of_lt_mul (Nat.mul_comm _ _ ▸ wall.2)⟩

/-- The end of the day as a time: there is none after the last one. -/
def stop (day : Day) : Except Err ℤ :=
  if day + 1 < maxDays then .ok ((day + 1) * dayMicros) else .error (overflowError "date value out of range")

/-- The day before. -/
def yesterday (now : Fin maxMicros) : Except Err Day :=
  if now.val < dayMicros then .error (overflowError "date value out of range")
  else .ok ⟨now / dayMicros - 1, Nat.lt_of_le_of_lt (Nat.sub_le _ _) (ofWall now).2⟩

end Day

theorem dateText_inj {s t : ℕ} (hs : s < maxMicros) (ht : t < maxMicros) (h : dateText s = dateText t) :
    s / dayMicros = t / dayMicros := by
  obtain ⟨-, hms, hds⟩ := dateOf_bounds hs
  obtain ⟨-, hmt, hdt⟩ := dateOf_bounds ht
  obtain ⟨hys, -, -⟩ := dateOf_bounds hs
  obtain ⟨hyt, -, -⟩ := dateOf_bounds ht
  simp only [dateText] at h
  obtain ⟨hy, h⟩ := List.append_inj h rfl
  obtain ⟨hm, h⟩ := field_inj hms hmt (List.cons.inj h).2
  have hd := pad2_inj h
  have hyear := pad4_inj hy
  exact dateOf_inj (Prod.ext (by omega) (Prod.ext hm (by omega)))

/-- A day is told by its text. -/
theorem Day.text_injective {day day' : Day} (h : day.text = day'.text) : day = day' := by
  have hlt : ∀ day : Day, day * dayMicros < maxMicros := fun day =>
    Nat.mul_lt_mul_of_pos_right day.2 (by decide)
  have hdiv := dateText_inj (hlt day) (hlt day') (String.ofList_injective h)
  rw [Nat.mul_div_cancel _ (by decide), Nat.mul_div_cancel _ (by decide)] at hdiv
  exact Fin.ext hdiv

/-! ### The projection -/

structure KeepRateRow where
  scope : String
  day : String
  kept : ℕ
  total : ℕ
  ratio : PyFloat
  synthetic : Bool

/-- `_MIN_RESOLUTIONS_FOR_REAL_BASELINE`. -/
def minResolutionsForRealBaseline : ℕ := 3

/-- `_audience_to_scope`. -/
def audienceToScope (audience : Val) : Except Err String :=
  if !audience.truthy then .ok "person"
  else
    match audience with
    | .str s =>
      if "person:".toList.isPrefixOf s.toList then .ok "person"
      else if "team:".toList.isPrefixOf s.toList then .ok "team"
      else if s = "company" then .ok "company"
      else .ok "person"
    | v => .error (attributeError s!"'{v.typeName}' object has no attribute 'startswith'")

/-- `_ts_of`: a naive time is one in UTC. -/
def tsOf (r : Entry) : ℤ := r.ts.wall - (r.ts.utcoffset.getD DateTime.utc).val

/-- `_is_execute_with_tool`. -/
def isExecuteWithTool (r : Entry) (tool : String) : Except Err Bool :=
  if r.kind ≠ .execute then .ok false
  else
    match r.payload with
    | .dict payload => .ok ((Dict.get payload "tool").isText tool)
    | v => .error (attributeError s!"'{v.typeName}' object has no attribute 'get'")

/-- `payload.get("args") or {}`. -/
def argsOf (r : Entry) : Except Err Dict :=
  match r.payload with
  | .dict payload => orMapping (Dict.get payload "args")
  | v => .error (attributeError s!"'{v.typeName}' object has no attribute 'get'")

section
variable (py : Interp)

/-- One row of `_proposal_audience_index`. -/
def indexRow (out : Dict) (r : Entry) : Except Err Dict := do
  if ← isExecuteWithTool r "emit_experiment_proposed" then
    let args ← argsOf r
    let eid := Dict.get args "experiment_id"
    if eid.truthy then return out.set (eid.toStr py) ((Dict.get args "audience").or (.str "person"))
    else return out
  else return out

/-- `_proposal_audience_index`: the audience of each experiment as it was proposed last. -/
def proposalAudienceIndex (rows : List Entry) : Except Err Dict := rows.foldlM (indexRow py) []

/-- Kept and discarded, by scope. -/
abbrev Counts := String → ℕ × ℕ

/-- What a resolution is counted as. -/
inductive Verdict where | kept | discarded | neither
  deriving DecidableEq

def verdict (args : Dict) : Verdict :=
  if (Dict.get args "outcome").isText "keep" then .kept
  else if (Dict.get args "outcome").isText "discard" then .discarded
  else .neither

/-- The scope and the verdict of a row that resolves an experiment on the day. -/
def resolution (audienceIdx : Dict) (start stop : ℤ) (r : Entry) : Except Err (Option (String × Verdict)) := do
  if ← isExecuteWithTool r "emit_experiment_resolved" then
    if tsOf r < start ∨ stop ≤ tsOf r then return none
    else
      let args ← argsOf r
      let eid := (Dict.getD args "experiment_id" (.str "")).toStr py
      let scope ← audienceToScope (Dict.get audienceIdx eid)
      return some (scope, verdict args)
  else return none

/-- The count of a scope that is asked for goes up. -/
def countVerdict (scopes : List String) (counts : Counts) (scope : String) : Verdict → Counts
  | .kept => fun s => if s = scope ∧ s ∈ scopes then ((counts s).1 + 1, (counts s).2) else counts s
  | .discarded => fun s => if s = scope ∧ s ∈ scopes then ((counts s).1, (counts s).2 + 1) else counts s
  | .neither => counts

/-- One row of the loop over the resolutions. -/
def countRow (audienceIdx : Dict) (start stop : ℤ) (scopes : List String) (counts : Counts) (r : Entry) :
    Except Err Counts := do
  match ← resolution py audienceIdx start stop r with
  | some (scope, v) => return countVerdict scopes counts scope v
  | none => return counts

/-- `(kept / total) if total > 0 else 0.0`. -/
def ratioOf (kept total : ℕ) : Except Err PyFloat := if 0 < total then PyFloat.trueDiv kept total else .ok .zero

/-- The row of a scope. -/
def keepRateRow (day : Day) (scope : String) (count : ℕ × ℕ) : Except Err KeepRateRow := do
  let ratio ← ratioOf count.1 (count.1 + count.2)
  return ⟨scope, day.text, count.1, count.1 + count.2, ratio, decide (count.1 + count.2 < minResolutionsForRealBaseline)⟩

/-- `keep_rate_for_window`. -/
def keepRateForWindow (rows : List Entry) (day : Day) (scopes : List String) : Except Err (List KeepRateRow) := do
  let audienceIdx ← proposalAudienceIndex py rows
  let start : ℤ := day * dayMicros
  let stop ← day.stop
  let counts ← rows.foldlM (countRow py audienceIdx start stop scopes) fun _ => (0, 0)
  scopes.mapM fun scope => keepRateRow day scope (counts scope)

end

/-! ### The publisher -/

/-- `_KEEP_RATE_SCOPES`. -/
def keepRateScopes : List String := ["person", "team", "company"]

structure MetricsKeepRatePublishedPayload where
  scope : String
  day : String
  kept : ℕ
  total : ℕ
  ratio : PyFloat
  publishedBy : String
  publishedAt : Fin maxMicros

def validationError : Err := ⟨"ValidationError", "invalid keep-rate"⟩

/-- What a publication draws: a reading of the clock in UTC, an id, and what its write finds. -/
structure Draw where
  publishedAt : Fin maxMicros
  refId : UUID
  mint : Mint

/-- The payload of a row, when the validators let it through. -/
def KeepRateRow.payload (kr : KeepRateRow) (publishedBy : String) (w : Draw) : Except Err MetricsKeepRatePublishedPayload :=
  if kr.scope ∉ keepRateScopes then .error validationError
  else if !(PyFloat.le .zero kr.ratio && PyFloat.le kr.ratio .one) then .error validationError
  else .ok ⟨kr.scope, kr.day, kr.kept, kr.total, kr.ratio, publishedBy, w.publishedAt⟩

def publicationTool : String := "emit_metrics_keep_rate_published"

section
variable (isoText : DateTime → String) (companyId : UUID)

/-- `model_dump(mode="json")`; how a time is written is pydantic's. -/
def MetricsKeepRatePublishedPayload.modelDump (p : MetricsKeepRatePublishedPayload) : List (String × Val) :=
  [("scope", .str p.scope), ("day", .str p.day), ("kept", .int p.kept), ("total", .int p.total), ("ratio", .float p.ratio),
    ("published_by", .str p.publishedBy), ("published_at", .str (isoText ⟨p.publishedAt, some DateTime.utc⟩))]

/-- The cycle of `_emit_publication`. Its verify step builds the payload again from its own dump. -/
def emitPublication (p : MetricsKeepRatePublishedPayload) (w : Draw) : Ledger.Call :=
  Ledger.emit companyId { w.mint with timestamp := none }
    [("target_kind", .str "metrics_keep_rate_published"), ("ref_id", .str w.refId.str),
      ("reason", .str s!"keep-rate publication scope={p.scope} day={p.day}"), ("proposed_by", .str p.publishedBy)]
    publicationTool (p.modelDump isoText) (.str s!"{p.scope}:{p.day}")
    (.list [.dict ([("name", .str "metrics_keep_rate_payload_valid"), ("ok", .bool true)].map strItem)])
    "keep-rate published per nightly cadence" .passiveDeterministic

end

/-- What comes next, unless something was raised. -/
def andThen {α β : Type} (done : Except Err α × List Entry) (next : α → List Entry → Except Err β × List Entry) :
    Except Err β × List Entry :=
  match done.1 with
  | .error x => (.error x, done.2)
  | .ok a => next a done.2

/-- `_already_published`, over the rows that it fetches. -/
def alreadyPublished (scope day : String) : List Entry → Except Err Bool
  | [] => .ok false
  | r :: rows => do
    if ← isExecuteWithTool r publicationTool then
      let args ← argsOf r
      if (Dict.get args "scope").isText scope && (Dict.get args "day").isText day then return true
      else alreadyPublished scope day rows
    else alreadyPublished scope day rows

section
variable (py : Interp) (isoText : DateTime → String) (sha256 : Bytes → Bytes) (d : Ledger.Dialect) (companyId : UUID)

/-- One row of the projection: what is published of it, and the committed rows after that. -/
def publishRow (publishedBy : String) (rows : List Entry) (kr : KeepRateRow) (w : Draw) :
    Except Err (Option MetricsKeepRatePublishedPayload) × List Entry :=
  match alreadyPublished kr.scope kr.day (fetchEntries d rows companyId none) with
  | .error x => (.error x, rows)
  | .ok true => (.ok none, rows)
  | .ok false =>
    match kr.payload publishedBy w with
    | .error x => (.error x, rows)
    | .ok payload =>
      let written := Ledger.write sha256 d rows (emitPublication isoText companyId payload w)
      (written.1.map fun _ => some payload, written.2)

/-- The loop over the rows of the projection: it ends at the first that raises. -/
def publishRows (publishedBy : String) : List Entry → List KeepRateRow → (ℕ → Draw) →
    Except Err (List MetricsKeepRatePublishedPayload) × List Entry
  | rows, [], _ => (.ok [], rows)
  | rows, kr :: krs, draw => andThen (publishRow isoText sha256 d companyId publishedBy rows kr (draw 0)) fun published rows =>
    let rest := publishRows publishedBy rows krs fun n => draw (n + 1)
    (rest.1.map (published.toList ++ ·), rest.2)

/-- One call of `publish_for_day`: its arguments, its reading of the clock and what it draws. -/
structure Publish where
  day : Option Day
  publishedBy : String
  scopes : List String
  now : Fin maxMicros
  draw : ℕ → Draw

/-- `day`, or yesterday in UTC. -/
def Publish.targetDay (p : Publish) : Except Err Day := p.day.elim (Day.yesterday p.now) .ok

/-- `publish_for_day`. -/
def publishForDay (rows : List Entry) (p : Publish) : Except Err (List MetricsKeepRatePublishedPayload) × List Entry :=
  match p.targetDay with
  | .error x => (.error x, rows)
  | .ok day =>
    match keepRateForWindow py (fetchEntries d rows companyId none) day p.scopes with
    | .error x => (.error x, rows)
    | .ok krs => publishRows isoText sha256 d companyId p.publishedBy rows krs p.draw

/-- One turn of the loop of `KeepRatePublisher.run`: yesterday, and what is raised is logged. -/
def tick (rows : List Entry) (now : Fin maxMicros) (draw : ℕ → Draw) : List Entry :=
  (publishForDay py isoText sha256 d companyId rows ⟨none, "worm", keepRateScopes, now, draw⟩).2

/-- `KeepRatePublishReactivity.fire`: the date of the clock it is given, in the zone of that clock; whether it
    fired, how many publications it reports, and the committed rows. -/
def fire (rows : List Entry) (now : DateTime) (utcNow : Fin maxMicros) (draw : ℕ → Draw) : Option ℕ × List Entry :=
  let done := publishForDay py isoText sha256 d companyId rows
    ⟨some (Day.ofWall now.wall), "worm", keepRateScopes, utcNow, draw⟩
  (done.1.toOption.map List.length, done.2)

end

/-! ### Runs -/

/-- A publication is asked for by the loop, by the reactivity or by anybody else; or an action that is no
    publication is written. -/
inductive Op where
  | tick (now : Fin maxMicros) (draw : ℕ → Draw)
  | fire (now : DateTime) (utcNow : Fin maxMicros) (draw : ℕ → Draw)
  | publish (p : Publish)
  | write (c : Ledger.Call) (tool : String) (args : List (String × Val)) (hacts : c.Acts tool args)
      (hother : tool ≠ publicationTool)

section
variable (py : Interp) (isoText : DateTime → String) (sha256 : Bytes → Bytes) (d : Ledger.Dialect) (companyId : UUID)

/-- The committed rows after one step. Nothing else is kept, so a restart is no step. -/
def Op.next (rows : List Entry) : Op → List Entry
  | .tick now draw => ResearchLoop.tick py isoText sha256 d companyId rows now draw
  | .fire now utcNow draw => (ResearchLoop.fire py isoText sha256 d companyId rows now utcNow draw).2
  | .publish p => (publishForDay py isoText sha256 d companyId rows p).2
  | .write c _ _ _ _ => (Ledger.write sha256 d rows c).2

/-- The rows that a run leaves of a new ledger. -/
def run (ops : List Op) : List Entry := ops.foldl (Op.next py isoText sha256 d companyId) []

end

/-! ### The log of actions -/

/-- An action that publishes a scope and a day. -/
def publishes (scope day : String) (a : String × Dict) : Bool :=
  a.1 = publicationTool && (Dict.get a.2 "scope").isText scope && (Dict.get a.2 "day").isText day

section
variable (py : Interp)

/-- The audience of each experiment as the log proposed it last. -/
def noteAudience (out : Dict) (a : String × Dict) : Dict :=
  if a.1 = "emit_experiment_proposed" ∧ (Dict.get a.2 "experiment_id").truthy = true then
    out.set ((Dict.get a.2 "experiment_id").toStr py) ((Dict.get a.2 "audience").or (.str "person"))
  else out

def audiences (rows : List Entry) : Dict := (rows.filterMap Ledger.action).foldl (noteAudience py) []

/-- What an action counts as on the day: the scope of the experiment that it resolves, and the verdict. -/
def countsAs (audienceIdx : Dict) (day : Day) (ts : ℤ) (a : String × Dict) : Except Err (Option (String × Verdict)) :=
  if a.1 = "emit_experiment_resolved" then
    if ts < day * dayMicros ∨ (day + 1) * dayMicros ≤ ts then .ok none
    else (audienceToScope (Dict.get audienceIdx ((Dict.getD a.2 "experiment_id" (.str "")).toStr py))).map fun scope =>
      some (scope, verdict a.2)
  else .ok none

/-- A row that resolves, on the day and with the verdict, an experiment of the scope. -/
def resolves (audienceIdx : Dict) (day : Day) (scope : String) (v : Verdict) (r : Entry) : Bool :=
  match (Ledger.action r).elim (.ok none) (countsAs py audienceIdx day (tsOf r)) with
  | .ok (some p) => p = (scope, v)
  | _ => false

/-- How many experiments of the scope were resolved so on the day. -/
def tally (rows : List Entry) (day : Day) (scope : String) (v : Verdict) : ℕ :=
  rows.countP (resolves py (audiences py rows) day scope v)

end

/-- The numbers of a row are those of the ledger. -/
structure KeepRateRow.Counts (py : Interp) (rows : List Entry) (day : Day) (kr : KeepRateRow) : Prop where
  dated : kr.day = day.text
  kept : kr.kept = tally py rows day kr.scope .kept
  total : kr.total = tally py rows day kr.scope .kept + tally py rows day kr.scope .discarded

section
variable {py : Interp} {rows : List Entry} {r : Entry} {tool scope day : String} {args audienceIdx : Dict}

theorem isExecuteWithTool_action (h : r.kind = .execute → (Ledger.action r).isSome) :
    isExecuteWithTool r tool = .ok ((Ledger.action r).any fun a => a.1 = tool) := by
  unfold isExecuteWithTool
  by_cases hkind : r.kind = .execute
  · obtain ⟨⟨tool', args⟩, haction⟩ := Option.isSome_iff_exists.mp (h hkind)
    obtain ⟨-, payload, hpayload, htool, -⟩ := Ledger.action_eq_some.mp haction
    rw [if_neg (not_not.mpr hkind), hpayload, haction]
    simp [htool, Val.isText]
  · rw [if_pos hkind, Ledger.action_none hkind]
    rfl

theorem argsOf_action (haction : Ledger.action r = some (tool, args)) : argsOf r = .ok args := by
  obtain ⟨-, payload, hpayload, -, hargs⟩ := Ledger.action_eq_some.mp haction
  rw [argsOf, hpayload]
  simp only [hargs, orMapping_dict]

theorem alreadyPublished_actions : ∀ {rows : List Entry}, (∀ r ∈ rows, r.kind = .execute → (Ledger.action r).isSome) →
    alreadyPublished scope day rows = .ok ((rows.filterMap Ledger.action).any (publishes scope day))
  | [], _ => rfl
  | r :: rows, h => by
    obtain ⟨hr, hrows⟩ := List.forall_mem_cons.mp h
    have ih := @alreadyPublished_actions rows hrows
    rw [alreadyPublished, isExecuteWithTool_action hr, List.filterMap_cons]
    cases haction : Ledger.action r with
    | none => exact ih
    | some a =>
      obtain ⟨tool, args⟩ := a
      rw [Option.any_some, List.any_cons, publishes]
      simp only [ih, argsOf_action haction, bind, Except.bind]
      by_cases htool : tool = publicationTool
      · cases hsame : (Dict.get args "scope").isText scope && (Dict.get args "day").isText day
        · simp only [htool, decide_true, if_true, hsame, Bool.true_and, Bool.false_or, Bool.false_eq_true, if_false]
        · simp only [htool, decide_true, if_true, hsame, Bool.true_and, Bool.true_or]
          rfl
      · simp only [htool, decide_false, Bool.false_eq_true, if_false, Bool.false_and, Bool.false_or]

theorem indexRow_action (h : r.kind = .execute → (Ledger.action r).isSome) (out : Dict) :
    indexRow py out r = .ok ((Ledger.action r).elim out (noteAudience py out)) := by
  rw [indexRow, isExecuteWithTool_action h]
  cases haction : Ledger.action r with
  | none => rfl
  | some a =>
    obtain ⟨tool, args⟩ := a
    simp only [Option.any_some, Option.elim_some, noteAudience, argsOf_action haction, bind, Except.bind]
    by_cases htool : tool = "emit_experiment_proposed"
    · cases (Dict.get args "experiment_id").truthy <;> simp [htool, pure, Except.pure]
    · simp [htool, pure, Except.pure]

theorem proposalAudienceIndex_actions (h : ∀ r ∈ rows, r.kind = .execute → (Ledger.action r).isSome) :
    proposalAudienceIndex py rows = .ok (audiences py rows) := by
  have hfold : ∀ {rows : List Entry} {out : Dict}, (∀ r ∈ rows, r.kind = .execute → (Ledger.action r).isSome) →
      rows.foldlM (indexRow py) out = .ok ((rows.filterMap Ledger.action).foldl (noteAudience py) out) := by
    intro rows
    induction rows with
    | nil => exact fun _ => rfl
    | cons r rows ih =>
      intro out h
      obtain ⟨hr, hrows⟩ := List.forall_mem_cons.mp h
      rw [List.foldlM_cons, indexRow_action hr, List.filterMap_cons]
      cases Ledger.action r with
      | none => exact ih hrows
      | some a => exact ih hrows
  exact hfold h

theorem resolution_action {day : Day} (h : r.kind = .execute → (Ledger.action r).isSome) :
    resolution py audienceIdx (day * dayMicros) ((day + 1) * dayMicros) r =
      (Ledger.action r).elim (.ok none) (countsAs py audienceIdx day (tsOf r)) := by
  rw [resolution, isExecuteWithTool_action h]
  cases haction : Ledger.action r with
  | none => rfl
  | some a =>
    obtain ⟨tool, args⟩ := a
    simp only [Option.any_some, Option.elim_some, countsAs, argsOf_action haction, bind, Except.bind, decide_eq_true_eq]
    by_cases htool : tool = "emit_experiment_resolved"
    · rw [if_pos htool, if_pos htool]
      split
      · rfl
      · cases audienceToScope (Dict.get audienceIdx ((Dict.getD args "experiment_id" (.str "")).toStr py)) <;> rfl
    · rw [if_neg htool, if_neg htool]
      rfl

/-- What one row adds to the counts of a scope that is asked for. -/
theorem countRow_action {day : Day} {scopes : List String} {counts counts' : Counts}
    (h : r.kind = .execute → (Ledger.action r).isSome)
    (hcount : countRow py audienceIdx (day * dayMicros) ((day + 1) * dayMicros) scopes counts r = .ok counts')
    (hscope : scope ∈ scopes) :
    counts' scope = ((counts scope).1 + [r].countP (resolves py audienceIdx day scope .kept),
      (counts scope).2 + [r].countP (resolves py audienceIdx day scope .discarded)) := by
  rw [List.countP_singleton, List.countP_singleton]
  rw [countRow, resolution_action h] at hcount
  unfold resolves
  generalize (Ledger.action r).elim (.ok none) (countsAs py audienceIdx day (tsOf r)) = found at hcount ⊢
  cases found with
  | error x => cases hcount
  | ok found =>
    cases found with
    | none =>
      obtain rfl := Except.ok.inj hcount
      simp
    | some p =>
      obtain ⟨scope', v⟩ := p
      obtain rfl := Except.ok.inj hcount
      rcases eq_or_ne scope scope' with rfl | hne
      · cases v <;> simp [countVerdict, hscope]
      · cases v <;> simp [countVerdict, hne, hne.symm]

theorem foldlM_countRow {day : Day} {scopes : List String} (hscope : scope ∈ scopes) :
    ∀ {rows : List Entry} {counts counts' : Counts}, (∀ r ∈ rows, r.kind = .execute → (Ledger.action r).isSome) →
      rows.foldlM (countRow py audienceIdx (day * dayMicros) ((day + 1) * dayMicros) scopes) counts = .ok counts' →
        counts' scope = ((counts scope).1 + rows.countP (resolves py audienceIdx day scope .kept),
          (counts scope).2 + rows.countP (resolves py audienceIdx day scope .discarded))
  | [], _, _, _, hfold => by
    obtain rfl := Except.ok.inj hfold
    rfl
  | r :: rows, _, _, h, hfold => by
    obtain ⟨hr, hrows⟩ := List.forall_mem_cons.mp h
    rw [List.foldlM_cons] at hfold
    obtain ⟨counts₁, hcount, hfold⟩ := bind_eq_ok.mp hfold
    rw [foldlM_countRow hscope hrows hfold, countRow_action hr hcount hscope]
    have hcons : ∀ p : Entry → Bool, (r :: rows).countP p = [r].countP p + rows.countP p := fun p => by
      rw [← List.countP_append, List.singleton_append]
    rw [hcons, hcons, Nat.add_assoc, Nat.add_assoc]

/-- The rows of the projection count what the ledger holds. -/
theorem keepRateForWindow_counts {day : Day} {scopes : List String} {krs : List KeepRateRow}
    (h : ∀ r ∈ rows, r.kind = .execute → (Ledger.action r).isSome)
    (hkrs : keepRateForWindow py rows day scopes = .ok krs) : ∀ kr ∈ krs, kr.Counts py rows day := by
  rw [keepRateForWindow, proposalAudienceIndex_actions h] at hkrs
  obtain ⟨audienceIdx, hidx, hwindow⟩ := bind_eq_ok.mp hkrs
  obtain rfl := Except.ok.inj hidx
  obtain ⟨stop, hstop, hloop⟩ := bind_eq_ok.mp hwindow
  obtain ⟨counts, hcounts, hrows⟩ := bind_eq_ok.mp hloop
  obtain rfl : stop = ((day : ℕ) + 1) * dayMicros := by
    rw [Day.stop] at hstop
    split at hstop
    · exact (Except.ok.inj hstop).symm
    · cases hstop
  intro kr hkr
  obtain ⟨scope, hscope, hrow⟩ := mapM_mem_out hrows hkr
  have hcount := foldlM_countRow hscope h hcounts
  obtain ⟨ratio, -, hrow⟩ := bind_eq_ok.mp hrow
  obtain rfl := Except.ok.inj hrow
  rw [hcount]
  constructor <;> simp only [Nat.zero_add, tally]

end

/-! ### What is published -/

/-- No scope and day are published twice. -/
def PublishedOnce (log : List (String × Dict)) : Prop := ∀ scope day, log.countP (publishes scope day) ≤ 1

/-- An action tells what a row of the projection told. -/
structure Tells (kr : KeepRateRow) (a : String × Dict) : Prop where
  tool : a.1 = publicationTool
  scope : Dict.get a.2 "scope" = .str kr.scope
  day : Dict.get a.2 "day" = .str kr.day
  kept : Dict.get a.2 "kept" = .int kr.kept
  total : Dict.get a.2 "total" = .int kr.total

section
variable {py : Interp} {isoText : DateTime → String} {sha256 : Bytes → Bytes} {d : Ledger.Dialect} {companyId : UUID}
  {rows : List Entry} {publishedBy scope day tool : String} {kr : KeepRateRow} {w : Draw}
  {p : MetricsKeepRatePublishedPayload} {a : String × Dict} {c : Ledger.Call} {args : List (String × Val)}

theorem publishes_tells (h : Tells kr a) : publishes scope day a = true ↔ scope = kr.scope ∧ day = kr.day := by
  rw [publishes, h.tool, h.scope, h.day]
  simp only [Val.isText, decide_true, Bool.true_and, Bool.and_eq_true, decide_eq_true_eq]
  exact and_congr eq_comm eq_comm

theorem publishes_other (h : tool ≠ publicationTool) (args : Dict) : publishes scope day (tool, args) = false := by
  simp [publishes, h]

theorem PublishedOnce.other {log : List (String × Dict)} (h : PublishedOnce log) (hother : tool ≠ publicationTool)
    (args : Dict) : PublishedOnce (log ++ [(tool, args)]) := by
  intro scope day
  rw [List.countP_append, List.countP_singleton, publishes_other hother]
  simpa using h scope day

/-- What tells of a scope and a day that no action published yet. -/
theorem PublishedOnce.tells {log : List (String × Dict)} (h : PublishedOnce log) (htells : Tells kr a)
    (hfree : log.any (publishes kr.scope kr.day) = false) : PublishedOnce (log ++ [a]) := by
  intro scope day
  rw [List.countP_append, List.countP_singleton]
  by_cases hsame : publishes scope day a = true
  · obtain ⟨rfl, rfl⟩ := (publishes_tells htells).mp hsame
    have hzero : log.countP (publishes kr.scope kr.day) = 0 :=
      List.countP_eq_zero.mpr fun b hb => List.any_eq_false.mp hfree b hb
    simp [hzero, hsame]
  · simpa [hsame] using h scope day

theorem modelDump_names (p : MetricsKeepRatePublishedPayload) : ((p.modelDump isoText).map Prod.fst).Nodup := by
  simp [MetricsKeepRatePublishedPayload.modelDump]

/-- The dump that a column took tells what the row told. -/
theorem tells_dump (hpayload : kr.payload publishedBy w = .ok p)
    (hcolumn : ∀ q ∈ p.modelDump isoText, jsonColumn q.2 = .ok (backOf q.2)) :
    Tells kr (publicationTool, backDict (p.modelDump isoText)) := by
  rw [KeepRateRow.payload] at hpayload
  split at hpayload
  · cases hpayload
  · split at hpayload
    · cases hpayload
    · obtain rfl := Except.ok.inj hpayload
      have hint : ∀ name (n : ℕ), (name, Val.int n) ∈ MetricsKeepRatePublishedPayload.modelDump isoText
          ⟨kr.scope, kr.day, kr.kept, kr.total, kr.ratio, publishedBy, w.publishedAt⟩ → backOf (.int n) = .int n :=
        fun name n hmem => comesBack_int n _ (hcolumn _ hmem)
      refine ⟨rfl, ?_, ?_, ?_, ?_⟩
      · rw [get_backDict]
        rfl
      · rw [get_backDict]
        rfl
      · rw [get_backDict]
        exact hint "kept" kr.kept (by simp [MetricsKeepRatePublishedPayload.modelDump])
      · rw [get_backDict]
        exact hint "total" kr.total (by simp [MetricsKeepRatePublishedPayload.modelDump])

theorem write_grows {out : Except Err Ledger.WriteResult} {rows' : List Entry}
    (h : Ledger.write sha256 d rows c = (out, rows')) : rows <+: rows' := by
  rcases @Ledger.write_cases sha256 d rows c with ⟨res, ep, vp, rp, p, e, v, r, -, hw⟩ | ⟨x, hw⟩
  · obtain ⟨-, rfl⟩ := Prod.mk.inj (h.symm.trans hw)
    exact List.prefix_append _ _
  · obtain ⟨-, rfl⟩ := Prod.mk.inj (h.symm.trans hw)
    exact List.prefix_rfl

/-- One publication: it tells of its row, or nothing is written. -/
theorem write_publication (h : Logged sha256 d companyId rows) (hpayload : kr.payload publishedBy w = .ok p) :
    (∃ res rows' a, Ledger.write sha256 d rows (emitPublication isoText companyId p w) = (.ok res, rows') ∧
      Logged sha256 d companyId rows' ∧ rows <+: rows' ∧ Tells kr a ∧ actions companyId rows' = actions companyId rows ++ [a]) ∨
    ∃ x, Ledger.write sha256 d rows (emitPublication isoText companyId p w) = (.error x, rows) := by
  have hacts : (emitPublication isoText companyId p w).Acts publicationTool (p.modelDump isoText) :=
    Ledger.emit_acts (modelDump_names p)
  rcases @Ledger.actions_write sha256 d rows _ _ _ hacts with ⟨res, rows', hw, hlog, -⟩ | hx
  · refine .inl ⟨res, rows', _, hw, ?_, write_grows hw, tells_dump hpayload (Ledger.written_args hacts hw), hlog⟩
    have hlogged := h.write hacts
    rwa [hw] at hlogged
  · exact .inr hx

/-- What a call leaves: a log that tells more of the rows of the projection, none of them twice. -/
structure Extends (sha256 : Bytes → Bytes) (d : Ledger.Dialect) (companyId : UUID) (krs : List KeepRateRow)
    (rows rows' : List Entry) : Prop where
  logged : Logged sha256 d companyId rows'
  grows : rows <+: rows'
  tells : ∃ new, actions companyId rows' = actions companyId rows ++ new ∧ ∀ a ∈ new, ∃ kr ∈ krs, Tells kr a
  once : PublishedOnce (actions companyId rows) → PublishedOnce (actions companyId rows')

theorem Extends.refl (h : Logged sha256 d companyId rows) (krs : List KeepRateRow) :
    Extends sha256 d companyId krs rows rows where
  logged := h
  grows := List.prefix_rfl
  tells := ⟨[], by simp, by simp⟩
  once := id

theorem alreadyPublished_logged (h : Logged sha256 d companyId rows) :
    alreadyPublished scope day (fetchEntries d rows companyId none) =
      .ok ((actions companyId rows).any (publishes scope day)) := by
  obtain ⟨hlog, hacting⟩ := Ledger.fetch_acting h.sound h.acting
  rw [alreadyPublished_actions hacting, hlog]

/-- One row: it was published before, or is published now, or something is raised and nothing is written. -/
theorem publishRow_extends (h : Logged sha256 d companyId rows) :
    Extends sha256 d companyId [kr] rows (publishRow isoText sha256 d companyId publishedBy rows kr w).2 := by
  rw [publishRow, alreadyPublished_logged h]
  cases hany : (actions companyId rows).any (publishes kr.scope kr.day) with
  | true => exact .refl h _
  | false =>
    simp only
    cases hpayload : kr.payload publishedBy w with
    | error x => exact .refl h _
    | ok p =>
      rcases @write_publication isoText sha256 d companyId rows publishedBy kr w p h hpayload with
        ⟨res, rows', a, hw, hlogged, hgrows, htells, hlog⟩ | ⟨x, hw⟩
      · simp only [hw]
        exact ⟨hlogged, hgrows, ⟨[a], hlog, by simpa using htells⟩, fun honce => hlog ▸ honce.tells htells hany⟩
      · simp only [hw]
        exact .refl h _

theorem Extends.trans {krs : List KeepRateRow} {rows' rows'' : List Entry} (h : Extends sha256 d companyId [kr] rows rows')
    (h' : Extends sha256 d companyId krs rows' rows'') : Extends sha256 d companyId (kr :: krs) rows rows'' where
  logged := h'.logged
  grows := h.grows.trans h'.grows
  tells := by
    obtain ⟨new, hlog, hnew⟩ := h.tells
    obtain ⟨more, hlog', hmore⟩ := h'.tells
    refine ⟨new ++ more, by rw [hlog', hlog, List.append_assoc], fun a ha => ?_⟩
    rcases List.mem_append.mp ha with ha | ha
    · obtain ⟨kr', hkr', htells⟩ := hnew a ha
      exact ⟨kr', List.mem_cons.mpr (.inl (List.mem_singleton.mp hkr')), htells⟩
    · obtain ⟨kr', hkr', htells⟩ := hmore a ha
      exact ⟨kr', List.mem_cons_of_mem _ hkr', htells⟩
  once := fun honce => h'.once (h.once honce)

theorem publishRows_extends {krs : List KeepRateRow} {draw : ℕ → Draw} (h : Logged sha256 d companyId rows) :
    Extends sha256 d companyId krs rows (publishRows isoText sha256 d companyId publishedBy rows krs draw).2 := by
  induction krs generalizing rows draw with
  | nil => exact .refl h []
  | cons kr krs ih =>
    have hrow := @publishRow_extends isoText sha256 d companyId rows publishedBy kr (draw 0) h
    rw [publishRows, andThen]
    split
    · exact hrow.trans (.refl hrow.logged krs)
    · exact hrow.trans (ih hrow.logged)

/-- A call of `publish_for_day` tells, of one day, what its rows counted. -/
theorem publishForDay_tells (h : Logged sha256 d companyId rows) (p : Publish) :
    ∃ krs : List KeepRateRow, Extends sha256 d companyId krs rows (publishForDay py isoText sha256 d companyId rows p).2 ∧
      ∀ kr ∈ krs, ∃ day, kr.Counts py (fetchEntries d rows companyId none) day := by
  rw [publishForDay]
  cases p.targetDay with
  | error x => exact ⟨[], .refl h [], by simp⟩
  | ok day =>
    simp only
    cases hkrs : keepRateForWindow py (fetchEntries d rows companyId none) day p.scopes with
    | error x => exact ⟨[], .refl h [], by simp⟩
    | ok krs =>
      obtain ⟨-, hacting⟩ := Ledger.fetch_acting h.sound h.acting
      exact ⟨krs, publishRows_extends h, fun kr hkr => ⟨day, keepRateForWindow_counts hacting hkrs kr hkr⟩⟩

end

/-! ### Every run -/

section
variable {py : Interp} {isoText : DateTime → String} {sha256 : Bytes → Bytes} {d : Ledger.Dialect} {companyId : UUID}
  {rows rows' more : List Entry} {day : Day} {scope : String} {v : Verdict}

/-- What one step does: the rows grow, no scope and day are published again, and what is published counts the
    rows before it. -/
structure Steps (py : Interp) (sha256 : Bytes → Bytes) (d : Ledger.Dialect) (companyId : UUID) (rows rows' : List Entry) :
    Prop where
  logged : Logged sha256 d companyId rows'
  grows : rows <+: rows'
  once : PublishedOnce (actions companyId rows) → PublishedOnce (actions companyId rows')
  counts : ∃ new, actions companyId rows' = actions companyId rows ++ new ∧ ∀ a ∈ new, a.1 = publicationTool →
    ∃ kr day, Tells kr a ∧ KeepRateRow.Counts py (fetchEntries d rows companyId none) day kr

theorem Op.next_steps (op : Op) (h : Logged sha256 d companyId rows) :
    Steps py sha256 d companyId rows (op.next py isoText sha256 d companyId rows) := by
  have hpublish : ∀ p : Publish, Steps py sha256 d companyId rows (publishForDay py isoText sha256 d companyId rows p).2 := by
    intro p
    obtain ⟨krs, hext, hkrs⟩ := @publishForDay_tells py isoText sha256 d companyId rows h p
    obtain ⟨new, hlog, hnew⟩ := hext.tells
    refine ⟨hext.logged, hext.grows, hext.once, new, hlog, fun a ha _ => ?_⟩
    obtain ⟨kr, hkr, htells⟩ := hnew a ha
    obtain ⟨day, hcounts⟩ := hkrs kr hkr
    exact ⟨kr, day, htells, hcounts⟩
  cases op with
  | tick now draw => exact hpublish _
  | fire now utcNow draw => exact hpublish _
  | publish p => exact hpublish p
  | write c tool args hacts hother =>
    rw [Op.next]
    refine ⟨h.write hacts, write_grows rfl, ?_, ?_⟩ <;>
      rcases @Ledger.actions_write sha256 d rows c tool args hacts with ⟨res, rows', hw, hlog, hforeign⟩ | ⟨x, hw⟩ <;>
      rw [hw]
    · by_cases hcompany : companyId = c.companyId
      · subst hcompany
        rw [hlog]
        exact fun honce => honce.other hother _
      · rw [hforeign companyId hcompany]
        exact id
    · exact id
    · by_cases hcompany : companyId = c.companyId
      · subst hcompany
        refine ⟨_, hlog, fun a ha hpub => ?_⟩
        rw [List.mem_singleton.mp ha] at hpub
        exact absurd hpub hother
      · exact ⟨[], by rw [hforeign companyId hcompany, List.append_nil], by simp⟩
    · exact ⟨[], by simp, by simp⟩

/-- Rows that resolve nothing on the day and propose nothing that was resolved on it. -/
structure Untouched (py : Interp) (day : Day) (rows more : List Entry) : Prop where
  resolved : ∀ r ∈ more, ∀ args, Ledger.action r = some ("emit_experiment_resolved", args) →
    tsOf r < day * dayMicros ∨ (day + 1) * dayMicros ≤ tsOf r
  proposed : ∀ r ∈ more, ∀ args, Ledger.action r = some ("emit_experiment_proposed", args) →
    ∀ r' ∈ rows, ∀ args', Ledger.action r' = some ("emit_experiment_resolved", args') →
      day * dayMicros ≤ tsOf r' → tsOf r' < (day + 1) * dayMicros →
        (Dict.get args "experiment_id").toStr py ≠ (Dict.getD args' "experiment_id" (.str "")).toStr py

theorem get_audiences {eid : String} : ∀ {log : List (String × Dict)} {out : Dict},
    (∀ args, ("emit_experiment_proposed", args) ∈ log → (Dict.get args "experiment_id").toStr py ≠ eid) →
      Dict.get (log.foldl (noteAudience py) out) eid = Dict.get out eid
  | [], _, _ => rfl
  | (tool, args) :: log, out, h => by
    rw [List.foldl_cons, get_audiences fun args hargs => h args (List.mem_cons_of_mem _ hargs), noteAudience]
    split
    · rename_i hproposes
      obtain ⟨rfl, -⟩ := hproposes
      have hget := Projection.get?_set_ne (h args List.mem_cons_self) ((Dict.get args "audience").or (.str "person")) out
      exact congrArg (fun found => found.getD .none) hget
    · rfl

/-- What leaves the day untouched leaves its counts. -/
theorem tally_untouched (h : Untouched py day rows more) : tally py (rows ++ more) day scope v = tally py rows day scope v := by
  have hsame : ∀ r ∈ rows, resolves py (audiences py (rows ++ more)) day scope v r = resolves py (audiences py rows) day scope v r := by
    intro r hr
    rw [resolves, resolves]
    cases haction : Ledger.action r with
    | none => rfl
    | some a =>
      obtain ⟨tool, args⟩ := a
      simp only [Option.elim_some, countsAs]
      by_cases htool : tool = "emit_experiment_resolved"
      · subst htool
        by_cases hday : tsOf r < day * dayMicros ∨ (day + 1) * dayMicros ≤ tsOf r
        · rw [if_pos rfl, if_pos hday, if_pos rfl, if_pos hday]
        · rw [not_or, not_lt, not_le] at hday
          rw [audiences, List.filterMap_append, List.foldl_append, get_audiences]
          · rfl
          · intro args' hargs'
            obtain ⟨r', hr', haction'⟩ := List.mem_filterMap.mp hargs'
            exact h.proposed r' hr' args' haction' r hr args haction hday.1 hday.2
      · rw [if_neg htool, if_neg htool]
  have hnone : more.countP (resolves py (audiences py (rows ++ more)) day scope v) = 0 := by
    refine List.countP_eq_zero.mpr fun r hr => ?_
    rw [resolves]
    cases haction : Ledger.action r with
    | none => simp
    | some a =>
      obtain ⟨tool, args⟩ := a
      simp only [Option.elim_some, countsAs]
      by_cases htool : tool = "emit_experiment_resolved"
      · subst htool
        rw [if_pos rfl, if_pos (h.resolved r hr args haction)]
        simp
      · rw [if_neg htool]
        simp
  rw [tally, tally, List.countP_append, hnone, Nat.add_zero]
  exact List.countP_congr fun r hr => by rw [hsame r hr]

theorem KeepRateRow.Counts.untouched {kr : KeepRateRow} (h : kr.Counts py rows day) (hmore : Untouched py day rows more) :
    kr.Counts py (rows ++ more) day where
  dated := h.dated
  kept := h.kept.trans (tally_untouched hmore).symm
  total := by rw [h.total, tally_untouched hmore, tally_untouched hmore]

/-- What is read of a ledger that has grown. -/
theorem fetch_grows (h : Logged sha256 d companyId rows) (h' : Logged sha256 d companyId rows') (hgrows : rows <+: rows') :
    ∃ more, fetchEntries d rows' companyId none = fetchEntries d rows companyId none ++ more := by
  obtain ⟨new, rfl⟩ := hgrows
  rw [Ledger.fetch_sound h.sound, Ledger.fetch_sound h'.sound, Ledger.ofCompany_append, List.map_append]
  exact ⟨_, rfl⟩

theorem run_concat (ops : List Op) (op : Op) : run py isoText sha256 d companyId (ops ++ [op]) =
    op.next py isoText sha256 d companyId (run py isoText sha256 d companyId ops) := by
  rw [run, List.foldl_append]
  rfl

theorem run_logged (ops : List Op) : Logged sha256 d companyId (run py isoText sha256 d companyId ops) := by
  induction ops using List.reverseRecOn with
  | nil => exact logged_nil
  | append_singleton ops op ih =>
    rw [run_concat]
    exact (op.next_steps ih).logged

theorem run_grows (before after : List Op) :
    run py isoText sha256 d companyId before <+: run py isoText sha256 d companyId (before ++ after) := by
  induction after using List.reverseRecOn with
  | nil => simp
  | append_singleton after op ih =>
    rw [← List.append_assoc, run_concat]
    exact ih.trans (op.next_steps (run_logged _)).grows

/-- In every run a scope and a day are published once, whoever asked for it and however often. -/
theorem published_once (ops : List Op) (scope day : String) :
    (actions companyId (run py isoText sha256 d companyId ops)).countP (publishes scope day) ≤ 1 := by
  have honce : ∀ ops : List Op, PublishedOnce (actions companyId (run py isoText sha256 d companyId ops)) := by
    intro ops
    induction ops using List.reverseRecOn with
    | nil => exact fun _ _ => Nat.zero_le 1
    | append_singleton ops op ih =>
      rw [run_concat]
      exact (op.next_steps (run_logged ops)).once ih
  exact honce ops scope day

/-- Every publication of a run tells what the ledger counted at some moment, and goes on telling what it counts as
    long as nothing touches the day. -/
theorem published_counted (ops : List Op) : ∀ a ∈ actions companyId (run py isoText sha256 d companyId ops),
    a.1 = publicationTool → ∃ before after kr day, ops = before ++ after ∧ Tells kr a ∧
      kr.Counts py (fetchEntries d (run py isoText sha256 d companyId before) companyId none) day ∧
        ∃ more, fetchEntries d (run py isoText sha256 d companyId ops) companyId none =
            fetchEntries d (run py isoText sha256 d companyId before) companyId none ++ more ∧
          (Untouched py day (fetchEntries d (run py isoText sha256 d companyId before) companyId none) more →
            kr.Counts py (fetchEntries d (run py isoText sha256 d companyId ops) companyId none) day) := by
  have htold : ∀ ops : List Op, ∀ a ∈ actions companyId (run py isoText sha256 d companyId ops), a.1 = publicationTool →
      ∃ before after kr day, ops = before ++ after ∧ Tells kr a ∧
        kr.Counts py (fetchEntries d (run py isoText sha256 d companyId before) companyId none) day := by
    intro ops
    induction ops using List.reverseRecOn with
    | nil =>
      intro a ha
      exact absurd ha List.not_mem_nil
    | append_singleton ops op ih =>
      intro a ha hpub
      obtain ⟨new, hlog, hnew⟩ := (op.next_steps (run_logged ops)).counts
      rw [run_concat, hlog] at ha
      rcases List.mem_append.mp ha with hold | hnow
      · obtain ⟨before, after, kr, day, rfl, hcounts⟩ := ih a hold hpub
        exact ⟨before, after ++ [op], kr, day, by rw [List.append_assoc], hcounts⟩
      · obtain ⟨kr, day, hcounts⟩ := hnew a hnow hpub
        exact ⟨ops, [op], kr, day, rfl, hcounts⟩
  intro a ha hpub
  obtain ⟨before, after, kr, day, rfl, htells, hcounts⟩ := htold ops a ha hpub
  obtain ⟨more, hmore⟩ := fetch_grows (run_logged before) (run_logged (before ++ after))
    (@run_grows py isoText sha256 d companyId before after)
  refine ⟨before, after, kr, day, rfl, htells, hcounts, more, hmore, fun huntouched => ?_⟩
  rw [hmore]
  exact hcounts.untouched huntouched

end

/-! ### A first publication -/

def firstDay : Day := ⟨0, maxDays_pos⟩

/-- The company's keep rate of the first day, before anything was resolved. -/
def firstPublish : Publish where
  day := some firstDay
  publishedBy := "worm"
  scopes := ["company"]
  now := ⟨0, maxMicros_pos⟩
  draw := fun _ => ⟨⟨0, maxMicros_pos⟩, ⟨9⟩, Ledger.sampleMint⟩

def firstRow : KeepRateRow := ⟨"company", firstDay.text, 0, 0, .zero, true⟩

def firstPayload : MetricsKeepRatePublishedPayload := ⟨"company", firstDay.text, 0, 0, .zero, "worm", ⟨0, maxMicros_pos⟩⟩

theorem firstRow_computed : keepRateForWindow .plain [] firstDay ["company"] = .ok [firstRow] := by
  have hstop : firstDay.stop = .ok dayMicros := by
    rw [Day.stop, if_pos (by decide : firstDay.val + 1 < maxDays)]
    simp [firstDay]
  rw [keepRateForWindow]
  simp only [proposalAudienceIndex, List.foldlM_nil, hstop, bind, Except.bind, pure, Except.pure, List.mapM_cons, List.mapM_nil]
  rfl

theorem firstRow_payload : firstRow.payload "worm" (firstPublish.draw 0) = .ok firstPayload := by
  have hratio : (PyFloat.le .zero firstRow.ratio && PyFloat.le firstRow.ratio .one) = true := by
    simp [firstRow, PyFloat.le, PyFloat.lt, PyFloat.zero, PyFloat.one, PyFloat.signed]
  have hscope : ¬firstRow.scope ∉ keepRateScopes := by simp [firstRow, keepRateScopes]
  rw [KeepRateRow.payload, if_neg hscope, hratio]
  rfl

/-- One row that was not published: what its write leaves. -/
theorem publishRows_one {sha256 : Bytes → Bytes} {d : Ledger.Dialect} {kr : KeepRateRow} {draw : ℕ → Draw}
    {p : MetricsKeepRatePublishedPayload} (hpayload : kr.payload "worm" (draw 0) = .ok p) :
    (publishRows (fun _ => "") sha256 d ⟨1⟩ "worm" [] [kr] draw).2 =
      (Ledger.write sha256 d [] (emitPublication (fun _ => "") ⟨1⟩ p (draw 0))).2 := by
  have hrows : fetchEntries d [] ⟨1⟩ none = [] := rfl
  rw [publishRows, andThen, publishRow, hrows, alreadyPublished]
  simp only [hpayload]
  generalize Ledger.write sha256 d [] (emitPublication (fun _ => "") ⟨1⟩ p (draw 0)) = written
  obtain ⟨out, rows⟩ := written
  cases out with
  | error x => rfl
  | ok res => simp [Except.map, publishRows]

theorem firstPublish_run : run .plain (fun _ => "") Ledger.tagHash .sqlite ⟨1⟩ [.publish firstPublish] =
    (Ledger.write Ledger.tagHash .sqlite [] (emitPublication (fun _ => "") ⟨1⟩ firstPayload (firstPublish.draw 0))).2 := by
  have hrows : fetchEntries .sqlite [] ⟨1⟩ none = [] := rfl
  have hday : firstPublish.targetDay = .ok firstDay := rfl
  have hscopes : firstPublish.scopes = ["company"] := rfl
  have hby : firstPublish.publishedBy = "worm" := rfl
  rw [run, List.foldl_cons, List.foldl_nil, Op.next, publishForDay, hday]
  simp only [hrows, hscopes, hby, firstRow_computed]
  exact publishRows_one firstRow_payload

theorem firstPublish_written : ∃ args, actions ⟨1⟩ (run .plain (fun _ => "") Ledger.tagHash .sqlite ⟨1⟩ [.publish firstPublish]) =
    [(publicationTool, args)] := by
  rw [firstPublish_run]
  have hids : [(⟨2⟩ : UUID), ⟨3⟩, ⟨4⟩, ⟨5⟩].Nodup := by decide
  refine ⟨_, Ledger.emit_first (Ledger.room_first Ledger.isoText_midnight hids) ?_
    (modelDump_names firstPayload) ?_ (Ledger.settled_str _) ?_⟩
  · exact Ledger.settled_dict (by simp) (by simp [Ledger.settled_str])
  · have hzero : Ledger.Settled (.float .zero) := ⟨⟨_, rfl⟩, rfl, rfl⟩
    have hint : Ledger.Settled (.int 0) := Ledger.settled_int rfl
    simp [MetricsKeepRatePublishedPayload.modelDump, firstPayload, Ledger.settled_str, hzero, hint]
  · have hcheck : ∀ q ∈ [("name", Val.str "metrics_keep_rate_payload_valid"), ("ok", .bool true)], Ledger.Settled q.2 := by
      simp [Ledger.settled_str, Ledger.settled_bool]
    exact Ledger.settled_list fun v hv => List.mem_singleton.mp hv ▸ Ledger.settled_dict (by simp) hcheck

/-- The first publication tells what an empty ledger counts. -/
theorem firstPublish_counted : ∃ a, a ∈ actions ⟨1⟩ (run .plain (fun _ => "") Ledger.tagHash .sqlite ⟨1⟩ [.publish firstPublish]) ∧
    ∃ before after kr day, [Op.publish firstPublish] = before ++ after ∧ Tells kr a ∧
      kr.Counts .plain (fetchEntries .sqlite (run .plain (fun _ => "") Ledger.tagHash .sqlite ⟨1⟩ before) ⟨1⟩ none) day := by
  obtain ⟨args, hlog⟩ := firstPublish_written
  have ha : (publicationTool, args) ∈ actions ⟨1⟩ (run .plain (fun _ => "") Ledger.tagHash .sqlite ⟨1⟩ [.publish firstPublish]) := by
    rw [hlog]
    exact List.mem_singleton.mpr rfl
  obtain ⟨before, after, kr, day, hops, htells, hcounts, -⟩ := published_counted _ _ ha rfl
  exact ⟨_, ha, before, after, kr, day, hops, htells, hcounts⟩

end ResearchLoop
