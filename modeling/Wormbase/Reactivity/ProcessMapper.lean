import Wormbase.Py.IsoFormat
import Wormbase.Reactivity.OwnState
import Wormbase.Reactivity.Predicates

/-! `RecurringQuestionProcessMapperReactivity`: when one person keeps asking another about a topic, a
    process map is proposed.

    Its condition looks up the fires under one key; each fire is recorded under a key of its own. What
    holds a fire back is the mark that the last fire of the same triplet has left in the history. -/

namespace Reactivity.ProcessMapper
open Py Registry

/-! ### The history of a tenant -/

/-- Asker, askee and topic. -/
structure Triplet where
  asker : String
  askee : String
  topic : String
  deriving DecidableEq

structure Observation where
  triplet : Triplet
  ts : Instant

/-- `_TenantHistory`, with the observations of all triplets in one list. -/
structure History where
  obs : List Observation
  fired : Triplet → Option Instant

def History.add (h : History) (o : Observation) : History := { h with obs := h.obs ++ [o] }

def History.prune (h : History) (now : Instant) (window : ℤ) : History :=
  { h with obs := h.obs.filter fun o => now - window ≤ o.ts }

/-- The times at which a triplet was observed. -/
def History.times (h : History) (key : Triplet) : List Instant :=
  (h.obs.filter fun o => o.triplet = key).map Observation.ts

def History.count (h : History) (key : Triplet) : ℕ := (h.times key).length

def History.markFired (h : History) (key : Triplet) (at_ : Instant) : History :=
  { h with fired := Function.update h.fired key (some at_) }

/-! ### The process map -/

structure Edge where
  triplet : Triplet
  frequency : ℕ
  firstSeen : Instant
  lastSeen : Instant

structure Node where
  actorPersonId : String
  roleInMap : String

structure ProcessMap where
  nodes : List Node
  edges : List Edge
  windowStart : Instant
  windowEnd : Instant
  confidence : PyFloat

def Triplet.le (a b : Triplet) : Bool :=
  a.asker < b.asker || (a.asker = b.asker && (a.askee < b.askee || (a.askee = b.askee && a.topic ≤ b.topic)))

/-- `sorted(all_obs.items())`, as edges. -/
def History.edges (h : History) : List Edge :=
  ((h.obs.map Observation.triplet).dedup.mergeSort Triplet.le).map fun key =>
    ⟨key, h.count key, ((h.times key).min?).getD 0, ((h.times key).max?).getD 0⟩

def nodesOf (edges : List Edge) : List Node :=
  let askers := edges.map (·.triplet.asker)
  let askees := edges.map (·.triplet.askee)
  ((askers ++ askees).dedup.mergeSort fun a b => decide (a ≤ b)).map fun id =>
    ⟨id, if id ∈ askers ∧ id ∈ askees then "asker_and_askee" else if id ∈ askers then "asker" else "askee"⟩

/-- `float(round(above / max(total, 1), 4))`. -/
def confidenceOf (above total : ℕ) : PyFloat :=
  let q := (PyFloat.toDouble (above / max total 1)).getD 0
  .finite false ((PyFloat.toDouble (PyFloat.roundHalfEven (q * 10000) / 10000)).getD 0)

/-! ### The reactivity -/

def reactivityId : String := "recurring_question_process_mapper"

def day : ℤ := 24 * 3600000000

/-- The fields of the reactivity. -/
structure Mapper where
  threshold : ℤ := 3
  windowDays : ℤ := 14
  perTenantBudget : ℤ := 5

def Mapper.condition (m : Mapper) : Condition :=
  .and [.and [.dailyBudget ⟨none, none, some m.perTenantBudget⟩, .notRecentlyFired "process_map" day],
    .domainEnabled]

def Mapper.processMap (m : Mapper) (h : History) (now : Instant) : ProcessMap where
  nodes := nodesOf h.edges
  edges := h.edges
  windowStart := now - m.windowDays * day
  windowEnd := now
  confidence := confidenceOf (h.edges.countP fun e => m.threshold ≤ e.frequency) h.edges.length

/-- What the reactivity finds besides the entry: the write of its proposal, and what the clock says to
    the condition, to `fire`, to the bookkeeping, and as the time of a message that has none. -/
structure Call where
  active : Bool
  written : Except Err Unit
  now : ℕ → Instant
  fireNow : Instant
  firedAt : Instant
  utcNow : Instant
  recorded : Except Err Unit

/-! ### What is read from an entry -/

/-- An aware datetime as an instant; a naive one counts as UTC. -/
def instantOf (t : DateTime) : Instant :=
  (t.wall : ℤ) - (t.utcoffset.getD DateTime.utc : ℤ) - 719162 * 86400000000

/-- `datetime.fromtimestamp(x, tz=timezone.utc)`. The seconds and the rest are rounded apart, and
    `gmtime` refuses a year that is no C int before `datetime` refuses one past 9999. -/
def fromTimestamp : PyFloat → Except Err Instant
  | .nan => .error (valueError "Invalid value NaN (not a number)")
  | .inf _ => .error (overflowError "timestamp out of range for platform time_t")
  | .finite neg q =>
    let whole := q.floor
    let micros := PyFloat.roundHalfEven ((PyFloat.toDouble ((q - whole) * 1000000)).getD 0)
    let t : ℤ := if neg then -(whole * 1000000 + micros) else whole * 1000000 + micros
    let seconds := t / 1000000
    if seconds < -(2 ^ 63) ∨ 2 ^ 63 ≤ seconds then
      .error (overflowError "timestamp out of range for platform time_t")
    else if seconds < -67768040609740800 ∨ 67768036191676799 < seconds then
      .error ⟨"OSError", "[Errno 75] Value too large for defined data type"⟩
    else if t < -(719162 * 86400000000) ∨ (maxMicros : ℤ) - 719162 * 86400000000 ≤ t then
      .error (valueError "year is out of range")
    else .ok t

/-- `_extract_ts`: only a `ValueError` of the number parser sends it on to the text parser. -/
def extractTs (args entry : Dict) (utcNow : Instant) : Except Err Instant :=
  match ((Dict.get args "ts").or (Dict.get args "sent_at")).or (entry.get "ts") with
  | .datetime t => .ok (instantOf t)
  | .str raw =>
    if raw = "" then .ok utcNow
    else
      match (Val.str raw).toFloat.bind fromTimestamp with
      | .ok t => .ok t
      | .error x =>
        if x.cls = "ValueError" then .ok (((fromisoformat (zuluToOffset raw.toList)).map instantOf).getD utcNow)
        else .error x
  | _ => .ok utcNow

/-- `_ArgsPredicate`. -/
def argsPredicate (check : Dict → Bool) (entry : Dict) : Except Err Bool :=
  if (entry.get "kind").isText "execute" then do return check (← entryArgs entry) else .ok false

/-- `HasTopic`. -/
def hasTopic (args : Dict) : Bool := ["topic", "topic_id", "topic_kind"].any fun key => (args.get key).truthy

/-- `InThread`. -/
def inThread (args : Dict) : Bool :=
  let thread := Dict.get args "thread_ts"
  (thread.truthy && !thread.same ((Dict.get args "ts").or (Dict.get args "message_id"))) ||
    (Dict.get args "thread_id").truthy || (Dict.get args "parent_id").truthy ||
      match Dict.get args "in_thread" with
      | .bool flag => flag
      | _ => false

/-- `EntryKind("chat_received") & HasTopic() & InThread()`. -/
def predicate (entry : Dict) : Except Err Bool := do
  if ← entryKind "chat_received" entry then
    if ← argsPredicate hasTopic entry then argsPredicate inThread entry
    else return false
  else return false

section
variable (py : Interp)

/-- `_extract_asker`, `_extract_askee` and `_extract_topic`; a question to oneself is none. -/
def tripletOf (args : Dict) : Option Triplet :=
  let asker := (firstText py args ["sender_person", "sender_person_id", "asker_person_id"]).getD ""
  let askee := (firstText py args
    ["askee_person_id", "thread_parent_person", "thread_parent_person_id"]).getD ""
  let topic := (firstText py args ["topic_id", "topic"]).getD ""
  if asker = "" ∨ askee = "" ∨ topic = "" ∨ asker = askee then none else some ⟨asker, askee, topic⟩

/-! ### A fire -/

/-- What the reactivity has in memory, and the process maps that it has proposed. -/
structure Memory where
  history : History
  maps : List ProcessMap

/-- The triplet of an entry, and the history with the entry in it. -/
def observe (m : Mapper) (entry : Dict) (call : Call) (h : History) :
    Except Err (Option (Triplet × History)) := do
  let args ← entryArgs entry
  match tripletOf py args with
  | none => return none
  | some key =>
    let ts ← extractTs args entry call.utcNow
    return some (key, (h.add ⟨key, ts⟩).prune call.fireNow (m.windowDays * day))

/-- The triplet has reached the threshold, and its own last fire is long enough ago. -/
def due (m : Mapper) (call : Call) (key : Triplet) (h : History) : Bool :=
  m.threshold ≤ h.count key && match h.fired key with
    | none => true
    | some already => already < call.fireNow - day

/-- `f"process_map:{asker}:{askee}:{topic}"`. -/
def Triplet.noveltyKey (key : Triplet) : String := s!"process_map:{key.asker}:{key.askee}:{key.topic}"

def fire (m : Mapper) (entry : Dict) (call : Call) (x : Memory) : Except Err Result × Memory :=
  match observe py m entry call x.history with
  | .error e => (.error e, x)
  | .ok none => (.ok ⟨false, "", []⟩, x)
  | .ok (some (key, h)) =>
    if due m call key h then
      match call.written with
      | .error e => (.error e, { x with history := h })
      | .ok _ => (.ok ⟨true, key.noveltyKey, [("per_tenant", 1)]⟩,
          ⟨h.markFired key call.fireNow, x.maps ++ [m.processMap h call.fireNow]⟩)
    else (.ok ⟨false, "", []⟩, { x with history := h })

def turn (m : Mapper) (entry : Dict) (call : Call) (x : Memory) : Turn where
  id := reactivityId
  active := call.active
  predicate := fun _ => (predicate entry).map fun matched => (matched, none)
  condition := m.condition
  fire := fun _ => (fire py m entry call x).1
  now := call.now
  firedAt := call.firedAt
  write := call.recorded

abbrev keeper (m : Mapper) : Keeper Memory Call where
  id := reactivityId
  turn := turn py m
  after := fun entry call x _ => (fire py m entry call x).2
  turn_id := fun _ _ _ => rfl

/-- A new registry and an empty history. -/
def start (disabled : List String) : Stores × Memory := (.fresh disabled, ⟨⟨[], fun _ => none⟩, []⟩)

end

/-! ### Fires and the key of the gate -/

/-- Of any two fires, the second is later than the window after the first. -/
def Spaced (x : Memory) : Prop := (x.maps.map ProcessMap.windowEnd).Pairwise fun a b => a < b - day

section
variable (py : Interp) (company : UUID) (m : Mapper)

/-- In no run from a new registry two fires fall into one window. -/
def GateHolds (disabled : List String) (rs : List (Round Call reactivityId)) : Prop :=
  ∀ st', Run.exec ((keeper py m).step py company) (start disabled) rs = some st' → Spaced st'.2

/-- After no run `NotRecentlyFired("process_map")` denies an entry. -/
def GateOpen (disabled : List String) (rs : List (Round Call reactivityId)) : Prop :=
  ∀ st', Run.exec ((keeper py m).step py company) (start disabled) rs = some st' →
    ∀ now, novel st'.1 reactivityId "process_map" day now = true

end

/-- When an entry is let through and takes its triplet over the threshold, and the proposal can be
    written, no other triplet has fired within the window. -/
def Alone (py : Interp) (company : UUID) (m : Mapper) (entry : Dict) (st : Stores × Memory) :
    Binding Call reactivityId → Prop
  | .own call => (turn py m entry call st.2).reaches py company entry st.1 = true → ∀ key h,
      observe py m entry call st.2.history = .ok (some (key, h)) → due m call key h = true →
        call.written = .ok () →
          ∀ other at_, other ≠ key → st.2.history.fired other = some at_ → at_ < call.fireNow - day
  | .other _ _ => True

section
variable {py : Interp} {company : UUID} {m : Mapper} {entry : Dict} {call : Call} {x : Memory}
  {s : Stores}

theorem noveltyKey_ne (key : Triplet) : key.noveltyKey ≠ "process_map" := by
  intro h
  have hlen : s!"process_map:{key.asker}:{key.askee}:{key.topic}".length = "process_map".length :=
    congrArg String.length h
  simp only [String.length_append] at hlen
  have hlong : (toString "process_map:").length = 12 := rfl
  have hshort : "process_map".length = 11 := rfl
  omega

theorem observe_fired {h h' : History} {key : Triplet}
    (hobs : observe py m entry call h = .ok (some (key, h'))) : h'.fired = h.fired := by
  obtain ⟨args, -, hobs⟩ := bind_eq_ok.mp hobs
  cases htriplet : tripletOf py args with
  | none =>
    rw [htriplet] at hobs
    cases Except.ok.inj hobs
  | some key' =>
    rw [htriplet] at hobs
    obtain ⟨ts, -, hobs⟩ := bind_eq_ok.mp hobs
    obtain ⟨-, rfl⟩ := Prod.mk.inj (Option.some.inj (Except.ok.inj hobs))
    rfl

/-- What a call of `fire` does: it proposes a map and marks the triplet, or it neither fires nor
    changes what has fired. -/
theorem fire_cases (py : Interp) (m : Mapper) (entry : Dict) (call : Call) (x : Memory) :
    (∃ key h, observe py m entry call x.history = .ok (some (key, h)) ∧ due m call key h = true ∧
      call.written = .ok () ∧ fire py m entry call x =
        (.ok ⟨true, key.noveltyKey, [("per_tenant", 1)]⟩,
          ⟨h.markFired key call.fireNow, x.maps ++ [m.processMap h call.fireNow]⟩)) ∨
    (∀ key h, observe py m entry call x.history = .ok (some (key, h)) → due m call key h = true →
      call.written ≠ .ok ()) ∧ (∀ r, (fire py m entry call x).1 = .ok r → r.fired = false) ∧
        (fire py m entry call x).2.maps = x.maps ∧
          (fire py m entry call x).2.history.fired = x.history.fired := by
  unfold fire
  cases hobs : observe py m entry call x.history with
  | error e => exact .inr ⟨nofun, nofun, rfl, rfl⟩
  | ok found =>
    cases found with
    | none => exact .inr ⟨nofun, not_fired, rfl, rfl⟩
    | some seen =>
      obtain ⟨key, h⟩ := seen
      simp only
      by_cases hdue : due m call key h = true
      · rw [if_pos hdue]
        cases hwritten : call.written with
        | error e => exact .inr ⟨fun _ _ _ _ => nofun, nofun, rfl, observe_fired hobs⟩
        | ok u => exact .inl ⟨key, h, rfl, hdue, rfl, rfl⟩
      · rw [if_neg hdue]
        refine .inr ⟨fun key' h' heq hdue' => ?_, not_fired, rfl, observe_fired hobs⟩
        obtain ⟨rfl, rfl⟩ := Prod.mk.inj (Option.some.inj (Except.ok.inj heq))
        exact absurd hdue' hdue

theorem due_old {key : Triplet} {h : History} {already : Instant} (hdue : due m call key h = true)
    (hfired : h.fired key = some already) : already < call.fireNow - day := by
  unfold due at hdue
  rw [hfired, Bool.and_eq_true] at hdue
  exact of_decide_eq_true hdue.2

/-- The marks tell the last fires: one of each triplet that fired, and none earlier than a fire. -/
structure Marked (x : Memory) : Prop where
  bounded : ∀ map ∈ x.maps, ∃ key at_, x.history.fired key = some at_ ∧ map.windowEnd ≤ at_
  made : ∀ key at_, x.history.fired key = some at_ → at_ ∈ x.maps.map ProcessMap.windowEnd

theorem Marked.congr {x' : Memory} (h : Marked x) (hmaps : x'.maps = x.maps)
    (hfired : x'.history.fired = x.history.fired) : Marked x' := by
  refine ⟨?_, ?_⟩
  · rw [hmaps, hfired]
    exact h.bounded
  · rw [hmaps, hfired]
    exact h.made

theorem Marked.fire (h : Marked x) (m : Mapper) {key : Triplet} {hist : History}
    (hobs : observe py m entry call x.history = .ok (some (key, hist))) (hdue : due m call key hist = true) :
    Marked ⟨hist.markFired key call.fireNow, x.maps ++ [m.processMap hist call.fireNow]⟩ := by
  have hfired := observe_fired hobs
  have hday : (0 : ℤ) < day := by decide
  constructor
  · intro map hmap
    rcases List.mem_append.mp hmap with hmap | hmap
    · obtain ⟨other, at_, hat, hle⟩ := h.bounded map hmap
      by_cases hkey : other = key
      · -- the mark of the triplet itself moves forward
        subst hkey
        have hold := due_old hdue (hfired ▸ hat)
        have hback : call.fireNow - day ≤ call.fireNow := sub_le_self _ hday.le
        exact ⟨other, call.fireNow, Function.update_self .., hle.trans (hold.le.trans hback)⟩
      · exact ⟨other, at_, by simp [History.markFired, Function.update_of_ne hkey, hfired, hat], hle⟩
    · obtain rfl := List.mem_singleton.mp hmap
      exact ⟨key, call.fireNow, Function.update_self .., le_rfl⟩
  · intro other at_ hat
    rw [List.map_append, List.mem_append]
    by_cases hkey : other = key
    · subst hkey
      right
      have heq : call.fireNow = at_ := by simpa [History.markFired] using hat
      simp [Mapper.processMap, heq]
    · left
      refine h.made other at_ ?_
      rw [← hfired]
      simpa [History.markFired, Function.update_of_ne hkey] using hat

theorem marked_kept (entry : Dict) (st : Stores × Memory) (b : Binding Call (keeper py m).id)
    (st' : Stores × Memory) (h : Marked st.2) (hkept : Kept py company (keeper py m) entry st b st') :
    Marked st'.2 := by
  have hafter : ∀ call : Call, Marked (fire py m entry call st.2).2 := by
    intro call
    rcases fire_cases py m entry call st.2 with ⟨key, hist, hobs, hdue, -, hfire⟩ | ⟨-, -, hmaps, hfired⟩
    · rw [hfire]
      exact h.fire m hobs hdue
    · exact h.congr hmaps hfired
  cases hkept with
  | idle call hreach => exact h
  | quiet call hreach hquiet => exact hafter call
  | fired call r hreach hfire hfired => exact hafter call
  | other t hid => exact h

/-- A fire keeps the distance exactly if it is the only one in its window. -/
theorem spaced_kept (entry : Dict) (st : Stores × Memory) (b : Binding Call (keeper py m).id)
    (st' : Stores × Memory) (h : Marked st.2) (hkept : Kept py company (keeper py m) entry st b st') :
    Spaced st'.2 ↔ Spaced st.2 ∧ Alone py company m entry st b := by
  cases hkept with
  | other t hid => exact (and_iff_left trivial).symm
  | idle call hreach =>
    refine (and_iff_left fun hreached => ?_).symm
    have hreach' : (turn py m entry call st.2).reaches py company entry st.1 = false := hreach
    rw [hreach'] at hreached
    cases hreached
  | quiet call hreach hquiet =>
    have hquiet' : ∀ r, (fire py m entry call st.2).1 = .ok r → r.fired = false := hquiet
    rcases fire_cases py m entry call st.2 with ⟨key, hist, -, -, -, hfire⟩ | ⟨hnot, -, hmaps, -⟩
    · rw [hfire] at hquiet'
      cases hquiet' _ rfl
    · have hsame : Spaced (fire py m entry call st.2).2 ↔ Spaced st.2 := by rw [Spaced, hmaps, Spaced]
      refine hsame.trans (and_iff_left fun _ key hist hobs hdue hwritten => ?_).symm
      exact absurd hwritten (hnot key hist hobs hdue)
  | fired call r hreach hresult hfired =>
    have hresult' : (fire py m entry call st.2).1 = .ok r := hresult
    rcases fire_cases py m entry call st.2 with ⟨key, hist, hobs, hdue, hwritten, hfire⟩ | ⟨-, hquiet, -, -⟩
    · have hold := observe_fired hobs
      have hspaced : Spaced (fire py m entry call st.2).2 ↔ Spaced st.2 ∧
          ∀ a ∈ st.2.maps.map ProcessMap.windowEnd, a < call.fireNow - day := by
        rw [hfire]
        simp [Spaced, List.pairwise_append, Mapper.processMap]
      refine hspaced.trans (and_congr_right fun _ => ?_)
      constructor
      · intro hall _ key' hist' _ _ _ other at_ _ hat
        exact hall at_ (h.made other at_ hat)
      · intro halone a ha
        obtain ⟨map, hmap, rfl⟩ := List.mem_map.mp ha
        obtain ⟨other, at_, hat, hle⟩ := h.bounded map hmap
        refine lt_of_le_of_lt hle ?_
        by_cases hother : other = key
        · subst hother
          exact due_old hdue (hold ▸ hat)
        · exact halone hreach key hist hobs hdue hwritten other at_ hother hat
    · rw [hquiet r hresult'] at hfired
      cases hfired

/-- No fire is recorded under the key of the gate. -/
def Unrecorded (st : Stores × Memory) : Prop := st.1.lastFired (reactivityId, "process_map") = none

theorem unrecorded_kept (entry : Dict) (st : Stores × Memory) (b : Binding Call (keeper py m).id)
    (st' : Stores × Memory) (h : Unrecorded st) (hkept : Kept py company (keeper py m) entry st b st') :
    Unrecorded st' := by
  cases hkept with
  | idle call hreach => exact h
  | quiet call hreach hquiet => exact h
  | other t hid => exact (Turn.run_lastFired (Ne.symm hid)).trans h
  | fired call r hreach hresult hfired =>
    have hresult' : (fire py m entry call st.2).1 = .ok r := hresult
    refine (onFire_lastFired fun heq => ?_).trans h
    rcases fire_cases py m entry call st.2 with ⟨key, hist, -, -, -, hfire⟩ | ⟨-, hquiet, -, -⟩
    · rw [hfire] at hresult'
      obtain rfl := Except.ok.inj hresult'
      exact noveltyKey_ne key (congrArg Prod.snd heq).symm
    · rw [hquiet r hresult'] at hfired
      cases hfired

end

/-- For every sequence of dispatched entries, the gate denies nothing, and the fires keep its window
    exactly if no entry takes its triplet over the threshold while another has fired within it. -/
theorem gateHolds_iff (py : Interp) (company : UUID) (m : Mapper) (disabled : List String)
    (rs : List (Round Call reactivityId)) : GateOpen py company m disabled rs ∧
    (GateHolds py company m disabled rs ↔ Run.Guarded ((keeper py m).step py company)
      (fun st r => (keeper py m).Each py company (Alone py company m) r.entry st r.bindings)
      (start disabled) rs) := by
  constructor
  · intro st' hrun now
    have hstart : Unrecorded (start disabled) := rfl
    have hunrecorded : Unrecorded st' := rounds_always unrecorded_kept hstart hrun
    rw [Unrecorded] at hunrecorded
    rw [novel, hunrecorded]
  · have hmarked : Marked (start disabled).2 :=
      ⟨fun _ hmap => absurd hmap List.not_mem_nil, fun _ _ hat => nomatch hat⟩
    have hiff := fun {st'} (hrun : Run.exec ((keeper py m).step py company) (start disabled) rs = some st') =>
      (rounds_iff marked_kept spaced_kept hmarked hrun).trans (and_iff_right List.Pairwise.nil)
    constructor
    · intro hholds
      obtain ⟨st', hrun⟩ := Run.exec_total (fun st r => ⟨_, rfl⟩) rs (start disabled)
      exact (hiff hrun).mp (hholds st' hrun)
    · intro hguarded st' hrun
      exact (hiff hrun).mpr hguarded

/-- A question in a thread. -/
def question (asker topic : String) : Dict :=
  [(.str "seq", .int 1), (.str "kind", .str "execute"), (.str "payload", .dict
    [(.str "tool", .str "channel_adapter.emit_chat_received"), (.str "args", .dict
      [(.str "sender_person", .str asker), (.str "askee_person_id", .str "carol"),
        (.str "topic", .str topic), (.str "thread_id", .str "T1")])])]

/-- Everything works, at one instant. -/
def atOnce : Call := ⟨true, .ok (), fun _ => 0, 0, 0, 0, .ok ()⟩

/-- Two askers reach the threshold within a day. -/
def twoTriplets : List (Round Call reactivityId) :=
  (List.replicate 3 (question "bob" "churn") ++ List.replicate 3 (question "dana" "qbr")).map fun entry =>
    ⟨entry, [.own atOnce]⟩

theorem twoTriplets_pass_gate : ¬GateHolds .plain ⟨1⟩ {} [] twoTriplets := by
  intro hholds
  have htwo : (Run.exec ((keeper .plain {}).step .plain ⟨1⟩) (start []) twoTriplets).map
      (fun st => st.2.maps.map ProcessMap.windowEnd) = some [0, 0] := by decide +kernel
  obtain ⟨st, hst, hmaps⟩ := Option.map_eq_some_iff.mp htwo
  have hspaced := hholds st hst
  rw [Spaced, hmaps] at hspaced
  exact absurd hspaced (by decide)

end Reactivity.ProcessMapper
