import Mathlib.Algebra.BigOperators.Group.List.Basic
import Mathlib.Data.Rat.Defs
import Mathlib.Algebra.Order.Ring.Rat
import Wormbase.Lib.Run
import Wormbase.Py.Coerce

/-! `InMemoryQuotaTracker` and the `LedgerQuotaTracker` around it.

    Calls run side by side: each takes its next step when it comes, and what the clocks and the
    emitter do there is part of the step. Monotonic clocks are exact rationals. -/

namespace Tenancy
open Py

/-! ### The rolling window -/

structure TokenBucket where
  capacity : ℤ
  windowSeconds : ℚ
  timestamps : List ℚ

/-- The timestamps that are still in the window. -/
def TokenBucket.kept (b : TokenBucket) (now : ℚ) : List ℚ :=
  b.timestamps.dropWhile fun t => t < now - b.windowSeconds

/-- The window of a bucket moves on, and a call is taken where there is room. -/
def TokenBucket.consume (b : TokenBucket) (now : ℚ) : TokenBucket × Bool :=
  if b.capacity ≤ (b.kept now).length then ({ b with timestamps := b.kept now }, false)
  else ({ b with timestamps := b.kept now ++ [now] }, true)

structure InMemoryQuotaTracker where
  capacity : ℤ
  windowSeconds : ℚ
  buckets : String → Option TokenBucket

namespace InMemoryQuotaTracker

/-- The bucket of a tenant; one that has none gets a fresh one. -/
def bucket (t : InMemoryQuotaTracker) (tenantSlug : String) : TokenBucket :=
  (t.buckets tenantSlug).getD ⟨t.capacity, t.windowSeconds, []⟩

def exhausted (py : Interp) (tenantSlug : String) (capacity : ℤ) : Err where
  cls := "TenantQuotaExceededError"
  msg := "tenant " ++ String.ofList (reprStr py tenantSlug) ++ ": 24h quota exhausted (" ++
    String.ofList (intText capacity) ++ " calls / 24h)"

/-- `InMemoryQuotaTracker.consume`. -/
def consume (py : Interp) (t : InMemoryQuotaTracker) (tenantSlug : String) (now : ℚ) :
    InMemoryQuotaTracker × Except Err Unit :=
  let b := (t.bucket tenantSlug).consume now
  ({ t with buckets := Function.update t.buckets tenantSlug (some b.1) },
    if b.2 then .ok () else .error (exhausted py tenantSlug b.1.capacity))

/-- `snapshot`: consumed and capacity. -/
def snapshot (t : InMemoryQuotaTracker) (tenantSlug : String) : ℤ × ℤ :=
  match t.buckets tenantSlug with
  | none => (0, t.capacity)
  | some b => (b.timestamps.length, b.capacity)

end InMemoryQuotaTracker

/-! ### The cadence window -/

structure QuotaWindowState where
  consumptionCount : ℤ
  windowOpenMono : ℚ
  windowOpenWall : Fin maxMicros

inductive Trigger where
  | countThreshold
  | timeThreshold
  | quotaExhausted (x : Err)

def Trigger.text : Trigger → String
  | .countThreshold => "count_threshold"
  | .timeThreshold => "time_threshold"
  | .quotaExhausted _ => "quota_exhausted"

/-- `isoformat` of an instant in UTC. -/
def isoUtc (t : Fin maxMicros) : String := DateTime.isoformat ⟨t, some DateTime.utc⟩

/-- The payload of a `tenant_quota_consumed` entry. -/
structure QuotaConsumed where
  tenantSlug : String
  consumptionCount : ℤ
  quotaLimit : ℤ
  quotaRemaining : ℤ
  windowStartTs : String
  windowEndTs : String
  triggeredBy : String

/-- Where a call of `consume` stands. -/
inductive Phase where
  | called
  | accepted
  | triggered (t : Trigger)
  | emitting (t : Trigger) (payload : QuotaConsumed)

structure Call where
  tenantSlug : String
  phase : Phase

/-- The trackers, the payloads that the emitter took, the calls under way, and how those that are
    over ended. -/
structure State where
  tracker : InMemoryQuotaTracker
  windowState : String → Option QuotaWindowState
  emitted : List QuotaConsumed
  calls : List Call
  outcomes : List (String × Option Err)

inductive Event where
  | call (tenantSlug : String)
  | consume (i : ℕ) (now : ℚ)
  | tick (i : ℕ) (nowMono : ℚ) (nowWall : Fin maxMicros)
  | flush (i : ℕ) (nowMono : ℚ) (nowWall : Fin maxMicros)
  | emit (i : ℕ) (raised : Option Err)

section
variable (py : Interp) (countThreshold : ℤ) (timeThresholdSeconds : ℚ)

/-- The locked part of `_tick_and_check_cadence`. -/
def tick (state : Option QuotaWindowState) (nowMono : ℚ) (nowWall : Fin maxMicros) :
    QuotaWindowState × Option Trigger :=
  let state := state.getD ⟨0, nowMono, nowWall⟩
  let state := { state with consumptionCount := state.consumptionCount + 1 }
  (state,
    if countThreshold ≤ state.consumptionCount then some .countThreshold
    else if timeThresholdSeconds ≤ nowMono - state.windowOpenMono then some .timeThreshold
    else none)

/-- The payload that `_emit_for_tenant` builds. -/
def quotaConsumed (tracker : InMemoryQuotaTracker) (state : Option QuotaWindowState)
    (tenantSlug : String) (t : Trigger) (nowWall : Fin maxMicros) : QuotaConsumed :=
  let snap := tracker.snapshot tenantSlug
  { tenantSlug
    consumptionCount := (state.map (·.consumptionCount)).getD 0
    quotaLimit := snap.2
    quotaRemaining := max 0 (snap.2 - snap.1)
    windowStartTs := isoUtc ((state.map (·.windowOpenWall)).getD nowWall)
    windowEndTs := isoUtc nowWall
    triggeredBy := t.text }

/-- How a call ends once its entry is emitted: a denied one raises what denied it. -/
def Trigger.outcome : Trigger → Option Err
  | .quotaExhausted x => some x
  | _ => none

/-- One step of a call, or a new call. -/
def step (s : State) : Event → Option State
  | .call tenantSlug => some { s with calls := s.calls ++ [⟨tenantSlug, .called⟩] }
  | .consume i now =>
    match s.calls[i]? with
    | some ⟨slug, .called⟩ =>
      let r := s.tracker.consume py slug now
      let phase := match r.2 with
        | .ok _ => .accepted
        | .error x => .triggered (.quotaExhausted x)
      some { s with tracker := r.1, calls := s.calls.set i ⟨slug, phase⟩ }
    | _ => none
  | .tick i nowMono nowWall =>
    match s.calls[i]? with
    | some ⟨slug, .accepted⟩ =>
      let r := tick countThreshold timeThresholdSeconds (s.windowState slug) nowMono nowWall
      let s := { s with windowState := Function.update s.windowState slug (some r.1) }
      match r.2 with
      | some t => some { s with calls := s.calls.set i ⟨slug, .triggered t⟩ }
      | none => some { s with calls := s.calls.eraseIdx i, outcomes := s.outcomes ++ [(slug, none)] }
    | _ => none
  | .flush i nowMono nowWall =>
    match s.calls[i]? with
    | some ⟨slug, .triggered t⟩ => some { s with
        windowState := Function.update s.windowState slug (some ⟨0, nowMono, nowWall⟩)
        calls := s.calls.set i
          ⟨slug, .emitting t (quotaConsumed s.tracker (s.windowState slug) slug t nowWall)⟩ }
    | _ => none
  | .emit i raised =>
    match s.calls[i]? with
    | some ⟨slug, .emitting t payload⟩ =>
      let s := { s with calls := s.calls.eraseIdx i }
      match raised with
      | some x => some { s with outcomes := s.outcomes ++ [(slug, some x)] }
      | none => some { s with
          emitted := s.emitted ++ [payload]
          outcomes := s.outcomes ++ [(slug, t.outcome)] }
    | _ => none

end

/-- A tracker that has seen no call. -/
def State.start (capacity : ℤ) (windowSeconds : ℚ) : State where
  tracker := ⟨capacity, windowSeconds, fun _ => none⟩
  windowState := fun _ => none
  emitted := []
  calls := []
  outcomes := []

/-! ### What is counted where -/

namespace State
variable (s : State) (slug : String)

/-- The units in the entries of a tenant. -/
def emittedUnits : ℤ := ((s.emitted.filter fun p => p.tenantSlug = slug).map (·.consumptionCount)).sum

/-- The units in the window of a tenant. -/
def pendingUnits : ℤ := ((s.windowState slug).map (·.consumptionCount)).getD 0

/-- The calls of a tenant that returned. -/
def successes : ℤ := (s.outcomes.countP fun o => o.1 = slug && o.2.isNone : ℕ)

end State

/-- The own unit of a call is in a count already, and not in the successes yet. -/
def Trigger.own : Trigger → ℤ
  | .quotaExhausted _ => 0
  | _ => 1

/-- The units that a call under way carries to the emitter, less its own. -/
def Call.carries (slug : String) (c : Call) : ℤ :=
  if c.tenantSlug = slug then
    match c.phase with
    | .triggered t => -t.own
    | .emitting t payload => payload.consumptionCount - t.own
    | _ => 0
  else 0

/-- For each tenant, emitted and pending units make the successes, with the calls under way. -/
def Balanced (s : State) : Prop :=
  ∀ slug, s.emittedUnits slug + s.pendingUnits slug + (s.calls.map (Call.carries slug)).sum =
    s.successes slug

/-- An emit that raises loses the unit of its own call and no other. -/
def LosesOwn (s : State) : Event → Prop
  | .emit i (some _) => ∀ c t payload, s.calls[i]? = some c → c.phase = .emitting t payload →
      payload.consumptionCount = t.own
  | _ => True

/-! ### Conservation -/

/-- The place of an index in a list, for the list with another element there and without it. -/
theorem split_at_index {α : Type} {l : List α} {i : ℕ} {a : α} (h : l[i]? = some a) :
    ∃ before after, l = before ++ a :: after ∧ (∀ b, l.set i b = before ++ b :: after) ∧
      l.eraseIdx i = before ++ after := by
  obtain ⟨hi, rfl⟩ := List.getElem?_eq_some_iff.mp h
  refine ⟨l.take i, l.drop (i + 1), ?_, fun b => ?_, List.eraseIdx_eq_take_drop_succ l i⟩
  · exact (List.take_append_drop i l).symm.trans (by rw [List.drop_eq_getElem_cons hi])
  · rw [List.set_eq_take_append_cons_drop, if_pos hi]

theorem sum_set {α : Type} {l : List α} {i : ℕ} {a : α} (h : l[i]? = some a) (f : α → ℤ) (b : α) :
    ((l.set i b).map f).sum = (l.map f).sum - f a + f b := by
  obtain ⟨before, after, rfl, hset, -⟩ := split_at_index h
  rw [hset]
  simp only [List.map_append, List.map_cons, List.sum_append, List.sum_cons]
  ring

theorem sum_eraseIdx {α : Type} {l : List α} {i : ℕ} {a : α} (h : l[i]? = some a) (f : α → ℤ) :
    ((l.eraseIdx i).map f).sum = (l.map f).sum - f a := by
  obtain ⟨before, after, rfl, -, herase⟩ := split_at_index h
  rw [herase]
  simp only [List.map_append, List.map_cons, List.sum_append, List.sum_cons]
  ring

section
variable {py : Interp} {countThreshold : ℤ} {timeThresholdSeconds : ℚ}

/-- A payload belongs to the tenant of its call. -/
def PayloadsOwned (s : State) : Prop :=
  ∀ c ∈ s.calls, ∀ t payload, c.phase = .emitting t payload → payload.tenantSlug = c.tenantSlug

/-- What is emitted, pending and under way beyond the successes. -/
def State.surplus (s : State) (slug : String) : ℤ :=
  s.emittedUnits slug + s.pendingUnits slug + (s.calls.map (Call.carries slug)).sum - s.successes slug

theorem balanced_iff_surplus {s : State} : Balanced s ↔ ∀ slug, s.surplus slug = 0 := by
  simp only [Balanced, State.surplus, sub_eq_zero]

/-- What a step takes from the surplus of a tenant. -/
def loss (s : State) (slug : String) : Event → ℤ
  | .emit i (some _) =>
    match s.calls[i]? with
    | some ⟨owner, .emitting t payload⟩ => if owner = slug then payload.consumptionCount - t.own else 0
    | _ => 0
  | _ => 0

theorem emittedUnits_append {emitted : List QuotaConsumed} {p : QuotaConsumed} {slug : String} :
    (((emitted ++ [p]).filter fun p => p.tenantSlug = slug).map (·.consumptionCount)).sum =
      ((emitted.filter fun p => p.tenantSlug = slug).map (·.consumptionCount)).sum +
        if p.tenantSlug = slug then p.consumptionCount else 0 := by
  rw [List.filter_append, List.map_append, List.sum_append]
  by_cases h : p.tenantSlug = slug
  · simp [h]
  · simp [h]

theorem successes_append {outcomes : List (String × Option Err)} {o : String × Option Err} {slug : String} :
    ((outcomes ++ [o]).countP fun o => o.1 = slug && o.2.isNone : ℕ) =
      ((outcomes.countP fun o => o.1 = slug && o.2.isNone : ℕ) : ℤ) +
        if o.1 = slug ∧ o.2 = none then 1 else 0 := by
  rw [List.countP_append]
  by_cases h : o.1 = slug ∧ o.2 = none
  · simp [h.1, h.2]
  · simp only [List.countP_singleton, Bool.and_eq_true, decide_eq_true_eq, Option.isNone_iff_eq_none,
      if_neg h, add_zero]

/-- The units of a window once a call of the tenant wrote it. -/
theorem pendingUnits_update {windowState : String → Option QuotaWindowState} {owner slug : String}
    {w : QuotaWindowState} :
    ((Function.update windowState owner (some w) slug).map (·.consumptionCount)).getD 0 =
      if owner = slug then w.consumptionCount else ((windowState slug).map (·.consumptionCount)).getD 0 := by
  by_cases h : owner = slug
  · subst h
    simp
  · simp [Function.update_of_ne (Ne.symm h), h]

/-- A tick adds the unit of its call, and what it triggers is no denial. -/
theorem tick_spec (state : Option QuotaWindowState) (nowMono : ℚ) (nowWall : Fin maxMicros) :
    (tick countThreshold timeThresholdSeconds state nowMono nowWall).1.consumptionCount =
        (state.map (·.consumptionCount)).getD 0 + 1 ∧
      ∀ t, (tick countThreshold timeThresholdSeconds state nowMono nowWall).2 = some t → t.own = 1 := by
  constructor
  · cases state with
    | none => rfl
    | some w => rfl
  · intro t ht
    simp only [tick] at ht
    split at ht
    · obtain rfl := Option.some.inj ht
      rfl
    · split at ht
      · obtain rfl := Option.some.inj ht
        rfl
      · cases ht

/-- A call that emitted its entry is a success when its own unit was counted. -/
theorem own_eq_outcome (t : Trigger) : t.own = if t.outcome = none then 1 else 0 := by
  cases t with
  | countThreshold => rfl
  | timeThreshold => rfl
  | quotaExhausted x => rfl

/-- A step moves units from one place to another, but for what an emit loses. -/
theorem step_surplus {s s' : State} {e : Event} (howned : PayloadsOwned s)
    (hstep : step py countThreshold timeThresholdSeconds s e = some s') (slug : String) :
    s'.surplus slug = s.surplus slug - loss s slug e := by
  cases e with
  | call owner =>
    obtain rfl := Option.some.inj hstep
    simp [State.surplus, State.emittedUnits, State.pendingUnits, State.successes, Call.carries, loss]
  | consume i now =>
    simp only [step] at hstep
    split at hstep
    · rename_i owner hi
      obtain rfl := Option.some.inj hstep
      simp only [State.surplus, State.emittedUnits, State.pendingUnits, State.successes, sum_set hi, loss]
      -- neither a call before its tick nor a denied one counts
      have hnone : Call.carries slug ⟨owner, match (s.tracker.consume py owner now).2 with
          | .ok _ => .accepted
          | .error x => .triggered (.quotaExhausted x)⟩ = 0 := by
        cases (s.tracker.consume py owner now).2 with
        | ok u => exact ite_self 0
        | error x => exact ite_self 0
      have hcalled : Call.carries slug ⟨owner, .called⟩ = 0 := by simp [Call.carries]
      rw [hnone, hcalled]
      ring
    · cases hstep
  | tick i nowMono nowWall =>
    simp only [step] at hstep
    split at hstep
    · rename_i owner hi
      have hcalled : Call.carries slug ⟨owner, .accepted⟩ = 0 := by simp [Call.carries]
      obtain ⟨hcount, hown⟩ := @tick_spec countThreshold timeThresholdSeconds (s.windowState owner) nowMono
        nowWall
      generalize tick countThreshold timeThresholdSeconds (s.windowState owner) nowMono nowWall = r at *
      split at hstep
      · rename_i t ht
        obtain rfl := Option.some.inj hstep
        simp only [State.surplus, State.emittedUnits, State.pendingUnits, State.successes, sum_set hi, loss,
          pendingUnits_update, hcount, Call.carries, hown t ht]
        split
        · rename_i howner
          subst howner
          ring
        · ring
      · obtain rfl := Option.some.inj hstep
        simp only [State.surplus, State.emittedUnits, State.pendingUnits, State.successes, sum_eraseIdx hi,
          loss, hcalled, pendingUnits_update, hcount, successes_append, and_true]
        split
        · rename_i howner
          subst howner
          ring
        · ring
    · cases hstep
  | flush i nowMono nowWall =>
    simp only [step] at hstep
    split at hstep
    · rename_i owner t hi
      obtain rfl := Option.some.inj hstep
      simp only [State.surplus, State.emittedUnits, State.pendingUnits, State.successes, sum_set hi, loss,
        pendingUnits_update, Call.carries, quotaConsumed]
      split
      · rename_i howner
        subst howner
        ring
      · ring
    · cases hstep
  | emit i raised =>
    simp only [step] at hstep
    split at hstep
    · rename_i owner t payload hi
      have hpayload : payload.tenantSlug = owner := howned _ (List.mem_of_getElem? hi) t payload rfl
      cases raised with
      | some x =>
        obtain rfl := Option.some.inj hstep
        simp only [State.surplus, State.emittedUnits, State.pendingUnits, State.successes, sum_eraseIdx hi,
          loss, hi, Call.carries, successes_append, reduceCtorEq, and_false, if_false]
        split
        · ring
        · ring
      | none =>
        obtain rfl := Option.some.inj hstep
        simp only [State.surplus, State.emittedUnits, State.pendingUnits, State.successes, sum_eraseIdx hi,
          loss, Call.carries, successes_append, emittedUnits_append, hpayload, own_eq_outcome]
        by_cases howner : owner = slug
        · simp only [howner, if_true, true_and]
          ring
        · simp only [howner, if_false, false_and]
          ring
    · cases hstep

theorem step_owned {s s' : State} {e : Event} (howned : PayloadsOwned s)
    (hstep : step py countThreshold timeThresholdSeconds s e = some s') : PayloadsOwned s' := by
  have hset : ∀ i slug phase, (∀ t payload, phase = .emitting t payload → payload.tenantSlug = slug) →
      ∀ c ∈ s.calls.set i ⟨slug, phase⟩, ∀ t payload, c.phase = .emitting t payload →
        payload.tenantSlug = c.tenantSlug := by
    intro i slug phase hphase c hc
    rcases List.mem_or_eq_of_mem_set hc with hold | rfl
    · exact howned c hold
    · exact hphase
  have herase : ∀ i, ∀ c ∈ s.calls.eraseIdx i, ∀ t payload, c.phase = .emitting t payload →
      payload.tenantSlug = c.tenantSlug := fun i c hc => howned c (List.mem_of_mem_eraseIdx hc)
  cases e with
  | call owner =>
    obtain rfl := Option.some.inj hstep
    intro c hc
    rcases List.mem_append.mp hc with hold | hnew
    · exact howned c hold
    · obtain rfl := List.mem_singleton.mp hnew
      exact fun _ _ h => nomatch h
  | consume i now =>
    simp only [step] at hstep
    split at hstep
    · rename_i owner hi
      obtain rfl := Option.some.inj hstep
      refine hset i owner _ fun t payload h => ?_
      cases hr : (s.tracker.consume py owner now).2 with
      | ok u =>
        rw [hr] at h
        cases h
      | error x =>
        rw [hr] at h
        cases h
    · cases hstep
  | tick i nowMono nowWall =>
    simp only [step] at hstep
    split at hstep
    · rename_i owner hi
      split at hstep
      · obtain rfl := Option.some.inj hstep
        exact hset i owner _ fun _ _ h => nomatch h
      · obtain rfl := Option.some.inj hstep
        exact herase i
    · cases hstep
  | flush i nowMono nowWall =>
    simp only [step] at hstep
    split at hstep
    · rename_i owner t hi
      obtain rfl := Option.some.inj hstep
      refine hset i owner _ fun t' payload h => ?_
      obtain ⟨rfl, rfl⟩ := Phase.emitting.inj h
      rfl
    · cases hstep
  | emit i raised =>
    simp only [step] at hstep
    split at hstep
    · cases raised with
      | some x =>
        obtain rfl := Option.some.inj hstep
        exact herase i
      | none =>
        obtain rfl := Option.some.inj hstep
        exact herase i
    · cases hstep

/-- No tenant loses a unit exactly where the emit that raises loses its own call's. -/
theorem loss_eq_zero_iff {s s' : State} {e : Event}
    (hstep : step py countThreshold timeThresholdSeconds s e = some s') :
    (∀ slug, loss s slug e = 0) ↔ LosesOwn s e := by
  cases e with
  | emit i raised =>
    cases raised with
    | none => exact ⟨fun _ => trivial, fun _ _ => rfl⟩
    | some x =>
      simp only [step] at hstep
      split at hstep
      · rename_i owner t payload hi
        simp only [loss, LosesOwn, hi, Option.some.injEq]
        constructor
        · rintro h c t' payload' rfl hphase
          obtain ⟨rfl, rfl⟩ := Phase.emitting.inj hphase
          have hown := h owner
          rw [if_pos rfl] at hown
          exact sub_eq_zero.mp hown
        · intro h slug
          rw [h _ t payload rfl rfl, sub_self, ite_self]
      · cases hstep
  | _ => exact ⟨fun _ => trivial, fun _ _ => rfl⟩

theorem step_balanced_iff {s s' : State} {e : Event} (howned : PayloadsOwned s) (hs : Balanced s)
    (hstep : step py countThreshold timeThresholdSeconds s e = some s') : Balanced s' ↔ LosesOwn s e := by
  rw [← loss_eq_zero_iff hstep, balanced_iff_surplus]
  rw [balanced_iff_surplus] at hs
  refine forall_congr' fun slug => ?_
  rw [step_surplus howned hstep, hs slug, zero_sub, neg_eq_zero]

end

/-- All along a run nothing is lost or counted twice exactly where an emit that raises loses no unit but
    that of its own call; and with no call under way, that is the sum of the entries and the windows. -/
theorem units_conserved_iff (py : Interp) (countThreshold : ℤ) (timeThresholdSeconds : ℚ) (capacity : ℤ)
    (windowSeconds : ℚ) (events : List Event) (s : State)
    (hrun : Run.exec (step py countThreshold timeThresholdSeconds) (State.start capacity windowSeconds)
      events = some s) :
    (Run.Always (step py countThreshold timeThresholdSeconds) Balanced
        (State.start capacity windowSeconds) events ↔
      Run.Guarded (step py countThreshold timeThresholdSeconds) LosesOwn
        (State.start capacity windowSeconds) events) ∧
    ∀ t : State, t.calls = [] → (Balanced t ↔ ∀ slug,
      t.emittedUnits slug + t.pendingUnits slug = t.successes slug) := by
  constructor
  · have hstart : Balanced (State.start capacity windowSeconds) := fun _ => rfl
    have howned : PayloadsOwned (State.start capacity windowSeconds) := fun _ h => nomatch h
    exact Run.always_iff_guarded (I := PayloadsOwned) (fun _ _ _ h hstep => step_owned h hstep)
      (fun _ _ _ h hs hstep => step_balanced_iff h hs hstep) howned hstart hrun
  · intro t ht
    simp only [Balanced, ht, List.map_nil, List.sum_nil, add_zero]

/-! ### An emit that raises -/

def dayStart : Fin maxMicros := ⟨0, maxMicros_pos⟩

/-- Two calls of a tenant, of which the second one emits. -/
def twoCalls (raised : Option Err) : List Event :=
  [.call "acme", .consume 0 0, .tick 0 0 dayStart, .call "acme", .consume 0 0, .tick 0 0 dayStart,
    .flush 0 0 dayStart, .emit 0 raised]

def emitFailed : Err := ⟨"RuntimeError", "ledger is down"⟩

/-- What a run leaves: the calls under way, the units in entries and windows, and the successes. -/
def State.tally (s : State) (slug : String) : ℕ × ℤ × ℤ :=
  (s.calls.length, s.emittedUnits slug + s.pendingUnits slug, s.successes slug)

theorem twoCalls_loses : ∃ s, Run.exec (step .plain 2 300) (State.start 100 86400)
    (twoCalls (some emitFailed)) = some s ∧ s.calls = [] ∧
      s.emittedUnits "acme" + s.pendingUnits "acme" ≠ s.successes "acme" := by
  have htally : (Run.exec (step .plain 2 300) (State.start 100 86400) (twoCalls (some emitFailed))).map
    (·.tally "acme") = some (0, 0, 1) := by decide +kernel
  obtain ⟨s, hs, htally⟩ := Option.map_eq_some_iff.mp htally
  obtain ⟨hcalls, hunits⟩ := Prod.mk.inj htally
  obtain ⟨hunits, hsuccesses⟩ := Prod.mk.inj hunits
  refine ⟨s, hs, List.length_eq_zero_iff.mp hcalls, ?_⟩
  rw [hunits, hsuccesses]
  decide

theorem twoCalls_conserves : ∃ s, Run.exec (step .plain 2 300) (State.start 100 86400) (twoCalls none) =
    some s ∧ Run.Always (step .plain 2 300) Balanced (State.start 100 86400) (twoCalls none) := by
  have hruns : (Run.exec (step .plain 2 300) (State.start 100 86400) (twoCalls none)).isSome = true := by
    decide +kernel
  obtain ⟨s, hs⟩ := Option.isSome_iff_exists.mp hruns
  refine ⟨s, hs, (units_conserved_iff .plain 2 300 100 86400 (twoCalls none) s hs).1.mpr ?_⟩
  refine Run.guarded_of_forall ?_
  simp only [twoCalls, List.forall_mem_cons, LosesOwn, implies_true, true_and]
  exact fun _ h => nomatch h

end Tenancy
