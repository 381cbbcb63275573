import Wormbase.InferenceRouter.Router

/-! When the cache does not show: every response is what the backend of its model answers to its request.

    A run does not depend on the answers, so it is looked at once with each answer standing for the backend that gave
    it and what that backend was asked. -/

namespace InferenceRouter
open Py

/-- The response is what a backend of its model answers to its request. -/
def Honest {τ : Type} (c : CachedRouter) (answer : Backend → Ask → τ) (l : RouteRequest × RouteResponse τ) : Prop :=
  ∃ b, c.model b = l.2.model ∧ l.2.text = answer b l.1.ask

/-- An answer that says where it comes from. -/
abbrev Source : Type := Backend × Ask

/-- The audit row of a call is written, where one is. -/
def Audited (c : CachedRouter) (w : World) : Prop := c.ledger = true → c.companyId ≠ none ∧ w.audited = true

/-- A call that is answered from the cache asks what the entry was given for, and the entry is from a backend of the
    model that the call chooses. -/
def SameAsked (py : Interp) (c : CachedRouter) (s : State Source) : Action → Prop
  | .call r w => Audited c w → ∀ backend, resolveBackend r = some backend → ∀ source,
      s.cache.get (keyOf py c backend r) = some source → c.model source.1 = c.model backend ∧ source.2 = r.ask
  | .invalidateAll => True

def State.start (τ : Type) (caches : Bool) : State τ := ⟨if caches then .sqlite fun _ => none else .null, []⟩

/-! ### Answers stand for themselves -/

section
variable {τ υ : Type} (f : τ → υ)

def Cache.map : Cache τ → Cache υ
  | .null => .null
  | .sqlite rows => .sqlite fun key => (rows key).map f

def RouteResponse.map (response : RouteResponse τ) : RouteResponse υ := { response with text := f response.text }

def State.map (s : State τ) : State υ := ⟨s.cache.map f, s.log.map fun l => (l.1, l.2.map f)⟩

@[simp] theorem Cache.get_map (cache : Cache τ) (key : String) : (cache.map f).get key = (cache.get key).map f := by
  cases cache <;> rfl

@[simp] theorem Cache.put_map (cache : Cache τ) (key : String) (text : τ) :
    (cache.map f).put key (f text) = (cache.put key text).map f := by
  cases cache with
  | null => rfl
  | sqlite rows =>
    refine congrArg Cache.sqlite (funext fun k => ?_)
    rcases eq_or_ne k key with rfl | hne
    · simp
    · simp [hne]

end

variable {py : Interp} {c : CachedRouter} {τ : Type}

theorem emit_map (f : Source → τ) (w : World) (response : RouteResponse Source) :
    emit c w (response.map f) = (emit c w response).map (RouteResponse.map f) := by
  simp only [emit]
  split_ifs <;> rfl

theorem fresh_map (answer : Backend → Ask → τ) (w : World) (cache : Cache Source) (r : RouteRequest) (key : String)
    (served : Backend) (isFallback : Bool) :
    fresh c answer w (cache.map fun p => answer p.1 p.2) r key served isFallback =
      ((fresh c Prod.mk w cache r key served isFallback).1.map (RouteResponse.map fun p => answer p.1 p.2),
        (fresh c Prod.mk w cache r key served isFallback).2.map fun p => answer p.1 p.2) :=
  Prod.ext (emit_map (fun p => answer p.1 p.2) w ⟨(served, r.ask), served.servedBy, isFallback, key, c.model served⟩)
    (@Cache.put_map Source τ (fun p => answer p.1 p.2) cache key (served, r.ask))

theorem call_map (answer : Backend → Ask → τ) (w : World) (cache : Cache Source) (r : RouteRequest) :
    call py c answer w (cache.map fun p => answer p.1 p.2) r =
      ((call py c Prod.mk w cache r).1.map (RouteResponse.map fun p => answer p.1 p.2),
        (call py c Prod.mk w cache r).2.map fun p => answer p.1 p.2) := by
  simp only [call]
  cases resolveBackend r with
  | none => rfl
  | some backend =>
    simp only [Cache.get_map]
    cases cache.get (keyOf py c backend r) with
    | some hit =>
      exact Prod.ext
        (emit_map (fun p => answer p.1 p.2) w ⟨hit, .cache, false, keyOf py c backend r, c.model backend⟩) rfl
    | none =>
      simp only [Option.map_none]
      split_ifs
      · rfl
      · exact fresh_map answer w cache r _ _ _
      · exact fresh_map answer w cache r _ _ _
      · rfl

theorem step_map (answer : Backend → Ask → τ) (s : State Source) (a : Action) :
    (s.map fun p => answer p.1 p.2).step py c answer a =
      (s.step py c Prod.mk a).map (State.map fun p => answer p.1 p.2) := by
  cases a with
  | invalidateAll =>
    cases s with
    | mk cache log => cases cache <;> rfl
  | call r w =>
    simp only [State.step, State.map, call_map]
    cases (call py c Prod.mk w s.cache r).1 with
    | error e => rfl
    | ok response => simp [Except.map, State.map]

theorem step_total (py : Interp) (c : CachedRouter) (answer : Backend → Ask → τ) (s : State τ) (a : Action) :
    ∃ s', s.step py c answer a = some s' := by
  cases a with
  | invalidateAll => exact ⟨_, rfl⟩
  | call r w =>
    simp only [State.step]
    split
    · exact ⟨_, rfl⟩
    · exact ⟨_, rfl⟩

theorem run_map (answer : Backend → Ask → τ) (caches : Bool) (actions : List Action) :
    Run.exec (State.step py c answer) (.start τ caches) actions =
      (Run.exec (State.step py c Prod.mk) (.start Source caches) actions).map (State.map fun p => answer p.1 p.2) := by
  have hstart : State.start τ caches = (State.start Source caches).map fun p => answer p.1 p.2 := by
    cases caches <;> rfl
  rw [hstart]
  exact Run.exec_map (step_map answer) actions _

/-! ### What is answered -/

/-- The response comes from a backend of its model, asked what the request asks. -/
def Matches (c : CachedRouter) (l : RouteRequest × RouteResponse Source) : Prop :=
  c.model l.2.text.1 = l.2.model ∧ l.2.text.2 = l.1.ask

/-- A response is honest, whatever the backends answer, exactly if it comes from the right backend for the right
    question. -/
theorem honest_iff {l : RouteRequest × RouteResponse Source} :
    (∀ answer : Backend → Ask → String, Honest c answer (l.1, l.2.map fun p => answer p.1 p.2)) ↔ Matches c l := by
  constructor
  · intro hall
    obtain ⟨b, hmodel, htext⟩ := hall fun b ask => if (b, ask) = l.2.text then "this" else "other"
    have hsource : (b, l.1.ask) = l.2.text := by
      by_contra hne
      simp [RouteResponse.map, hne] at htext
    rw [Matches, ← hsource]
    exact ⟨hmodel, rfl⟩
  · rintro ⟨hmodel, hask⟩ answer
    exact ⟨l.2.text.1, hmodel, by rw [← hask]; rfl⟩

theorem emit_ok_iff {w : World} {response response' : RouteResponse τ} :
    emit c w response = .ok response' ↔ Audited c w ∧ response' = response := by
  have hok : (Except.ok response : Except Err (RouteResponse τ)) = .ok response' ↔ response' = response := by
    rw [Except.ok.injEq]
    exact eq_comm
  unfold emit Audited
  cases c.ledger with
  | false => simpa using hok
  | true =>
    simp only [Bool.not_true, Bool.false_eq_true, if_false]
    split_ifs with hcompany haudited
    · simp [hcompany]
    · simpa [hcompany, haudited] using hok
    · simp [haudited]

/-- A call that is answered fresh is answered by the backend it names. -/
theorem fresh_matches {w : World} {cache : Cache Source} {r : RouteRequest} {key : String} {served : Backend}
    {isFallback : Bool} {response : RouteResponse Source}
    (h : (fresh c Prod.mk w cache r key served isFallback).1 = .ok response) : Matches c (r, response) := by
  obtain ⟨-, rfl⟩ := emit_ok_iff.mp h
  exact ⟨rfl, rfl⟩

/-- A call that returns gives the right answer exactly if it may use its cache entry. -/
theorem call_matches_iff {s : State Source} {r : RouteRequest} {w : World} :
    (∀ response, (call py c Prod.mk w s.cache r).1 = .ok response → Matches c (r, response)) ↔
      SameAsked py c s (.call r w) := by
  rw [SameAsked]
  cases hbackend : resolveBackend r with
  | none => simp [call, hbackend]
  | some backend =>
    simp only [Option.some.injEq, forall_eq']
    cases hentry : s.cache.get (keyOf py c backend r) with
    | some source =>
      simp only [call, hbackend, hentry, emit_ok_iff, Option.some.injEq, forall_eq']
      constructor
      · intro hall haudited
        exact hall _ ⟨haudited, rfl⟩
      · rintro hsame response ⟨haudited, rfl⟩
        exact hsame haudited
    | none =>
      refine iff_of_true ?_ (by simp)
      intro response h
      simp only [call, hbackend, hentry] at h
      split_ifs at h
      · exact fresh_matches h
      · exact fresh_matches h

theorem step_matches_iff {s s' : State Source} {a : Action} (hstep : s.step py c Prod.mk a = some s') :
    (∀ l ∈ s'.log, Matches c l) ↔ (∀ l ∈ s.log, Matches c l) ∧ SameAsked py c s a := by
  cases a with
  | invalidateAll =>
    cases hstep
    exact (and_iff_left trivial).symm
  | call r w =>
    rw [← call_matches_iff]
    simp only [State.step] at hstep
    split at hstep
    · rename_i response hresponse
      cases hstep
      rw [List.forall_mem_append]
      simp only [hresponse, Except.ok.injEq, forall_eq', List.forall_mem_singleton]
    · rename_i e herror
      cases hstep
      simp [herror]

/-- Whatever the backends answer, every response of a run is what the backend of its model answers to its request,
    exactly if each answer from the cache was given by such a backend for the same messages, temperature and
    `max_tokens`. -/
theorem cache_transparent_iff (py : Interp) (c : CachedRouter) (caches : Bool) (actions : List Action) :
    (∀ answer : Backend → Ask → String, ∀ s', Run.exec (State.step py c answer) (.start String caches) actions = some s' →
        ∀ l ∈ s'.log, Honest c answer l) ↔
      Run.Guarded (State.step py c Prod.mk) (SameAsked py c) (.start Source caches) actions := by
  obtain ⟨t, ht⟩ := Run.exec_total (step_total py c Prod.mk) actions (.start Source caches)
  have hstart : ∀ l ∈ (State.start Source caches).log, Matches c l := fun l hl => absurd hl List.not_mem_nil
  have hguarded : (∀ l ∈ t.log, Matches c l) ↔ _ ∧ Run.Guarded _ (SameAsked py c) _ actions :=
    Run.exec_iff_guarded (fun _ _ _ (_ : True) _ => trivial) (fun _ _ _ _ => step_matches_iff) trivial ht
  rw [← (hguarded.trans (and_iff_right hstart))]
  simp only [run_map, ht, Option.map_some, Option.some.injEq, forall_eq', State.map, List.forall_mem_map, ← honest_iff]
  exact ⟨fun hall l hl answer => hall answer l hl, fun hall answer l hl => hall l hl answer⟩

/-! ### An answer under another name -/

def question : RouteRequest := { callType := .reasoning, messages := [("user", "hi")] }

def twoModels : CachedRouter where
  model := fun
    | .kimi => "k"
    | .gemma => "g"
  ledger := false
  companyId := none
  cacheOnly := false

def letters : Backend → Ask → String
  | .kimi, _ => "K"
  | .gemma, _ => "G"

/-- Kimi fails and Gemma answers; asked again, the router gives Gemma's answer as Kimi's. -/
theorem fallback_answer_renamed : ¬ ∀ actions s',
    Run.exec (State.step .plain twoModels letters) (.start String true) actions = some s' →
      ∀ l ∈ s'.log, Honest twoModels letters l := by
  intro hall
  let key := keyOf .plain twoModels .kimi question
  have hrun : Run.exec (State.step .plain twoModels letters) (.start String true)
      [.call question ⟨(· = .kimi), true⟩, .call question ⟨fun _ => false, true⟩] =
      some ⟨.sqlite (Function.update (fun _ => none) key (some "G")), [(question, ⟨"G", .gemma, true, key, "g"⟩),
        (question, ⟨"G", .cache, false, key, "k"⟩)]⟩ := by
    simp [Run.exec, State.step, State.start, call, fresh, emit, resolveBackend, defaultBackend, question, twoModels,
      Cache.get, Cache.put, letters, Backend.other, Backend.servedBy, key]
  obtain ⟨b, hmodel, htext⟩ := hall _ _ hrun (question, ⟨"G", .cache, false, key, "k"⟩) (by simp)
  cases b with
  | kimi => exact absurd htext (by decide)
  | gemma => exact absurd hmodel (by decide)

end InferenceRouter
