import Wormbase.Lib.SlidingWindow
import Wormbase.Tenancy.Quota

/-! `InMemoryRateLimiter` beside `InMemoryQuotaTracker`: both keep a pruned deque of times for each tenant.

    A limit of zero is taken for no limit given, and the default of the environment is used in its place. -/

namespace Tenancy
open Py Sliding

/-! ### The two limiters -/

/-- The `resolve_default_*` functions: what an environment variable says, at least 1. -/
def resolveDefault (default : ℤ) (raw : String) : ℤ :=
  if stripText raw = "" then default
  else match intOfText 10 (stripText raw).toList with
    | none => default
    | some value => max 1 value

def resolveDefaultRateLimitPerMin : String → ℤ := resolveDefault 100

def resolveDefaultQuotaPerDay : String → ℤ := resolveDefault 100000

/-- `given or default` of an optional integer. -/
def orDefault (given : Option ℤ) (default : ℤ) : ℤ :=
  match given with
  | none => default
  | some capacity => if capacity = 0 then default else capacity

/-- The limit of a caller that gives one, and the default where none is given. -/
def limitOf (given : Option ℤ) (default : ℤ) : ℤ := given.getD default

structure InMemoryRateLimiter where
  capacity : ℤ
  windowSeconds : ℚ
  buckets : String → Option TokenBucket

/-- `f"{x:.0f}"`. -/
def fixed0 (x : ℚ) : String :=
  String.ofList ((if x < 0 then ['-'] else []) ++ PyFloat.digits (PyFloat.roundHalfEven |x|).toNat)

namespace InMemoryRateLimiter

def init (capacityPerMin : Option ℤ) (windowSeconds : ℚ) (env : String) : InMemoryRateLimiter where
  capacity := orDefault capacityPerMin (resolveDefaultRateLimitPerMin env)
  windowSeconds
  buckets := fun _ => none

def limited (py : Interp) (tenantSlug : String) (b : TokenBucket) : Err where
  cls := "TenantRateLimitedError"
  msg := "tenant " ++ String.ofList (reprStr py tenantSlug) ++ ": rate limit exceeded (" ++
    String.ofList (intText b.capacity) ++ " req / " ++ fixed0 b.windowSeconds ++ "s)"

/-- `InMemoryRateLimiter.check`. -/
def check (py : Interp) (t : InMemoryRateLimiter) (tenantSlug : String) (now : ℚ) :
    InMemoryRateLimiter × Except Err Unit :=
  let b := ((t.buckets tenantSlug).getD ⟨t.capacity, t.windowSeconds, []⟩).consume now
  ({ t with buckets := Function.update t.buckets tenantSlug (some b.1) },
    if b.2 then .ok () else .error (limited py tenantSlug b.1))

/-- The calls that a fresh limiter lets through. -/
def accepted (py : Interp) (t : InMemoryRateLimiter) : List (String × ℚ) → List (String × ℚ) :=
  Sliding.accepted (fun t slug now => ((t.check py slug now).1, (t.check py slug now).2.isOk)) t

end InMemoryRateLimiter

namespace InMemoryQuotaTracker

def init (capacityPerDay : Option ℤ) (windowSeconds : ℚ) (env : String) : InMemoryQuotaTracker where
  capacity := orDefault capacityPerDay (resolveDefaultQuotaPerDay env)
  windowSeconds
  buckets := fun _ => none

/-- The calls that a fresh tracker lets through. -/
def accepted (py : Interp) (t : InMemoryQuotaTracker) : List (String × ℚ) → List (String × ℚ) :=
  Sliding.accepted (fun t slug now => ((t.consume py slug now).1, (t.consume py slug now).2.isOk)) t

end InMemoryQuotaTracker

/-- What a limiter promises: a call is accepted exactly when fewer than the limit of its tenant's calls were accepted
    in the window that ends with it, rejected calls consume nothing, and tenants do not affect one another. -/
structure Limits (window : ℚ) (limit : ℤ) (accepted : List (String × ℚ) → List (String × ℚ)) : Prop where
  exact : Exact (· - window) limit accepted
  rejected : ∀ calls, Nondecreasing calls → accepted (accepted calls) = accepted calls
  alone : ∀ slug calls, Nondecreasing calls →
    (accepted calls).filter (fun c => c.1 = slug) = accepted (calls.filter fun c => c.1 = slug)

/-! ### Buckets as deques -/

section
variable {window : ℚ} {capacity limit default : ℤ} {accepted : List (String × ℚ) → List (String × ℚ)}

theorem Limits.of_exact (h : Exact (· - window) limit accepted) : Limits window limit accepted :=
  ⟨h, h.rejected, h.alone⟩

theorem consume_eq (times : List ℚ) (now : ℚ) : (⟨capacity, window, times⟩ : TokenBucket).consume now =
    (⟨capacity, window, (take (· - window) capacity times now).1⟩, (take (· - window) capacity times now).2) := by
  by_cases hfull : capacity ≤ (times.dropWhile fun t => t < now - window).length
  · have htake : take (· - window) capacity times now = (times.dropWhile fun t => t < now - window, false) :=
      if_pos hfull
    rw [htake]
    exact if_pos hfull
  · have htake : take (· - window) capacity times now =
        ((times.dropWhile fun t => t < now - window) ++ [now], true) := if_neg hfull
    rw [htake]
    exact if_neg hfull

/-- Each tenant's bucket is the deque of that tenant. -/
def Deques (capacity : ℤ) (window : ℚ) (buckets : String → Option TokenBucket) (times : String → List ℚ) : Prop :=
  ∀ slug, (buckets slug).getD ⟨capacity, window, []⟩ = ⟨capacity, window, times slug⟩

/-- One call, on the buckets and on the deques. -/
theorem Deques.call {buckets : String → Option TokenBucket} {times : String → List ℚ}
    (h : Deques capacity window buckets times) (slug : String) (now : ℚ) :
    (((buckets slug).getD ⟨capacity, window, []⟩).consume now).2 =
      (Sliding.step (· - window) capacity times slug now).2 ∧
    Deques capacity window
      (Function.update buckets slug (some (((buckets slug).getD ⟨capacity, window, []⟩).consume now).1))
      (Sliding.step (· - window) capacity times slug now).1 := by
  rw [h slug, consume_eq]
  refine ⟨rfl, fun slug' => ?_⟩
  by_cases heq : slug' = slug
  · subst heq
    simp only [Sliding.step, Function.update_self]
    rfl
  · simp only [Sliding.step, Function.update_of_ne heq]
    exact h slug'

theorem isOk_ite (b : Bool) (x : Err) : (if b then .ok () else .error x : Except Err Unit).isOk = b := by
  cases b <;> rfl

theorem exact_rateLimiter (py : Interp) (capacity : ℤ) (window : ℚ) :
    Exact (· - window) capacity (InMemoryRateLimiter.accepted py ⟨capacity, window, fun _ => none⟩) := by
  have hstep : ∀ (t : InMemoryRateLimiter) (times : String → List ℚ) (slug : String) (now : ℚ),
      (t.capacity = capacity ∧ t.windowSeconds = window ∧ Deques capacity window t.buckets times) →
      (t.check py slug now).2.isOk = (Sliding.step (· - window) capacity times slug now).2 ∧
      (t.check py slug now).1.capacity = capacity ∧ (t.check py slug now).1.windowSeconds = window ∧
      Deques capacity window (t.check py slug now).1.buckets
        (Sliding.step (· - window) capacity times slug now).1 := by
    rintro t times slug now ⟨hcapacity, hwindow, hdeques⟩
    obtain ⟨hanswer, hnext⟩ := hdeques.call slug now
    simp only [InMemoryRateLimiter.check, isOk_ite, hcapacity, hwindow, hanswer]
    exact ⟨trivial, trivial, trivial, hnext⟩
  have hdeque : InMemoryRateLimiter.accepted py ⟨capacity, window, fun _ => none⟩ =
      Sliding.accepted (Sliding.step (· - window) capacity) fun _ => [] :=
    funext fun calls => accepted_congr hstep calls ⟨rfl, rfl, fun _ => rfl⟩
  rw [hdeque]
  exact exact_step (fun _ _ h => sub_le_sub_right h window) capacity

theorem exact_quotaTracker (py : Interp) (capacity : ℤ) (window : ℚ) :
    Exact (· - window) capacity (InMemoryQuotaTracker.accepted py ⟨capacity, window, fun _ => none⟩) := by
  have hstep : ∀ (t : InMemoryQuotaTracker) (times : String → List ℚ) (slug : String) (now : ℚ),
      (t.capacity = capacity ∧ t.windowSeconds = window ∧ Deques capacity window t.buckets times) →
      (t.consume py slug now).2.isOk = (Sliding.step (· - window) capacity times slug now).2 ∧
      (t.consume py slug now).1.capacity = capacity ∧ (t.consume py slug now).1.windowSeconds = window ∧
      Deques capacity window (t.consume py slug now).1.buckets
        (Sliding.step (· - window) capacity times slug now).1 := by
    rintro t times slug now ⟨hcapacity, hwindow, hdeques⟩
    obtain ⟨hanswer, hnext⟩ := hdeques.call slug now
    simp only [InMemoryQuotaTracker.consume, InMemoryQuotaTracker.bucket, isOk_ite, hcapacity, hwindow, hanswer]
    exact ⟨trivial, trivial, trivial, hnext⟩
  have hdeque : InMemoryQuotaTracker.accepted py ⟨capacity, window, fun _ => none⟩ =
      Sliding.accepted (Sliding.step (· - window) capacity) fun _ => [] :=
    funext fun calls => accepted_congr hstep calls ⟨rfl, rfl, fun _ => rfl⟩
  rw [hdeque]
  exact exact_step (fun _ _ h => sub_le_sub_right h window) capacity

/-! ### The limit that is given -/

theorem one_le_resolveDefault {default : ℤ} (h : 1 ≤ default) (raw : String) : 1 ≤ resolveDefault default raw := by
  rw [resolveDefault]
  split
  · exact h
  · split
    · exact h
    · exact le_max_left ..

theorem orDefault_eq {given : Option ℤ} (h : given ≠ some 0) (default : ℤ) :
    orDefault given default = limitOf given default := by
  cases given with
  | none => rfl
  | some capacity => exact if_neg fun hzero => h (congrArg some hzero)

/-- A limiter with room for a first call does not keep a limit of zero. -/
theorem not_exact_zero (hexact : Exact (· - window) capacity accepted) (hroom : 1 ≤ capacity) :
    ¬Exact (· - window) 0 accepted := by
  intro hzero
  have hclock : Nondecreasing ([] ++ [("", (0 : ℚ))]) := List.pairwise_singleton ..
  have hyes := hexact.snoc [] ("", 0) hclock
  have hno := hzero.snoc [] ("", 0) hclock
  have hcount : inWindow (· - window) ([] : List (String × ℚ)) "" 0 = 0 := rfl
  rw [hexact.nil, if_pos (by rw [hcount]; exact hroom)] at hyes
  rw [hexact.nil, if_neg (by rw [hcount]; exact lt_irrefl 0), hyes] at hno
  cases hno

theorem limits_iff {given : Option ℤ} (hdefault : 1 ≤ default)
    (hexact : Exact (· - window) (orDefault given default) accepted) :
    Limits window (limitOf given default) accepted ↔ given ≠ some 0 := by
  constructor
  · rintro h rfl
    exact not_exact_zero hexact hdefault h.exact
  · intro hgiven
    rw [orDefault_eq hgiven] at hexact
    exact .of_exact hexact

/-- Both keep the limit that they are given, or the default, exactly when none is given a zero. -/
theorem limits_kept_iff (py : Interp) (capacityPerMin capacityPerDay : Option ℤ) (rateWindow quotaWindow : ℚ)
    (rateEnv quotaEnv : String) :
    (Limits rateWindow (limitOf capacityPerMin (resolveDefaultRateLimitPerMin rateEnv))
        ((InMemoryRateLimiter.init capacityPerMin rateWindow rateEnv).accepted py) ∧
      Limits quotaWindow (limitOf capacityPerDay (resolveDefaultQuotaPerDay quotaEnv))
        ((InMemoryQuotaTracker.init capacityPerDay quotaWindow quotaEnv).accepted py)) ↔
      capacityPerMin ≠ some 0 ∧ capacityPerDay ≠ some 0 :=
  and_congr (limits_iff (one_le_resolveDefault (by decide) rateEnv) (exact_rateLimiter py _ rateWindow))
    (limits_iff (one_le_resolveDefault (by decide) quotaEnv) (exact_quotaTracker py _ quotaWindow))

/-- A limiter that is given a limit of zero accepts calls. -/
theorem zero_limit_accepts : ¬∀ (py : Interp) (capacityPerMin : Option ℤ) (window : ℚ) (env : String),
    Limits window (limitOf capacityPerMin (resolveDefaultRateLimitPerMin env))
      ((InMemoryRateLimiter.init capacityPerMin window env).accepted py) := by
  intro h
  exact not_exact_zero (exact_rateLimiter .plain _ 60) (one_le_resolveDefault (by decide) "")
    (h .plain (some 0) 60 "").exact

end
end Tenancy
