import Mathlib.Algebra.Order.Ring.Rat
import Mathlib.Algebra.Order.Field.Rat
import Mathlib.Data.Finset.Card
import Mathlib.Data.Finset.Dedup
import Mathlib.Tactic.Positivity
import Wormbase.Lib.Run
import Wormbase.Lib.TokenBucket
import Wormbase.Py.Coerce

/-! `TokenBucketRateLimiter`: one bucket for each key, the least recently used ones evicted.

    Calls run side by side; each of their steps between two awaits is one event. Tokens and clock
    readings are exact rationals. -/

namespace ChannelAdapters
open Py

/-! ### Buckets -/

/-- `rate_per_min`, as the constructor lets it through. -/
structure RatePerMin where
  val : ℤ
  pos : 0 < val

def RatePerMin.ofInt (ratePerMin : ℤ) : Except Err RatePerMin :=
  if h : 0 < ratePerMin then .ok ⟨ratePerMin, h⟩
  else .error ⟨"ValueError", "rate_per_min must be > 0"⟩

def RatePerMin.capacity (r : RatePerMin) : ℚ := r.val

def RatePerMin.refillPerS (r : RatePerMin) : ℚ := r.val / 60

structure Bucket where
  capacity : ℚ
  refillRatePerS : ℚ
  tokens : ℚ
  lastRefillAt : ℚ

/-- `_refill`, the clock at `now`. -/
def Bucket.refill (b : Bucket) (now : ℚ) : Bucket :=
  let elapsed := now - b.lastRefillAt
  if 0 < elapsed then
    { b with tokens := min b.capacity (b.tokens + elapsed * b.refillRatePerS), lastRefillAt := now }
  else b

/-- The locked part of an acquire: refill, and take a token if there is one. -/
def Bucket.tryTake (b : Bucket) (now : ℚ) : Bucket × Bool :=
  let b := b.refill now
  if 1 ≤ b.tokens then ({ b with tokens := b.tokens - 1 }, true) else (b, false)

/-- A new bucket starts full. -/
def Bucket.full (r : RatePerMin) (now : ℚ) : Bucket := ⟨r.capacity, r.refillPerS, r.capacity, now⟩

/-- `_BUCKET_REGISTRY_MAX`. -/
def bucketRegistryMax : ℕ := 4096

/-- The registry, the least recently used key first, and every bucket that was made, with the key it
    was made for: calls that wait hold on to their bucket when it is evicted. -/
structure Limiter where
  rate : RatePerMin
  buckets : List (String × ℕ)
  heap : List (String × Bucket)

namespace Limiter

/-- `popitem(last=False)` while there are more than the registry may hold. -/
def evict : List (String × ℕ) → List (String × ℕ)
  | [] => []
  | e :: buckets =>
    if bucketRegistryMax < (e :: buckets).length then evict buckets else e :: buckets

/-- `_get_or_create_bucket`: the bucket's place in the heap. -/
def getOrCreateBucket (l : Limiter) (key : String) (now : ℚ) : Limiter × ℕ :=
  match l.buckets.lookup key with
  | some ref => ({ l with buckets := l.buckets.filter (·.1 ≠ key) ++ [(key, ref)] }, ref)
  | none =>
    let ref := l.heap.length
    ({ l with
        heap := l.heap ++ [(key, .full l.rate now)]
        buckets := evict (l.buckets ++ [(key, ref)]) }, ref)

end Limiter

/-! ### Calls -/

/-- Where a call stands. -/
inductive Phase where
  | ready
  | denied
  | accepted
  | refused
  | timedOut
  | cancelled
  deriving DecidableEq

/-- `acquire` blocks, maybe up to a deadline, `try_acquire` does not. -/
structure Call where
  key : String
  ref : ℕ
  blocking : Bool
  deadline : Option ℚ
  phase : Phase

/-- A token that a call got. -/
structure Accept where
  key : String
  ref : ℕ
  time : ℚ

/-- The limiter, the last clock reading, the calls so far and the tokens they got. -/
structure State where
  limiter : Limiter
  clock : ℚ
  calls : List Call
  accepts : List Accept

inductive Event where
  | acquire (key : String) (maxWaitS : Option ℚ) (now now' : ℚ)
  | tryAcquire (key : String) (now : ℚ)
  | attempt (i : ℕ) (now : ℚ)
  | pause (i : ℕ) (now : ℚ)
  | cancel (i : ℕ)

/-- A call comes in and gets its bucket. -/
def State.enter (s : State) (key : String) (blocking : Bool) (deadline : Option ℚ) (now : ℚ) : State :=
  let r := s.limiter.getOrCreateBucket key now
  { s with limiter := r.1, clock := now, calls := s.calls ++ [⟨key, r.2, blocking, deadline, .ready⟩] }

/-- A call tries its bucket. -/
def State.try (s : State) (i : ℕ) (c : Call) (b : Bucket) (now : ℚ) : State :=
  let r := b.tryTake now
  let phase := if r.2 then Phase.accepted else if c.blocking then .denied else .refused
  { limiter := { s.limiter with heap := s.limiter.heap.set c.ref (c.key, r.1) }
    clock := now
    calls := s.calls.set i { c with phase }
    accepts := if r.2 then s.accepts ++ [⟨c.key, c.ref, now⟩] else s.accepts }

/-- One step of a call. The clock does not go back. How long a call sleeps before it tries again is
    left open. -/
def step (s : State) : Event → Option State
  | .acquire key maxWaitS now now' =>
    if now < s.clock ∨ now' < now then none
    else some { s.enter key true (maxWaitS.map (now' + ·)) now with clock := now' }
  | .tryAcquire key now =>
    if now < s.clock then none else some (s.enter key false none now)
  | .attempt i now =>
    if now < s.clock then none
    else match s.calls[i]? with
      | some c =>
        match c.phase, s.limiter.heap[c.ref]? with
        | .ready, some (_, b) => some (s.try i c b now)
        | _, _ => none
      | none => none
  | .pause i now =>
    if now < s.clock then none
    else match s.calls[i]? with
      | some c =>
        match c.phase with
        | .denied =>
          -- past the deadline the call raises `RateLimitTimeoutError`, else it sleeps
          let phase := if c.deadline.any (· - now ≤ 0) then Phase.timedOut else .ready
          some { s with clock := now, calls := s.calls.set i { c with phase } }
        | _ => none
      | none => none
  | .cancel i =>
    match s.calls[i]? with
    | some c =>
      match c.phase with
      | .ready | .denied => some { s with calls := s.calls.set i { c with phase := .cancelled } }
      | _ => none
    | none => none

/-- A limiter that no call came to. -/
def State.start (rate : RatePerMin) (clock : ℚ) : State := ⟨⟨rate, [], []⟩, clock, [], []⟩

/-! ### What is counted -/

/-- How many tokens calls of a key got within an interval. -/
def State.acceptedWithin (s : State) (key : String) (a b : ℚ) : ℕ :=
  s.accepts.countP fun x => x.key = key ∧ a ≤ x.time ∧ x.time ≤ b

/-- How many buckets were made for a key. -/
def State.bucketsMade (s : State) (key : String) : ℕ := s.limiter.heap.countP (·.1 = key)

/-- The keys of the calls of a run. -/
def keysOf (es : List Event) : Finset String :=
  (es.filterMap fun
    | .acquire key _ _ _ | .tryAcquire key _ => some key
    | _ => none).toFinset

/-! ### Refill and take -/

def Bucket.level (b : Bucket) : TokenBucket.Level ℚ := ⟨b.tokens, b.lastRefillAt⟩

theorem refill_level (b : Bucket) (now : ℚ) :
    (b.refill now).level = b.level.refill b.capacity b.refillRatePerS now := by
  by_cases h : b.lastRefillAt < now
  · simp [Bucket.refill, TokenBucket.Level.refill, Bucket.level, h]
  · simp [Bucket.refill, TokenBucket.Level.refill, Bucket.level, h]

/-- A bucket of a limiter, and when it gave its tokens. -/
structure Bucket.Serves (rate : RatePerMin) (b : Bucket) (times : List ℚ) : Prop where
  capacity : b.capacity = rate.capacity
  refillRatePerS : b.refillRatePerS = rate.refillPerS
  served : TokenBucket.Served rate.capacity rate.refillPerS b.level times

theorem RatePerMin.capacity_nonneg (r : RatePerMin) : 0 ≤ r.capacity := by
  rw [capacity]
  exact_mod_cast r.pos.le

theorem RatePerMin.refillPerS_nonneg (r : RatePerMin) : 0 ≤ r.refillPerS :=
  div_nonneg r.capacity_nonneg (by norm_num)

variable {rate : RatePerMin} {b : Bucket} {times : List ℚ} {now : ℚ}

theorem Bucket.Serves.refill (h : b.Serves rate times) (now : ℚ) :
    (b.refill now).Serves rate times := by
  have hserved := h.served.refill rate.refillPerS_nonneg now
  have hkeep : (b.refill now).capacity = b.capacity ∧
      (b.refill now).refillRatePerS = b.refillRatePerS := by
    simp only [Bucket.refill]
    split
    · exact ⟨rfl, rfl⟩
    · exact ⟨rfl, rfl⟩
  refine ⟨hkeep.1.trans h.capacity, hkeep.2.trans h.refillRatePerS, ?_⟩
  rw [refill_level, h.capacity, h.refillRatePerS]
  exact hserved

theorem refill_last (hlast : b.lastRefillAt ≤ now) : (b.refill now).lastRefillAt = now := by
  simp only [Bucket.refill, sub_pos]
  split
  · rfl
  · rename_i hnot
    exact le_antisymm hlast (not_lt.mp hnot)

/-- What one turn at a bucket does: it takes a token at its time, or none. -/
theorem Bucket.Serves.tryTake (h : b.Serves rate times) (hlast : b.lastRefillAt ≤ now) :
    (b.tryTake now).1.lastRefillAt = now ∧
    (b.tryTake now).1.Serves rate (if (b.tryTake now).2 then times ++ [now] else times) := by
  have hrefill := h.refill now
  have hnow := refill_last hlast
  simp only [Bucket.tryTake]
  split
  · rename_i htoken
    have htake := hrefill.served.take rate.refillPerS_nonneg htoken
    rw [show (b.refill now).level.last = now from hnow] at htake
    exact ⟨hnow, hrefill.capacity, hrefill.refillRatePerS, htake⟩
  · exact ⟨hnow, hrefill⟩

/-! ### The registry -/

/-- Every entry of the registry leads to a bucket made for its key. -/
def Limiter.Linked (l : Limiter) : Prop :=
  ∀ e ∈ l.buckets, ∃ b, l.heap[e.2]? = some (e.1, b)

theorem mem_of_mem_evict {e : String × ℕ} : ∀ {buckets : List (String × ℕ)},
    e ∈ Limiter.evict buckets → e ∈ buckets
  | [], h => h
  | x :: buckets, h => by
    rw [Limiter.evict] at h
    split at h
    · exact List.mem_cons_of_mem x (mem_of_mem_evict h)
    · exact h

/-- The bucket that a call gets was there for its key, or is a full one at the end of the heap. -/
theorem getOrCreate_spec {l : Limiter} (h : l.Linked) (key : String) (now : ℚ) :
    let r := l.getOrCreateBucket key now
    r.1.Linked ∧ r.1.rate = l.rate ∧ (∃ b, r.1.heap[r.2]? = some (key, b)) ∧
    (r.1.heap = l.heap ∨ r.1.heap = l.heap ++ [(key, .full l.rate now)]) := by
  simp only [Limiter.getOrCreateBucket]
  cases hlookup : l.buckets.lookup key with
  | some ref =>
    obtain ⟨pre, post, heq, -⟩ := List.lookup_eq_some_iff.mp hlookup
    have hmem : (key, ref) ∈ l.buckets := by
      rw [heq]
      exact List.mem_append_right _ List.mem_cons_self
    refine ⟨fun e he => ?_, rfl, h _ hmem, .inl rfl⟩
    rcases List.mem_append.mp he with he | he
    · exact h e (List.mem_filter.mp he).1
    · rw [List.mem_singleton.mp he]
      exact h _ hmem
  | none =>
    dsimp only
    refine ⟨fun e he => ?_, rfl, ⟨_, List.getElem?_concat_length⟩, .inr rfl⟩
    dsimp only at he
    rcases List.mem_append.mp (mem_of_mem_evict he) with he | he
    · obtain ⟨b, hb⟩ := h e he
      exact ⟨b, List.getElem?_append_left (List.getElem?_eq_some_iff.mp hb).1 ▸ hb⟩
    · rw [List.mem_singleton.mp he]
      exact ⟨_, List.getElem?_concat_length⟩

/-! ### Runs -/

/-- When a bucket gave its tokens. -/
def State.timesOf (s : State) (ref : ℕ) : List ℚ := (s.accepts.filter (·.ref = ref)).map (·.time)

/-- Calls, registry and tokens lead to buckets of their keys, and each bucket serves as it should. -/
structure State.Inv (s : State) : Prop where
  linked : s.limiter.Linked
  calls : ∀ c ∈ s.calls, ∃ b, s.limiter.heap[c.ref]? = some (c.key, b)
  accepts : ∀ x ∈ s.accepts, ∃ b, s.limiter.heap[x.ref]? = some (x.key, b)
  past : ∀ (ref : ℕ) (key : String) (b : Bucket), s.limiter.heap[ref]? = some (key, b) →
    b.lastRefillAt ≤ s.clock
  serves : ∀ (ref : ℕ) (key : String) (b : Bucket), s.limiter.heap[ref]? = some (key, b) →
    b.Serves s.limiter.rate (s.timesOf ref)

theorem State.Inv.start (rate : RatePerMin) (clock : ℚ) : (State.start rate clock).Inv :=
  ⟨nofun, nofun, nofun, fun _ _ _ h => (nomatch h), fun _ _ _ h => (nomatch h)⟩

/-- Steps that leave the limiter and the tokens alone. -/
theorem State.Inv.quiet {s s' : State} (h : s.Inv) (hlimiter : s'.limiter = s.limiter)
    (hclock : s.clock ≤ s'.clock) (haccepts : s'.accepts = s.accepts)
    (hcalls : ∀ c ∈ s'.calls, ∃ c₀ ∈ s.calls, c.key = c₀.key ∧ c.ref = c₀.ref) : s'.Inv := by
  refine ⟨hlimiter ▸ h.linked, fun c hc => ?_, hlimiter ▸ haccepts ▸ h.accepts,
    fun ref key b hb => (h.past ref key b (hlimiter ▸ hb)).trans hclock, fun ref key b hb => ?_⟩
  · obtain ⟨c₀, hc₀, hkey, href⟩ := hcalls c hc
    rw [hlimiter, hkey, href]
    exact h.calls c₀ hc₀
  · have hserves := h.serves ref key b (hlimiter ▸ hb)
    rw [hlimiter, timesOf, haccepts]
    exact hserves

/-- A call whose phase changes keeps its key and its bucket. -/
theorem mem_set_phase {calls : List Call} {i : ℕ} {c : Call} (hc : calls[i]? = some c) (phase : Phase) :
    ∀ c' ∈ calls.set i { c with phase }, ∃ c₀ ∈ calls, c'.key = c₀.key ∧ c'.ref = c₀.ref := by
  intro c' hc'
  rcases List.mem_or_eq_of_mem_set hc' with hc' | rfl
  · exact ⟨c', hc', rfl, rfl⟩
  · exact ⟨c, List.mem_of_getElem? hc, rfl, rfl⟩

/-- What a heap holds after an entry joined it at its end. -/
theorem getElem?_concat {α : Type} {xs : List α} {x y : α} {i : ℕ}
    (h : (xs ++ [x])[i]? = some y) : xs[i]? = some y ∨ (i = xs.length ∧ y = x) := by
  rcases lt_or_ge i xs.length with hlt | hge
  · rw [List.getElem?_append_left hlt] at h
    exact .inl h
  · rw [List.getElem?_append_right hge] at h
    obtain ⟨hlt, hget⟩ := List.getElem?_eq_some_iff.mp h
    have hi : i = xs.length := by
      simp only [List.length_singleton] at hlt
      omega
    exact .inr ⟨hi, by simpa using hget.symm⟩

theorem State.Inv.enter {s : State} (h : s.Inv) {key : String} {blocking : Bool}
    {deadline : Option ℚ} {now : ℚ} (hnow : s.clock ≤ now) : (s.enter key blocking deadline now).Inv := by
  obtain ⟨hlinked, hrate, hbucket, hheap⟩ := getOrCreate_spec h.linked key now
  have hold : ∀ {ref : ℕ} {e : String × Bucket}, s.limiter.heap[ref]? = some e →
      (s.limiter.getOrCreateBucket key now).1.heap[ref]? = some e := by
    intro ref e he
    rcases hheap with hheap | hheap
    · rw [hheap]
      exact he
    · rw [hheap, List.getElem?_append_left (List.getElem?_eq_some_iff.mp he).1]
      exact he
  have hnew : ∀ {ref : ℕ} {e : String × Bucket},
      (s.limiter.getOrCreateBucket key now).1.heap[ref]? = some e →
      s.limiter.heap[ref]? = some e ∨
        (ref = s.limiter.heap.length ∧ e = (key, .full s.limiter.rate now)) := by
    intro ref e he
    rcases hheap with hheap | hheap
    · exact .inl (hheap ▸ he)
    · exact getElem?_concat (hheap ▸ he)
  refine ⟨hlinked, fun c hc => ?_, fun x hx => ?_, fun ref key' b hb => ?_, fun ref key' b hb => ?_⟩
  · rcases List.mem_append.mp hc with hc | hc
    · obtain ⟨b, hb⟩ := h.calls c hc
      exact ⟨b, hold hb⟩
    · rw [List.mem_singleton.mp hc]
      exact hbucket
  · obtain ⟨b, hb⟩ := h.accepts x hx
    exact ⟨b, hold hb⟩
  · rcases hnew hb with hb | ⟨-, heq⟩
    · exact (h.past ref key' b hb).trans hnow
    · rw [(Prod.mk.inj heq).2]
      exact le_refl now
  · show b.Serves (s.limiter.getOrCreateBucket key now).1.rate (s.timesOf ref)
    rw [hrate]
    rcases hnew hb with hb | ⟨href, heq⟩
    · exact h.serves ref key' b hb
    · -- no token came from a bucket that was not there
      have hnone : s.timesOf ref = [] := by
        rw [timesOf, List.map_eq_nil_iff, List.filter_eq_nil_iff]
        intro x hx hxref
        obtain ⟨b', hb'⟩ := h.accepts x hx
        have hlt := (List.getElem?_eq_some_iff.mp hb').1
        simp only [decide_eq_true_eq] at hxref
        omega
      rw [hnone, (Prod.mk.inj heq).2]
      exact ⟨rfl, rfl, .full s.limiter.rate.capacity_nonneg s.limiter.rate.refillPerS_nonneg now⟩

theorem State.Inv.try {s : State} (h : s.Inv) {i : ℕ} {c : Call} {key : String} {b : Bucket} {now : ℚ}
    (hc : s.calls[i]? = some c) (hb : s.limiter.heap[c.ref]? = some (key, b))
    (hnow : s.clock ≤ now) : (s.try i c b now).Inv := by
  obtain ⟨b₀, hb₀⟩ := h.calls c (List.mem_of_getElem? hc)
  obtain rfl : key = c.key := by
    rw [hb] at hb₀
    exact (Prod.mk.inj (Option.some.inj hb₀)).1
  obtain ⟨hlast, hserves⟩ := (h.serves c.ref c.key b hb).tryTake ((h.past c.ref c.key b hb).trans hnow)
  have hlt := (List.getElem?_eq_some_iff.mp hb).1
  -- the heap holds the same keys at the same places
  have hold : ∀ {ref : ℕ} {key : String}, (∃ b', s.limiter.heap[ref]? = some (key, b')) →
      ∃ b', (s.limiter.heap.set c.ref (c.key, (b.tryTake now).1))[ref]? = some (key, b') := by
    rintro ref key ⟨b', hb'⟩
    by_cases href : c.ref = ref
    · subst href
      rw [hb] at hb'
      rw [← (Prod.mk.inj (Option.some.inj hb')).1, List.getElem?_set_self hlt]
      exact ⟨_, rfl⟩
    · rw [List.getElem?_set_ne href]
      exact ⟨b', hb'⟩
  have htimes : ∀ ref, (s.try i c b now).timesOf ref =
      if ref = c.ref ∧ (b.tryTake now).2 then s.timesOf ref ++ [now] else s.timesOf ref := by
    intro ref
    simp only [State.try, timesOf]
    cases (b.tryTake now).2 with
    | false => simp
    | true =>
      by_cases href : ref = c.ref
      · simp [href]
      · simp [href, Ne.symm href]
  refine ⟨fun e he => hold (h.linked e he), fun c' hc' => ?_, fun x hx => ?_, fun ref key b' hb' => ?_,
    fun ref key b' hb' => ?_⟩
  · obtain ⟨c₀, hc₀, hkey, href⟩ := mem_set_phase hc _ c' hc'
    rw [hkey, href]
    exact hold (h.calls c₀ hc₀)
  · have hx : x ∈ s.accepts ∨ x = ⟨c.key, c.ref, now⟩ := by
      simp only [State.try] at hx
      split at hx
      · simpa using hx
      · exact .inl hx
    rcases hx with hx | rfl
    · exact hold (h.accepts x hx)
    · exact hold ⟨b, hb⟩
  · by_cases href : c.ref = ref
    · subst href
      simp only [State.try, List.getElem?_set_self hlt] at hb'
      rw [← (Prod.mk.inj (Option.some.inj hb')).2, hlast]
      exact le_refl now
    · simp only [State.try, List.getElem?_set_ne href] at hb'
      exact (h.past ref key b' hb').trans hnow
  · rw [htimes]
    by_cases href : c.ref = ref
    · subst href
      simp only [State.try, List.getElem?_set_self hlt] at hb'
      rw [← (Prod.mk.inj (Option.some.inj hb')).2]
      simp only [true_and]
      exact hserves
    · simp only [State.try, List.getElem?_set_ne href] at hb'
      rw [if_neg fun hand => href hand.1.symm]
      exact h.serves ref key b' hb'

/-- What a step does to the limiter, the tokens and the calls: a call comes in, a call tries its
    bucket, or one moves on by itself. -/
theorem step_cases {s s' : State} {e : Event} (h : step s e = some s') :
    (∃ key blocking deadline now now', s.clock ≤ now ∧ now ≤ now' ∧ keysOf [e] = {key} ∧
      s' = { s.enter key blocking deadline now with clock := now' }) ∨
    (∃ i c key b now, s.clock ≤ now ∧ s.calls[i]? = some c ∧ c.phase = .ready ∧
      s.limiter.heap[c.ref]? = some (key, b) ∧ e = .attempt i now ∧ s' = s.try i c b now) ∨
    (∃ i c phase now, s.clock ≤ now ∧ s.calls[i]? = some c ∧ c.phase ≠ .accepted ∧
      phase ≠ .accepted ∧ (∀ j now, e ≠ .attempt j now) ∧ keysOf [e] = ∅ ∧
      s' = { s with clock := now, calls := s.calls.set i { c with phase } }) := by
  cases e with
  | acquire key maxWaitS now now' =>
    simp only [step] at h
    split at h
    · cases h
    · rename_i hnow
      rw [not_or, not_lt, not_lt] at hnow
      exact .inl ⟨key, true, _, now, now', hnow.1, hnow.2, by simp [keysOf], (Option.some.inj h).symm⟩
  | tryAcquire key now =>
    simp only [step] at h
    split at h
    · cases h
    · rename_i hnow
      exact .inl ⟨key, false, none, now, now, not_lt.mp hnow, le_refl now, by simp [keysOf],
        (Option.some.inj h).symm⟩
  | attempt i now =>
    simp only [step] at h
    split at h
    · cases h
    rename_i hnow
    split at h
    · rename_i c hc
      split at h
      · rename_i key b hphase hb
        exact .inr (.inl ⟨i, c, key, b, now, not_lt.mp hnow, hc, hphase, hb, rfl,
          (Option.some.inj h).symm⟩)
      · cases h
    · cases h
  | pause i now =>
    simp only [step] at h
    split at h
    · cases h
    rename_i hnow
    split at h
    · rename_i c hc
      split at h
      · rename_i hphase
        refine .inr (.inr ⟨i, c, _, now, not_lt.mp hnow, hc, by rw [hphase]; decide, ?_, nofun, rfl,
          (Option.some.inj h).symm⟩)
        split
        · decide
        · decide
      · cases h
    · cases h
  | cancel i =>
    simp only [step] at h
    split at h
    · rename_i c hc
      split at h
      · rename_i hphase
        exact .inr (.inr ⟨i, c, _, s.clock, le_refl _, hc, by rw [hphase]; decide, by decide, nofun,
          rfl, (Option.some.inj h).symm⟩)
      · rename_i hphase
        exact .inr (.inr ⟨i, c, _, s.clock, le_refl _, hc, by rw [hphase]; decide, by decide, nofun,
          rfl, (Option.some.inj h).symm⟩)
      · cases h
    · cases h

theorem step_inv {s s' : State} {e : Event} (h : s.Inv) (hstep : step s e = some s') : s'.Inv := by
  rcases step_cases hstep with ⟨key, blocking, deadline, now, now', hnow, hlater, -, rfl⟩ |
    ⟨i, c, key, b, now, hnow, hc, -, hb, -, rfl⟩ | ⟨i, c, phase, now, hnow, hc, -, -, -, -, rfl⟩
  · exact (h.enter hnow).quiet rfl hlater rfl fun c hc => ⟨c, hc, rfl, rfl⟩
  · exact h.try hc hb hnow
  · exact h.quiet rfl hnow rfl (mem_set_phase hc phase)

/-! ### The bound -/

theorem timesOf_within (s : State) (ref : ℕ) (a b : ℚ) : TokenBucket.within a b (s.timesOf ref) =
    s.accepts.countP fun x => x.ref = ref ∧ a ≤ x.time ∧ x.time ≤ b := by
  rw [TokenBucket.within, State.timesOf, List.countP_map, List.countP_filter]
  refine List.countP_congr fun x _ => ?_
  simp [and_comm]

/-- What splits in two counts no more than its two sides. -/
theorem countP_le_add {α : Type} {p q r : α → Bool} : ∀ {xs : List α},
    (∀ x ∈ xs, p x = true → q x = true ∨ r x = true) → xs.countP p ≤ xs.countP q + xs.countP r
  | [], _ => by simp
  | x :: xs, h => by
    have ih := countP_le_add fun y hy => h y (List.mem_cons_of_mem x hy)
    have hx := h x List.mem_cons_self
    simp only [List.countP_cons]
    cases hp : p x <;> cases hq : q x <;> cases hr : r x <;> simp_all <;> omega

/-- Each bucket of a key adds at most what one bucket serves. -/
theorem acceptedBelow_le {s : State} (h : s.Inv) (key : String) {a b : ℚ} (hab : a ≤ b) :
    ∀ n, n ≤ s.limiter.heap.length →
      ((s.accepts.countP fun x => x.key = key ∧ x.ref < n ∧ a ≤ x.time ∧ x.time ≤ b : ℕ) : ℚ) ≤
        ((s.limiter.heap.take n).countP (·.1 = key) : ℕ) *
          (s.limiter.rate.capacity + s.limiter.rate.refillPerS * (b - a))
  | 0, _ => by simp
  | n + 1, hn => by
    have ih := acceptedBelow_le h key hab n (by omega)
    obtain ⟨⟨key', bucket⟩, hget⟩ : ∃ e, s.limiter.heap[n]? = some e :=
      ⟨_, List.getElem?_eq_getElem hn⟩
    have hserves := (h.serves n key' bucket hget).served.within_le a b hab
    rw [timesOf_within] at hserves
    rw [List.take_add_one, hget, Option.toList_some, List.countP_append]
    by_cases hkey : key' = key
    · have hsplit : s.accepts.countP (fun x => x.key = key ∧ x.ref < n + 1 ∧ a ≤ x.time ∧ x.time ≤ b) ≤
          s.accepts.countP (fun x => x.key = key ∧ x.ref < n ∧ a ≤ x.time ∧ x.time ≤ b) +
          s.accepts.countP (fun x => x.ref = n ∧ a ≤ x.time ∧ x.time ≤ b) := by
        refine countP_le_add fun x _ hx => ?_
        simp only [decide_eq_true_eq] at hx ⊢
        rcases Nat.lt_or_ge x.ref n with hlt | hge
        · exact .inl ⟨hx.1, hlt, hx.2.2⟩
        · exact .inr ⟨by omega, hx.2.2⟩
      have hsplit : ((s.accepts.countP fun x => x.key = key ∧ x.ref < n + 1 ∧ a ≤ x.time ∧ x.time ≤ b
          : ℕ) : ℚ) ≤ _ := Nat.cast_le.mpr hsplit
      rw [Nat.cast_add] at hsplit
      simp only [List.countP_singleton, hkey, decide_true, if_true, Nat.cast_add, Nat.cast_one]
      linarith
    · have hsame : s.accepts.countP (fun x => x.key = key ∧ x.ref < n + 1 ∧ a ≤ x.time ∧ x.time ≤ b) =
          s.accepts.countP (fun x => x.key = key ∧ x.ref < n ∧ a ≤ x.time ∧ x.time ≤ b) := by
        refine List.countP_congr fun x hx => ?_
        simp only [decide_eq_true_eq]
        have hne : x.key = key → x.ref ≠ n := by
          rintro rfl rfl
          obtain ⟨b', hb'⟩ := h.accepts x hx
          rw [hget] at hb'
          exact hkey (Prod.mk.inj (Option.some.inj hb')).1
        constructor
        · rintro ⟨hk, hlt, ht⟩
          have := hne hk
          exact ⟨hk, by omega, ht⟩
        · rintro ⟨hk, hlt, ht⟩
          exact ⟨hk, by omega, ht⟩
      rw [hsame]
      simpa [List.countP_singleton, hkey] using ih

/-- The tokens of a key within an interval: at most what each of its buckets serves. -/
theorem acceptedWithin_le {s : State} (h : s.Inv) (key : String) {a b : ℚ} (hab : a ≤ b) :
    (s.acceptedWithin key a b : ℚ) ≤ s.bucketsMade key *
      (s.limiter.rate.capacity + s.limiter.rate.refillPerS * (b - a)) := by
  have hall := acceptedBelow_le h key hab _ (le_refl _)
  rw [List.take_length] at hall
  have hsame : s.acceptedWithin key a b = s.accepts.countP fun x =>
      x.key = key ∧ x.ref < s.limiter.heap.length ∧ a ≤ x.time ∧ x.time ≤ b := by
    refine List.countP_congr fun x hx => ?_
    obtain ⟨b', hb'⟩ := h.accepts x hx
    have hlt := (List.getElem?_eq_some_iff.mp hb').1
    simp [hlt]
  rw [hsame]
  exact hall

/-! ### Few keys -/

/-- Every bucket that was made is still in the registry, under a key of `used`. -/
structure State.AllHeld (used : Finset String) (s : State) : Prop where
  made : (s.limiter.heap.map Prod.fst).Nodup
  held : ∀ key ∈ s.limiter.heap.map Prod.fst, key ∈ s.limiter.buckets.map Prod.fst
  nodup : (s.limiter.buckets.map Prod.fst).Nodup
  known : ∀ key ∈ s.limiter.buckets.map Prod.fst, key ∈ used

theorem evict_of_le : ∀ {buckets : List (String × ℕ)}, buckets.length ≤ bucketRegistryMax →
    Limiter.evict buckets = buckets
  | [], _ => rfl
  | e :: buckets, h => by rw [Limiter.evict, if_neg (not_lt.mpr h)]

variable {used : Finset String}

theorem State.AllHeld.enter {s : State} (h : s.AllHeld used) (hused : used.card ≤ bucketRegistryMax)
    {key : String} (hkey : key ∈ used) (blocking : Bool) (deadline : Option ℚ) (now : ℚ) :
    (s.enter key blocking deadline now).AllHeld used := by
  have hlists : ∃ heap buckets, (s.enter key blocking deadline now).limiter.heap = heap ∧
      (s.enter key blocking deadline now).limiter.buckets = buckets ∧
      (heap.map Prod.fst).Nodup ∧ (buckets.map Prod.fst).Nodup ∧
      (∀ k ∈ heap.map Prod.fst, k ∈ buckets.map Prod.fst) ∧
      ∀ k ∈ buckets.map Prod.fst, k ∈ used := by
    simp only [State.enter, Limiter.getOrCreateBucket]
    cases hlookup : s.limiter.buckets.lookup key with
    | some ref =>
      refine ⟨_, _, rfl, rfl, h.made, ?_, fun k hk => ?_, fun k hk => ?_⟩
      · rw [List.map_append, List.nodup_append]
        refine ⟨(List.filter_sublist.map Prod.fst).nodup h.nodup, List.nodup_singleton _, ?_⟩
        intro k hk k' hk' heq
        obtain ⟨e, he, rfl⟩ := List.mem_map.mp hk
        have hne := (List.mem_filter.mp he).2
        rw [List.map_singleton, List.mem_singleton] at hk'
        simp [heq, hk'] at hne
      · obtain ⟨e, he, rfl⟩ := List.mem_map.mp (h.held k hk)
        by_cases hsame : e.1 = key
        · simp [hsame]
        · exact List.mem_map.mpr ⟨e, List.mem_append_left _ (List.mem_filter.mpr ⟨he, by simpa using hsame⟩),
            rfl⟩
      · obtain ⟨e, he, rfl⟩ := List.mem_map.mp hk
        rcases List.mem_append.mp he with he | he
        · exact h.known _ (List.mem_map_of_mem (List.mem_filter.mp he).1)
        · rw [List.mem_singleton.mp he]
          exact hkey
    | none =>
      have hfresh : key ∉ s.limiter.buckets.map Prod.fst := by
        intro hin
        obtain ⟨e, he, rfl⟩ := List.mem_map.mp hin
        simpa using List.lookup_eq_none_iff.mp hlookup e he
      have hnodup : ((s.limiter.buckets ++ [(key, s.limiter.heap.length)]).map Prod.fst).Nodup := by
        rw [List.map_append, List.map_singleton, ← List.concat_eq_append]
        exact .concat hfresh h.nodup
      have hknown : ∀ k ∈ (s.limiter.buckets ++ [(key, s.limiter.heap.length)]).map Prod.fst,
          k ∈ used := by
        intro k hk
        rw [List.map_append] at hk
        rcases List.mem_append.mp hk with hk | hk
        · exact h.known k hk
        · rw [List.mem_singleton.mp hk]
          exact hkey
      -- the keys of the registry are among the used ones, so nothing is evicted
      have hroom : (s.limiter.buckets ++ [(key, s.limiter.heap.length)]).length ≤ bucketRegistryMax := by
        rw [← List.length_map (f := Prod.fst), ← List.toFinset_card_of_nodup hnodup]
        exact (Finset.card_le_card fun k hk => hknown k (List.mem_toFinset.mp hk)).trans hused
      refine ⟨_, _, rfl, evict_of_le hroom, ?_, hnodup, fun k hk => ?_, hknown⟩
      · rw [List.map_append, List.map_singleton, ← List.concat_eq_append]
        exact .concat (fun hin => hfresh (h.held key hin)) h.made
      · rw [List.map_append] at hk ⊢
        rcases List.mem_append.mp hk with hk | hk
        · exact List.mem_append_left _ (h.held k hk)
        · exact List.mem_append_right _ hk
  obtain ⟨heap, buckets, rfl, rfl, hmade, hnodup, hheld, hknown⟩ := hlists
  exact ⟨hmade, hheld, hnodup, hknown⟩

theorem step_allHeld {s s' : State} {e : Event} (hinv : s.Inv) (h : s.AllHeld used)
    (hused : used.card ≤ bucketRegistryMax) (he : keysOf [e] ⊆ used) (hstep : step s e = some s') :
    s'.AllHeld used := by
  rcases step_cases hstep with ⟨key, blocking, deadline, now, now', -, -, hkey, rfl⟩ |
    ⟨i, c, key, b, now, -, hc, -, hb, -, rfl⟩ | ⟨i, c, phase, now, -, -, -, -, -, -, rfl⟩
  · have henter := h.enter hused (he (hkey ▸ Finset.mem_singleton_self key)) blocking deadline now
    exact ⟨henter.made, henter.held, henter.nodup, henter.known⟩
  · obtain ⟨b₀, hb₀⟩ := hinv.calls c (List.mem_of_getElem? hc)
    have hkeys : (s.limiter.heap.set c.ref (c.key, (b.tryTake now).1)).map Prod.fst =
        s.limiter.heap.map Prod.fst := by
      have hsame : (s.limiter.heap.map Prod.fst)[c.ref]? = some c.key := by
        rw [List.getElem?_map, hb₀]
        rfl
      obtain ⟨hlt, hget⟩ := List.getElem?_eq_some_iff.mp hsame
      rw [List.map_set, ← hget]
      exact List.set_getElem_self hlt
    exact ⟨hkeys ▸ h.made, hkeys ▸ h.held, h.nodup, h.known⟩
  · exact ⟨h.made, h.held, h.nodup, h.known⟩

theorem bucketsMade_le_one {s : State} (h : s.AllHeld used) (key : String) : s.bucketsMade key ≤ 1 := by
  have hcount := List.nodup_iff_count_le_one.mp h.made key
  rw [List.count, List.countP_map] at hcount
  refine le_trans (le_of_eq (List.countP_congr fun e _ => ?_)) hcount
  simp

/-! ### New keys -/

theorem lookup_none {buckets : List (String × ℕ)} {key : String}
    (h : key ∉ buckets.map Prod.fst) : buckets.lookup key = none := by
  refine List.lookup_eq_none_iff.mpr fun e he => ?_
  have hne : key ≠ e.1 := fun heq => h (List.mem_map.mpr ⟨e, he, heq.symm⟩)
  simpa using hne

/-- A key that is not in the registry comes in. -/
theorem enter_new {s : State} {key : String} (h : key ∉ s.limiter.buckets.map Prod.fst)
    (hclock : s.clock ≤ now) : step s (.tryAcquire key now) = some
      { limiter := ⟨s.limiter.rate, Limiter.evict (s.limiter.buckets ++ [(key, s.limiter.heap.length)]),
          s.limiter.heap ++ [(key, .full s.limiter.rate now)]⟩
        clock := now
        calls := s.calls ++ [⟨key, s.limiter.heap.length, false, none, .ready⟩]
        accepts := s.accepts } := by
  simp only [step, State.enter, Limiter.getOrCreateBucket, lookup_none h, if_neg (not_lt.mpr hclock)]

theorem full_tryTake (r : RatePerMin) (now : ℚ) : ((Bucket.full r now).tryTake now).2 = true := by
  have hone : 1 ≤ r.capacity := by
    rw [RatePerMin.capacity]
    exact_mod_cast r.pos
  simp [Bucket.tryTake, Bucket.refill, Bucket.full, hone]

/-- A key that is not in the registry gets a token at once. -/
theorem new_accepted {s : State} {key : String} (h : key ∉ s.limiter.buckets.map Prod.fst)
    (hclock : s.clock ≤ now) : ∃ s', Run.exec step s
      [.tryAcquire key now, .attempt s.calls.length now] = some s' ∧
      s'.limiter.rate = s.limiter.rate ∧ s'.clock = now ∧
      s'.limiter.buckets = Limiter.evict (s.limiter.buckets ++ [(key, s.limiter.heap.length)]) ∧
      s'.calls.length = s.calls.length + 1 ∧
      s'.accepts = s.accepts ++ [⟨key, s.limiter.heap.length, now⟩] := by
  rw [Run.exec, enter_new h hclock, Option.bind_some]
  simp only [Run.exec, step, lt_self_iff_false, if_false, List.getElem?_concat_length, State.try,
    full_tryTake, if_true, Option.bind_some]
  exact ⟨_, rfl, rfl, rfl, rfl, by simp, rfl⟩

/-- New keys that the registry has room for join it at its end. -/
theorem new_enter : ∀ {keys : List String} {s : State}, keys.Nodup →
    (∀ key ∈ keys, key ∉ s.limiter.buckets.map Prod.fst) → s.clock ≤ now →
    s.limiter.buckets.length + keys.length ≤ bucketRegistryMax →
    ∃ s', Run.exec step s (keys.map (.tryAcquire · now)) = some s' ∧
      s'.limiter.rate = s.limiter.rate ∧ s'.clock ≤ now ∧
      s'.limiter.buckets.map Prod.fst = s.limiter.buckets.map Prod.fst ++ keys ∧
      s'.calls.length = s.calls.length + keys.length ∧ s'.accepts = s.accepts
  | [], s, _, _, hclock, _ => ⟨s, rfl, rfl, hclock, by simp, by simp, rfl⟩
  | key :: keys, s, hnodup, hnew, hclock, hroom => by
    obtain ⟨hkey, hnodup⟩ := List.nodup_cons.mp hnodup
    rw [List.length_cons] at hroom
    have hstep := enter_new (hnew key List.mem_cons_self) hclock
    have hevict : Limiter.evict (s.limiter.buckets ++ [(key, s.limiter.heap.length)]) =
        s.limiter.buckets ++ [(key, s.limiter.heap.length)] := by
      refine evict_of_le ?_
      rw [List.length_append, List.length_singleton]
      omega
    rw [hevict] at hstep
    generalize hs₁ : State.mk _ now _ _ = s₁ at hstep
    have hbuckets : s₁.limiter.buckets = s.limiter.buckets ++ [(key, s.limiter.heap.length)] := by
      rw [← hs₁]
    have hothers : ∀ k ∈ keys, k ∉ s₁.limiter.buckets.map Prod.fst := by
      intro k hk hin
      rw [hbuckets, List.map_append, List.mem_append] at hin
      rcases hin with hin | hin
      · exact hnew k (List.mem_cons_of_mem key hk) hin
      · have hsame : k = key := List.mem_singleton.mp hin
        exact hkey (hsame ▸ hk)
    obtain ⟨s', hrun, hrate, hclock', hmap, hlen, haccepts⟩ := new_enter hnodup hothers
      (by rw [← hs₁]) (by
        rw [hbuckets, List.length_append, List.length_singleton]
        omega)
    refine ⟨s', Run.exec_cons.mpr ⟨s₁, hstep, hrun⟩, hrate.trans (by rw [← hs₁]), hclock', ?_, ?_,
      haccepts.trans (by rw [← hs₁])⟩
    · rw [hmap, hbuckets, List.map_append, List.append_assoc]
      rfl
    · rw [hlen, ← hs₁, List.length_append, List.length_singleton, List.length_cons]
      omega

/-! ### The bound over runs -/

theorem step_rate {s s' : State} {e : Event} (hinv : s.Inv) (hstep : step s e = some s') :
    s'.limiter.rate = s.limiter.rate := by
  rcases step_cases hstep with ⟨key, _, _, now, _, -, -, -, rfl⟩ | ⟨_, _, _, _, _, -, -, -, -, -, rfl⟩ |
    ⟨_, _, _, _, -, -, -, -, -, -, rfl⟩
  · exact (getOrCreate_spec hinv.linked key now).2.1
  · rfl
  · rfl

theorem keysOf_subset {es : List Event} {e : Event} (he : e ∈ es) : keysOf [e] ⊆ keysOf es := by
  intro key hkey
  simp only [keysOf, List.mem_toFinset, List.mem_filterMap] at hkey ⊢
  obtain ⟨e', he', h⟩ := hkey
  exact ⟨e', List.mem_singleton.mp he' ▸ he, h⟩

theorem run_inv {rate : RatePerMin} {clock : ℚ} {es : List Event} {s : State}
    (hrun : Run.exec step (.start rate clock) es = some s) : s.Inv ∧ s.limiter.rate = rate :=
  Run.exec_invariant (I := fun s => s.Inv ∧ s.limiter.rate = rate)
    (fun _ _ _ h hstep => ⟨step_inv h.1 hstep, (step_rate h.1 hstep).trans h.2⟩)
    ⟨.start rate clock, rfl⟩ hrun

theorem run_bucketsMade {rate : RatePerMin} {clock : ℚ} {es : List Event} {s : State}
    (hrun : Run.exec step (.start rate clock) es = some s) (hfew : (keysOf es).card ≤ bucketRegistryMax)
    (key : String) : s.bucketsMade key ≤ 1 := by
  have hstart : (State.start rate clock).AllHeld (keysOf es) :=
    ⟨List.nodup_nil, nofun, List.nodup_nil, nofun⟩
  have hguard : Run.Guarded step (fun _ e => keysOf [e] ⊆ keysOf es) (.start rate clock) es :=
    Run.guarded_of_forall fun e he _ => keysOf_subset he
  have hall := Run.guarded_invariant (I := fun s => s.Inv ∧ s.AllHeld (keysOf es))
    (fun _ _ _ h he hstep => ⟨step_inv h.1 hstep, step_allHeld h.1 h.2 hfew he hstep⟩)
    ⟨.start rate clock, hstart⟩ hguard hrun
  exact bucketsMade_le_one hall.2 key

theorem accepted_le_buckets {rate : RatePerMin} {clock : ℚ} {es : List Event} {s : State}
    (hrun : Run.exec step (.start rate clock) es = some s) (key : String) (a : ℚ) {t : ℚ} (ht : 0 ≤ t) :
    (s.acceptedWithin key a (a + t) : ℚ) ≤
      s.bucketsMade key * (rate.capacity + rate.refillPerS * t) := by
  obtain ⟨hinv, hrate⟩ := run_inv hrun
  have hbound := acceptedWithin_le hinv key (le_add_of_nonneg_right ht : a ≤ a + t)
  rwa [hrate, add_sub_cancel_left] at hbound

theorem accepted_le_bucket {rate : RatePerMin} {clock : ℚ} {es : List Event} {s : State}
    (hrun : Run.exec step (.start rate clock) es = some s)
    (hfew : (keysOf es).card ≤ bucketRegistryMax) (key : String) (a : ℚ) {t : ℚ} (ht : 0 ≤ t) :
    (s.acceptedWithin key a (a + t) : ℚ) ≤ rate.capacity + rate.refillPerS * t := by
  have hone : (s.bucketsMade key : ℚ) ≤ 1 := by exact_mod_cast run_bucketsMade hrun hfew key
  have hpos : 0 ≤ rate.capacity + rate.refillPerS * t :=
    add_nonneg rate.capacity_nonneg (mul_nonneg rate.refillPerS_nonneg ht)
  calc (s.acceptedWithin key a (a + t) : ℚ)
      ≤ s.bucketsMade key * (rate.capacity + rate.refillPerS * t) := accepted_le_buckets hrun key a ht
    _ ≤ 1 * (rate.capacity + rate.refillPerS * t) := mul_le_mul_of_nonneg_right hone hpos
    _ = rate.capacity + rate.refillPerS * t := one_mul _

/-- A bot that sends once a minute at most. -/
def onePerMin : RatePerMin := ⟨1, by decide⟩

/-- One key fewer than the registry holds. -/
def otherKeys : List String :=
  (List.range (bucketRegistryMax - 1)).map fun n => String.ofList (List.replicate n 'x')

theorem otherKeys_length : otherKeys.length = bucketRegistryMax - 1 := by
  rw [otherKeys, List.length_map, List.length_range]

theorem otherKeys_nodup : otherKeys.Nodup := by
  refine List.Nodup.map (fun n m h => ?_) List.nodup_range
  have hlist := congrArg String.toList h
  rw [String.toList_ofList, String.toList_ofList] at hlist
  simpa using congrArg List.length hlist

theorem not_mem_otherKeys {key : String} {c : Char} (hc : c ∈ key.toList) (hx : c ≠ 'x') :
    key ∉ otherKeys := by
  intro h
  obtain ⟨n, -, rfl⟩ := List.mem_map.mp h
  rw [String.toList_ofList] at hc
  exact hx (List.eq_of_mem_replicate hc)

/-- The registry is full and another key comes in: the oldest one is gone. -/
theorem evict_full {e e' : String × ℕ} {buckets : List (String × ℕ)}
    (h : (e :: buckets).length = bucketRegistryMax) :
    Limiter.evict ((e :: buckets) ++ [e']) = buckets ++ [e'] := by
  have hlen : (buckets ++ [e']).length = bucketRegistryMax := by simpa using h
  rw [List.cons_append, Limiter.evict, List.length_cons, hlen, if_pos (Nat.lt_succ_self _)]
  exact evict_of_le hlen.le

/-- At one instant a key gets a token, as many other keys come as the registry holds, and the key
    gets a second token from a new bucket. -/
theorem evicted_key_accepted : ∃ (es : List Event) (s : State),
    Run.exec step (.start onePerMin 0) es = some s ∧ s.acceptedWithin "bot" 0 0 = 2 := by
  obtain ⟨s₁, hrun₁, -, hclock₁, hbuckets₁, hlen₁, haccepts₁⟩ :=
    @new_accepted 0 (.start onePerMin 0) "bot" List.not_mem_nil (le_refl 0)
  have hone : s₁.limiter.buckets = [("bot", 0)] := hbuckets₁.trans (evict_of_le (by decide))
  obtain ⟨s₂, hrun₂, -, hclock₂, hbuckets₂, hlen₂, haccepts₂⟩ :=
    @new_enter 0 otherKeys s₁ otherKeys_nodup (by
      intro key hkey hin
      rw [hone] at hin
      obtain rfl : key = "bot" := List.mem_singleton.mp hin
      exact not_mem_otherKeys (c := 'b') (by decide) (by decide) hkey) hclock₁.le (by
      rw [hone, otherKeys_length]
      decide)
  rw [hone] at hbuckets₂
  have hlate : "late" ∉ s₂.limiter.buckets.map Prod.fst := by
    rw [hbuckets₂, List.mem_append, not_or]
    exact ⟨by decide, not_mem_otherKeys (c := 'l') (by decide) (by decide)⟩
  have hstep₃ := enter_new hlate hclock₂
  obtain ⟨e, rest, hcons⟩ : ∃ e rest, s₂.limiter.buckets = e :: rest := by
    cases h : s₂.limiter.buckets with
    | nil => simp [h] at hbuckets₂
    | cons e rest => exact ⟨e, rest, rfl⟩
  have hrest : rest.map Prod.fst = otherKeys := by
    rw [hcons, List.map_cons, List.map_singleton, List.singleton_append] at hbuckets₂
    exact (List.cons.inj hbuckets₂).2
  have hfull : (e :: rest).length = bucketRegistryMax := by
    have hlen := congrArg List.length hrest
    rw [List.length_map, otherKeys_length, bucketRegistryMax] at hlen
    rw [List.length_cons, hlen, bucketRegistryMax]
  rw [hcons, evict_full hfull] at hstep₃
  generalize hs₃ : State.mk _ 0 _ _ = s₃ at hstep₃
  have hgone : "bot" ∉ s₃.limiter.buckets.map Prod.fst := by
    rw [← hs₃, List.map_append, hrest, List.mem_append, not_or]
    exact ⟨not_mem_otherKeys (c := 'b') (by decide) (by decide), by simp⟩
  obtain ⟨s₄, hrun₄, -, -, -, -, haccepts₄⟩ := @new_accepted 0 s₃ "bot" hgone (by rw [← hs₃])
  refine ⟨_, s₄, Run.exec_append.mpr ⟨s₁, hrun₁, Run.exec_append.mpr ⟨s₂, hrun₂,
    Run.exec_cons.mpr ⟨s₃, hstep₃, hrun₄⟩⟩⟩, ?_⟩
  have hall : s₄.accepts = [⟨"bot", 0, 0⟩, ⟨"bot", s₃.limiter.heap.length, 0⟩] := by
    rw [haccepts₄, ← hs₃, haccepts₂, haccepts₁]
    rfl
  rw [State.acceptedWithin, hall]
  simp

end ChannelAdapters
