import Mathlib.Algebra.Order.Field.Basic
import Mathlib.Data.List.Count
import Mathlib.Tactic.Linarith

/-! Token buckets over an ordered field: a bucket refills at a rate up to its capacity, and serves
    while it has a token. What it serves within an interval is bounded by its capacity and what
    refills meanwhile. -/

namespace TokenBucket

/-! ### Times within an interval -/

section
variable {K : Type} [LinearOrder K]

/-- How many of the times are in the interval. -/
def within (a b : K) (times : List K) : ℕ := times.countP fun t => a ≤ t ∧ t ≤ b

/-- How many of the times are from `a` on. -/
def since (a : K) (times : List K) : ℕ := times.countP fun t => a ≤ t

theorem since_eq_zero {a : K} {times : List K} (h : ∀ t ∈ times, t < a) : since a times = 0 := by
  refine List.countP_eq_zero.mpr fun t ht => ?_
  simpa using h t ht

theorem within_le_since (a b : K) (times : List K) : within a b times ≤ since a times := by
  refine List.countP_mono_left fun t _ h => ?_
  simp only [decide_eq_true_eq] at h ⊢
  exact h.1

theorem within_append (a b : K) (xs ys : List K) :
    within a b (xs ++ ys) = within a b xs + within a b ys := List.countP_append

end

/-! ### Levels -/

variable {K : Type} [Field K] [LinearOrder K] [IsStrictOrderedRing K]

/-- The tokens of a bucket and the time of its last refill. -/
@[ext] structure Level (K : Type) where
  tokens : K
  last : K

/-- Refill up to the time `now`, if that is later than the last refill. -/
def Level.refill (capacity rate : K) (l : Level K) (now : K) : Level K :=
  if l.last < now then ⟨min capacity (l.tokens + (now - l.last) * rate), now⟩ else l

def Level.take (l : Level K) : Level K := { l with tokens := l.tokens - 1 }

/-- A level and the times at which its bucket served. -/
structure Served (capacity rate : K) (l : Level K) (times : List K) : Prop where
  nonneg : 0 ≤ l.tokens
  le_capacity : l.tokens ≤ capacity
  past : ∀ t ∈ times, t ≤ l.last
  since_le : ∀ a, a ≤ l.last → (since a times : K) + l.tokens ≤ capacity + rate * (l.last - a)
  within_le : ∀ a b, a ≤ b → (within a b times : K) ≤ capacity + rate * (b - a)

variable {capacity rate : K} {l : Level K} {times : List K}

/-- A full bucket that has served nothing. -/
theorem Served.full (hcap : 0 ≤ capacity) (hrate : 0 ≤ rate) (start : K) :
    Served capacity rate ⟨capacity, start⟩ [] := by
  refine ⟨hcap, le_refl _, by simp, fun a ha => ?_, fun a b hab => ?_⟩
  · have := mul_nonneg hrate (sub_nonneg.mpr ha)
    simp [since]
    linarith
  · have := mul_nonneg hrate (sub_nonneg.mpr hab)
    simp [within]
    linarith

theorem Served.refill (h : Served capacity rate l times) (hrate : 0 ≤ rate) (now : K) :
    Served capacity rate (l.refill capacity rate now) times := by
  unfold Level.refill
  split
  · rename_i hlt
    have hgain := mul_nonneg (sub_nonneg.mpr hlt.le) hrate
    refine ⟨?_, min_le_left _ _, fun t ht => (h.past t ht).trans hlt.le, fun a ha => ?_, h.within_le⟩
    · exact le_min (h.nonneg.trans h.le_capacity) (add_nonneg h.nonneg hgain)
    · by_cases hal : a ≤ l.last
      · have hold := h.since_le a hal
        have hmin := min_le_right capacity (l.tokens + (now - l.last) * rate)
        dsimp only
        linarith
      · -- nothing was served from `a` on, so the capacity alone bounds
        have hnone : since a times = 0 :=
          since_eq_zero fun t ht => lt_of_le_of_lt (h.past t ht) (not_le.mp hal)
        have hmin := min_le_left capacity (l.tokens + (now - l.last) * rate)
        have := mul_nonneg hrate (sub_nonneg.mpr ha)
        rw [hnone, Nat.cast_zero, zero_add]
        dsimp only at this ⊢
        linarith
  · exact h

/-- Serving one takes a token, at the time of the last refill. -/
theorem Served.take (h : Served capacity rate l times) (hrate : 0 ≤ rate) (htoken : 1 ≤ l.tokens) :
    Served capacity rate l.take (times ++ [l.last]) := by
  have hsince : ∀ a, a ≤ l.last → since a (times ++ [l.last]) = since a times + 1 := by
    intro a ha
    simp [since, ha]
  refine ⟨sub_nonneg.mpr htoken, ?_, ?_, ?_, ?_⟩
  · have := h.le_capacity
    simp only [Level.take]
    linarith
  · intro t ht
    rcases List.mem_append.mp ht with ht | ht
    · exact h.past t ht
    · exact le_of_eq (List.mem_singleton.mp ht)
  · intro a ha
    have hold := h.since_le a ha
    rw [hsince a ha, Nat.cast_add, Nat.cast_one]
    simp only [Level.take]
    linarith
  · intro a b hab
    by_cases hin : a ≤ l.last ∧ l.last ≤ b
    · have hold := h.since_le a hin.1
      have hle : (within a b (times ++ [l.last]) : K) ≤ since a times + 1 := by
        exact_mod_cast (hsince a hin.1) ▸ within_le_since a b (times ++ [l.last])
      have hmul := mul_le_mul_of_nonneg_left (sub_le_sub_right hin.2 a) hrate
      linarith
    · have hzero : within a b [l.last] = 0 := by simpa [within] using hin
      rw [within_append, hzero, add_zero]
      exact h.within_le a b hab

end TokenBucket
