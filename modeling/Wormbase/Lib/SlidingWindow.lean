import Mathlib.Algebra.Order.Ring.Int
import Mathlib.Data.List.Count
import Mathlib.Data.List.Induction
import Mathlib.Data.List.TakeWhile
import Mathlib.Order.Monotone.Defs

/-! Limits over a sliding window: a call is accepted while fewer calls than the limit were accepted in the window that
    ends with it.

    A window that ends at `t` starts at `start t`, and its start never moves back. So what has been pruned from the
    front of a deque of times is in no later window. -/

namespace Sliding
variable {σ τ ι K : Type}

/-- The calls that are accepted, each by an answer that may change the state. -/
def accepted (step : σ → ι → K → σ × Bool) : σ → List (ι × K) → List (ι × K)
  | _, [] => []
  | s, c :: calls => (if (step s c.1 c.2).2 then [c] else []) ++ accepted step (step s c.1 c.2).1 calls

def after (step : σ → ι → K → σ × Bool) (s : σ) (calls : List (ι × K)) : σ :=
  calls.foldl (fun s c => (step s c.1 c.2).1) s

section
variable {step : σ → ι → K → σ × Bool} {step' : τ → ι → K → τ × Bool} {R : σ → τ → Prop}

theorem accepted_snoc : ∀ (s : σ) (calls : List (ι × K)) (c : ι × K), accepted step s (calls ++ [c]) =
    accepted step s calls ++ if (step (after step s calls) c.1 c.2).2 then [c] else []
  | s, [], c => by
    rw [List.nil_append, accepted, accepted, accepted, List.append_nil, List.nil_append]
    rfl
  | s, c' :: calls, c => by
    rw [List.cons_append, accepted, accepted, accepted_snoc, List.append_assoc]
    rfl

theorem after_snoc (s : σ) (calls : List (ι × K)) (c : ι × K) :
    after step s (calls ++ [c]) = (step (after step s calls) c.1 c.2).1 := by
  rw [after, List.foldl_append]
  rfl

/-- Related states that answer alike and stay related accept the same calls. -/
theorem accepted_congr (h : ∀ s s' i t, R s s' → (step s i t).2 = (step' s' i t).2 ∧ R (step s i t).1 (step' s' i t).1) :
    ∀ (calls : List (ι × K)) {s : σ} {s' : τ}, R s s' → accepted step s calls = accepted step' s' calls
  | [], _, _, _ => rfl
  | c :: calls, s, s', hrel => by
    obtain ⟨hanswer, hnext⟩ := h s s' c.1 c.2 hrel
    rw [accepted, accepted, hanswer, accepted_congr h calls hnext]

end

variable [LinearOrder K]

/-- Calls with a clock that never goes back. -/
def Nondecreasing (calls : List (ι × K)) : Prop := calls.Pairwise fun c c' => c.2 ≤ c'.2

theorem Nondecreasing.init {calls : List (ι × K)} {c : ι × K} (h : Nondecreasing (calls ++ [c])) :
    Nondecreasing calls := (List.pairwise_append.mp h).1

variable [DecidableEq ι]

/-- How many calls of a caller are in the window that ends at `t`. -/
def inWindow (start : K → K) (calls : List (ι × K)) (i : ι) (t : K) : ℕ :=
  calls.countP fun c => c.1 = i ∧ start t ≤ c.2 ∧ c.2 ≤ t

/-- A call is accepted exactly when fewer than the limit of its caller's calls were accepted in its window. -/
structure Exact (start : K → K) (limit : ℤ) (accepted : List (ι × K) → List (ι × K)) : Prop where
  nil : accepted [] = []
  snoc : ∀ calls c, Nondecreasing (calls ++ [c]) → accepted (calls ++ [c]) =
    accepted calls ++ if (inWindow start (accepted calls) c.1 c.2 : ℤ) < limit then [c] else []

/-! ### What follows for the callers -/

section
variable {start : K → K} {limit : ℤ}

namespace Exact
variable {taken : List (ι × K) → List (ι × K)}

theorem sublist (h : Exact start limit taken) (calls : List (ι × K)) (hclock : Nondecreasing calls) :
    (taken calls).Sublist calls := by
  induction calls using List.reverseRecOn with
  | nil =>
    simp [h.nil]
  | append_singleton calls c ih =>
    rw [h.snoc calls c hclock]
    split
    · exact (ih hclock.init).append (List.Sublist.refl _)
    · rw [List.append_nil]
      exact (ih hclock.init).trans (List.sublist_append_left ..)

/-- The rejected calls consume nothing: without them the others are accepted as well. -/
theorem rejected (h : Exact start limit taken) (calls : List (ι × K)) (hclock : Nondecreasing calls) :
    taken (taken calls) = taken calls := by
  induction calls using List.reverseRecOn with
  | nil => rw [h.nil, h.nil]
  | append_singleton calls c ih =>
    have hsub := h.sublist (calls ++ [c]) hclock
    have hsnoc := h.snoc calls c hclock
    have hinit := ih hclock.init
    by_cases hlt : (inWindow start (taken calls) c.1 c.2 : ℤ) < limit
    · rw [if_pos hlt] at hsnoc
      have hmore := h.snoc (taken calls) c (hsnoc ▸ hclock.sublist hsub)
      rw [hinit, if_pos hlt] at hmore
      rw [hsnoc, hmore]
    · rw [if_neg hlt, List.append_nil] at hsnoc
      rw [hsnoc, hinit]

/-- A caller's calls are accepted as if there were no others. -/
theorem alone (h : Exact start limit taken) (i : ι) (calls : List (ι × K)) (hclock : Nondecreasing calls) :
    (taken calls).filter (fun c => c.1 = i) = taken (calls.filter fun c => c.1 = i) := by
  induction calls using List.reverseRecOn with
  | nil => rw [h.nil, List.filter_nil, h.nil]
  | append_singleton calls c ih =>
    have hinit := ih hclock.init
    rw [h.snoc calls c hclock, List.filter_append, List.filter_append, hinit]
    by_cases hown : c.1 = i
    · have hcount : inWindow start (taken calls) c.1 c.2 =
          inWindow start (taken (calls.filter fun c => c.1 = i)) c.1 c.2 := by
        rw [← hinit, inWindow, inWindow, List.countP_filter]
        refine List.countP_congr fun d _ => ?_
        simp [hown, and_comm]
      have hsingle : [c].filter (fun c => c.1 = i) = [c] := by simp [hown]
      have hrest : Nondecreasing (calls.filter (fun c => c.1 = i) ++ [c]) := by
        rw [← hsingle, ← List.filter_append]
        exact hclock.sublist List.filter_sublist
      rw [hsingle, h.snoc _ c hrest, hcount]
      split
      · rw [hsingle]
      · rfl
    · have hnone : [c].filter (fun c => c.1 = i) = [] := by simp [hown]
      rw [hnone, List.append_nil]
      split
      · rw [hnone, List.append_nil]
      · rw [List.filter_nil, List.append_nil]

end Exact
end

/-! ### A deque of times -/

/-- The window moves on, and the call is accepted where there is room. -/
def take (start : K → K) (limit : ℤ) (times : List K) (now : K) : List K × Bool :=
  let kept := times.dropWhile fun t => t < start now
  if limit ≤ kept.length then (kept, false) else (kept ++ [now], true)

/-- The deque of the accepted times has lost some that are in no window any more. -/
structure Pruned (start : K → K) (own : List K) (now : K) (times : List K) : Prop where
  sorted : own.Pairwise (· ≤ ·)
  past : ∀ t ∈ own, t ≤ now
  lost : ∃ old, own = old ++ times ∧ ∀ t ∈ old, t < start now

section
variable {start : K → K} {limit : ℤ} {own times : List K} {now now' : K}

theorem dropWhile_sorted {a : K} : ∀ {ts : List K}, ts.Pairwise (· ≤ ·) →
    ts.dropWhile (fun t => t < a) = ts.filter (a ≤ ·)
  | [], _ => rfl
  | t :: ts, h => by
    obtain ⟨hhead, hts⟩ := List.pairwise_cons.mp h
    by_cases hlt : t < a
    · rw [List.dropWhile_cons_of_pos (by simpa using hlt), dropWhile_sorted hts,
        List.filter_cons_of_neg (by simpa using hlt)]
    · have hle : a ≤ t := le_of_not_gt hlt
      rw [List.dropWhile_cons_of_neg (by simpa using hlt), List.filter_eq_self.mpr]
      intro t' ht'
      rcases List.mem_cons.mp ht' with rfl | ht'
      · simpa using hle
      · simpa using hle.trans (hhead t' ht')

namespace Pruned

theorem later (h : Pruned start own now times) (hstart : Monotone start) (hle : now ≤ now') :
    Pruned start own now' times := by
  obtain ⟨old, hown, hold⟩ := h.lost
  exact ⟨h.sorted, fun t ht => (h.past t ht).trans hle, old, hown, fun t ht => (hold t ht).trans_le (hstart hle)⟩

/-- The times that are kept are those of the window. -/
theorem length_kept (h : Pruned start own now times) :
    (times.dropWhile fun t => t < start now).length = own.countP (start now ≤ ·) := by
  obtain ⟨old, rfl, hold⟩ := h.lost
  have hnone : old.countP (start now ≤ ·) = 0 :=
    List.countP_eq_zero.mpr fun t ht => by simpa using hold t ht
  rw [dropWhile_sorted (List.pairwise_append.mp h.sorted).2.1, ← List.countP_eq_length_filter, List.countP_append,
    hnone, Nat.zero_add]

theorem dropWhile (h : Pruned start own now times) :
    Pruned start own now (times.dropWhile fun t => t < start now) := by
  obtain ⟨old, hown, hold⟩ := h.lost
  refine ⟨h.sorted, h.past, old ++ times.takeWhile fun t => t < start now, ?_, ?_⟩
  · rw [List.append_assoc, List.takeWhile_append_dropWhile, hown]
  · intro t ht
    rcases List.mem_append.mp ht with ht | ht
    · exact hold t ht
    · have hlt := List.mem_takeWhile_imp ht
      exact of_decide_eq_true hlt

theorem push (h : Pruned start own now times) : Pruned start (own ++ [now]) now (times ++ [now]) := by
  obtain ⟨old, hown, hold⟩ := h.lost
  refine ⟨List.pairwise_append.mpr ⟨h.sorted, List.pairwise_singleton .., ?_⟩, ?_, old, ?_, hold⟩
  · intro t ht t' ht'
    rw [List.mem_singleton.mp ht']
    exact h.past t ht
  · intro t ht
    rcases List.mem_append.mp ht with ht | ht
    · exact h.past t ht
    · exact (List.mem_singleton.mp ht).le
  · rw [hown, List.append_assoc]

/-- The answer counts the window, and the deque stays pruned. -/
theorem take (h : Pruned start own now times) :
    (take start limit times now).2 = decide ((own.countP (start now ≤ ·) : ℤ) < limit) ∧
    Pruned start (own ++ if (own.countP (start now ≤ ·) : ℤ) < limit then [now] else []) now
      (take start limit times now).1 := by
  rw [Sliding.take, h.length_kept]
  by_cases hroom : (own.countP (start now ≤ ·) : ℤ) < limit
  · rw [if_neg (not_le.mpr hroom), if_pos hroom]
    exact ⟨(decide_eq_true hroom).symm, h.dropWhile.push⟩
  · rw [if_pos (not_lt.mp hroom), if_neg hroom, List.append_nil]
    exact ⟨(decide_eq_false hroom).symm, h.dropWhile⟩

end Pruned

end

/-! ### A deque for each caller -/

def ownTimes (calls : List (ι × K)) (i : ι) : List K := (calls.filter fun c => c.1 = i).map Prod.snd

omit [LinearOrder K] in
theorem ownTimes_append (calls calls' : List (ι × K)) (i : ι) :
    ownTimes (calls ++ calls') i = ownTimes calls i ++ ownTimes calls' i := by
  rw [ownTimes, List.filter_append, List.map_append]
  rfl

omit [LinearOrder K] in
theorem ownTimes_single (c : ι × K) (i : ι) : ownTimes [c] i = if c.1 = i then [c.2] else [] := by
  by_cases h : c.1 = i <;> simp [ownTimes, h]

section
variable {start : K → K} {limit : ℤ}

def step (start : K → K) (limit : ℤ) (s : ι → List K) (i : ι) (now : K) : (ι → List K) × Bool :=
  (Function.update s i (take start limit (s i) now).1, (take start limit (s i) now).2)

/-- All that a caller has been granted is in the past, so its window has no other end. -/
theorem countP_ownTimes {calls : List (ι × K)} {i : ι} {now : K} (h : ∀ t ∈ ownTimes calls i, t ≤ now) :
    (ownTimes calls i).countP (start now ≤ ·) = inWindow start calls i now := by
  rw [ownTimes, List.countP_map, List.countP_filter, inWindow]
  refine List.countP_congr fun c hc => ?_
  have hpast : c.1 = i → c.2 ≤ now := fun hi =>
    h c.2 (List.mem_map_of_mem (List.mem_filter.mpr ⟨hc, by simpa using hi⟩))
  simp only [Function.comp_apply, Bool.and_eq_true, decide_eq_true_eq]
  constructor
  · rintro ⟨hin, hi⟩
    exact ⟨hi, hin, hpast hi⟩
  · rintro ⟨hi, hin, -⟩
    exact ⟨hin, hi⟩

theorem pruned_after (hstart : Monotone start) (calls : List (ι × K)) (hclock : Nondecreasing calls) (now : K)
    (hnow : ∀ c ∈ calls, c.2 ≤ now) (i : ι) : Pruned start
      (ownTimes (accepted (step start limit) (fun _ => []) calls) i) now
      (after (step start limit) (fun _ => []) calls i) := by
  induction calls using List.reverseRecOn generalizing now i with
  | nil => exact ⟨List.Pairwise.nil, fun _ h => (nomatch h), [], rfl, fun _ h => (nomatch h)⟩
  | append_singleton calls c ih =>
    have hbefore : ∀ c' ∈ calls, c'.2 ≤ c.2 := fun c' hc' =>
      (List.pairwise_append.mp hclock).2.2 c' hc' c List.mem_cons_self
    have hle : c.2 ≤ now := hnow c (by simp)
    have hcaller := ih hclock.init c.2 hbefore c.1
    obtain ⟨hanswer, hkept⟩ := @Pruned.take _ _ _ limit _ _ _ hcaller
    rw [accepted_snoc, after_snoc, ownTimes_append]
    simp only [step, hanswer, decide_eq_true_eq]
    have hnew : ownTimes (if ((ownTimes (accepted (step start limit) (fun _ => []) calls) c.1).countP
        (start c.2 ≤ ·) : ℤ) < limit then [c] else []) i = if c.1 = i then
        if ((ownTimes (accepted (step start limit) (fun _ => []) calls) c.1).countP
          (start c.2 ≤ ·) : ℤ) < limit then [c.2] else [] else [] := by
      split
      · exact ownTimes_single c i
      · exact (ite_self _).symm
    rw [hnew]
    by_cases hi : c.1 = i
    · subst hi
      rw [Function.update_self, if_pos rfl]
      exact hkept.later hstart hle
    · rw [Function.update_of_ne (Ne.symm hi), if_neg hi, List.append_nil]
      exact (ih hclock.init c.2 hbefore i).later hstart hle

/-- Deques that are pruned and asked one at a time limit each caller exactly. -/
theorem exact_step (hstart : Monotone start) (limit : ℤ) :
    Exact start limit (accepted (step start limit) fun _ : ι => []) := by
  refine ⟨rfl, fun calls c hclock => ?_⟩
  have hbefore : ∀ c' ∈ calls, c'.2 ≤ c.2 := fun c' hc' =>
    (List.pairwise_append.mp hclock).2.2 c' hc' c List.mem_cons_self
  have hpruned := @pruned_after _ _ _ _ _ limit hstart calls hclock.init c.2 hbefore c.1
  obtain ⟨hanswer, -⟩ := @Pruned.take _ _ _ limit _ _ _ hpruned
  rw [accepted_snoc, step, hanswer, countP_ownTimes hpruned.past]
  simp only [decide_eq_true_eq]

end

/-! ### Limits kept from the outside -/

section
variable {start : K → K} {limit : ℕ} {times : List K}

/-- No window that ends at any time has more than the limit. -/
def Within (start : K → K) (limit : ℕ) (times : List K) : Prop :=
  ∀ t, times.countP (fun s => start t ≤ s ∧ s ≤ t) ≤ limit

theorem within_nil : Within start limit [] := fun _ => Nat.zero_le _

/-- A time may be added while fewer than the limit are not before its window, in whatever order the times come. -/
theorem Within.concat (h : Within start limit times) (hmono : Monotone start) {now : K}
    (hroom : times.countP (fun s => start now ≤ s) < limit) : Within start limit (times ++ [now]) := by
  intro t
  rw [List.countP_append]
  by_cases hin : start t ≤ now ∧ now ≤ t
  · have hfewer : times.countP (fun s => start t ≤ s ∧ s ≤ t) ≤ times.countP (fun s => start now ≤ s) := by
      refine List.countP_mono_left fun s _ hs => ?_
      simp only [decide_eq_true_eq] at hs ⊢
      exact (hmono hin.2).trans hs.1
    have hone : [now].countP (fun s => start t ≤ s ∧ s ≤ t) ≤ 1 := List.countP_le_length
    omega
  · have hnone : [now].countP (fun s => start t ≤ s ∧ s ≤ t) = 0 := by
      simpa [List.countP_cons] using hin
    rw [hnone, Nat.add_zero]
    exact h t

end

end Sliding
