import Mathlib.Data.List.Induction
import Mathlib.Data.List.Nodup

/-! Tallies: how often each key was counted, with the keys in the order in which they first came.

    A tally that is built key by key holds the multiplicities of the keys (`mem_tally`). -/

namespace Tally
variable {κ β : Type*} [DecidableEq κ] {ks : List κ} {k : κ} {n : ℕ}

/-- `c[k] += 1`. -/
def bump (t : List (κ × ℕ)) (k : κ) : List (κ × ℕ) :=
  match t with
  | [] => [(k, 1)]
  | (k', n) :: t => if k' = k then (k', n + 1) :: t else (k', n) :: bump t k

def tally (ks : List κ) : List (κ × ℕ) := ks.foldl bump []

@[simp] theorem tally_nil : tally ([] : List κ) = [] := rfl

theorem tally_concat (ks : List κ) (k : κ) : tally (ks ++ [k]) = bump (tally ks) k := by
  rw [tally, List.foldl_append]; rfl

theorem tally_append (ks ls : List κ) : tally (ks ++ ls) = ls.foldl bump (tally ks) := List.foldl_append

theorem keys_bump : ∀ t : List (κ × ℕ), (bump t k).map Prod.fst =
    if k ∈ t.map Prod.fst then t.map Prod.fst else t.map Prod.fst ++ [k]
  | [] => rfl
  | (k', n) :: t => by
    by_cases hk : k' = k
    · simp [bump, hk]
    · rw [bump, if_neg hk, List.map_cons, keys_bump t]
      simp only [List.map_cons, List.mem_cons, Ne.symm hk, false_or]
      split
      · rfl
      · rfl

/-- Counting a key changes nothing that is read of the others. -/
theorem filterMap_bump {f : κ × ℕ → Option β} (hf : ∀ n, f (k, n) = none) :
    ∀ t : List (κ × ℕ), (bump t k).filterMap f = t.filterMap f
  | [] => by simp [bump, hf]
  | (k', n) :: t => by
    by_cases hk : k' = k
    · subst hk
      rw [bump, if_pos rfl, List.filterMap_cons_none (hf _), List.filterMap_cons_none (hf _)]
    · rw [bump, if_neg hk, List.filterMap_cons, List.filterMap_cons, filterMap_bump hf t]

theorem filterMap_bumps {f : κ × ℕ → Option β} : ∀ {ls : List κ} {t : List (κ × ℕ)},
    (∀ k ∈ ls, ∀ n, f (k, n) = none) → (ls.foldl bump t).filterMap f = t.filterMap f
  | [], _, _ => rfl
  | k :: ls, t, hf => by
    obtain ⟨hk, hls⟩ := List.forall_mem_cons.mp hf
    rw [List.foldl_cons, filterMap_bumps hls, filterMap_bump hk]

theorem mem_bump {k' : κ} : ∀ {t : List (κ × ℕ)}, (t.map Prod.fst).Nodup → ((k', n) ∈ bump t k ↔
    k' = k ∧ (n = 1 ∧ k ∉ t.map Prod.fst ∨ ∃ m, (k, m) ∈ t ∧ n = m + 1) ∨ k' ≠ k ∧ (k', n) ∈ t)
  | [], _ => by simp [bump]
  | (l, m) :: t, hnodup => by
    obtain ⟨hl, hnodup⟩ := List.nodup_cons.mp hnodup
    by_cases hlk : l = k
    · subst hlk
      have hother : ∀ i, (l, i) ∉ t := fun i hi => hl (List.mem_map.mpr ⟨(l, i), hi, rfl⟩)
      simp only [bump, if_true, List.mem_cons, Prod.mk.injEq, List.map_cons]
      constructor
      · rintro (⟨rfl, rfl⟩ | h)
        · exact .inl ⟨rfl, .inr ⟨m, .inl ⟨trivial, rfl⟩, rfl⟩⟩
        · exact .inr ⟨fun heq => hother n (heq ▸ h), .inr h⟩
      · rintro (⟨rfl, ⟨-, hnot⟩ | ⟨i, ⟨-, rfl⟩ | hi, rfl⟩⟩ | ⟨hne, ⟨heq, -⟩ | h⟩)
        · exact absurd (.inl trivial) hnot
        · exact .inl ⟨rfl, rfl⟩
        · exact absurd hi (hother i)
        · exact absurd heq hne
        · exact .inr h
    · simp only [bump, if_neg hlk, List.mem_cons, mem_bump hnodup, Prod.mk.injEq, List.map_cons, Ne.symm hlk, false_or,
        false_and]
      constructor
      · rintro (⟨rfl, rfl⟩ | ⟨rfl, h⟩ | ⟨hne, h⟩)
        · exact .inr ⟨hlk, .inl ⟨rfl, rfl⟩⟩
        · exact .inl ⟨rfl, h⟩
        · exact .inr ⟨hne, .inr h⟩
      · rintro (⟨rfl, h⟩ | ⟨hne, ⟨rfl, rfl⟩ | h⟩)
        · exact .inr (.inl ⟨rfl, h⟩)
        · exact .inl ⟨rfl, rfl⟩
        · exact .inr (.inr ⟨hne, h⟩)

theorem nodup_tally (ks : List κ) : ((tally ks).map Prod.fst).Nodup := by
  induction ks using List.reverseRecOn with
  | nil => exact List.nodup_nil
  | append_singleton ks k ih =>
    rw [tally_concat, keys_bump]
    split
    · exact ih
    · rename_i hnew
      exact List.nodup_append.mpr ⟨ih, List.nodup_singleton k, fun a ha b hb hab =>
        hnew (List.mem_singleton.mp hb ▸ hab ▸ ha)⟩

/-- A tally holds the keys that were counted, each with the number of times. -/
theorem mem_tally [BEq κ] [LawfulBEq κ] : (k, n) ∈ tally ks ↔ 0 < n ∧ n = ks.count k := by
  induction ks using List.reverseRecOn generalizing k n with
  | nil =>
    constructor
    · exact fun h => nomatch h
    · rintro ⟨hpos, rfl⟩
      exact absurd hpos (Nat.lt_irrefl 0)
  | append_singleton ks l ih =>
    have hkeys : l ∈ (tally ks).map Prod.fst ↔ 0 < ks.count l := by
      constructor
      · intro h
        obtain ⟨⟨l', m⟩, hmem, rfl⟩ := List.mem_map.mp h
        obtain ⟨hpos, rfl⟩ := ih.mp hmem
        exact hpos
      · exact fun h => List.mem_map.mpr ⟨(l, ks.count l), ih.mpr ⟨h, rfl⟩, rfl⟩
    rw [tally_concat, mem_bump (nodup_tally ks), List.count_append, hkeys]
    by_cases hk : k = l
    · subst hk
      simp only [true_and, ne_eq, not_true, false_and, or_false, List.count_singleton_self, ih]
      constructor
      · rintro (⟨rfl, hzero⟩ | ⟨m, ⟨-, rfl⟩, rfl⟩)
        · omega
        · omega
      · rintro ⟨-, rfl⟩
        rcases Nat.eq_zero_or_pos (ks.count k) with hzero | hpos
        · exact .inl ⟨by omega, by omega⟩
        · exact .inr ⟨_, ⟨hpos, rfl⟩, rfl⟩
    · simp only [hk, false_and, ne_eq, not_false_iff, true_and, false_or, ih, List.count_singleton, beq_iff_eq,
        Ne.symm hk, if_false, Nat.add_zero]

end Tally
