import Mathlib.Data.List.Dedup
import Mathlib.Data.List.Induction
import Mathlib.Data.List.Perm.Subperm

/-! Keys that are remembered up to a capacity: the oldest one goes when a new one comes to a full memory.

    As long as there are no more distinct keys than the capacity, nothing is forgotten. -/

namespace Seen
variable {κ : Type} [DecidableEq κ]

def see (capacity : ℕ) (seen : List κ) (k : κ) : List κ :=
  if k ∈ seen then seen else (if capacity ≤ seen.length then seen.tail else seen) ++ [k]

def remembered (capacity : ℕ) (keys : List κ) : List κ := keys.foldl (see capacity) []

variable {capacity : ℕ} {keys : List κ} {k : κ}

theorem remembered_snoc : remembered capacity (keys ++ [k]) = see capacity (remembered capacity keys) k := by
  rw [remembered, List.foldl_append]
  rfl

theorem nodup_see {seen : List κ} (h : seen.Nodup) : (see capacity seen k).Nodup := by
  rw [see]
  split
  · exact h
  · rename_i hnew
    split
    · exact List.nodup_append.mpr ⟨h.sublist (List.tail_sublist seen), List.nodup_singleton k,
        fun a ha b hb => by
          rw [List.mem_singleton.mp hb]
          rintro rfl
          exact hnew (List.mem_of_mem_tail ha)⟩
    · exact List.nodup_append.mpr ⟨h, List.nodup_singleton k, fun a ha b hb => by
        rw [List.mem_singleton.mp hb]
        rintro rfl
        exact hnew ha⟩

theorem remembered_nodup : (remembered capacity keys).Nodup := by
  induction keys using List.reverseRecOn with
  | nil => exact List.nodup_nil
  | append_singleton keys k ih =>
    rw [remembered_snoc]
    exact nodup_see ih

/-- Nothing is forgotten while the distinct keys fit. -/
theorem mem_remembered (h : keys.dedup.length ≤ capacity) : k ∈ remembered capacity keys ↔ k ∈ keys := by
  induction keys using List.reverseRecOn generalizing k with
  | nil => rfl
  | append_singleton keys k' ih =>
    have hfewer : keys.dedup.length ≤ (keys ++ [k']).dedup.length :=
      (List.subperm_of_subset (List.nodup_dedup keys) fun x hx =>
        List.mem_dedup.mpr (List.mem_append_left _ (List.mem_dedup.mp hx))).length_le
    have ih := fun k => @ih k (Nat.le_trans hfewer h)
    rw [remembered_snoc, see]
    by_cases hold : k' ∈ remembered capacity keys
    · rw [if_pos hold, ih]
      have hin := (ih k').mp hold
      simp only [List.mem_append, List.mem_singleton]
      exact ⟨.inl, fun hk => hk.elim id fun heq => heq ▸ hin⟩
    · have hnew : (k' :: remembered capacity keys).Nodup := List.nodup_cons.mpr ⟨hold, remembered_nodup⟩
      have hsub : k' :: remembered capacity keys ⊆ (keys ++ [k']).dedup := by
        intro x hx
        rw [List.mem_dedup, List.mem_append, List.mem_singleton]
        exact (List.mem_cons.mp hx).elim .inr fun hx => .inl ((ih x).mp hx)
      have hroom := (List.subperm_of_subset hnew hsub).length_le
      rw [List.length_cons] at hroom
      rw [if_neg hold, if_neg (by omega)]
      simp only [List.mem_append, List.mem_singleton, ih]

/-- Where there is one, there is a first one. -/
theorem exists_first {α : Type} {P : α → Prop} : ∀ {l : List α}, (∃ a ∈ l, P a) →
    ∃ before a after, l = before ++ a :: after ∧ P a ∧ ∀ b ∈ before, ¬P b
  | [], ⟨_, ha, _⟩ => nomatch ha
  | x :: l, h => by
    by_cases hx : P x
    · exact ⟨[], x, l, rfl, hx, fun _ hb => nomatch hb⟩
    · obtain ⟨a, ha, hP⟩ := h
      have hrest : a ∈ l := (List.mem_cons.mp ha).resolve_left fun heq => hx (heq ▸ hP)
      obtain ⟨before, b, after, rfl, hb, hnone⟩ := exists_first ⟨a, hrest, hP⟩
      exact ⟨x :: before, b, after, rfl, hb, List.forall_mem_cons.mpr ⟨hx, hnone⟩⟩

end Seen
