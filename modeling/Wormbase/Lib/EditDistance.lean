import Mathlib.Order.Lattice.Nat
import Mathlib.Data.List.Infix

/-! The Levenshtein distance of two lists: the least number of insertions, deletions and substitutions that
    make one of the other.

    Edits can be read from either end and in either direction, so a table may be filled from the front as well
    as from the back, with the lists in either order. -/

variable {α : Type*} {xs ys xs' ys' zs : List α} {x y : α} {m n : ℕ}

/-- `n` edits make the second list of the first. -/
inductive Edits : List α → List α → ℕ → Prop
  | nil : Edits [] [] 0
  | keep (x : α) {xs ys : List α} {n : ℕ} : Edits xs ys n → Edits (x :: xs) (x :: ys) n
  | substitute (x y : α) {xs ys : List α} {n : ℕ} : Edits xs ys n → Edits (x :: xs) (y :: ys) (n + 1)
  | delete (x : α) {xs ys : List α} {n : ℕ} : Edits xs ys n → Edits (x :: xs) ys (n + 1)
  | insert (y : α) {xs ys : List α} {n : ℕ} : Edits xs ys n → Edits xs (y :: ys) (n + 1)

namespace Edits

theorem deleteAll : ∀ xs : List α, Edits xs [] xs.length
  | [] => nil
  | x :: xs => (deleteAll xs).delete x

theorem insertAll : ∀ ys : List α, Edits [] ys ys.length
  | [] => nil
  | y :: ys => (insertAll ys).insert y

theorem refl : ∀ xs : List α, Edits xs xs 0
  | [] => nil
  | x :: xs => (refl xs).keep x

theorem symm (h : Edits xs ys n) : Edits ys xs n := by
  induction h with
  | nil => exact nil
  | keep x _ ih => exact ih.keep x
  | substitute x y _ ih => exact ih.substitute y x
  | delete x _ ih => exact ih.insert x
  | insert y _ ih => exact ih.delete y

theorem append (h : Edits xs ys n) (h' : Edits xs' ys' m) : Edits (xs ++ xs') (ys ++ ys') (n + m) := by
  induction h with
  | nil => simpa using h'
  | keep x _ ih => exact ih.keep x
  | substitute x y _ ih => exact Nat.add_right_comm .. ▸ ih.substitute x y
  | delete x _ ih => exact Nat.add_right_comm .. ▸ ih.delete x
  | insert y _ ih => exact Nat.add_right_comm .. ▸ ih.insert y

theorem reverse (h : Edits xs ys n) : Edits xs.reverse ys.reverse n := by
  induction h with
  | nil => exact nil
  | keep x _ ih =>
    rw [List.reverse_cons, List.reverse_cons]
    exact ih.append (nil.keep x)
  | substitute x y _ ih =>
    rw [List.reverse_cons, List.reverse_cons]
    exact ih.append (nil.substitute x y)
  | delete x _ ih =>
    have h := ih.append (nil.delete x)
    rwa [List.append_nil, ← List.reverse_cons] at h
  | insert y _ ih =>
    have h := ih.append (nil.insert y)
    rwa [List.append_nil, ← List.reverse_cons] at h

/-- An edit changes the length by one at most. -/
theorem length_le (h : Edits xs ys n) : xs.length ≤ ys.length + n := by
  induction h with
  | nil => exact le_rfl
  | keep | substitute | delete | insert => simp only [List.length_cons]; omega

/-- Fewer edits reach what is behind a part of the target from some end of the source. -/
theorem drop_target (h : Edits xs zs n) : ∀ ws ys, zs = ws ++ ys → ∃ xs' m, xs' <:+ xs ∧ m ≤ n ∧ Edits xs' ys m := by
  induction h with
  | nil =>
    intro ws ys hsplit
    obtain ⟨-, rfl⟩ := List.append_eq_nil_iff.mp hsplit.symm
    exact ⟨[], 0, List.suffix_rfl, le_rfl, nil⟩
  | keep x h ih =>
    rintro (_ | ⟨w, ws⟩) ys hsplit
    · rw [List.nil_append] at hsplit
      subst hsplit
      exact ⟨_, _, List.suffix_rfl, le_rfl, h.keep x⟩
    · obtain ⟨xs', m, hsuffix, hle, hedits⟩ := ih ws ys (List.cons.inj hsplit).2
      exact ⟨xs', m, hsuffix.trans (List.suffix_cons ..), hle, hedits⟩
  | substitute x y h ih =>
    rintro (_ | ⟨w, ws⟩) ys hsplit
    · rw [List.nil_append] at hsplit
      subst hsplit
      exact ⟨_, _, List.suffix_rfl, le_rfl, h.substitute x y⟩
    · obtain ⟨xs', m, hsuffix, hle, hedits⟩ := ih ws ys (List.cons.inj hsplit).2
      exact ⟨xs', m, hsuffix.trans (List.suffix_cons ..), by omega, hedits⟩
  | delete x h ih =>
    intro ws ys hsplit
    obtain ⟨xs', m, hsuffix, hle, hedits⟩ := ih ws ys hsplit
    exact ⟨xs', m, hsuffix.trans (List.suffix_cons ..), by omega, hedits⟩
  | insert y h ih =>
    rintro (_ | ⟨w, ws⟩) ys hsplit
    · rw [List.nil_append] at hsplit
      subst hsplit
      exact ⟨_, _, List.suffix_rfl, le_rfl, h.insert y⟩
    · obtain ⟨xs', m, hsuffix, hle, hedits⟩ := ih ws ys (List.cons.inj hsplit).2
      exact ⟨xs', m, hsuffix, by omega, hedits⟩

end Edits

/-- The Levenshtein distance. -/
noncomputable def levenshtein (xs ys : List α) : ℕ := sInf {n | Edits xs ys n}

theorem edits_levenshtein (xs ys : List α) : Edits xs ys (levenshtein xs ys) := by
  have hsome : Edits xs ys (xs.length + ys.length) := by
    have h := (Edits.deleteAll xs).append (Edits.insertAll ys)
    rwa [List.append_nil, List.nil_append] at h
  exact Nat.sInf_mem (s := {n | Edits xs ys n}) ⟨_, hsome⟩

theorem levenshtein_le (h : Edits xs ys n) : levenshtein xs ys ≤ n := Nat.sInf_le h

theorem levenshtein_comm (xs ys : List α) : levenshtein xs ys = levenshtein ys xs :=
  le_antisymm (levenshtein_le (edits_levenshtein ys xs).symm) (levenshtein_le (edits_levenshtein xs ys).symm)

theorem levenshtein_reverse (xs ys : List α) : levenshtein xs.reverse ys.reverse = levenshtein xs ys := by
  refine le_antisymm (levenshtein_le (edits_levenshtein xs ys).reverse) (levenshtein_le ?_)
  have h := (edits_levenshtein xs.reverse ys.reverse).reverse
  rwa [List.reverse_reverse, List.reverse_reverse] at h

theorem levenshtein_self (xs : List α) : levenshtein xs xs = 0 := Nat.le_zero.mp (levenshtein_le (.refl xs))

theorem levenshtein_eq_zero (h : levenshtein xs ys = 0) : xs = ys := by
  have hedits := edits_levenshtein xs ys
  generalize levenshtein xs ys = n at h hedits
  induction hedits with
  | nil => rfl
  | keep x _ ih => rw [ih h]
  | substitute | delete | insert => simp at h

theorem length_le_levenshtein (xs ys : List α) : xs.length ≤ ys.length + levenshtein xs ys :=
  (edits_levenshtein xs ys).length_le

theorem levenshtein_nil_left (ys : List α) : levenshtein [] ys = ys.length := by
  refine le_antisymm (levenshtein_le (.insertAll ys)) ?_
  have h := length_le_levenshtein ys []
  rw [levenshtein_comm, List.length_nil, Nat.zero_add] at h
  exact h

theorem levenshtein_nil_right (xs : List α) : levenshtein xs [] = xs.length := by
  rw [levenshtein_comm, levenshtein_nil_left]

/-- The recursion that the tables follow. -/
theorem levenshtein_cons [DecidableEq α] (x y : α) (xs ys : List α) : levenshtein (x :: xs) (y :: ys) =
    min (min (levenshtein xs (y :: ys) + 1) (levenshtein (x :: xs) ys + 1))
      (levenshtein xs ys + if x = y then 0 else 1) := by
  refine le_antisymm (le_min (le_min ?_ ?_) ?_) ?_
  · exact levenshtein_le ((edits_levenshtein xs (y :: ys)).delete x)
  · exact levenshtein_le ((edits_levenshtein (x :: xs) ys).insert y)
  · split
    · rename_i heq
      subst heq
      exact levenshtein_le ((edits_levenshtein xs ys).keep x)
    · exact levenshtein_le ((edits_levenshtein xs ys).substitute x y)
  · have hedits := edits_levenshtein (x :: xs) (y :: ys)
    generalize levenshtein (x :: xs) (y :: ys) = n at hedits
    cases hedits with
    | keep _ h =>
      have hle := levenshtein_le h
      rw [if_pos rfl]
      omega
    | substitute _ _ h =>
      have hle := levenshtein_le h
      split <;> omega
    | delete _ h =>
      have hle := levenshtein_le h
      omega
    | insert _ h =>
      have hle := levenshtein_le h
      omega

/-- A row of the table bounds the rows after it from below. -/
theorem exists_suffix_levenshtein_le (xs ws ys : List α) :
    ∃ xs', xs' <:+ xs ∧ levenshtein xs' ys ≤ levenshtein xs (ws ++ ys) := by
  obtain ⟨xs', m, hsuffix, hle, hedits⟩ := (edits_levenshtein xs (ws ++ ys)).drop_target ws ys rfl
  exact ⟨xs', hsuffix, (levenshtein_le hedits).trans hle⟩
