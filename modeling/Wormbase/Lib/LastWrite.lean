import Wormbase.Lib.Table
import Mathlib.Data.List.Induction

/-! The last write under each key of a log.

    A table that is written in the order of the log ends with these writes, and a scan that starts
    at the end and takes the first hit of each key finds the same ones. -/

namespace LastWrite
variable {α κ κ' ρ : Type} {key : α → Option κ} {key' : α → Option κ'} {xs : List α} {a x : α}

/-- `x` has a key, and nothing after it in the log has the same. -/
def Last (key : α → Option κ) (xs : List α) (x : α) : Prop :=
  ∃ ys zs, xs = ys ++ x :: zs ∧ (key x).isSome ∧ ∀ z ∈ zs, key z ≠ key x

theorem Last.mem (h : Last key xs x) : x ∈ xs := by
  obtain ⟨ys, zs, rfl, -⟩ := h
  simp

theorem not_last_nil : ¬Last key [] x := fun h => nomatch h.mem

/-- Seen from the start of the log. -/
theorem last_cons : Last key (a :: xs) x ↔
    Last key xs x ∨ x = a ∧ (key a).isSome ∧ ∀ z ∈ xs, key z ≠ key a := by
  constructor
  · rintro ⟨ys, zs, heq, hsome, hlast⟩
    cases ys with
    | nil =>
      obtain ⟨rfl, rfl⟩ := List.cons.inj heq
      exact .inr ⟨rfl, hsome, hlast⟩
    | cons y ys =>
      obtain ⟨-, rfl⟩ := List.cons.inj heq
      exact .inl ⟨ys, zs, rfl, hsome, hlast⟩
  · rintro (⟨ys, zs, rfl, hsome, hlast⟩ | ⟨rfl, hsome, hlast⟩)
    · exact ⟨a :: ys, zs, rfl, hsome, hlast⟩
    · exact ⟨[], xs, rfl, hsome, hlast⟩

/-- Seen from the end of the log. -/
theorem last_concat : Last key (xs ++ [a]) x ↔ x = a ∧ (key a).isSome ∨ Last key xs x ∧ key a ≠ key x := by
  constructor
  · rintro ⟨ys, zs, heq, hsome, hlast⟩
    induction zs using List.reverseRecOn with
    | nil =>
      obtain ⟨-, heq⟩ := List.append_inj' heq rfl
      obtain rfl := List.singleton_inj.mp heq
      exact .inl ⟨rfl, hsome⟩
    | append_singleton zs z _ =>
      have heq : xs ++ [a] = (ys ++ x :: zs) ++ [z] := by rw [heq, List.append_assoc, List.cons_append]
      obtain ⟨rfl, hz⟩ := List.append_inj' heq rfl
      obtain rfl := List.singleton_inj.mp hz
      exact .inr ⟨⟨ys, zs, rfl, hsome, fun z hz => hlast z (List.mem_append_left _ hz)⟩,
        hlast a (by simp)⟩
  · rintro (⟨rfl, hsome⟩ | ⟨⟨ys, zs, rfl, hsome, hlast⟩, hne⟩)
    · exact ⟨xs, [], rfl, hsome, fun z hz => nomatch hz⟩
    · refine ⟨ys, zs ++ [a], by simp, hsome, fun z hz => ?_⟩
      rcases List.mem_append.mp hz with hz | hz
      · exact hlast z hz
      · rwa [List.mem_singleton.mp hz]

/-- A key has one last write. -/
theorem last_unique {y : α} (hx : Last key xs x) (hy : Last key xs y) (hkey : key x = key y) : x = y := by
  induction xs using List.reverseRecOn with
  | nil => exact absurd hx not_last_nil
  | append_singleton xs a ih =>
    rw [last_concat] at hx hy
    rcases hx with ⟨rfl, -⟩ | ⟨hx, hxa⟩
    · rcases hy with ⟨rfl, -⟩ | ⟨-, hya⟩
      · rfl
      · exact absurd hkey hya
    · rcases hy with ⟨rfl, -⟩ | ⟨hy, -⟩
      · exact absurd hkey.symm hxa
      · exact ih hx hy

/-- Keys that tell the entries apart alike have the same last writes. -/
theorem last_congr (hsome : ∀ y ∈ xs, (key y).isSome = (key' y).isSome)
    (hsame : ∀ y ∈ xs, ∀ z ∈ xs, key z = key y ↔ key' z = key' y) : Last key xs x ↔ Last key' xs x := by
  constructor
  · rintro ⟨ys, zs, rfl, hx, hlast⟩
    refine ⟨ys, zs, rfl, hsome x (by simp) ▸ hx, fun z hz => ?_⟩
    exact mt (hsame x (by simp) z (by simp [hz])).mpr (hlast z hz)
  · rintro ⟨ys, zs, rfl, hx, hlast⟩
    refine ⟨ys, zs, rfl, (hsome x (by simp)).symm ▸ hx, fun z hz => ?_⟩
    exact mt (hsame x (by simp) z (by simp [hz])).mp (hlast z hz)

/-! ### A table -/

variable [DecidableEq κ] {idOf : ρ → κ} {rowOf : α → Option ρ}

/-- What an entry writes. -/
def write (rowOf : α → Option ρ) (t : Table idOf) (x : α) : Table idOf :=
  match rowOf x with
  | some r => t.put r
  | none => t

/-- A table that was written in the order of the log holds the last writes. -/
theorem mem_writes {r : ρ} (xs : List α) : r ∈ (xs.foldl (write rowOf) (Table.empty : Table idOf)).rows ↔
    ∃ x, Last (fun x => (rowOf x).map idOf) xs x ∧ rowOf x = some r := by
  induction xs using List.reverseRecOn generalizing r with
  | nil =>
    constructor
    · exact fun h => nomatch h
    · rintro ⟨x, hx, -⟩
      exact absurd hx not_last_nil
  | append_singleton xs a ih =>
    rw [List.foldl_append, List.foldl_cons, List.foldl_nil, write]
    simp only [last_concat]
    cases ha : rowOf a with
    | none =>
      simp only [ih, Option.map_none, Option.isSome_none, Bool.false_eq_true, and_false, false_or]
      refine exists_congr fun x => ⟨?_, ?_⟩
      · rintro ⟨hx, hr⟩
        exact ⟨⟨hx, by simp [hr]⟩, hr⟩
      · rintro ⟨⟨hx, -⟩, hr⟩
        exact ⟨hx, hr⟩
    | some s =>
      simp only [Table.mem_put, ih]
      constructor
      · rintro (rfl | ⟨⟨x, hx, hr⟩, hne⟩)
        · exact ⟨a, .inl ⟨rfl, rfl⟩, ha⟩
        · exact ⟨x, .inr ⟨hx, by simp [hr, Ne.symm hne]⟩, hr⟩
      · rintro ⟨x, ⟨rfl, -⟩ | ⟨hx, hne⟩, hr⟩
        · exact .inl (Option.some.inj (hr.symm.trans ha))
        · refine .inr ⟨⟨x, hx, hr⟩, fun heq => hne ?_⟩
          rw [hr, Option.map_some, Option.map_some, heq]

end LastWrite
