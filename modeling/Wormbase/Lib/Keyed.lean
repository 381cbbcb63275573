import Mathlib.Data.List.Nodup

/-! Logs of rows with keys: rows are only added, and a writer that looks its keys up first never writes
    one twice. -/

namespace Keyed
variable {ρ κ : Type} {keys : ρ → List κ} {rows part new more : List ρ}

/-- No key occurs twice in the rows. -/
def Distinct (keys : ρ → List κ) (rows : List ρ) : Prop := (rows.flatMap keys).Nodup

/-- The new rows have no key twice, and none that a row before them has. -/
structure Fresh (keys : ρ → List κ) (rows new : List ρ) : Prop where
  once : Distinct keys new
  unseen : ∀ k ∈ new.flatMap keys, k ∉ rows.flatMap keys

theorem distinct_nil : Distinct keys [] := List.nodup_nil

theorem fresh_nil (rows : List ρ) : Fresh keys rows [] := ⟨distinct_nil, nofun⟩

/-- One key that no row has yet. -/
theorem fresh_one {k : κ} (hnew : new.flatMap keys = [k]) (hk : k ∉ rows.flatMap keys) : Fresh keys rows new := by
  constructor
  · rw [Distinct, hnew]
    exact List.nodup_singleton k
  · intro k' hk'
    rw [hnew, List.mem_singleton] at hk'
    exact hk' ▸ hk

theorem Fresh.append (h : Fresh keys rows new) (hmore : Fresh keys (rows ++ new) more) :
    Fresh keys rows (new ++ more) := by
  have hout : ∀ k ∈ more.flatMap keys, k ∉ rows.flatMap keys ∧ k ∉ new.flatMap keys := by
    intro k hk
    have hunseen := hmore.unseen k hk
    rw [List.flatMap_append, List.mem_append, not_or] at hunseen
    exact hunseen
  constructor
  · rw [Distinct, List.flatMap_append]
    refine h.once.append hmore.once fun k hk hk' => ?_
    exact (hout k hk').2 hk
  · intro k hk
    rw [List.flatMap_append, List.mem_append] at hk
    rcases hk with hk | hk
    · exact h.unseen k hk
    · exact (hout k hk).1

/-- What part of a log holds stays without repetition when fresh rows come to it. -/
theorem Distinct.append (h : Distinct keys part) (hpart : ∀ r ∈ part, r ∈ rows) (hnew : Fresh keys rows new) :
    Distinct keys (part ++ new) := by
  rw [Distinct, List.flatMap_append]
  refine List.Nodup.append h hnew.once fun k hk hk' => hnew.unseen k hk' ?_
  obtain ⟨r, hr, hkr⟩ := List.mem_flatMap.mp hk
  exact List.mem_flatMap.mpr ⟨r, hpart r hr, hkr⟩

end Keyed
