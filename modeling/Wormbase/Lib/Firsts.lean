import Mathlib.Data.List.Induction
import Mathlib.Data.List.Nodup

/-! A pass that keeps, of each key, what it makes of the first item. Keys may be passed over, and a step may raise. -/

namespace Firsts
variable {α κ ο ε : Type}

/-- What a step does with an item of a good kind to the keys that have been seen and to what has been made. -/
structure Takes (good : α → Prop) (step : List κ × List ο → α → Except ε (List κ × List ο)) (key : α → Option κ)
    (skip : κ → Prop) (made : α → κ → ο → Prop) : Prop where
  passes : ∀ st a, good a → (∀ k, key a = some k → k ∈ st.1 ∨ skip k) → step st a = .ok st
  takes : ∀ st a k, good a → key a = some k → k ∉ st.1 → ¬skip k →
    ∃ o, made a k o ∧ step st a = .ok (k :: st.1, st.2 ++ [o])

/-- Items that were taken, with their keys and what was made of them. -/
structure Taken (key : α → Option κ) (skip : κ → Prop) (made : α → κ → ο → Prop) (R : α → α → Prop) (items : List α)
    (taken : List (α × κ × ο)) : Prop where
  sound : ∀ t ∈ taken, t.1 ∈ items ∧ key t.1 = some t.2.1 ∧ ¬skip t.2.1 ∧ made t.1 t.2.1 t.2.2
  first : ∀ t ∈ taken, ∀ b ∈ items, key b = some t.2.1 → b = t.1 ∨ R t.1 b
  nodup : (taken.map fun t => t.2.1).Nodup
  all : ∀ a ∈ items, ∀ k, key a = some k → ¬skip k → k ∈ taken.map fun t => t.2.1

section
variable {good : α → Prop} {step : List κ × List ο → α → Except ε (List κ × List ο)} {key : α → Option κ} {skip : κ → Prop}
  {made : α → κ → ο → Prop} {R : α → α → Prop} {items : List α} {seen : List κ} {out : List ο}

theorem Takes.run (h : Takes good step key skip made) (hgood : ∀ a ∈ items, good a) (hpairs : items.Pairwise R)
    (hfresh : ∀ a ∈ items, ∀ k, key a = some k → k ∉ seen) :
    ∃ taken, items.foldlM step (seen, out) =
        .ok ((taken.map fun t => t.2.1).reverse ++ seen, out ++ taken.map fun t => t.2.2) ∧
      Taken key skip made R items taken := by
  induction items using List.reverseRecOn with
  | nil =>
    refine ⟨[], ?_, ⟨?_, ?_, List.nodup_nil, ?_⟩⟩
    · simp [pure, Except.pure]
    · exact fun t ht => absurd ht List.not_mem_nil
    · exact fun t ht => absurd ht List.not_mem_nil
    · exact fun a ha => absurd ha List.not_mem_nil
  | append_singleton items a ih =>
    obtain ⟨hbefore, -, hlast⟩ := List.pairwise_append.mp hpairs
    obtain ⟨hold, hnew⟩ := List.forall_mem_append.mp hfresh
    have hnew := hnew a List.mem_cons_self
    obtain ⟨hgoods, ha⟩ := List.forall_mem_append.mp hgood
    have ha := ha a List.mem_cons_self
    obtain ⟨taken, hrun, htaken⟩ := ih hgoods hbefore hold
    have hmem : ∀ k, k ∈ (taken.map fun t => t.2.1).reverse ++ seen ↔ k ∈ (taken.map fun t => t.2.1) ∨ k ∈ seen := by
      intro k
      rw [List.mem_append, List.mem_reverse]
    have hfold : (items ++ [a]).foldlM step (seen, out) =
        step ((taken.map fun t => t.2.1).reverse ++ seen, out ++ taken.map fun t => t.2.2) a := by
      rw [List.foldlM_append, hrun]
      simp only [bind, Except.bind, List.foldlM_cons, List.foldlM_nil]
      cases step ((taken.map fun t => t.2.1).reverse ++ seen, out ++ taken.map fun t => t.2.2) a <;> rfl
    -- what follows an item that was taken comes after it
    have hafter : ∀ t ∈ taken, ∀ b ∈ items ++ [a], key b = some t.2.1 → b = t.1 ∨ R t.1 b := by
      intro t ht b hb hkey
      rcases List.mem_append.mp hb with hb | hb
      · exact htaken.first t ht b hb hkey
      · exact .inr (hlast t.1 (htaken.sound t ht).1 b hb)
    have hitems : ∀ t ∈ taken, t.1 ∈ items ++ [a] ∧ key t.1 = some t.2.1 ∧ ¬skip t.2.1 ∧ made t.1 t.2.1 t.2.2 := by
      intro t ht
      obtain ⟨hin, hrest⟩ := htaken.sound t ht
      exact ⟨List.mem_append_left _ hin, hrest⟩
    by_cases hpass : ∀ k, key a = some k → k ∈ (taken.map fun t => t.2.1).reverse ++ seen ∨ skip k
    · refine ⟨taken, hfold.trans (h.passes _ _ ha hpass), hitems, hafter, htaken.nodup, ?_⟩
      intro b hb k hkey hskip
      rcases List.mem_append.mp hb with hb | hb
      · exact htaken.all b hb k hkey hskip
      · obtain rfl := List.mem_singleton.mp hb
        rcases hpass k hkey with hin | hin
        · exact ((hmem k).mp hin).resolve_right (hnew k hkey)
        · exact absurd hin hskip
    · simp only [not_forall, not_or] at hpass
      obtain ⟨k, hkey, hseen, hskip⟩ := hpass
      obtain ⟨o, hmade, hstep⟩ := h.takes ((taken.map fun t => t.2.1).reverse ++ seen, out ++ taken.map fun t => t.2.2) a k
        ha hkey hseen hskip
      have hnot : k ∉ taken.map fun t => t.2.1 := fun hin => hseen ((hmem k).mpr (.inl hin))
      refine ⟨taken ++ [(a, k, o)], ?_, ?_, ?_, ?_, ?_⟩
      · rw [hfold, hstep]
        simp
      · rw [List.forall_mem_append, List.forall_mem_singleton]
        exact ⟨hitems, List.mem_append_right _ List.mem_cons_self, hkey, hskip, hmade⟩
      · rw [List.forall_mem_append, List.forall_mem_singleton]
        refine ⟨hafter, ?_⟩
        intro b hb hbkey
        rcases List.mem_append.mp hb with hb | hb
        · exact absurd (htaken.all b hb k hbkey hskip) hnot
        · exact .inl (List.mem_singleton.mp hb)
      · rw [List.map_append, List.map_singleton]
        refine List.nodup_append.mpr ⟨htaken.nodup, List.nodup_singleton k, ?_⟩
        rintro k' hk' _ hk rfl
        obtain rfl := List.mem_singleton.mp hk
        exact hnot hk'
      · intro b hb k' hk' hskip'
        rw [List.map_append, List.mem_append]
        rcases List.mem_append.mp hb with hb | hb
        · exact .inl (htaken.all b hb k' hk' hskip')
        · obtain rfl := List.mem_singleton.mp hb
          obtain rfl := Option.some.inj (hkey.symm.trans hk')
          exact .inr List.mem_cons_self

/-- Two passes over the same items, whose keys have nothing in common. -/
theorem Taken.or {key' : α → Option κ} {taken taken' : List (α × κ × ο)} (h : Taken key skip made R items taken)
    (h' : Taken key' skip made R items taken') (hone : ∀ a k, key a = some k → key' a = none)
    (hapart : ∀ a b k, key a = some k → key' b ≠ some k) :
    Taken (fun a => (key a).or (key' a)) skip made R items (taken ++ taken') := by
  have hleft : ∀ a k, key a = some k → (key a).or (key' a) = some k := fun a k hk => by rw [hk, Option.some_or]
  have hright : ∀ a k, key' a = some k → (key a).or (key' a) = some k := by
    intro a k hk
    cases hkey : key a with
    | none => rw [Option.none_or, hk]
    | some k' => cases (hone a k' hkey).symm.trans hk
  have hcases : ∀ a k, (key a).or (key' a) = some k → key a = some k ∨ key' a = some k := by
    intro a k hk
    cases hkey : key a with
    | none => exact .inr (by rwa [hkey, Option.none_or] at hk)
    | some k' => exact .inl (by rwa [hkey, Option.some_or] at hk)
  constructor
  · rw [List.forall_mem_append]
    refine ⟨fun t ht => ?_, fun t ht => ?_⟩
    · obtain ⟨hin, hkey, hrest⟩ := h.sound t ht
      exact ⟨hin, hleft _ _ hkey, hrest⟩
    · obtain ⟨hin, hkey, hrest⟩ := h'.sound t ht
      exact ⟨hin, hright _ _ hkey, hrest⟩
  · rw [List.forall_mem_append]
    refine ⟨fun t ht b hb hkey => ?_, fun t ht b hb hkey => ?_⟩
    · rcases hcases b _ hkey with hkey | hkey
      · exact h.first t ht b hb hkey
      · exact absurd hkey (hapart _ _ _ (h.sound t ht).2.1)
    · rcases hcases b _ hkey with hkey | hkey
      · exact absurd (h'.sound t ht).2.1 (hapart _ _ _ hkey)
      · exact h'.first t ht b hb hkey
  · rw [List.map_append]
    refine List.nodup_append.mpr ⟨h.nodup, h'.nodup, ?_⟩
    rintro k hk _ hk' rfl
    obtain ⟨t, ht, rfl⟩ := List.mem_map.mp hk
    obtain ⟨t', ht', hsame⟩ := List.mem_map.mp hk'
    exact hapart _ _ _ (h.sound t ht).2.1 (hsame ▸ (h'.sound t' ht').2.1)
  · intro a ha k hkey hskip
    rw [List.map_append, List.mem_append]
    rcases hcases a k hkey with hkey | hkey
    · exact .inl (h.all a ha k hkey hskip)
    · exact .inr (h'.all a ha k hkey hskip)

end

end Firsts
