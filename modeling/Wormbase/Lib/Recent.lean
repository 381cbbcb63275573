import Mathlib.Data.List.Induction
import Mathlib.Order.Lattice

/-! The most recent element of a list: none is later, and of those that are as late it stands last.

    A scan that replaces its pick by whatever is not earlier finds it (`scan_eq_some_iff`). Where the places
    are told by a strict order, it is the element that beats each of its rivals (`latest_iff_of_pairwise`). -/

namespace Recent
variable {α τ : Type*} [LinearOrder τ] {date : α → τ} {xs : List α} {a x y : α}

def Latest (date : α → τ) (xs : List α) (x : α) : Prop :=
  ∃ before after, xs = before ++ x :: after ∧ (∀ y ∈ before, date y ≤ date x) ∧ ∀ y ∈ after, date y < date x

theorem Latest.mem (h : Latest date xs x) : x ∈ xs := by
  obtain ⟨before, after, rfl, -⟩ := h
  simp

theorem Latest.le (h : Latest date xs x) (hy : y ∈ xs) : date y ≤ date x := by
  obtain ⟨before, after, rfl, hbefore, hafter⟩ := h
  rcases List.mem_append.mp hy with hy | hy
  · exact hbefore y hy
  · rcases List.mem_cons.mp hy with rfl | hy
    · exact le_rfl
    · exact (hafter y hy).le

/-- One more element is the latest one, or it is earlier than the one that was. -/
theorem latest_concat : Latest date (xs ++ [a]) x ↔
    x = a ∧ (∀ y ∈ xs, date y ≤ date a) ∨ Latest date xs x ∧ date a < date x := by
  constructor
  · rintro ⟨before, after, heq, hbefore, hafter⟩
    induction after using List.reverseRecOn with
    | nil =>
      obtain ⟨rfl, hlast⟩ := List.append_inj' heq rfl
      obtain rfl := List.singleton_inj.mp hlast
      exact .inl ⟨rfl, hbefore⟩
    | append_singleton after z _ =>
      have heq : xs ++ [a] = (before ++ x :: after) ++ [z] := by rw [heq, List.append_assoc, List.cons_append]
      obtain ⟨rfl, hz⟩ := List.append_inj' heq rfl
      obtain rfl := List.singleton_inj.mp hz
      exact .inr ⟨⟨before, after, rfl, hbefore, fun z hz => hafter z (List.mem_append_left _ hz)⟩, hafter a (by simp)⟩
  · rintro (⟨rfl, hle⟩ | ⟨⟨before, after, rfl, hbefore, hafter⟩, hlt⟩)
    · exact ⟨xs, [], rfl, hle, fun y hy => nomatch hy⟩
    · refine ⟨before, after ++ [a], by simp, hbefore, fun y hy => ?_⟩
      rcases List.mem_append.mp hy with hy | hy
      · exact hafter y hy
      · rwa [List.mem_singleton.mp hy]

theorem latest_unique (hx : Latest date xs x) (hy : Latest date xs y) : x = y := by
  induction xs using List.reverseRecOn with
  | nil => exact nomatch hx.mem
  | append_singleton xs a ih =>
    rw [latest_concat] at hx hy
    rcases hx with ⟨rfl, hx⟩ | ⟨hx, hxa⟩
    · rcases hy with ⟨rfl, -⟩ | ⟨hy, hya⟩
      · rfl
      · exact absurd (hx y hy.mem) (not_le.mpr hya)
    · rcases hy with ⟨rfl, hy⟩ | ⟨hy, hya⟩
      · exact absurd (hy x hx.mem) (not_le.mpr hxa)
      · exact ih hx hy

/-! ### A scan -/

/-- The pick after one more element. -/
def scan (date : α → τ) (best : Option α) (x : α) : Option α :=
  match best with
  | none => some x
  | some b => if date b ≤ date x then some x else some b

theorem scan_eq_none_iff : xs.foldl (scan date) none = none ↔ xs = [] := by
  induction xs using List.reverseRecOn with
  | nil => simp
  | append_singleton xs a _ =>
    rw [List.foldl_append, List.foldl_cons, List.foldl_nil]
    cases xs.foldl (scan date) none with
    | none => simp [scan]
    | some b => by_cases h : date b ≤ date a <;> simp [scan, h]

theorem scan_eq_some_iff : xs.foldl (scan date) none = some x ↔ Latest date xs x := by
  induction xs using List.reverseRecOn generalizing x with
  | nil =>
    constructor
    · exact fun h => nomatch h
    · exact fun h => nomatch h.mem
  | append_singleton xs a ih =>
    rw [List.foldl_append, List.foldl_cons, List.foldl_nil, latest_concat]
    cases hbest : xs.foldl (scan date) none with
    | none =>
      obtain rfl := scan_eq_none_iff.mp hbest
      constructor
      · intro h
        exact .inl ⟨(Option.some.inj h).symm, fun y hy => nomatch hy⟩
      · rintro (⟨rfl, -⟩ | ⟨h, -⟩)
        · rfl
        · exact nomatch h.mem
    | some b =>
      have hb := ih.mp hbest
      rw [scan]
      by_cases hle : date b ≤ date a
      · rw [if_pos hle]
        constructor
        · intro h
          obtain rfl := Option.some.inj h
          exact .inl ⟨rfl, fun y hy => (hb.le hy).trans hle⟩
        · rintro (⟨rfl, -⟩ | ⟨hx, hlt⟩)
          · rfl
          · obtain rfl := latest_unique hx hb
            exact absurd hle (not_le.mpr hlt)
      · rw [if_neg hle]
        constructor
        · intro h
          obtain rfl := Option.some.inj h
          exact .inr ⟨hb, not_le.mp hle⟩
        · rintro (⟨rfl, hall⟩ | ⟨hx, -⟩)
          · exact absurd (hall b hb.mem) hle
          · rw [latest_unique hx hb]

theorem exists_latest (h : xs ≠ []) : ∃ x, Latest date xs x := by
  cases hscan : xs.foldl (scan date) none with
  | none => exact absurd (scan_eq_none_iff.mp hscan) h
  | some x => exact ⟨x, scan_eq_some_iff.mp hscan⟩

/-- In a list whose places are told by a strict order, the latest element is read off its rivals. -/
theorem latest_iff_of_pairwise {before : α → α → Prop} (hasymm : ∀ y z, before y z → ¬before z y)
    (hsorted : xs.Pairwise before) : Latest date xs x ↔
      x ∈ xs ∧ ∀ y ∈ xs, y ≠ x → date y < date x ∨ date y = date x ∧ before y x := by
  constructor
  · intro h
    refine ⟨h.mem, fun y hy hne => ?_⟩
    obtain ⟨ys, zs, rfl, hys, hzs⟩ := h
    obtain ⟨-, -, hacross⟩ := List.pairwise_append.mp hsorted
    rcases List.mem_append.mp hy with hy | hy
    · rcases (hys y hy).lt_or_eq with hlt | heq
      · exact .inl hlt
      · exact .inr ⟨heq, hacross y hy x List.mem_cons_self⟩
    · exact .inl (hzs y (List.mem_of_ne_of_mem hne hy))
  · rintro ⟨hx, hall⟩
    obtain ⟨ys, zs, rfl⟩ := List.append_of_mem hx
    obtain ⟨-, hcons, hacross⟩ := List.pairwise_append.mp hsorted
    have hafter := (List.pairwise_cons.mp hcons).1
    refine ⟨ys, zs, rfl, fun y hy => ?_, fun y hy => ?_⟩
    · by_cases heq : y = x
      · rw [heq]
      · rcases hall y (by simp [hy]) heq with hlt | ⟨heq, -⟩
        · exact hlt.le
        · exact heq.le
    · have hne : y ≠ x := fun heq => hasymm x x (heq ▸ hafter y hy) (heq ▸ hafter y hy)
      rcases hall y (by simp [hy]) hne with hlt | ⟨-, hbefore⟩
      · exact hlt
      · exact absurd hbefore (hasymm x y (hafter y hy))

end Recent
