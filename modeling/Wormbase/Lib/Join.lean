import Mathlib.Data.List.Basic
import Mathlib.Data.List.Count
import Mathlib.Algebra.Order.Ring.Nat

/-! Lists joined with a separator: the parts can be told from the joined list exactly when none of
    them has the separator in it. -/

namespace Join
variable {α : Type} {x : α}

section
variable [DecidableEq α]

/-- The separators of the joined list are those of the parts and the ones between them. -/
theorem count_join : ∀ xs : List (List α),
    ([x].intercalate xs).count x = (xs.map (List.count x)).sum + (xs.length - 1)
  | [] => rfl
  | [a] => by simp
  | a :: b :: xs => by
    have ih := count_join (b :: xs)
    rw [List.intercalate_cons_cons, List.count_append, List.count_append, ih]
    simp only [List.count_singleton_self, List.map_cons, List.sum_cons, List.length_cons]
    omega

/-- What stands before the first separator, and what after it, can be told from the whole. -/
theorem eq_of_append_cons_eq {a a' b b' : List α} (ha : x ∉ a) (ha' : x ∉ a')
    (h : a ++ x :: b = a' ++ x :: b') : a = a' ∧ b = b' := by
  have htake : ∀ {n r : List α}, x ∉ n → (n ++ x :: r).takeWhile (· ≠ x) = n := by
    intro n r hn
    have hall : ∀ c ∈ n, decide (c ≠ x) = true := by
      intro c hc
      have hne : c ≠ x := fun heq => hn (heq ▸ hc)
      simpa using hne
    rw [List.takeWhile_append_of_pos hall]
    simp
  have hsame : a = a' := by rw [← htake (r := b) ha, h, htake ha']
  subst hsame
  exact ⟨rfl, (List.cons.inj (List.append_cancel_left h)).2⟩

/-- Lists of one length that join to the same have their separators between the parts, or neither
    has. -/
theorem free_of_join_eq {xs ys : List (List α)} (hlen : ys.length = xs.length)
    (hxs : ∀ a ∈ xs, x ∉ a) (h : [x].intercalate ys = [x].intercalate xs) : ∀ a ∈ ys, x ∉ a := by
  have hcount := congrArg (List.count x) h
  rw [count_join, count_join, hlen] at hcount
  have hzero : (xs.map (List.count x)).sum = 0 := by
    refine List.sum_eq_zero_iff_forall_eq_nat.mpr fun n hn => ?_
    obtain ⟨a, ha, rfl⟩ := List.mem_map.mp hn
    exact List.count_eq_zero.mpr (hxs a ha)
  have hsum : (ys.map (List.count x)).sum = 0 := by omega
  intro a ha
  exact List.count_eq_zero.mp
    (List.sum_eq_zero_iff_forall_eq_nat.mp hsum _ (List.mem_map_of_mem ha))

/-- Cut at its separators, the joined list gives the pieces of its parts. -/
theorem splitOn_join : ∀ {xs : List (List α)}, xs ≠ [] →
    ([x].intercalate xs).splitOn x = xs.flatMap fun a => a.splitOn x
  | [a], _ => by simp
  | a :: b :: xs, _ => by
    have ih := splitOn_join (List.cons_ne_nil b xs)
    rw [List.intercalate_cons_cons, List.append_assoc, List.singleton_append, List.splitOn_append_cons_self, ih,
      List.flatMap_cons, List.flatMap_cons, List.flatMap_cons]

/-- Lists join to the same exactly if their parts have the same pieces. -/
theorem join_eq_iff {xs ys : List (List α)} (hxs : xs ≠ []) (hys : ys ≠ []) :
    [x].intercalate xs = [x].intercalate ys ↔
      (xs.flatMap fun a => a.splitOn x) = ys.flatMap fun a => a.splitOn x := by
  rw [← splitOn_join hxs, ← splitOn_join hys]
  constructor
  · exact congrArg _
  · intro h
    have hjoin := congrArg ([x].intercalate ·) h
    simp only [List.intercalate_splitOn] at hjoin
    exact hjoin

/-- Parts without the separator are the only ones that join to what they join to. -/
theorem eq_of_join_eq {xs ys : List (List α)} (hlen : ys.length = xs.length)
    (hxs : ∀ a ∈ xs, x ∉ a) (h : [x].intercalate ys = [x].intercalate xs) : ys = xs := by
  cases xs with
  | nil => exact List.length_eq_zero_iff.mp hlen
  | cons a xs =>
    have hne : ys ≠ [] := by
      rintro rfl
      cases hlen
    have hys := free_of_join_eq hlen hxs h
    rw [← List.splitOn_intercalate x hys hne, h,
      List.splitOn_intercalate x hxs (List.cons_ne_nil a xs)]

end

/-- Where a part has the separator, another list of parts joins to the same: a separator moves to
    the place of its neighbour. -/
theorem exists_other : ∀ {xs : List (List α)}, 2 ≤ xs.length → (∃ a ∈ xs, x ∈ a) →
    ∃ ys : List (List α), ys.length = xs.length ∧ ys ≠ xs ∧ [x].intercalate ys = [x].intercalate xs
  | a :: b :: xs, _, ⟨c, hc, hx⟩ => by
    rcases List.mem_cons.mp hc with rfl | hc
    · obtain ⟨u, v, rfl⟩ := List.append_of_mem hx
      refine ⟨u :: (v ++ x :: b) :: xs, rfl, by simp, ?_⟩
      cases xs with
      | nil => simp
      | cons d xs => simp
    rcases List.mem_cons.mp hc with rfl | hc
    · obtain ⟨u, v, rfl⟩ := List.append_of_mem hx
      refine ⟨(a ++ x :: u) :: v :: xs, rfl, by simp, ?_⟩
      cases xs with
      | nil => simp
      | cons d xs => simp
    · have hpos := List.length_pos_of_mem hc
      have htwo : 2 ≤ (b :: xs).length := by
        simp only [List.length_cons]
        omega
      obtain ⟨ys, hlen, hne, hjoin⟩ := exists_other htwo ⟨c, List.mem_cons_of_mem b hc, hx⟩
      have hys : ys ≠ [] := by
        rintro rfl
        cases hlen
      refine ⟨a :: ys, by simp [hlen], fun h => hne (List.cons.inj h).2, ?_⟩
      rw [List.intercalate_cons_of_ne_nil hys, List.intercalate_cons_cons, hjoin]

end Join
