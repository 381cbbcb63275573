import Mathlib.Data.List.Induction

/-! A counter that goes up on some items, down on others, and stops at zero.

    What it ends at is the largest excess of ups over downs at the end of the list: an up can only be
    undone by a down that comes after it. -/

namespace Balance
variable {α : Type} (up down : α → Bool)

def turn (n : ℕ) (x : α) : ℕ := if up x then n + 1 else if down x then n - 1 else n

def balance (xs : List α) : ℕ := xs.foldl (turn up down) 0

/-- From every point of the list on, there are no more ups than downs. -/
def Settled (xs : List α) : Prop := ∀ tail, tail <:+ xs → tail.countP up ≤ tail.countP down

variable {up down}

theorem balance_concat (xs : List α) (x : α) :
    balance up down (xs ++ [x]) = turn up down (balance up down xs) x := by
  rw [balance, List.foldl_append]
  rfl

theorem suffix_concat {xs : List α} {x : α} {P : List α → Prop} :
    (∀ tail, tail <:+ xs ++ [x] → P tail) ↔ P [] ∧ ∀ tail, tail <:+ xs → P (tail ++ [x]) := by
  constructor
  · intro h
    refine ⟨h [] List.nil_suffix, fun tail htail => h _ ?_⟩
    exact List.suffix_concat_iff.mpr (.inr ⟨tail, rfl, htail⟩)
  · rintro ⟨hnil, hconcat⟩ tail htail
    rcases List.suffix_concat_iff.mp htail with rfl | ⟨t, rfl, ht⟩
    · exact hnil
    · exact hconcat t ht

/-- The counter is at most `n` exactly if no end of the list has more than `n` ups over its downs. -/
theorem balance_le_iff (hup : ∀ x, up x = true → down x = false) (xs : List α) : ∀ n,
    balance up down xs ≤ n ↔ ∀ tail, tail <:+ xs → tail.countP up ≤ tail.countP down + n := by
  induction xs using List.reverseRecOn with
  | nil =>
    intro n
    simp [balance]
  | append_singleton xs x ih =>
    intro n
    rw [balance_concat, turn, suffix_concat]
    simp only [List.countP_append, List.countP_singleton, List.countP_nil]
    by_cases hx : up x = true
    · have hdown := hup x hx
      simp only [hx, hdown, if_true, Bool.false_eq_true, if_false, Nat.add_zero]
      cases n with
      | zero =>
        refine ⟨fun h => absurd h (by omega), fun ⟨_, h⟩ => ?_⟩
        have := h [] List.nil_suffix
        simp at this
      | succ n =>
        have hstep := ih n
        constructor
        · intro h
          refine ⟨by omega, fun tail htail => ?_⟩
          have := hstep.mp (by omega) tail htail
          omega
        · rintro ⟨-, h⟩
          have := hstep.mpr fun tail htail => by
            have := h tail htail
            omega
          omega
    · by_cases hy : down x = true
      · have hstep := ih (n + 1)
        simp only [hx, hy, if_true, Bool.false_eq_true, if_false, Nat.add_zero]
        constructor
        · intro h
          refine ⟨by omega, fun tail htail => ?_⟩
          have := hstep.mp (by omega) tail htail
          omega
        · rintro ⟨-, h⟩
          have := hstep.mpr fun tail htail => by
            have := h tail htail
            omega
          omega
      · simp only [hx, hy, Bool.false_eq_true, if_false, Nat.add_zero]
        rw [ih n]
        exact ⟨fun h => ⟨by omega, h⟩, fun h => h.2⟩

theorem balance_eq_zero_iff (hup : ∀ x, up x = true → down x = false) (xs : List α) :
    balance up down xs = 0 ↔ Settled up down xs := by
  rw [← Nat.le_zero, balance_le_iff hup]
  rfl

/-- Without downs the counter is at zero exactly if nothing goes up. -/
theorem settled_of_none {xs : List α} (h : ∀ x ∈ xs, down x = false) :
    Settled up down xs ↔ ∀ x ∈ xs, up x = false := by
  have hzero : ∀ tail, tail <:+ xs → tail.countP down = 0 := fun tail htail =>
    List.countP_eq_zero.mpr fun x hx => by simp [h x (htail.subset hx)]
  constructor
  · intro hset x hx
    have hcount := hset xs List.suffix_rfl
    rw [hzero xs List.suffix_rfl, Nat.le_zero, List.countP_eq_zero] at hcount
    simpa using hcount x hx
  · intro hnone tail htail
    rw [hzero tail htail, Nat.le_zero, List.countP_eq_zero]
    exact fun x hx => by simp [hnone x (htail.subset hx)]

end Balance
