import Mathlib.Data.List.Count
import Mathlib.Order.Nat
import Mathlib.Algebra.Order.Ring.Int

/-! Charges of keys to periods, each checked against a cap before it is made.

    A check and its charge may fall into different periods. As long as time only goes forward, a charge
    to a later period than its check is the first of that period, so the cap holds all the same. -/

namespace Meter
variable {κ : Type} [DecidableEq κ]

/-- Each charge was checked in a period that no earlier charge is past, and made in that or a later
    one. -/
inductive Charged (cap : ℕ) : List (κ × ℤ) → Prop where
  | nil : Charged cap []
  | charge {charges : List (κ × ℤ)} (h : Charged cap charges) (key : κ) {checked made : ℤ}
      (hpast : ∀ x ∈ charges, x.2 ≤ checked) (hcheck : charges.count (key, checked) < cap)
      (hle : checked ≤ made) : Charged cap (charges ++ [(key, made)])

theorem Charged.count_le {cap : ℕ} {charges : List (κ × ℤ)} (h : Charged cap charges) (x : κ × ℤ) :
    charges.count x ≤ cap := by
  induction h with
  | nil => simp
  | @charge charges h key checked made hpast hcheck hle ih =>
    rw [List.count_append, List.count_singleton]
    by_cases hx : (key, made) = x
    · subst hx
      simp only [beq_self_eq_true, if_true]
      rcases hle.eq_or_lt with rfl | hlt
      · omega
      · -- nothing was charged to the later period before
        have hzero : charges.count (key, made) = 0 :=
          List.count_eq_zero.mpr fun hmem => absurd (hpast _ hmem) (not_le.mpr hlt)
        omega
    · simpa [hx] using ih

end Meter
