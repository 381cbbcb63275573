import Wormbase.Py.Value
import Mathlib.Tactic.Linarith
import Mathlib.Tactic.NormNum
import Mathlib.Tactic.Ring

/-! Arithmetic of Python floats: the exact result of an operation, rounded once.

    `sum` carries the rounding errors along, as CPython does from 3.12 on. -/

namespace Py

def zeroDivisionError (msg : String) : Err := ⟨"ZeroDivisionError", msg⟩

namespace PyFloat

/-- A magnitude rounded to a double, an infinity when it overflows. -/
def ofMag (neg : Bool) (q : ℚ) : PyFloat :=
  match toDouble q with
  | some r => .finite neg r
  | none => .inf neg

def zero : PyFloat := .finite false 0
def one : PyFloat := .finite false 1

/-- `-x`. -/
def neg : PyFloat → PyFloat
  | .finite n q => .finite (!n) q
  | .inf n => .inf (!n)
  | .nan => .nan

/-- `abs(x)`. -/
def abs : PyFloat → PyFloat
  | .finite _ q => .finite false q
  | .inf _ => .inf false
  | .nan => .nan

/-- `x + y`. -/
def add : PyFloat → PyFloat → PyFloat
  | .nan, _ | _, .nan => .nan
  | .inf n, .inf m => if n = m then .inf n else .nan
  | .inf n, _ | _, .inf n => .inf n
  | .finite n q, .finite m p =>
    let s := signed n q + signed m p
    if s = 0 then .finite (n && m) 0 else ofMag (s < 0) |s|

/-- `x - y`. -/
def sub (x y : PyFloat) : PyFloat := add x (neg y)

/-- `x * y`. -/
def mul : PyFloat → PyFloat → PyFloat
  | .nan, _ | _, .nan => .nan
  | .inf n, .inf m => .inf (n != m)
  | .inf n, .finite m q | .finite m q, .inf n => if q = 0 then .nan else .inf (n != m)
  | .finite n q, .finite m p => ofMag (n != m) (q * p)

/-- `x / y`. -/
def div : PyFloat → PyFloat → Except Err PyFloat
  | x, .finite m p =>
    if p = 0 then .error (zeroDivisionError "float division by zero")
    else match x with
      | .nan => .ok .nan
      | .inf n => .ok (.inf (n != m))
      | .finite n q => .ok (ofMag (n != m) (q / p))
  | .nan, _ | _, .nan => .ok .nan
  | .inf _, .inf _ => .ok .nan
  | .finite n _, .inf m => .ok (.finite (n != m) 0)

/-- `x <= y`. -/
def le (x y : PyFloat) : Bool :=
  match x, y with
  | .nan, _ | _, .nan => false
  | _, _ => !lt y x

/-- `min(x, y)`: the first unless the second is smaller. -/
def min (x y : PyFloat) : PyFloat := if lt y x then y else x

/-- `max(x, y)`: the first unless the second is larger. -/
def max (x y : PyFloat) : PyFloat := if lt x y then y else x

/-- One round of `sum`: the running sum, and the errors of its roundings. -/
def sumStep (st : PyFloat × PyFloat) (x : PyFloat) : PyFloat × PyFloat :=
  let t := add st.1 x
  (t, add st.2 (if le (abs x) (abs st.1) then add (sub st.1 t) x else add (sub x t) st.1))

/-- `sum(xs)` of floats. -/
def sum (xs : List PyFloat) : PyFloat :=
  match xs with
  | [] => zero
  | x :: xs =>
    let st := xs.foldl sumStep (add zero x, zero)
    match st.2 with
    | .finite _ q => if q = 0 then st.1 else add st.1 st.2
    | _ => st.1

/-- `i / j` of two integers. -/
def trueDiv (i j : ℤ) : Except Err PyFloat :=
  if j = 0 then .error (zeroDivisionError "division by zero")
  else match toDouble (i.natAbs / j.natAbs) with
    | some r => .ok (.finite (decide (i < 0) != decide (j < 0)) r)
    | none => .error (overflowError "integer division result too large for a float")

/-! ### Rounding -/

theorem pow2_eq (e : ℤ) : pow2 e = (2 : ℚ) ^ e := by
  rw [pow2]
  split
  · rename_i h
    obtain ⟨n, rfl⟩ := Int.eq_ofNat_of_zero_le h
    simp
  · rename_i h
    obtain ⟨n, hn⟩ := Int.eq_ofNat_of_zero_le (show 0 ≤ -e by omega)
    have he : e = -(n : ℤ) := by omega
    subst he
    simp

theorem le_roundHalfEven {k : ℤ} {x : ℚ} (h : (k : ℚ) ≤ x) : k ≤ roundHalfEven x := by
  have hk : k ≤ x.floor := Rat.le_floor_iff.mpr h
  simp only [roundHalfEven]
  split
  · exact hk
  split
  · omega
  split <;> omega

theorem roundHalfEven_le {k : ℤ} {x : ℚ} (h : x ≤ k) : roundHalfEven x ≤ k := by
  have hf : (x.floor : ℚ) ≤ x := Rat.floor_le x
  have hk : x.floor ≤ k := by exact_mod_cast hf.trans h
  rcases hk.lt_or_eq with hlt | heq
  · simp only [roundHalfEven]
    split
    · exact hk
    split
    · omega
    split <;> omega
  · have hx : x - x.floor = 0 := by
      have : x ≤ (x.floor : ℚ) := by rw [heq]; exact h
      linarith
    simp only [roundHalfEven]
    rw [hx, if_pos (by norm_num), heq]

theorem two_zpow_pos (e : ℤ) : (0 : ℚ) < (2 : ℚ) ^ e := zpow_pos (by norm_num) e

/-- The exponent of a positive magnitude. -/
theorem floorLog2_bounds {q : ℚ} (hq : 0 < q) :
    (2 : ℚ) ^ floorLog2 q ≤ q ∧ q < (2 : ℚ) ^ (floorLog2 q + 1) := by
  have hnum : 0 < q.num := Rat.num_pos.mpr hq
  obtain ⟨n, hn⟩ := Int.eq_ofNat_of_zero_le hnum.le
  have hn0 : n ≠ 0 := by rintro rfl; omega
  have hden : (0 : ℚ) < q.den := by exact_mod_cast q.den_pos
  have hqd : q * q.den = n := by
    have h := Rat.mul_den_eq_num q
    rw [h, hn]
    rfl
  -- numerator and denominator lie between their powers of two
  have hn1 : (2 : ℚ) ^ (n.log2 : ℤ) ≤ n := by exact_mod_cast Nat.log2_self_le hn0
  have hn2 : (n : ℚ) < (2 : ℚ) ^ ((n.log2 : ℤ) + 1) := by exact_mod_cast Nat.lt_log2_self
  have hd1 : (2 : ℚ) ^ (q.den.log2 : ℤ) ≤ q.den := by exact_mod_cast Nat.log2_self_le q.den_nz
  have hd2 : (q.den : ℚ) < (2 : ℚ) ^ ((q.den.log2 : ℤ) + 1) := by exact_mod_cast Nat.lt_log2_self
  have htwo : (2 : ℚ) ≠ 0 := by norm_num
  have hlow : (2 : ℚ) ^ ((n.log2 : ℤ) - q.den.log2 - 1) ≤ q := by
    have h : (2 : ℚ) ^ ((n.log2 : ℤ) - q.den.log2 - 1) * (2 : ℚ) ^ ((q.den.log2 : ℤ) + 1) = (2 : ℚ) ^ (n.log2 : ℤ) := by
      rw [← zpow_add₀ htwo]
      congr 1
      ring
    have hp : (0 : ℚ) < (2 : ℚ) ^ ((n.log2 : ℤ) - q.den.log2 - 1) := two_zpow_pos _
    by_contra hlt
    have hlt := not_le.mp hlt
    have : q * q.den < (2 : ℚ) ^ ((n.log2 : ℤ) - q.den.log2 - 1) * (2 : ℚ) ^ ((q.den.log2 : ℤ) + 1) :=
      mul_lt_mul'' hlt hd2 hq.le hden.le
    linarith
  have hhigh : q < (2 : ℚ) ^ ((n.log2 : ℤ) - q.den.log2 + 1) := by
    have h : (2 : ℚ) ^ ((n.log2 : ℤ) - q.den.log2 + 1) * (2 : ℚ) ^ (q.den.log2 : ℤ) = (2 : ℚ) ^ ((n.log2 : ℤ) + 1) := by
      rw [← zpow_add₀ htwo]
      congr 1
      ring
    have hp : (0 : ℚ) < (2 : ℚ) ^ (q.den.log2 : ℤ) := two_zpow_pos _
    by_contra hle
    have hle := not_lt.mp hle
    have : (2 : ℚ) ^ ((n.log2 : ℤ) - q.den.log2 + 1) * (2 : ℚ) ^ (q.den.log2 : ℤ) ≤ q * q.den :=
      mul_le_mul hle hd1 hp.le hq.le
    linarith
  have hlog : floorLog2 q = if (2 : ℚ) ^ ((n.log2 : ℤ) - q.den.log2) ≤ q then (n.log2 : ℤ) - q.den.log2
      else (n.log2 : ℤ) - q.den.log2 - 1 := by
    simp only [floorLog2, pow2_eq, hn, Int.toNat_natCast]
  rw [hlog]
  split
  · rename_i h
    exact ⟨h, hhigh⟩
  · rename_i h
    exact ⟨hlow, by simpa using h⟩

theorem floorLog2_eq {q : ℚ} {e : ℤ} (hlow : (2 : ℚ) ^ e ≤ q) (hhigh : q < (2 : ℚ) ^ (e + 1)) : floorLog2 q = e := by
  have hq : 0 < q := (two_zpow_pos e).trans_le hlow
  obtain ⟨h₁, h₂⟩ := floorLog2_bounds hq
  have ha : e < floorLog2 q + 1 := (zpow_lt_zpow_iff_right₀ (by norm_num : (1 : ℚ) < 2)).mp (hlow.trans_lt h₂)
  have hb : floorLog2 q < e + 1 := (zpow_lt_zpow_iff_right₀ (by norm_num : (1 : ℚ) < 2)).mp (h₁.trans_lt hhigh)
  omega

/-- A magnitude of the exponent `e` is rounded to a multiple of the last of 53 digits. -/
theorem toDouble_of_exponent {q : ℚ} {e : ℤ} (hlow : (2 : ℚ) ^ e ≤ q) (hhigh : q < (2 : ℚ) ^ (e + 1)) (he : -1022 ≤ e) :
    toDouble q = if (2 : ℚ) ^ (1024 : ℤ) ≤ roundHalfEven (q / (2 : ℚ) ^ (e - 52)) * (2 : ℚ) ^ (e - 52) then none
      else some (roundHalfEven (q / (2 : ℚ) ^ (e - 52)) * (2 : ℚ) ^ (e - 52)) := by
  have hq : q ≠ 0 := ((two_zpow_pos e).trans_le hlow).ne'
  have hmax : Max.max (floorLog2 q - 52) (-1074) = e - 52 := by
    rw [floorLog2_eq hlow hhigh]
    exact max_eq_left (by omega)
  simp only [toDouble, if_neg hq, hmax, pow2_eq]

theorem toDouble_zero : toDouble 0 = some 0 := rfl

theorem roundHalfEven_eq_even {k : ℤ} (hk : k % 2 = 0) {x : ℚ} :
    roundHalfEven x = k ↔ (k : ℚ) - 1 / 2 ≤ x ∧ x ≤ k + 1 / 2 := by
  have hf : (x.floor : ℚ) ≤ x := Rat.floor_le x
  have hf' : x - 1 < x.floor := Rat.lt_floor
  constructor
  · intro h
    simp only [roundHalfEven] at h
    split at h
    · subst h
      constructor <;> linarith
    split at h
    · have hk' : (k : ℚ) = x.floor + 1 := by exact_mod_cast h.symm
      constructor <;> linarith
    have hx : x - x.floor = 1 / 2 := le_antisymm (by linarith) (by linarith)
    split at h
    · subst h
      constructor <;> linarith
    · have hk' : (k : ℚ) = x.floor + 1 := by exact_mod_cast h.symm
      constructor <;> linarith
  · rintro ⟨hlow, hhigh⟩
    rcases lt_or_ge x k with hlt | hge
    · have hfloor : x.floor = k - 1 := by
        have h₁ : x.floor < k := by exact_mod_cast hf.trans_lt hlt
        have h₂ : k - 1 ≤ x.floor := Rat.le_floor_iff.mpr (by push_cast; linarith)
        omega
      have hr : x - x.floor = x - k + 1 := by
        rw [hfloor]
        push_cast
        ring
      simp only [roundHalfEven]
      rw [if_neg (by linarith)]
      split
      · omega
      · rw [if_neg (by omega)]
        omega
    · have hfloor : x.floor = k := by
        have h₁ : k ≤ x.floor := Rat.le_floor_iff.mpr hge
        have h₂ : x.floor < k + 1 := by
          have : (x.floor : ℚ) < k + 1 := by linarith
          exact_mod_cast this
        omega
      simp only [roundHalfEven]
      rw [hfloor]
      split
      · rfl
      split
      · exfalso
        linarith
      · rfl

/-- Rounding does not cross a natural number that 52 digits can hold. -/
theorem le_toDouble {q r : ℚ} {c : ℕ} (hpos : 1 ≤ c) (hc : c ≤ 2 ^ 52) (h : (c : ℚ) ≤ q) (hr : toDouble q = some r) :
    (c : ℚ) ≤ r := by
  have hq1 : (1 : ℚ) ≤ q := le_trans (by exact_mod_cast hpos) h
  obtain ⟨hlow, hhigh⟩ := floorLog2_bounds (lt_of_lt_of_le one_pos hq1)
  have he : 0 ≤ floorLog2 q := by
    have h1 : (2 : ℚ) ^ (0 : ℤ) < (2 : ℚ) ^ (floorLog2 q + 1) := by
      rw [zpow_zero]
      exact hq1.trans_lt hhigh
    have := (zpow_lt_zpow_iff_right₀ (by norm_num : (1 : ℚ) < 2)).mp h1
    omega
  rw [toDouble_of_exponent hlow hhigh (by omega)] at hr
  split at hr
  · cases hr
  have hr := Option.some.inj hr
  subst hr
  have hu := two_zpow_pos (floorLog2 q - 52)
  rcases le_or_gt (floorLog2 q) 52 with hsmall | hbig
  · -- `c` is a multiple of the last digit
    obtain ⟨n, hn⟩ := Int.eq_ofNat_of_zero_le (show 0 ≤ 52 - floorLog2 q by omega)
    have hinv : (2 : ℚ) ^ (floorLog2 q - 52) * 2 ^ n = 1 := by
      have hsum : floorLog2 q - 52 + (n : ℤ) = 0 := by
        have : (52 : ℤ) - floorLog2 q = n := hn
        omega
      rw [← zpow_natCast, ← zpow_add₀ (by norm_num), hsum, zpow_zero]
    have hk : (((c * 2 ^ n : ℕ) : ℤ) : ℚ) ≤ q / (2 : ℚ) ^ (floorLog2 q - 52) := by
      rw [le_div_iff₀ hu]
      push_cast
      calc (c : ℚ) * 2 ^ n * (2 : ℚ) ^ (floorLog2 q - 52) = c * ((2 : ℚ) ^ (floorLog2 q - 52) * 2 ^ n) := by ring
        _ = c := by rw [hinv, mul_one]
        _ ≤ q := h
    have hround := le_roundHalfEven hk
    have hcast : ((c * 2 ^ n : ℕ) : ℚ) ≤ roundHalfEven (q / (2 : ℚ) ^ (floorLog2 q - 52)) := by exact_mod_cast hround
    calc (c : ℚ) = c * 2 ^ n * (2 : ℚ) ^ (floorLog2 q - 52) := by rw [mul_assoc, mul_comm (2 ^ n : ℚ), hinv, mul_one]
      _ ≤ _ := mul_le_mul_of_nonneg_right (by push_cast at hcast; exact hcast) hu.le
  · have hone : (1 : ℚ) ≤ (2 : ℚ) ^ (floorLog2 q - 52) := one_le_zpow₀ (by norm_num) (by omega)
    have hk : (((2 ^ 52 : ℕ) : ℤ) : ℚ) ≤ q / (2 : ℚ) ^ (floorLog2 q - 52) := by
      rw [le_div_iff₀ hu]
      calc (((2 ^ 52 : ℕ) : ℤ) : ℚ) * (2 : ℚ) ^ (floorLog2 q - 52) = (2 : ℚ) ^ (52 : ℤ) * (2 : ℚ) ^ (floorLog2 q - 52) := by norm_num
        _ = (2 : ℚ) ^ floorLog2 q := by rw [← zpow_add₀ (by norm_num)]; congr 1; ring
        _ ≤ q := hlow
    have hround := le_roundHalfEven hk
    have hcast : ((2 ^ 52 : ℕ) : ℚ) ≤ roundHalfEven (q / (2 : ℚ) ^ (floorLog2 q - 52)) := by exact_mod_cast hround
    calc (c : ℚ) ≤ ((2 ^ 52 : ℕ) : ℚ) := by exact_mod_cast hc
      _ ≤ roundHalfEven (q / (2 : ℚ) ^ (floorLog2 q - 52)) := hcast
      _ ≤ _ := le_mul_of_one_le_right (le_trans (by positivity) hcast) hone

theorem toDouble_nonneg {q r : ℚ} (hq : 0 ≤ q) (h : toDouble q = some r) : 0 ≤ r := by
  rw [toDouble] at h
  split at h
  · exact (Option.some.inj h) ▸ le_refl 0
  · simp only at h
    split at h
    · cases h
    · obtain rfl := Option.some.inj h
      have hpow := pow2_eq (Max.max (floorLog2 q - 52) (-1074))
      have hpos := two_zpow_pos (Max.max (floorLog2 q - 52) (-1074))
      rw [hpow]
      have hround : (0 : ℤ) ≤ roundHalfEven (q / (2 : ℚ) ^ Max.max (floorLog2 q - 52) (-1074)) :=
        le_roundHalfEven (by simpa using div_nonneg hq hpos.le)
      exact mul_nonneg (by exact_mod_cast hround) hpos.le

/-- A natural number that 52 digits can hold is a double. -/
theorem toDouble_natCast {n : ℕ} (h : n ≤ 2 ^ 52) : toDouble n = some (n : ℚ) := by
  rcases Nat.eq_zero_or_pos n with rfl | hpos
  · rfl
  have hq : (0 : ℚ) < n := by exact_mod_cast hpos
  obtain ⟨hlow, hhigh⟩ := floorLog2_bounds hq
  have hle : floorLog2 n ≤ 52 := by
    have h52 : (2 : ℚ) ^ floorLog2 n ≤ (2 : ℚ) ^ (52 : ℤ) := hlow.trans (by exact_mod_cast h)
    exact (zpow_le_zpow_iff_right₀ (by norm_num : (1 : ℚ) < 2)).mp h52
  have hge : 0 ≤ floorLog2 n := by
    have h0 : (2 : ℚ) ^ (0 : ℤ) < (2 : ℚ) ^ (floorLog2 n + 1) := by
      rw [zpow_zero]
      exact lt_of_le_of_lt (by exact_mod_cast hpos) hhigh
    have := (zpow_lt_zpow_iff_right₀ (by norm_num : (1 : ℚ) < 2)).mp h0
    omega
  obtain ⟨m, hm⟩ := Int.eq_ofNat_of_zero_le (show 0 ≤ 52 - floorLog2 n by omega)
  have hunit : (2 : ℚ) ^ (floorLog2 n - 52) = ((2 : ℚ) ^ m)⁻¹ := by
    have : floorLog2 n - 52 = -(m : ℤ) := by
      have : 52 - floorLog2 (n : ℚ) = (m : ℤ) := hm
      omega
    rw [this, zpow_neg, zpow_natCast]
  have hx : (n : ℚ) / (2 : ℚ) ^ (floorLog2 n - 52) = (((n * 2 ^ m : ℕ) : ℤ) : ℚ) := by
    rw [hunit, div_inv_eq_mul]
    push_cast
    rfl
  have hround : roundHalfEven ((n : ℚ) / (2 : ℚ) ^ (floorLog2 n - 52)) = ((n * 2 ^ m : ℕ) : ℤ) :=
    le_antisymm (roundHalfEven_le hx.le) (le_roundHalfEven hx.ge)
  have hexact : (((n * 2 ^ m : ℕ) : ℤ) : ℚ) * (2 : ℚ) ^ (floorLog2 n - 52) = n := by
    rw [← hx, div_mul_cancel₀ _ (two_zpow_pos _).ne']
  have hlarge : (n : ℚ) < (2 : ℚ) ^ (1024 : ℤ) :=
    calc (n : ℚ) ≤ (2 : ℚ) ^ (52 : ℤ) := by exact_mod_cast h
      _ < (2 : ℚ) ^ (1024 : ℤ) := zpow_lt_zpow_right₀ (by norm_num) (by norm_num)
  rw [toDouble_of_exponent hlow hhigh (by omega), hround, hexact, if_neg (not_le.mpr hlarge)]

/-- Rounding does not cross one quarter from below. -/
theorem toDouble_le_quarter {q r : ℚ} (hpos : 0 < q) (hq : q ≤ 1 / 4) (hr : toDouble q = some r) : r ≤ 1 / 4 := by
  obtain ⟨hlow, -⟩ := floorLog2_bounds hpos
  have he : floorLog2 q ≤ -2 := by
    have h : (2 : ℚ) ^ floorLog2 q ≤ (2 : ℚ) ^ (-2 : ℤ) := hlow.trans (hq.trans (by norm_num))
    exact (zpow_le_zpow_iff_right₀ (by norm_num : (1 : ℚ) < 2)).mp h
  have hmax : Max.max (floorLog2 q - 52) (-1074) ≤ -2 := max_le (by omega) (by norm_num)
  simp only [toDouble, if_neg hpos.ne', pow2_eq] at hr
  generalize Max.max (floorLog2 q - 52) (-1074) = e at hr hmax
  split at hr
  · cases hr
  have hr := Option.some.inj hr
  subst hr
  obtain ⟨n, hn⟩ := Int.eq_ofNat_of_zero_le (show 0 ≤ -2 - e by omega)
  have hn : -2 - e = (n : ℤ) := hn
  have hquarter : (1 / 4 : ℚ) = 2 ^ n * (2 : ℚ) ^ e := by
    rw [← zpow_natCast, ← zpow_add₀ (by norm_num), ← hn, sub_add_cancel]
    norm_num
  have hu := two_zpow_pos e
  have hk : q / (2 : ℚ) ^ e ≤ (((2 ^ n : ℕ) : ℤ) : ℚ) := by
    rw [div_le_iff₀ hu]
    push_cast
    exact hq.trans hquarter.le
  have hround : (roundHalfEven (q / (2 : ℚ) ^ e) : ℚ) ≤ 2 ^ n := by exact_mod_cast roundHalfEven_le hk
  rw [hquarter]
  exact mul_le_mul_of_nonneg_right hround hu.le

/-- Which magnitudes of an exponent up to zero are rounded to one half. -/
theorem toDouble_eq_half_of_exponent {q : ℚ} {n : ℕ} (hn : 51 ≤ n) (hn' : n ≤ 1000) (hlow : (2 : ℚ) ^ (51 - n : ℤ) ≤ q)
    (hhigh : q < (2 : ℚ) ^ (51 - n + 1 : ℤ)) :
    toDouble q = some (1 / 2) ↔ (2 ^ n - 1 / 2 : ℚ) ≤ 2 ^ (n + 1) * q ∧ 2 ^ (n + 1) * q ≤ 2 ^ n + 1 / 2 := by
  have hscale : q / (2 : ℚ) ^ (51 - n - 52 : ℤ) = 2 ^ (n + 1) * q := by
    have h : (51 - n - 52 : ℤ) = -((n + 1 : ℕ) : ℤ) := by
      push_cast
      ring
    rw [h, zpow_neg, zpow_natCast, div_inv_eq_mul, mul_comm]
  have hunit : (2 : ℚ) ^ (51 - n - 52 : ℤ) = 1 / 2 ^ (n + 1) := by
    have h : (51 - n - 52 : ℤ) = -((n + 1 : ℕ) : ℤ) := by
      push_cast
      ring
    rw [h, zpow_neg, zpow_natCast, one_div]
  have hhalf : ∀ k : ℤ, (k : ℚ) * (1 / 2 ^ (n + 1)) = 1 / 2 ↔ k = 2 ^ n := by
    intro k
    have hp : (0 : ℚ) < 2 ^ n := by positivity
    rw [pow_succ, mul_one_div, div_eq_div_iff (by positivity) (by norm_num), one_mul]
    constructor
    · intro h
      have hk : (k : ℚ) = 2 ^ n := by linarith
      exact_mod_cast hk
    · rintro rfl
      push_cast
      ring
  have heven : ((2 : ℤ) ^ n) % 2 = 0 := by
    obtain ⟨m, rfl⟩ := Nat.exists_eq_add_of_le hn
    rw [add_comm, pow_add]
    omega
  have hround := @roundHalfEven_eq_even (2 ^ n) heven (2 ^ (n + 1) * q)
  push_cast at hround
  rw [toDouble_of_exponent hlow hhigh (by omega), hscale, hunit, ← hround, ← hhalf]
  constructor
  · intro h
    split at h
    · cases h
    · exact Option.some.inj h
  · intro h
    have hlarge : (1 : ℚ) < 2 ^ (1024 : ℤ) := one_lt_zpow₀ (by norm_num) (by norm_num)
    rw [h, if_neg (not_le.mpr (lt_trans (by norm_num) hlarge))]

/-- The double nearest to a share is one half exactly near one half. -/
theorem toDouble_eq_half {q : ℚ} (h0 : 0 ≤ q) (h1 : q ≤ 1) :
    toDouble q = some (1 / 2) ↔ (2 ^ 54 - 1 : ℚ) ≤ 2 ^ 55 * q ∧ 2 ^ 54 * q ≤ 2 ^ 53 + 1 := by
  rcases lt_or_ge q (1 / 4) with hq | hq
  · refine iff_of_false (fun h => ?_) (fun h => by linarith [h.1])
    rcases h0.eq_or_lt with rfl | hpos
    · have h := Option.some.inj (toDouble_zero.symm.trans h)
      norm_num at h
    · have h := toDouble_le_quarter hpos hq.le h
      norm_num at h
  rcases lt_or_ge q (1 / 2) with hq' | hq'
  · rw [@toDouble_eq_half_of_exponent q 53 (by norm_num) (by norm_num) (le_trans (by norm_num) hq) (lt_of_lt_of_le hq' (by norm_num))]
    constructor
    · rintro ⟨h, -⟩
      constructor <;> linarith
    · rintro ⟨h, -⟩
      constructor <;> linarith
  rcases h1.lt_or_eq with hq1 | rfl
  · rw [@toDouble_eq_half_of_exponent q 52 (by norm_num) (by norm_num) (le_trans (by norm_num) hq') (lt_of_lt_of_le hq1 (by norm_num))]
    constructor
    · rintro ⟨-, h⟩
      constructor <;> linarith
    · rintro ⟨-, h⟩
      constructor <;> linarith
  · rw [@toDouble_eq_half_of_exponent 1 51 (by norm_num) (by norm_num) (by norm_num) (by norm_num)]
    norm_num

/-! ### Clamping -/

/-- A number between 0 and 1. -/
def InUnit : PyFloat → Prop
  | .finite n q => 0 ≤ signed n q ∧ signed n q ≤ 1
  | _ => False

/-- `max(0.0, min(1.0, x))` is a number between 0 and 1, also for an infinity and for `nan`. -/
theorem inUnit_clamp (x : PyFloat) : InUnit (max zero (min one x)) := by
  have hclamp : ∀ n q, signed n q ≤ 1 → InUnit (max zero (.finite n q)) := by
    intro n q hq
    simp only [max, zero, lt, decide_eq_true_eq]
    by_cases h : signed false 0 < signed n q
    · rw [if_pos h]
      exact ⟨le_trans (by simp [signed]) h.le, hq⟩
    · rw [if_neg h]
      simp [InUnit, signed]
  cases x with
  | nan => exact hclamp false 1 (by simp [signed])
  | inf n =>
    cases n with
    | false => exact hclamp false 1 (by simp [signed])
    | true => simp [min, max, one, zero, lt, InUnit, signed]
  | finite n q =>
    simp only [min, one, lt, decide_eq_true_eq]
    by_cases h : signed n q < signed false 1
    · rw [if_pos h]
      exact hclamp n q (h.le.trans (by simp [signed]))
    · rw [if_neg h]
      exact hclamp false 1 (by simp [signed])

end PyFloat

end Py
