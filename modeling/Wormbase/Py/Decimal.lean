import Wormbase.Py.Coerce

/-! Python's `decimal.Decimal` under the default context: 28 digits, halves to even, and invalid
    operations, divisions by zero and overflows raise.

    The sign and the digits of a NaN are left out, and so is the exponent that a result could carry
    beside others of the same value. -/

namespace Py

inductive Decimal where
  | finite (neg : Bool) (coef : ℕ) (exp : ℤ)
  | inf (neg : Bool)
  | nan (signals : Bool)
  deriving DecidableEq

namespace Decimal

def invalidOperation : Err := ⟨"InvalidOperation", "[<class 'decimal.InvalidOperation'>]"⟩
def overflow : Err := ⟨"Overflow", "[<class 'decimal.Overflow'>]"⟩

/-- The number of digits of a coefficient. -/
def width (coef : ℕ) : ℕ := (PyFloat.digits coef).length

/-! ### Reading -/

/-- The exponents that a text can have without being rounded. -/
def maxEmax : ℤ := 999999999999999999
def minEtiny : ℤ := -1999999999999999997

/-- The number, where it can be kept as it is written. -/
def exactly (neg : Bool) (coef : ℕ) (exp : ℤ) : Option Decimal :=
  let adjusted := if coef = 0 then exp else exp + width coef - 1
  if minEtiny ≤ exp ∧ adjusted ≤ maxEmax then some (.finite neg coef exp) else none

/-- An unsigned number: digits with at most one point, and an exponent. -/
def magOf (neg : Bool) (cs : List Char) : Option Decimal :=
  let (a, n, rest) := PyFloat.digitRun cs 0 0
  match rest with
  | '.' :: rest =>
    let (b, k, rest) := PyFloat.digitRun rest a 0
    if n + k = 0 then none else (PyFloat.expPart rest).bind fun x => exactly neg b (x - k)
  | _ => if n = 0 then none else (PyFloat.expPart rest).bind fun x => exactly neg a x

/-- `Decimal(s)` of a text; `none` where it raises. Underscores count for nothing. -/
def ofText (s : String) : Option Decimal :=
  let cs := ((stripText s).toList.filter (· ≠ '_')).map asciiChar
  let (neg, cs) := PyFloat.signOf cs
  let word := String.ofList (cs.map Char.toLower)
  if word = "inf" ∨ word = "infinity" then some (.inf neg)
  else
    match cs.map Char.toLower with
    | 'n' :: 'a' :: 'n' :: digits => if digits.all Char.isDigit then some (.nan false) else none
    | 's' :: 'n' :: 'a' :: 'n' :: digits => if digits.all Char.isDigit then some (.nan true) else none
    | _ => magOf neg cs

/-! ### Comparing -/

/-- The value of a finite number. -/
def rat (neg : Bool) (coef : ℕ) (exp : ℤ) : ℚ := PyFloat.signed neg (coef * PyFloat.pow10 exp)

/-- `a <= b`. -/
def le : Decimal → Decimal → Except Err Bool
  | .nan _, _ | _, .nan _ => .error invalidOperation
  | .finite n c e, .finite n' c' e' => .ok (rat n c e ≤ rat n' c' e')
  | .inf neg, .finite .. => .ok neg
  | .finite .., .inf neg => .ok !neg
  | .inf neg, .inf neg' => .ok (neg || !neg')

/-- `a < b`. -/
def lt (a b : Decimal) : Except Err Bool := do return !(← le b a)

/-- `a == b`: a quiet NaN is equal to nothing. -/
def same : Decimal → Decimal → Except Err Bool
  | .nan true, _ | _, .nan true => .error invalidOperation
  | .nan false, _ | _, .nan false => .ok false
  | a, b => do return (← le a b) && (← le b a)

/-- `bool(a)`. -/
def truthy : Decimal → Bool
  | .finite _ coef _ => coef ≠ 0
  | _ => true

/-! ### Arithmetic -/

def prec : ℕ := 28
def emax : ℤ := 999999
def etiny : ℤ := -1000026

/-- `coef / 10 ** k`, a half to even. -/
def cut (coef k : ℕ) : ℕ := (PyFloat.roundHalfEven (coef / (10 ^ k : ℕ))).toNat

/-- A result in the context. -/
def fix (neg : Bool) (coef : ℕ) (exp : ℤ) : Except Err Decimal :=
  if coef = 0 then .ok (.finite neg 0 (max etiny (min exp emax)))
  else
    let last := max (exp + width coef - prec) etiny
    let kept := if last ≤ exp then coef else cut coef (last - exp).toNat
    -- rounding can carry into one digit more
    let (kept, last) := if last ≤ exp then (kept, exp)
      else if 10 ^ prec ≤ kept then (kept / 10, last + 1) else (kept, last)
    if emax < last + width kept - 1 then .error overflow else .ok (.finite neg kept last)

/-- `a + b`. -/
def add : Decimal → Decimal → Except Err Decimal
  | .nan true, _ | _, .nan true => .error invalidOperation
  | .nan false, _ | _, .nan false => .ok (.nan false)
  | .inf neg, .inf neg' => if neg = neg' then .ok (.inf neg) else .error invalidOperation
  | .inf neg, _ | _, .inf neg => .ok (.inf neg)
  | .finite n c e, .finite n' c' e' =>
    let exp := min e e'
    let whole := fun (neg : Bool) (c : ℕ) (e : ℤ) =>
      ((if neg then -1 else 1) * (c * 10 ^ (e - exp).toNat : ℕ) : ℤ)
    let sum := whole n c e + whole n' c' e'
    fix (sum < 0 || (sum = 0 && n && n')) sum.natAbs exp

/-- `a / n` for a positive integer `n`. -/
def divNat (n : ℕ) : Decimal → Except Err Decimal
  | .nan true => .error invalidOperation
  | .nan false => .ok (.nan false)
  | .inf neg => .ok (.inf neg)
  | .finite neg coef exp =>
    let shift : ℤ := width n - width coef + prec + 1
    let top := coef * 10 ^ shift.toNat
    let bottom := n * 10 ^ (-shift).toNat
    let q := top / bottom
    -- what is left over keeps the quotient from looking like a half
    let q := if top % bottom ≠ 0 ∧ q % 5 = 0 then q + 1 else q
    fix neg q (exp - shift)

/-- `sum(xs, Decimal("0"))`. -/
def sum (xs : List Decimal) : Except Err Decimal := xs.foldlM add (.finite false 0 0)

/-- `format(a.quantize(Decimal("0.0001")), "f")`. -/
def fixed4 : Decimal → Except Err String
  | .nan true => .error invalidOperation
  | .nan false => .ok "NaN"
  | .inf _ => .error invalidOperation
  | .finite neg coef exp =>
    let kept := if 0 ≤ exp + 4 then coef * 10 ^ (exp + 4).toNat else cut coef (-(exp + 4)).toNat
    if coef ≠ 0 ∧ (prec : ℤ) < exp + width coef - 1 + 5 ∨ prec < width kept then .error invalidOperation
    else
      let ds := PyFloat.digits kept
      let ds := List.replicate (5 - ds.length) '0' ++ ds
      .ok (String.ofList ((if neg then ['-'] else []) ++ ds.take (ds.length - 4) ++ '.' :: ds.drop (ds.length - 4)))

example : ((ofText " 0.9_5 ").map fun a => le a (.finite false 9 (-1))) = some (.ok false) := by decide +kernel

end Decimal
end Py
