import Mathlib.Data.Rat.Floor

/-! Floats as Python sees them: a sign and the magnitude of a double, an infinity or `nan`.

    A magnitude is a rational, so arithmetic on it is exact and every rounding is a call of
    `toDouble`. `repr` prints the shortest decimal that rounds back to the same double, laid out as
    Python lays it out (`0.5`, `1e+16`, `1e-05`). -/

namespace Py

/-- A Python float. The sign stands apart so that `-0.0` is a value of its own. -/
inductive PyFloat where
  | finite (neg : Bool) (mag : ℚ)
  | inf (neg : Bool)
  | nan
  deriving DecidableEq

namespace PyFloat

/-- `2 ^ e` for a possibly negative exponent. -/
def pow2 (e : ℤ) : ℚ := if 0 ≤ e then (2 ^ e.toNat : ℕ) else 1 / (2 ^ (-e).toNat : ℕ)

/-- `10 ^ e` for a possibly negative exponent. -/
def pow10 (e : ℤ) : ℚ := if 0 ≤ e then (10 ^ e.toNat : ℕ) else 1 / (10 ^ (-e).toNat : ℕ)

/-- The integer nearest to `q`, the even one of two that are equally near. -/
def roundHalfEven (q : ℚ) : ℤ :=
  let f := q.floor
  let r := q - f
  if r < 1 / 2 then f else if 1 / 2 < r then f + 1 else if f % 2 = 0 then f else f + 1

/-- The largest `e` with `2 ^ e ≤ q`, for a positive `q`. -/
def floorLog2 (q : ℚ) : ℤ :=
  let e : ℤ := (q.num.toNat.log2 : ℤ) - (q.den.log2 : ℤ)
  if pow2 e ≤ q then e else e - 1

/-- The largest `k` with `10 ^ k ≤ q`, for a positive `q`. -/
def floorLog10 (q : ℚ) : ℤ :=
  let k : ℤ := ((Nat.toDigits 10 q.num.toNat).length : ℤ) - (Nat.toDigits 10 q.den).length
  if pow10 k ≤ q then k else k - 1

/-- The double nearest to a magnitude, half to even; `none` when it overflows. -/
def toDouble (q : ℚ) : Option ℚ :=
  if q = 0 then some 0
  else
    let e := max (floorLog2 q - 52) (-1074)
    let r := roundHalfEven (q / pow2 e) * pow2 e
    if pow2 1024 ≤ r then none else some r

/-- The signed value of a finite float. -/
def signed (neg : Bool) (mag : ℚ) : ℚ := if neg then -mag else mag

/-- Python's `<`: every comparison with `nan` is false. -/
def lt : PyFloat → PyFloat → Bool
  | .nan, _ => false
  | _, .nan => false
  | .inf true, .inf true => false
  | .inf true, _ => true
  | _, .inf true => false
  | .inf false, _ => false
  | _, .inf false => true
  | .finite n q, .finite n' q' => decide (signed n q < signed n' q')

/-- `bool(x)`: zero of either sign is false, `nan` is true. -/
def truthy : PyFloat → Bool
  | .finite _ q => q ≠ 0
  | _ => true

/-- An integer seen as a float without rounding, as Python compares the two. -/
def exact (i : ℤ) : PyFloat := .finite (i < 0) i.natAbs

/-- `n` decimal digits of a positive `q`: the significand and its exponent. -/
def decimal (q : ℚ) (n : ℕ) : ℕ × ℤ :=
  let e := floorLog10 q - n + 1
  ((roundHalfEven (q / pow10 e)).toNat, e)

/-- The shortest of `n`, `n + 1`, … digits (at most `n + fuel`) that rounds back to `q`. -/
def shortest (q : ℚ) : ℕ → ℕ → ℕ × ℤ
  | 0, n => decimal q n
  | fuel + 1, n =>
    let (m, e) := decimal q n
    if toDouble (m * pow10 e) = some q then (m, e) else shortest q fuel (n + 1)

/-- Significand and exponent without the trailing zeros of the significand. -/
def stripZeros : ℕ → ℕ → ℤ → ℕ × ℤ
  | 0, m, e => (m, e)
  | fuel + 1, m, e => if m ≠ 0 ∧ m % 10 = 0 then stripZeros fuel (m / 10) (e + 1) else (m, e)

/-- Decimal digits of a natural number, most significant first. -/
def digits (n : ℕ) : List Char := Nat.toDigits 10 n

/-- An exponent as `repr` writes it: a sign and at least two digits. -/
def expText (x : ℤ) : List Char :=
  let ds := digits x.natAbs
  (if x < 0 then '-' else '+') :: (if ds.length < 2 then '0' :: ds else ds)

/-- Layout of the digits `ds` with the decimal point before digit number `pt`. -/
def layout (ds : List Char) (pt : ℤ) : List Char :=
  if -4 < pt ∧ pt ≤ 16 then
    if pt ≤ 0 then '0' :: '.' :: (List.replicate (-pt).toNat '0' ++ ds)
    else if ds.length ≤ pt.toNat then
      ds ++ List.replicate (pt.toNat - ds.length) '0' ++ ['.', '0']
    else ds.take pt.toNat ++ '.' :: ds.drop pt.toNat
  else
    match ds with
    | [] => []
    | [d] => d :: 'e' :: expText (pt - 1)
    | d :: rest => d :: '.' :: (rest ++ 'e' :: expText (pt - 1))

/-- Digits of a nonnegative magnitude. -/
def magText (q : ℚ) : List Char :=
  if q = 0 then ['0', '.', '0']
  else
    let (m, e) := shortest q 16 1
    let (m', e') := stripZeros 20 m e
    let ds := digits m'
    layout ds (ds.length + e')

/-- `float.__repr__`. -/
def repr : PyFloat → List Char
  | .finite neg q => (if neg then ['-'] else []) ++ magText q
  | .inf neg => (if neg then ['-'] else []) ++ "inf".toList
  | .nan => "nan".toList

/-- `f"{x:.2f}"`. -/
def fixed2 : PyFloat → List Char
  | .finite neg q =>
    let c := (roundHalfEven (q * 100)).toNat
    let frac := digits (c % 100)
    (if neg then ['-'] else []) ++ digits (c / 100) ++ '.' ::
      (if frac.length < 2 then '0' :: frac else frac)
  | .inf neg => (if neg then ['-'] else []) ++ "inf".toList
  | .nan => "nan".toList

/-- `float(i)` of an integer; `none` for an `OverflowError`. -/
def ofInt (i : ℤ) : Option PyFloat := (toDouble i.natAbs).map (.finite (i < 0))

/-! ### Reading a float from text -/

/-- A run of digits with single underscores between them, and what follows it. -/
def digitRun : List Char → ℕ → ℕ → (ℕ × ℕ × List Char)
  | c :: '_' :: d :: rest, acc, n =>
    if c.isDigit ∧ d.isDigit then digitRun (d :: rest) (acc * 10 + (c.toNat - '0'.toNat)) (n + 1)
    else if c.isDigit then (acc * 10 + (c.toNat - '0'.toNat), n + 1, '_' :: d :: rest)
    else (acc, n, c :: '_' :: d :: rest)
  | c :: rest, acc, n =>
    if c.isDigit then digitRun rest (acc * 10 + (c.toNat - '0'.toNat)) (n + 1)
    else (acc, n, c :: rest)
  | [], acc, n => (acc, n, [])

/-- An optional sign. -/
def signOf : List Char → Bool × List Char
  | '-' :: cs => (true, cs)
  | '+' :: cs => (false, cs)
  | cs => (false, cs)

/-- An optional exponent part that must end the text. -/
def expPart : List Char → Option ℤ
  | [] => some 0
  | c :: cs =>
    if c = 'e' ∨ c = 'E' then
      let (neg, cs) := signOf cs
      match digitRun cs 0 0 with
      | (x, n, []) => if n = 0 then none else some (if neg then -x else x)
      | _ => none
    else none

/-- Magnitude of an unsigned decimal literal. -/
def magOf (cs : List Char) : Option ℚ :=
  let (a, n, rest) := digitRun cs 0 0
  match rest with
  | '.' :: rest' =>
    let (b, k, rest'') := digitRun rest' a 0
    if n + k = 0 then none else (expPart rest'').map fun x => b * pow10 (x - k)
  | _ => if n = 0 then none else (expPart rest).map fun x => a * pow10 x

/-- `float(s)` of a text; `none` for a `ValueError`. A literal too large is an infinity. -/
def ofText (s : List Char) : Option PyFloat :=
  let trimmed := ((s.dropWhile Char.isWhitespace).reverse.dropWhile Char.isWhitespace).reverse
  let (neg, cs) := signOf trimmed
  let low := cs.map Char.toLower
  if low = "nan".toList then some .nan
  else if low = "inf".toList ∨ low = "infinity".toList then some (.inf neg)
  else (magOf cs).map fun q =>
    match toDouble q with
    | some r => .finite neg r
    | none => .inf neg

/-! ### Characters of a printed float -/

/-- No character of `s` is one that JSON puts after a value. -/
def Plain (s : List Char) : Prop := ∀ c ∈ s, c ≠ ',' ∧ c ≠ ']' ∧ c ≠ '}'

theorem plain_append {s t : List Char} : Plain (s ++ t) ↔ Plain s ∧ Plain t :=
  List.forall_mem_append

theorem plain_cons {c : Char} {s : List Char} :
    Plain (c :: s) ↔ (c ≠ ',' ∧ c ≠ ']' ∧ c ≠ '}') ∧ Plain s := List.forall_mem_cons

theorem plain_nil : Plain [] := fun _ h => absurd h List.not_mem_nil

theorem isDigit_plain {c : Char} (h : c.isDigit = true) : c ≠ ',' ∧ c ≠ ']' ∧ c ≠ '}' := by
  refine ⟨?_, ?_, ?_⟩ <;> rintro rfl <;> exact absurd h (by decide)

theorem digits_isDigit (n : ℕ) : ∀ c ∈ digits n, c.isDigit = true :=
  fun _ hc => Nat.isDigit_of_mem_toDigits (by decide) (by decide) hc

theorem digits_ne_nil (n : ℕ) : digits n ≠ [] := Nat.toDigits_ne_nil

theorem plain_digits (n : ℕ) : Plain (digits n) := fun c hc => isDigit_plain (digits_isDigit n c hc)

theorem plain_zeros (n : ℕ) : Plain (List.replicate n '0') := by
  intro c hc
  rw [(List.mem_replicate.mp hc).2]
  decide

theorem plain_expText (x : ℤ) : Plain (expText x) := by
  rw [expText, plain_cons]
  refine ⟨by split <;> decide, ?_⟩
  split
  · exact plain_cons.mpr ⟨by decide, plain_digits _⟩
  · exact plain_digits _

/-- The layout of digits starts with a digit and holds only plain characters. -/
theorem layout_spec {ds : List Char} (pt : ℤ) (hne : ds ≠ []) (hd : ∀ c ∈ ds, c.isDigit = true) :
    (∃ d rest, layout ds pt = d :: rest ∧ d.isDigit = true) ∧ Plain (layout ds pt) := by
  have hp : Plain ds := fun c hc => isDigit_plain (hd c hc)
  obtain ⟨d, rest, rfl⟩ := List.exists_cons_of_ne_nil hne
  have hd0 : d.isDigit = true := hd d (List.mem_cons_self ..)
  have hrest : Plain rest := (plain_cons.mp hp).2
  unfold layout
  split
  · split
    · refine ⟨⟨'0', _, rfl, by decide⟩, ?_⟩
      simp only [plain_cons, plain_append, hp, plain_zeros, and_self, and_true]
      decide
    · split
      · refine ⟨⟨d, rest ++ List.replicate (pt.toNat - (rest.length + 1)) '0' ++ ['.', '0'], by simp, hd0⟩, ?_⟩
        simp only [plain_append, hp, plain_zeros, true_and, and_self, plain_cons, plain_nil,
          and_true]
        decide
      · rename_i hpos _
        obtain ⟨k, hk⟩ : ∃ k, pt.toNat = k + 1 := ⟨pt.toNat - 1, by omega⟩
        refine ⟨⟨d, _, by rw [hk, List.take_succ_cons]; rfl, hd0⟩, ?_⟩
        rw [plain_append, plain_cons]
        exact ⟨fun c hc => hp c (List.mem_of_mem_take hc), by decide,
          fun c hc => hp c (List.mem_of_mem_drop hc)⟩
  · cases rest with
    | nil =>
      refine ⟨⟨d, _, rfl, hd0⟩, ?_⟩
      simp only [plain_cons, plain_expText, and_true]
      exact ⟨isDigit_plain hd0, by decide⟩
    | cons r rs =>
      refine ⟨⟨d, _, rfl, hd0⟩, ?_⟩
      simp only [plain_cons, plain_append, plain_expText, and_true]
      exact ⟨isDigit_plain hd0, by decide, plain_cons.mp hrest, by decide⟩

theorem magText_spec (q : ℚ) :
    (∃ d rest, magText q = d :: rest ∧ d.isDigit = true) ∧ Plain (magText q) := by
  unfold magText
  split
  · exact ⟨⟨'0', _, rfl, by decide⟩, by simp only [plain_cons, plain_nil, and_true]; decide⟩
  · exact layout_spec _ (digits_ne_nil _) (digits_isDigit _)

end PyFloat

end Py
