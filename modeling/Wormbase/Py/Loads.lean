import Wormbase.Py.Coerce
import Wormbase.Py.Column

/-! `json.loads`: the value of a JSON text.

    Besides `JSONDecodeError` it raises `RecursionError` for what is nested too deeply and `ValueError` for
    an integer of too many digits. A lone surrogate, which no character here stands for, is read as
    U+FFFD. -/

namespace Py

def jsonDecodeError : Err := ⟨"JSONDecodeError", ""⟩
def recursionError : Err := ⟨"RecursionError", "maximum recursion depth exceeded while decoding JSON"⟩

namespace Loads

/-- The spaces between tokens. -/
def skipSpace (s : List Char) : List Char := s.dropWhile fun c => c = ' ' || c = '\t' || c = '\n' || c = '\r'

/-! ### Strings -/

/-- A hex digit. -/
def hexDigit (c : Char) : Option ℕ := if digitVal c < 16 then some (digitVal c) else none

/-- The four digits of an escape, and the text after them. -/
def hex4 : List Char → Option (ℕ × List Char)
  | a :: b :: c :: d :: s => do
    return ((((← hexDigit a) * 16 + (← hexDigit b)) * 16 + (← hexDigit c)) * 16 + (← hexDigit d), s)
  | _ => none

/-- The character of an escape of one letter. -/
def simpleEscape (c : Char) : Option Char :=
  match c with
  | '"' => some '"'
  | '\\' => some '\\'
  | '/' => some '/'
  | 'b' => some '\x08'
  | 'f' => some '\x0c'
  | 'n' => some '\n'
  | 'r' => some '\r'
  | 't' => some '\t'
  | _ => none

/-- The low half of a surrogate pair, and the text after it. -/
def lowHalf : List Char → Option (ℕ × List Char)
  | '\\' :: 'u' :: s => do
    let low ← hex4 s
    if 0xdc00 ≤ low.1 ∧ low.1 < 0xe000 then some low else none
  | _ => none

/-- The character of a `\u` escape. -/
def unicodeEscape (s : List Char) : Option (Char × List Char) := do
  let (n, rest) ← hex4 s
  if 0xd800 ≤ n ∧ n < 0xdc00 then
    match lowHalf rest with
    | some (low, rest) => return (Char.ofNat (0x10000 + (n - 0xd800) * 0x400 + (low - 0xdc00)), rest)
    | none => return ('\ufffd', rest)
  else if 0xdc00 ≤ n ∧ n < 0xe000 then return ('\ufffd', rest)
  else return (Char.ofNat n, rest)

/-- The characters up to the closing quote, and the text after it. -/
def scanString : ℕ → List Char → Option (List Char × List Char)
  | 0, _ => none
  | _ + 1, [] => none
  | _ + 1, '"' :: s => some ([], s)
  | _ + 1, ['\\'] => none
  | fuel + 1, '\\' :: 'u' :: s => do
    let (c, s) ← unicodeEscape s
    let (cs, s) ← scanString fuel s
    return (c :: cs, s)
  | fuel + 1, '\\' :: c :: s => do
    let c ← simpleEscape c
    let (cs, s) ← scanString fuel s
    return (c :: cs, s)
  | fuel + 1, c :: s =>
    if c.toNat < 0x20 then none
    else do
      let (cs, s) ← scanString fuel s
      return (c :: cs, s)

/-! ### Numbers -/

/-- The integer part of a number: `0`, or digits that do not start with one. -/
def integerPart : List Char → Option (List Char × List Char)
  | '0' :: s => some (['0'], s)
  | c :: s => if c.isDigit then some ((c :: s).span Char.isDigit) else none
  | [] => none

/-- A point with digits after it. -/
def fractionPart : List Char → List Char × List Char
  | '.' :: c :: s => if c.isDigit then ('.' :: ((c :: s).span Char.isDigit).1, ((c :: s).span Char.isDigit).2)
      else ([], '.' :: c :: s)
  | s => ([], s)

/-- The sign of an exponent. -/
def exponentSign : List Char → List Char × List Char
  | '+' :: s => (['+'], s)
  | '-' :: s => (['-'], s)
  | s => ([], s)

def exponentPart : List Char → List Char × List Char
  | c :: s =>
    if c = 'e' ∨ c = 'E' then
      let sign := exponentSign s
      let digits := sign.2.span Char.isDigit
      if digits.1 = [] then ([], c :: s) else (c :: (sign.1 ++ digits.1), digits.2)
    else ([], c :: s)
  | [] => ([], [])

/-- The most digits of an integer. -/
def maxDigits : ℕ := 4300

/-- A number, and the text after it. -/
def scanNumber (s : List Char) : Except Err (Val × List Char) :=
  let sign := match s with
    | '-' :: s => (['-'], s)
    | s => ([], s)
  match integerPart sign.2 with
  | none => .error jsonDecodeError
  | some (whole, s) =>
    let fraction := fractionPart s
    let exponent := exponentPart fraction.2
    if fraction.1 = [] ∧ exponent.1 = [] then
      if maxDigits < whole.length then .error (valueError "Exceeds the limit (4300 digits) for integer string conversion")
      else .ok (.int ((intOfText 10 (sign.1 ++ whole)).getD 0), s)
    else .ok (.float ((PyFloat.ofText (sign.1 ++ whole ++ fraction.1 ++ exponent.1)).getD .nan), exponent.2)

/-! ### Values -/

/-- A word such as `null`. -/
def literal (s : List Char) : Option (Val × List Char) :=
  [("null", Val.none), ("true", .bool true), ("false", .bool false), ("NaN", .float .nan),
    ("Infinity", .float (.inf false)), ("-Infinity", .float (.inf true))].findSome? fun p =>
      (s.dropPrefix? p.1.toList).map fun rest => (p.2, rest)

mutual
/-- The value that a text starts with, and the text after it; `depth` levels may be nested in it. -/
def value (depth : ℕ) : ℕ → List Char → Except Err (Val × List Char)
  | 0, _ => .error jsonDecodeError
  | fuel + 1, s =>
    match s with
    | '"' :: s =>
      match scanString (s.length + 1) s with
      | some (cs, s) => .ok (.str (String.ofList cs), s)
      | none => .error jsonDecodeError
    | '{' :: s =>
      if depth = 0 then .error recursionError
      else
        match skipSpace s with
        | '}' :: s => .ok (.dict [], s)
        | s => do
          let (ps, s) ← fields (depth - 1) fuel s
          return (.dict (ofPairs ps), s)
    | '[' :: s =>
      if depth = 0 then .error recursionError
      else
        match skipSpace s with
        | ']' :: s => .ok (.list [], s)
        | s => do
          let (xs, s) ← items (depth - 1) fuel s
          return (.list xs, s)
    | s =>
      match literal s with
      | some found => .ok found
      | none => scanNumber s
/-- The items up to the closing bracket. -/
def items (depth : ℕ) : ℕ → List Char → Except Err (List Val × List Char)
  | 0, _ => .error jsonDecodeError
  | fuel + 1, s => do
    let (x, s) ← value depth fuel s
    match skipSpace s with
    | ']' :: s => return ([x], s)
    | ',' :: s =>
      let (xs, s) ← items depth fuel (skipSpace s)
      return (x :: xs, s)
    | _ => throw jsonDecodeError
/-- The fields up to the closing brace. -/
def fields (depth : ℕ) : ℕ → List Char → Except Err (List (String × Val) × List Char)
  | 0, _ => .error jsonDecodeError
  | fuel + 1, s =>
    match s with
    | '"' :: s =>
      match scanString (s.length + 1) s with
      | none => .error jsonDecodeError
      | some (k, s) =>
        match skipSpace s with
        | ':' :: s => do
          let (x, s) ← value depth fuel (skipSpace s)
          match skipSpace s with
          | '}' :: s => return ([(String.ofList k, x)], s)
          | ',' :: s =>
            let (ps, s) ← fields depth fuel (skipSpace s)
            return ((String.ofList k, x) :: ps, s)
          | _ => throw jsonDecodeError
        | _ => .error jsonDecodeError
    | _ => .error jsonDecodeError
end

end Loads

/-- `json.loads(s)`, where `depth` levels may be nested. A level takes two calls. -/
def loads (depth : ℕ) (s : List Char) : Except Err Val := do
  let (v, rest) ← Loads.value depth (2 * s.length + 2) (Loads.skipSpace s)
  if Loads.skipSpace rest = [] then return v
  throw jsonDecodeError

/-- A text that starts with a brace is a dict, if it is anything. -/
theorem loads_dict {depth : ℕ} {s : List Char} {v : Val} (h : loads depth ('{' :: s) = .ok v) : ∃ d, v = .dict d := by
  obtain ⟨⟨w, rest⟩, hw, h⟩ := bind_eq_ok.mp h
  obtain rfl : w = v := by
    dsimp only at h
    split at h
    · exact Except.ok.inj h
    · cases h
  have hskip : Loads.skipSpace ('{' :: s) = '{' :: s := rfl
  rw [hskip, List.length_cons, Loads.value] at hw
  split at hw
  · cases hw
  · split at hw
    · obtain ⟨rfl, -⟩ := Prod.mk.inj (Except.ok.inj hw)
      exact ⟨_, rfl⟩
    · obtain ⟨⟨ps, after⟩, -, hw⟩ := bind_eq_ok.mp hw
      obtain ⟨rfl, -⟩ := Prod.mk.inj (Except.ok.inj hw)
      exact ⟨_, rfl⟩

end Py
