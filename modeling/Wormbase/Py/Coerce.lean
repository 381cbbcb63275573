import Wormbase.Py.Encode

/-! What Python's constructors make of a value: `str`, `int`, `float`, `list`, `UUID`, and what it
    takes as a dict key.

    The interpreter's digest and its table of printable characters are parameters. A value of a type
    that JSON has no form for prints as its type name. -/

namespace Py

/-- What the interpreter brings along: `hashlib.sha256` and `str.isprintable` of one character. -/
structure Interp where
  sha256 : Bytes → Bytes
  isprintable : Char → Bool

/-- An interpreter to compute with: its digest is the input, and every character prints. -/
def Interp.plain : Interp := ⟨id, fun _ => true⟩

def keyError (name : String) : Err := ⟨"KeyError", s!"'{name}'"⟩

/-- `d[name]`. -/
def Dict.item (d : Dict) (name : String) : Except Err Val :=
  match d.get? name with
  | some v => .ok v
  | none => .error (keyError name)

/-- `d.get(name, default)`. -/
def Dict.getD (d : Dict) (name : String) (default : Val) : Val := (d.get? name).getD default

/-- `name in d`. -/
def Dict.has (d : Dict) (name : String) : Bool := (d.get? name).isSome

/-- `x or {}`, when something is then got of it. -/
def orMapping (v : Val) : Except Err Dict :=
  match v.or (.dict []) with
  | .dict kvs => .ok kvs
  | w => .error (attributeError s!"'{w.typeName}' object has no attribute 'get'")

theorem orMapping_dict (kvs : Dict) : orMapping (.dict kvs) = .ok kvs := by
  by_cases hempty : kvs = [] <;> simp [orMapping, Val.or, Val.truthy, hempty]

/-! ### Text of a value -/

/-- `width` hex digits with leading zeros. -/
def hexPad (width n : ℕ) : List Char :=
  let ds := Nat.toDigits 16 n
  List.replicate (width - ds.length) '0' ++ ds

/-- A character inside a quoted text. -/
def reprChar (py : Interp) (q c : Char) : List Char :=
  if c = q ∨ c = '\\' then ['\\', c]
  else if c = '\n' then ['\\', 'n']
  else if c = '\r' then ['\\', 'r']
  else if c = '\t' then ['\\', 't']
  else if c.toNat < 0x20 ∨ c.toNat = 0x7f then '\\' :: 'x' :: hexPad 2 c.toNat
  else if c.toNat < 0x7f ∨ py.isprintable c then [c]
  else if c.toNat < 0x100 then '\\' :: 'x' :: hexPad 2 c.toNat
  else if c.toNat < 0x10000 then '\\' :: 'u' :: hexPad 4 c.toNat
  else '\\' :: 'U' :: hexPad 8 c.toNat

/-- `repr(s)`: double quotes only around a text with single ones and no double ones. -/
def reprStr (py : Interp) (s : String) : List Char :=
  let q := if s.toList.contains '\'' && !s.toList.contains '"' then '"' else '\''
  q :: (s.toList.flatMap (reprChar py q) ++ [q])

def intText (i : ℤ) : List Char :=
  if i < 0 then '-' :: PyFloat.digits i.natAbs else PyFloat.digits i.natAbs

def Key.repr (py : Interp) : Key → List Char
  | .str s => reprStr py s
  | .int i => intText i
  | .float x => x.repr
  | .bool b => (if b then "True" else "False").toList
  | .none => "None".toList
  | .other n _ => n.toList

mutual
/-- `repr(v)`. -/
def Val.repr (py : Interp) : Val → List Char
  | .none => "None".toList
  | .bool b => (if b then "True" else "False").toList
  | .int i => intText i
  | .float x => x.repr
  | .str s => reprStr py s
  | .uuid u => "UUID('".toList ++ u.text ++ "')".toList
  | .list xs => '[' :: (reprItems py xs ++ [']'])
  | .dict kvs => '\x7b' :: (reprFields py kvs ++ ['\x7d'])
  | .bytes _ => "bytes".toList
  | .datetime _ => "datetime".toList
  | .other n => n.toList
def reprItems (py : Interp) : List Val → List Char
  | [] => []
  | [x] => x.repr py
  | x :: xs => x.repr py ++ ',' :: ' ' :: reprItems py xs
def reprFields (py : Interp) : List (Key × Val) → List Char
  | [] => []
  | [(k, v)] => k.repr py ++ ':' :: ' ' :: v.repr py
  | (k, v) :: kvs => k.repr py ++ ':' :: ' ' :: v.repr py ++ ',' :: ' ' :: reprFields py kvs
end

/-- `str(v)`. -/
def Val.toStr (py : Interp) : Val → String
  | .str s => s
  | .uuid u => u.str
  | v => String.ofList (v.repr py)

@[simp] theorem Val.toStr_str (py : Interp) (s : String) : (Val.str s).toStr py = s := rfl

/-- `str(v or "")`. -/
def Val.text (py : Interp) (v : Val) : String := (v.or (.str "")).toStr py

theorem Val.text_str (py : Interp) (s : String) : (Val.str s).text py = s := by
  rcases eq_or_ne s "" with rfl | hs
  · rfl
  · simp [Val.text, Val.or, Val.truthy, hs, Val.toStr]

/-- `str(v) if v else None`. -/
def Val.text? (py : Interp) (v : Val) : Option String := if v.truthy then some (v.toStr py) else .none

/-! ### Numbers -/

/-- Decimal zeros outside ASCII: each starts a run of ten digits. -/
def decimalZeros : List ℕ :=
  [0x660, 0x6f0, 0x7c0, 0x966, 0x9e6, 0xa66, 0xae6, 0xb66, 0xbe6, 0xc66, 0xce6, 0xd66, 0xde6, 0xe50,
    0xed0, 0xf20, 0x1040, 0x1090, 0x17e0, 0x1810, 0x1946, 0x19d0, 0x1a80, 0x1a90, 0x1b50, 0x1bb0,
    0x1c40, 0x1c50, 0xa620, 0xa8d0, 0xa900, 0xa9d0, 0xa9f0, 0xaa50, 0xabf0, 0xff10, 0x104a0,
    0x10d30, 0x11066, 0x110f0, 0x11136, 0x111d0, 0x112f0, 0x11450, 0x114d0, 0x11650, 0x116c0,
    0x11730, 0x118e0, 0x11950, 0x11c50, 0x11d50, 0x11da0, 0x11f50, 0x16a60, 0x16ac0, 0x16b50,
    0x1d7ce, 0x1d7d8, 0x1d7e2, 0x1d7ec, 0x1d7f6, 0x1e140, 0x1e2f0, 0x1e4f0, 0x1e950, 0x1fbf0]

/-- A space outside ASCII. -/
def wideSpace (n : ℕ) : Bool :=
  n = 0x85 || n = 0xa0 || n = 0x1680 || (0x2000 ≤ n && n ≤ 0x200a) || n = 0x2028 || n = 0x2029 ||
    n = 0x202f || n = 0x205f || n = 0x3000

/-- The ASCII form of a digit or a space, as the number parsers see it. -/
def asciiChar (c : Char) : Char :=
  let n := c.toNat
  if n < 0x80 then c
  else if wideSpace n then ' '
  else
    match decimalZeros.find? fun z => z ≤ n && n ≤ z + 9 with
    | some z => Nat.digitChar (n - z)
    | none => '?'

def isSpace (c : Char) : Bool :=
  c = ' ' || c = '\t' || c = '\n' || c = '\r' || c = '\x0b' || c = '\x0c'

def strip (s : List Char) : List Char :=
  ((s.dropWhile isSpace).reverse.dropWhile isSpace).reverse

/-- `c.isspace()`. -/
def whitespace (c : Char) : Bool := isSpace c || (0x1c ≤ c.toNat && c.toNat ≤ 0x1f) || wideSpace c.toNat

/-- `s.strip()`. -/
def stripText (s : String) : String :=
  String.ofList ((s.toList.dropWhile whitespace).reverse.dropWhile whitespace).reverse

/-- The value of a digit; 36 and more for what is none. -/
def digitVal (c : Char) : ℕ :=
  if '0' ≤ c ∧ c ≤ '9' then c.toNat - '0'.toNat
  else if 'a' ≤ c ∧ c ≤ 'z' then c.toNat - 'a'.toNat + 10
  else if 'A' ≤ c ∧ c ≤ 'Z' then c.toNat - 'A'.toNat + 10
  else 36

/-- Digits with single underscores between them; `seen` after a digit. -/
def readDigits (base : ℕ) : List Char → ℕ → Bool → Option ℕ
  | [], acc, seen => if seen then some acc else none
  | c :: cs, acc, seen =>
    if c = '_' then if seen then readDigits base cs acc false else none
    else if digitVal c < base then readDigits base cs (acc * base + digitVal c) true
    else none

/-- The `0x` before a number in base 16, with the underscore it may end in. -/
def dropHexMark : List Char → List Char
  | '0' :: 'x' :: '_' :: cs | '0' :: 'X' :: '_' :: cs => cs
  | '0' :: 'x' :: cs | '0' :: 'X' :: cs => cs
  | cs => cs

/-- `int(s, base)` for base 10 or 16; `none` for a `ValueError`. -/
def intOfText (base : ℕ) (s : List Char) : Option ℤ :=
  let (neg, cs) := PyFloat.signOf (strip (s.map asciiChar))
  let cs := if base = 16 then dropHexMark cs else cs
  (readDigits base cs 0 false).map fun n => if neg then -n else n

/-- `int(v)`. -/
def Val.toInt : Val → Except Err ℤ
  | .bool b => .ok (if b then 1 else 0)
  | .int i => .ok i
  | .float (.finite neg q) => .ok (if neg then -q.floor else q.floor)
  | .float (.inf _) => .error (overflowError "cannot convert float infinity to integer")
  | .float .nan => .error (valueError "cannot convert float NaN to integer")
  | .str s =>
    match intOfText 10 s.toList with
    | some i => .ok i
    | .none => .error (valueError "invalid literal for int() with base 10")
  | v => .error (typeError
      s!"int() argument must be a string, a bytes-like object or a real number, not '{v.typeName}'")

/-- `float(v)`. -/
def Val.toFloat : Val → Except Err PyFloat
  | .bool b => .ok (.exact (if b then 1 else 0))
  | .int i =>
    match PyFloat.ofInt i with
    | some x => .ok x
    | .none => .error (overflowError "int too large to convert to float")
  | .float x => .ok x
  | .str s =>
    match PyFloat.ofText (strip (s.toList.map asciiChar)) with
    | some x => .ok x
    | .none => .error (valueError "could not convert string to float")
  | v => .error (typeError
      s!"float() argument must be a string or a real number, not '{v.typeName}'")

/-! ### Lists and keys -/

def Key.val : Key → Val
  | .str s => .str s
  | .int i => .int i
  | .float x => .float x
  | .bool b => .bool b
  | .none => .none
  | .other n _ => .other n

/-- `list(v)`. -/
def Val.toList : Val → Except Err (List Val)
  | .list xs => .ok xs
  | .str s => .ok (s.toList.map fun c => .str (String.ofList [c]))
  | .dict kvs => .ok (kvs.map fun p => p.1.val)
  | .bytes b => .ok (b.map fun x => .int x.toNat)
  | v => .error (typeError s!"'{v.typeName}' object is not iterable")

/-- A finite float that is an integer. -/
def PyFloat.integer? : PyFloat → Option ℤ
  | .finite neg q => if q.den = 1 then some (if neg then -q.num else q.num) else none
  | _ => none

/-- A value as a dict key, equal keys in one form: `1`, `1.0` and `True` are one key. -/
def Val.hash : Val → Except Err Key
  | .str s => .ok (.str s)
  | .none => .ok .none
  | .bool b => .ok (.int (if b then 1 else 0))
  | .int i => .ok (.int i)
  | .float x => .ok (match x.integer? with | some i => .int i | .none => .float x)
  | .uuid u => .ok (.other "UUID" u.val)
  | v => .error (typeError s!"unhashable type: '{v.typeName}'")

theorem Val.hash_eq_str {v : Val} {s : String} (h : v.hash = .ok (.str s)) : v = .str s := by
  cases v with
  | str t => rw [Key.str.inj (Except.ok.inj h)]
  | float x =>
    have h := Except.ok.inj h
    cases hx : x.integer? with
    | none => simp [hx] at h
    | some i => simp [hx] at h
  | _ => simp [hash] at h

/-- The key of a value that has one. -/
def Val.keyOf (v : Val) : Key := v.hash.toOption.getD .none

/-! ### Equality -/

def PyFloat.same : PyFloat → PyFloat → Bool
  | .finite n q, .finite n' q' => signed n q = signed n' q'
  | .inf n, .inf n' => n = n'
  | _, _ => false

def Val.num : Val → Option PyFloat
  | .bool b => some (.exact (if b then 1 else 0))
  | .int i => some (.exact i)
  | .float x => some x
  | _ => .none

/-- `s == t` of two datetimes: instants where both have an offset. -/
def DateTime.same (s t : DateTime) : Bool :=
  match s.utcoffset, t.utcoffset with
  | some o, some p => (s.wall : ℤ) - o = t.wall - p
  | .none, .none => s.wall = t.wall
  | _, _ => false

mutual
/-- `v == w`. -/
def Val.same : Val → Val → Bool
  | .none, .none => true
  | .str s, .str t => s = t
  | .bytes a, .bytes b => a = b
  | .uuid a, .uuid b => a = b
  | .datetime s, .datetime t => s.same t
  | .list xs, .list ys => sameItems xs ys
  | .dict kvs, .dict kws => kvs.length = kws.length && sameFields kvs kws
  | v, w =>
    match v.num, w.num with
    | some x, some y => x.same y
    | _, _ => false
def sameItems : List Val → List Val → Bool
  | [], [] => true
  | x :: xs, y :: ys => x.same y && sameItems xs ys
  | _, _ => false
def sameFields : List (Key × Val) → Dict → Bool
  | [], _ => true
  | (k, v) :: kvs, kws =>
    ((kws.find? fun p => p.1.val.keyOf = k.val.keyOf).any fun p => v.same p.2) &&
      sameFields kvs kws
end

/-- `v == s` of any value with a text. -/
def Val.isText : Val → String → Bool
  | .str t, s => t = s
  | _, _ => false

theorem Val.isText_iff {v : Val} {s : String} : v.isText s = true ↔ v = .str s := by
  cases v <;> simp [isText]

/-- `part in text` of two texts. -/
def occursIn (part text : String) : Bool := text.toList.tails.any fun tail => part.toList.isPrefixOf tail

/-! ### UUIDs -/

/-- `s.replace("urn:", "")`. -/
def dropUrn : List Char → List Char
  | 'u' :: 'r' :: 'n' :: ':' :: cs => dropUrn cs
  | c :: cs => c :: dropUrn cs
  | [] => []

/-- `s.replace("uuid:", "")`. -/
def dropUuid : List Char → List Char
  | 'u' :: 'u' :: 'i' :: 'd' :: ':' :: cs => dropUuid cs
  | c :: cs => c :: dropUuid cs
  | [] => []

/-- `s.strip("\x7b\x7d")`. -/
def stripBraces (s : List Char) : List Char :=
  let brace := fun c : Char => c = '\x7b' || c = '\x7d'
  ((s.dropWhile brace).reverse.dropWhile brace).reverse

/-- `UUID(s)` of a text; `none` for a `ValueError`. -/
def UUID.ofText (s : List Char) : Option UUID :=
  let hex := (stripBraces (dropUuid (dropUrn s))).filter (· ≠ '-')
  if hex.length = 32 then
    (intOfText 16 hex).bind fun i =>
      if h : 0 ≤ i ∧ i < 2 ^ 128 then some ⟨⟨i.toNat, by omega⟩⟩ else none
  else none

/-- `UUID(v)`. -/
def Val.toUUID : Val → Except Err UUID
  | .str s =>
    match UUID.ofText s.toList with
    | some u => .ok u
    | .none => .error (valueError "badly formed hexadecimal UUID string")
  | .none => .error (typeError
      "one of the hex, bytes, bytes_le, fields, or int arguments must be given")
  | v => .error (attributeError s!"'{v.typeName}' object has no attribute 'replace'")

/-- `UUID(v) if v else None`. -/
def Val.toUUID? (v : Val) : Except Err (Option UUID) :=
  if v.truthy then do return some (← v.toUUID) else return .none

/-- `UUID(bytes=h[:16])`. -/
def UUID.ofBytes (h : Bytes) : UUID :=
  ⟨Fin.ofNat (2 ^ 128) ((h.take 16).foldl (fun n b => n * 256 + b.toNat) 0)⟩

/-- `uuid.hex`. -/
def UUID.hex (u : UUID) : String := String.ofList (u.text.filter (· ≠ '-'))

/-- The texts that `"|".join` takes. -/
def joinParts : List Val → ℕ → Except Err (List String)
  | [], _ => .ok []
  | .str s :: vs, i => do return s :: (← joinParts vs (i + 1))
  | v :: _, i => .error (typeError
      s!"sequence item {i}: expected str instance, {v.typeName} found")

end Py
