import Wormbase.Py.Encode

/-! `json.dumps` with ASCII only: with its own separators, a space after every comma and colon, and with
    the narrow ones, none. -/

namespace Py

/-- `\uXXXX` of a unit of sixteen bits. -/
def unitEscape (n : ℕ) : List Char :=
  ['\\', 'u', Nat.digitChar (n / 4096 % 16), Nat.digitChar (n / 256 % 16), Nat.digitChar (n / 16 % 16),
    Nat.digitChar (n % 16)]

/-- One character between the quotes; above the sixteen bits it takes two units. -/
def asciiEscape (c : Char) : List Char :=
  if c = '"' then ['\\', '"']
  else if c = '\\' then ['\\', '\\']
  else if c = '\n' then ['\\', 'n']
  else if c = '\r' then ['\\', 'r']
  else if c = '\t' then ['\\', 't']
  else if c = '\x0c' then ['\\', 'f']
  else if c = '\x08' then ['\\', 'b']
  else if 0x20 ≤ c.toNat ∧ c.toNat ≤ 0x7e then [c]
  else if c.toNat < 0x10000 then unitEscape c.toNat
  else unitEscape (0xd800 + (c.toNat - 0x10000) / 0x400) ++ unitEscape (0xdc00 + (c.toNat - 0x10000) % 0x400)

def asciiQuote (s : String) : List Char := '"' :: (s.toList.flatMap asciiEscape ++ ['"'])

mutual
/-- The text of a tree. -/
def dumps : Json → List Char
  | .atom t => t.text
  | .str s => asciiQuote s
  | .arr [] => ['[', ']']
  | .arr (x :: xs) => '[' :: dumps x ++ dumpsItems xs
  | .obj [] => ['{', '}']
  | .obj ((k, x) :: fs) => '{' :: asciiQuote k ++ ':' :: ' ' :: dumps x ++ dumpsFields fs
/-- The items after the first one, and the bracket that closes them. -/
def dumpsItems : List Json → List Char
  | [] => [']']
  | x :: xs => ',' :: ' ' :: dumps x ++ dumpsItems xs
def dumpsFields : List (String × Json) → List Char
  | [] => ['}']
  | (k, x) :: fs => ',' :: ' ' :: asciiQuote k ++ ':' :: ' ' :: dumps x ++ dumpsFields fs
end

mutual
/-- The text of a tree with `separators=(",", ":")`. -/
def narrow : Json → List Char
  | .atom t => t.text
  | .str s => asciiQuote s
  | .arr [] => ['[', ']']
  | .arr (x :: xs) => '[' :: narrow x ++ narrowItems xs
  | .obj [] => ['{', '}']
  | .obj ((k, x) :: fs) => '{' :: asciiQuote k ++ ':' :: narrow x ++ narrowFields fs
def narrowItems : List Json → List Char
  | [] => [']']
  | x :: xs => ',' :: narrow x ++ narrowItems xs
def narrowFields : List (String × Json) → List Char
  | [] => ['}']
  | (k, x) :: fs => ',' :: asciiQuote k ++ ':' :: narrow x ++ narrowFields fs
end

end Py
