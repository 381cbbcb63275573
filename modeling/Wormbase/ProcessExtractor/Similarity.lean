import Wormbase.Lib.EditTable
import Wormbase.Lib.Regex
import Wormbase.Py.Coerce
import Wormbase.Py.FloatArith
import Wormbase.Py.IsoFormat
import Mathlib.Data.Finset.Card

/-! The text heuristics by which the process extractor clusters messages.

    A text joins a cluster when the tokens of the two overlap by half or when few edits lead from one to
    the other. Neither is transitive. -/

namespace ProcessExtractor
open Py

/-- What the heuristics ask Unicode about: `str.lower`, the class `\w`, and the letters that are one
    another's case. -/
structure TextOps where
  lower : List Char → List Char
  isWord : Char → Bool
  ignoreCase : Char → Char → Bool

/-- The three on ASCII. -/
def TextOps.ascii : TextOps where
  lower := List.map Char.toLower
  isWord := fun c => c.isAlphanum || c = '_'
  ignoreCase := fun c d => c.toLower = d.toLower

section
variable (ops : TextOps)

/-! ### Questions -/

def questionWords : List String :=
  ["what", "why", "how", "when", "who", "where", "did", "do", "does", "is", "are", "was", "were", "can", "could",
    "should"]

/-- `^\s*word\b` regardless of case. -/
def opensWith (word : String) : Regex.Expr Char :=
  .seq (.rep (.one whitespace) 0 none) (.seq (.all (word.toList.map fun c => .one (ops.ignoreCase c)))
    (.edge ops.isWord))

/-- `_is_question`. -/
def isQuestion (text : String) : Bool :=
  if text = "" then false
  else if text.toList.contains '?' then true
  else questionWords.any fun word => ((opensWith ops word).matchAt none text.toList).isSome

/-! ### Normal forms -/

/-- `_STOP`. -/
def stop : List String :=
  ["the", "a", "an", "is", "are", "was", "were", "do", "does", "did",
    "i", "you", "we", "they", "he", "she", "it", "this", "that",
    "to", "of", "in", "on", "at", "for", "by", "with", "and", "or",
    "from", "but", "as", "if", "be", "been", "being", "am", "my",
    "our", "your", "their", "his", "her", "its", "me", "us",
    "what's", "whats", "what", "why", "how", "when", "who", "where",
    "can", "could", "should", "would", "have", "has", "had"]

/-- `s.split()`. -/
def splitWords (s : List Char) : List String :=
  ((s.splitOnP whitespace).filter (· ≠ [])).map String.ofList

/-- `_normalize_question`. -/
def normalizeQuestion (text : String) : String :=
  let lo := (ops.lower text.toList).map fun c => if ops.isWord c || whitespace c then c else ' '
  " ".intercalate ((splitWords lo).filter fun t => t ∉ stop ∧ 1 < t.length)

end

/-! ### Likeness -/

/-- `_levenshtein`. -/
def levenshtein (a b : String) : ℕ :=
  if a = b then 0
  else if a = "" then b.length
  else if b = "" then a.length
  else EditTable.distance a.toList b.toList

/-- `_cluster_threshold`. -/
def clusterThreshold (s : String) : ℕ := max 4 (s.length / 2)

/-- `_token_overlap`: the quotient of the two sizes as a float, which is at most one. -/
def tokenOverlap (a b : String) : PyFloat :=
  let sa := (splitWords a.toList).toFinset
  let sb := (splitWords b.toList).toFinset
  if sa = ∅ ∨ sb = ∅ then PyFloat.zero else PyFloat.ofMag false ((sa ∩ sb).card / (sa ∪ sb).card)

/-- The two ways into a cluster, as both stores try them. -/
def joins (canonical normalized : String) : Bool :=
  PyFloat.le (.finite false (1 / 2)) (tokenOverlap canonical normalized) ||
    decide (levenshtein canonical normalized ≤
      clusterThreshold (if normalized.length ≤ canonical.length then canonical else normalized))

/-- A text joins a cluster of its own. -/
theorem joins_self (text : String) : joins text text = true := by
  have hsame : levenshtein text text = 0 := if_pos rfl
  rw [joins, hsame, decide_eq_true (Nat.zero_le _), Bool.or_true]

/-- `_parse_ts`. -/
def parseTs : Val → Option DateTime
  | .datetime t => some t
  | .str s => if s = "" then none else fromisoformat s.toList
  | _ => none

example : levenshtein "kitten" "sitting" = 3 := by decide +kernel
example : joins "q3 net revenue" "q3 net revenue quarter" = true := by decide +kernel
example : joins "q3 net revenue" "deploy plan" = false := by decide +kernel

end ProcessExtractor
