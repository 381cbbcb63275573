import Wormbase.Lib.Regex
import Wormbase.Py.Coerce

/-! `PIIRedactionGate.redact_args`. The tables behind `\d` and `\w` are a parameter. -/

namespace Gateway
open Py Regex

/-- What the `re` module knows of characters. -/
structure CharTable where
  isDecimal : Char → Bool
  isWord : Char → Bool

/-- The ASCII part of the tables. -/
def CharTable.ascii : CharTable := ⟨Char.isDigit, fun c => c.isAlphanum || c = '_'⟩

section
variable (chars : CharTable)

def literal (c : Char) : Expr Char := .one (· = c)

/-- `[ -]?`. -/
def gap : Expr Char := .opt (.one fun c => c = ' ' || c = '-')

def digits (n : ℕ) : Expr Char := .times (.one chars.isDecimal) n

def wordEdge : Expr Char := .edge chars.isWord

/-- `[A-Za-z0-9._%+-]+@[A-Za-z0-9.-]+\.[A-Za-z]{2,}`. -/
def emailPattern : Expr Char := .all
  [.rep (.one fun c => c.isAlphanum || c ∈ ['.', '_', '%', '+', '-']) 1 none, literal '@',
    .rep (.one fun c => c.isAlphanum || c ∈ ['.', '-']) 1 none, literal '.',
    .rep (.one Char.isAlpha) 2 none]

/-- `\b\d{3}-\d{2}-\d{4}\b`. -/
def ssnPattern : Expr Char := .all
  [wordEdge chars, digits chars 3, literal '-', digits chars 2, literal '-', digits chars 4, wordEdge chars]

/-- `\b\+?1?[ -]?\(?\d{3}\)?[ -]?\d{3}[ -]?\d{4}\b`. -/
def phonePattern : Expr Char := .all
  [wordEdge chars, .opt (literal '+'), .opt (literal '1'), gap, .opt (literal '('), digits chars 3,
    .opt (literal ')'), gap, digits chars 3, gap, digits chars 4, wordEdge chars]

/-- `\b(?:\d[ -]?){13,19}\b`. -/
def creditCardPattern : Expr Char := .all
  [wordEdge chars, .rep (.seq (.one chars.isDecimal) gap) 13 (some 19), wordEdge chars]

/-- `_PII_PATTERNS`. -/
def piiPatterns : List (String × Expr Char) :=
  [("email", emailPattern), ("ssn", ssnPattern chars), ("phone", phonePattern chars),
    ("credit_card", creditCardPattern chars)]

/-- One pattern of `_redact_value` over a text. -/
def redactPattern (result : List Char) (p : String × Expr Char) : List Char :=
  if p.2.search result then p.2.sub ("[REDACTED:" ++ p.1 ++ "]").toList result else result

/-- `_redact_value` of a text. -/
def redactText (s : String) : String := String.ofList ((piiPatterns chars).foldl redactPattern s.toList)

mutual
/-- `_redact_value`. Keys stay as they are. -/
def redactValue : Val → Val
  | .str s => .str (redactText chars s)
  | .list xs => .list (redactItems xs)
  | .dict kvs => .dict (redactArgs kvs)
  | v => v
def redactItems : List Val → List Val
  | [] => []
  | x :: xs => redactValue x :: redactItems xs
/-- `redact_args`, and `_redact_value` of any dict. -/
def redactArgs : List (Key × Val) → List (Key × Val)
  | [] => []
  | (k, v) :: kvs => (k, redactValue v) :: redactArgs kvs
end

mutual
/-- `_walk_strings`. -/
def walkStrings : Val → List String
  | .str s => if s = "" then [] else [s]
  | .dict kvs => walkFields kvs
  | .list xs => walkItems xs
  | _ => []
def walkItems : List Val → List String
  | [] => []
  | x :: xs => walkStrings x ++ walkItems xs
def walkFields : List (Key × Val) → List String
  | [] => []
  | (_, v) :: kvs => walkStrings v ++ walkFields kvs
end

end

/-! ### What redaction leaves alone -/

section
variable {chars : CharTable}

theorem redactPattern_nil {p : String × Expr Char} {s : List Char} : redactPattern s p = [] ↔ s = [] := by
  unfold redactPattern
  split
  · refine Expr.sub_eq_nil_iff ?_
    simp
  · exact Iff.rfl

/-- The empty text stays empty, and no other becomes so. -/
theorem redactText_eq_empty {s : String} : redactText chars s = "" ↔ s = "" := by
  have hfold : ∀ (ps : List (String × Expr Char)) (cs : List Char), ps.foldl redactPattern cs = [] ↔ cs = [] := by
    intro ps
    induction ps with
    | nil => exact fun cs => Iff.rfl
    | cons p ps ih => exact fun cs => (ih _).trans redactPattern_nil
  rw [redactText, ← String.toList_inj, String.toList_ofList]
  exact (hfold _ _).trans String.toList_eq_nil_iff

theorem redactItems_length (xs : List Val) : (redactItems chars xs).length = xs.length := by
  induction xs with
  | nil => rfl
  | cons x xs ih => rw [redactItems, List.length_cons, List.length_cons, ih]

theorem redactArgs_length (kvs : List (Key × Val)) : (redactArgs chars kvs).length = kvs.length := by
  induction kvs with
  | nil => rfl
  | cons p kvs ih => rw [redactArgs, List.length_cons, List.length_cons, ih]

theorem redactValue_truthy (v : Val) : (redactValue chars v).truthy = v.truthy := by
  cases v with
  | str s => simp [redactValue, Val.truthy, redactText_eq_empty]
  | list xs => simp [redactValue, Val.truthy, redactItems_length]
  | dict kvs => simp [redactValue, Val.truthy, redactArgs_length]
  | _ => rfl

theorem redactArgs_get (kvs : Dict) (name : String) :
    Dict.get (redactArgs chars kvs) name = redactValue chars (Dict.get kvs name) := by
  have hfind : ∀ kvs : List (Key × Val), Dict.get? (redactArgs chars kvs) name =
      (Dict.get? kvs name).map (redactValue chars) := by
    intro kvs
    induction kvs with
    | nil => rfl
    | cons p kvs ih =>
      obtain ⟨k, v⟩ := p
      by_cases hk : k = .str name
      · simp [redactArgs, Dict.get?, hk]
      · simp only [Dict.get?] at ih
        simp [redactArgs, Dict.get?, hk, ih]
  rw [Dict.get, Dict.get, hfind]
  cases Dict.get? kvs name <;> rfl

mutual
/-- There is a text to scan in a value exactly when there is one in its redacted form. -/
theorem walkStrings_redact : ∀ v : Val, walkStrings (redactValue chars v) = [] ↔ walkStrings v = []
  | .str s => by simp [redactValue, walkStrings, redactText_eq_empty]
  | .list xs => by
    rw [redactValue, walkStrings, walkStrings]
    exact walkItems_redact xs
  | .dict kvs => by
    rw [redactValue, walkStrings, walkStrings]
    exact walkFields_redact kvs
  | .none | .bool _ | .int _ | .float _ | .bytes _ | .uuid _ | .datetime _ | .other _ => Iff.rfl
theorem walkItems_redact : ∀ xs : List Val, walkItems (redactItems chars xs) = [] ↔ walkItems xs = []
  | [] => Iff.rfl
  | x :: xs => by
    rw [redactItems, walkItems, walkItems, List.append_eq_nil_iff, List.append_eq_nil_iff,
      walkStrings_redact x, walkItems_redact xs]
theorem walkFields_redact : ∀ kvs : List (Key × Val),
    walkFields (redactArgs chars kvs) = [] ↔ walkFields kvs = []
  | [] => Iff.rfl
  | (k, v) :: kvs => by
    rw [redactArgs, walkFields, walkFields, List.append_eq_nil_iff, List.append_eq_nil_iff,
      walkStrings_redact v, walkFields_redact kvs]
end

end

/-- An address goes, the rest of the name stays. -/
example : redactText .ascii "sales ana@x.io" = "sales [REDACTED:email]" := by decide +kernel

/-- The optional gap of the phone pattern takes the space before the number. -/
example : redactText .ascii "call 415-555-0100" = "call[REDACTED:phone]" := by decide +kernel

end Gateway
