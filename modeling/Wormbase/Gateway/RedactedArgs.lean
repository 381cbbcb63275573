import Wormbase.Gateway.Redaction
import Mathlib.Data.List.Dedup
import Mathlib.Data.List.Sort
import Mathlib.Data.String.Basic

/-! What `PIIRedactionGate.redact_args` leaves of the PII patterns.

    A redacted text holds none. Keys and tuples are not looked at. -/

namespace Gateway
open Py Regex Expr

/-- A value of the arguments of a call, whatever stands for the other scalars. -/
inductive Tree (σ : Type) where
  | str (s : String)
  | list (xs : List (Tree σ))
  | tuple (xs : List (Tree σ))
  | dict (kvs : List (Tree σ × Tree σ))
  | scalar (v : σ)

section
variable (chars : CharTable) {σ : Type}

/-! ### The code -/

/-- One pattern over a text, with the ids that matched. -/
def scanPattern (r : List Char × List String) (p : String × Expr Char) : List Char × List String :=
  if p.2.search r.1 then (p.2.sub ("[REDACTED:" ++ p.1 ++ "]").toList r.1, r.2 ++ [p.1]) else r

def scanText (s : String) : String × List String :=
  let r := (piiPatterns chars).foldl scanPattern (s.toList, [])
  (String.ofList r.1, r.2)

mutual
/-- `_redact_value`, with the ids that matched. -/
def Tree.redact : Tree σ → Tree σ × List String
  | .str s => (.str (scanText chars s).1, (scanText chars s).2)
  | .list xs => (.list (redactEach xs).1, (redactEach xs).2)
  | .dict kvs => (.dict (redactFields kvs).1, (redactFields kvs).2)
  | .tuple xs => (.tuple xs, [])
  | .scalar v => (.scalar v, [])
def redactEach : List (Tree σ) → List (Tree σ) × List String
  | [] => ([], [])
  | x :: xs => (x.redact.1 :: (redactEach xs).1, x.redact.2 ++ (redactEach xs).2)
def redactFields : List (Tree σ × Tree σ) → List (Tree σ × Tree σ) × List String
  | [] => ([], [])
  | (k, v) :: kvs => ((k, v.redact.1) :: (redactFields kvs).1, v.redact.2 ++ (redactFields kvs).2)
end

/-- `PIIRedactionGate.redact_args`: the redacted arguments and `sorted(set(matched))`. -/
def redactCallArgs (args : List (Tree σ × Tree σ)) : List (Tree σ × Tree σ) × List String :=
  let r := redactFields chars args
  (r.1, r.2.dedup.mergeSort fun a b => a ≤ b)

end

/-! ### What the claim is about -/

section
variable {σ : Type}

mutual
/-- Every text in a value, those of its keys and tuples too. -/
def Tree.strings : Tree σ → List String
  | .str s => [s]
  | .list xs => stringsEach xs
  | .tuple xs => stringsEach xs
  | .dict kvs => stringsFields kvs
  | .scalar _ => []
def stringsEach : List (Tree σ) → List String
  | [] => []
  | x :: xs => x.strings ++ stringsEach xs
def stringsFields : List (Tree σ × Tree σ) → List String
  | [] => []
  | (k, v) :: kvs => k.strings ++ v.strings ++ stringsFields kvs
end

mutual
/-- The texts that the walk does not reach: those of keys and those in tuples. -/
def Tree.unreached : Tree σ → List String
  | .str _ => []
  | .list xs => unreachedEach xs
  | .tuple xs => stringsEach xs
  | .dict kvs => unreachedFields kvs
  | .scalar _ => []
def unreachedEach : List (Tree σ) → List String
  | [] => []
  | x :: xs => x.unreached ++ unreachedEach xs
def unreachedFields : List (Tree σ × Tree σ) → List String
  | [] => []
  | (k, v) :: kvs => k.strings ++ v.unreached ++ unreachedFields kvs
end

/-- No PII pattern has a match in the text. -/
def NoPII (chars : CharTable) (s : String) : Prop := ∀ p ∈ piiPatterns chars, p.2.search s.toList = false

/-- On the ASCII characters `\d` is the digits. -/
def CharTable.AsciiDigits (chars : CharTable) : Prop := ∀ c : Char, c.toNat < 128 → chars.isDecimal c = c.isDigit

end

/-! ### A redacted text -/

section
variable {chars : CharTable}

def patternIds : List String := ["email", "ssn", "phone", "credit_card"]

/-- What is put in for a pattern. -/
def mark (id : String) : List Char := ("[REDACTED:" ++ id ++ "]").toList

/-- The marks are ASCII, and they hold neither an `@` nor a digit. -/
theorem mark_chars {id : String} (hid : id ∈ patternIds) :
    mark id ≠ [] ∧ (mark id).head? = some '[' ∧ (mark id).getLast? = some ']' ∧
      ∀ c ∈ mark id, c ≠ '@' ∧ c.toNat < 128 ∧ c.isDigit = false := by
  refine ⟨?_, ?_, ?_, List.all_iff_forall_prop.mp ?_⟩ <;> (revert id; decide)

/-- A pattern that needs a character no mark has, and matches no bracket, takes nothing of a mark. -/
theorem foreign_mark {p : Expr Char} {P : Char → Prop} {id : String} (hid : id ∈ patternIds)
    (hneeds : p.Needs P) (hnone : ∀ c ∈ mark id, ¬P c) (hover : p.Over fun c => c ≠ '[' ∧ c ≠ ']') :
    Foreign p P (mark id) := by
  obtain ⟨hne, hhead, hlast, -⟩ := mark_chars hid
  refine ⟨hne, hneeds, hnone, ?_⟩
  have hends : (fun c => some c ≠ (mark id).head? ∧ some c ≠ (mark id).getLast?) = fun c => c ≠ '[' ∧ c ≠ ']' := by
    funext c
    rw [hhead, hlast]
    simp
  rwa [hends]

theorem one_consumes {q : Char → Bool} (before : Option Char) (x : List Char) (after : Option Char)
    (h : (Expr.one q).Lang before x after) : x ≠ [] := by
  obtain ⟨c, rfl, -⟩ := h
  exact List.cons_ne_nil c []

theorem emailPattern_solid : emailPattern.Solid :=
  ⟨⟨trivial, fun _ => one_consumes⟩, trivial, ⟨trivial, fun _ => one_consumes⟩, trivial,
    ⟨trivial, fun _ => one_consumes⟩, trivial⟩

theorem email_foreign {id : String} (hid : id ∈ patternIds) :
    Foreign emailPattern (· = '@') (mark id) := by
  refine foreign_mark hid (.inr (.inl fun c hc => ?_)) (fun c hc => ((mark_chars hid).2.2.2 c hc).1) ?_
  · simpa [literal] using hc
  · have hletter : ∀ {q : Char → Bool}, q '[' = false → q ']' = false → ∀ c, q c = true → c ≠ '[' ∧ c ≠ ']' := by
      intro q hopen hclose c hc
      constructor
      · rintro rfl
        exact nomatch hopen.symm.trans hc
      · rintro rfl
        exact nomatch hclose.symm.trans hc
    exact ⟨hletter rfl rfl, hletter rfl rfl, hletter rfl rfl, hletter rfl rfl, hletter rfl rfl, trivial⟩

/-- What the three patterns for numbers have in common. -/
structure Numeric (chars : CharTable) (p : Expr Char) : Prop where
  edges : ∃ rs, p = between chars.isWord rs ∧ (all rs).Plain
  solid : p.Solid
  needs : p.Needs fun c => chars.isDecimal c = true
  avoids : p.Over fun c => c ≠ '[' ∧ c ≠ ']'

theorem CharTable.AsciiDigits.decimal_ne (h : chars.AsciiDigits) {c d : Char} (hd : d.toNat < 128)
    (hdigit : d.isDigit = false) (hc : chars.isDecimal c = true) : c ≠ d := by
  rintro rfl
  exact nomatch (hdigit.symm.trans (h c hd).symm).trans hc

theorem over_digits (h : chars.AsciiDigits) (n : ℕ) : (digits chars n).Over fun c => c ≠ '[' ∧ c ≠ ']' :=
  fun _ hc => ⟨h.decimal_ne (by decide) rfl hc, h.decimal_ne (by decide) rfl hc⟩

theorem over_literal {d : Char} (hopen : d ≠ '[') (hclose : d ≠ ']') : (literal d).Over fun c => c ≠ '[' ∧ c ≠ ']' := by
  intro c hc
  obtain rfl : c = d := by simpa [literal] using hc
  exact ⟨hopen, hclose⟩

theorem over_gap : gap.Over fun c => c ≠ '[' ∧ c ≠ ']' := by
  intro c hc
  rcases (by simpa using hc : c = ' ' ∨ c = '-') with rfl | rfl
  · decide
  · decide

theorem ssnPattern_numeric (h : chars.AsciiDigits) : Numeric chars (ssnPattern chars) where
  edges := ⟨[digits chars 3, literal '-', digits chars 2, literal '-', digits chars 4], rfl, by
    simp [all, Plain, digits, times, literal]⟩
  solid := by simp [ssnPattern, all, Solid, digits, times, literal, wordEdge]
  needs := .inr (.inl ⟨by decide, fun _ hc => hc⟩)
  avoids := ⟨trivial, over_digits h 3, over_literal (by decide) (by decide), over_digits h 2,
    over_literal (by decide) (by decide), over_digits h 4, trivial, trivial⟩

theorem phonePattern_numeric (h : chars.AsciiDigits) : Numeric chars (phonePattern chars) where
  edges := ⟨[.opt (literal '+'), .opt (literal '1'), gap, .opt (literal '('), digits chars 3, .opt (literal ')'), gap,
    digits chars 3, gap, digits chars 4], rfl, by simp [all, Plain, digits, times, literal, gap, opt]⟩
  solid := by simp [phonePattern, all, Solid, digits, times, literal, wordEdge, gap, opt]
  needs := .inr (.inr (.inr (.inr (.inr (.inl ⟨by decide, fun _ hc => hc⟩)))))
  avoids := ⟨trivial, over_literal (by decide) (by decide), over_literal (by decide) (by decide), over_gap,
    over_literal (by decide) (by decide), over_digits h 3, over_literal (by decide) (by decide), over_gap,
    over_digits h 3, over_gap, over_digits h 4, trivial, trivial⟩

theorem creditCardPattern_numeric (h : chars.AsciiDigits) : Numeric chars (creditCardPattern chars) where
  edges := ⟨[.rep (.seq (.one chars.isDecimal) gap) 13 (some 19)], rfl, by simp [all, Plain, gap, opt]⟩
  solid := by simp [creditCardPattern, all, Solid, wordEdge, gap, opt]
  needs := .inr (.inl ⟨by decide, .inl fun _ hc => hc⟩)
  avoids := ⟨trivial, ⟨over_digits h 1, over_gap⟩, trivial, trivial⟩

/-! ### One pattern after the other -/

/-- Putting in the mark of `q` makes no match of `p`. -/
def Guards (p q : String × Expr Char) : Prop := ∃ near, Clear p.2 q.2 (mark q.1) near

theorem email_guards {q : String × Expr Char} (hid : q.1 ∈ patternIds) (hq : q.2.Solid) :
    Guards ("email", emailPattern) q := by
  refine ⟨_, (email_foreign hid).clear_plain ?_ hq⟩
  simp [emailPattern, all, Plain, literal]

theorem Numeric.guards {p q : String × Expr Char} (h : chars.AsciiDigits) (hp : Numeric chars p.2)
    (hq : Numeric chars q.2) (hid : q.1 ∈ patternIds) : Guards p q := by
  have hnone : ∀ c ∈ mark q.1, ¬chars.isDecimal c = true := by
    intro c hc
    obtain ⟨-, hascii, hdigit⟩ := (mark_chars hid).2.2.2 c hc
    rw [h c hascii, hdigit]
    exact Bool.false_ne_true
  have hforeign := foreign_mark hid hp.needs hnone hp.avoids
  obtain ⟨rs, hrs, hplain⟩ := hp.edges
  obtain ⟨ts, hts, -⟩ := hq.edges
  refine ⟨EdgeNear chars.isWord, ?_⟩
  have hsolid := hq.solid
  have hconsumes := hq.needs.consumes
  rw [hrs] at hforeign ⊢
  rw [hts] at hsolid hconsumes ⊢
  exact hforeign.clear_between hplain hsolid hconsumes

/-- The pattern of each entry consumes, and the matcher finds its matches. -/
structure Fair (p : String × Expr Char) : Prop where
  solid : p.2.Solid
  consumes : p.2.Consumes

theorem redactPattern_other {p q : String × Expr Char} {cs : List Char} (h : Guards p q)
    (hno : ¬p.2.Occurs none cs) : ¬p.2.Occurs none (redactPattern cs q) := by
  obtain ⟨near, hclear⟩ := h
  rw [redactPattern]
  split
  · exact hclear.sub hno
  · exact hno

theorem redactPattern_own {q : String × Expr Char} {cs : List Char} (h : Guards q q) (hfair : Fair q) :
    ¬q.2.Occurs none (redactPattern cs q) := by
  obtain ⟨near, hclear⟩ := h
  rw [redactPattern]
  split
  · exact hclear.sub_self
  · rename_i hsearch
    exact fun hocc => hsearch ((search_iff hfair.solid hfair.consumes).mpr hocc)

/-- The patterns that were put through stay away while the others follow. -/
theorem foldl_redactPattern : ∀ {ps done : List (String × Expr Char)} {cs : List Char},
    (∀ p ∈ done, ¬p.2.Occurs none cs) → (∀ p ∈ done, ∀ q ∈ ps, Guards p q) → ps.Pairwise Guards →
      (∀ q ∈ ps, Guards q q ∧ Fair q) → ∀ p ∈ done ++ ps, ¬p.2.Occurs none (ps.foldl redactPattern cs)
  | [], done, cs, hdone, _, _, _ => by
    intro p hp
    exact hdone p (by simpa using hp)
  | q :: ps, done, cs, hdone, hguards, hpairs, hself => by
    obtain ⟨hq, hpairs⟩ := List.pairwise_cons.mp hpairs
    obtain ⟨hown, hself⟩ := List.forall_mem_cons.mp hself
    have hnext : ∀ p ∈ done ++ [q], ¬p.2.Occurs none (redactPattern cs q) := by
      intro p hp
      rcases List.mem_append.mp hp with hp | hp
      · exact redactPattern_other (hguards p hp q List.mem_cons_self) (hdone p hp)
      · obtain rfl := List.mem_singleton.mp hp
        exact redactPattern_own hown.1 hown.2
    have hcross : ∀ p ∈ done ++ [q], ∀ r ∈ ps, Guards p r := by
      intro p hp r hr
      rcases List.mem_append.mp hp with hp | hp
      · exact hguards p hp r (List.mem_cons_of_mem q hr)
      · exact List.mem_singleton.mp hp ▸ hq r hr
    have hrest := foldl_redactPattern hnext hcross hpairs hself
    rwa [List.append_assoc, List.singleton_append] at hrest

theorem piiPatterns_pairwise (h : chars.AsciiDigits) : (piiPatterns chars).Pairwise Guards := by
  have hssn := ssnPattern_numeric h
  have hphone := phonePattern_numeric h
  have hcard := creditCardPattern_numeric h
  have hssnId : "ssn" ∈ patternIds := by decide
  have hphoneId : "phone" ∈ patternIds := by decide
  have hcardId : "credit_card" ∈ patternIds := by decide
  refine .cons ?_ (.cons ?_ (.cons ?_ (.cons ?_ .nil)))
  · intro q hq
    rcases (by simpa using hq : q = _ ∨ q = _ ∨ q = _) with rfl | rfl | rfl
    · exact email_guards hssnId hssn.solid
    · exact email_guards hphoneId hphone.solid
    · exact email_guards hcardId hcard.solid
  · intro q hq
    rcases (by simpa using hq : q = _ ∨ q = _) with rfl | rfl
    · exact hssn.guards h hphone hphoneId
    · exact hssn.guards h hcard hcardId
  · intro q hq
    obtain rfl : q = _ := by simpa using hq
    exact hphone.guards h hcard hcardId
  · intro q hq
    cases hq

theorem piiPatterns_self (h : chars.AsciiDigits) : ∀ q ∈ piiPatterns chars, Guards q q ∧ Fair q := by
  have hemailId : "email" ∈ patternIds := by decide
  have hssnId : "ssn" ∈ patternIds := by decide
  have hphoneId : "phone" ∈ patternIds := by decide
  have hcardId : "credit_card" ∈ patternIds := by decide
  have hnumeric : ∀ {q : String × Expr Char}, Numeric chars q.2 → q.1 ∈ patternIds →
      Guards q q ∧ Fair q := fun hq hid => ⟨hq.guards h hq hid, hq.solid, hq.needs.consumes⟩
  intro q hq
  rcases (by simpa [piiPatterns] using hq : q = _ ∨ q = _ ∨ q = _ ∨ q = _) with rfl | rfl | rfl | rfl
  · exact ⟨email_guards hemailId emailPattern_solid, emailPattern_solid, (email_foreign hemailId).needs.consumes⟩
  · exact hnumeric (ssnPattern_numeric h) hssnId
  · exact hnumeric (phonePattern_numeric h) hphoneId
  · exact hnumeric (creditCardPattern_numeric h) hcardId

/-- No pattern has a match in a text that went through all of them. -/
theorem redactText_noPII (h : chars.AsciiDigits) (s : String) : NoPII chars (redactText chars s) := by
  intro p hp
  have hno := @foldl_redactPattern (piiPatterns chars) [] s.toList (fun _ hp => nomatch hp) (fun _ hp => nomatch hp)
    (piiPatterns_pairwise h) (piiPatterns_self h) p hp
  obtain ⟨-, hfair⟩ := piiPatterns_self h p hp
  rw [redactText, String.toList_ofList]
  exact Bool.eq_false_iff.mpr fun hsearch => hno ((search_iff hfair.solid hfair.consumes).mp hsearch)

/-- A text without matches stays as it is. -/
theorem redactText_of_noPII {s : String} (h : NoPII chars s) : redactText chars s = s := by
  have hfold : ∀ {ps : List (String × Expr Char)}, (∀ p ∈ ps, p.2.search s.toList = false) →
      ps.foldl redactPattern s.toList = s.toList := by
    intro ps
    induction ps with
    | nil => exact fun _ => rfl
    | cons p ps ih =>
      intro hps
      obtain ⟨hp, hps⟩ := List.forall_mem_cons.mp hps
      have hsame : redactPattern s.toList p = s.toList := if_neg (by rw [hp]; decide)
      rw [List.foldl_cons, hsame]
      exact ih hps
  rw [redactText, hfold h, String.ofList_toList]

theorem scanText_fst (s : String) : (scanText chars s).1 = redactText chars s := by
  have hfold : ∀ (ps : List (String × Expr Char)) (r : List Char × List String),
      (ps.foldl scanPattern r).1 = ps.foldl redactPattern r.1 := by
    intro ps
    induction ps with
    | nil => exact fun _ => rfl
    | cons p ps ih =>
      intro r
      have hone : (scanPattern r p).1 = redactPattern r.1 p := by
        rw [scanPattern, redactPattern]
        split
        · rfl
        · rfl
      rw [List.foldl_cons, ih, hone, List.foldl_cons]
  rw [scanText, redactText, hfold]

end

/-! ### A redacted value -/

section
variable {chars : CharTable} {σ : Type}

mutual
/-- What holds of every redacted text holds of the whole value exactly when it holds of what the walk does not reach. -/
theorem strings_redact {P : String → Prop} (hP : ∀ s, P (redactText chars s)) : ∀ v : Tree σ,
    (∀ s ∈ (v.redact chars).1.strings, P s) ↔ ∀ s ∈ v.unreached, P s
  | .str s => by
    rw [Tree.redact, Tree.strings, Tree.unreached, scanText_fst, List.forall_mem_singleton]
    exact iff_of_true (hP s) fun _ hs => nomatch hs
  | .list xs => by
    rw [Tree.redact, Tree.strings, Tree.unreached]
    exact strings_redactEach hP xs
  | .dict kvs => by
    rw [Tree.redact, Tree.strings, Tree.unreached]
    exact strings_redactFields hP kvs
  | .tuple xs => by rw [Tree.redact, Tree.strings, Tree.unreached]
  | .scalar v => by rw [Tree.redact, Tree.strings, Tree.unreached]
theorem strings_redactEach {P : String → Prop} (hP : ∀ s, P (redactText chars s)) : ∀ xs : List (Tree σ),
    (∀ s ∈ stringsEach (redactEach chars xs).1, P s) ↔ ∀ s ∈ unreachedEach xs, P s
  | [] => by rw [redactEach, stringsEach, unreachedEach]
  | x :: xs => by
    rw [redactEach, stringsEach, unreachedEach, List.forall_mem_append, List.forall_mem_append, strings_redact hP x,
      strings_redactEach hP xs]
theorem strings_redactFields {P : String → Prop} (hP : ∀ s, P (redactText chars s)) : ∀ kvs : List (Tree σ × Tree σ),
    (∀ s ∈ stringsFields (redactFields chars kvs).1, P s) ↔ ∀ s ∈ unreachedFields kvs, P s
  | [] => by rw [redactFields, stringsFields, unreachedFields]
  | (k, v) :: kvs => by
    rw [redactFields, stringsFields, unreachedFields, List.forall_mem_append, List.forall_mem_append,
      List.forall_mem_append, List.forall_mem_append, strings_redact hP v, strings_redactFields hP kvs]
end

mutual
/-- A second redaction changes nothing. -/
theorem redact_redact (h : chars.AsciiDigits) : ∀ v : Tree σ, ((v.redact chars).1.redact chars).1 = (v.redact chars).1
  | .str s => by
    rw [Tree.redact, Tree.redact, scanText_fst, scanText_fst, redactText_of_noPII (redactText_noPII h s)]
  | .list xs => by rw [Tree.redact, Tree.redact, redactEach_redactEach h xs]
  | .dict kvs => by rw [Tree.redact, Tree.redact, redactFields_redactFields h kvs]
  | .tuple xs => by rw [Tree.redact, Tree.redact]
  | .scalar v => by rw [Tree.redact, Tree.redact]
theorem redactEach_redactEach (h : chars.AsciiDigits) : ∀ xs : List (Tree σ),
    (redactEach chars (redactEach chars xs).1).1 = (redactEach chars xs).1
  | [] => by rw [redactEach, redactEach]
  | x :: xs => by rw [redactEach, redactEach, redact_redact h x, redactEach_redactEach h xs]
theorem redactFields_redactFields (h : chars.AsciiDigits) : ∀ kvs : List (Tree σ × Tree σ),
    (redactFields chars (redactFields chars kvs).1).1 = (redactFields chars kvs).1
  | [] => by rw [redactFields, redactFields]
  | (k, v) :: kvs => by rw [redactFields, redactFields, redact_redact h v, redactFields_redactFields h kvs]
end

def keyTree : Key → Tree Val
  | .str s => .str s
  | k => .scalar k.val

mutual
/-- The values of JSON are those without tuples. -/
def Tree.ofVal : Val → Tree Val
  | .str s => .str s
  | .list xs => .list (ofEach xs)
  | .dict kvs => .dict (ofFields kvs)
  | v => .scalar v
def ofEach : List Val → List (Tree Val)
  | [] => []
  | x :: xs => .ofVal x :: ofEach xs
def ofFields : List (Key × Val) → List (Tree Val × Tree Val)
  | [] => []
  | (k, v) :: kvs => (keyTree k, .ofVal v) :: ofFields kvs
end

mutual
/-- On them this is the redaction of the audit rows. -/
theorem redact_ofVal : ∀ v : Val, ((Tree.ofVal v).redact chars).1 = .ofVal (redactValue chars v)
  | .str s => by rw [Tree.ofVal, Tree.redact, scanText_fst, redactValue, Tree.ofVal]
  | .list xs => by rw [Tree.ofVal, Tree.redact, redactEach_ofEach xs, redactValue, Tree.ofVal]
  | .dict kvs => by rw [Tree.ofVal, Tree.redact, redactFields_ofFields kvs, redactValue, Tree.ofVal]
  | .none | .bool _ | .int _ | .float _ | .bytes _ | .uuid _ | .datetime _ | .other _ => rfl
theorem redactEach_ofEach : ∀ xs : List Val, (redactEach chars (ofEach xs)).1 = ofEach (redactItems chars xs)
  | [] => rfl
  | x :: xs => by rw [ofEach, redactEach, redact_ofVal x, redactEach_ofEach xs, redactItems, ofEach]
theorem redactFields_ofFields : ∀ kvs : List (Key × Val),
    (redactFields chars (ofFields kvs)).1 = ofFields (redactArgs chars kvs)
  | [] => rfl
  | (k, v) :: kvs => by rw [ofFields, redactFields, redact_ofVal v, redactFields_ofFields kvs, redactArgs, ofFields]
end

/-- The redacted arguments hold no PII, in their keys neither, and redacting them again changes nothing. -/
def Complete (chars : CharTable) (args : List (Tree σ × Tree σ)) : Prop :=
  (∀ s ∈ stringsFields (redactCallArgs chars args).1, NoPII chars s) ∧
    (redactCallArgs chars (redactCallArgs chars args).1).1 = (redactCallArgs chars args).1

/-- The redaction is complete exactly when neither a key nor a text in a tuple holds PII. -/
theorem redaction_complete_iff (h : chars.AsciiDigits) (args : List (Tree σ × Tree σ)) :
    Complete chars args ↔ ∀ s ∈ unreachedFields args, NoPII chars s := by
  have hstrings := strings_redactFields (redactText_noPII h) args
  constructor
  · rintro ⟨hall, -⟩
    exact hstrings.mp hall
  · intro hall
    exact ⟨hstrings.mpr hall, redactFields_redactFields h args⟩

end

theorem ascii_digits : CharTable.ascii.AsciiDigits := fun _ _ => rfl

/-- An address in a list and one in a nested value are both gone. -/
def listArgs : List (Tree Unit × Tree Unit) :=
  [(.str "to", .list [.str "ana@x.io", .dict [(.str "cc", .str "bo@x.io")]])]

theorem listArgs_complete : Complete CharTable.ascii listArgs :=
  (redaction_complete_iff ascii_digits listArgs).mpr (by unfold NoPII; decide +kernel)

/-- An address as a key stays, and so does one in a tuple. -/
def keyArgs : List (Tree Unit × Tree Unit) := [(.str "ana@x.io", .scalar ())]

def tupleArgs : List (Tree Unit × Tree Unit) := [(.str "to", .tuple [.str "ana@x.io"])]

theorem address_stays : ¬Complete CharTable.ascii keyArgs ∧ ¬Complete CharTable.ascii tupleArgs := by
  have hfound : emailPattern.search "ana@x.io".toList = true := by decide +kernel
  have hpattern : ("email", emailPattern) ∈ piiPatterns CharTable.ascii := List.mem_cons_self
  constructor
  · intro h
    exact nomatch (h.1 "ana@x.io" (by decide +kernel) _ hpattern).symm.trans hfound
  · intro h
    exact nomatch (h.1 "ana@x.io" (by decide +kernel) _ hpattern).symm.trans hfound

end Gateway
