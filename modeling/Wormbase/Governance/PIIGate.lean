import Mathlib.Tactic.Common
import Wormbase.Lib.Sweep
import Wormbase.Py.Coerce

/-! `PIIGate.check`: the matches of all patterns in a text are redacted.

    The matches of a pattern are those of the regex engine. The gate sorts them by their starts, the longer first, and
    drops each that starts inside the last one it took, whatever of it lies behind that one's end. So all is redacted
    exactly if some disjoint matches, each the longest at its start, cover the rest. -/

namespace Governance.PIIGate
open Py Sweep

inductive PatternClass where | pii | regulated
  deriving DecidableEq

/-- A pattern of the ontology with its compiled regex. -/
structure Pattern where
  id : String
  classification : PatternClass
  finditer : List Char → List (ℕ × ℕ)
  within : ∀ text, ∀ m ∈ finditer text, m.1 ≤ m.2 ∧ m.2 ≤ text.length

/-- `str.isdigit`, and `int` of one character, which knows fewer digits. -/
structure DigitTable where
  isdigit : Char → Bool
  int : Char → Option ℕ

/-- The ASCII part of the tables. -/
def DigitTable.ascii : DigitTable := ⟨Char.isDigit, fun c => if c.isDigit then some (c.toNat - '0'.toNat) else none⟩

/-- `text[lo:hi]`. -/
def slice (text : List Char) (lo hi : ℕ) : List Char := (text.take hi).drop lo

section
variable (table : DigitTable)

/-- What the digit at place `i` adds. -/
def luhnTerm (parity i d : ℕ) : ℕ :=
  if i % 2 = parity then if 9 < d * 2 then d * 2 - 9 else d * 2 else d

def luhnTotal (parity : ℕ) : ℕ → List Char → Except Err ℕ
  | _, [] => .ok 0
  | i, ch :: digits =>
    match table.int ch with
    | some d => do return luhnTerm parity i d + (← luhnTotal parity (i + 1) digits)
    | none => .error (valueError s!"invalid literal for int() with base 10: '{ch}'")

/-- `_luhn_ok`. -/
def luhnOk (text : List Char) : Except Err Bool :=
  let digits := text.filter table.isdigit
  if digits.length < 13 ∨ 19 < digits.length then .ok false
  else do return (← luhnTotal table ((digits.length - 2) % 2) 0 digits) % 10 = 0

/-- All that the patterns find, pattern by pattern. -/
def found (text : List Char) (patterns : List Pattern) : List (Span Pattern) :=
  patterns.flatMap fun p => (p.finditer text).map fun m => ⟨m.1, m.2, p⟩

/-- Luhn validation for the credit-card pattern. -/
def valid (text : List Char) (m : Span Pattern) : Except Err Bool :=
  if m.tag.id = "credit_card" then luhnOk table (slice text m.lo m.hi) else .ok true

/-- The spans that are valid. -/
def validated (text : List Char) : List (Span Pattern) → Except Err (List (Span Pattern))
  | [] => .ok []
  | m :: spans => do
    if ← valid table text m then return m :: (← validated text spans) else validated text spans

/-- `spans` after the loop over the patterns. -/
def spansOf (text : List Char) (patterns : List Pattern) : Except Err (List (Span Pattern)) :=
  validated table text (found text patterns)

end

/-- A part of the redacted text: copied from the text, or a mark. -/
inductive Chunk where
  | kept (lo hi : ℕ)
  | mark (id : String)

def markOf (id : String) : List Char := ("[REDACTED:" ++ id ++ "]").toList

def Chunk.render (text : List Char) : Chunk → List Char
  | kept lo hi => slice text lo hi
  | mark id => markOf id

/-- The positions that a chunk copies. -/
def Chunk.copied : Chunk → List ℕ
  | kept lo hi => List.range' lo (hi - lo)
  | mark _ => []

/-- What a chunk puts in that is not of the text. -/
def Chunk.added : Chunk → List Char
  | kept _ _ => []
  | mark id => markOf id

/-- The metadata of a match. -/
structure Match where
  patternId : String
  span : ℕ × ℕ
  originalHash : List Char

structure Result where
  chunks : List Chunk
  found : List Match
  escalation : Option PatternClass
  changed : Bool

/-- `result_chunks`, joined. -/
def Result.redactedText (text : List Char) (r : Result) : List Char := r.chunks.flatMap (Chunk.render text)

/-- The args of the recorded gate. -/
structure Fired where
  subjectRef : String
  reason : String
  patternIds : List String
  matchCount : ℕ

def chunksFrom (text : List Char) : ℕ → List (Span Pattern) → List Chunk
  | cursor, [] => [.kept cursor text.length]
  | cursor, m :: accepted => .kept cursor m.lo :: .mark m.tag.id :: chunksFrom text m.hi accepted

def matchOf (py : Interp) (text : List Char) (m : Span Pattern) : Match where
  patternId := m.tag.id
  span := m.ends
  originalHash := hex (py.sha256 (encodeUtf8 (slice text m.lo m.hi)))

/-- Regulated over pii. -/
def raise : Option PatternClass → PatternClass → Option PatternClass
  | _, .regulated => some .regulated
  | none, .pii => some .pii
  | some c, .pii => some c

def escalate (accepted : List (Span Pattern)) : Option PatternClass :=
  accepted.foldl (fun e m => raise e m.tag.classification) none

/-- The greedy pass over the sorted spans. Its `last_end` of -1 lies before every start, as 0 does. -/
def accepted (spans : List (Span Pattern)) : List (Span Pattern) := sweep 0 (spans.mergeSort Span.before)

def firedOf (py : Interp) (context : Dict) (found : List Match) : Fired where
  subjectRef := (context.getD "source" (.str "unknown")).toStr py
  reason := s!"matched {found.length} patterns"
  patternIds := found.map (·.patternId)
  matchCount := found.length

/-- `check`: the result, and the gate that it records. -/
def check (py : Interp) (table : DigitTable) (patterns : List Pattern) (context : Dict) (text : List Char) :
    Except Err (Result × Option Fired) :=
  if text = [] then .ok (⟨[], [], none, false⟩, none)
  else do
    let spans ← spansOf table text patterns
    if spans.isEmpty then return (⟨[.kept 0 text.length], [], none, false⟩, none)
    let taken := accepted spans
    let found := taken.map (matchOf py text)
    return (⟨chunksFrom text 0 taken, found, escalate taken, true⟩, some (firedOf py context found))

/-! ### What a result keeps -/

def Regulated (spans : List (Span Pattern)) : Prop := ∃ m ∈ spans, m.tag.classification = .regulated

/-- The redacted text consists of marks and of the characters outside the spans, in order, and is regulated when one
    of the spans is. -/
structure Redacts (text : List Char) (spans : List (Span Pattern)) (r : Result) : Prop where
  rendered : r.redactedText text = r.chunks.flatMap fun c => c.copied.filterMap (text[·]?) ++ c.added
  copied : r.chunks.flatMap Chunk.copied = (List.range text.length).filter fun x => ¬ Covered spans x
  escalated : Regulated spans → r.escalation = some .regulated

/-- A tile whose first match is regulated, or an empty match that is regulated and lies in no other. -/
def RegulatedTaken (spans : List (Span Pattern)) (tiles : Set (ℕ × ℕ)) : Prop :=
  (∃ a ∈ tiles, ∃ m, spans.find? (·.ends = a) = some m ∧ m.tag.classification = .regulated) ∨
    ∃ m ∈ spans, m.lo = m.hi ∧ ¬ Covered spans m.lo ∧ m.tag.classification = .regulated

/-- Disjoint matches, each the longest at its start, cover all the others, and a regulated match is one of those that
    stay. -/
def Redactable (text : List Char) (spans : List (Span Pattern)) : Prop :=
  ∃ tiles, Tiles spans tiles ∧ (Regulated spans → text ≠ [] ∧ RegulatedTaken spans tiles)

variable {py : Interp} {table : DigitTable} {patterns : List Pattern} {context : Dict} {text : List Char}
  {spans : List (Span Pattern)} {r : Result} {cursor : ℕ}

theorem slice_eq {lo hi : ℕ} (hhi : hi ≤ text.length) :
    slice text lo hi = (List.range' lo (hi - lo)).filterMap (text[·]?) := by
  rw [slice]
  induction hn : hi - lo generalizing lo with
  | zero => rw [List.range'_zero, List.filterMap_nil, List.drop_eq_nil_iff, List.length_take]; omega
  | succ n ih =>
    have hlo : lo < (text.take hi).length := by rw [List.length_take]; omega
    have hget : text[lo]? = some (text.take hi)[lo] := by
      rw [List.getElem_take, List.getElem?_eq_getElem]
    rw [List.drop_eq_getElem_cons hlo, ih (by omega), List.range'_succ, List.filterMap_cons, hget]

/-- A chunk renders the characters at the positions that it copies. -/
theorem render_eq {c : Chunk} (h : ∀ lo hi, c = .kept lo hi → hi ≤ text.length) :
    c.render text = c.copied.filterMap (text[·]?) ++ c.added := by
  cases c with
  | kept lo hi => rw [Chunk.render, slice_eq (h lo hi rfl), Chunk.copied, Chunk.added, List.append_nil]
  | mark id => rfl

theorem validated_mem : ∀ {found spans : List (Span Pattern)}, validated table text found = .ok spans →
    ∀ m ∈ spans, m ∈ found
  | [], spans, h, m, hm => by
    cases h
    exact hm
  | a :: found, spans, h, m, hm => by
    obtain ⟨b, -, h⟩ := bind_eq_ok.mp h
    cases b with
    | false => exact List.mem_cons_of_mem a (validated_mem h m hm)
    | true =>
      obtain ⟨rest, hrest, h⟩ := bind_eq_ok.mp h
      cases h
      rcases List.mem_cons.mp hm with rfl | hm
      · exact List.mem_cons_self
      · exact List.mem_cons_of_mem a (validated_mem hrest m hm)

theorem spansOf_within (h : spansOf table text patterns = .ok spans) : ∀ m ∈ spans, m.lo ≤ m.hi ∧ m.hi ≤ text.length := by
  intro m hm
  obtain ⟨p, -, hfound⟩ := List.mem_flatMap.mp (validated_mem h m hm)
  obtain ⟨e, he, rfl⟩ := List.mem_map.mp hfound
  exact p.within text e he

/-- Nothing in the empty text makes the digits raise. -/
theorem validated_nil : ∀ found : List (Span Pattern), ∃ spans, validated table [] found = .ok spans
  | [] => ⟨[], rfl⟩
  | m :: found => by
    obtain ⟨spans, hspans⟩ := validated_nil found
    have hvalid : ∃ b, valid table [] m = .ok b := by
      rw [valid]
      split
      · exact ⟨false, by simp [slice, luhnOk]⟩
      · exact ⟨true, rfl⟩
    obtain ⟨b, hb⟩ := hvalid
    rw [validated, hb, hspans]
    cases b with
    | false => exact ⟨spans, rfl⟩
    | true => exact ⟨m :: spans, rfl⟩

/-! ### The pass -/

theorem covered_cons {m : Span Pattern} {x : ℕ} : Covered (m :: spans) x ↔ m.Has x ∨ Covered spans x := by
  simp [Covered]

theorem range'_split {a b c : ℕ} (hab : a ≤ b) (hbc : b ≤ c) :
    List.range' a (c - a) = List.range' a (b - a) ++ List.range' b (c - b) := by
  obtain ⟨n, rfl⟩ := Nat.exists_eq_add_of_le hab
  obtain ⟨k, rfl⟩ := Nat.exists_eq_add_of_le hbc
  rw [Nat.add_sub_cancel_left, Nat.add_sub_cancel_left, List.range'_append_1]
  congr 1
  omega

/-- Disjoint spans in order leave what lies between them. -/
theorem copied_chunksFrom : ∀ {cursor : ℕ} {taken : List (Span Pattern)},
    (taken.Pairwise fun a b => a.hi ≤ b.lo) → (∀ m ∈ taken, m.lo ≤ m.hi ∧ m.hi ≤ text.length) →
    (∀ m ∈ taken, cursor ≤ m.lo) → (chunksFrom text cursor taken).flatMap Chunk.copied =
      (List.range' cursor (text.length - cursor)).filter fun x => ¬ Covered taken x
  | cursor, [], _, _, _ => by simp [chunksFrom, Chunk.copied, Covered]
  | cursor, m :: taken, hpair, hwithin, hcursor => by
    obtain ⟨hbehind, hpair⟩ := List.pairwise_cons.mp hpair
    obtain ⟨⟨hproper, hend⟩, hwithin⟩ := List.forall_mem_cons.mp hwithin
    obtain ⟨hfrom, -⟩ := List.forall_mem_cons.mp hcursor
    have hsplit : List.range' cursor (text.length - cursor) =
        List.range' cursor (m.lo - cursor) ++ (List.range' m.lo (m.hi - m.lo) ++
          List.range' m.hi (text.length - m.hi)) := by
      rw [← range'_split hproper hend, ← range'_split hfrom (by omega)]
    have hfront : (List.range' cursor (m.lo - cursor)).filter (fun x => ¬ Covered (m :: taken) x) =
        List.range' cursor (m.lo - cursor) := by
      rw [List.filter_eq_self]
      intro x hx
      rw [List.mem_range'_1] at hx
      refine decide_eq_true ?_
      rintro ⟨b, hb, hlow, -⟩
      rcases List.mem_cons.mp hb with rfl | hb
      · omega
      · have := hbehind b hb
        omega
    have hmid : (List.range' m.lo (m.hi - m.lo)).filter (fun x => ¬ Covered (m :: taken) x) = [] := by
      rw [List.filter_eq_nil_iff]
      intro x hx hfree
      rw [List.mem_range'_1] at hx
      exact of_decide_eq_true hfree ⟨m, List.mem_cons_self, hx.1, by omega⟩
    have hback : (List.range' m.hi (text.length - m.hi)).filter (fun x => ¬ Covered (m :: taken) x) =
        (List.range' m.hi (text.length - m.hi)).filter fun x => ¬ Covered taken x := by
      refine List.filter_congr fun x hx => ?_
      rw [List.mem_range'_1] at hx
      have hnot : ¬ m.Has x := fun h => by have := h.2; omega
      simp only [covered_cons, hnot, false_or]
    rw [hsplit, List.filter_append, List.filter_append, hfront, hmid, hback, List.nil_append, chunksFrom,
      List.flatMap_cons, List.flatMap_cons, copied_chunksFrom hpair hwithin hbehind]
    rfl

theorem raise_regulated {e : Option PatternClass} {c : PatternClass} :
    raise e c = some .regulated ↔ e = some .regulated ∨ c = .regulated := by
  cases e with
  | none => cases c <;> simp [raise]
  | some e => cases c <;> simp [raise]

theorem escalate_regulated : escalate spans = some .regulated ↔ Regulated spans := by
  have hfold : ∀ (spans : List (Span Pattern)) (e : Option PatternClass),
      spans.foldl (fun e m => raise e m.tag.classification) e = some .regulated ↔
        e = some .regulated ∨ Regulated spans := by
    intro spans
    induction spans with
    | nil => simp [Regulated]
    | cons m spans ih =>
      intro e
      rw [List.foldl_cons, ih, raise_regulated, or_assoc]
      simp [Regulated]
  rw [escalate, hfold]
  simp

theorem proper_spansOf (h : spansOf table text patterns = .ok spans) : Proper spans :=
  fun m hm => (spansOf_within h m hm).1

theorem mem_sorted (m : Span Pattern) : m ∈ spans.mergeSort Span.before ↔ m ∈ spans := List.mem_mergeSort

theorem accepted_sub {m : Span Pattern} (hm : m ∈ accepted spans) : m ∈ spans :=
  (mem_sorted m).mp ((sweep_sublist _ _).subset hm)

theorem rendered_chunksFrom : ∀ {cursor : ℕ} {taken : List (Span Pattern)}, (∀ m ∈ taken, m.lo ≤ text.length) →
    (chunksFrom text cursor taken).flatMap (Chunk.render text) =
      (chunksFrom text cursor taken).flatMap fun c => c.copied.filterMap (text[·]?) ++ c.added
  | cursor, [], _ => by
    rw [chunksFrom, List.flatMap_singleton, List.flatMap_singleton]
    refine render_eq fun lo hi heq => ?_
    cases heq
    exact le_rfl
  | cursor, m :: taken, hwithin => by
    obtain ⟨hm, hrest⟩ := List.forall_mem_cons.mp hwithin
    have hkept : (Chunk.kept cursor m.lo).render text = _ := render_eq fun lo hi heq => by
      cases heq
      exact hm
    simp only [chunksFrom, List.flatMap_cons, rendered_chunksFrom hrest, hkept]
    rfl

/-- What `check` makes of a text that is not empty. -/
theorem check_chunks (htext : text ≠ []) (h : spansOf table text patterns = .ok spans) :
    ∃ r fired, check py table patterns context text = .ok (r, fired) ∧ r.chunks = chunksFrom text 0 (accepted spans) ∧
      r.escalation = escalate (accepted spans) := by
  rw [check, if_neg htext, h]
  cases hspans : spans with
  | nil => exact ⟨_, _, rfl, by simp [accepted, sweep, chunksFrom], by simp [accepted, sweep, escalate]⟩
  | cons m rest => exact ⟨_, _, rfl, rfl, rfl⟩

/-- Where the pass leaves all as it should be. -/
theorem redacts_iff {r : Result} (h : spansOf table text patterns = .ok spans)
    (hchunks : r.chunks = chunksFrom text 0 (accepted spans)) (hescalation : r.escalation = escalate (accepted spans)) :
    Redacts text spans r ↔ (∀ x, Covered spans x → Covered (accepted spans) x) ∧
      (Regulated spans → Regulated (accepted spans)) := by
  have hwithin : ∀ m ∈ accepted spans, m.lo ≤ m.hi ∧ m.hi ≤ text.length :=
    fun m hm => spansOf_within h m (accepted_sub hm)
  have hproper : Proper (spans.mergeSort Span.before) := fun m hm => proper_spansOf h m ((mem_sorted m).mp hm)
  have hpair : (accepted spans).Pairwise fun a b => a.hi ≤ b.lo := sweep_disjoint hproper
  have hcopied := copied_chunksFrom hpair hwithin fun m _ => m.lo.zero_le
  rw [Nat.sub_zero, ← List.range_eq_range', ← hchunks] at hcopied
  constructor
  · rintro ⟨-, hkept, hclass⟩
    refine ⟨fun x hx => ?_, fun hreg => ?_⟩
    · by_contra hfree
      obtain ⟨m, hm, hlow, hhigh⟩ := id hx
      have hlen := (spansOf_within h m hm).2
      have hin : x ∈ (List.range text.length).filter fun x => ¬ Covered (accepted spans) x :=
        List.mem_filter.mpr ⟨List.mem_range.mpr (by omega), decide_eq_true hfree⟩
      rw [← hcopied, hkept] at hin
      exact of_decide_eq_true (List.mem_filter.mp hin).2 hx
    · exact escalate_regulated.mp (hescalation ▸ hclass hreg)
  · rintro ⟨hcover, hclass⟩
    refine ⟨?_, ?_, fun hreg => ?_⟩
    · rw [Result.redactedText, hchunks]
      exact rendered_chunksFrom fun m hm => (hwithin m hm).1.trans (hwithin m hm).2
    · rw [hcopied]
      refine List.filter_congr fun x _ => ?_
      have hsame : Covered (accepted spans) x ↔ Covered spans x :=
        ⟨fun ⟨m, hm, hx⟩ => ⟨m, accepted_sub hm, hx⟩, hcover x⟩
      simp only [hsame]
    · rw [hescalation]
      exact escalate_regulated.mpr (hclass hreg)

/-- A regulated match stays. -/
theorem regulated_taken {tiles : Set (ℕ × ℕ)} (hproper : Proper spans) (htiles : Tiles spans tiles) :
    Regulated (accepted spans) ↔ RegulatedTaken spans tiles := by
  have hproper' : Proper (spans.mergeSort Span.before) := fun m hm => hproper m ((mem_sorted m).mp hm)
  have hsorted := sorted_mergeSort spans
  have htiles' := (Tiles.congr mem_sorted).mpr htiles
  have hcovered : ∀ x, Covered spans x ↔ Covered (accepted spans) x := fun x =>
    ⟨fun hx => (covered_iff hproper' hsorted).mpr ⟨tiles, htiles'⟩ x ((Covered.congr mem_sorted x).mpr hx),
      fun ⟨m, hm, hx⟩ => ⟨m, accepted_sub hm, hx⟩⟩
  constructor
  · rintro ⟨m, hm, hreg⟩
    have hspans := accepted_sub hm
    rcases Nat.lt_or_ge m.lo m.hi with hne | hempty
    · refine .inl ⟨m.ends, (htiles'.eq_taken hproper' hsorted _).mpr ⟨m, hm, hne, rfl⟩, m, ?_, hreg⟩
      rw [← find_mergeSort]
      exact find_taken hproper' hsorted hm hne
    · have heq : m.lo = m.hi := le_antisymm (hproper m hspans) hempty
      refine .inr ⟨m, hspans, heq, fun hcover => ?_, hreg⟩
      obtain ⟨b, hb, hhas⟩ := (hcovered m.lo).mp hcover
      exact sweep_empty hproper' hsorted hm heq hb hhas
  · rintro (⟨a, ha, m, hfind, hreg⟩ | ⟨m, hm, heq, hfree, hreg⟩)
    · obtain ⟨t, ht, rfl⟩ := htiles'.taken hproper' hsorted a.1 a rfl ha
      have hfirst := find_taken hproper' hsorted ht (htiles.proper _ ha)
      rw [find_mergeSort, hfind] at hfirst
      exact ⟨t, ht, Option.some.inj hfirst ▸ hreg⟩
    · exact ⟨m, sweep_takes_empty hsorted ((mem_sorted m).mpr hm) fun hcover => hfree ((hcovered _).mpr hcover), hreg⟩

/-- All that the patterns match is redacted, and the rest kept, exactly if the digits of each card number can be read
    and the matches are redactable. -/
theorem redacts_all_iff (py : Interp) (table : DigitTable) (patterns : List Pattern) (context : Dict)
    (text : List Char) :
    (∃ spans r fired, spansOf table text patterns = .ok spans ∧
      check py table patterns context text = .ok (r, fired) ∧ Redacts text spans r) ↔
      ∃ spans, spansOf table text patterns = .ok spans ∧ Redactable text spans := by
  by_cases htext : text = []
  · subst htext
    have hcheck : check py table patterns context [] = .ok (⟨[], [], none, false⟩, none) := rfl
    constructor
    · rintro ⟨spans, r, fired, h, hr, hredacts⟩
      obtain ⟨rfl, -⟩ := Prod.mk.inj (Except.ok.inj (hcheck.symm.trans hr))
      refine ⟨spans, h, ∅, ⟨nofun, nofun, nofun, nofun, fun x ⟨m, hm, hlow, hhigh⟩ => ?_⟩, fun hreg => ?_⟩
      · have hend := (spansOf_within h m hm).2
        simp only [List.length_nil] at hend
        omega
      · exact absurd (hredacts.escalated hreg) nofun
    · rintro ⟨spans, h, tiles, -, hclass⟩
      refine ⟨spans, _, _, h, hcheck, rfl, rfl, fun hreg => absurd rfl (hclass hreg).1⟩
  · constructor
    · rintro ⟨spans, r, fired, h, hr, hredacts⟩
      obtain ⟨r', fired', hr', hchunks, hescalation⟩ := @check_chunks py table patterns context text spans htext h
      obtain ⟨rfl, -⟩ := Prod.mk.inj (Except.ok.inj (hr'.symm.trans hr))
      obtain ⟨hcover, hclass⟩ := (redacts_iff h hchunks hescalation).mp hredacts
      have hproper := proper_spansOf h
      have hall : ∀ x, Covered (spans.mergeSort Span.before) x → Covered (accepted spans) x :=
        fun x hx => hcover x ((Covered.congr mem_sorted x).mp hx)
      obtain ⟨tiles, htiles⟩ := (covered_iff (fun m hm => hproper m ((mem_sorted m).mp hm))
        (sorted_mergeSort spans)).mp hall
      have htiles := (Tiles.congr mem_sorted).mp htiles
      exact ⟨spans, h, tiles, htiles, fun hreg => ⟨htext, (regulated_taken hproper htiles).mp (hclass hreg)⟩⟩
    · rintro ⟨spans, h, tiles, htiles, hclass⟩
      obtain ⟨r, fired, hr, hchunks, hescalation⟩ := @check_chunks py table patterns context text spans htext h
      have hproper := proper_spansOf h
      refine ⟨spans, r, fired, h, hr, (redacts_iff h hchunks hescalation).mpr ⟨fun x hx => ?_, fun hreg => ?_⟩⟩
      · exact (covered_iff (fun m hm => hproper m ((mem_sorted m).mp hm)) (sorted_mergeSort spans)).mpr
          ⟨tiles, (Tiles.congr mem_sorted).mpr htiles⟩ x ((Covered.congr mem_sorted x).mpr hx)
      · exact (regulated_taken hproper htiles).mpr (hclass hreg).2

/-! ### A match that reaches over the end of another -/

def leakText : List Char := "1.2.3.411-11-1111".toList

/-- A pattern that matches in one text only. -/
def Pattern.only (id : String) (classification : PatternClass) (t : List Char) (m : ℕ × ℕ)
    (h : m.1 ≤ m.2 ∧ m.2 ≤ t.length) : Pattern where
  id := id
  classification := classification
  finditer text := if text = t then [m] else []
  within text e he := by
    split at he
    · rename_i htext
      rw [List.mem_singleton] at he
      rw [he, htext]
      exact h
    · exact absurd he List.not_mem_nil

/-- What the two patterns find in the text: a number of the one kind ends inside one of the other. -/
def ssn : Pattern := .only "ssn" .regulated leakText (6, 17) (by decide +kernel)
def ipv4 : Pattern := .only "ipv4" .pii leakText (0, 9) (by decide +kernel)

/-- The end of the security number is copied, and the text counts as pii. -/
theorem number_behind_address_leaks : ¬∀ (py : Interp) (table : DigitTable) (patterns : List Pattern) (context : Dict)
    (text : List Char), ∃ spans r fired, spansOf table text patterns = .ok spans ∧
      check py table patterns context text = .ok (r, fired) ∧ Redacts text spans r := by
  intro hall
  have hspans : spansOf .ascii leakText [ssn, ipv4] = .ok [⟨6, 17, ssn⟩, ⟨0, 9, ipv4⟩] := by
    simp only [spansOf, found, ssn, ipv4, Pattern.only]
    rfl
  have haccepted : accepted [⟨6, 17, ssn⟩, ⟨0, 9, ipv4⟩] = [⟨0, 9, ipv4⟩] := by
    simp [accepted, List.mergeSort, List.MergeSort.Internal.splitInTwo, List.splitAt, List.splitAt.go,
      Span.before, sweep]
  obtain ⟨spans, r, fired, h, hr, hredacts⟩ := hall .plain .ascii [ssn, ipv4] [] leakText
  obtain rfl := Except.ok.inj (h.symm.trans hspans)
  have htext : leakText ≠ [] := by decide +kernel
  obtain ⟨r', fired', hr', hchunks, hescalation⟩ :=
    @check_chunks .plain .ascii [ssn, ipv4] [] leakText _ htext hspans
  obtain ⟨rfl, -⟩ := Prod.mk.inj (Except.ok.inj (hr'.symm.trans hr))
  obtain ⟨hcover, -⟩ := (redacts_iff hspans hchunks hescalation).mp hredacts
  obtain ⟨m, hm, -, hhigh⟩ := hcover 9 ⟨⟨6, 17, ssn⟩, List.mem_cons_self, by decide⟩
  rw [haccepted, List.mem_singleton] at hm
  rw [hm] at hhigh
  exact absurd hhigh (by decide)

end Governance.PIIGate
