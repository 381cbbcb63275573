import Wormbase.Py.Json
import Mathlib.Data.Bool.AllAny
import Mathlib.Data.List.Sort
import Mathlib.Data.List.Find
import Mathlib.Data.String.Basic

/-! `json.dumps(v, sort_keys=True, default=default, …)` up to the tree of its text, where `default`
    prints UUIDs, aware datetimes and bytes. Keys are sorted as the values they are and only then
    turned into text, so the integers 9 and 10 come out in that order. -/

namespace Py
open PyFloat (Plain)

/-! ### Tokens -/

theorem digit_opens {c : Char} (h : c.isDigit = true) : c ≠ '"' ∧ c ≠ '[' ∧ c ≠ '{' := by
  refine ⟨?_, ?_, ?_⟩ <;> rintro rfl <;> exact absurd h (by decide)

/-- A minus sign, or nothing, before a text that starts with a digit. -/
def signedAtom (neg : Bool) (s : List Char) (hp : Plain s)
    (hd : ∃ d rest, s = d :: rest ∧ d.isDigit = true) : Atom where
  text := if neg then '-' :: s else s
  plain := by
    split
    · exact PyFloat.plain_cons.mpr ⟨by decide, hp⟩
    · exact hp
  opens := by
    obtain ⟨d, rest, rfl, hd⟩ := hd
    split
    · exact ⟨'-', _, rfl, by decide⟩
    · exact ⟨d, rest, rfl, digit_opens hd⟩

def word (c : Char) (s : List Char) (hp : Plain (c :: s))
    (ho : c ≠ '"' ∧ c ≠ '[' ∧ c ≠ '{') : Atom := ⟨c :: s, hp, c, s, rfl, ho⟩

def nullAtom : Atom := word 'n' ['u', 'l', 'l'] (List.all_iff_forall_prop.mp (by decide)) (by decide)
def trueAtom : Atom := word 't' ['r', 'u', 'e'] (List.all_iff_forall_prop.mp (by decide)) (by decide)
def falseAtom : Atom := word 'f' ['a', 'l', 's', 'e'] (List.all_iff_forall_prop.mp (by decide)) (by decide)
def boolAtom (b : Bool) : Atom := if b then trueAtom else falseAtom
def nanAtom : Atom := word 'N' ['a', 'N'] (List.all_iff_forall_prop.mp (by decide)) (by decide)
def infAtom (neg : Bool) : Atom :=
  if neg then word '-' "Infinity".toList (List.all_iff_forall_prop.mp (by decide)) (by decide)
  else word 'I' "nfinity".toList (List.all_iff_forall_prop.mp (by decide)) (by decide)

def intAtom (i : ℤ) : Atom :=
  signedAtom (i < 0) (PyFloat.digits i.natAbs) (PyFloat.plain_digits _) <| by
    obtain ⟨d, rest, h⟩ := List.exists_cons_of_ne_nil (PyFloat.digits_ne_nil i.natAbs)
    exact ⟨d, rest, h, PyFloat.digits_isDigit _ d (by rw [h]; exact List.mem_cons_self)⟩

theorem digits_injective {m n : ℕ} (h : PyFloat.digits m = PyFloat.digits n) : m = n := by
  have hm := @Nat.ofDigitChars_toDigits 10 m (by decide) (by decide)
  have hn := @Nat.ofDigitChars_toDigits 10 n (by decide) (by decide)
  rw [← hm, ← hn]
  exact congrArg _ h

theorem intAtom_natCast_inj {m n : ℕ} (h : intAtom m = intAtom n) : m = n := by
  have htext : ∀ n : ℕ, (intAtom n).text = PyFloat.digits n := fun n => by
    simp [intAtom, signedAtom]
  exact digits_injective (by rw [← htext, ← htext, h])

def floatAtom : PyFloat → Atom
  | .nan => nanAtom
  | .inf neg => infAtom neg
  | .finite neg q => signedAtom neg (PyFloat.magText q) (PyFloat.magText_spec q).2
      (PyFloat.magText_spec q).1

/-- `int.__repr__` refuses integers of more than 4300 digits. -/
def checkInt (i : ℤ) : Except Err Unit :=
  if 4300 < (PyFloat.digits i.natAbs).length then
    .error (valueError "Exceeds the limit (4300 digits) for integer string conversion")
  else .ok ()

theorem checkInt_small {n : ℕ} (h : n < 10) : checkInt n = .ok () := by
  rw [checkInt, Int.natAbs_natCast, PyFloat.digits, Nat.toDigits_of_lt_base h]
  rfl

/-- The text of an aware datetime, and the errors `default` meets on the way. -/
def isoText (t : DateTime) : Except Err String :=
  match t.utcoffset with
  | none => .error (valueError "datetimes must be tz-aware to be canonicalized")
  | some o =>
    match t.instant o with
    | none => .error (overflowError "date value out of range")
    | some u => .ok (String.ofList (isoZ u))

/-! ### Keys -/

/-- Keys of one kind can be compared. -/
inductive KeyKind where | text | number | none | other (typeName : String)
  deriving DecidableEq

namespace Key

def kind : Key → KeyKind
  | str _ => .text
  | int _ | float _ | bool _ => .number
  | none => .none
  | other n _ => .other n

def num : Key → Option PyFloat
  | int i => some (.exact i)
  | bool b => some (.exact (if b then 1 else 0))
  | float x => some x
  | _ => Option.none

/-- `k < l` of two keys of one kind. -/
def lt : Key → Key → Bool
  | str s, str t => s.toList < t.toList
  | other _ m, other _ n => m < n
  | k, l =>
    match k.num, l.num with
    | some x, some y => x.lt y
    | _, _ => false

/-- The text that stands for a key. -/
def text : Key → String
  | str s => s
  | int i => String.ofList (intAtom i).text
  | float x => String.ofList (floatAtom x).text
  | bool b => String.ofList (boolAtom b).text
  | none => "null"
  | other n _ => n

/-- Whether JSON takes the key at all. -/
def check : Key → Except Err Unit
  | int i => checkInt i
  | other n _ =>
    .error (typeError s!"keys must be str, int, float, bool or None, not {n}")
  | _ => .ok ()

/-- Python's `sorted` moves `k` past `l` only where `l < k`. -/
def Before (k l : Key) : Prop := l.lt k = false

instance : DecidableRel Before := fun k l => inferInstanceAs (Decidable (l.lt k = false))

end Key

/-- Items in key order. -/
def KeyBefore {α : Type} (p q : Key × α) : Prop := Key.Before p.1 q.1

instance {α : Type} : DecidableRel (KeyBefore (α := α)) :=
  fun p q => inferInstanceAs (Decidable (Key.Before p.1 q.1))

/-- `sorted` compares across every two kinds that are there. -/
def sortable (ks : List Key) : Bool := ks.all fun k => ks.all fun l => k.kind = l.kind

/-- Key texts and values in order; the first error stops. -/
def fields : List (Key × Except Err Json) → Except Err (List (String × Json))
  | [] => .ok []
  | (k, r) :: rest => do
    k.check
    let j ← r
    let fs ← fields rest
    return (k.text, j) :: fs

mutual
/-- The tree of `json.dumps(v, sort_keys=True, default=default)`. -/
def encode : Val → Except Err Json
  | .none => .ok (.atom nullAtom)
  | .bool b => .ok (.atom (boolAtom b))
  | .int i => do checkInt i; return .atom (intAtom i)
  | .float x => .ok (.atom (floatAtom x))
  | .str s => .ok (.str s)
  | .bytes b => .ok (.str (String.ofList (hex b)))
  | .uuid u => .ok (.str u.str)
  | .datetime t => do return .str (← isoText t)
  | .list xs => do return .arr (← encodeList xs)
  | .dict kvs =>
    if sortable (kvs.map Prod.fst) then do
      return .obj (← fields ((encodeItems kvs).insertionSort KeyBefore))
    else .error (typeError "'<' not supported between instances of the keys' types")
  | .other n => .error (typeError s!"Unserializable type: {n}")
def encodeList : List Val → Except Err (List Json)
  | [] => .ok []
  | x :: xs => do
    let j ← encode x
    return j :: (← encodeList xs)
def encodeItems : List (Key × Val) → List (Key × Except Err Json)
  | [] => []
  | (k, v) :: kvs => (k, encode v) :: encodeItems kvs
end

/-! ### Encodings as maps -/

/-- The tree of a value that has one. -/
def treeOf (v : Val) : Json := (encode v).toOption.getD (.arr [])

theorem treeOf_eq {v : Val} {j : Json} (h : encode v = .ok j) : treeOf v = j := by
  rw [treeOf, h]; rfl

theorem encode_treeOf {v : Val} {j : Json} (h : encode v = .ok j) : encode v = .ok (treeOf v) := by
  rw [treeOf_eq h, h]

theorem encode_datetime_iff {t : DateTime} {j : Json} :
    encode (.datetime t) = .ok j ↔ ∃ s, isoText t = .ok s ∧ j = .str s := by
  rw [encode, bind_eq_ok]
  exact exists_congr fun s => and_congr_right fun _ => by simp [pure, Except.pure, eq_comm]

theorem encode_int_iff {i : ℤ} {j : Json} :
    encode (.int i) = .ok j ↔ checkInt i = .ok () ∧ j = .atom (intAtom i) := by
  rw [encode, bind_eq_ok]
  constructor
  · rintro ⟨⟨⟩, h, hj⟩
    exact ⟨h, (Except.ok.inj hj).symm⟩
  · rintro ⟨h, rfl⟩
    exact ⟨(), h, rfl⟩

theorem encodeList_ok : ∀ {xs : List Val} {js : List Json}, encodeList xs = .ok js →
    js = xs.map treeOf ∧ ∀ x ∈ xs, encode x = .ok (treeOf x)
  | [], js, h => by
    simp only [encodeList, Except.ok.injEq] at h
    exact ⟨h.symm, by simp⟩
  | x :: xs, js, h => by
    simp only [encodeList, bind_eq_ok] at h
    obtain ⟨j, hj, js', hjs, h⟩ := h
    obtain ⟨rfl, hall⟩ := encodeList_ok hjs
    refine ⟨?_, List.forall_mem_cons.mpr ⟨encode_treeOf hj, hall⟩⟩
    rw [List.map_cons, treeOf_eq hj]
    exact (Except.ok.inj h).symm

theorem encodeList_map : ∀ {xs : List Val}, (∀ x ∈ xs, encode x = .ok (treeOf x)) →
    encodeList xs = .ok (xs.map treeOf)
  | [], _ => rfl
  | x :: xs, h => by
    obtain ⟨hx, hxs⟩ := List.forall_mem_cons.mp h
    rw [encodeList, hx, encodeList_map hxs]
    rfl

theorem encodeItems_eq : ∀ kvs : Dict, encodeItems kvs = kvs.map fun p => (p.1, encode p.2)
  | [] => rfl
  | (k, v) :: kvs => by rw [encodeItems, encodeItems_eq kvs, List.map_cons]

/-- Sorting the encoded items is encoding the sorted items. -/
theorem encodeItems_sorted (kvs : Dict) :
    (encodeItems kvs).insertionSort KeyBefore =
      (kvs.insertionSort KeyBefore).map fun p => (p.1, encode p.2) := by
  rw [encodeItems_eq]
  exact (List.map_insertionSort KeyBefore KeyBefore (fun p => (p.1, encode p.2)) kvs
    fun _ _ _ _ => Iff.rfl).symm

def fieldOf (p : Key × Val) : String × Json := (p.1.text, treeOf p.2)

theorem fields_ok : ∀ {kvs : Dict} {fs : List (String × Json)},
    fields (kvs.map fun p => (p.1, encode p.2)) = .ok fs →
      fs = kvs.map fieldOf ∧ ∀ p ∈ kvs, p.1.check = .ok () ∧ encode p.2 = .ok (treeOf p.2)
  | [], fs, h => by
    simp only [List.map_nil, fields, Except.ok.injEq] at h
    exact ⟨h.symm, by simp⟩
  | (k, v) :: kvs, fs, h => by
    simp only [List.map_cons, fields, bind_eq_ok] at h
    obtain ⟨⟨⟩, hk, j, hj, fs', hfs, h⟩ := h
    obtain ⟨rfl, hall⟩ := fields_ok hfs
    refine ⟨?_, List.forall_mem_cons.mpr ⟨⟨hk, encode_treeOf hj⟩, hall⟩⟩
    rw [List.map_cons, fieldOf, treeOf_eq hj]
    exact (Except.ok.inj h).symm

theorem fields_map : ∀ {kvs : Dict},
    (∀ p ∈ kvs, p.1.check = .ok () ∧ encode p.2 = .ok (treeOf p.2)) →
      fields (kvs.map fun p => (p.1, encode p.2)) = .ok (kvs.map fieldOf)
  | [], _ => rfl
  | (k, v) :: kvs, h => by
    obtain ⟨⟨hk, hv⟩, hkvs⟩ := List.forall_mem_cons.mp h
    rw [List.map_cons, fields, hk, hv, fields_map hkvs]
    rfl

/-- A dict has a text exactly when its keys can be sorted and every item has one. -/
theorem encode_dict_iff {kvs : Dict} {j : Json} : encode (.dict kvs) = .ok j ↔
    sortable (kvs.map Prod.fst) = true ∧
    (∀ p ∈ kvs, p.1.check = .ok () ∧ encode p.2 = .ok (treeOf p.2)) ∧
    j = .obj ((kvs.insertionSort KeyBefore).map fieldOf) := by
  rw [encode, encodeItems_sorted]
  constructor
  · intro h
    split at h
    · rename_i hs
      obtain ⟨fs, hfs, h⟩ := bind_eq_ok.mp h
      obtain ⟨rfl, hall⟩ := fields_ok hfs
      refine ⟨hs, fun p hp => hall p ((List.mem_insertionSort _).mpr hp), ?_⟩
      exact (Except.ok.inj h).symm
    · cases h
  · rintro ⟨hs, hall, rfl⟩
    rw [if_pos hs, fields_map fun p hp => hall p ((List.mem_insertionSort _).mp hp)]
    rfl

/-! ### Fields of a text -/

/-- Sorting keeps the first of the items that satisfy `p`, if none of them has to pass another. -/
theorem find?_insertionSort {α : Type} {r : α → α → Prop} [DecidableRel r] {p : α → Bool}
    (hp : ∀ a b, p a = true → p b = true → r a b) :
    ∀ l : List α, (l.insertionSort r).find? p = l.find? p
  | [] => rfl
  | a :: l => by
    have hinsert : ∀ l : List α, (l.orderedInsert r a).find? p = (a :: l).find? p := by
      intro l
      induction l with
      | nil => rfl
      | cons b l ih =>
        rw [List.orderedInsert_cons]
        split
        · rfl
        · rename_i hab
          rw [List.find?_cons, ih]
          by_cases ha : p a = true
          · have hb : p b = false := by simpa using fun hb => hab (hp a b ha hb)
            simp [ha, hb]
          · rw [List.find?_cons_of_neg ha, List.find?_cons_of_neg ha, List.find?_cons]
    rw [List.insertionSort_cons, hinsert, List.find?_cons, find?_insertionSort hp l,
      ← List.find?_cons]

def StrKeys (d : Dict) : Prop := ∀ p ∈ d, ∃ s, p.1 = .str s

/-- One text key among sortable keys makes all of them text. -/
theorem strKeys_of_mem {d : Dict} (h : sortable (d.map Prod.fst) = true) {s : String} {v : Val}
    (hs : (.str s, v) ∈ d) : StrKeys d := by
  rintro ⟨k, w⟩ hp
  simp only [sortable, List.all_eq_true, List.mem_map, decide_eq_true_eq] at h
  have hkind := h _ ⟨_, hp, rfl⟩ _ ⟨_, hs, rfl⟩
  cases k with
  | str t => exact ⟨t, rfl⟩
  | _ => cases hkind

/-- The field of a text under a name is the item of the dict under that key. -/
theorem find?_fields {d : Dict} (h : StrKeys d) (name : String) :
    ((d.insertionSort KeyBefore).map fieldOf).find? (·.1 = name) =
      (d.get? name).map fun v => (name, treeOf v) := by
  rw [List.find?_map]
  have hname : ∀ l : Dict, StrKeys l → l.find? ((fun f => decide (f.1 = name)) ∘ fieldOf) =
      l.find? fun p => p.1 = .str name := by
    intro l hl
    refine List.find?_congr fun p hp => ?_
    obtain ⟨s, hs⟩ := hl p hp
    simp [fieldOf, hs, Key.text]
  rw [hname _ fun p hp => h p ((List.mem_insertionSort _).mp hp), find?_insertionSort]
  · rw [Dict.get?, Option.map_map]
    cases hfind : d.find? fun p => p.1 = .str name with
    | none => rfl
    | some p =>
      have hp := List.find?_some hfind
      simp only [decide_eq_true_eq] at hp
      simp [fieldOf, hp, Key.text]
  · rintro ⟨k, v⟩ ⟨l, w⟩ hk hl
    simp only [decide_eq_true_eq] at hk hl
    subst hk hl
    simp [KeyBefore, Key.Before, Key.lt]

/-- Dicts of text keys with the same text have the same field trees. -/
theorem encode_get? {d d' : Dict} {j : Json} (h : encode (.dict d) = .ok j)
    (h' : encode (.dict d') = .ok j) (hd : StrKeys d) (hd' : StrKeys d') (name : String) :
    (d.get? name).map treeOf = (d'.get? name).map treeOf := by
  obtain ⟨-, -, rfl⟩ := encode_dict_iff.mp h
  obtain ⟨-, -, hj⟩ := encode_dict_iff.mp h'
  have hfind := find?_fields hd name
  rw [Json.obj.inj hj, find?_fields hd' name] at hfind
  have := congrArg (Option.map Prod.snd) hfind
  simpa [Function.comp_def] using this.symm

section
variable {P : Val → Prop}
  (atom : ∀ v, (∀ xs, v ≠ .list xs) → (∀ kvs, v ≠ .dict kvs) → P v)
  (list : ∀ xs, (∀ x ∈ xs, P x) → P (.list xs))
  (dict : ∀ kvs : Dict, (∀ p ∈ kvs, P p.2) → P (.dict kvs))
include atom list dict

set_option linter.unusedSectionVars false in
mutual
/-- Induction over a value: the items of a list and of a dict are smaller. -/
theorem Val.induction : ∀ v, P v
  | .list xs => list xs (Val.inductionList xs)
  | .dict kvs => dict kvs (Val.inductionItems kvs)
  | .none | .bool _ | .int _ | .float _ | .str _ | .bytes _ | .uuid _ | .datetime _ | .other _ =>
    atom _ nofun nofun
theorem Val.inductionList : ∀ xs : List Val, ∀ x ∈ xs, P x
  | [] => by simp
  | x :: xs => List.forall_mem_cons.mpr ⟨Val.induction x, Val.inductionList xs⟩
theorem Val.inductionItems : ∀ kvs : List (Key × Val), ∀ p ∈ kvs, P p.2
  | [] => by simp
  | (_, v) :: kvs => List.forall_mem_cons.mpr ⟨Val.induction v, Val.inductionItems kvs⟩
end

end

end Py
