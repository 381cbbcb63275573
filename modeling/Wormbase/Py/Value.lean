import Wormbase.Py.Float
import Wormbase.Py.DateTime
import Mathlib.Data.Nat.Digits.Defs

/-! Python values as far as a JSON encoder tells them apart, and what they raise.

    A dict is the list of its items in insertion order, so its keys are distinct in every value that
    Python can build; the functions below never rely on it. -/

namespace Py

/-- An exception: its class and its message. -/
structure Err where
  cls : String
  msg : String
  deriving DecidableEq

def typeError (msg : String) : Err := ⟨"TypeError", msg⟩
def valueError (msg : String) : Err := ⟨"ValueError", msg⟩
def overflowError (msg : String) : Err := ⟨"OverflowError", msg⟩
def attributeError (msg : String) : Err := ⟨"AttributeError", msg⟩

theorem bind_eq_ok {ε α β : Type} {x : Except ε α} {f : α → Except ε β} {b : β} :
    x >>= f = .ok b ↔ ∃ a, x = .ok a ∧ f a = .ok b := by
  cases x with
  | error e => simp [bind, Except.bind]
  | ok a => simp [bind, Except.bind]

theorem map_eq_ok {ε α β : Type} {x : Except ε α} {f : α → β} {b : β} :
    f <$> x = .ok b ↔ ∃ a, x = .ok a ∧ f a = b := by
  cases x with
  | error e => simp [Functor.map, Except.map]
  | ok a => simp [Functor.map, Except.map]

theorem mapM_ok {α β : Type} {f : α → Except Err β} : ∀ {xs : List α} {ys : List β},
    xs.mapM f = .ok ys → List.Forall₂ (fun x y => f x = .ok y) xs ys
  | [], ys, h => by
    rw [List.mapM_nil] at h
    obtain rfl := Except.ok.inj h
    exact .nil
  | x :: xs, ys, h => by
    rw [List.mapM_cons] at h
    obtain ⟨y, hy, h⟩ := bind_eq_ok.mp h
    obtain ⟨zs, hzs, h⟩ := bind_eq_ok.mp h
    obtain rfl := Except.ok.inj h
    exact .cons hy (mapM_ok hzs)

theorem mapM_mem {α β : Type} {f : α → Except Err β} {xs : List α} {ys : List β} {x : α}
    (h : xs.mapM f = .ok ys) (hx : x ∈ xs) : ∃ y ∈ ys, f x = .ok y := by
  have hall := mapM_ok h
  clear h
  induction hall with
  | nil => exact nomatch hx
  | cons hfirst _ ih =>
    rcases List.mem_cons.mp hx with rfl | hx
    · exact ⟨_, List.mem_cons_self, hfirst⟩
    · obtain ⟨y, hy, h⟩ := ih hx
      exact ⟨y, List.mem_cons_of_mem _ hy, h⟩

theorem mapM_mem_out {α β : Type} {f : α → Except Err β} {xs : List α} {ys : List β} {y : β}
    (h : xs.mapM f = .ok ys) (hy : y ∈ ys) : ∃ x ∈ xs, f x = .ok y := by
  have hall := mapM_ok h
  clear h
  induction hall with
  | nil => exact nomatch hy
  | cons hfirst _ ih =>
    rcases List.mem_cons.mp hy with rfl | hy
    · exact ⟨_, List.mem_cons_self, hfirst⟩
    · obtain ⟨x, hx, h⟩ := ih hy
      exact ⟨x, List.mem_cons_of_mem _ hx, h⟩

theorem mapM_length {α β : Type} {f : α → Except Err β} {xs : List α} {ys : List β}
    (h : xs.mapM f = .ok ys) : ys.length = xs.length := (mapM_ok h).length_eq.symm

theorem mapM_of_forall {α β : Type} {f : α → Except Err β} {g : α → β} : ∀ {xs : List α},
    (∀ x ∈ xs, f x = .ok (g x)) → xs.mapM f = .ok (xs.map g)
  | [], _ => rfl
  | x :: xs, h => by
    obtain ⟨hx, hxs⟩ := List.forall_mem_cons.mp h
    rw [List.mapM_cons, hx, mapM_of_forall hxs]
    rfl

/-! ### Bytes and UUIDs -/

abbrev Bytes := List UInt8

def hexByte (b : UInt8) : List Char := [Nat.digitChar (b.toNat / 16), Nat.digitChar (b.toNat % 16)]

/-- `bytes.hex()`. -/
def hex (b : Bytes) : List Char := b.flatMap hexByte

theorem digitChar_inj16 {m n : ℕ} (hm : m < 16) (hn : n < 16)
    (h : Nat.digitChar m = Nat.digitChar n) : m = n := by
  have all : ∀ a b : Fin 16, Nat.digitChar a = Nat.digitChar b → a = b := by decide
  exact Fin.mk.inj (all ⟨m, hm⟩ ⟨n, hn⟩ h)

theorem hexByte_inj {a b : UInt8} (h : hexByte a = hexByte b) : a = b := by
  simp only [hexByte, List.cons.injEq, and_true] at h
  have ha := a.toNat_lt
  have hb := b.toNat_lt
  have h1 := digitChar_inj16 (by omega) (by omega) h.1
  have h2 := digitChar_inj16 (by omega) (by omega) h.2
  exact UInt8.toNat_inj.mp (by omega)

theorem hex_injective : ∀ {a b : Bytes}, hex a = hex b → a = b
  | [], [], _ => rfl
  | [], _ :: _, h => by cases h
  | _ :: _, [], h => by cases h
  | x :: a, y :: b, h => by
    obtain ⟨h1, h2⟩ := List.append_inj (show hexByte x ++ hex a = hexByte y ++ hex b from h) rfl
    rw [hexByte_inj h1, hex_injective h2]

/-- `s.encode("utf-8")`. -/
def encodeUtf8 (s : List Char) : Bytes := (String.ofList s).toByteArray.data.toList

theorem encodeUtf8_injective {s t : List Char} (h : encodeUtf8 s = encodeUtf8 t) : s = t :=
  String.ofList_injective
    (String.toByteArray_inj.mp (ByteArray.ext (Array.toList_inj.mp h)))

instance four_neZero : NeZero 4 := ⟨by decide⟩

instance uuids_neZero : NeZero (2 ^ 128) := ⟨by decide⟩

instance texts_lawful : LawfulBEq (String × String) := inferInstance

instance counted_lawful : LawfulBEq (String × ℤ) := inferInstance

structure UUID where
  val : Fin (2 ^ 128)
  deriving DecidableEq

/-- `str(uuid)`: 8-4-4-4-12 lower-case hex digits. -/
def UUID.text (u : UUID) : List Char :=
  let ds := Nat.toDigits 16 u.val
  let ds := List.replicate (32 - ds.length) '0' ++ ds
  ds.take 8 ++ '-' :: (ds.drop 8).take 4 ++ '-' :: (ds.drop 12).take 4 ++
    '-' :: (ds.drop 16).take 4 ++ '-' :: ds.drop 20

def UUID.str (u : UUID) : String := String.ofList u.text

/-! ### Values -/

/-- A dict key. `other` is a hashable value of a type that JSON has no key for. -/
inductive Key where
  | str (s : String)
  | int (i : ℤ)
  | float (x : PyFloat)
  | bool (b : Bool)
  | none
  | other (typeName : String) (tag : ℕ)
  deriving DecidableEq

/-- A value. `other` is an object of a type that no encoder here knows. -/
inductive Val where
  | none
  | bool (b : Bool)
  | int (i : ℤ)
  | float (x : PyFloat)
  | str (s : String)
  | bytes (b : Bytes)
  | uuid (u : UUID)
  | datetime (t : DateTime)
  | list (xs : List Val)
  | dict (items : List (Key × Val))
  | other (typeName : String)

abbrev Dict := List (Key × Val)

namespace Val

/-- `type(v).__name__`. -/
def typeName : Val → String
  | none => "NoneType"
  | bool _ => "bool"
  | int _ => "int"
  | float _ => "float"
  | str _ => "str"
  | bytes _ => "bytes"
  | uuid _ => "UUID"
  | datetime _ => "datetime"
  | list _ => "list"
  | dict _ => "dict"
  | other n => n

/-- `bool(v)`. -/
def truthy : Val → Bool
  | none => false
  | bool b => b
  | int i => i ≠ 0
  | float x => x.truthy
  | str s => s ≠ ""
  | bytes b => b ≠ []
  | list xs => xs.length ≠ 0
  | dict kvs => kvs.length ≠ 0
  | uuid _ | datetime _ | other _ => true

/-- `a or b`. -/
def or (a b : Val) : Val := if a.truthy then a else b

end Val

namespace Dict

/-- The value at a text key. -/
def get? (d : Dict) (name : String) : Option Val :=
  (d.find? fun p => p.1 = .str name).map Prod.snd

/-- `d.get(name)`. -/
def get (d : Dict) (name : String) : Val := (get? d name).getD .none

/-- `d[name] = v`: the first place of a key is kept. -/
def set (d : Dict) (name : String) (v : Val) : Dict :=
  match d with
  | [] => [(.str name, v)]
  | (k, w) :: rest => if k = .str name then (k, v) :: rest else (k, w) :: set rest name v

/-- `{**base, **m}` where the keys of `base` are strings: only string keys of `m` can meet them. -/
def update (base : Dict) : Dict → Dict
  | [] => base
  | (.str name, v) :: m => update (base.set name v) m
  | (k, v) :: m => update (base ++ [(k, v)]) m

@[simp] theorem get?_set (name : String) (v : Val) : ∀ d : Dict, get? (set d name v) name = some v
  | [] => by simp [set, get?]
  | (k, w) :: d => by
    by_cases hk : k = .str name
    · simp [set, get?, hk]
    · have ih := get?_set name v d
      rw [get?] at ih
      simp [set, get?, hk, ih]

end Dict

end Py
