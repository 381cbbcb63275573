import Wormbase.Py.Coerce
import Wormbase.Py.Column

/-! Values that a JSON column can give back. Those that count as true have a text. -/

namespace Py

/-- A value that the column gives back for another. -/
def Stored (w : Val) : Prop := ∃ v, jsonColumn v = .ok w

theorem stored_none : Stored .none := ⟨.none, rfl⟩

theorem Stored.get {d : Dict} (h : Stored (.dict d)) (name : String) : Stored (Dict.get d name) := by
  obtain ⟨v, hv⟩ := h
  cases v with
  | dict kvs =>
    obtain ⟨ps, hps, hv⟩ := bind_eq_ok.mp hv
    obtain ⟨rfl, hall⟩ := columnItems_ok hps
    obtain ⟨D, hD, -, hmem, -⟩ := ofPairs_spec (kvs.map backField)
    obtain rfl : D.map strItem = d := hD ▸ Val.dict.inj (Except.ok.inj hv)
    cases hfind : (D.map strItem).find? fun p => p.1 = .str name with
    | none =>
      simp only [Dict.get, Dict.get?, hfind]
      exact stored_none
    | some p =>
      obtain ⟨q, hq, rfl⟩ := List.mem_map.mp (List.mem_of_find?_eq_some hfind)
      obtain ⟨kv, hkv, rfl⟩ := List.mem_map.mp (hmem q hq)
      simp only [Dict.get, Dict.get?, hfind]
      exact ⟨kv.2, hall kv hkv⟩
  | int i =>
    obtain ⟨-, -, hv⟩ := bind_eq_ok.mp hv
    cases hv
  | list xs =>
    obtain ⟨ws, -, hv⟩ := bind_eq_ok.mp hv
    cases hv
  | _ => cases hv

theorem Stored.or {v w : Val} (hv : Stored v) (hw : Stored w) : Stored (v.or w) := by
  rw [Val.or]
  split
  · exact hv
  · exact hw

theorem stored_dict_nil : Stored (.dict []) := ⟨.dict [], rfl⟩

/-- What comes out of a column is of a type that JSON has a form for. -/
theorem Stored.cases {w : Val} (h : Stored w) : w = .none ∨ (∃ b, w = .bool b) ∨ (∃ i, w = .int i) ∨
    (∃ x, w = .float x) ∨ (∃ s, w = .str s) ∨ (∃ xs, w = .list xs) ∨ ∃ d, w = .dict d := by
  obtain ⟨v, hv⟩ := h
  cases v with
  | none =>
    cases hv
    simp
  | bool b =>
    cases hv
    simp
  | int i =>
    obtain ⟨-, -, hv⟩ := bind_eq_ok.mp hv
    cases hv
    simp
  | float x =>
    cases hv
    simp
  | str s =>
    cases hv
    simp
  | list xs =>
    obtain ⟨ws, -, hv⟩ := bind_eq_ok.mp hv
    cases hv
    simp
  | dict kvs =>
    obtain ⟨ps, -, hv⟩ := bind_eq_ok.mp hv
    cases hv
    simp
  | _ => cases hv

/-! ### Texts -/

theorem intText_ne_nil (i : ℤ) : intText i ≠ [] := by
  rw [intText]
  split
  · exact List.cons_ne_nil _ _
  · exact Nat.toDigits_ne_nil

theorem layout_ne_nil {ds : List Char} (hds : ds ≠ []) (pt : ℤ) : PyFloat.layout ds pt ≠ [] := by
  unfold PyFloat.layout
  split
  · split
    · exact List.cons_ne_nil _ _
    · split <;> simp
  · match ds with
    | [] => exact absurd rfl hds
    | [d] => exact List.cons_ne_nil _ _
    | d :: c :: rest => exact List.cons_ne_nil _ _

theorem repr_float_ne_nil (x : PyFloat) : x.repr ≠ [] := by
  cases x with
  | finite neg q =>
    have hmag : PyFloat.magText q ≠ [] := by
      rw [PyFloat.magText]
      split
      · exact List.cons_ne_nil _ _
      · exact layout_ne_nil Nat.toDigits_ne_nil _
    simp [PyFloat.repr, hmag]
  | inf neg => simp [PyFloat.repr]
  | nan => simp [PyFloat.repr]

theorem ofList_ne {cs : List Char} (h : cs ≠ []) : String.ofList cs ≠ "" := by
  intro heq
  exact h (by simpa using congrArg String.toList heq)

/-- A stored value that counts as true has a text. -/
theorem Stored.toStr_ne {py : Interp} {v : Val} (h : Stored v) (hv : v.truthy) : v.toStr py ≠ "" := by
  rcases h.cases with rfl | ⟨b, rfl⟩ | ⟨i, rfl⟩ | ⟨x, rfl⟩ | ⟨s, rfl⟩ | ⟨xs, rfl⟩ | ⟨d, rfl⟩
  · cases hv
  · have htext : (Val.bool b).toStr py = if b then "True" else "False" := by
      cases b <;> rfl
    rw [htext]
    cases b <;> decide
  · have htext : (Val.int i).toStr py = String.ofList (intText i) := rfl
    exact htext ▸ ofList_ne (intText_ne_nil i)
  · have htext : (Val.float x).toStr py = String.ofList x.repr := rfl
    exact htext ▸ ofList_ne (repr_float_ne_nil x)
  · simpa [Val.truthy] using hv
  · have htext : (Val.list xs).toStr py = String.ofList ('[' :: (reprItems py xs ++ [']'])) := rfl
    exact htext ▸ ofList_ne (List.cons_ne_nil _ _)
  · have htext : (Val.dict d).toStr py = String.ofList ('\x7b' :: (reprFields py d ++ ['\x7d'])) := rfl
    exact htext ▸ ofList_ne (List.cons_ne_nil _ _)

end Py
