import Wormbase.Py.Column

/-! Values with one canonical text, and what a reader gets of the JSON text of a value. -/

namespace Py

/-- Both values have the same canonical tree, or neither has one. -/
def SameText (v w : Val) : Prop := (encode v).toOption = (encode w).toOption

namespace SameText
variable {v w : Val}

theorem treeOf_eq (h : SameText v w) : treeOf v = treeOf w := by rw [treeOf, treeOf, h]

theorem encode_iff (h : SameText v w) {j : Json} : encode v = .ok j ↔ encode w = .ok j := by
  have hsome : ∀ u : Val, encode u = .ok j ↔ (encode u).toOption = some j := by
    intro u
    cases encode u <;> simp [Except.toOption]
  rw [hsome, hsome, h]

end SameText

theorem sameText_of {v w : Val} (h : ∀ j, encode v = .ok j ↔ encode w = .ok j) : SameText v w := by
  rw [SameText]
  cases hv : encode v with
  | ok j => rw [(h j).mp hv]
  | error x =>
    cases hw : encode w with
    | ok j => exact absurd ((h j).mpr hw) (by simp [hv])
    | error y => rfl

theorem encode_list_iff {xs : List Val} {j : Json} : encode (.list xs) = .ok j ↔
    (∀ x ∈ xs, encode x = .ok (treeOf x)) ∧ j = .arr (xs.map treeOf) := by
  rw [encode, bind_eq_ok]
  constructor
  · rintro ⟨js, hjs, hj⟩
    obtain ⟨rfl, hall⟩ := encodeList_ok hjs
    exact ⟨hall, (Except.ok.inj hj).symm⟩
  · rintro ⟨hall, rfl⟩
    exact ⟨_, encodeList_map hall, rfl⟩

/-- Lists of values with the same texts have the same trees, and one has all of them when the other has. -/
theorem sameText_items {xs ys : List Val} (h : List.Forall₂ SameText xs ys) : xs.map treeOf = ys.map treeOf ∧
    ((∀ x ∈ xs, encode x = .ok (treeOf x)) ↔ ∀ y ∈ ys, encode y = .ok (treeOf y)) := by
  induction h with
  | nil => simp
  | cons h _ ih =>
    rw [List.map_cons, List.map_cons, ih.1, h.treeOf_eq, List.forall_mem_cons, List.forall_mem_cons, ih.2, h.treeOf_eq,
      h.encode_iff]
    exact ⟨rfl, Iff.rfl⟩

theorem sameText_list {xs ys : List Val} (h : List.Forall₂ SameText xs ys) : SameText (.list xs) (.list ys) := by
  obtain ⟨htrees, hall⟩ := sameText_items h
  refine sameText_of fun j => ?_
  rw [encode_list_iff, encode_list_iff, htrees, hall]

theorem encode_strItems_iff {D : List (String × Val)} {j : Json} : encode (.dict (D.map strItem)) = .ok j ↔
    (∀ x ∈ D.map Prod.snd, encode x = .ok (treeOf x)) ∧ j = .obj ((D.insertionSort TextBefore).map textField) := by
  rw [List.forall_mem_map]
  constructor
  · intro h
    have hall : ∀ p ∈ D, encode p.2 = .ok (treeOf p.2) := by
      intro p hp
      exact ((encode_dict_iff.mp h).2.1 (strItem p) (List.mem_map_of_mem hp)).2
    refine ⟨hall, ?_⟩
    rw [encode_strItems hall] at h
    exact (Except.ok.inj h).symm
  · rintro ⟨hall, rfl⟩
    exact encode_strItems hall

/-- Dicts with the same texts under the same names have one text, in whatever order their items stand. -/
theorem sameText_dict {D E F : List (String × Val)} (hkeys : (D.map Prod.fst).Nodup)
    (hnames : D.map Prod.fst = E.map Prod.fst) (h : List.Forall₂ SameText (D.map Prod.snd) (E.map Prod.snd))
    (hperm : E.Perm F) : SameText (.dict (D.map strItem)) (.dict (F.map strItem)) := by
  obtain ⟨htrees, hall⟩ := sameText_items h
  have hmem : (∀ x ∈ E.map Prod.snd, encode x = .ok (treeOf x)) ↔ ∀ x ∈ F.map Prod.snd, encode x = .ok (treeOf x) :=
    forall_congr' fun x => by rw [(hperm.map Prod.snd).mem_iff]
  have hkeysF : (F.map Prod.fst).Nodup := (hperm.map Prod.fst).nodup_iff.mp (hnames ▸ hkeys)
  have hfields : D.map textField = E.map textField := by
    have hzip : ∀ D : List (String × Val), D.map textField = (D.map Prod.fst).zip ((D.map Prod.snd).map treeOf) := by
      intro D
      rw [List.map_map, List.zip_map']
      rfl
    rw [hzip, hzip, hnames, htrees]
  have hsorted : (D.insertionSort TextBefore).map textField = (F.insertionSort TextBefore).map textField := by
    refine (increasing_strItems hkeys).eq (increasing_strItems hkeysF) ?_
    calc ((D.insertionSort TextBefore).map textField).Perm (D.map textField) := (List.perm_insertionSort ..).map _
      _ = E.map textField := hfields
      List.Perm _ (F.map textField) := hperm.map _
      List.Perm _ ((F.insertionSort TextBefore).map textField) := ((List.perm_insertionSort ..).map _).symm
  refine sameText_of fun j => ?_
  rw [encode_strItems_iff, encode_strItems_iff, hall, hmem, hsorted]

/-- `w` is what a reader gets of a JSON text of `v`: ids, times and bytes come back as texts, and the items of
    a dict may stand in another order. -/
inductive JsonOf : Val → Val → Prop
  | none : JsonOf .none .none
  | bool (b : Bool) : JsonOf (.bool b) (.bool b)
  | int (i : ℤ) : JsonOf (.int i) (.int i)
  | float (x : PyFloat) : JsonOf (.float x) (.float x)
  | str (s : String) : JsonOf (.str s) (.str s)
  | bytes (b : Bytes) : JsonOf (.bytes b) (.str (String.ofList (hex b)))
  | uuid (u : UUID) : JsonOf (.uuid u) (.str u.str)
  | datetime {t : DateTime} {s : String} (h : isoText t = .ok s) : JsonOf (.datetime t) (.str s)
  | list {xs ys : List Val} (h : List.Forall₂ JsonOf xs ys) : JsonOf (.list xs) (.list ys)
  | dict {D E F : List (String × Val)} (hkeys : (D.map Prod.fst).Nodup) (hnames : D.map Prod.fst = E.map Prod.fst)
    (h : List.Forall₂ JsonOf (D.map Prod.snd) (E.map Prod.snd)) (hperm : E.Perm F) :
    JsonOf (.dict (D.map strItem)) (.dict (F.map strItem))

theorem forall₂_sameText {xs ys : List Val} (ih : ∀ x ∈ xs, ∀ w, JsonOf x w → SameText x w)
    (h : List.Forall₂ JsonOf xs ys) : List.Forall₂ SameText xs ys := by
  induction h with
  | nil => exact .nil
  | cons h _ ihrest =>
    obtain ⟨hx, hxs⟩ := List.forall_mem_cons.mp ih
    exact .cons (hx _ h) (ihrest hxs)

/-- What a reader gets of the text of a value has the canonical text of the value. -/
theorem JsonOf.sameText (v : Val) : ∀ w, JsonOf v w → SameText v w := by
  induction v using Val.induction with
  | atom v hlist hdict =>
    intro w h
    cases h with
    | datetime h => exact sameText_of fun j => by rw [encode_datetime_iff, encode]; simp [h, eq_comm]
    | list h => exact absurd rfl (hlist _)
    | dict => exact absurd rfl (hdict _)
    | _ => rfl
  | list xs ih =>
    intro w h
    cases h with
    | list h => exact sameText_list (forall₂_sameText ih h)
  | dict kvs ih =>
    intro w h
    generalize hv : Val.dict kvs = v at h
    cases h with
    | dict hkeys hnames h hperm =>
      rename_i D E F
      obtain rfl := Val.dict.inj hv
      refine sameText_dict hkeys hnames (forall₂_sameText ?_ h) hperm
      rw [List.forall_mem_map]
      exact fun p hp => ih (strItem p) (List.mem_map_of_mem hp)
    | _ => cases hv

/-! ### Values that are compared by evaluation -/

mutual
/-- Whether two values are one: none, a truth value, an integer, a text, or a list or dict of such. -/
def Val.identical : Val → Val → Bool
  | .none, .none => true
  | .bool a, .bool b => a = b
  | .int i, .int j => i = j
  | .str s, .str t => s = t
  | .list xs, .list ys => identicalItems xs ys
  | .dict kvs, .dict kws => identicalFields kvs kws
  | _, _ => false
def identicalItems : List Val → List Val → Bool
  | [], [] => true
  | x :: xs, y :: ys => x.identical y && identicalItems xs ys
  | _, _ => false
def identicalFields : List (Key × Val) → List (Key × Val) → Bool
  | [], [] => true
  | (k, v) :: kvs, (l, w) :: kws => decide (k = l) && v.identical w && identicalFields kvs kws
  | _, _ => false
end

mutual
theorem Val.eq_of_identical : ∀ {v w : Val}, v.identical w = true → v = w
  | .none, w, h => by cases w <;> simp_all [Val.identical]
  | .bool _, w, h => by cases w <;> simp_all [Val.identical]
  | .int _, w, h => by cases w <;> simp_all [Val.identical]
  | .str _, w, h => by cases w <;> simp_all [Val.identical]
  | .list xs, w, h => by
    cases w with
    | list ys => exact congrArg _ (eq_of_identicalItems h)
    | _ => cases h
  | .dict kvs, w, h => by
    cases w with
    | dict kws => exact congrArg _ (eq_of_identicalFields h)
    | _ => cases h
  | .float _, _, h | .bytes _, _, h | .uuid _, _, h | .datetime _, _, h | .other _, _, h => nomatch h
theorem eq_of_identicalItems : ∀ {xs ys : List Val}, identicalItems xs ys = true → xs = ys
  | [], [], _ => rfl
  | [], _ :: _, h => nomatch h
  | _ :: _, [], h => nomatch h
  | x :: xs, y :: ys, h => by
    rw [identicalItems, Bool.and_eq_true] at h
    rw [x.eq_of_identical h.1, eq_of_identicalItems h.2]
theorem eq_of_identicalFields : ∀ {kvs kws : Dict}, identicalFields kvs kws = true → kvs = kws
  | [], [], _ => rfl
  | [], _ :: _, h => nomatch h
  | _ :: _, [], h => nomatch h
  | (k, v) :: kvs, (l, w) :: kws, h => by
    rw [identicalFields, Bool.and_eq_true, Bool.and_eq_true, decide_eq_true_eq] at h
    obtain ⟨⟨rfl, hv⟩, hrest⟩ := h
    rw [v.eq_of_identical hv, eq_of_identicalFields hrest]
end

/-- A result that is known by evaluation. -/
theorem ok_of_identical {r : Except Err Val} {w : Val} (h : (r.toOption.any fun v => v.identical w) = true) : r = .ok w := by
  cases r with
  | error x => cases h
  | ok v => exact congrArg _ (v.eq_of_identical h)

end Py
