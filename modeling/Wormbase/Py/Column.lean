import Wormbase.Py.Encode

/-! What a JSON column gives back: `json.loads(json.dumps(v))`, without a `default`.

    Keys come back as text, and floats and integers as the values they were printed from. The sorted
    text of what comes back is that of the value itself exactly when every dict in it has keys whose
    texts are in the order of the keys (`encode_jsonColumn`). -/

namespace Py

/-- `dict(pairs)`: a repeated key keeps its first place and its last value. -/
def ofPairs (ps : List (String × Val)) : Dict := ps.foldl (fun d p => Dict.set d p.1 p.2) []

mutual
/-- `json.loads(json.dumps(v))`. -/
def jsonColumn : Val → Except Err Val
  | .none => .ok .none
  | .bool b => .ok (.bool b)
  | .int i => do checkInt i; return .int i
  | .float x => .ok (.float x)
  | .str s => .ok (.str s)
  | .list xs => do return .list (← columnList xs)
  | .dict kvs => do return .dict (ofPairs (← columnItems kvs))
  | v => .error (typeError s!"Object of type {v.typeName} is not JSON serializable")
def columnList : List Val → Except Err (List Val)
  | [] => .ok []
  | x :: xs => do
    let w ← jsonColumn x
    return w :: (← columnList xs)
def columnItems : List (Key × Val) → Except Err (List (String × Val))
  | [] => .ok []
  | (k, v) :: kvs => do
    k.check
    let w ← jsonColumn v
    return (k.text, w) :: (← columnItems kvs)
end

mutual
/-- In every dict at any depth the keys, in Python's order, have strictly increasing texts. -/
def KeysStable : Val → Prop
  | .list xs => StableList xs
  | .dict kvs =>
    (((kvs.map Prod.fst).insertionSort Key.Before).map (Key.text · |>.toList)).Pairwise (· < ·) ∧
      StableItems kvs
  | _ => True
def StableList : List Val → Prop
  | [] => True
  | x :: xs => KeysStable x ∧ StableList xs
def StableItems : List (Key × Val) → Prop
  | [] => True
  | (_, v) :: kvs => KeysStable v ∧ StableItems kvs
end

theorem stableList_iff {xs : List Val} : StableList xs ↔ ∀ x ∈ xs, KeysStable x := by
  induction xs with
  | nil => simp [StableList]
  | cons x xs ih => rw [StableList, ih, List.forall_mem_cons]

theorem stableItems_iff : ∀ {kvs : Dict}, StableItems kvs ↔ ∀ p ∈ kvs, KeysStable p.2
  | [] => by simp [StableItems]
  | (k, v) :: kvs => by rw [StableItems, stableItems_iff, List.forall_mem_cons]

/-! ### Columns as maps -/

/-- What the column gives back for a value it takes. -/
def backOf (v : Val) : Val := (jsonColumn v).toOption.getD .none

theorem backOf_eq {v w : Val} (h : jsonColumn v = .ok w) : backOf v = w := by
  rw [backOf, h]; rfl

theorem jsonColumn_backOf {v w : Val} (h : jsonColumn v = .ok w) :
    jsonColumn v = .ok (backOf v) := by rw [backOf_eq h, h]

theorem columnList_ok : ∀ {xs ws : List Val}, columnList xs = .ok ws →
    ws = xs.map backOf ∧ ∀ x ∈ xs, jsonColumn x = .ok (backOf x)
  | [], ws, h => by
    simp only [columnList, Except.ok.injEq] at h
    exact ⟨h.symm, by simp⟩
  | x :: xs, ws, h => by
    simp only [columnList, bind_eq_ok] at h
    obtain ⟨w, hw, ws', hws, h⟩ := h
    obtain ⟨rfl, hall⟩ := columnList_ok hws
    refine ⟨?_, List.forall_mem_cons.mpr ⟨jsonColumn_backOf hw, hall⟩⟩
    rw [List.map_cons, backOf_eq hw]
    exact (Except.ok.inj h).symm

def backField (p : Key × Val) : String × Val := (p.1.text, backOf p.2)

theorem columnItems_ok : ∀ {kvs : Dict} {ps : List (String × Val)}, columnItems kvs = .ok ps →
    ps = kvs.map backField ∧ ∀ p ∈ kvs, jsonColumn p.2 = .ok (backOf p.2)
  | [], ps, h => by
    simp only [columnItems, Except.ok.injEq] at h
    exact ⟨h.symm, by simp⟩
  | (k, v) :: kvs, ps, h => by
    simp only [columnItems, bind_eq_ok] at h
    obtain ⟨⟨⟩, -, w, hw, ps', hps, h⟩ := h
    obtain ⟨rfl, hall⟩ := columnItems_ok hps
    refine ⟨?_, List.forall_mem_cons.mpr ⟨jsonColumn_backOf hw, hall⟩⟩
    rw [List.map_cons, backField, backOf_eq hw]
    exact (Except.ok.inj h).symm

/-! ### Dicts with text keys -/

def strItem (p : String × Val) : Key × Val := (.str p.1, p.2)

theorem set_strItems (name : String) (v : Val) : ∀ D : List (String × Val),
    ∃ D', Dict.set (D.map strItem) name v = D'.map strItem ∧ (∀ p ∈ D', p ∈ D ∨ p = (name, v)) ∧
      (name ∈ D.map Prod.fst → D'.map Prod.fst = D.map Prod.fst) ∧
      (name ∉ D.map Prod.fst → D' = D ++ [(name, v)])
  | [] => ⟨[(name, v)], rfl, by simp, by simp, by simp⟩
  | (k, w) :: D => by
    by_cases hk : k = name
    · subst hk
      exact ⟨(k, v) :: D, by simp [Dict.set, strItem], by simp +contextual [or_imp], by simp, by simp⟩
    · obtain ⟨D', hD', hmem, hin, hout⟩ := set_strItems name v D
      refine ⟨(k, w) :: D', ?_, ?_, ?_, ?_⟩
      · simp only [List.map_cons, strItem, Dict.set, Key.str.injEq, if_neg hk]
        rw [hD']
      · intro p hp
        rcases List.mem_cons.mp hp with rfl | hp
        · exact .inl List.mem_cons_self
        · exact (hmem p hp).imp_left (List.mem_cons_of_mem _)
      · intro h
        have h : name ∈ D.map Prod.fst := by simpa [Ne.symm hk] using h
        rw [List.map_cons, List.map_cons, hin h]
      · intro h
        have h : name ∉ D.map Prod.fst := by simpa [Ne.symm hk] using h
        rw [hout h, List.cons_append]

/-- A fold of assignments keeps the keys apart, and keeps the pairs when their keys are apart. -/
theorem foldl_set_strItems : ∀ (ps D : List (String × Val)), (D.map Prod.fst).Nodup →
    ∃ D', ps.foldl (fun d p => Dict.set d p.1 p.2) (D.map strItem) = D'.map strItem ∧
      (D'.map Prod.fst).Nodup ∧ (∀ p ∈ D', p ∈ D ∨ p ∈ ps) ∧
      (((D ++ ps).map Prod.fst).Nodup → D' = D ++ ps)
  | [], D, hD => ⟨D, rfl, hD, fun _ => .inl, by simp⟩
  | (name, v) :: ps, D, hD => by
    obtain ⟨E, hE, hmem, hin, hout⟩ := set_strItems name v D
    have hEnodup : (E.map Prod.fst).Nodup := by
      by_cases h : name ∈ D.map Prod.fst
      · rw [hin h]; exact hD
      · rw [hout h, List.map_append, List.nodup_append]
        refine ⟨hD, by simp, ?_⟩
        rintro a ha b hb rfl
        simp only [List.map_cons, List.map_nil, List.mem_singleton] at hb
        exact h (hb ▸ ha)
    obtain ⟨D', hD', hnodup, hmem', heq⟩ := foldl_set_strItems ps E hEnodup
    refine ⟨D', by rw [List.foldl_cons, hE, hD'], hnodup, ?_, ?_⟩
    · intro p hp
      rcases hmem' p hp with h | h
      · rcases hmem p h with h | rfl
        · exact .inl h
        · exact .inr List.mem_cons_self
      · exact .inr (List.mem_cons_of_mem _ h)
    · intro hall
      have hname : name ∉ D.map Prod.fst := by
        rw [List.map_append, List.nodup_append] at hall
        exact fun h => hall.2.2 name h name (by simp) rfl
      rw [hout hname] at heq
      simpa using heq (by simpa using hall)

theorem ofPairs_spec (ps : List (String × Val)) : ∃ D, ofPairs ps = D.map strItem ∧
    (D.map Prod.fst).Nodup ∧ (∀ p ∈ D, p ∈ ps) ∧ ((ps.map Prod.fst).Nodup → D = ps) := by
  obtain ⟨D, hD, hnodup, hmem, heq⟩ := foldl_set_strItems ps [] List.nodup_nil
  exact ⟨D, hD, hnodup, fun p hp => by simpa using hmem p hp, heq⟩

theorem get?_strItems {D : List (String × Val)} (hnodup : (D.map Prod.fst).Nodup) {name : String} {v : Val}
    (h : (name, v) ∈ D) : Dict.get? (D.map strItem) name = some v := by
  induction D with
  | nil => exact absurd h List.not_mem_nil
  | cons p D ih =>
    obtain ⟨hp, hnodup⟩ := List.nodup_cons.mp hnodup
    rcases List.mem_cons.mp h with rfl | h
    · simp [Dict.get?, strItem]
    · have hne : p.1 ≠ name := fun heq => hp (heq ▸ List.mem_map_of_mem h)
      have := ih hnodup h
      rw [Dict.get?] at this ⊢
      rw [List.map_cons, List.find?_cons_of_neg (by simpa [strItem] using hne)]
      exact this

theorem get_strItems {D : List (String × Val)} (hnodup : (D.map Prod.fst).Nodup) {name : String} {v : Val}
    (h : (name, v) ∈ D) : Dict.get (D.map strItem) name = v := by
  rw [Dict.get, get?_strItems hnodup h]
  rfl

/-- `{**base, **m}` of dicts with texts for keys, none of them twice. -/
theorem update_strItems : ∀ {D B : List (String × Val)}, ((B ++ D).map Prod.fst).Nodup →
    Dict.update (B.map strItem) (D.map strItem) = (B ++ D).map strItem
  | [], B, _ => by simp [Dict.update]
  | (name, v) :: D, B, h => by
    obtain ⟨B', hB', -, -, hout⟩ := set_strItems name v B
    have hname : name ∉ B.map Prod.fst := by
      rw [List.map_append, List.nodup_append] at h
      exact fun hmem => h.2.2 name hmem name (by simp) rfl
    have hrest : ((B ++ [(name, v)]) ++ D).map Prod.fst = (B ++ (name, v) :: D).map Prod.fst := by simp
    have ih := update_strItems (hrest ▸ h)
    rw [List.map_cons, strItem, Dict.update, hB', hout hname, ih]
    simp

/-- The column gives back what it takes. -/
def ComesBack (v : Val) : Prop := ∀ w, jsonColumn v = .ok w → w = v

theorem comesBack_str (s : String) : ComesBack (.str s) := fun _ h => (Except.ok.inj h).symm
theorem comesBack_none : ComesBack .none := fun _ h => (Except.ok.inj h).symm

theorem comesBack_int (i : ℤ) : ComesBack (.int i) := by
  intro w h
  obtain ⟨-, -, h⟩ := bind_eq_ok.mp h
  exact (Except.ok.inj h).symm

/-- A dict with texts for keys comes back when its values do. -/
theorem comesBack_dict {D : List (String × Val)} (hkeys : (D.map Prod.fst).Nodup)
    (hvals : ∀ p ∈ D, ComesBack p.2) : ComesBack (.dict (D.map strItem)) := by
  intro w h
  rw [jsonColumn] at h
  obtain ⟨ps, hps, h⟩ := bind_eq_ok.mp h
  obtain ⟨rfl, hback⟩ := columnItems_ok hps
  have hsame : (D.map strItem).map backField = D := by
    rw [List.map_map]
    refine (List.map_congr_left fun p hp => ?_).trans (List.map_id D)
    have hval := hvals p hp _ (hback (strItem p) (List.mem_map_of_mem hp))
    exact Prod.ext rfl hval
  rw [hsame] at h
  obtain ⟨D', hD', -, -, hkeep⟩ := ofPairs_spec D
  rw [hD', hkeep hkeys] at h
  exact (Except.ok.inj h).symm

/-- What the column gives back of a dict with texts for keys. -/
def backDict (D : List (String × Val)) : Dict := D.map fun p => (.str p.1, backOf p.2)

theorem jsonColumn_dict {D : List (String × Val)} (hkeys : (D.map Prod.fst).Nodup) {w : Val}
    (h : jsonColumn (.dict (D.map strItem)) = .ok w) : w = .dict (backDict D) := by
  rw [jsonColumn] at h
  obtain ⟨ps, hps, h⟩ := bind_eq_ok.mp h
  obtain ⟨rfl, -⟩ := columnItems_ok hps
  have hfields : (D.map strItem).map backField = D.map fun p => (p.1, backOf p.2) := by
    rw [List.map_map]
    rfl
  obtain ⟨D', hD', -, -, hkeep⟩ := ofPairs_spec ((D.map strItem).map backField)
  rw [hkeep (by rw [hfields, List.map_map]; exact hkeys), hfields] at hD'
  rw [hfields, hD'] at h
  rw [← Except.ok.inj h, backDict, List.map_map]
  rfl

@[simp] theorem backOf_none : backOf .none = .none := rfl
@[simp] theorem backOf_str (s : String) : backOf (.str s) = .str s := rfl

theorem backOf_strs (ss : List String) : backOf (.list (ss.map .str)) = .list (ss.map .str) := by
  have hlist : columnList (ss.map .str) = .ok (ss.map .str) := by
    induction ss with
    | nil => rfl
    | cons s ss ih => simp [columnList, jsonColumn, ih, bind, Except.bind, pure, Except.pure]
  rw [backOf, jsonColumn, hlist]
  rfl

theorem get_backDict (name : String) : ∀ D : List (String × Val),
    (backDict D).get name = backOf (Dict.get (D.map strItem) name)
  | [] => rfl
  | (k, v) :: D => by
    have ih := get_backDict name D
    simp only [Dict.get, Dict.get?, backDict, List.map_cons, strItem, List.find?_cons] at ih ⊢
    by_cases hk : k = name
    · simp [hk]
    · simpa [hk] using ih

/-- Pairs in the order of their texts. -/
def TextBefore (p q : String × Val) : Prop := p.1.toList ≤ q.1.toList

instance : DecidableRel TextBefore :=
  fun p q => inferInstanceAs (Decidable (p.1.toList ≤ q.1.toList))
instance : Std.Total TextBefore := ⟨fun p q => le_total p.1.toList q.1.toList⟩
instance : IsTrans _ TextBefore := ⟨fun _ _ _ => le_trans⟩

def textField (p : String × Val) : String × Json := (p.1, treeOf p.2)

def Increasing (fs : List (String × Json)) : Prop := fs.Pairwise fun f g => f.1.toList < g.1.toList

theorem encode_strItems {D : List (String × Val)} (h : ∀ p ∈ D, encode p.2 = .ok (treeOf p.2)) :
    encode (.dict (D.map strItem)) = .ok (.obj ((D.insertionSort TextBefore).map textField)) := by
  refine encode_dict_iff.mpr ⟨?_, ?_, ?_⟩
  · simp [sortable, strItem, Key.kind]
  · rw [List.forall_mem_map]
    exact fun p hp => ⟨rfl, h p hp⟩
  · have hsort : (D.map strItem).insertionSort KeyBefore =
        (D.insertionSort TextBefore).map strItem := by
      refine (List.map_insertionSort TextBefore KeyBefore strItem D fun p _ q _ => ?_).symm
      simp [TextBefore, KeyBefore, Key.Before, strItem, Key.lt, not_lt]
    rw [hsort, List.map_map]
    rfl

theorem increasing_strItems {D : List (String × Val)} (h : (D.map Prod.fst).Nodup) :
    Increasing ((D.insertionSort TextBefore).map textField) := by
  have hsorted := List.pairwise_insertionSort TextBefore D
  have hnodup : (D.insertionSort TextBefore).Pairwise fun p q => p.1 ≠ q.1 :=
    List.pairwise_map.mp (((List.perm_insertionSort TextBefore D).map _).nodup_iff.mpr h)
  refine List.pairwise_map.mpr ((hsorted.and hnodup).imp ?_)
  exact fun h => lt_of_le_of_ne h.1 fun heq => h.2 (String.toList_injective heq)

theorem Increasing.eq {fs gs : List (String × Json)} (hf : Increasing fs) (hg : Increasing gs)
    (h : fs.Perm gs) : fs = gs :=
  h.eq_of_pairwise (fun _ _ _ _ h h' => absurd (h.trans h') (lt_irrefl _)) hf hg

theorem Increasing.nodup {fs : List (String × Json)} (h : Increasing fs) :
    (fs.map Prod.fst).Nodup :=
  List.pairwise_map.mpr (h.imp fun h heq => ne_of_lt h (congrArg _ heq))

theorem Increasing.tree_eq {fs : List (String × Json)} (h : Increasing fs) {k : String} {j j' : Json}
    (hj : (k, j) ∈ fs) (hj' : (k, j') ∈ fs) : j = j' :=
  congrArg Prod.snd (List.inj_on_of_nodup_map h.nodup hj hj' rfl)

/-! ### The two texts -/

/-- The texts of the keys in key order, read off the sorted items. -/
theorem map_text_sorted (kvs : Dict) :
    ((kvs.map Prod.fst).insertionSort Key.Before).map (Key.text · |>.toList) =
      ((kvs.insertionSort KeyBefore).map fieldOf).map (Prod.fst · |>.toList) := by
  rw [← List.map_insertionSort KeyBefore Key.Before Prod.fst kvs fun _ _ _ _ => Iff.rfl]
  simp [fieldOf, Function.comp_def]

/-- Increasing key texts are all different. -/
theorem nodup_texts {kvs : Dict} (h : Increasing ((kvs.insertionSort KeyBefore).map fieldOf)) :
    ((kvs.map backField).map Prod.fst).Nodup := by
  have hperm := ((List.perm_insertionSort KeyBefore kvs).map fieldOf).map Prod.fst
  have heq : (kvs.map backField).map Prod.fst = (kvs.map fieldOf).map Prod.fst := by
    simp [backField, fieldOf]
  rw [heq]
  exact hperm.nodup_iff.mp h.nodup

/-- The text of what the column gives back is that of the value exactly when its keys are stable. -/
theorem encode_jsonColumn (v : Val) : ∀ {j w : _}, encode v = .ok j → jsonColumn v = .ok w →
    encode w = .ok (treeOf w) ∧ (treeOf w = j ↔ KeysStable v) := by
  induction v using Val.induction with
  | atom v hlist hdict =>
    intro j w hj hw
    cases v with
    | list xs => exact absurd rfl (hlist xs)
    | dict kvs => exact absurd rfl (hdict kvs)
    | none | bool | float | str =>
      cases hw
      exact ⟨encode_treeOf hj, by simp [treeOf_eq hj, KeysStable]⟩
    | int i =>
      obtain ⟨_, -, hw⟩ := bind_eq_ok.mp hw
      cases hw
      exact ⟨encode_treeOf hj, by simp [treeOf_eq hj, KeysStable]⟩
    | _ => cases hw
  | list xs ih =>
    intro j w hj hw
    obtain ⟨js, hjs, hj⟩ := bind_eq_ok.mp hj
    obtain ⟨ws, hws, hw⟩ := bind_eq_ok.mp hw
    cases hj; cases hw
    obtain ⟨rfl, hxs⟩ := encodeList_ok hjs
    obtain ⟨rfl, hback⟩ := columnList_ok hws
    have hitem := fun x hx => ih x hx (hxs x hx) (hback x hx)
    have henc : encode (.list (xs.map backOf)) = .ok (.arr ((xs.map backOf).map treeOf)) := by
      rw [encode, encodeList_map]
      · rfl
      · simpa using fun x hx => (hitem x hx).1
    refine ⟨encode_treeOf henc, ?_⟩
    rw [treeOf_eq henc, KeysStable, stableList_iff, Json.arr.injEq, List.map_map, List.map_inj_left]
    exact forall₂_congr fun x hx => (hitem x hx).2
  | dict kvs ih =>
    intro j w hj hw
    obtain ⟨-, hkvs, rfl⟩ := encode_dict_iff.mp hj
    obtain ⟨ps, hps, hw⟩ := bind_eq_ok.mp hw
    cases hw
    obtain ⟨rfl, hback⟩ := columnItems_ok hps
    have hitem := fun p hp => ih p hp (hkvs p hp).2 (hback p hp)
    obtain ⟨D, hD, hnodup, hmem, hdistinct⟩ := ofPairs_spec (kvs.map backField)
    have hvals : ∀ p ∈ D, encode p.2 = .ok (treeOf p.2) := by
      intro p hp
      obtain ⟨q, hq, rfl⟩ := List.mem_map.mp (hmem p hp)
      exact (hitem q hq).1
    have henc := encode_strItems hvals
    rw [← hD] at henc
    have hinc := increasing_strItems hnodup
    refine ⟨encode_treeOf henc, ?_⟩
    rw [treeOf_eq henc, KeysStable, stableItems_iff, Json.obj.injEq, map_text_sorted,
      List.pairwise_map]
    constructor
    · intro heq
      have hkeys : Increasing ((kvs.insertionSort KeyBefore).map fieldOf) := heq ▸ hinc
      refine ⟨hkeys, fun p hp => (hitem p hp).2.mp ?_⟩
      obtain rfl := hdistinct (nodup_texts hkeys)
      refine hinc.tree_eq (k := p.1.text) ?_ ?_
      · exact List.mem_map.mpr ⟨backField p,
          (List.mem_insertionSort _).mpr (List.mem_map_of_mem hp), rfl⟩
      · rw [heq]
        exact List.mem_map.mpr ⟨p, (List.mem_insertionSort _).mpr hp, rfl⟩
    · rintro ⟨hkeys, hstable⟩
      obtain rfl := hdistinct (nodup_texts hkeys)
      refine hinc.eq hkeys ?_
      have hfield : (kvs.map backField).map textField = kvs.map fieldOf := by
        rw [List.map_map, List.map_inj_left]
        intro p hp
        simp only [Function.comp, textField, backField, fieldOf, (hitem p hp).2.mpr (hstable p hp)]
      have hperm := (List.perm_insertionSort TextBefore (kvs.map backField)).map textField
      rw [hfield] at hperm
      exact hperm.trans ((List.perm_insertionSort KeyBefore kvs).map fieldOf).symm

end Py
