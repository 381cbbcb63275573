import Mathlib.Data.List.Nodup
import Mathlib.Data.List.Sort

/-! Tables: rows in the order they came, one under each key, and what a database checks of them.

    A table is a dict in insertion order whose keys can be read off its rows. Putting a row keeps the
    place of the row it replaces. -/

/-- Rows with pairwise distinct keys. -/
structure Table {ρ κ : Type} (key : ρ → κ) where
  rows : List ρ
  nodup : (rows.map key).Nodup

/-- A dict whose keys stand beside its rows. -/
abbrev Dictionary (κ ρ : Type) := Table (Prod.fst : κ × ρ → κ)

namespace Table
variable {ρ κ : Type} {key : ρ → κ}

def empty : Table key := ⟨[], List.nodup_nil⟩

@[simp] theorem empty_rows : (empty : Table key).rows = [] := rfl

theorem eq_of_key {t : Table key} {r r' : ρ} (h : r ∈ t.rows) (h' : r' ∈ t.rows)
    (hkey : key r = key r') : r = r' := List.inj_on_of_nodup_map t.nodup h h' hkey

/-- The same change to every row, the keys kept. -/
def mapRows (f : ρ → ρ) (hf : ∀ r, key (f r) = key r) (t : Table key) : Table key :=
  ⟨t.rows.map f, by
    rw [List.map_map, show key ∘ f = key from funext hf]
    exact t.nodup⟩

/-- A change to the first row that a test picks. -/
def updateRow (test : ρ → Bool) (f : ρ → ρ) : List ρ → List ρ
  | [] => []
  | x :: xs => if test x then f x :: xs else x :: updateRow test f xs

theorem map_updateRow {γ : Type} {g : ρ → γ} {test : ρ → Bool} {f : ρ → ρ}
    (hf : ∀ r, g (f r) = g r) : ∀ xs : List ρ, (updateRow test f xs).map g = xs.map g
  | [] => rfl
  | x :: xs => by
    by_cases hx : test x
    · simp [updateRow, hx, hf]
    · simp [updateRow, hx, map_updateRow hf xs]

def updateFirst (test : ρ → Bool) (f : ρ → ρ) (hf : ∀ r, key (f r) = key r) (t : Table key) :
    Table key := ⟨updateRow test f t.rows, by rw [map_updateRow hf]; exact t.nodup⟩

theorem forall_mem_updateRow {P : ρ → Prop} {test : ρ → Bool} {f : ρ → ρ}
    (hf : ∀ y, P y → P (f y)) : ∀ {xs : List ρ}, (∀ y ∈ xs, P y) →
      ∀ y ∈ updateRow test f xs, P y
  | [], h => h
  | x :: xs, h => by
    obtain ⟨hx, hxs⟩ := List.forall_mem_cons.mp h
    rw [updateRow]
    split
    · exact List.forall_mem_cons.mpr ⟨hf x hx, hxs⟩
    · exact List.forall_mem_cons.mpr ⟨hx, forall_mem_updateRow hf hxs⟩

/-- A change that takes the first row with a property out of it takes out that one only. -/
theorem filter_updateRow {p : ρ → Bool} {f : ρ → ρ} (hf : ∀ r, p r = true → p (f r) = false) :
    ∀ xs : List ρ, (updateRow p f xs).filter p = (xs.filter p).tail
  | [] => rfl
  | x :: xs => by
    by_cases hx : p x = true
    · simp [updateRow, hx, hf x hx]
    · simp [updateRow, hx, filter_updateRow hf xs]

theorem updateRow_none {test : ρ → Bool} {f : ρ → ρ} : ∀ {xs : List ρ},
    (∀ r ∈ xs, test r = false) → updateRow test f xs = xs
  | [], _ => rfl
  | x :: xs, h => by
    obtain ⟨hx, hxs⟩ := List.forall_mem_cons.mp h
    simp [updateRow, hx, updateRow_none hxs]

/-- A change to a row outside a property that keeps it outside leaves the rows with the property. -/
theorem filter_updateRow_other {test p : ρ → Bool} {f : ρ → ρ}
    (h : ∀ r, test r = true → p r = false ∧ p (f r) = false) :
    ∀ xs : List ρ, (updateRow test f xs).filter p = xs.filter p
  | [] => rfl
  | x :: xs => by
    by_cases hx : test x = true
    · simp [updateRow, hx, h x hx]
    · simp [updateRow, hx, List.filter_cons, filter_updateRow_other h xs]

/-! ### Reading, putting and dropping a row -/

variable [DecidableEq κ]

def get? (t : Table key) (k : κ) : Option ρ := t.rows.find? fun r => key r = k

/-- A row in the place of the one with its key, or at the end. -/
def putRow (key : ρ → κ) (r : ρ) : List ρ → List ρ
  | [] => [r]
  | x :: xs => if key x = key r then r :: xs else x :: putRow key r xs

theorem keys_putRow (r : ρ) : ∀ xs : List ρ, (putRow key r xs).map key =
    if key r ∈ xs.map key then xs.map key else xs.map key ++ [key r]
  | [] => rfl
  | x :: xs => by
    by_cases hx : key x = key r
    · simp [putRow, hx]
    · rw [putRow, if_neg hx, List.map_cons, keys_putRow r xs]
      simp only [List.map_cons, List.mem_cons, Ne.symm hx, false_or]
      split
      · rfl
      · rfl

theorem mem_putRow {r y : ρ} : ∀ {xs : List ρ}, (xs.map key).Nodup →
    (y ∈ putRow key r xs ↔ y = r ∨ (y ∈ xs ∧ key y ≠ key r))
  | [], _ => by simp [putRow]
  | x :: xs, h => by
    obtain ⟨hx, h⟩ := List.nodup_cons.mp h
    by_cases hkey : key x = key r
    · have hxs : ∀ z ∈ xs, key z ≠ key r := fun z hz hzr =>
        hx (hkey ▸ hzr ▸ List.mem_map_of_mem hz)
      simp only [putRow, hkey, if_true, List.mem_cons]
      constructor
      · rintro (rfl | hy)
        · exact .inl rfl
        · exact .inr ⟨.inr hy, hxs y hy⟩
      · rintro (rfl | ⟨rfl | hy, hne⟩)
        · exact .inl rfl
        · exact absurd hkey hne
        · exact .inr hy
    · simp only [putRow, hkey, if_false, List.mem_cons, mem_putRow h]
      constructor
      · rintro (rfl | rfl | ⟨hy, hne⟩)
        · exact .inr ⟨.inl rfl, hkey⟩
        · exact .inl rfl
        · exact .inr ⟨.inr hy, hne⟩
      · rintro (rfl | ⟨rfl | hy, hne⟩)
        · exact .inr (.inl rfl)
        · exact .inl rfl
        · exact .inr (.inr ⟨hy, hne⟩)

theorem putRow_fresh {r : ρ} : ∀ {xs : List ρ}, (∀ x ∈ xs, key x ≠ key r) → putRow key r xs = xs ++ [r]
  | [], _ => rfl
  | x :: xs, h => by
    obtain ⟨hx, hxs⟩ := List.forall_mem_cons.mp h
    rw [putRow, if_neg hx, putRow_fresh hxs, List.cons_append]

theorem putRow_putRow {r r' : ρ} (hkey : key r' = key r) : ∀ xs : List ρ,
    putRow key r' (putRow key r xs) = putRow key r' xs
  | [] => by simp [putRow, hkey]
  | x :: xs => by
    by_cases hx : key x = key r
    · simp [putRow, hx, hkey]
    · simp [putRow, hx, hkey, putRow_putRow hkey xs]

/-- `d[key r] = r`. -/
def put (t : Table key) (r : ρ) : Table key :=
  ⟨putRow key r t.rows, by
    rw [keys_putRow]
    split
    · exact t.nodup
    · rename_i h
      exact List.nodup_append.mpr ⟨t.nodup, List.nodup_singleton _, fun a ha b hb hab =>
        h (List.mem_singleton.mp hb ▸ hab ▸ ha)⟩⟩

/-- `d.setdefault(key r, r)`. -/
def putNew (t : Table key) (r : ρ) : Table key := if (t.get? (key r)).isSome then t else t.put r

/-- `d.pop(k, None)`. -/
def erase (t : Table key) (k : κ) : Table key :=
  ⟨t.rows.filter fun r => key r ≠ k, (List.filter_sublist.map key).nodup t.nodup⟩

theorem get?_eq_some_iff {t : Table key} {k : κ} {r : ρ} :
    t.get? k = some r ↔ r ∈ t.rows ∧ key r = k := by
  constructor
  · intro h
    exact ⟨List.mem_of_find?_eq_some h, by simpa using List.find?_some h⟩
  · rintro ⟨hr, rfl⟩
    cases hget : t.get? (key r) with
    | none =>
      have := List.find?_eq_none.mp hget r hr
      simp at this
    | some y =>
      have hy := List.mem_of_find?_eq_some hget
      have hkey : key y = key r := by simpa using List.find?_some hget
      rw [eq_of_key hy hr hkey]

theorem get?_eq_none_iff {t : Table key} {k : κ} : t.get? k = none ↔ ∀ r ∈ t.rows, key r ≠ k := by
  simp [get?, List.find?_eq_none]

theorem mem_put {t : Table key} {r y : ρ} :
    y ∈ (t.put r).rows ↔ y = r ∨ (y ∈ t.rows ∧ key y ≠ key r) := mem_putRow t.nodup

theorem forall_mem_put {P : ρ → Prop} {t : Table key} {r : ρ} (ht : ∀ y ∈ t.rows, P y) (hr : P r) :
    ∀ y ∈ (t.put r).rows, P y := by
  intro y hy
  rcases mem_put.mp hy with rfl | ⟨hy, -⟩
  · exact hr
  · exact ht y hy

@[simp] theorem get?_empty (k : κ) : (empty : Table key).get? k = none := rfl

/-- Rows with keys of their own are put one behind the other. -/
theorem foldl_put_rows : ∀ {rs : List ρ} {t : Table key}, ((t.rows ++ rs).map key).Nodup →
    (rs.foldl put t).rows = t.rows ++ rs
  | [], t, _ => (List.append_nil t.rows).symm
  | r :: rs, t, h => by
    have hput : (t.put r).rows = t.rows ++ [r] := by
      refine putRow_fresh fun x hx hkey => ?_
      rw [List.map_append, List.nodup_append] at h
      exact h.2.2 _ (List.mem_map_of_mem hx) _ (List.mem_map_of_mem List.mem_cons_self) hkey
    have hrest : (((t.put r).rows ++ rs).map key).Nodup := by
      rwa [hput, List.append_assoc, List.singleton_append]
    rw [List.foldl_cons, foldl_put_rows hrest, hput, List.append_assoc, List.singleton_append]

/-- A key finds all rows that there are under it. -/
theorem filter_key (t : Table key) (k : κ) : t.rows.filter (fun r => key r = k) = (t.get? k).toList := by
  cases hget : t.get? k with
  | none =>
    rw [Option.toList_none, List.filter_eq_nil_iff]
    intro r hr
    simpa using get?_eq_none_iff.mp hget r hr
  | some r =>
    obtain ⟨hr, rfl⟩ := get?_eq_some_iff.mp hget
    obtain ⟨before, after, hrows⟩ := List.append_of_mem hr
    have hnodup := t.nodup
    rw [hrows, List.map_append, List.map_cons, List.nodup_middle, List.nodup_cons, List.mem_append, not_or] at hnodup
    obtain ⟨⟨hbefore, hafter⟩, -⟩ := hnodup
    have hother : ∀ {xs : List ρ}, key r ∉ xs.map key → xs.filter (fun x => key x = key r) = [] := by
      intro xs hxs
      rw [List.filter_eq_nil_iff]
      intro x hx
      have hne : key x ≠ key r := fun heq => hxs (heq ▸ List.mem_map_of_mem hx)
      simpa using hne
    rw [hrows, List.filter_append, List.filter_cons_of_pos (by simp), hother hbefore, hother hafter]
    rfl

/-- A row that is put twice is there as it was put last. -/
theorem put_put (t : Table key) {r r' : ρ} (hkey : key r' = key r) : (t.put r).put r' = t.put r' := by
  rw [Table.mk.injEq]
  exact putRow_putRow hkey t.rows

theorem get?_put (t : Table key) (r : ρ) (k : κ) :
    (t.put r).get? k = if key r = k then some r else t.get? k := by
  split
  · rename_i h
    exact get?_eq_some_iff.mpr ⟨mem_put.mpr (.inl rfl), h⟩
  · rename_i h
    cases hget : t.get? k with
    | none =>
      refine get?_eq_none_iff.mpr fun y hy => ?_
      rcases mem_put.mp hy with rfl | ⟨hy, -⟩
      · exact h
      · exact get?_eq_none_iff.mp hget y hy
    | some y =>
      obtain ⟨hy, rfl⟩ := get?_eq_some_iff.mp hget
      exact get?_eq_some_iff.mpr ⟨mem_put.mpr (.inr ⟨hy, Ne.symm h⟩), rfl⟩

theorem get?_putNew (t : Table key) (r : ρ) (k : κ) :
    (t.putNew r).get? k = if key r = k then some ((t.get? k).getD r) else t.get? k := by
  rw [putNew]
  cases hget : t.get? (key r) with
  | none =>
    simp only [Option.isSome_none, Bool.false_eq_true, if_false, get?_put]
    split
    · rename_i h
      rw [← h, hget]
      rfl
    · rfl
  | some y =>
    simp only [Option.isSome_some, if_true]
    split
    · rename_i h
      rw [← h, hget]
      rfl
    · rfl

theorem get?_erase (t : Table key) (k k' : κ) :
    (t.erase k).get? k' = if k = k' then none else t.get? k' := by
  split
  · rename_i h
    subst h
    exact get?_eq_none_iff.mpr fun r hr => by simpa [erase] using (List.mem_filter.mp hr).2
  · rename_i h
    cases hget : t.get? k' with
    | none =>
      exact get?_eq_none_iff.mpr fun r hr => get?_eq_none_iff.mp hget r (List.mem_filter.mp hr).1
    | some r =>
      obtain ⟨hr, rfl⟩ := get?_eq_some_iff.mp hget
      exact get?_eq_some_iff.mpr ⟨List.mem_filter.mpr ⟨hr, by simpa using Ne.symm h⟩, rfl⟩

theorem mem_erase {t : Table key} {k : κ} {y : ρ} :
    y ∈ (t.erase k).rows ↔ y ∈ t.rows ∧ key y ≠ k := by simp [erase]

theorem mem_putNew {t : Table key} {r y : ρ} :
    y ∈ (t.putNew r).rows ↔ y ∈ t.rows ∨ (y = r ∧ t.get? (key r) = none) := by
  rw [putNew]
  cases hget : t.get? (key r) with
  | none =>
    have hnew := get?_eq_none_iff.mp hget
    simp only [Option.isSome_none, Bool.false_eq_true, if_false, mem_put, and_true]
    constructor
    · rintro (rfl | ⟨hy, -⟩)
      · exact .inr rfl
      · exact .inl hy
    · rintro (hy | rfl)
      · exact .inr ⟨hy, hnew y hy⟩
      · exact .inl rfl
  | some z => simp

/-! ### Rows that record facts -/

section
variable {φ : Type} (idOf : φ → κ) (Records : ρ → φ → Prop)

/-- One row for each fact is put under the id of the fact, in order. -/
inductive PutAll : List φ → Table key → Table key → Prop
  | nil {t} : PutAll [] t t
  | cons {f fs t t'} (r : ρ) (hid : key r = idOf f) (hr : Records r f)
      (hfs : PutAll fs (t.put r) t') : PutAll (f :: fs) t t'

variable {idOf Records} {t t' t'' : Table key} {fs gs : List φ} {f : φ}

theorem PutAll.append (h : PutAll idOf Records fs t t') (h' : PutAll idOf Records gs t' t'') :
    PutAll idOf Records (fs ++ gs) t t'' := by
  induction h with
  | nil => exact h'
  | cons r hid hr _ ih => exact .cons r hid hr (ih h')

theorem PutAll.single {r : ρ} (hid : key r = idOf f) (hr : Records r f) :
    PutAll idOf Records [f] t (t.put r) := .cons r hid hr .nil

/-- A loop whose turns put the rows of their facts puts those of all facts. -/
theorem PutAll.foldlM {β ε : Type} {turn : Table key → β → Except ε (Table key)}
    {facts : β → List φ} : ∀ {bs : List β} {t t' : Table key},
    (∀ b ∈ bs, ∀ u u', turn u b = .ok u' → PutAll idOf Records (facts b) u u') →
    bs.foldlM turn t = .ok t' → PutAll idOf Records (bs.flatMap facts) t t'
  | [], _, _, _, h => by
    cases h
    exact .nil
  | b :: bs, t, t', hturn, h => by
    rw [List.foldlM_cons] at h
    cases hb : turn t b with
    | error x =>
      rw [hb] at h
      cases h
    | ok u =>
      rw [hb] at h
      have hrest := PutAll.foldlM (fun b hb => hturn b (List.mem_cons_of_mem _ hb)) h
      exact (hturn b List.mem_cons_self t u hb).append hrest

/-- Each fact had its row put. -/
theorem PutAll.exists_row (h : PutAll idOf Records fs t t') :
    ∀ f ∈ fs, ∃ r, key r = idOf f ∧ Records r f := by
  induction h with
  | nil => exact fun f hf => absurd hf List.not_mem_nil
  | cons r hid hr _ ih => exact List.forall_mem_cons.mpr ⟨⟨r, hid, hr⟩, ih⟩

/-- The row of a fact stays as long as no other fact has its id. -/
theorem PutAll.keeps (h : PutAll idOf Records fs t t') (hown : ∀ g ∈ fs, idOf g = idOf f → g = f)
    (hrow : ∃ r ∈ t.rows, key r = idOf f ∧ Records r f) :
    ∃ r ∈ t'.rows, key r = idOf f ∧ Records r f := by
  induction h with
  | nil => exact hrow
  | @cons g gs t t' r hid hr _ ih =>
    refine ih (fun g hg => hown g (List.mem_cons_of_mem _ hg)) ?_
    obtain ⟨r₀, hr₀, hid₀, hrec₀⟩ := hrow
    by_cases hsame : key r₀ = key r
    · obtain rfl := hown g List.mem_cons_self (hid.symm.trans (hsame.symm.trans hid₀))
      exact ⟨r, mem_put.mpr (.inl rfl), hid, hr⟩
    · exact ⟨r₀, mem_put.mpr (.inr ⟨hr₀, hsame⟩), hid₀, hrec₀⟩

theorem PutAll.recorded (h : PutAll idOf Records fs t t') (hf : f ∈ fs)
    (hown : ∀ g ∈ fs, idOf g = idOf f → g = f) : ∃ r ∈ t'.rows, key r = idOf f ∧ Records r f := by
  induction h with
  | nil => cases hf
  | @cons g gs t t' r hid hr hgs ih =>
    have htail : ∀ g ∈ gs, idOf g = idOf f → g = f := fun g hg => hown g (List.mem_cons_of_mem _ hg)
    rcases List.mem_cons.mp hf with rfl | hf
    · exact hgs.keeps htail ⟨r, mem_put.mpr (.inl rfl), hid, hr⟩
    · exact ih hf htail

end

end Table
