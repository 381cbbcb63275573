import Mathlib.Data.List.Basic
import Mathlib.Data.List.Induction

/-! Records held by first fit: an item goes to the first record whose name is near its own, or to a new one.

    The names alone decide where an item goes, and what was decided once stays decided. A run therefore
    comes apart: the record in a place is what the items of that place make of it. -/

namespace FirstFit

section
variable {ρ : Type*} (near : ρ → ρ → Bool)

/-- The place of an item: the first name near it, or the place after the last. -/
def slot : List ρ → ρ → ℕ
  | [], _ => 0
  | r :: rs, x => if near r x then 0 else slot rs x + 1

/-- The names once an item has its place. -/
def named (names : List ρ) (x : ρ) : List ρ :=
  if slot near names x < names.length then names else names ++ [x]

def allNamed (names xs : List ρ) : List ρ := xs.foldl (named near) names

variable {near}

/-! ### Places -/

theorem slot_le (x : ρ) : ∀ names : List ρ, slot near names x ≤ names.length
  | [] => Nat.le_refl 0
  | r :: rs => by
    rw [slot]
    split
    · exact Nat.zero_le _
    · exact Nat.succ_le_succ (slot_le x rs)

theorem slot_append {x : ρ} {more : List ρ} : ∀ {names : List ρ}, slot near names x < names.length →
    slot near (names ++ more) x = slot near names x
  | [], h => absurd h (Nat.not_lt_zero _)
  | r :: rs, h => by
    rw [slot] at h
    rw [List.cons_append, slot, slot]
    split
    · rfl
    · rename_i hfar
      rw [if_neg hfar, List.length_cons] at h
      rw [slot_append (Nat.lt_of_succ_lt_succ h)]

theorem slot_concat {x : ρ} (hself : near x x = true) : ∀ {names : List ρ}, slot near names x = names.length →
    slot near (names ++ [x]) x = names.length
  | [], _ => by rw [List.nil_append, slot, if_pos hself, List.length_nil]
  | r :: rs, h => by
    rw [slot] at h
    rw [List.cons_append, slot]
    split
    · rename_i hnear
      rw [if_pos hnear] at h
      exact h
    · rename_i hfar
      rw [if_neg hfar, List.length_cons] at h
      rw [slot_concat hself (Nat.succ.inj h), List.length_cons]

theorem slot_named {x : ρ} (hself : near x x = true) (names : List ρ) :
    slot near (named near names x) x = slot near names x := by
  rw [named]
  split
  · rfl
  · rename_i hnew
    have hend : slot near names x = names.length := Nat.le_antisymm (slot_le x names) (Nat.not_lt.mp hnew)
    rw [slot_concat hself hend, hend]

theorem slot_named_lt (x : ρ) (names : List ρ) : slot near names x < (named near names x).length := by
  rw [named]
  split
  · assumption
  · rw [List.length_append, List.length_singleton]
    exact Nat.lt_succ_of_le (slot_le x names)

theorem named_extends (names : List ρ) (x : ρ) : ∃ more, named near names x = names ++ more := by
  rw [named]
  split
  · exact ⟨[], (List.append_nil names).symm⟩
  · exact ⟨[x], rfl⟩

theorem allNamed_extends : ∀ (xs names : List ρ), ∃ more, allNamed near names xs = names ++ more
  | [], names => ⟨[], (List.append_nil names).symm⟩
  | x :: xs, names => by
    obtain ⟨more, hmore⟩ := @named_extends _ near names x
    obtain ⟨rest, hrest⟩ := allNamed_extends xs (named near names x)
    refine ⟨more ++ rest, ?_⟩
    rw [← List.append_assoc, ← hmore, ← hrest]
    rfl

/-- However many names come later, an item keeps its place. -/
theorem slot_allNamed {names : List ρ} {x : ρ} (h : slot near names x < names.length) (xs : List ρ) :
    slot near (allNamed near names xs) x = slot near names x := by
  obtain ⟨more, hmore⟩ := @allNamed_extends _ near xs names
  rw [hmore, slot_append h]

theorem allNamed_concat (names xs : List ρ) (x : ρ) :
    allNamed near names (xs ++ [x]) = named near (allNamed near names xs) x := by
  rw [allNamed, List.foldl_append, List.foldl_cons, List.foldl_nil, allNamed]

theorem allNamed_append (names xs ys : List ρ) :
    allNamed near names (xs ++ ys) = allNamed near (allNamed near names xs) ys := List.foldl_append

/-- An item has from its own turn on the place that it then got. -/
theorem slot_allNamed_cons {x : ρ} (hself : near x x = true) (names xs : List ρ) :
    slot near (allNamed near names (x :: xs)) x = slot near names x := by
  have hlt : slot near (named near names x) x < (named near names x).length := by
    rw [slot_named hself]
    exact slot_named_lt x names
  have hlater : slot near (allNamed near (named near names x) xs) x = slot near (named near names x) x :=
    slot_allNamed hlt xs
  rw [slot_named hself] at hlater
  exact hlater

theorem slot_lt_of_mem (hself : ∀ x, near x x = true) {x : ρ} : ∀ {xs names : List ρ}, x ∈ xs →
    slot near (allNamed near names xs) x < (allNamed near names xs).length
  | y :: ys, names, h => by
    rcases List.mem_cons.mp h with rfl | h
    · have hlt := @slot_named_lt _ near x names
      have hplace : slot near (named near names x) x < (named near names x).length := by
        rw [slot_named (hself x)]
        exact hlt
      obtain ⟨more, hmore⟩ := @allNamed_extends _ near ys (named near names x)
      have hall : allNamed near names (x :: ys) = named near names x ++ more := hmore
      rw [hall, slot_append hplace, List.length_append]
      exact Nat.lt_of_lt_of_le hplace (Nat.le_add_right _ _)
    · exact @slot_lt_of_mem hself x ys (named near names y) h

/-- Items that have their places bring no new name. -/
theorem allNamed_of_placed : ∀ {xs names : List ρ}, (∀ x ∈ xs, slot near names x < names.length) →
    allNamed near names xs = names
  | [], _, _ => rfl
  | x :: xs, names, h => by
    obtain ⟨hx, hxs⟩ := List.forall_mem_cons.mp h
    have hsame : named near names x = names := if_pos hx
    rw [allNamed, List.foldl_cons, hsame]
    exact allNamed_of_placed hxs

end

/-! ### Records -/

section
variable {ρ C ι : Type*} (near : ρ → ρ → Bool) (name : C → ρ) (create : ρ → C)

/-- The record of an item: the first whose name is near it, or a new one. -/
def held (cs : List C) (x : ρ) : C := (cs.find? fun c => near (name c) x).getD (create x)

/-- A record back in the place of an item. -/
def put : List C → ρ → C → List C
  | [], _, c' => [c']
  | c :: cs, x, c' => if near (name c) x then c' :: cs else c :: put cs x c'

variable (key : ι → ρ) (f : ι → C → C)

def enter (cs : List C) (a : ι) : List C := put near name cs (key a) (f a (held near name create cs (key a)))

def enterAll (cs : List C) (items : List ι) : List C := items.foldl (enter near name create key f) cs

variable {near name create key f}

theorem held_eq (x : ρ) : ∀ cs : List C,
    held near name create cs x = (cs[slot near (cs.map name) x]?).getD (create x)
  | [] => rfl
  | c :: cs => by
    rw [held, List.find?_cons, List.map_cons, slot]
    rcases Bool.eq_false_or_eq_true (near (name c) x) with hnear | hfar
    · rw [hnear, if_pos rfl]
      rfl
    · rw [hfar, if_neg Bool.false_ne_true, List.getElem?_cons_succ]
      exact held_eq x cs

/-- Items of one place have one record. -/
theorem held_congr {cs : List C} {x y : ρ} (hplaced : slot near (cs.map name) x < cs.length)
    (hsame : slot near (cs.map name) x = slot near (cs.map name) y) :
    held near name create cs x = held near name create cs y := by
  rw [held_eq, held_eq, ← hsame, List.getElem?_eq_getElem hplaced, Option.getD_some, Option.getD_some]

theorem put_getElem? (x : ρ) (c' : C) (i : ℕ) : ∀ cs : List C,
    (put near name cs x c')[i]? = if i = slot near (cs.map name) x then some c' else cs[i]?
  | [] => by
    rw [put, List.map_nil, slot]
    cases i with
    | zero => rfl
    | succ i => rfl
  | c :: cs => by
    rw [put, List.map_cons, slot]
    split
    · cases i with
      | zero => rfl
      | succ i => rfl
    · cases i with
      | zero => rfl
      | succ i =>
        rw [List.getElem?_cons_succ, put_getElem? x c' i cs, List.getElem?_cons_succ]
        simp only [Nat.add_right_cancel_iff]

theorem map_put (x : ρ) (c' : C) : ∀ cs : List C, name c' = name (held near name create cs x) →
    (hcreate : name (create x) = x) → (put near name cs x c').map name = named near (cs.map name) x
  | [], h, hcreate => by
    have hnew : name c' = x := h.trans hcreate
    rw [put, List.map_singleton, hnew]
    rfl
  | c :: cs, h, hcreate => by
    rw [held, List.find?_cons] at h
    rw [put, named, List.map_cons, slot]
    rcases Bool.eq_false_or_eq_true (near (name c) x) with hnear | hfar
    · rw [hnear] at h
      have hname : name c' = name c := h
      rw [hnear, if_pos rfl, if_pos rfl, List.length_cons, if_pos (Nat.succ_pos _), List.map_cons, hname]
    · rw [hfar] at h
      have ih := map_put x c' cs h hcreate
      rw [hfar, if_neg Bool.false_ne_true, if_neg Bool.false_ne_true, List.map_cons, ih, named, List.length_cons]
      simp only [Nat.add_lt_add_iff_right]
      split
      · rfl
      · rfl

/-- What holds of all records and of a new one holds of the record of an item. -/
theorem held_forall {P : C → Prop} {cs : List C} (hall : ∀ c ∈ cs, P c) (x : ρ) (hnew : P (create x)) :
    P (held near name create cs x) := by
  rw [held]
  cases hfind : cs.find? fun c => near (name c) x with
  | none => exact hnew
  | some c => exact hall c (List.mem_of_find?_eq_some hfind)

theorem put_forall {P : C → Prop} {x : ρ} {c' : C} (hput : P c') : ∀ {cs : List C}, (∀ c ∈ cs, P c) →
    ∀ c ∈ put near name cs x c', P c
  | [], _ => by
    rw [put, List.forall_mem_singleton]
    exact hput
  | c :: cs, hall => by
    obtain ⟨hc, hcs⟩ := List.forall_mem_cons.mp hall
    rw [put]
    split
    · exact List.forall_mem_cons.mpr ⟨hput, hcs⟩
    · exact List.forall_mem_cons.mpr ⟨hc, put_forall hput hcs⟩

/-! ### Runs -/

/-- What the items of one place make of it. -/
def fill (create : ρ → C) (key : ι → ρ) (f : ι → C → C) (c : Option C) (items : List ι) : Option C :=
  items.foldl (fun c a => some (f a (c.getD (create (key a))))) c

theorem fill_concat (c : Option C) (items : List ι) (a : ι) : fill create key f c (items ++ [a]) =
    some (f a ((fill create key f c items).getD (create (key a)))) := by
  rw [fill, List.foldl_append]
  rfl

theorem enter_getElem? (cs : List C) (a : ι) (i : ℕ) : (enter near name create key f cs a)[i]? =
    if i = slot near (cs.map name) (key a) then some (f a (cs[i]?.getD (create (key a)))) else cs[i]? := by
  rw [enter, put_getElem?, held_eq]
  split
  · rename_i hplace
    rw [hplace]
  · rfl

section
variable (hname : ∀ a c, name (f a c) = name c) (hcreate : ∀ x, name (create x) = x)
include hname hcreate

theorem enter_names (cs : List C) (a : ι) :
    (enter near name create key f cs a).map name = named near (cs.map name) (key a) :=
  map_put (key a) _ cs (hname a _) (hcreate (key a))

theorem enterAll_names : ∀ (items : List ι) (cs : List C),
    (enterAll near name create key f cs items).map name = allNamed near (cs.map name) (items.map key)
  | [], _ => rfl
  | a :: items, cs => by
    rw [enterAll, List.foldl_cons, List.map_cons, allNamed, List.foldl_cons, ← enter_names hname hcreate]
    exact enterAll_names items (enter near name create key f cs a)

/-- In each place of a run is what the items make of it that have this place at the end. -/
theorem enterAll_getElem? (hself : ∀ x, near x x = true) (cs : List C) (i : ℕ) (items : List ι) :
    (enterAll near name create key f cs items)[i]? = fill create key f cs[i]?
      (items.filter fun a => slot near (allNamed near (cs.map name) (items.map key)) (key a) = i) := by
  induction items using List.reverseRecOn with
  | nil => rfl
  | append_singleton items a ih =>
    have hlast : enterAll near name create key f cs (items ++ [a]) =
        enter near name create key f (enterAll near name create key f cs items) a := by
      rw [enterAll, List.foldl_append]
      rfl
    have hnames : (enterAll near name create key f cs items).map name =
        allNamed near (cs.map name) (items.map key) := enterAll_names hname hcreate items cs
    rw [hlast, enter_getElem?, hnames, ih, List.map_append, List.map_singleton,
      allNamed_concat, List.filter_append]
    -- the last item gives no other item a new place
    have hsame : items.filter (fun b => slot near
          (named near (allNamed near (cs.map name) (items.map key)) (key a)) (key b) = i) =
        items.filter fun b => slot near (allNamed near (cs.map name) (items.map key)) (key b) = i := by
      refine List.filter_congr fun b hb => ?_
      have hlt := @slot_lt_of_mem _ near hself (key b) (items.map key) (cs.map name) (List.mem_map_of_mem hb)
      obtain ⟨more, hmore⟩ := @named_extends _ near (allNamed near (cs.map name) (items.map key)) (key a)
      rw [hmore, slot_append hlt]
    rw [hsame, List.filter_singleton, slot_named (hself (key a))]
    by_cases hplace : slot near (allNamed near (cs.map name) (items.map key)) (key a) = i
    · rw [if_pos hplace.symm, decide_eq_true hplace, cond_true, fill_concat]
    · rw [if_neg (Ne.symm hplace), decide_eq_false hplace, cond_false, List.append_nil]

/-- A second run of the same items changes nothing where none of their records changes. -/
theorem enterAll_again (hself : ∀ x, near x x = true) {items : List ι}
    (hfill : ∀ own ⊆ items, fill create key f (fill create key f none own) own = fill create key f none own) :
    enterAll near name create key f (enterAll near name create key f [] items) items =
      enterAll near name create key f [] items := by
  have hnames : (enterAll near name create key f [] items).map name = allNamed near [] (items.map key) :=
    enterAll_names hname hcreate items []
  have hplaced : allNamed near (allNamed near [] (items.map key)) (items.map key) =
      allNamed near [] (items.map key) :=
    allNamed_of_placed fun x hx => slot_lt_of_mem hself hx
  refine List.ext_getElem? fun i => ?_
  rw [enterAll_getElem? hname hcreate hself, hnames, hplaced, enterAll_getElem? hname hcreate hself]
  exact hfill _ List.filter_sublist.subset

end

/-- A record put back into its own place, and nothing else, leaves the records as they are. -/
theorem put_eq_iff {cs : List C} {x : ρ} {c' : C} (hplaced : slot near (cs.map name) x < cs.length) :
    put near name cs x c' = cs ↔ c' = held near name create cs x := by
  have hget : ∃ c, cs[slot near (cs.map name) x]? = some c := ⟨_, List.getElem?_eq_getElem hplaced⟩
  obtain ⟨c, hc⟩ := hget
  rw [held_eq, hc, Option.getD_some]
  constructor
  · intro hsame
    have hput := @put_getElem? _ _ near name x c' (slot near (cs.map name) x) cs
    rw [hsame, if_pos rfl, hc] at hput
    exact (Option.some.inj hput).symm
  · rintro rfl
    refine List.ext_getElem? fun i => ?_
    rw [put_getElem?]
    split
    · rename_i hi
      rw [hi, hc]
    · rfl

end

end FirstFit
