import Mathlib.Data.Set.Insert
import Mathlib.Tactic.Tauto

/-! Two records of who holds an item.

    The register has one holder for an item, the first that took it, and a release clears it whoever
    asks. The accounts have everyone who took the item and has not released it since. The two agree as
    long as nobody takes or releases what another holds. -/

/-- What the two records say of one item. -/
@[ext] structure Cell (π : Type) where
  register : Option π
  accounts : Set π

/-- What is done to an item. A `note` is a take that the accounts miss. -/
inductive Act (π : Type) where
  | take (p : π) | note (p : π) | release (p : π)

namespace Cell
variable {π : Type} {c : Cell π} {p q : π}

def act (c : Cell π) : Act π → Cell π
  | .take p => ⟨c.register.or (some p), insert p c.accounts⟩
  | .note p => ⟨c.register.or (some p), c.accounts⟩
  | .release p => ⟨none, c.accounts \ {p}⟩

@[simp] theorem act_take : c.act (.take p) = ⟨c.register.or (some p), insert p c.accounts⟩ := rfl
@[simp] theorem act_note : c.act (.note p) = ⟨c.register.or (some p), c.accounts⟩ := rfl
@[simp] theorem act_release : c.act (.release p) = ⟨none, c.accounts \ {p}⟩ := rfl

/-- The holder in the register is the one that the accounts have. -/
def Agree (c : Cell π) : Prop := ∀ p, c.register = some p ↔ p ∈ c.accounts

theorem Agree.mem (h : c.Agree) : q ∈ c.accounts ↔ c.register = some q := (h q).symm

/-- Nobody but `p` is in the register. -/
def Free (c : Cell π) (p : π) : Prop := ∀ q, c.register = some q → q = p

theorem agree_take (h : c.Agree) : (c.act (.take p)).Agree ↔ c.Free p := by
  simp only [Agree, Free, act_take, Set.mem_insert_iff, h.mem]
  cases c.register with
  | none => simp [eq_comm]
  | some r =>
    simp only [Option.some_or, Option.some.injEq]
    constructor
    · rintro hall q rfl
      exact (hall p).mpr (.inl rfl)
    · rintro hfree q
      constructor
      · exact .inr
      · rintro (rfl | hq)
        · exact hfree r rfl
        · exact hq

theorem agree_note (h : c.Agree) (hnone : c.accounts = ∅) : ¬(c.act (.note p)).Agree := by
  have hregister : c.register = none :=
    Option.eq_none_iff_forall_ne_some.mpr fun q hq => by simpa [hnone] using (h q).mp hq
  intro hagree
  have := (hagree p).mp (by simp [hregister])
  simp [hnone] at this

theorem agree_release (h : c.Agree) : (c.act (.release p)).Agree ↔ c.Free p := by
  simp only [Agree, Free, act_release, Set.mem_sdiff, Set.mem_singleton_iff, h.mem]
  constructor
  · intro hall q hq
    by_contra hne
    exact nomatch (hall q).mpr ⟨hq, hne⟩
  · rintro hfree q
    constructor
    · intro hq
      cases hq
    · rintro ⟨hq, hne⟩
      exact absurd (hfree q hq) hne

theorem agree_release_of_mem (h : c.Agree) (hp : p ∈ c.accounts) : (c.act (.release p)).Agree :=
  (agree_release h).mpr fun q hq => by
    rw [h.mem.mp hp] at hq
    exact (Option.some.inj hq).symm

/-- Nobody outside the set is in the register. -/
def Within (c : Cell π) (ps : Set π) : Prop := ∀ q, c.register = some q → q ∈ ps

/-- An item handed from one to another. -/
theorem agree_handover (h : c.Agree) :
    ((c.act (.release p)).act (.take q)).Agree ↔ c.Within {p, q} := by
  simp only [Agree, Within, act_release, act_take, Option.none_or, Option.some.injEq, Set.mem_insert_iff,
    Set.mem_sdiff, Set.mem_singleton_iff, h.mem]
  constructor
  · intro hall r hr
    by_cases hrp : r = p
    · exact .inl hrp
    · exact .inr ((hall r).mpr (.inr ⟨hr, hrp⟩)).symm
  · intro hwithin r
    constructor
    · exact fun hr => .inl hr.symm
    · rintro (rfl | ⟨hr, hne⟩)
      · rfl
      · exact ((hwithin r hr).resolve_left hne).symm

/-- The other order: the item is taken before it is released, and goes from the register. -/
theorem agree_takeover (h : c.Agree) :
    ((c.act (.take q)).act (.release p)).Agree ↔ q = p ∧ c.Within {p, q} := by
  simp only [Agree, Within, act_release, act_take, Set.mem_insert_iff, Set.mem_sdiff,
    Set.mem_singleton_iff, h.mem]
  constructor
  · intro hall
    have hnobody : ∀ r, r = q ∨ c.register = some r → r = p := fun r hr => by
      by_contra hne
      exact nomatch (hall r).mpr ⟨hr, hne⟩
    exact ⟨hnobody q (.inl rfl), fun r hr => .inl (hnobody r (.inr hr))⟩
  · rintro ⟨rfl, hwithin⟩ r
    constructor
    · intro hr
      cases hr
    · rintro ⟨rfl | hr, hne⟩
      · exact absurd rfl hne
      · rcases hwithin r hr with hr | hr
        · exact absurd hr hne
        · exact absurd hr hne

/-- Taken, released and handed over again. -/
theorem agree_takeover_handover (h : c.Agree) :
    ((((c.act (.take q)).act (.release p)).act (.release p)).act (.take q)).Agree ↔
      c.Within {p, q} := by
  rw [← agree_handover h]
  have hsame : (((c.act (.take q)).act (.release p)).act (.release p)).act (.take q) =
      (c.act (.release p)).act (.take q) := by
    refine Cell.ext rfl (Set.ext fun r => ?_)
    simp only [act_release, act_take, Set.mem_insert_iff, Set.mem_sdiff, Set.mem_singleton_iff]
    tauto
  rw [hsame]

end Cell

/-- What the two records say of each item. -/
abbrev Holding (ι π : Type) := ι → Cell π

namespace Holding
variable {ι π : Type} [DecidableEq ι]

def move (h : Holding ι π) (m : ι × Act π) : Holding ι π := Function.update h m.1 ((h m.1).act m.2)

def moves (h : Holding ι π) (ms : List (ι × Act π)) : Holding ι π := ms.foldl move h

@[simp] theorem moves_nil (h : Holding ι π) : h.moves [] = h := rfl

@[simp] theorem moves_cons (h : Holding ι π) (m : ι × Act π) (ms : List (ι × Act π)) :
    h.moves (m :: ms) = (h.move m).moves ms := rfl

theorem moves_append (h : Holding ι π) (ms ns : List (ι × Act π)) :
    h.moves (ms ++ ns) = (h.moves ms).moves ns := List.foldl_append

/-- One act on one item leaves the records agreeing where it does on that item. -/
theorem agree_move {h : Holding ι π} {i : ι} {a : Act π} (hagree : ∀ j, (h j).Agree) :
    (∀ j, (h.move (i, a) j).Agree) ↔ ((h i).act a).Agree := by
  constructor
  · intro hall
    simpa [move] using hall i
  · intro ha j
    by_cases hj : j = i
    · subst hj
      simpa [move] using ha
    · rw [move, Function.update_of_ne hj]
      exact hagree j

/-- Every item goes its own way. -/
theorem moves_apply : ∀ (ms : List (ι × Act π)) (h : Holding ι π) (i : ι),
    h.moves ms i = ((ms.filter fun m => m.1 = i).map Prod.snd).foldl Cell.act (h i)
  | [], _, _ => rfl
  | m :: ms, h, i => by
    rw [moves_cons, moves_apply ms, move]
    by_cases hi : m.1 = i
    · subst hi
      simp
    · simp [hi, Function.update_of_ne (Ne.symm hi)]

/-- A list of acts on one item. -/
theorem moves_map (acts : List (Act π)) (j : ι) (h : Holding ι π) (i : ι) :
    h.moves (acts.map fun a => (j, a)) i = if i = j then acts.foldl Cell.act (h i) else h i := by
  rw [moves_apply]
  by_cases hi : i = j
  · subst hi
    have hall : (acts.map fun a => (i, a)).filter (fun m => m.1 = i) = acts.map fun a => (i, a) := by
      simp
    rw [hall, List.map_map, if_pos rfl]
    exact congrArg (List.foldl Cell.act (h i)) (List.map_id _)
  · have hnone : (acts.map fun a => (j, a)).filter (fun m => m.1 = i) = [] := by simp [Ne.symm hi]
    rw [hnone, if_neg hi]
    rfl

section
variable {acts : ι → List (Act π)}

theorem moves_each_not_mem : ∀ {is : List ι} (h : Holding ι π) {i : ι}, i ∉ is →
    h.moves (is.flatMap fun j => (acts j).map fun a => (j, a)) i = h i
  | [], _, _, _ => rfl
  | j :: is, h, i, hi => by
    obtain ⟨hij, hi⟩ := List.ne_and_not_mem_of_not_mem_cons hi
    rw [List.flatMap_cons, moves_append, moves_each_not_mem _ hi, moves_map, if_neg hij]

/-- The same acts on each item of a list, where doing them again changes nothing. -/
theorem moves_each (hidem : ∀ i c, (acts i).foldl Cell.act ((acts i).foldl Cell.act c) =
    (acts i).foldl Cell.act c) : ∀ {is : List ι} (h : Holding ι π) {i : ι}, i ∈ is →
      h.moves (is.flatMap fun j => (acts j).map fun a => (j, a)) i = (acts i).foldl Cell.act (h i)
  | j :: is, h, i, hi => by
    rw [List.flatMap_cons, moves_append]
    by_cases hmem : i ∈ is
    · rw [moves_each hidem _ hmem, moves_map]
      split
      · rename_i hij
        rw [← hij, hidem]
      · rfl
    · obtain rfl : i = j := (List.mem_cons.mp hi).resolve_right hmem
      rw [moves_each_not_mem _ hmem, moves_map, if_pos rfl]

end

end Holding
