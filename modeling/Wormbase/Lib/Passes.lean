import Mathlib.Data.List.Sort
import Mathlib.Data.List.Nodup
import Mathlib.Order.Lattice.Nat

/-! Elements that join a set because their parent is in it, found by a bounded number of passes over a list.

    A pass sees what it has added itself, so the order of the list decides how far it gets. `k` passes find what
    is within `k` parents of the start (`complete`) and nothing that does not lead back to it (`sound`); there is
    an order in which they find no more than the one (`exists_slowest`) and one in which they find all of the
    other (`exists_fastest`). -/

namespace Passes
variable {α ι : Type*} (id : α → ι) (parent : α → Option ι)

/-! ### Distance -/

/-- At most `n` parents lead from the element to a member. -/
def Within (xs : List α) (m : List ι) : ℕ → ι → Prop
  | 0, i => i ∈ m
  | n + 1, i => Within xs m n i ∨ ∃ x ∈ xs, id x = i ∧ ∃ p, parent x = some p ∧ Within xs m n p

/-- How many parents away from the start an element is; 0 as well when it is not to be reached. -/
noncomputable def rank (xs : List α) (m : List ι) (i : ι) : ℕ :=
  sInf { n | Within id parent xs m n i }

variable {id parent} {xs ys : List α} {m m' : List ι} {x : α} {i p : ι} {n k : ℕ}

theorem Within.mono (h : Within id parent xs m n i) (hle : n ≤ k) : Within id parent xs m k i := by
  induction hle with
  | refl => exact h
  | step _ ih => exact .inl ih

theorem within_congr (hxs : ∀ x, x ∈ xs ↔ x ∈ ys) (hm : ∀ i, i ∈ m ↔ i ∈ m') :
    Within id parent xs m n i ↔ Within id parent ys m' n i := by
  induction n generalizing i with
  | zero => exact hm i
  | succ n ih => simp only [Within, ih, hxs]

theorem rank_congr (hxs : ∀ x, x ∈ xs ↔ x ∈ ys) (hm : ∀ i, i ∈ m ↔ i ∈ m') :
    rank id parent xs m i = rank id parent ys m' i := by
  simp only [rank, within_congr hxs hm]

theorem rank_le (h : Within id parent xs m n i) : rank id parent xs m i ≤ n := Nat.sInf_le h

theorem within_rank (h : ∃ n, Within id parent xs m n i) : Within id parent xs m (rank id parent xs m i) i :=
  Nat.sInf_mem h

/-- A rank of 0 is that of a member, a greater one that of an element with a parent that is one closer. -/
theorem rank_cases (h : ∃ n, Within id parent xs m n i) : i ∈ m ∨
    ∃ x ∈ xs, id x = i ∧ ∃ p, parent x = some p ∧ (∃ n, Within id parent xs m n p) ∧
      rank id parent xs m p < rank id parent xs m i := by
  have hreach := within_rank h
  cases hrank : rank id parent xs m i with
  | zero =>
    rw [hrank] at hreach
    exact .inl hreach
  | succ r =>
    rw [hrank] at hreach
    rcases hreach with hcloser | ⟨x, hx, hxi, p, hparent, hp⟩
    · have hle := rank_le hcloser
      omega
    · exact .inr ⟨x, hx, hxi, p, hparent, ⟨r, hp⟩, Nat.lt_succ_of_le (rank_le hp)⟩

/-! ### One pass -/

section
variable [DecidableEq ι] (id parent)

/-- An element joins when its parent is a member. -/
def visit (m : List ι) (x : α) : List ι :=
  if id x ∈ m then m
  else
    match parent x with
    | none => m
    | some p => if p ∈ m then m ++ [id x] else m

def pass (xs : List α) (m : List ι) : List ι := xs.foldl (visit id parent) m

/-- At most `k` passes, until one adds nothing. -/
def passes (xs : List α) : ℕ → List ι → List ι
  | 0, m => m
  | k + 1, m =>
    let m' := pass id parent xs m
    if m'.length = m.length then m' else passes xs k m'

end

variable [DecidableEq ι]

theorem mem_visit : i ∈ visit id parent m x ↔ i ∈ m ∨ i = id x ∧ ∃ p, parent x = some p ∧ p ∈ m := by
  unfold visit
  by_cases hx : id x ∈ m
  · rw [if_pos hx]
    constructor
    · exact .inl
    · rintro (h | ⟨rfl, -⟩)
      · exact h
      · exact hx
  · rw [if_neg hx]
    cases hparent : parent x with
    | none => simp
    | some p => by_cases hp : p ∈ m <;> simp [hp]

theorem visit_extends : m <+: visit id parent m x := by
  unfold visit
  split
  · exact List.prefix_rfl
  · split
    · exact List.prefix_rfl
    · split
      · exact List.prefix_append m [id x]
      · exact List.prefix_rfl

theorem pass_extends : ∀ (xs : List α) (m : List ι), m <+: pass id parent xs m
  | [], _ => List.prefix_rfl
  | x :: xs, m => visit_extends.trans (pass_extends xs (visit id parent m x))

theorem pass_concat : pass id parent (xs ++ [x]) m = visit id parent (pass id parent xs m) x := by
  rw [pass, List.foldl_append]
  rfl

theorem passes_extends : ∀ (k : ℕ) (m : List ι), m <+: passes id parent xs k m
  | 0, _ => List.prefix_rfl
  | k + 1, m => by
    rw [passes]
    split
    · exact pass_extends xs m
    · exact (pass_extends xs m).trans (passes_extends k _)

/-- A pass adds each element whose parent was a member before. -/
theorem mem_pass (hx : x ∈ xs) (hparent : parent x = some p) (hp : p ∈ m) : id x ∈ pass id parent xs m := by
  obtain ⟨before, after, rfl⟩ := List.append_of_mem hx
  have hold : p ∈ pass id parent before m := (pass_extends before m).subset hp
  rw [pass, List.foldl_append, List.foldl_cons]
  exact (pass_extends after _).subset (mem_visit.mpr (.inr ⟨rfl, p, hparent, hold⟩))

/-! ### What passes find -/

theorem sound_pass (hsub : ys ⊆ xs) (hm' : ∀ i ∈ m', ∃ n, Within id parent xs m n i) :
    ∀ i ∈ pass id parent ys m', ∃ n, Within id parent xs m n i := by
  induction ys generalizing m' with
  | nil => exact hm'
  | cons y ys ih =>
    obtain ⟨hy, hsub⟩ := List.cons_subset.mp hsub
    refine ih hsub fun i hi => ?_
    rcases mem_visit.mp hi with hi | ⟨rfl, p, hparent, hp⟩
    · exact hm' i hi
    · obtain ⟨n, hn⟩ := hm' p hp
      exact ⟨n + 1, .inr ⟨y, hy, rfl, p, hparent, hn⟩⟩

/-- Nothing is found that does not lead back to the start. -/
theorem sound (h : i ∈ passes id parent xs k m) : ∃ n, Within id parent xs m n i := by
  have hrun : ∀ (k : ℕ) (m' : List ι), (∀ i ∈ m', ∃ n, Within id parent xs m n i) →
      ∀ i ∈ passes id parent xs k m', ∃ n, Within id parent xs m n i := by
    intro k
    induction k with
    | zero => exact fun _ hm' => hm'
    | succ k ih =>
      intro m' hm' i hi
      have hpass := sound_pass (List.Subset.refl xs) hm'
      rw [passes] at hi
      split at hi
      · exact hpass i hi
      · exact ih _ hpass i hi
  exact hrun k m (fun i hi => ⟨0, hi⟩) i h

/-- A pass that adds nothing has all that there is. -/
theorem complete_of_idle (hidle : pass id parent xs m' = m') (hm : ∀ i ∈ m, i ∈ m') (h : Within id parent xs m n i) :
    i ∈ m' := by
  induction n generalizing i with
  | zero => exact hm i h
  | succ n ih =>
    rcases h with h | ⟨x, hx, rfl, p, hparent, hp⟩
    · exact ih h
    · rw [← hidle]
      exact mem_pass hx hparent (ih hp)

theorem idle_of_length (h : (pass id parent xs m).length = m.length) : pass id parent xs m = m :=
  ((pass_extends xs m).eq_of_length h.symm).symm

/-- `k` passes find all that is within `k` parents. -/
theorem complete (h : Within id parent xs m k i) : i ∈ passes id parent xs k m := by
  -- the induction is on the passes that are left, after `j` of them
  have hrun : ∀ (k j : ℕ) (m' : List ι), (∀ i, Within id parent xs m j i → i ∈ m') →
      ∀ i, Within id parent xs m (j + k) i → i ∈ passes id parent xs k m' := by
    intro k
    induction k with
    | zero => exact fun j m' hm' i hi => hm' i hi
    | succ k ih =>
      intro j m' hm' i hi
      rw [passes]
      split
      · rename_i hlength
        have hidle := idle_of_length hlength
        rw [hidle]
        exact complete_of_idle hidle (fun i hi => hm' i (Within.mono (n := 0) hi (Nat.zero_le j))) hi
      · refine ih (j + 1) _ (fun i hi => ?_) i (by rwa [Nat.add_right_comm, Nat.add_assoc])
        rcases hi with hi | ⟨x, hx, rfl, p, hparent, hp⟩
        · exact (pass_extends xs m').subset (hm' i hi)
        · exact mem_pass hx hparent (hm' p hp)
  exact hrun k 0 m (fun _ hi => hi) i (by rwa [Nat.zero_add])

/-! ### Orders -/

/-- Against the order of the parents a pass gets no further than one parent. -/
theorem pass_descending {j : ℕ} (hsub : ys ⊆ xs)
    (horder : ys.Pairwise fun a b => rank id parent xs m (id b) ≤ rank id parent xs m (id a))
    (hm' : ∀ i ∈ m', Within id parent xs m j i) : ∀ i ∈ pass id parent ys m', Within id parent xs m (j + 1) i := by
  -- what has been added is one parent further and no closer than what is still to come
  have hscan : ∀ i ∈ pass id parent ys m', Within id parent xs m j i ∨
      Within id parent xs m (j + 1) i ∧ ∃ y ∈ ys, id y = i := by
    induction ys using List.reverseRecOn with
    | nil => exact fun i hi => .inl (hm' i hi)
    | append_singleton ys y ih =>
      obtain ⟨horder, -, hacross⟩ := List.pairwise_append.mp horder
      obtain ⟨hsub, hy⟩ := List.append_subset.mp hsub
      intro i hi
      rw [pass_concat] at hi
      rcases mem_visit.mp hi with hi | ⟨rfl, p, hparent, hp⟩
      · rcases ih hsub horder i hi with h | ⟨h, z, hz, hzi⟩
        · exact .inl h
        · exact .inr ⟨h, z, List.mem_append_left [y] hz, hzi⟩
      · refine .inr ⟨?_, y, by simp, rfl⟩
        rcases ih hsub horder p hp with h | ⟨h, z, hz, rfl⟩
        · exact .inr ⟨y, hy (by simp), rfl, p, hparent, h⟩
        · have hreach : Within id parent xs m (j + 2) (id y) := .inr ⟨y, hy (by simp), rfl, id z, hparent, h⟩
          have hle := (hacross z hz y (by simp)).trans (rank_le h)
          exact (within_rank ⟨_, hreach⟩).mono hle
  intro i hi
  rcases hscan i hi with h | ⟨h, -⟩
  · exact h.mono (Nat.le_succ j)
  · exact h

theorem passes_descending
    (horder : xs.Pairwise fun a b => rank id parent xs m (id b) ≤ rank id parent xs m (id a))
    (h : i ∈ passes id parent xs k m) : Within id parent xs m k i := by
  have hrun : ∀ (k j : ℕ) (m' : List ι), (∀ i ∈ m', Within id parent xs m j i) →
      ∀ i ∈ passes id parent xs k m', Within id parent xs m (j + k) i := by
    intro k
    induction k with
    | zero => exact fun j m' hm' => hm'
    | succ k ih =>
      intro j m' hm' i hi
      have hpass := pass_descending (List.Subset.refl xs) horder hm'
      rw [passes] at hi
      split at hi
      · exact (hpass i hi).mono (by omega)
      · exact (ih (j + 1) _ hpass i hi).mono (by omega)
  exact (hrun k 0 m (fun _ hi => hi) i h).mono (by omega)

/-- Along the order of the parents one pass gets everywhere. -/
theorem pass_ascending (hnodup : (xs.map id).Nodup)
    (horder : xs.Pairwise fun a b => rank id parent xs m (id a) ≤ rank id parent xs m (id b))
    (h : Within id parent xs m n i) : i ∈ pass id parent xs m := by
  have hscan : ∀ before after, xs = before ++ after → ∀ y ∈ before, (∃ n, Within id parent xs m n (id y)) →
      id y ∈ pass id parent before m := by
    intro before
    induction before using List.reverseRecOn with
    | nil => exact fun _ _ _ hy => nomatch hy
    | append_singleton before z ih =>
      intro after hxs y hy hreach
      rw [List.append_assoc, List.singleton_append] at hxs
      rw [pass_concat, mem_visit]
      rcases List.mem_append.mp hy with hy | hy
      · exact .inl (ih (z :: after) hxs y hy hreach)
      obtain rfl := List.mem_singleton.mp hy
      have hy : y ∈ xs := by simp [hxs]
      -- the parent is closer, so it stands before
      rcases rank_cases hreach with hstart | ⟨x, hx, hxy, p, hparent, hp, hlt⟩
      · exact .inl ((pass_extends before m).subset hstart)
      obtain rfl : x = y := List.inj_on_of_nodup_map hnodup hx hy hxy
      refine .inr ⟨rfl, p, hparent, ?_⟩
      rcases rank_cases hp with hstart | ⟨w, hw, rfl, -⟩
      · exact (pass_extends before m).subset hstart
      · have hbefore : w ∈ before := by
          have hw : w ∈ before ++ x :: after := hxs ▸ hw
          have horder : (before ++ x :: after).Pairwise fun a b =>
              rank id parent xs m (id a) ≤ rank id parent xs m (id b) := by rwa [← hxs]
          obtain ⟨-, horder, -⟩ := List.pairwise_append.mp horder
          rcases List.mem_append.mp hw with hw | hw
          · exact hw
          rcases List.mem_cons.mp hw with rfl | hw
          · omega
          · have hafter := (List.pairwise_cons.mp horder).1 w hw
            omega
        exact ih (x :: after) hxs w hbefore hp
  rcases rank_cases ⟨n, h⟩ with hstart | ⟨x, hx, rfl, -⟩
  · exact (pass_extends xs m).subset hstart
  · exact hscan xs [] (List.append_nil xs).symm x hx ⟨n, h⟩

section
variable {start : List α → List ι} (hstart : ∀ ys, ys.Perm xs → ∀ i, i ∈ start ys ↔ i ∈ start xs)
include hstart

/-- An order in which the passes find what they find in every order. -/
theorem exists_slowest (k : ℕ) : ∃ ys, ys.Perm xs ∧
    ∀ i, i ∈ passes id parent ys k (start ys) ↔ Within id parent xs (start xs) k i := by
  let r : α → α → Prop := fun a b =>
    rank id parent xs (start xs) (id b) ≤ rank id parent xs (start xs) (id a)
  have : Std.Total r := ⟨fun a b => le_total _ _⟩
  have : IsTrans α r := ⟨fun a b c hab hbc => hbc.trans hab⟩
  have hperm := List.perm_insertionSort r xs
  have hm := hstart _ hperm
  refine ⟨xs.insertionSort r, hperm, fun i => ?_⟩
  rw [← within_congr (fun x => hperm.mem_iff) hm]
  constructor
  · refine passes_descending ?_
    refine (List.pairwise_insertionSort r xs).imp fun {a b} hab => ?_
    rw [rank_congr (fun x => hperm.mem_iff) hm, rank_congr (fun x => hperm.mem_iff) hm]
    exact hab
  · exact complete

/-- An order in which the passes find all that they find in any order. -/
theorem exists_fastest (hnodup : (xs.map id).Nodup) (k : ℕ) : ∃ ys, ys.Perm xs ∧
    ∀ i, i ∈ passes id parent ys (k + 1) (start ys) ↔ ∃ n, Within id parent xs (start xs) n i := by
  let r : α → α → Prop := fun a b =>
    rank id parent xs (start xs) (id a) ≤ rank id parent xs (start xs) (id b)
  have : Std.Total r := ⟨fun a b => le_total _ _⟩
  have : IsTrans α r := ⟨fun a b c hab hbc => hab.trans hbc⟩
  have hperm := List.perm_insertionSort r xs
  have hm := hstart _ hperm
  refine ⟨xs.insertionSort r, hperm, fun i => ?_⟩
  simp only [← within_congr (fun x => hperm.mem_iff) hm]
  constructor
  · exact sound
  · rintro ⟨n, hn⟩
    have hall : i ∈ pass id parent (xs.insertionSort r) (start (xs.insertionSort r)) := by
      refine pass_ascending ((hperm.map id).nodup_iff.mpr hnodup) ?_ hn
      refine (List.pairwise_insertionSort r xs).imp fun {a b} hab => ?_
      rw [rank_congr (fun x => hperm.mem_iff) hm, rank_congr (fun x => hperm.mem_iff) hm]
      exact hab
    rw [passes]
    split
    · exact hall
    · exact (passes_extends k _).subset hall

end

end Passes
