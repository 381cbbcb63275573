import Wormbase.Lib.Holding
import Wormbase.WriteActions.Persons

/-! What the calls of the actions do to persons and their identities, apart from any ledger. -/

namespace WriteActions
open Py Projection

/-- Platform and user id. -/
abbrev Ident := String × String

/-- Both texts are nonempty: the actions' fold sees no other identity. -/
def Named (i : Ident) : Prop := i.1 ≠ "" ∧ i.2 ≠ ""

instance : DecidablePred Named := fun i => by
  unfold Named
  infer_instance

/-- Who holds which identity, in the projection and in the actions' fold, and who is not archived. -/
@[ext] structure Standing where
  holding : Holding Ident UUID
  live : Set UUID

inductive Deed where
  | propose (p : UUID) (i : Ident)
  | link (p : UUID) (i : Ident)
  | unlink (p : UUID) (i : Ident)
  | archive (p : UUID)

def Deed.moves : Deed → List (Ident × Act UUID)
  | .propose p i => if Named i then [(i, .take p)] else []
  | .link p i => [(i, if Named i then .take p else .note p)]
  | .unlink p i => [(i, .release p)]
  | .archive _ => []

def Deed.lives (live : Set UUID) : Deed → Set UUID
  | .propose p _ => insert p live
  | .archive p => live \ {p}
  | .link _ _ | .unlink _ _ => live

namespace Standing

def after (v : Standing) (d : Deed) : Standing := ⟨v.holding.moves d.moves, d.lives v.live⟩

/-- Who is in the register after a deed. -/
theorem after_register (v : Standing) (j : Ident) : (d : Deed) →
    ((v.after d).holding j).register = match d with
      | .propose p i => if Named i ∧ j = i then (v.holding j).register.or (some p)
        else (v.holding j).register
      | .link p i => if j = i then (v.holding j).register.or (some p) else (v.holding j).register
      | .unlink _ i => if j = i then none else (v.holding j).register
      | .archive _ => (v.holding j).register
  | .propose p i => by
    by_cases hi : Named i
    · have hmoves : (Deed.propose p i).moves = [Act.take p].map fun a => (i, a) := if_pos hi
      simp only [after, hmoves, Holding.moves_map, hi, true_and]
      split
      · rfl
      · rfl
    · have hmoves : (Deed.propose p i).moves = [] := if_neg hi
      simp only [after, hmoves, hi, false_and, if_false, Holding.moves_nil]
  | .link p i => by
    have hmoves : (Deed.link p i).moves =
      [if Named i then Act.take p else .note p].map fun a => (i, a) := rfl
    simp only [after, hmoves, Holding.moves_map]
    split
    · by_cases hi : Named i
      · simp [hi]
      · simp [hi]
    · rfl
  | .unlink p i => by
    have hmoves : (Deed.unlink p i).moves = [Act.release p].map fun a => (i, a) := rfl
    simp only [after, hmoves, Holding.moves_map]
    split
    · rfl
    · rfl
  | .archive _ => rfl

def afterAll (v : Standing) (ds : List Deed) : Standing := ds.foldl after v

theorem afterAll_holding : ∀ (ds : List Deed) (v : Standing),
    (v.afterAll ds).holding = v.holding.moves (ds.flatMap Deed.moves)
  | [], _ => rfl
  | d :: ds, v => by
    rw [List.flatMap_cons, Holding.moves_append]
    exact afterAll_holding ds (v.after d)

theorem afterAll_live : ∀ (ds : List Deed) (v : Standing),
    (v.afterAll ds).live = ds.foldl Deed.lives v.live
  | [], _ => rfl
  | d :: ds, v => afterAll_live ds (v.after d)

/-- Links and unlinks leave everyone alive who is. -/
theorem lives_of_moves : ∀ {ds : List Deed} {live : Set UUID},
    (∀ d ∈ ds, ∃ p i, d = .link p i ∨ d = .unlink p i) → ds.foldl Deed.lives live = live
  | [], _, _ => rfl
  | d :: ds, live, h => by
    obtain ⟨⟨p, i, hd⟩, hds⟩ := List.forall_mem_cons.mp h
    rw [List.foldl_cons]
    rcases hd with rfl | rfl
    · exact lives_of_moves hds
    · exact lives_of_moves hds

end Standing

/-! ### Merge and split -/

/-- The acts on one identity of a mergee. -/
def mergeActs (keeper mergee : UUID) (kept : Bool) : List (Act UUID) :=
  if kept then [.release mergee] else [.release mergee, .take keeper]

def mergeDeeds (keeper mergee : UUID) (ids : List Ident) (kept : Ident → Bool) : List Deed :=
  ids.flatMap (fun i => .unlink mergee i :: if kept i then [] else [.link keeper i]) ++
    [.archive mergee]

/-- The acts on one identity that a split moves after the first. -/
def splitActs (source newId : UUID) (i : Ident) : List (Act UUID) :=
  [.release source, if Named i then .take newId else .note newId]

def splitDeeds (source newId : UUID) (seed : Ident) (rest : List Ident) : List Deed :=
  .propose newId seed :: .unlink source seed ::
    rest.flatMap fun i => [.unlink source i, .link newId i]

theorem mergeActs_idem (keeper mergee : UUID) (kept : Bool) (c : Cell UUID) :
    (mergeActs keeper mergee kept).foldl Cell.act ((mergeActs keeper mergee kept).foldl Cell.act c) =
      (mergeActs keeper mergee kept).foldl Cell.act c := by
  cases kept with
  | true => simp [mergeActs]
  | false =>
    ext p
    · simp [mergeActs]
    · simp only [mergeActs, Bool.false_eq_true, if_false, List.foldl_cons, List.foldl_nil, Cell.act_release,
        Cell.act_take, Set.mem_insert_iff, Set.mem_sdiff, Set.mem_singleton_iff]
      tauto

theorem splitActs_idem (source newId : UUID) (i : Ident) (c : Cell UUID) :
    (splitActs source newId i).foldl Cell.act ((splitActs source newId i).foldl Cell.act c) =
      (splitActs source newId i).foldl Cell.act c := by
  by_cases hi : Named i
  · ext p
    · simp [splitActs, hi]
    · simp only [splitActs, hi, if_true, List.foldl_cons, List.foldl_nil, Cell.act_release, Cell.act_take,
        Set.mem_insert_iff, Set.mem_sdiff, Set.mem_singleton_iff]
      tauto
  · simp [splitActs, hi]

/-- The moves of a merge: the same acts on every identity of the mergee. -/
theorem merge_moves {keeper mergee : UUID} {ids : List Ident} {kept : Ident → Bool}
    (hids : ∀ i ∈ ids, Named i) : (mergeDeeds keeper mergee ids kept).flatMap Deed.moves =
      ids.flatMap fun i => (mergeActs keeper mergee (kept i)).map fun a => (i, a) := by
  rw [mergeDeeds, List.flatMap_append, List.flatMap_assoc, List.flatMap_singleton, Deed.moves,
    List.append_nil]
  refine List.flatMap_congr fun i hi => ?_
  cases hk : kept i with
  | true => simp [Deed.moves, mergeActs]
  | false => simp [Deed.moves, mergeActs, hids i hi]

theorem merge_live (keeper mergee : UUID) (ids : List Ident) (kept : Ident → Bool) (v : Standing) :
    (v.afterAll (mergeDeeds keeper mergee ids kept)).live = v.live \ {mergee} := by
  have hsame : (ids.flatMap fun i => Deed.unlink mergee i ::
      if kept i then [] else [Deed.link keeper i]).foldl Deed.lives v.live = v.live := by
    refine Standing.lives_of_moves fun d hd => ?_
    obtain ⟨i, -, hd⟩ := List.mem_flatMap.mp hd
    rcases List.mem_cons.mp hd with rfl | hd
    · exact ⟨_, _, .inr rfl⟩
    · split at hd
      · cases hd
      · exact ⟨_, _, .inl (List.mem_singleton.mp hd)⟩
  rw [Standing.afterAll_live, mergeDeeds, List.foldl_append, hsame]
  rfl

/-- What a proposal of the seed and the unlink after it do to the seed. -/
def seedActs (source newId : UUID) (seed : Ident) : List (Act UUID) :=
  if Named seed then [.take newId, .release source] else [.release source]

/-- The moves of a split: those on the seed, and the same acts on every identity after it. -/
theorem split_moves (source newId : UUID) (seed : Ident) (rest : List Ident) :
    (splitDeeds source newId seed rest).flatMap Deed.moves =
      (seedActs source newId seed).map (fun a => (seed, a)) ++
        rest.flatMap fun i => (splitActs source newId i).map fun a => (i, a) := by
  have hrest : (rest.flatMap fun i => [Deed.unlink source i, .link newId i]).flatMap Deed.moves =
      rest.flatMap fun i => (splitActs source newId i).map fun a => (i, a) := by
    rw [List.flatMap_assoc]
    rfl
  rw [splitDeeds, List.flatMap_cons, List.flatMap_cons, hrest, ← List.append_assoc]
  by_cases hs : Named seed
  · simp [Deed.moves, seedActs, hs]
  · simp [Deed.moves, seedActs, hs]

theorem split_live (source newId : UUID) (seed : Ident) (rest : List Ident) (v : Standing) :
    (v.afterAll (splitDeeds source newId seed rest)).live = insert newId v.live := by
  have hsame : ∀ live, (rest.flatMap fun i => [Deed.unlink source i, .link newId i]).foldl Deed.lives
      live = live := by
    refine fun live => Standing.lives_of_moves fun d hd => ?_
    obtain ⟨i, -, hd⟩ := List.mem_flatMap.mp hd
    simp only [List.mem_cons, List.not_mem_nil, or_false] at hd
    rcases hd with rfl | rfl
    · exact ⟨_, _, .inr rfl⟩
    · exact ⟨_, _, .inl rfl⟩
  rw [Standing.afterAll_live, splitDeeds, List.foldl_cons, List.foldl_cons, hsame]
  rfl

section
variable {keeper mergee source newId : UUID} {ids rest : List Ident} {kept : Ident → Bool}
  {seed i : Ident} (v : Standing)

theorem merge_mem (hids : ∀ i ∈ ids, Named i) (hi : i ∈ ids) :
    (v.afterAll (mergeDeeds keeper mergee ids kept)).holding i =
      (mergeActs keeper mergee (kept i)).foldl Cell.act (v.holding i) := by
  rw [Standing.afterAll_holding, merge_moves hids]
  exact Holding.moves_each (fun i => mergeActs_idem keeper mergee (kept i)) v.holding hi

theorem merge_not_mem (hids : ∀ i ∈ ids, Named i) (hi : i ∉ ids) :
    (v.afterAll (mergeDeeds keeper mergee ids kept)).holding i = v.holding i := by
  rw [Standing.afterAll_holding, merge_moves hids]
  exact Holding.moves_each_not_mem v.holding hi

/-- A merge that goes by the accounts leaves alone what the mergee does not have. -/
theorem merge_cells (hnamed : ∀ i ∈ ids, Named i)
    (hids : ∀ i, i ∈ ids ↔ mergee ∈ (v.holding i).accounts)
    (hkept : ∀ i, kept i = true ↔ keeper ∈ (v.holding i).accounts) (i : Ident) :
    (mergee ∉ (v.holding i).accounts →
      (v.afterAll (mergeDeeds keeper mergee ids kept)).holding i = v.holding i) ∧
    (mergee ∈ (v.holding i).accounts → keeper ∈ (v.holding i).accounts →
      (v.afterAll (mergeDeeds keeper mergee ids kept)).holding i =
        (v.holding i).act (.release mergee)) ∧
    (mergee ∈ (v.holding i).accounts → keeper ∉ (v.holding i).accounts →
      (v.afterAll (mergeDeeds keeper mergee ids kept)).holding i =
        ((v.holding i).act (.release mergee)).act (.take keeper)) := by
  rw [← hids, ← hkept]
  refine ⟨merge_not_mem _ hnamed, fun hi hk => ?_, fun hi hk => ?_⟩
  · rw [merge_mem _ hnamed hi, hk]
    rfl
  · rw [merge_mem _ hnamed hi, Bool.eq_false_of_not_eq_true hk]
    rfl

/-- The seed of a split before the rest is moved. -/
def seedCell (v : Standing) (source newId : UUID) (seed i : Ident) : Cell UUID :=
  if i = seed then (seedActs source newId seed).foldl Cell.act (v.holding i) else v.holding i

theorem split_mem (hi : i ∈ rest) :
    (v.afterAll (splitDeeds source newId seed rest)).holding i =
      (splitActs source newId i).foldl Cell.act (seedCell v source newId seed i) := by
  rw [Standing.afterAll_holding, split_moves, Holding.moves_append,
    Holding.moves_each (splitActs_idem source newId) _ hi, Holding.moves_map, seedCell]

theorem split_not_mem (hi : i ∉ rest) :
    (v.afterAll (splitDeeds source newId seed rest)).holding i = seedCell v source newId seed i := by
  rw [Standing.afterAll_holding, split_moves, Holding.moves_append, Holding.moves_each_not_mem _ hi,
    Holding.moves_map, seedCell]

end

end WriteActions
