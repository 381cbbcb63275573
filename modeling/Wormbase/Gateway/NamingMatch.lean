import Wormbase.Lib.EditDistance
import Wormbase.Py.Float
import Mathlib.Data.Int.Notation

/-! `NamingHeuristicStrategy`: how alike the names of two columns are. -/

namespace Lineage
open Py

/-! ### `_edit_distance` -/

section
variable {α : Type} [DecidableEq α]

/-- The rest of `curr` behind the cell `left`, from the cells of `prev` from there on, and the row minimum. -/
def fillRow (cb : α) : List α → List ℕ → ℕ → ℕ → List ℕ × ℕ
  | ca :: a, diagonal :: above :: prev, left, rowMin =>
    let cost := if ca = cb then 0 else 1
    let cell := min (min (above + 1) (left + 1)) (diagonal + cost)
    let rest := fillRow cb a (above :: prev) cell (if cell < rowMin then cell else rowMin)
    (cell :: rest.1, rest.2)
  | _, _, _, rowMin => ([], rowMin)

/-- The rows from the `i`th on, as far as a row has a cell below the cap. -/
def fillRows (a : List α) (cap : ℤ) : ℕ → List α → List ℕ → ℤ
  | _, [], prev => prev.getD a.length 0
  | i, cb :: b, prev =>
    let rest := fillRow cb a prev i i
    if cap ≤ rest.2 then cap else fillRows a cap (i + 1) b (i :: rest.1)

/-- The table, where `a` is no longer than `b`. -/
def fillTable (a b : List α) (cap : ℤ) : ℤ := fillRows a cap 1 b (List.range (a.length + 1))

/-- `_edit_distance`. -/
def editDistance (a b : List α) (cap : ℤ) : ℤ :=
  if a = b then 0
  else if cap ≤ |(a.length : ℤ) - b.length| then cap
  else if b.length < a.length then fillTable b a cap
  else fillTable a b cap

end

/-! ### `NamingHeuristicStrategy._score` -/

inductive NameMatch where
  | exact | editDistance | substring
  deriving DecidableEq

def NameMatch.tag : NameMatch → String
  | exact => "exact"
  | editDistance => "edit_distance"
  | substring => "substring"

/-- The double that a decimal literal is read as. -/
def literal (q : ℚ) : PyFloat := .finite false ((PyFloat.toDouble q).getD 0)

def NameMatch.confidence : NameMatch → PyFloat
  | exact => literal (85 / 100)
  | editDistance => literal (7 / 10)
  | substring => literal (6 / 10)

structure NamingHeuristicStrategy where
  stopList : List String
  editDistanceMax : ℤ
  minSharedPrefix : ℤ

namespace NamingHeuristicStrategy
variable (s : NamingHeuristicStrategy)

def long (src tgt : String) : Bool := s.minSharedPrefix ≤ src.length ∧ s.minSharedPrefix ≤ tgt.length

def stopped (src tgt : String) : Bool := src ∈ s.stopList ∨ tgt ∈ s.stopList

def affix (src tgt : String) : Bool :=
  tgt.toList <:+ src.toList ∨ src.toList <:+ tgt.toList ∨ tgt.toList <+: src.toList ∨ src.toList <+: tgt.toList

/-- `_score` of two lowercased names; `none` is the confidence 0. -/
def score (src tgt : String) : Option NameMatch :=
  if src = tgt then if src ∈ s.stopList then none else some .exact
  else if s.long src tgt ∧ editDistance src.toList tgt.toList (s.editDistanceMax + 1) ≤ s.editDistanceMax ∧
      !s.stopped src tgt then some .editDistance
  else if s.long src tgt ∧ affix src tgt ∧ !s.stopped src tgt then some .substring
  else none

end NamingHeuristicStrategy

/-! ### The table -/

section
variable {α : Type} {v : List α} {cb : α}

/-- The distances of what has been read of `b` to the prefixes of `a` from one on, both read from the back. -/
noncomputable def row (v : List α) : List α → List α → List ℕ
  | u, [] => [levenshtein u v]
  | u, x :: rest => levenshtein u v :: row v (x :: u) rest

theorem row_nil : ∀ u rest : List α, row [] u rest = List.range' u.length (rest.length + 1)
  | u, [] => by rw [row, levenshtein_nil_right]; rfl
  | u, x :: rest => by
    rw [row, row_nil (x :: u) rest, levenshtein_nil_right, List.length_cons, List.length_cons, ← List.range'_succ]

theorem getD_row : ∀ u rest : List α, (row v u rest).getD rest.length 0 = levenshtein (rest.reverse ++ u) v
  | u, [] => rfl
  | u, x :: rest => by
    rw [row, List.length_cons, List.getD_cons_succ, getD_row (x :: u) rest, List.reverse_cons, List.append_assoc]
    rfl

theorem mem_row : ∀ {u rest w : List α}, u <:+ w → w <:+ rest.reverse ++ u → levenshtein w v ∈ row v u rest
  | u, [], w, hu, hw => by
    obtain rfl : u = w := hu.eq_of_length_le hw.length_le
    exact List.mem_singleton.mpr rfl
  | u, x :: rest, w, hu, hw => by
    rw [List.reverse_cons, List.append_assoc] at hw
    by_cases heq : u = w
    · subst heq
      exact List.mem_cons_self
    · have hsuffix : x :: u <:+ rest.reverse ++ ([x] ++ u) := List.suffix_append _ _
      have hlt : u.length < w.length := lt_of_le_of_ne hu.length_le fun hlength => heq (hu.eq_of_length hlength)
      exact List.mem_cons_of_mem _ (mem_row (List.suffix_of_suffix_length_le hsuffix hw hlt) hw)

theorem row_eq_cons (v u rest : List α) : ∃ cells, row v u rest = levenshtein u v :: cells := by
  cases rest with
  | nil => exact ⟨[], rfl⟩
  | cons x rest => exact ⟨_, rfl⟩

variable [DecidableEq α]

/-- A row is filled with the distances of one more character of `b`. -/
theorem fillRow_cells : ∀ (u rest : List α) (rowMin : ℕ), levenshtein u (cb :: v) ::
    (fillRow cb rest (row v u rest) (levenshtein u (cb :: v)) rowMin).1 = row (cb :: v) u rest
  | u, [], _ => rfl
  | u, x :: rest, rowMin => by
    obtain ⟨cells, hcells⟩ := row_eq_cons v (x :: u) rest
    have hcell := levenshtein_cons x cb u v
    rw [min_comm (levenshtein u (cb :: v) + 1)] at hcell
    rw [row, row, hcells, fillRow, ← hcell, ← hcells]
    exact congrArg (List.cons _) (fillRow_cells (x :: u) rest _)

/-- The row minimum is one. -/
theorem fillRow_min (cb : α) (a : List α) (prev : List ℕ) (left rowMin : ℕ) :
    (fillRow cb a prev left rowMin).2 ≤ rowMin ∧
      ∀ cell ∈ (fillRow cb a prev left rowMin).1, (fillRow cb a prev left rowMin).2 ≤ cell := by
  induction a generalizing prev left rowMin with
  | nil => exact ⟨le_rfl, fun _ h => nomatch h⟩
  | cons x a ih =>
    rcases prev with _ | ⟨diagonal, _ | ⟨above, prev⟩⟩
    · exact ⟨le_rfl, fun _ h => nomatch h⟩
    · exact ⟨le_rfl, fun _ h => nomatch h⟩
    · rw [fillRow]
      generalize min (min (above + 1) (left + 1)) (diagonal + if x = cb then 0 else 1) = cell
      obtain ⟨hmin, hcells⟩ := ih (above :: prev) cell (if cell < rowMin then cell else rowMin)
      have hboth : (if cell < rowMin then cell else rowMin) ≤ rowMin ∧
          (if cell < rowMin then cell else rowMin) ≤ cell := by
        split <;> omega
      exact ⟨hmin.trans hboth.1, List.forall_mem_cons.mpr ⟨hmin.trans hboth.2, hcells⟩⟩

/-- A result that is the distance, or the cap where the distance is not below it. -/
def Capped (cap : ℤ) (distance : ℕ) (result : ℤ) : Prop := result = distance ∨ cap ≤ distance ∧ result = cap

theorem fillRows_capped (a : List α) (cap : ℤ) : ∀ b v : List α,
    Capped cap (levenshtein a.reverse (b.reverse ++ v)) (fillRows a cap (v.length + 1) b (row v [] a))
  | [], v => by
    rw [fillRows, getD_row, List.append_nil]
    exact .inl rfl
  | cb :: b, v => by
    have hleft : v.length + 1 = levenshtein [] (cb :: v) := by rw [levenshtein_nil_left, List.length_cons]
    have hcells := @fillRow_cells α v cb _ [] a (v.length + 1)
    obtain ⟨hmin, hall⟩ := fillRow_min cb a (row v [] a) (v.length + 1) (v.length + 1)
    rw [← hleft] at hcells
    rw [List.reverse_cons, List.append_assoc, List.singleton_append, fillRows]
    split
    · rename_i hcap
      obtain ⟨u, hu, hle⟩ := exists_suffix_levenshtein_le a.reverse b.reverse (cb :: v)
      have hmem : levenshtein u (cb :: v) ∈ row (cb :: v) [] a :=
        mem_row List.nil_suffix (by rwa [List.append_nil])
      rw [← hcells] at hmem
      have hrow : (fillRow cb a (row v [] a) (v.length + 1) (v.length + 1)).2 ≤ levenshtein u (cb :: v) :=
        List.forall_mem_cons.mpr ⟨hmin, hall⟩ _ hmem
      exact .inr ⟨by omega, rfl⟩
    · rw [hcells]
      exact fillRows_capped a cap b (cb :: v)

theorem editDistance_eq (a b : List α) (cap : ℤ) : Capped cap (levenshtein a b) (editDistance a b cap) := by
  have hfill : ∀ a b : List α, Capped cap (levenshtein a b) (fillTable a b cap) := by
    intro a b
    have h := fillRows_capped a cap b []
    rwa [List.append_nil, levenshtein_reverse, row_nil, List.length_nil, ← List.range_eq_range',
      ← fillTable.eq_def] at h
  rw [editDistance]
  split
  · rename_i heq
    exact .inl (by rw [heq, levenshtein_self]; rfl)
  · split
    · rename_i hcap
      have hshort := length_le_levenshtein a b
      have hlong := length_le_levenshtein b a
      rw [levenshtein_comm b a] at hlong
      have habs : |(a.length : ℤ) - b.length| ≤ levenshtein a b := abs_le.mpr ⟨by omega, by omega⟩
      exact .inr ⟨hcap.trans habs, rfl⟩
    · split
      · rw [levenshtein_comm]
        exact hfill b a
      · exact hfill a b

/-- The distance below the cap, and the cap at least from there on, so the test of the heuristic is exact. -/
theorem editDistance_levenshtein (a b : List α) (cap : ℤ) :
    (levenshtein a b < cap → editDistance a b cap = levenshtein a b) ∧
    (cap ≤ levenshtein a b → cap ≤ editDistance a b cap) ∧
    (editDistance a b cap ≤ cap - 1 ↔ (levenshtein a b : ℤ) ≤ cap - 1) := by
  rcases editDistance_eq a b cap with h | ⟨hle, h⟩
  · omega
  · omega

end

/-- Names match by their distance when it is within the bound, both are long enough and neither is common. -/
theorem score_editDistance (s : NamingHeuristicStrategy) (src tgt : String) :
    s.score src tgt = some .editDistance ↔ src ≠ tgt ∧ s.long src tgt = true ∧
      (levenshtein src.toList tgt.toList : ℤ) ≤ s.editDistanceMax ∧ s.stopped src tgt = false := by
  have hcap := editDistance_eq src.toList tgt.toList (s.editDistanceMax + 1)
  have htest : editDistance src.toList tgt.toList (s.editDistanceMax + 1) ≤ s.editDistanceMax ↔
      (levenshtein src.toList tgt.toList : ℤ) ≤ s.editDistanceMax := by
    rcases hcap with h | ⟨hle, h⟩ <;> omega
  simp only [NamingHeuristicStrategy.score, htest]
  split
  · rename_i heq
    split <;> simp [heq]
  · rename_i hne
    split
    · simp_all
    · split <;> simp_all

end Lineage
