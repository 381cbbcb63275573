import Mathlib.Data.List.Basic
import Mathlib.Data.Nat.Notation
import Mathlib.Order.Lattice
import Mathlib.Order.MinMax

/-! The edit distance by its table, one row after the other.

    A row knows the distances from a prefix of the first text to every prefix of the second. As prefixes
    grow at their ends, the distance of the two is the recursive one of the reversed texts, and that is
    symmetric. -/

namespace EditTable
variable {α : Type*} [DecidableEq α]

/-! ### The table -/

/-- The cells of a row after its first: `left` is the cell before, and the row above is read two at a time. -/
def cells (x : α) : List α → List ℕ → ℕ → List ℕ
  | y :: b, diagonal :: above :: prev, left =>
    let cell := min (min (left + 1) (above + 1)) (diagonal + if x = y then 0 else 1)
    cell :: cells x b (above :: prev) cell
  | _, _, _ => []

/-- Row `i` of the table, for the `i`th letter of the first text. -/
def row (b : List α) (prev : List ℕ) (i : ℕ) (x : α) : List ℕ := i :: cells x b prev i

/-- The last cell of the last row. -/
def distance (a b : List α) : ℕ :=
  ((a.zipIdx 1).foldl (fun prev p => row b prev p.2 p.1) (List.range (b.length + 1))).getLastD 0

/-! ### What it computes -/

/-- The least number of insertions, deletions and substitutions that make one text of the other. -/
def edits : List α → List α → ℕ
  | [], b => b.length
  | x :: a, [] => (x :: a).length
  | x :: a, y :: b =>
    min (min (edits (x :: a) b + 1) (edits a (y :: b) + 1)) (edits a b + if x = y then 0 else 1)

theorem edits_nil_right (a : List α) : edits a [] = a.length := by
  cases a with
  | nil => rw [edits]
  | cons x a => rw [edits]

theorem edits_comm : ∀ a b : List α, edits a b = edits b a
  | [], b => by rw [edits, edits_nil_right]
  | x :: a, [] => by rw [edits, edits]
  | x :: a, y :: b => by
    have hleft := edits_comm (x :: a) b
    have hup := edits_comm a (y :: b)
    have hdiagonal := edits_comm a b
    rw [edits, edits, hleft, hup, hdiagonal, min_comm (edits b (x :: a) + 1)]
    simp only [eq_comm]

/-- The distances of a reversed prefix of the first text to the prefixes of the second from `s` on. -/
def rowOf (r s : List α) : List α → List ℕ
  | [] => [edits r s]
  | y :: b => edits r s :: rowOf r (y :: s) b

theorem cells_rowOf (x : α) (r : List α) : ∀ b s : List α,
    edits (x :: r) s :: cells x b (rowOf r s b) (edits (x :: r) s) = rowOf (x :: r) s b
  | [], s => rfl
  | [y], s => by
    rw [rowOf, rowOf, cells, rowOf, rowOf, edits]
    rfl
  | y :: z :: b, s => by
    have ih := cells_rowOf x r (z :: b) (y :: s)
    have hcell : edits (x :: r) (y :: s) = min (min (edits (x :: r) s + 1) (edits r (y :: s) + 1))
        (edits r s + if x = y then 0 else 1) := by
      rw [edits]
    rw [rowOf, rowOf, cells, ← hcell, ← rowOf, ih]
    rfl

theorem row_rowOf (x : α) (r b : List α) : row b (rowOf r [] b) (r.length + 1) x = rowOf (x :: r) [] b := by
  rw [← cells_rowOf, edits, List.length_cons, row]

theorem rowOf_nil : ∀ b s : List α, rowOf [] s b = List.range' s.length (b.length + 1)
  | [], s => by rw [rowOf, edits]; rfl
  | y :: b, s => by
    rw [rowOf, edits, rowOf_nil b (y :: s)]
    rfl

theorem getLastD_rowOf (r : List α) : ∀ b s : List α, (rowOf r s b).getLastD 0 = edits r (b.reverse ++ s)
  | [], s => rfl
  | y :: b, s => by
    have ih := getLastD_rowOf r b (y :: s)
    rw [List.reverse_cons, List.append_assoc, List.singleton_append, ← ih, rowOf]
    cases b <;> rfl

/-- The rows from the prefix `r` on. -/
theorem rows_rowOf (b : List α) : ∀ a r : List α,
    (a.zipIdx (r.length + 1)).foldl (fun prev p => row b prev p.2 p.1) (rowOf r [] b) = rowOf (a.reverse ++ r) [] b
  | [], r => rfl
  | x :: a, r => by
    have ih := rows_rowOf b a (x :: r)
    rw [List.zipIdx_cons, List.foldl_cons, row_rowOf, List.reverse_cons, List.append_assoc, List.singleton_append]
    exact ih

theorem distance_eq (a b : List α) : distance a b = edits a.reverse b.reverse := by
  have hstart : List.range (b.length + 1) = rowOf [] [] b := by
    rw [rowOf_nil, List.range_eq_range']
    rfl
  have hrows := rows_rowOf b a []
  rw [List.length_nil, Nat.zero_add] at hrows
  rw [distance, hstart, hrows, getLastD_rowOf, List.append_nil, List.append_nil]

theorem distance_comm (a b : List α) : distance a b = distance b a := by
  rw [distance_eq, distance_eq, edits_comm]

end EditTable
