import Mathlib.Data.List.Nodup
import Mathlib.Order.Nat

/-! A list that is appended to and emptied, with all it ever held.

    The log only grows and the start of the visible part only moves on, so the states of a history
    are ordered. When no element comes twice, the last element and the length of what is visible tell
    which state it is: a reader that finds both unchanged has missed nothing in between. -/

/-- All elements that were ever held, and where the visible ones start. -/
structure Window (α : Type) where
  log : List α
  start : ℕ
  start_le : start ≤ log.length

namespace Window
variable {α : Type}

def empty : Window α := ⟨[], 0, le_rfl⟩

def view (w : Window α) : List α := w.log.drop w.start

def append (w : Window α) (xs : List α) : Window α :=
  ⟨w.log ++ xs, w.start, w.start_le.trans (by simp)⟩

def clear (w : Window α) : Window α := ⟨w.log, w.log.length, le_rfl⟩

@[simp] theorem view_empty : (empty : Window α).view = [] := rfl

@[simp] theorem view_append (w : Window α) (xs : List α) : (w.append xs).view = w.view ++ xs :=
  List.drop_append_of_le_length w.start_le

@[simp] theorem view_clear (w : Window α) : w.clear.view = [] := List.drop_length

@[simp] theorem append_nil (w : Window α) : w.append [] = w := by simp [append]

theorem length_view (w : Window α) : w.view.length = w.log.length - w.start := List.length_drop

theorem mem_log_of_mem_view {w : Window α} {a : α} (h : a ∈ w.view) : a ∈ w.log :=
  List.mem_of_mem_drop h

/-- Nothing happens when nothing is visible. -/
theorem clear_of_view {w : Window α} (h : w.view = []) : w.clear = w := by
  have hlength := congrArg List.length h
  rw [length_view, List.length_nil] at hlength
  obtain ⟨log, start, hle⟩ := w
  simp only [clear, mk.injEq, true_and] at hlength ⊢
  omega

/-- The later state has the log of the earlier one and starts no earlier. -/
instance : PartialOrder (Window α) where
  le w w' := w.log <+: w'.log ∧ w.start ≤ w'.start
  le_refl w := ⟨List.prefix_rfl, le_rfl⟩
  le_trans w w' w'' h h' := ⟨h.1.trans h'.1, h.2.trans h'.2⟩
  le_antisymm w w' h h' := by
    obtain ⟨log, start, hle⟩ := w
    obtain ⟨log', start', hle'⟩ := w'
    obtain rfl := h.1.eq_of_length_le h'.1.length_le
    obtain rfl := le_antisymm h.2 h'.2
    rfl

theorem le_append (w : Window α) (xs : List α) : w ≤ w.append xs := ⟨List.prefix_append _ _, le_rfl⟩

theorem le_clear (w : Window α) : w ≤ w.clear := ⟨List.prefix_rfl, w.start_le⟩

/-- What is visible ends where the log ends. -/
theorem getLast?_view {w : Window α} (h : w.view ≠ []) : w.view.getLast? = w.log.getLast? := by
  rw [view, List.getLast?_drop, if_neg]
  have hpos := List.length_pos_of_ne_nil h
  rw [length_view] at hpos
  omega

/-- In a log without repetitions the last visible element and the number of them fix the state. -/
theorem eq_of_getLast? {w w' : Window α} (hle : w ≤ w') (hnodup : w'.log.Nodup) (hview : w.view ≠ [])
    (hlast : w.view.getLast? = w'.view.getLast?) (hlength : w.view.length = w'.view.length) :
    w = w' := by
  have hview' : w'.view ≠ [] := by
    intro h
    rw [h] at hlength
    exact hview (List.length_eq_zero_iff.mp hlength)
  rw [getLast?_view hview, getLast?_view hview'] at hlast
  -- the last element comes once in the log, so nothing was appended behind it
  have hlog : w.log = w'.log := by
    obtain ⟨hpre, -⟩ := hle
    obtain ⟨xs, hxs⟩ := hpre
    rcases List.eq_nil_or_concat xs with rfl | ⟨ys, y, rfl⟩
    · rw [← hxs, List.append_nil]
    · rw [← hxs] at hlast hnodup
      rw [List.concat_eq_append, ← List.append_assoc, List.getLast?_concat] at hlast
      have hy := List.mem_of_getLast? hlast
      exact absurd rfl ((List.nodup_append.mp hnodup).2.2 y hy y (by simp))
  have hstart : w.start = w'.start := by
    have h := w.start_le
    have h' := w'.start_le
    rw [length_view, length_view] at hlength
    rw [hlog] at hlength h
    omega
  exact le_antisymm hle ⟨hlog ▸ List.prefix_rfl, hstart ▸ le_rfl⟩

end Window
