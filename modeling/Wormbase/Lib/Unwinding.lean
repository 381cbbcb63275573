import Mathlib.Data.List.Basic

/-! A system that several parties act on, as one of them sees it.

    A party sees a view of the state. When the others leave its view as it is, and its own actions do to the view what
    they do to the state, its answers are those of a system of its own. -/

namespace Unwinding
variable {σ τ α ρ : Type}

/-- The state after actions, each of which answers and may change the state. -/
def after (step : σ → α → ρ × σ) (s : σ) (acts : List α) : σ := acts.foldl (fun s a => (step s a).2) s

/-- The answers, each with its action. -/
def answers (step : σ → α → ρ × σ) : σ → List α → List (α × ρ)
  | _, [] => []
  | s, a :: acts => (a, (step s a).1) :: answers step (step s a).2 acts

/-- What one party sees. The invariant is of the state and of the actions that are still to come. -/
structure Sees (step : σ → α → ρ × σ) (stepOwn : τ → α → ρ × τ) (view : σ → τ) (mine : α → Prop)
    (Inv : σ → List α → Prop) : Prop where
  keeps : ∀ {s a acts}, Inv s (a :: acts) → Inv (step s a).2 acts
  own : ∀ {s a acts}, Inv s (a :: acts) → mine a → stepOwn (view s) a = ((step s a).1, view (step s a).2)
  others : ∀ {s a acts}, Inv s (a :: acts) → ¬mine a → view (step s a).2 = view s

namespace Sees
variable {step : σ → α → ρ × σ} {stepOwn : τ → α → ρ × τ} {view : σ → τ} {mine : α → Prop} [DecidablePred mine]
  {Inv : σ → List α → Prop}

/-- The view of a state is the state of a system that only the party acts on. -/
theorem view_after (h : Sees step stepOwn view mine Inv) {acts : List α} {s : σ} (hinv : Inv s acts) :
    view (after step s acts) = after stepOwn (view s) (acts.filter mine) := by
  induction acts generalizing s with
  | nil => rfl
  | cons a acts ih =>
    have hnext := ih (h.keeps hinv)
    by_cases ha : mine a
    · rw [List.filter_cons_of_pos (by simpa using ha)]
      simp only [after, List.foldl_cons, h.own hinv ha] at hnext ⊢
      exact hnext
    · rw [List.filter_cons_of_neg (by simpa using ha)]
      rw [h.others hinv ha] at hnext
      exact hnext

/-- The answers to the party are those of a system that only it acts on. -/
theorem own_answers (h : Sees step stepOwn view mine Inv) {acts : List α} {s : σ} (hinv : Inv s acts) :
    (answers step s acts).filter (fun p => mine p.1) = answers stepOwn (view s) (acts.filter mine) := by
  induction acts generalizing s with
  | nil => rfl
  | cons a acts ih =>
    have hnext := ih (h.keeps hinv)
    by_cases ha : mine a
    · rw [List.filter_cons_of_pos (by simpa using ha), answers, answers, List.filter_cons_of_pos (by simpa using ha),
        hnext, h.own hinv ha]
    · rw [List.filter_cons_of_neg (by simpa using ha), answers, List.filter_cons_of_neg (by simpa using ha), hnext,
        h.others hinv ha]

end Sees

end Unwinding
