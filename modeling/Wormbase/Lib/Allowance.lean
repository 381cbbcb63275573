import Mathlib.Data.List.Count
import Mathlib.Algebra.Order.Ring.Int

/-! An allowance for each period, kept as the list of the times that were spent.

    A request is granted while fewer times than the limit lie in its period or after it, and its own time is then spent.
    Times that others spend only make the allowance smaller. -/

namespace Allowance

inductive Event where
  | spend (times : List ℤ)
  | ask (since time : ℤ)

/-- The times from `since` on. -/
def used (since : ℤ) (spent : List ℤ) : ℕ := spent.countP (since ≤ ·)

variable (limit : ℕ)

def after (spent : List ℤ) : Event → List ℤ
  | .spend times => spent ++ times
  | .ask since time => if used since spent < limit then spent ++ [time] else spent

def run (spent : List ℤ) (events : List Event) : List ℤ := events.foldl (after limit) spent

/-- The answers to the requests, in order. -/
def answers : List ℤ → List Event → List Bool
  | _, [] => []
  | spent, .spend times :: events => answers (spent ++ times) events
  | spent, .ask since time :: events =>
    (used since spent < limit : Bool) :: answers (after limit spent (.ask since time)) events

/-- How many requests of the period from `start` on are granted. -/
def granted (start : ℤ) : List ℤ → List Event → ℕ
  | _, [] => 0
  | spent, .spend times :: events => granted start (spent ++ times) events
  | spent, .ask since time :: events =>
    (if since = start ∧ used since spent < limit then 1 else 0) +
      granted start (after limit spent (.ask since time)) events

variable {limit} {start since time : ℤ} {spent : List ℤ}

theorem used_append (spent times : List ℤ) : used since (spent ++ times) = used since spent + used since times :=
  List.countP_append

theorem run_append (events events' : List Event) :
    run limit spent (events ++ events') = run limit (run limit spent events) events' :=
  List.foldl_append

theorem answers_append : ∀ {spent : List ℤ} (events events' : List Event), answers limit spent (events ++ events') =
    answers limit spent events ++ answers limit (run limit spent events) events'
  | _, [], _ => rfl
  | spent, .spend times :: events, events' => @answers_append (spent ++ times) events events'
  | spent, .ask since time :: events, events' => by
    rw [List.cons_append, answers, answers, List.cons_append, answers_append events events']
    rfl

theorem granted_append : ∀ {spent : List ℤ} (events events' : List Event),
    granted limit start spent (events ++ events') =
      granted limit start spent events + granted limit start (run limit spent events) events'
  | _, [], _ => (Nat.zero_add _).symm
  | spent, .spend times :: events, events' => @granted_append (spent ++ times) events events'
  | spent, .ask since time :: events, events' => by
    rw [List.cons_append, granted, granted, granted_append events events', Nat.add_assoc]
    rfl

/-- No period grants more than its limit leaves, when every request of it spends a time of it. -/
theorem granted_le : ∀ {spent : List ℤ} {events : List Event},
    (∀ since time, Event.ask since time ∈ events → since ≤ time) →
      granted limit start spent events ≤ limit - used start spent
  | _, [], _ => Nat.zero_le _
  | spent, .spend times :: events, h => by
    have ih := @granted_le (spent ++ times) events fun since time hin => h since time (List.mem_cons_of_mem _ hin)
    rw [used_append] at ih
    rw [granted]
    omega
  | spent, .ask since time :: events, h => by
    have ih := @granted_le (after limit spent (.ask since time)) events fun since time hin =>
      h since time (List.mem_cons_of_mem _ hin)
    have hown := h since time List.mem_cons_self
    rw [granted]
    rw [after] at ih ⊢
    split at ih
    · rename_i hfree
      rw [used_append] at ih
      simp only [hfree, and_true, if_true] at ih ⊢
      split
      · rename_i hstart
        -- the request itself is one of its period
        have hone : used start [time] = 1 := by simp [used, ← hstart, hown]
        subst hstart
        omega
      · omega
    · rename_i hfull
      simp only [hfull, and_false, if_false] at ih ⊢
      omega

end Allowance
