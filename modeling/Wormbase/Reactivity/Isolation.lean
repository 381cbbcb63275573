import Wormbase.Reactivity.Budget

/-! What a failing reactivity costs the others in a dispatch.

    A raise of its predicate, its condition or its fire is caught, and it has stored nothing by then. A
    raise of its bookkeeping ends the dispatch. -/

namespace Reactivity.Registry
open Py

section
variable (py : Interp) (company : UUID) (entry : Dict) (s : Stores)

/-- The predicate and the condition hold and the action runs. -/
def Turn.Fires (t : Turn) : Prop :=
  t.active = true ∧ ∃ noveltyKey n r, t.predicate s = .ok (true, noveltyKey) ∧
    t.condition.allows py company entry s ⟨t.id, noveltyKey, t.now⟩ 0 = .ok (true, n) ∧
      t.fire s = .ok r ∧ r.fired = true

/-- The args or the seq of the entry cannot be read, or the write raises. -/
def Turn.BooksRaise (t : Turn) : Prop :=
  (∃ x, entryKey py company entry .owner = .error x) ∨
    (∃ x, entryKey py company entry .domain = .error x) ∨
      (∃ x, sourceSeq entry = .error x) ∨ ∃ x, t.write = .error x

/-- The bookkeeping of one of the reactivities raised. -/
def Aborted (ts : List Turn) : Prop := ∃ p ∈ (dispatch py company entry s ts).1, p.2 = .fireLost

/-- A step that was done for the reactivity raised. -/
def Failed (ts : List Turn) (f : Turn) : Prop :=
  (f.id, .raised) ∈ (dispatch py company entry s ts).1 ∨
    (f.id, .fireLost) ∈ (dispatch py company entry s ts).1

/-- The ids whose action ran. -/
def actedIds (trace : List (String × Outcome)) : List String :=
  (trace.filter fun p => p.2.acted).map Prod.fst

/-- Whenever one of the reactivities fails, all other active ones are evaluated, and those of them that
    fire are the same as without it. -/
def Isolates (ts : List Turn) : Prop :=
  ∀ pre f post, ts = pre ++ f :: post → Failed py company entry s ts f →
    (∀ t ∈ pre ++ post, t.active = true →
      ∃ o, (t.id, o) ∈ (dispatch py company entry s ts).1 ∧ o ≠ .inactive) ∧
    (actedIds (dispatch py company entry s ts).1).filter (· ≠ f.id) =
      actedIds (dispatch py company entry s (pre ++ post)).1

/-- A reactivity that is reached and fires, but whose bookkeeping raises, has no active one behind
    it. -/
def RaisesLast (ts : List Turn) : Prop :=
  ∀ pre f post, ts = pre ++ f :: post → ¬Aborted py company entry s pre →
    f.Fires py company entry (dispatch py company entry s pre).2 → f.BooksRaise py company entry →
      ∀ u ∈ post, u.active = false

end

section
variable {py : Interp} {company : UUID} {entry : Dict} {s : Stores}

/-! ### One turn -/

theorem Ran.outcome_inactive {t : Turn} {done : Outcome × Stores} (h : Ran py company entry s t done) :
    done.1 = .inactive ↔ t.active = false := by
  cases h with
  | idle o hidle hactive => exact hactive
  | fire noveltyKey n r hactive hpredicate hallows hfire hfired =>
    refine iff_of_false (fun h => ?_) (by simp [hactive])
    simp only at h
    generalize (onFire py company entry s t r).1 = done at h
    cases done <;> cases h

/-- Nothing is stored for a reactivity that raised. -/
theorem Ran.stores_eq {t : Turn} {done : Outcome × Stores} (h : Ran py company entry s t done)
    (hidle : done.1.acted = false) : done.2 = s := by
  cases h with
  | idle o _ _ => rfl
  | fire noveltyKey n r hactive hpredicate hallows hfire hfired =>
    simp only at hidle
    generalize (onFire py company entry s t r).1 = books at hidle
    cases books <;> cases hidle

theorem onFire_error_iff {t : Turn} {r : Result} :
    (∃ x, (onFire py company entry s t r).1 = .error x) ↔ t.BooksRaise py company entry := by
  unfold onFire Turn.BooksRaise
  cases howner : entryKey py company entry .owner with
  | error x => simp
  | ok owner =>
    cases hdomain : entryKey py company entry .domain with
    | error x => simp
    | ok domain =>
      simp only
      cases hseq : sourceSeq entry with
      | error x => simp
      | ok seq => simp

/-- A fire is lost exactly when its bookkeeping raises. -/
theorem run_fireLost_iff {t : Turn} : (t.run py company entry s).1 = .fireLost ↔
    t.Fires py company entry s ∧ t.BooksRaise py company entry := by
  have hran := ran py company entry s t
  constructor
  · intro hlost
    generalize t.run py company entry s = done at hran hlost
    cases hran with
    | idle o hidle hactive =>
      obtain rfl : o = .fireLost := hlost
      cases hidle
    | fire noveltyKey n r hactive hpredicate hallows hfire hfired =>
      refine ⟨⟨hactive, noveltyKey, n, r, hpredicate, hallows, hfire, hfired⟩, ?_⟩
      refine (onFire_error_iff (s := s) (r := r)).mp ?_
      cases hbooks : (onFire py company entry s t r).1 with
      | ok u =>
        simp only [hbooks] at hlost
        cases hlost
      | error x => exact ⟨x, rfl⟩
  · rintro ⟨⟨hactive, noveltyKey, n, r, hpredicate, hallows, hfire, hfired⟩, hraise⟩
    obtain ⟨x, hx⟩ := (@onFire_error_iff py company entry s t r).mpr hraise
    unfold Turn.run
    simp only [hactive, Bool.not_true, Bool.false_eq_true, if_false, hpredicate, hallows, hfire, hfired]
    generalize onFire py company entry s t r = books at hx ⊢
    obtain ⟨done, stores⟩ := books
    obtain rfl : done = .error x := hx
    rfl

/-! ### The loop -/

theorem dispatch_cons_lost {t : Turn} {ts : List Turn} (h : (t.run py company entry s).1 = .fireLost) :
    dispatch py company entry s (t :: ts) = ([(t.id, .fireLost)], (t.run py company entry s).2) := by
  rw [dispatch]
  simp only [h, if_true]

theorem dispatch_cons {t : Turn} {ts : List Turn} (h : (t.run py company entry s).1 ≠ .fireLost) :
    dispatch py company entry s (t :: ts) =
      ((t.id, (t.run py company entry s).1) ::
        (dispatch py company entry (t.run py company entry s).2 ts).1,
        (dispatch py company entry (t.run py company entry s).2 ts).2) := by
  rw [dispatch]
  simp only [h, if_false]

/-- The bindings behind are reached when no fire before was lost. -/
theorem dispatch_append : ∀ {pre post : List Turn} {s : Stores}, ¬Aborted py company entry s pre →
    dispatch py company entry s (pre ++ post) =
      ((dispatch py company entry s pre).1 ++
        (dispatch py company entry (dispatch py company entry s pre).2 post).1,
        (dispatch py company entry (dispatch py company entry s pre).2 post).2)
  | [], _, _, _ => rfl
  | t :: pre, post, s, h => by
    by_cases hlost : (t.run py company entry s).1 = .fireLost
    · rw [Aborted, dispatch_cons_lost hlost] at h
      exact absurd ⟨_, List.mem_singleton_self _, rfl⟩ h
    · have hpre : ¬Aborted py company entry (t.run py company entry s).2 pre := by
        rintro ⟨p, hp, hp'⟩
        rw [Aborted, dispatch_cons hlost] at h
        exact h ⟨p, List.mem_cons_of_mem _ hp, hp'⟩
      rw [List.cons_append, dispatch_cons hlost, dispatch_cons hlost, dispatch_append hpre]
      rfl

/-- A dispatch that is aborted ends at the first fire that is lost. -/
theorem exists_lost : ∀ {ts : List Turn} {s : Stores}, Aborted py company entry s ts →
    ∃ pre f post, ts = pre ++ f :: post ∧ ¬Aborted py company entry s pre ∧
      (f.run py company entry (dispatch py company entry s pre).2).1 = .fireLost
  | [], _, ⟨_, hp, _⟩ => absurd hp List.not_mem_nil
  | t :: ts, s, h => by
    by_cases hlost : (t.run py company entry s).1 = .fireLost
    · exact ⟨[], t, ts, rfl, fun ⟨_, hp, _⟩ => absurd hp List.not_mem_nil, hlost⟩
    · have hrest : Aborted py company entry (t.run py company entry s).2 ts := by
        rw [Aborted, dispatch_cons hlost] at h
        obtain ⟨p, hp, hp'⟩ := h
        rcases List.mem_cons.mp hp with rfl | hp
        · exact absurd hp' hlost
        · exact ⟨p, hp, hp'⟩
      obtain ⟨pre, f, post, rfl, hpre, hf⟩ := exists_lost hrest
      refine ⟨t :: pre, f, post, rfl, ?_, ?_⟩
      · rintro ⟨p, hp, hp'⟩
        rw [dispatch_cons hlost] at hp
        rcases List.mem_cons.mp hp with rfl | hp
        · exact hlost hp'
        · exact hpre ⟨p, hp, hp'⟩
      · rw [dispatch_cons hlost]
        exact hf

/-- The trace has the ids of bindings. -/
theorem id_mem_of_trace : ∀ {ts : List Turn} {s : Stores} {p : String × Outcome},
    p ∈ (dispatch py company entry s ts).1 → ∃ t ∈ ts, t.id = p.1
  | [], _, _, hp => absurd hp List.not_mem_nil
  | t :: ts, s, p, hp => by
    by_cases hlost : (t.run py company entry s).1 = .fireLost
    · rw [dispatch_cons_lost hlost, List.mem_singleton] at hp
      exact ⟨t, List.mem_cons_self, by rw [hp]⟩
    · rw [dispatch_cons hlost] at hp
      rcases List.mem_cons.mp hp with rfl | hp
      · exact ⟨t, List.mem_cons_self, rfl⟩
      · obtain ⟨u, hu, hid⟩ := id_mem_of_trace hp
        exact ⟨u, List.mem_cons_of_mem _ hu, hid⟩

/-- Where no fire is lost, every binding is in the trace, and an active one was evaluated. -/
theorem evaluated : ∀ {ts : List Turn} {s : Stores}, ¬Aborted py company entry s ts → ∀ t ∈ ts,
    t.active = true → ∃ o, (t.id, o) ∈ (dispatch py company entry s ts).1 ∧ o ≠ .inactive
  | [], _, _ => fun t ht => absurd ht List.not_mem_nil
  | u :: ts, s, h => by
    by_cases hlost : (u.run py company entry s).1 = .fireLost
    · rw [Aborted, dispatch_cons_lost hlost] at h
      exact absurd ⟨_, List.mem_singleton_self _, rfl⟩ h
    · have hrest : ¬Aborted py company entry (u.run py company entry s).2 ts := by
        rintro ⟨p, hp, hp'⟩
        rw [Aborted, dispatch_cons hlost] at h
        exact h ⟨p, List.mem_cons_of_mem _ hp, hp'⟩
      rw [dispatch_cons hlost]
      intro t ht hactive
      rcases List.mem_cons.mp ht with rfl | ht
      · refine ⟨_, List.mem_cons_self, fun hin => ?_⟩
        have := (ran py company entry s t).outcome_inactive.mp hin
        rw [hactive] at this
        cases this
      · obtain ⟨o, ho, hne⟩ := evaluated hrest t ht hactive
        exact ⟨o, List.mem_cons_of_mem _ ho, hne⟩

/-- What an aborted dispatch does not depend on. -/
theorem dispatch_append_aborted : ∀ {pre post : List Turn} {s : Stores}, Aborted py company entry s pre →
    dispatch py company entry s (pre ++ post) = dispatch py company entry s pre
  | [], _, _, ⟨_, hp, _⟩ => absurd hp List.not_mem_nil
  | t :: pre, post, s, h => by
    by_cases hlost : (t.run py company entry s).1 = .fireLost
    · rw [List.cons_append, dispatch_cons_lost hlost, dispatch_cons_lost hlost]
    · have hpre : Aborted py company entry (t.run py company entry s).2 pre := by
        rw [Aborted, dispatch_cons hlost] at h
        obtain ⟨p, hp, hp'⟩ := h
        rcases List.mem_cons.mp hp with rfl | hp
        · exact absurd hp' hlost
        · exact ⟨p, hp, hp'⟩
      rw [List.cons_append, dispatch_cons hlost, dispatch_cons hlost, dispatch_append_aborted hpre]

/-- Bindings that are not active leave no action and no store behind. -/
theorem dispatch_inactive : ∀ {ts : List Turn}, (∀ t ∈ ts, t.active = false) →
    actedIds (dispatch py company entry s ts).1 = []
  | [], _ => rfl
  | t :: ts, h => by
    obtain ⟨ht, hts⟩ := List.forall_mem_cons.mp h
    have hrun : t.run py company entry s = (.inactive, s) := by simp [Turn.run, ht]
    rw [dispatch_cons (by simp [hrun]), hrun]
    simpa [actedIds, Outcome.acted] using dispatch_inactive hts

theorem actedIds_append (trace trace' : List (String × Outcome)) :
    actedIds (trace ++ trace') = actedIds trace ++ actedIds trace' := by
  simp [actedIds]

/-- The ids of a trace that no binding has are none of its. -/
theorem filter_actedIds {ts : List Turn} {id : String} (h : ∀ t ∈ ts, t.id ≠ id) :
    (actedIds (dispatch py company entry s ts).1).filter (· ≠ id) =
      actedIds (dispatch py company entry s ts).1 := by
  refine List.filter_eq_self.mpr fun id' hid' => ?_
  obtain ⟨p, hp, rfl⟩ := List.mem_map.mp hid'
  obtain ⟨t, ht, htid⟩ := id_mem_of_trace (List.mem_filter.mp hp).1
  exact decide_eq_true (htid ▸ h t ht)

theorem evaluated_of_raisesLast {ts : List Turn} (h : RaisesLast py company entry s ts) : ∀ t ∈ ts,
    t.active = true → ∃ o, (t.id, o) ∈ (dispatch py company entry s ts).1 ∧ o ≠ .inactive := by
  by_cases habort : Aborted py company entry s ts
  · obtain ⟨pre, f, post, rfl, hpre, hlost⟩ := exists_lost habort
    obtain ⟨hfires, hraise⟩ := run_fireLost_iff.mp hlost
    have hpost := h pre f post rfl hpre hfires hraise
    intro t ht hactive
    rw [dispatch_append hpre, dispatch_cons_lost hlost]
    rcases List.mem_append.mp ht with ht | ht
    · obtain ⟨o, ho, hne⟩ := evaluated hpre t ht hactive
      exact ⟨o, List.mem_append_left _ ho, hne⟩
    · rcases List.mem_cons.mp ht with rfl | ht
      · exact ⟨.fireLost, by simp, by simp⟩
      · rw [hpost t ht] at hactive
        cases hactive
  · exact evaluated habort

end

/-- For every entry and all stores, the reactivities of a registry are isolated from each other exactly
    if none that fires and cannot be booked has an active one behind it. -/
theorem isolates_iff (py : Interp) (company : UUID) (entry : Dict) (s : Stores) (ts : List Turn)
    (hids : (ts.map Turn.id).Nodup) :
    Isolates py company entry s ts ↔ RaisesLast py company entry s ts := by
  constructor
  · rintro hisolates pre f post rfl hpre hfires hraise u hu
    by_contra hactive
    have hlost := run_fireLost_iff.mpr ⟨hfires, hraise⟩
    have hdispatch := @dispatch_append py company entry pre (f :: post) s hpre
    rw [dispatch_cons_lost hlost] at hdispatch
    have hfailed : Failed py company entry s (pre ++ f :: post) f := by
      rw [Failed, hdispatch]
      simp
    obtain ⟨o, ho, -⟩ := (hisolates pre f post rfl hfailed).1 u (List.mem_append_right _ hu)
      (Bool.not_eq_false _ ▸ hactive)
    rw [List.map_append, List.map_cons, List.nodup_append, List.nodup_cons] at hids
    obtain ⟨-, ⟨hf, -⟩, hne⟩ := hids
    -- the id of `u` is neither one before `f` nor that of `f`
    rw [hdispatch] at ho
    rcases List.mem_append.mp ho with ho | ho
    · obtain ⟨t, ht, htid⟩ := id_mem_of_trace ho
      exact hne _ (List.mem_map_of_mem ht) _ (List.mem_cons_of_mem _ (List.mem_map_of_mem hu)) htid
    · obtain ⟨huf, -⟩ := Prod.mk.inj (List.mem_singleton.mp ho)
      exact hf (huf ▸ List.mem_map_of_mem hu)
  · rintro hlast pre f post rfl hfailed
    refine ⟨fun t ht => evaluated_of_raisesLast hlast t ?_, ?_⟩
    · rcases List.mem_append.mp ht with ht | ht
      · exact List.mem_append_left _ ht
      · exact List.mem_append_right _ (List.mem_cons_of_mem _ ht)
    · rw [List.map_append, List.map_cons, List.nodup_append, List.nodup_cons] at hids
      obtain ⟨-, ⟨hfpost, -⟩, hne⟩ := hids
      have hbefore : ∀ t ∈ pre, t.id ≠ f.id := fun t ht =>
        hne _ (List.mem_map_of_mem ht) _ List.mem_cons_self
      have hbehind : ∀ t ∈ post, t.id ≠ f.id := fun t ht hid =>
        hfpost (hid ▸ List.mem_map_of_mem ht)
      have hpre : ¬Aborted py company entry s pre := by
        intro habort
        rw [Failed, dispatch_append_aborted habort] at hfailed
        obtain ⟨o, ho⟩ : ∃ o, (f.id, o) ∈ (dispatch py company entry s pre).1 := by
          rcases hfailed with h | h
          · exact ⟨_, h⟩
          · exact ⟨_, h⟩
        obtain ⟨t, ht, hid⟩ := id_mem_of_trace ho
        exact hbefore t ht hid
      have hdispatch := fun post => @dispatch_append py company entry pre post s hpre
      have hnotin : ∀ {us : List Turn} {stores : Stores} {o : Outcome}, (∀ t ∈ us, t.id ≠ f.id) →
          (f.id, o) ∉ (dispatch py company entry stores us).1 := by
        intro us stores o hus ho
        obtain ⟨t, ht, hid⟩ := id_mem_of_trace ho
        exact hus t ht hid
      rw [hdispatch (f :: post), hdispatch post, actedIds_append, actedIds_append, List.filter_append,
        filter_actedIds hbefore]
      refine congrArg _ ?_
      by_cases hlost : (f.run py company entry (dispatch py company entry s pre).2).1 = .fireLost
      · obtain ⟨hfires, hraise⟩ := run_fireLost_iff.mp hlost
        rw [dispatch_cons_lost hlost, dispatch_inactive (hlast pre f post rfl hpre hfires hraise)]
        simp [actedIds, Outcome.acted]
      · -- it raised where it is caught, so the others find the stores as without it
        have hraised : (f.run py company entry (dispatch py company entry s pre).2).1 = .raised := by
          rw [Failed, hdispatch (f :: post), dispatch_cons hlost] at hfailed
          simp only [List.mem_append, List.mem_cons, Prod.mk.injEq, true_and, hnotin hbefore,
            hnotin hbehind, or_false, false_or] at hfailed
          rcases hfailed with h | h
          · exact h.symm
          · exact absurd h.symm hlost
        have hstores := (ran py company entry (dispatch py company entry s pre).2 f).stores_eq
          (by rw [hraised]; rfl)
        rw [dispatch_cons hlost, hraised, hstores]
        exact filter_actedIds hbehind

/-! ### A fire whose write fails -/

/-- A reactivity that always fires, and whose fires cannot be written. -/
def unwritable : Turn :=
  { eager "first" ⟨none, none, none⟩ 0 with write := .error ⟨"OperationalError", "connection lost"⟩ }

def bystander : Turn := eager "second" ⟨none, none, none⟩ 0

/-- The other reactivity is not evaluated. -/
theorem unwritable_stops_dispatch :
    (dispatch .plain ⟨1⟩ (ownedEntry "ana") (.fresh []) [unwritable, bystander]).1 =
      [("first", .fireLost)] ∧
    ¬Isolates .plain ⟨1⟩ (ownedEntry "ana") (.fresh []) [unwritable, bystander] := by
  have htrace : (dispatch .plain ⟨1⟩ (ownedEntry "ana") (.fresh []) [unwritable, bystander]).1 =
      [("first", .fireLost)] := rfl
  refine ⟨htrace, fun hisolates => ?_⟩
  obtain ⟨heval, -⟩ := hisolates [] unwritable [bystander] rfl (.inr (htrace ▸ List.mem_singleton_self _))
  obtain ⟨o, ho, -⟩ := heval bystander (List.mem_singleton_self _) rfl
  rw [htrace, List.mem_singleton] at ho
  simp [bystander, eager] at ho

/-- Behind the others it does them no harm. -/
theorem unwritable_last_isolates :
    Isolates .plain ⟨1⟩ (ownedEntry "ana") (.fresh []) [bystander, unwritable] := by
  refine (isolates_iff .plain ⟨1⟩ (ownedEntry "ana") (.fresh []) [bystander, unwritable] (by decide)).mpr ?_
  intro pre f post hsplit hpre hfires hraise u hu
  rcases List.cons_eq_append_iff.mp hsplit with ⟨rfl, hfirst⟩ | ⟨pre, rfl, hrest⟩
  · obtain ⟨rfl, rfl⟩ := List.cons.inj hfirst
    rcases hraise with ⟨x, hx⟩ | ⟨x, hx⟩ | ⟨x, hx⟩ | ⟨x, hx⟩
    · cases hx
    · cases hx
    · cases hx
    · cases hx
  · rcases List.cons_eq_append_iff.mp hrest with ⟨rfl, hlast⟩ | ⟨pre, rfl, hnone⟩
    · obtain ⟨rfl, rfl⟩ := List.cons.inj hlast
      cases hu
    · simp at hnone

end Reactivity.Registry
