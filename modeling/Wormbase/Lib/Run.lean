import Mathlib.Data.Option.Basic

/-! Runs of a partial step function: an action that is not enabled has no next state. -/

namespace Run
variable {σ α : Type} (step : σ → α → Option σ)

/-- The state after a list of actions, when each of them is enabled at its turn. -/
def exec : σ → List α → Option σ
  | s, [] => some s
  | s, a :: as => (step s a).bind fun s' => exec s' as

/-- Every action of the list is taken in a state that allows it. -/
def Guarded (guard : σ → α → Prop) : σ → List α → Prop
  | _, [] => True
  | s, a :: as => guard s a ∧ ∀ s', step s a = some s' → Guarded guard s' as

/-- Every state of a run has the property, the first and the last included. -/
def Always (P : σ → Prop) : σ → List α → Prop
  | s, [] => P s
  | s, a :: as => P s ∧ ∀ s', step s a = some s' → Always P s' as

/-- Every step of a run has the property. -/
def EachStep (P : σ → α → σ → Prop) : σ → List α → Prop
  | _, [] => True
  | s, a :: as => ∀ s', step s a = some s' → P s a s' ∧ EachStep P s' as

variable {step} {s s' : σ}

theorem exec_cons {a : α} {as : List α} :
    exec step s (a :: as) = some s' ↔ ∃ t, step s a = some t ∧ exec step t as = some s' :=
  Option.bind_eq_some_iff

theorem exec_append : ∀ {as bs : List α} {s : σ}, exec step s (as ++ bs) = some s' ↔
    ∃ t, exec step s as = some t ∧ exec step t bs = some s'
  | [], _, _ => by simp [exec]
  | a :: as, bs, s => by
    simp only [List.cons_append, exec_cons, exec_append]
    constructor
    · rintro ⟨t, ht, u, hu, h⟩
      exact ⟨u, ⟨t, ht, hu⟩, h⟩
    · rintro ⟨u, ⟨t, ht, hu⟩, h⟩
      exact ⟨t, ht, u, hu, h⟩

/-- Where every action is enabled, every run goes through. -/
theorem exec_total (htotal : ∀ s a, ∃ s', step s a = some s') : ∀ (as : List α) (s : σ),
    ∃ s', exec step s as = some s'
  | [], s => ⟨s, rfl⟩
  | a :: as, s => by
    obtain ⟨t, ht⟩ := htotal s a
    obtain ⟨s', hs'⟩ := exec_total htotal as t
    exact ⟨s', exec_cons.mpr ⟨t, ht, hs'⟩⟩

/-- A function that goes along with the steps goes along with the runs. -/
theorem exec_map {τ : Type} {step' : τ → α → Option τ} {f : σ → τ} (hstep : ∀ s a, step' (f s) a = (step s a).map f) :
    ∀ (as : List α) (s : σ), exec step' (f s) as = (exec step s as).map f
  | [], _ => rfl
  | a :: as, s => by
    simp only [exec, hstep]
    cases step s a with
    | none => rfl
    | some t => exact exec_map hstep as t

theorem guarded_cons {guard : σ → α → Prop} {a : α} {as : List α} (ha : guard s a) (hstep : step s a = some s')
    (has : Guarded step guard s' as) : Guarded step guard s (a :: as) :=
  ⟨ha, fun _ ht => Option.some.inj (hstep.symm.trans ht) ▸ has⟩

theorem guarded_append {guard : σ → α → Prop} : ∀ {as bs : List α} {s : σ},
    Guarded step guard s (as ++ bs) ↔ Guarded step guard s as ∧
      ∀ t, exec step s as = some t → Guarded step guard t bs
  | [], _, _ => by simp [Guarded, exec]
  | a :: as, bs, s => by
    simp only [List.cons_append, Guarded, guarded_append, exec_cons]
    constructor
    · rintro ⟨ha, hall⟩
      exact ⟨⟨ha, fun t ht => (hall t ht).1⟩, fun u ⟨t, ht, hu⟩ => (hall t ht).2 u hu⟩
    · rintro ⟨⟨ha, hall⟩, hrest⟩
      exact ⟨ha, fun t ht => ⟨hall t ht, fun u hu => hrest u ⟨t, ht, hu⟩⟩⟩

theorem guarded_of_forall {guard : σ → α → Prop} : ∀ {as : List α} {s : σ},
    (∀ a ∈ as, ∀ s, guard s a) → Guarded step guard s as
  | [], _, _ => trivial
  | a :: _, s, h => ⟨h a List.mem_cons_self s, fun _ _ =>
      guarded_of_forall fun b hb => h b (List.mem_cons_of_mem a hb)⟩

theorem Guarded.and {guard guard' : σ → α → Prop} : ∀ {as : List α} {s : σ}, Guarded step guard s as →
    Guarded step guard' s as → Guarded step (fun s a => guard s a ∧ guard' s a) s as
  | [], _, _, _ => trivial
  | _ :: _, _, ⟨ha, hall⟩, ⟨ha', hall'⟩ => ⟨⟨ha, ha'⟩, fun t ht => (hall t ht).and (hall' t ht)⟩

theorem guarded_and {guard : σ → α → Prop} {kind : α → Prop} {as : List α} {s : σ} (hkind : ∀ a ∈ as, kind a)
    (h : Guarded step guard s as) : Guarded step (fun s a => kind a ∧ guard s a) s as :=
  (guarded_of_forall fun a ha _ => hkind a ha).and h

/-- What holds at the start and survives each allowed step holds at the end of a guarded run. -/
theorem guarded_invariant {guard : σ → α → Prop} {I : σ → Prop}
    (hstep : ∀ s a s', I s → guard s a → step s a = some s' → I s') :
    ∀ {as : List α} {s : σ}, I s → Guarded step guard s as → exec step s as = some s' → I s'
  | [], _, hs, _, h => Option.some.inj h ▸ hs
  | a :: as, s, hs, hg, h => by
    obtain ⟨t, ht, h⟩ := exec_cons.mp h
    exact guarded_invariant hstep (hstep s a t hs hg.1 ht) (hg.2 t ht) h

/-- What holds at the start and survives each step holds at the end of a run. -/
theorem exec_invariant {I : σ → Prop} (hstep : ∀ s a s', I s → step s a = some s' → I s') :
    ∀ {as : List α} {s : σ}, I s → exec step s as = some s' → I s'
  | [], _, hs, h => Option.some.inj h ▸ hs
  | a :: as, s, hs, h => by
    obtain ⟨t, ht, h⟩ := exec_cons.mp h
    exact exec_invariant hstep (hstep s a t hs ht) h

/-- When each step of a kind keeps a property exactly if it is allowed, the property holds all along a
    run of such steps exactly if the run is guarded. -/
theorem always_iff_guarded_of {kind guard : σ → α → Prop} {I P : σ → Prop}
    (hI : ∀ s a s', I s → kind s a → step s a = some s' → I s')
    (hP : ∀ s a s', I s → P s → kind s a → step s a = some s' → (P s' ↔ guard s a)) :
    ∀ {as : List α} {s : σ}, I s → P s → Guarded step kind s as → exec step s as = some s' →
      (Always step P s as ↔ Guarded step guard s as)
  | [], _, _, hs, _, _ => ⟨fun _ => trivial, fun _ => hs⟩
  | a :: as, s, hIs, hs, hkind, h => by
    obtain ⟨t, ht, h⟩ := exec_cons.mp h
    have hnext := hP s a t hIs hs hkind.1 ht
    have hIt := hI s a t hIs hkind.1 ht
    constructor
    · rintro ⟨-, hall⟩
      have hPt : P t := by
        have := hall t ht
        cases as with
        | nil => exact this
        | cons b bs => exact this.1
      refine ⟨hnext.mp hPt, fun u hu => ?_⟩
      obtain rfl := Option.some.inj (ht.symm.trans hu)
      exact (always_iff_guarded_of hI hP hIt hPt (hkind.2 t ht) h).mp (hall t ht)
    · rintro ⟨hg, hall⟩
      refine ⟨hs, fun u hu => ?_⟩
      obtain rfl := Option.some.inj (ht.symm.trans hu)
      exact (always_iff_guarded_of hI hP hIt (hnext.mpr hg) (hkind.2 t ht) h).mpr (hall t ht)

/-- When each step keeps a property exactly if it is allowed, the property holds all along a run
    exactly if the run is guarded. -/
theorem always_iff_guarded {guard : σ → α → Prop} {I P : σ → Prop}
    (hI : ∀ s a s', I s → step s a = some s' → I s')
    (hP : ∀ s a s', I s → P s → step s a = some s' → (P s' ↔ guard s a))
    {as : List α} {s : σ} (hIs : I s) (hs : P s) (h : exec step s as = some s') :
    Always step P s as ↔ Guarded step guard s as :=
  always_iff_guarded_of (fun s a s' hIs _ => hI s a s' hIs) (fun s a s' hIs hs _ => hP s a s' hIs hs)
    hIs hs (guarded_of_forall fun _ _ _ => trivial) h

/-- When a step has a property exactly if it is allowed, and keeps what that depends on, all steps of
    a run have it exactly if the run is guarded. -/
theorem eachStep_iff_guarded {guard : σ → α → Prop} {I J : σ → Prop} {P : σ → α → σ → Prop}
    (hI : ∀ s a s', I s → step s a = some s' → I s') (hJ : ∀ s a s', P s a s' → J s')
    (htotal : ∀ s a, ∃ s', step s a = some s')
    (hP : ∀ s a s', I s → J s → step s a = some s' → (P s a s' ↔ guard s a)) :
    ∀ {as : List α} {s : σ}, I s → J s → (EachStep step P s as ↔ Guarded step guard s as)
  | [], _, _, _ => Iff.rfl
  | a :: as, s, hIs, hJs => by
    constructor
    · intro hall
      obtain ⟨t, ht⟩ := htotal s a
      refine ⟨(hP s a t hIs hJs ht).mp (hall t ht).1, fun u hu => ?_⟩
      obtain ⟨hPu, hrest⟩ := hall u hu
      exact (eachStep_iff_guarded hI hJ htotal hP (hI s a u hIs hu) (hJ s a u hPu)).mp hrest
    · rintro ⟨hg, hall⟩ u hu
      have hPu := (hP s a u hIs hJs hu).mpr hg
      exact ⟨hPu, (eachStep_iff_guarded hI hJ htotal hP (hI s a u hIs hu) (hJ s a u hPu)).mpr
        (hall u hu)⟩

/-- What each allowed step does to a state with an invariant, which it keeps, all steps of a guarded run do. -/
theorem eachStep_of_guarded {guard : σ → α → Prop} {I : σ → Prop} {P : σ → α → σ → Prop}
    (hstep : ∀ s a s', I s → guard s a → step s a = some s' → I s' ∧ P s a s') :
    ∀ {as : List α} {s : σ}, I s → Guarded step guard s as → EachStep step P s as
  | [], _, _, _ => trivial
  | a :: _, s, hs, hg => fun t ht =>
    have hnext := hstep s a t hs hg.1 ht
    ⟨hnext.2, eachStep_of_guarded hstep hnext.1 (hg.2 t ht)⟩

/-- When a step of some kind has a property after it exactly if it had it before and is allowed, a run
    of such steps has it at its end exactly if it is guarded. -/
theorem exec_iff_guarded_of {kind : α → Prop} {guard : σ → α → Prop} {I P : σ → Prop}
    (hI : ∀ s a s', I s → kind a → step s a = some s' → I s')
    (hP : ∀ s a s', I s → kind a → step s a = some s' → (P s' ↔ P s ∧ guard s a)) :
    ∀ {as : List α} {s : σ}, I s → (∀ a ∈ as, kind a) → exec step s as = some s' →
      (P s' ↔ P s ∧ Guarded step guard s as)
  | [], s, _, _, h => by
    obtain rfl := Option.some.inj h
    exact (and_iff_left trivial).symm
  | a :: as, s, hIs, hkind, h => by
    obtain ⟨ha, has⟩ := List.forall_mem_cons.mp hkind
    obtain ⟨t, ht, h⟩ := exec_cons.mp h
    have hrest := exec_iff_guarded_of hI hP (hI s a t hIs ha ht) has h
    rw [hrest, hP s a t hIs ha ht, Guarded, and_assoc]
    constructor
    · rintro ⟨hs, hg, hall⟩
      exact ⟨hs, hg, fun u hu => Option.some.inj (ht.symm.trans hu) ▸ hall⟩
    · rintro ⟨hs, hg, hall⟩
      exact ⟨hs, hg, hall t ht⟩

/-- When a step has a property after it exactly if it had it before and is allowed, a run has it at its
    end exactly if it is guarded. -/
theorem exec_iff_guarded {guard : σ → α → Prop} {I P : σ → Prop}
    (hI : ∀ s a s', I s → step s a = some s' → I s')
    (hP : ∀ s a s', I s → step s a = some s' → (P s' ↔ P s ∧ guard s a))
    {as : List α} {s : σ} (hs : I s) (h : exec step s as = some s') : P s' ↔ P s ∧ Guarded step guard s as := by
  have hkind : ∀ a ∈ as, (fun _ : α => True) a := fun _ _ => trivial
  exact exec_iff_guarded_of (fun s a s' hIs _ => hI s a s' hIs) (fun s a s' hIs _ => hP s a s' hIs)
    hs hkind h

/-- A property holds all along a run when it holds after every prefix of its actions. -/
theorem always_iff_prefix {P : σ → Prop} : ∀ {as : List α} {s : σ}, Always step P s as ↔
    ∀ bs, bs <+: as → ∀ t, exec step s bs = some t → P t
  | [], s => by
    constructor
    · intro hs bs hbs t ht
      obtain rfl := List.prefix_nil.mp hbs
      exact Option.some.inj ht ▸ hs
    · intro h
      exact h [] List.prefix_rfl s rfl
  | a :: as, s => by
    constructor
    · rintro ⟨hs, hall⟩ bs hbs t ht
      cases bs with
      | nil => exact Option.some.inj ht ▸ hs
      | cons b bs =>
        obtain ⟨rfl, hsub⟩ := List.cons_prefix_cons.mp hbs
        obtain ⟨u, hu, ht⟩ := exec_cons.mp ht
        exact always_iff_prefix.mp (hall u hu) bs hsub t ht
    · intro h
      refine ⟨h [] List.nil_prefix s rfl, fun u hu => always_iff_prefix.mpr fun bs hbs t ht => ?_⟩
      exact h (a :: bs) (List.cons_prefix_cons.mpr ⟨rfl, hbs⟩) t (exec_cons.mpr ⟨u, hu, ht⟩)

end Run
