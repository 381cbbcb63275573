import Wormbase.Lib.Run
import Wormbase.Reactivity.Budget

/-! Dispatches in which one reactivity keeps a state of its own: what its fires leave outside the
    registry.

    A call of `fire` changes that state also when it raises or does not fire. -/

namespace Reactivity.Registry
open Py

/-- A reactivity with a state `σ`: how it answers to an entry, where `κ` is what else it finds then, and
    what a call of its `fire` makes of the state. -/
structure Keeper (σ κ : Type) where
  id : String
  turn : Dict → κ → σ → Turn
  after : Dict → κ → σ → Stores → σ
  turn_id : ∀ entry call x, (turn entry call x).id = id

/-- A binding of the registry: the one under the id of the reactivity, or one under another id. -/
inductive Binding (κ : Type) (id : String) where
  | own (call : κ)
  | other (turn : Turn) (hid : turn.id ≠ id)

/-- An entry and the bindings of the registry. -/
structure Round (κ : Type) (id : String) where
  entry : Dict
  bindings : List (Binding κ id)

section
variable (py : Interp) (company : UUID)

/-- The predicate and the condition hold, so that `fire` is called. -/
def Turn.reaches (entry : Dict) (s : Stores) (t : Turn) : Bool :=
  t.active && match t.predicate s with
    | .ok (true, noveltyKey) =>
      match t.condition.allows py company entry s ⟨t.id, noveltyKey, t.now⟩ 0 with
      | .ok (true, _) => true
      | _ => false
    | _ => false

variable {σ κ : Type} (K : Keeper σ κ)

/-- The turn of a binding. -/
def Keeper.turnOf (entry : Dict) (x : σ) : Binding κ K.id → Turn
  | .own call => K.turn entry call x
  | .other t _ => t

/-- The state after the turn of a binding. -/
def Keeper.kept (entry : Dict) (st : Stores × σ) : Binding κ K.id → σ
  | .own call =>
    if (K.turn entry call st.2).reaches py company entry st.1 then K.after entry call st.2 st.1 else st.2
  | .other _ _ => st.2

/-- One binding in `dispatch`. -/
def Keeper.bind (entry : Dict) (st : Stores × σ) (b : Binding κ K.id) : Outcome × Stores × σ :=
  let done := (K.turnOf entry st.2 b).run py company entry st.1
  (done.1, done.2, K.kept py company entry st b)

/-- `dispatch`, with the state of the reactivity. -/
def Keeper.loop (entry : Dict) : Stores × σ → List (Binding κ K.id) → Stores × σ
  | st, [] => st
  | st, b :: bs =>
    let done := K.bind py company entry st b
    if done.1 = .fireLost then done.2 else Keeper.loop entry done.2 bs

/-- A dispatch always comes to an end. -/
def Keeper.step (st : Stores × σ) (r : Round κ K.id) : Option (Stores × σ) :=
  some (K.loop py company r.entry st r.bindings)

/-- Every binding that is reached in a dispatch meets a condition. -/
def Keeper.Each (guard : Dict → Stores × σ → Binding κ K.id → Prop) (entry : Dict) :
    Stores × σ → List (Binding κ K.id) → Prop
  | _, [] => True
  | st, b :: bs => guard entry st b ∧ ((K.bind py company entry st b).1 ≠ .fireLost →
      Keeper.Each guard entry (K.bind py company entry st b).2 bs)

end

section
variable {py : Interp} {company : UUID} {entry : Dict} {s : Stores} {t : Turn}
variable {σ κ : Type} {K : Keeper σ κ}

theorem reaches_iff : t.reaches py company entry s = true ↔ t.active = true ∧ ∃ noveltyKey n,
    t.predicate s = .ok (true, noveltyKey) ∧
      t.condition.allows py company entry s ⟨t.id, noveltyKey, t.now⟩ 0 = .ok (true, n) := by
  unfold Turn.reaches
  rw [Bool.and_eq_true]
  refine and_congr_right fun _ => ?_
  cases hpredicate : t.predicate s with
  | error x => simp
  | ok found =>
    obtain ⟨matched, noveltyKey⟩ := found
    cases matched with
    | false => simp
    | true =>
      cases hallows : t.condition.allows py company entry s ⟨t.id, noveltyKey, t.now⟩ 0 with
      | error x => simp [hallows]
      | ok verdict =>
        obtain ⟨allowed, n⟩ := verdict
        cases allowed <;> simp [hallows]

/-- `ReactivityResult(fired=False)` is no fire. -/
theorem not_fired {noveltyKey : String} {budgetUsed : List (String × ℤ)} (r : Result)
    (h : (.ok ⟨false, noveltyKey, budgetUsed⟩ : Except Err Result) = .ok r) : r.fired = false := by
  rw [← Except.ok.inj h]

/-- The stores of a dispatch are those of the registry, for the turns as their states make them. -/
theorem loop_stores : ∀ {bs : List (Binding κ K.id)} {st : Stores × σ}, ∃ ts : List Turn,
    ts.length = bs.length ∧ (K.loop py company entry st bs).1 = (dispatch py company entry st.1 ts).2
  | [], st => ⟨[], rfl, rfl⟩
  | b :: bs, st => by
    obtain ⟨ts, hlen, hts⟩ := @loop_stores bs (K.bind py company entry st b).2
    refine ⟨K.turnOf entry st.2 b :: ts, by simp [hlen], ?_⟩
    rw [Keeper.loop, dispatch]
    by_cases hlost : (K.bind py company entry st b).1 = .fireLost
    · have hlost' : ((K.turnOf entry st.2 b).run py company entry st.1).1 = .fireLost := hlost
      simp only [hlost, hlost', if_true]
      rfl
    · have hlost' : ((K.turnOf entry st.2 b).run py company entry st.1).1 ≠ .fireLost := hlost
      simp only [hlost, hlost', if_false, hts]
      rfl

/-- What a dispatch does to the reactivity and the stores: nothing, or a call of `fire` that comes to
    nothing or is booked, or another binding has its turn. -/
inductive Kept (py : Interp) (company : UUID) (K : Keeper σ κ) (entry : Dict) (st : Stores × σ) :
    Binding κ K.id → Stores × σ → Prop
  | idle (call : κ) (hreach : (K.turn entry call st.2).reaches py company entry st.1 = false) :
      Kept py company K entry st (.own call) st
  | quiet (call : κ) (hreach : (K.turn entry call st.2).reaches py company entry st.1 = true)
      (hquiet : ∀ r, (K.turn entry call st.2).fire st.1 = .ok r → r.fired = false) :
      Kept py company K entry st (.own call) (st.1, K.after entry call st.2 st.1)
  | fired (call : κ) (r : Result)
      (hreach : (K.turn entry call st.2).reaches py company entry st.1 = true)
      (hfire : (K.turn entry call st.2).fire st.1 = .ok r) (hfired : r.fired = true) :
      Kept py company K entry st (.own call)
        ((onFire py company entry st.1 (K.turn entry call st.2) r).2, K.after entry call st.2 st.1)
  | other (t : Turn) (hid : t.id ≠ K.id) :
      Kept py company K entry st (.other t hid) ((t.run py company entry st.1).2, st.2)

theorem kept (st : Stores × σ) (b : Binding κ K.id) :
    Kept py company K entry st b (K.bind py company entry st b).2 := by
  cases b with
  | other t hid => exact .other t hid
  | own call =>
    have hran := ran py company entry st.1 (K.turn entry call st.2)
    simp only [Keeper.bind, Keeper.turnOf, Keeper.kept]
    by_cases hreach : (K.turn entry call st.2).reaches py company entry st.1 = true
    · rw [if_pos hreach]
      obtain ⟨hactive, noveltyKey, n, hpredicate, hallows⟩ := reaches_iff.mp hreach
      cases hfire : (K.turn entry call st.2).fire st.1 with
      | error x =>
        have hrun : ((K.turn entry call st.2).run py company entry st.1).2 = st.1 := by
          simp [Turn.run, hactive, hpredicate, hallows, hfire]
        rw [hrun]
        exact .quiet call hreach (by simp [hfire])
      | ok r =>
        cases hfired : r.fired with
        | false =>
          have hrun : ((K.turn entry call st.2).run py company entry st.1).2 = st.1 := by
            simp [Turn.run, hactive, hpredicate, hallows, hfire, hfired]
          rw [hrun]
          exact .quiet call hreach (by simp [hfire, hfired])
        | true =>
          have hrun : ((K.turn entry call st.2).run py company entry st.1).2 =
              (onFire py company entry st.1 (K.turn entry call st.2) r).2 := by
            simp only [Turn.run, hactive, hpredicate, hallows, hfire, hfired, Bool.not_true,
              Bool.false_eq_true, if_false]
            generalize onFire py company entry st.1 (K.turn entry call st.2) r = books
            obtain ⟨done, stores⟩ := books
            cases done <;> rfl
          rw [hrun]
          exact .fired call r hreach hfire hfired
    · rw [if_neg hreach]
      generalize (K.turn entry call st.2).run py company entry st.1 = done at hran ⊢
      cases hran with
      | idle o hidle hactive => exact .idle call (Bool.not_eq_true _ ▸ hreach)
      | fire noveltyKey n r hactive hpredicate hallows hfire hfired =>
        exact absurd (reaches_iff.mpr ⟨hactive, noveltyKey, n, hpredicate, hallows⟩) hreach

/-- What each binding keeps under a condition, a dispatch keeps. -/
theorem loop_invariant {guard : Dict → Stores × σ → Binding κ K.id → Prop} {kind : Binding κ K.id → Prop}
    {inv : Stores × σ → Prop}
    (hbind : ∀ st b st', inv st → kind b → guard entry st b → Kept py company K entry st b st' → inv st') :
    ∀ {bs : List (Binding κ K.id)} {st : Stores × σ}, inv st → (∀ b ∈ bs, kind b) →
      K.Each py company guard entry st bs → inv (K.loop py company entry st bs)
  | [], _, hst, _, _ => hst
  | b :: bs, st, hst, hkind, hguard => by
    obtain ⟨hb, hbs⟩ := List.forall_mem_cons.mp hkind
    have hnext := hbind st b _ hst hb hguard.1 (kept st b)
    rw [Keeper.loop]
    by_cases hlost : (K.bind py company entry st b).1 = .fireLost
    · simpa only [hlost, if_true] using hnext
    · simp only [hlost, if_false]
      exact loop_invariant hbind hnext hbs (hguard.2 hlost)

/-- What each binding of some kind keeps under a condition, every run of dispatches to such bindings
    keeps. -/
theorem rounds_invariant {guard : Dict → Stores × σ → Binding κ K.id → Prop}
    {kind : Binding κ K.id → Prop} {inv : Stores × σ → Prop}
    (hbind : ∀ entry st b st', inv st → kind b → guard entry st b →
      Kept py company K entry st b st' → inv st')
    {rs : List (Round κ K.id)} {st st' : Stores × σ} (hst : inv st)
    (hkind : ∀ r ∈ rs, ∀ b ∈ r.bindings, kind b)
    (hguard : Run.Guarded (K.step py company) (fun st r => K.Each py company guard r.entry st r.bindings)
      st rs) (hrun : Run.exec (K.step py company) st rs = some st') : inv st' := by
  refine Run.guarded_invariant (I := inv) (fun s r s' hs hr hstep => ?_) hst
    (Run.guarded_and hkind hguard) hrun
  obtain rfl := Option.some.inj hstep
  exact loop_invariant (hbind r.entry) hs hr.1 hr.2

theorem each_true {entry : Dict} : ∀ (bs : List (Binding κ K.id)) (st : Stores × σ),
    K.Each py company (fun _ _ _ => True) entry st bs
  | [], _ => trivial
  | _ :: bs, _ => ⟨trivial, fun _ => each_true bs _⟩

/-- What each binding keeps, every run of dispatches keeps. -/
theorem rounds_always {inv : Stores × σ → Prop}
    (hbind : ∀ entry st b st', inv st → Kept py company K entry st b st' → inv st')
    {rs : List (Round κ K.id)} {st st' : Stores × σ} (hst : inv st)
    (hrun : Run.exec (K.step py company) st rs = some st') : inv st' := by
  have hguard : Run.Guarded (K.step py company)
      (fun st r => K.Each py company (fun _ _ _ => True) r.entry st r.bindings) st rs :=
    Run.guarded_of_forall fun r _ st => each_true r.bindings st
  have hkind : ∀ r ∈ rs, ∀ b ∈ r.bindings, (fun _ : Binding κ K.id => True) b :=
    fun _ _ _ _ => trivial
  exact rounds_invariant (fun entry st b st' hinv _ _ => hbind entry st b st' hinv) hst hkind hguard hrun

/-- When the turn of a binding of some kind has a property after it exactly if it had it before and
    meets a condition, a dispatch to such bindings has it at its end exactly if every binding that is
    reached does. -/
theorem loop_iff {guard : Dict → Stores × σ → Binding κ K.id → Prop} {kind : Binding κ K.id → Prop}
    {inv P : Stores × σ → Prop}
    (hinv : ∀ st b st', inv st → kind b → Kept py company K entry st b st' → inv st')
    (hP : ∀ st b st', inv st → kind b → Kept py company K entry st b st' →
      (P st' ↔ P st ∧ guard entry st b)) :
    ∀ {bs : List (Binding κ K.id)} {st : Stores × σ}, inv st → (∀ b ∈ bs, kind b) →
      (P (K.loop py company entry st bs) ↔ P st ∧ K.Each py company guard entry st bs)
  | [], _, _, _ => (and_iff_left trivial).symm
  | b :: bs, st, hst, hkind => by
    obtain ⟨hb, hbs⟩ := List.forall_mem_cons.mp hkind
    have hnext := hP st b _ hst hb (kept st b)
    rw [Keeper.loop, Keeper.Each]
    by_cases hlost : (K.bind py company entry st b).1 = .fireLost
    · simp only [hlost, if_true, hnext, ne_eq, not_true, false_implies, and_true]
    · simp only [hlost, if_false, ne_eq, not_false_iff, true_implies]
      rw [loop_iff hinv hP (hinv st b _ hst hb (kept st b)) hbs, hnext, and_assoc]

theorem rounds_iff_of {guard : Dict → Stores × σ → Binding κ K.id → Prop}
    {kind : Dict → Binding κ K.id → Prop} {inv P : Stores × σ → Prop}
    (hinv : ∀ entry st b st', inv st → kind entry b → Kept py company K entry st b st' → inv st')
    (hP : ∀ entry st b st', inv st → kind entry b → Kept py company K entry st b st' →
      (P st' ↔ P st ∧ guard entry st b))
    {rs : List (Round κ K.id)} {st st' : Stores × σ} (hst : inv st)
    (hkind : ∀ r ∈ rs, ∀ b ∈ r.bindings, kind r.entry b)
    (hrun : Run.exec (K.step py company) st rs = some st') :
    P st' ↔ P st ∧ Run.Guarded (K.step py company)
      (fun st r => K.Each py company guard r.entry st r.bindings) st rs := by
  refine @Run.exec_iff_guarded_of _ _ _ _ (fun r => ∀ b ∈ r.bindings, kind r.entry b) _ inv P
    (fun st r st' hs hr hstep => ?_) (fun st r st' hs hr hstep => ?_) _ _ hst hkind hrun
  · obtain rfl := Option.some.inj hstep
    exact loop_invariant (fun st b st' hs hb _ => hinv r.entry st b st' hs hb) hs hr
      (each_true r.bindings st)
  · obtain rfl := Option.some.inj hstep
    exact loop_iff (hinv r.entry) (hP r.entry) hs hr

theorem rounds_iff {guard : Dict → Stores × σ → Binding κ K.id → Prop} {inv P : Stores × σ → Prop}
    (hinv : ∀ entry st b st', inv st → Kept py company K entry st b st' → inv st')
    (hP : ∀ entry st b st', inv st → Kept py company K entry st b st' →
      (P st' ↔ P st ∧ guard entry st b))
    {rs : List (Round κ K.id)} {st st' : Stores × σ} (hst : inv st)
    (hrun : Run.exec (K.step py company) st rs = some st') :
    P st' ↔ P st ∧ Run.Guarded (K.step py company)
      (fun st r => K.Each py company guard r.entry st r.bindings) st rs := by
  let kind : Dict → Binding κ K.id → Prop := fun _ _ => True
  have hkind : ∀ r ∈ rs, ∀ b ∈ r.bindings, kind r.entry b := fun _ _ _ _ => trivial
  refine @rounds_iff_of _ _ _ _ K guard kind inv P (fun entry st b st' h _ => hinv entry st b st' h)
    (fun entry st b st' h _ => hP entry st b st' h) rs st st' hst hkind hrun

/-! ### The counters after a turn -/

theorem onFire_budgets {r : Result} {owner domain : Option String}
    (howner : entryKey py company entry .owner = .ok owner)
    (hdomain : entryKey py company entry .domain = .ok domain) (k : Counter) :
    (onFire py company entry s t r).2.budgets k = s.budgets k +
      (chargedKeys company t.id (dayOf t.firedAt) owner domain).count k * r.used k.2.1 := by
  unfold onFire
  rw [howner, hdomain]
  cases sourceSeq entry with
  | ok seq => rw [budgets_record, budgets_charge]
  | error x => rw [budgets_record, budgets_charge]

/-- A budget that allows has read the entry. -/
theorem dailyAllows_read {caps : Caps} {id : String} {now : Instant} {allowed : Bool}
    (h : dailyAllows py company caps entry s id now = .ok allowed) : ∃ owner domain,
      entryKey py company entry .owner = .ok owner ∧ entryKey py company entry .domain = .ok domain := by
  obtain ⟨owner, howner, h⟩ := bind_eq_ok.mp h
  obtain ⟨domain, hdomain, h⟩ := bind_eq_ok.mp h
  exact ⟨owner, domain, howner, hdomain⟩

/-! ### The record of fires after a turn -/

/-- A fire is recorded under its novelty key only. -/
theorem onFire_lastFired {r : Result} {k : String × String} (hk : k ≠ (t.id, r.noveltyKey)) :
    (onFire py company entry s t r).2.lastFired k = s.lastFired k := by
  have hbooked := @booked py company entry s t r
  generalize onFire py company entry s t r = books at hbooked ⊢
  cases hbooked with
  | unread x => rfl
  | charged owner domain done howner hdomain =>
    unfold Stores.record
    split
    · rw [lastFired_charge]
    · simp only [lastFired_charge, Function.update_of_ne hk]

theorem Turn.run_lastFired {k : String × String} (hk : k.1 ≠ t.id) :
    (t.run py company entry s).2.lastFired k = s.lastFired k := by
  have hran := ran py company entry s t
  generalize t.run py company entry s = done at hran ⊢
  cases hran with
  | idle o hidle hactive => rfl
  | fire noveltyKey n r hactive hpredicate hallows hfire hfired =>
    exact onFire_lastFired fun heq => hk (congrArg Prod.fst heq)

end

end Reactivity.Registry
