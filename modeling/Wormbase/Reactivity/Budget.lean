import Wormbase.Lib.Meter
import Wormbase.Reactivity.Registry
import Mathlib.Data.Int.ConditionallyCompleteOrder

/-! `DailyBudget`: the cap on the fires of a reactivity for one key and one UTC day.

    The condition compares the counter of the day of its own clock reading; the fire is charged to the
    day of a later reading. -/

namespace Reactivity.Registry
open Py

/-! ### Runs -/

/-- An entry and the bindings of the registry as they answer to it. -/
structure Dispatch where
  entry : Dict
  turns : List Turn

section
variable (py : Interp) (company : UUID)

/-- The stores after a sequence of dispatches. -/
def runDispatches (s : Stores) (ds : List Dispatch) : Stores :=
  ds.foldl (fun s d => (dispatch py company d.entry s d.turns).2) s

end

/-- The clock never goes back: not between the readings of a turn, and not from one turn to the
    next. -/
def Sequential : Instant → List Turn → Prop
  | _, [] => True
  | start, t :: ts =>
    Monotone t.now ∧ (∀ i, start ≤ t.now i ∧ t.now i ≤ t.firedAt) ∧ Sequential t.firedAt ts

/-- The last reading of some turns. -/
def clockAfter : Instant → List Turn → Instant
  | start, [] => start
  | _, t :: ts => clockAfter t.firedAt ts

/-- The condition allows a fire only when the budget does. -/
inductive Requires (caps : Caps) : Condition → Prop
  | daily : Requires caps (.dailyBudget caps)
  | conjunct {cs : List Condition} {c : Condition} (hc : c ∈ cs) (h : Requires caps c) :
      Requires caps (.and cs)

/-- Every result of the reactivity reports at least 1 on the axis, or leaves it out. -/
def Turn.Uses (t : Turn) (axis : Axis) : Prop := ∀ s r, t.fire s = .ok r → 1 ≤ r.used axis

/-- The keys and days that one reactivity was charged on one axis. -/
def spent (id : String) (axis : Axis) (charges : List Counter) : List (String × ℤ) :=
  charges.filterMap fun k => if k.1 = id ∧ k.2.1 = axis then some k.2.2 else none

/-! ### One check -/

section
variable {py : Interp} {company : UUID} {entry : Dict} {s : Stores} {ctx : Context} {caps : Caps}

theorem sequential_append : ∀ {start : Instant} {ts us : List Turn}, Sequential start (ts ++ us) ↔
    Sequential start ts ∧ Sequential (clockAfter start ts) us
  | _, [], _ => by simp [Sequential, clockAfter]
  | start, t :: ts, us => by
    simp only [List.cons_append, Sequential, clockAfter, sequential_append, and_assoc]

theorem Sequential.le_clockAfter : ∀ {start : Instant} {ts : List Turn}, Sequential start ts →
    start ≤ clockAfter start ts
  | _, [], _ => le_rfl
  | _, _ :: _, ⟨_, hread, hrest⟩ =>
    ((hread 0).1.trans (hread 0).2).trans hrest.le_clockAfter

theorem dayOf_mono {t t' : Instant} (h : t ≤ t') : dayOf t ≤ dayOf t' :=
  Int.ediv_le_ediv (by decide) h

theorem atCap_false {id key : String} {axis : Axis} {day cap : ℤ}
    (h : s.atCap id axis (some key) day (some cap) = false) : s.budgets (id, axis, key, day) < cap := by
  simpa [Stores.atCap] using h

/-- The budget allows only while every counter that it reads is below its cap. -/
theorem dailyAllows_true {id : String} {now : Instant}
    (h : dailyAllows py company caps entry s id now = .ok true) {axis : Axis} {key : String} {cap : ℤ}
    (hkey : entryKey py company entry axis = .ok (some key)) (hcap : caps.of axis = some cap) :
    s.budgets (id, axis, key, dayOf now) < cap := by
  obtain ⟨owner, howner, h⟩ := bind_eq_ok.mp h
  obtain ⟨domain, hdomain, h⟩ := bind_eq_ok.mp h
  have hfree := Except.ok.inj h
  simp only [Bool.not_eq_true', Bool.or_eq_false_iff] at hfree
  obtain ⟨⟨hown, hdom⟩, htenant⟩ := hfree
  cases axis with
  | owner =>
    obtain rfl := Except.ok.inj (howner.symm.trans hkey)
    rw [show caps.perOwner = some cap from hcap] at hown
    exact atCap_false hown
  | domain =>
    obtain rfl := Except.ok.inj (hdomain.symm.trans hkey)
    rw [show caps.perDomain = some cap from hcap] at hdom
    exact atCap_false hdom
  | tenant =>
    obtain rfl := Option.some.inj (Except.ok.inj hkey)
    rw [show caps.perTenant = some cap from hcap] at htenant
    exact atCap_false htenant

/-- When a conjunction allows, each of its members did. -/
theorem allOf_mem : ∀ {cs : List Condition} {n m : ℕ}, allOf py company entry s ctx cs n = .ok (true, m) →
    ∀ c ∈ cs, ∃ k k', c.allows py company entry s ctx k = .ok (true, k')
  | [], _, _, _ => fun c hc => absurd hc List.not_mem_nil
  | c :: cs, n, m, h => by
    rw [allOf] at h
    obtain ⟨⟨allowed, k⟩, hc, h⟩ := bind_eq_ok.mp h
    cases allowed with
    | false =>
      have := Except.ok.inj h
      simp at this
    | true => exact List.forall_mem_cons.mpr ⟨⟨n, k, hc⟩, allOf_mem h⟩

/-- A condition that requires the budget asked it, at one of its readings. -/
theorem Requires.asked {c : Condition} (h : Requires caps c) : ∀ {n m : ℕ},
    c.allows py company entry s ctx n = .ok (true, m) →
      ∃ i, dailyAllows py company caps entry s ctx.reactivityId (ctx.now i) = .ok true := by
  induction h with
  | daily =>
    intro n m hallows
    rw [Condition.allows] at hallows
    split at hallows
    · have := Except.ok.inj hallows
      simp at this
    · obtain ⟨b, hb, hres⟩ := bind_eq_ok.mp hallows
      have heq := Except.ok.inj hres
      rw [Prod.mk.injEq] at heq
      exact ⟨n, heq.1 ▸ hb⟩
  | conjunct hc h ih =>
    intro n m hallows
    rw [Condition.allows] at hallows
    obtain ⟨k, k', hk⟩ := allOf_mem hallows _ hc
    exact ih hk

/-! ### One turn -/

theorem spent_append (id : String) (axis : Axis) (ks ks' : List Counter) :
    spent id axis (ks ++ ks') = spent id axis ks ++ spent id axis ks' := List.filterMap_append

/-- A fire is charged to one key on each axis, where the entry has one. -/
theorem spent_chargedKeys {id id' : String} {day : ℤ} {owner domain : Option String} (axis : Axis)
    (howner : entryKey py company entry .owner = .ok owner)
    (hdomain : entryKey py company entry .domain = .ok domain) : ∃ key,
      entryKey py company entry axis = .ok key ∧
        spent id axis (chargedKeys company id' day owner domain) =
          if id' = id then key.toList.map fun k => (k, day) else [] := by
  cases axis with
  | owner =>
    refine ⟨owner, howner, ?_⟩
    cases owner <;> cases domain <;> by_cases hid : id' = id <;> simp [spent, chargedKeys, hid]
  | domain =>
    refine ⟨domain, hdomain, ?_⟩
    cases owner <;> cases domain <;> by_cases hid : id' = id <;> simp [spent, chargedKeys, hid]
  | tenant =>
    refine ⟨some company.str, rfl, ?_⟩
    cases owner <;> cases domain <;> by_cases hid : id' = id <;> simp [spent, chargedKeys, hid]

theorem count_spent (id : String) (axis : Axis) (x : String × ℤ) (ks : List Counter) :
    (spent id axis ks).count x = ks.count (id, axis, x) := by
  induction ks with
  | nil => rfl
  | cons k ks ih =>
    obtain ⟨id', axis', x'⟩ := k
    rw [spent, List.filterMap_cons, List.count_cons, ← ih]
    by_cases hk : id' = id ∧ axis' = axis
    · obtain ⟨rfl, rfl⟩ := hk
      simp [spent, List.count_cons]
    · have hne : (id', axis', x') ≠ (id, axis, x) := by
        rintro heq
        simp only [Prod.mk.injEq] at heq
        exact hk ⟨heq.1, heq.2.1⟩
      simp [spent, hk, hne]

/-- The charges of a reactivity on an axis: none is later than the clock, the counters are no smaller,
    and each was checked. -/
structure Metered (id : String) (axis : Axis) (cap : ℤ) (now : Instant) (s : Stores) : Prop where
  past : ∀ x ∈ spent id axis s.charges, x.2 ≤ dayOf now
  counted : ∀ x, ((spent id axis s.charges).count x : ℤ) ≤ s.budgets (id, axis, x)
  charged : Meter.Charged cap.toNat (spent id axis s.charges)

theorem Metered.mono {id : String} {axis : Axis} {cap : ℤ} {now now' : Instant}
    (h : Metered id axis cap now s) (hle : now ≤ now') : Metered id axis cap now' s :=
  ⟨fun x hx => (h.past x hx).trans (dayOf_mono hle), h.counted, h.charged⟩

theorem metered_fresh (id : String) (axis : Axis) (cap : ℤ) (now : Instant) (disabled : List String) :
    Metered id axis cap now (.fresh disabled) :=
  ⟨fun _ hx => absurd hx List.not_mem_nil, fun _ => le_rfl, .nil⟩

/-- A fire is charged after its check: at a reading that is not later, the counter was below the cap. -/
theorem Metered.charge {id : String} {axis : Axis} {cap : ℤ} {start : Instant} {t : Turn} {r : Result}
    (h : Metered id axis cap start s) (hle : start ≤ t.firedAt) {owner domain : Option String}
    (howner : entryKey py company entry .owner = .ok owner)
    (hdomain : entryKey py company entry .domain = .ok domain)
    (hcheck : t.id = id → ∀ key, entryKey py company entry axis = .ok (some key) → ∃ now,
      start ≤ now ∧ now ≤ t.firedAt ∧ s.budgets (id, axis, key, dayOf now) < cap ∧ 1 ≤ r.used axis) :
    Metered id axis cap t.firedAt
      ((s.charge r (chargedKeys company t.id (dayOf t.firedAt) owner domain)).record t.id r t.firedAt) := by
  obtain ⟨key, hkey, hspent⟩ := @spent_chargedKeys py company entry id t.id (dayOf t.firedAt) owner
    domain axis howner hdomain
  have hcharges : spent id axis ((s.charge r (chargedKeys company t.id (dayOf t.firedAt) owner
      domain)).record t.id r t.firedAt).charges =
        spent id axis s.charges ++ spent id axis (chargedKeys company t.id (dayOf t.firedAt) owner domain) := by
    rw [charges_record, charges_charge, spent_append]
  have hmono := h.mono hle
  by_cases hnone : t.id = id ∧ key ≠ none
  · obtain ⟨hid, hkey'⟩ := hnone
    obtain ⟨k, rfl⟩ := Option.ne_none_iff_exists'.mp hkey'
    obtain ⟨now, hstart, hstop, hbelow, hused⟩ := hcheck hid k hkey
    rw [if_pos hid, Option.toList_some, List.map_cons, List.map_nil] at hspent
    refine ⟨?_, fun x => ?_, ?_⟩
    · rw [hcharges, hspent]
      exact List.forall_mem_append.mpr ⟨hmono.past, fun x hx => by rw [List.mem_singleton.mp hx]⟩
    · have hcount := h.counted x
      rw [hcharges, List.count_append, budgets_record, budgets_charge, ← count_spent]
      -- each charge adds at least one
      have hmul := le_mul_of_one_le_right (Int.natCast_nonneg
        ((spent id axis (chargedKeys company t.id (dayOf t.firedAt) owner domain)).count x)) hused
      push_cast
      exact add_le_add hcount hmul
    · rw [hcharges, hspent]
      refine h.charged.charge k (fun x hx => (h.past x hx).trans (dayOf_mono hstart)) ?_ (dayOf_mono hstop)
      have hcount := h.counted (k, dayOf now)
      omega
  · -- nothing is charged to this reactivity on this axis
    have hempty : spent id axis (chargedKeys company t.id (dayOf t.firedAt) owner domain) = [] := by
      rw [hspent]
      split
      · rename_i hid
        rw [not_and, not_ne_iff] at hnone
        rw [hnone hid]
        rfl
      · rfl
    refine ⟨?_, fun x => ?_, ?_⟩
    · rw [hcharges, hempty, List.append_nil]
      exact hmono.past
    · rw [hcharges, hempty, List.append_nil, budgets_record, budgets_charge, ← count_spent, hempty]
      simpa using h.counted x
    · rw [hcharges, hempty, List.append_nil]
      exact h.charged

/-- What the turns of a reactivity must do for its cap on an axis to hold. -/
def Turn.Capped (t : Turn) (id : String) (caps : Caps) (axis : Axis) : Prop :=
  t.id = id → Requires caps t.condition ∧ t.Uses axis

theorem Metered.turn {id : String} {axis : Axis} {cap : ℤ} {start : Instant} {t : Turn}
    (h : Metered id axis cap start s) (hcap : caps.of axis = some cap) (ht : t.Capped id caps axis)
    (hread : ∀ i, start ≤ t.now i ∧ t.now i ≤ t.firedAt) :
    Metered id axis cap t.firedAt (t.run py company entry s).2 := by
  have hle := (hread 0).1.trans (hread 0).2
  have hran := ran py company entry s t
  generalize t.run py company entry s = done at hran ⊢
  cases hran with
  | idle o hidle hactive => exact h.mono hle
  | fire noveltyKey n r hactive hpredicate hallows hfire hfired =>
    have hbooked := @booked py company entry s t r
    generalize onFire py company entry s t r = books at hbooked ⊢
    cases hbooked with
    | unread x => exact h.mono hle
    | charged owner domain done howner hdomain =>
      refine h.charge hle howner hdomain fun hid key hkey => ?_
      obtain ⟨hrequires, huses⟩ := ht hid
      obtain ⟨i, hi⟩ := hrequires.asked hallows
      exact ⟨_, (hread i).1, (hread i).2, hid ▸ dailyAllows_true hi hkey hcap, huses s r hfire⟩

/-! ### Runs of dispatches -/

/-- The charges of a sequence of dispatches are metered for each reactivity that is capped. -/
theorem Metered.dispatch {id : String} {axis : Axis} {cap : ℤ} (hcap : caps.of axis = some cap) :
    ∀ {ts : List Turn} {start : Instant} {s : Stores}, Metered id axis cap start s →
      (∀ t ∈ ts, t.Capped id caps axis) → Sequential start ts →
        Metered id axis cap (clockAfter start ts) (dispatch py company entry s ts).2
  | [], _, _, h, _, _ => h
  | t :: ts, start, s, h, hts, ⟨hmono, hread, hrest⟩ => by
    obtain ⟨ht, hts⟩ := List.forall_mem_cons.mp hts
    have hturn : Metered id axis cap t.firedAt (t.run py company entry s).2 := h.turn hcap ht hread
    rw [Registry.dispatch]
    simp only
    split
    · exact hturn.mono hrest.le_clockAfter
    · exact Metered.dispatch hcap hturn hts hrest

theorem clockAfter_append : ∀ (start : Instant) (ts us : List Turn),
    clockAfter start (ts ++ us) = clockAfter (clockAfter start ts) us
  | _, [], _ => rfl
  | _, t :: ts, us => clockAfter_append t.firedAt ts us

theorem Metered.run {id : String} {axis : Axis} {cap : ℤ} (hcap : caps.of axis = some cap) :
    ∀ {ds : List Dispatch} {start : Instant} {s : Stores}, Metered id axis cap start s →
      (∀ d ∈ ds, ∀ t ∈ d.turns, t.Capped id caps axis) →
        Sequential start (ds.flatMap Dispatch.turns) →
          Metered id axis cap (clockAfter start (ds.flatMap Dispatch.turns))
            (runDispatches py company s ds)
  | [], _, _, h, _, _ => h
  | d :: ds, start, s, h, hds, hseq => by
    obtain ⟨hd, hds⟩ := List.forall_mem_cons.mp hds
    rw [List.flatMap_cons] at hseq ⊢
    obtain ⟨hfirst, hrest⟩ := sequential_append.mp hseq
    have hone : Metered id axis cap (clockAfter start d.turns)
        (Registry.dispatch py company d.entry s d.turns).2 := h.dispatch hcap hd hfirst
    rw [clockAfter_append]
    exact Metered.run hcap hone hds hrest

/-! ### What else a fire and a check touch -/

/-- A turn changes no counter of another reactivity, another day, or a key that its entry has not. -/
theorem Turn.run_frame (t : Turn) (k : Counter)
    (hk : ¬(k.1 = t.id ∧ k.2.2.2 = dayOf t.firedAt ∧
      entryKey py company entry k.2.1 = .ok (some k.2.2.1))) :
    (t.run py company entry s).2.budgets k = s.budgets k := by
  have hran := ran py company entry s t
  generalize t.run py company entry s = done at hran ⊢
  cases hran with
  | idle o hidle hactive => rfl
  | fire noveltyKey n r hactive hpredicate hallows hfire hfired =>
    have hbooked := @booked py company entry s t r
    generalize onFire py company entry s t r = books at hbooked ⊢
    cases hbooked with
    | unread x => rfl
    | charged owner domain done howner hdomain =>
      obtain ⟨id, axis, key, day⟩ := k
      obtain ⟨key', hkey', hspent⟩ := @spent_chargedKeys py company entry id t.id (dayOf t.firedAt)
        owner domain axis howner hdomain
      have hcount : (chargedKeys company t.id (dayOf t.firedAt) owner domain).count
          (id, axis, key, day) = 0 := by
        rw [← count_spent, hspent, List.count_eq_zero]
        intro hmem
        split at hmem
        · rename_i hid
          obtain ⟨k', hk', heq⟩ := List.mem_map.mp hmem
          obtain ⟨rfl, rfl⟩ := Prod.mk.inj heq
          rw [Option.mem_toList.mp hk'] at hkey'
          exact hk ⟨hid.symm, rfl, hkey'⟩
        · cases hmem
      rw [budgets_record, budgets_charge, hcount]
      simp

/-- The verdict on an entry depends only on the counters of its own keys, of the reactivity and of the
    day of the check. -/
theorem dailyAllows_congr {s' : Stores} {id : String} {now : Instant}
    (h : ∀ axis key, entryKey py company entry axis = .ok (some key) →
      s.budgets (id, axis, key, dayOf now) = s'.budgets (id, axis, key, dayOf now)) :
    dailyAllows py company caps entry s id now = dailyAllows py company caps entry s' id now := by
  have hcap : ∀ axis key cap, entryKey py company entry axis = .ok key →
      s.atCap id axis key (dayOf now) cap = s'.atCap id axis key (dayOf now) cap := by
    intro axis key cap hkey
    cases key with
    | none => rfl
    | some key => cases cap <;> simp [Stores.atCap, h axis key hkey]
  unfold dailyAllows
  cases howner : entryKey py company entry .owner with
  | error x => rfl
  | ok owner =>
    cases hdomain : entryKey py company entry .domain with
    | error x => rfl
    | ok domain =>
      simp only [bind, Except.bind, hcap .owner owner _ howner, hcap .domain domain _ hdomain,
        hcap .tenant (some company.str) _ rfl]

end

/-- Over every run of dispatches from a new registry, under a clock that never goes back, a reactivity
    whose condition requires the budget is charged at most the cap for each key of an axis and each
    day. And neither a check nor a charge concerns the counters of other keys, days or reactivities. -/
theorem budget_caps_charges (py : Interp) (company : UUID) :
    (∀ (disabled : List String) (ds : List Dispatch) (start : Instant) (id : String) (caps : Caps)
      (axis : Axis) (cap : ℤ), caps.of axis = some cap →
        (∀ d ∈ ds, ∀ t ∈ d.turns, t.Capped id caps axis) →
          Sequential start (ds.flatMap Dispatch.turns) → ∀ key day,
            ((runDispatches py company (.fresh disabled) ds).charges.count (id, axis, key, day) : ℤ) ≤
              max cap 0) ∧
    (∀ (entry : Dict) (s : Stores) (t : Turn) (k : Counter),
      ¬(k.1 = t.id ∧ k.2.2.2 = dayOf t.firedAt ∧
        entryKey py company entry k.2.1 = .ok (some k.2.2.1)) →
          (t.run py company entry s).2.budgets k = s.budgets k) ∧
    ∀ (entry : Dict) (s s' : Stores) (caps : Caps) (id : String) (now : Instant),
      (∀ axis key, entryKey py company entry axis = .ok (some key) →
        s.budgets (id, axis, key, dayOf now) = s'.budgets (id, axis, key, dayOf now)) →
          dailyAllows py company caps entry s id now = dailyAllows py company caps entry s' id now := by
  refine ⟨fun disabled ds start id caps axis cap hcap hds hseq key day => ?_,
    fun entry s t k => t.run_frame k, fun entry s s' caps id now => dailyAllows_congr⟩
  have hmetered : Metered id axis cap (clockAfter start (ds.flatMap Dispatch.turns))
      (runDispatches py company (.fresh disabled) ds) :=
    (metered_fresh id axis cap start disabled).run hcap hds hseq
  have hcount := hmetered.charged.count_le (key, day)
  rw [count_spent] at hcount
  omega

/-- An entry whose args name an owner. -/
def ownedEntry (owner : String) : Dict :=
  [(.str "seq", .int 1), (.str "payload", .dict [(.str "args", .dict [(.str "owner_id", .str owner)])])]

/-- A reactivity that fires whenever its budget allows, at an instant. -/
def eager (id : String) (caps : Caps) (instant : Instant) : Turn where
  id
  active := true
  predicate := fun _ => .ok (true, none)
  condition := .dailyBudget caps
  fire := fun _ => .ok ⟨true, "", []⟩
  now := fun _ => instant
  firedAt := instant
  write := .ok ()

/-- Two entries of one owner, for a reactivity that may fire once a day for an owner. -/
def twice : List Dispatch :=
  [⟨ownedEntry "ana", [eager "r" ⟨some 1, none, none⟩ 0]⟩,
    ⟨ownedEntry "ana", [eager "r" ⟨some 1, none, none⟩ 1]⟩]

theorem twice_charged_once : ((runDispatches .plain ⟨1⟩ (.fresh []) twice).charges.count
    ("r", .owner, "ana", 0) : ℤ) ≤ max 1 0 := by
  refine (budget_caps_charges .plain ⟨1⟩).1 [] twice 0 "r" ⟨some 1, none, none⟩ .owner 1 rfl ?_ ?_ "ana" 0
  · have heager : ∀ instant, (eager "r" ⟨some 1, none, none⟩ instant).Capped "r" ⟨some 1, none, none⟩ .owner := by
      rintro instant -
      refine ⟨.daily, fun s r hr => ?_⟩
      obtain rfl := Except.ok.inj hr
      exact le_rfl
    simp only [twice, List.forall_mem_cons]
    exact ⟨⟨heager 0, by simp⟩, ⟨heager 1, by simp⟩, by simp⟩
  · exact ⟨monotone_const, fun _ => ⟨le_rfl, le_rfl⟩, monotone_const,
      fun _ => ⟨Int.zero_le_ofNat 1, le_rfl⟩, trivial⟩

end Reactivity.Registry
