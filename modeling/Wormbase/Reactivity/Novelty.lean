import Wormbase.Reactivity.OwnState

/-! Reactivities that derive a novelty key from the entry and report it with their fire.

    `NotRecentlyFired` looks up the key that stands in the condition; `_on_fire` records the one that
    `fire` reports. The window binds a fire only where the two are the same. -/

namespace Reactivity.Registry
open Py

/-- Something was said about something. -/
structure Said (μ : Type) where
  about : μ
  time : Instant

section
variable {μ : Type}

/-- Of two about the same, the second is later than the window after the first. -/
def Apart (window : ℤ) (log : List (Said μ)) : Prop :=
  log.Pairwise fun a b => a.about = b.about → a.time < b.time - window

variable [DecidableEq μ]

/-- The last time that something was said about `m`. -/
def lastSaid (log : List (Said μ)) (m : μ) : Option Instant :=
  (log.filter fun a => a.about = m).getLast?.map Said.time

theorem lastSaid_concat (log : List (Said μ)) (a : Said μ) (m : μ) :
    lastSaid (log ++ [a]) m = if a.about = m then some a.time else lastSaid log m := by
  unfold lastSaid
  by_cases h : a.about = m <;> simp [List.filter_append, h]

/-- One more keeps the distance exactly if it keeps it to the last about the same. -/
theorem apart_concat {window : ℤ} (hwindow : 0 ≤ window) {log : List (Said μ)} {a : Said μ} :
    Apart window (log ++ [a]) ↔
      Apart window log ∧ ∀ t, lastSaid log a.about = some t → t < a.time - window := by
  have happend : Apart window (log ++ [a]) ↔
      Apart window log ∧ ∀ b ∈ log, b.about = a.about → b.time < a.time - window := by
    simp [Apart, List.pairwise_append]
  rw [happend]
  refine and_congr_right fun hlog => ?_
  have hsame : (log.filter fun b => b.about = a.about).Pairwise fun b c => b.time < c.time - window := by
    refine (hlog.filter _).imp_of_mem fun {b c} hb hc hbc => hbc ?_
    rw [of_decide_eq_true (List.mem_filter.mp hb).2, of_decide_eq_true (List.mem_filter.mp hc).2]
  constructor
  · intro hall t ht
    obtain ⟨b, hb, rfl⟩ := Option.map_eq_some_iff.mp ht
    obtain ⟨hmem, habout⟩ := List.mem_filter.mp (List.mem_of_getLast? hb)
    exact hall b hmem (of_decide_eq_true habout)
  · intro hlast b hb habout
    have hmem : b ∈ log.filter fun b => b.about = a.about :=
      List.mem_filter.mpr ⟨hb, decide_eq_true habout⟩
    rcases List.eq_nil_or_concat (log.filter fun b => b.about = a.about) with hnil | ⟨init, c, hc⟩
    · rw [hnil] at hmem
      cases hmem
    · rw [List.concat_eq_append] at hc
      have hbound : c.time < a.time - window := hlast c.time (by simp [lastSaid, hc])
      rw [hc] at hmem hsame
      rcases List.mem_append.mp hmem with hb' | hb'
      · -- an earlier one is even further back
        have hlt := (List.pairwise_append.mp hsame).2.2 b hb' c (List.mem_singleton.mpr rfl)
        exact hlt.trans ((sub_le_self c.time hwindow).trans_lt hbound)
      · rw [List.mem_singleton.mp hb']
        exact hbound

end

/-- A reactivity that says something about what it derives from an entry, and reports a key for it.
    `Booked` is what a call needs for all that it says to be reported. -/
structure Speaker (κ μ : Type) where
  id : String
  literal : String
  window : ℤ
  turn : Dict → κ → Turn
  about : Dict → κ → Option μ
  key : μ → String
  Booked : κ → Prop
  window_nonneg : 0 ≤ window
  turn_id : ∀ entry call, (turn entry call).id = id
  key_ne : ∀ m, key m ≠ ""
  key_inj : ∀ m m', key m = key m' → m = m'
  reads : ∀ {entry call m}, about entry call = some m → ∃ args, entryArgs entry = .ok args
  reports : ∀ {entry call m}, Booked call → about entry call = some m → ∀ s, ∃ r,
    (turn entry call).fire s = .ok r ∧ r.fired = true ∧ r.noveltyKey = key m
  fires : ∀ {entry call s r}, (turn entry call).fire s = .ok r → r.fired = true →
    ∃ m, about entry call = some m
  asks : ∀ {py company entry call s}, (turn entry call).reaches py company entry s = true →
    ∃ i, novel s id literal window ((turn entry call).now i) = true

section
variable {κ μ : Type} [DecidableEq μ] (S : Speaker κ μ)

/-- What a call of `fire` says, at the time that the registry would book it under. -/
def Speaker.said (entry : Dict) (call : κ) : List (Said μ) :=
  ((S.about entry call).map fun m => ⟨m, (S.turn entry call).firedAt⟩).toList

abbrev Speaker.keeper : Keeper (List (Said μ)) κ where
  id := S.id
  turn := fun entry call _ => S.turn entry call
  after := fun entry call log _ => log ++ S.said entry call
  turn_id := fun entry call _ => S.turn_id entry call

/-- All that a call says is reported, and its condition does not read a later time than its
    bookkeeping. -/
def Speaker.Settled (entry : Dict) : Binding κ S.id → Prop
  | .own call => S.Booked call ∧ ∀ i, (S.turn entry call).now i ≤ (S.turn entry call).firedAt
  | .other _ _ => True

variable (py : Interp) (company : UUID)

/-- In no run from a new registry something is said about the same twice within the window. -/
def Speaker.WindowHolds (disabled : List String) (rs : List (Round κ S.id)) : Prop :=
  ∀ st', Run.exec (S.keeper.step py company) (.fresh disabled, []) rs = some st' → Apart S.window st'.2

/-- Where an entry is let through about something whose key is not the one of the condition,
    `NotRecentlyFired` would allow it under its own key as well. -/
def Speaker.Novel (entry : Dict) (st : Stores × List (Said μ)) : Binding κ S.id → Prop
  | .own call => (S.turn entry call).reaches py company entry st.1 = true → ∀ m,
      S.about entry call = some m → S.key m ≠ S.literal →
        novel st.1 S.id (S.key m) S.window (S.turn entry call).firedAt = true
  | .other _ _ => True

end

section
variable {py : Interp} {company : UUID} {entry : Dict} {s : Stores} {t : Turn}

theorem novel_iff {id key : String} {window : ℤ} {now : Instant} :
    novel s id key window now = true ↔ ∀ last, s.lastFired (id, key) = some last → last < now - window := by
  unfold novel
  cases s.lastFired (id, key) <;> simp

theorem novel_mono {id key : String} {window : ℤ} {now now' : Instant}
    (h : novel s id key window now = true) (hle : now ≤ now') : novel s id key window now' = true := by
  rw [novel_iff] at h ⊢
  intro last hlast
  exact (h last hlast).trans_le (sub_le_sub_right hle window)

/-- A condition with a window in it has asked for its key before `fire` is called. -/
theorem reaches_asks {cs cs' : List Condition} {literal : String} {window : ℤ}
    (hcondition : t.condition = .and cs') (houter : .and cs ∈ cs')
    (hmem : .notRecentlyFired literal window ∈ cs) (hid : t.id ≠ "") (hliteral : literal ≠ "")
    (hpredicate : ∀ key, t.predicate s = .ok (true, key) → key = none)
    (hreach : t.reaches py company entry s = true) : ∃ i, novel s t.id literal window (t.now i) = true := by
  obtain ⟨-, noveltyKey, n, hmatched, hallows⟩ := reaches_iff.mp hreach
  obtain rfl := hpredicate noveltyKey hmatched
  rw [hcondition, Condition.allows] at hallows
  obtain ⟨k, k', hinner⟩ := allOf_mem hallows _ houter
  rw [Condition.allows] at hinner
  obtain ⟨i, i', hwindow⟩ := allOf_mem hinner _ hmem
  refine ⟨i, ?_⟩
  rw [Condition.allows] at hwindow
  simp only [Option.getD_none, hid, hliteral, if_false] at hwindow
  exact congrArg Prod.fst (Except.ok.inj hwindow)

/-- A fire is recorded under its novelty key when the args of its entry can be read. -/
theorem onFire_recorded {r : Result} {args : Dict} (hargs : entryArgs entry = .ok args)
    (hkey : r.noveltyKey ≠ "") :
    (onFire py company entry s t r).2.lastFired (t.id, r.noveltyKey) = some t.firedAt := by
  have howner : entryKey py company entry .owner =
      .ok (firstText py args ["owner_id", "owner_person", "owner_person_id"]) := by
    simp [entryKey, hargs, bind, Except.bind, pure, Except.pure]
  have hdomain : entryKey py company entry .domain = .ok (firstText py args ["domain_id", "domain"]) := by
    simp [entryKey, hargs, bind, Except.bind, pure, Except.pure]
  unfold onFire
  rw [howner, hdomain]
  cases sourceSeq entry <;> simp [Stores.record, hkey]

variable {κ μ : Type} [DecidableEq μ] {S : Speaker κ μ}

/-- The registry knows the last time that something was said about each. -/
def Speaker.Recorded (S : Speaker κ μ) (st : Stores × List (Said μ)) : Prop :=
  ∀ m, st.1.lastFired (S.id, S.key m) = lastSaid st.2 m

/-- What a turn makes of the log and of the record: nothing, or the entry is about something, which
    goes into both. -/
theorem Speaker.spoke {st st' : Stores × List (Said μ)} {b : Binding κ S.keeper.id} (hsettled : S.Settled entry b)
    (hkept : Kept py company S.keeper entry st b st') :
    (st'.2 = st.2 ∧ (∀ m, st'.1.lastFired (S.id, S.key m) = st.1.lastFired (S.id, S.key m)) ∧
      S.Novel py company entry st b) ∨
    ∃ call m, b = .own call ∧ (S.turn entry call).reaches py company entry st.1 = true ∧
      S.about entry call = some m ∧ st'.2 = st.2 ++ [⟨m, (S.turn entry call).firedAt⟩] ∧
        ∀ m', st'.1.lastFired (S.id, S.key m') =
          if m = m' then some (S.turn entry call).firedAt else st.1.lastFired (S.id, S.key m') := by
  cases hkept with
  | idle call hreach =>
    refine .inl ⟨rfl, fun _ => rfl, fun hreached => ?_⟩
    have hreach' : (S.turn entry call).reaches py company entry st.1 = false := hreach
    rw [hreach'] at hreached
    cases hreached
  | other t hid => exact .inl ⟨rfl, fun m => Turn.run_lastFired (Ne.symm hid), trivial⟩
  | quiet call hreach hquiet =>
    have hnone : S.about entry call = none := by
      by_contra hsome
      obtain ⟨m, hm⟩ := Option.ne_none_iff_exists'.mp hsome
      obtain ⟨r, hfire, hfired, -⟩ := S.reports hsettled.1 hm st.1
      rw [hquiet r hfire] at hfired
      cases hfired
    refine .inl ⟨by simp [Speaker.said, hnone], fun _ => rfl, fun _ m hm => ?_⟩
    rw [hnone] at hm
    cases hm
  | fired call r hreach hfire hfired =>
    obtain ⟨m, hm⟩ := S.fires hfire hfired
    obtain ⟨r', hfire', -, hkey⟩ := S.reports hsettled.1 hm st.1
    obtain rfl : r = r' := Except.ok.inj (hfire.symm.trans hfire')
    obtain ⟨args, hargs⟩ := S.reads hm
    refine .inr ⟨call, m, rfl, hreach, hm, by simp [Speaker.said, hm], fun m' => ?_⟩
    have hid := S.turn_id entry call
    by_cases hsame : m = m'
    · subst hsame
      have hrecorded := @onFire_recorded py company entry st.1 (S.turn entry call) r args hargs
        (by rw [hkey]; exact S.key_ne m)
      rw [hid, hkey] at hrecorded
      simpa using hrecorded
    · rw [if_neg hsame]
      refine onFire_lastFired fun heq => hsame ?_
      rw [hkey, Prod.mk.injEq] at heq
      exact (S.key_inj m' m heq.2).symm

theorem Speaker.recorded_kept {st st' : Stores × List (Said μ)} {b : Binding κ S.keeper.id} (h : S.Recorded st)
    (hsettled : S.Settled entry b) (hkept : Kept py company S.keeper entry st b st') : S.Recorded st' := by
  intro m'
  rcases S.spoke hsettled hkept with ⟨hlog, hfired, -⟩ | ⟨call, m, -, -, -, hlog, hfired⟩
  · rw [hfired, hlog, h m']
  · rw [hfired, hlog, lastSaid_concat, h m']

/-- A turn keeps the distance exactly if what it says is novel under its own key. -/
theorem Speaker.apart_kept {st st' : Stores × List (Said μ)} {b : Binding κ S.keeper.id} (h : S.Recorded st)
    (hsettled : S.Settled entry b) (hkept : Kept py company S.keeper entry st b st') :
    Apart S.window st'.2 ↔ Apart S.window st.2 ∧ S.Novel py company entry st b := by
  rcases S.spoke hsettled hkept with ⟨hlog, -, hnovel⟩ | ⟨call, m, rfl, hreach, hm, hlog, -⟩
  · rw [hlog]
    exact (and_iff_left hnovel).symm
  · rw [hlog, apart_concat S.window_nonneg]
    refine and_congr_right fun _ => ?_
    have hlast : (∀ t, lastSaid st.2 m = some t → t < (S.turn entry call).firedAt - S.window) ↔
        novel st.1 S.id (S.key m) S.window (S.turn entry call).firedAt = true := by
      rw [novel_iff, h m]
    rw [hlast]
    constructor
    · intro hnovel _ m' hm' _
      obtain rfl := Option.some.inj (hm.symm.trans hm')
      exact hnovel
    · intro hnovel
      by_cases hliteral : S.key m = S.literal
      · -- here the condition has asked for the same key
        obtain ⟨i, hi⟩ := S.asks hreach
        rw [hliteral]
        exact novel_mono hi (hsettled.2 i)
      · exact hnovel hreach m hm hliteral

/-- When all that is said is reported, the window holds exactly if whatever is let through is novel
    under its own key. -/
theorem Speaker.windowHolds_iff (S : Speaker κ μ) (disabled : List String) (rs : List (Round κ S.id))
    (hsettled : ∀ r ∈ rs, ∀ b ∈ r.bindings, S.Settled r.entry b) :
    S.WindowHolds py company disabled rs ↔ Run.Guarded (S.keeper.step py company)
      (fun st r => S.keeper.Each py company (S.Novel py company) r.entry st r.bindings)
      (.fresh disabled, []) rs := by
  have hstart : S.Recorded (Stores.fresh disabled, []) := fun _ => rfl
  have hiff := fun {st'}
      (hrun : Run.exec (S.keeper.step py company) (.fresh disabled, []) rs = some st') =>
    (rounds_iff_of (fun entry st b st' h hb hkept => Speaker.recorded_kept h hb hkept)
      (fun entry st b st' h hb hkept => Speaker.apart_kept h hb hkept) hstart hsettled hrun).trans
        (and_iff_right List.Pairwise.nil)
  constructor
  · intro hholds
    obtain ⟨st', hrun⟩ := Run.exec_total (fun st r => ⟨_, rfl⟩) rs (Stores.fresh disabled, [])
    exact (hiff hrun).mp (hholds st' hrun)
  · intro hguarded st' hrun
    exact (hiff hrun).mpr hguarded

end

end Reactivity.Registry
