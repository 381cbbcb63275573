import Wormbase.Governance.InterjectionGate
import Wormbase.Lib.Run

/-! Runs of the interjection gate between writes of anybody.

    What the gate finds for a channel are the times that an allowance has spent: its own records of the channel and what
    others wrote like them. The records of one channel are none of another. -/

namespace Governance.InterjectionGate
open Py Ledger

/-! ### Runs -/

inductive Action where
  | write (c : Call)
  | allow (a : Ask)

/-- A step as an observer sees it: the rows of a write, or a question and its answer. -/
inductive Event where
  | wrote (new : List Entry)
  | asked (a : Ask) (answer : Except Err Bool)

structure State where
  rows : List Entry
  log : List Event

def State.init : State := ⟨[], []⟩

section
variable (sha256 : Bytes → Bytes) (d : Dialect) (g : Gate)

def State.next (s : State) : Action → State
  | .write c =>
    let out := write sha256 d s.rows c
    ⟨out.2, s.log ++ [.wrote (out.2.drop s.rows.length)]⟩
  | .allow a =>
    let out := allow sha256 d g s.rows a
    ⟨out.2, s.log ++ [.asked a out.1]⟩

def step (s : State) (a : Action) : Option State := some (s.next sha256 d g a)

end

/-! ### The allowance of a channel -/

def Concerns (channelId : String) (a : Ask) : Prop := a.questionType = .clarification ∧ a.channelId = channelId

instance (channelId : String) (a : Ask) : Decidable (Concerns channelId a) := inferInstanceAs (Decidable (_ ∧ _))

section
variable (d : Dialect) (g : Gate) (channelId : String)

/-- What an event is to the allowance of a channel. The answer is not looked at. -/
def eventOf : Event → Option Allowance.Event
  | .wrote new => some (.spend (g.stamps channelId new))
  | .asked a _ =>
    if Concerns channelId a then (g.windowStart a.now).toOption.map fun start => .ask start (ownStamp d a) else none

def eventsOf (log : List Event) : List Allowance.Event := log.filterMap (eventOf d g channelId)

/-- The answer to a clarifying question of a channel. -/
def answerOf : Event → Option (Except Err Bool)
  | .wrote _ => none
  | .asked a answer => if Concerns channelId a then some answer else none

def answersOf (log : List Event) : List (Except Err Bool) := log.filterMap (answerOf channelId)

/-- A clarifying question of a channel, asked on the UTC day that begins at `start`, that is allowed. -/
def grantedOn (start : Fin maxMicros) : Event → Bool
  | .wrote _ => false
  | .asked a answer =>
    decide (Concerns channelId a ∧ (g.windowStart a.now).toOption = some start ∧ answer.toOption = some true)

end

/-- The budget of clarifying questions is kept. Each call returns; no channel is granted more questions than the limit on
    a UTC day; and what a channel is answered depends on its own questions, and on what others write, alone. -/
structure Budgeted (d : Dialect) (g : Gate) (log : List Event) : Prop where
  returns : ∀ a answer, .asked a answer ∈ log → ∃ b, answer = .ok b
  within : ∀ channelId start, log.countP (grantedOn g channelId start) ≤ g.limit
  apart : ∀ channelId, answersOf channelId log =
    (Allowance.answers g.limit [] (eventsOf d g channelId log)).map .ok

/-! ### One call -/

/-- The clock's reading has a zone, on SQLite its wall clock is not before the UTC day of the reading, and every execute
    row of the company has a mapping under its args. -/
structure Ready (d : Dialect) (g : Gate) (rows : List Entry) (a : Ask) : Prop where
  aware : ∃ t, isoText a.now = .ok t
  ownDay : ∀ start, g.windowStart a.now = .ok start → start ≤ ownStamp d a
  readable : ∀ r ∈ rows, r.companyId = g.companyId → Readable r

/-- The ids that the call draws are new, and there is room for the seqs of its entries. -/
structure Drawn (g : Gate) (rows : List Entry) (a : Ask) : Prop where
  ids : [a.proposeId, a.executeId, a.verifyId, a.resolveId].Nodup
  unused : ∀ row ∈ rows, row.entryId ∉ [a.proposeId, a.executeId, a.verifyId, a.resolveId]
  seqs : ∀ k ≤ (ofCompany rows g.companyId).length + 4, checkInt k = .ok ()

variable {sha256 : Bytes → Bytes} {d : Dialect} {g : Gate} {rows new : List Entry} {a : Ask} {channelId : String}
  {start : Fin maxMicros} {count : ℕ} {s : State} {log : List Event}

theorem Drawn.room (h : Drawn g rows a) (hnow : ∃ t, isoText a.now = .ok t) {propose execute verify resolve : Dict}
    {quadrant : Quadrant} : Room rows (g.call a propose execute verify resolve quadrant) :=
  ⟨hnow, h.seqs, h.ids, h.unused⟩

theorem settled_askedArgs (a : Ask) : Settled (.dict (Gate.askedArgs a)) := by
  refine settled_entry (D := [("memory_id", _), ("content", _), ("tags", _)]) rfl (by simp) ?_
  simp only [List.forall_mem_cons]
  refine ⟨settled_str _, settled_str _, settled_list ?_, nofun⟩
  simp only [List.forall_mem_cons]
  exact ⟨settled_str _, settled_str _, nofun⟩

theorem settled_blockedArgs (hcount : checkInt count = .ok ()) (hlimit : checkInt g.limit = .ok ()) :
    Settled (.dict (g.blockedArgs a count start)) := by
  refine settled_entry (D := [("gate", _), ("outcome", _), ("subject_ref", _), ("reason", _), ("channel_id", _),
    ("current_count", _), ("limit", _), ("window_start", _)]) rfl (by simp) ?_
  simp only [List.forall_mem_cons]
  exact ⟨settled_str _, settled_str _, settled_str _, settled_str _, settled_str _, settled_int hcount,
    settled_int hlimit, settled_str _, nofun⟩

theorem blockedArgs_content (content : String) :
    (Dict.get (g.blockedArgs a count start) "content").isText content = false := rfl

theorem windowStart_aware (h : ∃ t, isoText a.now = .ok t) : ∃ start, g.windowStart a.now = .ok start := by
  obtain ⟨t, ht⟩ := h
  obtain ⟨o, u, ho, hu, -⟩ := isoText_iff.mp ht
  exact ⟨_, by rw [Gate.windowStart, ho, Option.getD_some, hu]⟩

theorem askedContent_inj {c c' : String} (h : askedContent c = askedContent c') : c = c' := by
  have hlist := congrArg String.toList h
  rw [askedContent, askedContent, String.toList_append, String.toList_append] at hlist
  exact String.toList_inj.mp (List.append_cancel_left hlist)

/-- A clarifying question is answered by what is spent of the allowance of its channel, and spends of it when it is
    allowed. -/
theorem allow_ready (hinj : Function.Injective sha256) (hsound : Sound sha256 d rows) (hdrawn : Drawn g rows a)
    (hready : Ready d g rows a) (hclar : a.questionType = .clarification) :
    ∃ start new, g.windowStart a.now = .ok start ∧
      allow sha256 d g rows a = (.ok (decide (Allowance.used start (g.stamps a.channelId rows) < g.limit)), rows ++ new) ∧
      Sound sha256 d (rows ++ new) ∧ ∀ channelId, g.stamps channelId new =
        if a.channelId = channelId ∧ Allowance.used start (g.stamps a.channelId rows) < g.limit then [ownStamp d a]
        else [] := by
  obtain ⟨start, hstart⟩ := @windowStart_aware g a hready.aware
  have hcount : countAsked a.channelId start (fetchEntries d rows g.companyId none) = _ :=
    countAsked_fetch hready.readable
  rw [allow, if_neg (not_not.mpr hclar), hstart]
  simp only [hcount]
  by_cases hfree : Allowance.used start (g.stamps a.channelId rows) < g.limit
  · obtain ⟨res, new, hw, hstamps⟩ := @call_written sha256 d g rows a hinj hsound _ _ _ _ _ _ _ _
      (settled_askedArgs a) (g.askedCall a) rfl (hdrawn.room hready.aware)
    have hsound' := sound_write hsound (g.askedCall a)
    rw [hw] at hsound'
    refine ⟨start, new, rfl, ?_, hsound', fun channelId => ?_⟩
    · rw [if_pos hfree, hw, decide_eq_true hfree]
      rfl
    · have hcontent : (Dict.get (Gate.askedArgs a) "content").isText (askedContent channelId) = true ↔
          a.channelId = channelId :=
        Val.isText_iff.trans ⟨fun h => askedContent_inj (Val.str.inj h), fun h => h ▸ rfl⟩
      rw [hstamps]
      simp only [hcontent, hfree, and_true]
  · have hlen : Allowance.used start (g.stamps a.channelId rows) ≤ (ofCompany rows g.companyId).length + 4 :=
      ((List.countP_le_length).trans (List.length_filterMap_le _ _)).trans (Nat.le_add_right _ _)
    obtain ⟨res, new, hw, hstamps⟩ := @call_written sha256 d g rows a hinj hsound _ _ _ _ _ _ _ _
      (settled_blockedArgs (hdrawn.seqs _ hlen) (hdrawn.seqs _ ((not_lt.mp hfree).trans hlen)))
      (g.blockedCall a _ start) rfl (hdrawn.room hready.aware)
    have hsound' := sound_write hsound (g.blockedCall a (Allowance.used start (g.stamps a.channelId rows)) start)
    rw [hw] at hsound'
    refine ⟨start, new, rfl, ?_, hsound', fun channelId => ?_⟩
    · rw [if_neg hfree, hw, decide_eq_false hfree]
      rfl
    · rw [hstamps, blockedArgs_content, if_neg Bool.false_ne_true, if_neg fun h => hfree h.2]

/-- A question raises what the loop over the rows raises. -/
theorem allow_unreadable {y : Err} (hclar : a.questionType = .clarification) (hstart : g.windowStart a.now = .ok start)
    (h : countAsked a.channelId start (fetchEntries d rows g.companyId none) = .error y) :
    allow sha256 d g rows a = (.error y, rows) := by
  rw [allow, if_neg (not_not.mpr hclar), hstart]
  simp only [h]

/-! ### The invariant of a run -/

/-- The rows hold for each channel what its allowance has spent, and the answers so far were those of the allowance. -/
structure Kept (sha256 : Bytes → Bytes) (d : Dialect) (g : Gate) (s : State) : Prop where
  sound : Sound sha256 d s.rows
  returns : ∀ a answer, .asked a answer ∈ s.log → ∃ b, answer = .ok b
  spent : ∀ channelId, g.stamps channelId s.rows = Allowance.run g.limit [] (eventsOf d g channelId s.log)
  apart : ∀ channelId, answersOf channelId s.log =
    (Allowance.answers g.limit [] (eventsOf d g channelId s.log)).map .ok
  granted : ∀ channelId start, s.log.countP (grantedOn g channelId start) =
    Allowance.granted g.limit start [] (eventsOf d g channelId s.log)
  own : ∀ channelId since time, .ask since time ∈ eventsOf d g channelId s.log → since ≤ time

theorem kept_init : Kept sha256 d g State.init where
  sound := sound_nil
  returns _ _ h := absurd h List.not_mem_nil
  spent _ := rfl
  apart _ := rfl
  granted _ _ := by simp only [State.init, List.countP_nil, eventsOf, List.filterMap_nil, Allowance.granted]
  own _ _ _ h := absurd h List.not_mem_nil

section
variable {e : Event}

theorem eventsOf_snoc (channelId : String) : eventsOf d g channelId (log ++ [e]) =
    eventsOf d g channelId log ++ (eventOf d g channelId e).toList := by
  rw [eventsOf, List.filterMap_append]
  cases hx : eventOf d g channelId e with
  | none => simp [eventsOf, hx]
  | some x => simp [eventsOf, hx]

theorem answersOf_snoc (channelId : String) :
    answersOf channelId (log ++ [e]) = answersOf channelId log ++ (answerOf channelId e).toList := by
  rw [answersOf, List.filterMap_append]
  cases hx : answerOf channelId e with
  | none => simp [answersOf, hx]
  | some x => simp [answersOf, hx]

/-- An event that is to the rows and to the answers what it is to each allowance keeps the invariant. -/
theorem Kept.snoc (h : Kept sha256 d g s) (hsound : Sound sha256 d (s.rows ++ new))
    (hreturns : ∀ a answer, e = .asked a answer → ∃ b, answer = .ok b)
    (hspent : ∀ channelId, g.stamps channelId (s.rows ++ new) =
      Allowance.run g.limit (g.stamps channelId s.rows) (eventOf d g channelId e).toList)
    (hanswer : ∀ channelId, (answerOf channelId e).toList = (Allowance.answers g.limit (g.stamps channelId s.rows)
      (eventOf d g channelId e).toList).map .ok)
    (hgranted : ∀ channelId start, (if grantedOn g channelId start e = true then 1 else 0) =
      Allowance.granted g.limit start (g.stamps channelId s.rows) (eventOf d g channelId e).toList)
    (hown : ∀ channelId since time, eventOf d g channelId e = some (.ask since time) → since ≤ time) :
    Kept sha256 d g ⟨s.rows ++ new, s.log ++ [e]⟩ := by
  refine ⟨hsound, ?_, fun channelId => ?_, fun channelId => ?_, fun channelId start => ?_, ?_⟩
  · intro a answer hin
    rcases List.mem_append.mp hin with hin | hin
    · exact h.returns a answer hin
    · exact hreturns a answer (List.mem_singleton.mp hin).symm
  · rw [eventsOf_snoc, Allowance.run_append, ← h.spent, hspent]
  · rw [eventsOf_snoc, answersOf_snoc, Allowance.answers_append, List.map_append, ← h.spent, ← h.apart, hanswer]
  · rw [eventsOf_snoc, List.countP_append, Allowance.granted_append, List.countP_singleton, ← h.spent, ← h.granted,
      hgranted]
  · intro channelId since time hin
    rw [eventsOf_snoc] at hin
    rcases List.mem_append.mp hin with hin | hin
    · exact h.own channelId since time hin
    · exact hown channelId since time (Option.mem_toList.mp hin)

end

theorem kept_write (h : Kept sha256 d g s) (c : Call) : Kept sha256 d g (s.next sha256 d g (.write c)) := by
  have hsound := sound_write h.sound c
  obtain ⟨new, hnew⟩ : ∃ new, (write sha256 d s.rows c).2 = s.rows ++ new := by
    rcases @write_cases sha256 d s.rows c with ⟨res, ep, vp, rp, p, e, v, r, -, hw⟩ | ⟨x, hw⟩
    · exact ⟨_, congrArg Prod.snd hw⟩
    · exact ⟨[], by rw [hw, List.append_nil]⟩
  simp only [State.next, hnew, List.drop_left] at hsound ⊢
  refine h.snoc hsound (fun _ _ heq => Event.noConfusion heq) (fun channelId => stamps_append) (fun _ => rfl)
    (fun channelId start => ?_) fun _ _ _ heq => ?_
  · simp only [grantedOn, eventOf, Option.toList_some, Allowance.granted, Bool.false_eq_true, if_false]
  · cases heq

theorem eventOf_clarification (hclar : a.questionType = .clarification) (hstart : g.windowStart a.now = .ok start)
    (answer : Except Err Bool) : eventOf d g channelId (.asked a answer) =
      if a.channelId = channelId then some (.ask start (ownStamp d a)) else none := by
  simp only [eventOf, Concerns, hclar, true_and, hstart]
  rfl

/-- A question of the channel and one of another channel. -/
theorem kept_clarification (hinj : Function.Injective sha256) (h : Kept sha256 d g s) (hdrawn : Drawn g s.rows a)
    (hready : Ready d g s.rows a) (hclar : a.questionType = .clarification) :
    Kept sha256 d g (s.next sha256 d g (.allow a)) := by
  obtain ⟨start, new, hstart, hallow, hsound, hstamps⟩ := allow_ready hinj h.sound hdrawn hready hclar
  simp only [State.next, hallow]
  refine h.snoc hsound ?_ (fun channelId => ?_) (fun channelId => ?_) (fun channelId start' => ?_) ?_
  · rintro a' answer heq
    cases heq
    exact ⟨_, rfl⟩
  · rw [stamps_append, hstamps, eventOf_clarification hclar hstart]
    by_cases hchannel : a.channelId = channelId
    · subst hchannel
      simp only [true_and, if_true, Option.toList_some, Allowance.run, List.foldl_cons, List.foldl_nil, Allowance.after]
      split
      · rfl
      · exact List.append_nil _
    · simp only [hchannel, false_and, if_false, Option.toList_none, List.append_nil]
      rfl
  · rw [eventOf_clarification hclar hstart]
    by_cases hchannel : a.channelId = channelId
    · subst hchannel
      simp only [answerOf, Concerns, hclar, true_and, if_true, Option.toList_some]
      rfl
    · simp only [answerOf, Concerns, hclar, hchannel, and_false, if_false, Option.toList_none]
      rfl
  · rw [eventOf_clarification hclar hstart]
    by_cases hchannel : a.channelId = channelId
    · subst hchannel
      simp only [if_true, Option.toList_some, Allowance.granted, grantedOn, Concerns, hclar, hstart, true_and,
        decide_eq_true_eq, Except.toOption, Option.some.injEq, Nat.add_zero]
      congr 1
      exact propext (and_congr_left' ⟨fun h => by rw [h], fun h => Fin.ext (by exact_mod_cast h)⟩)
    · simp only [hchannel, if_false, Option.toList_none, Allowance.granted, grantedOn, Concerns, and_false, false_and,
        decide_false, Bool.false_eq_true]
  · intro channelId since time heq
    rw [eventOf_clarification hclar hstart] at heq
    split at heq
    · cases heq
      exact hready.ownDay start hstart
    · cases heq

theorem kept_allow (hinj : Function.Injective sha256) (h : Kept sha256 d g s)
    (hguard : a.questionType = .clarification → Drawn g s.rows a ∧ Ready d g s.rows a) :
    Kept sha256 d g (s.next sha256 d g (.allow a)) := by
  by_cases hclar : a.questionType = .clarification
  · exact kept_clarification hinj h (hguard hclar).1 (hguard hclar).2 hclar
  · have hsnoc := @Kept.snoc sha256 d g [] s (.asked a (.ok true)) h
    have hevent : ∀ channelId, eventOf d g channelId (.asked a (.ok true)) = none := fun channelId =>
      if_neg fun hc => hclar hc.1
    simp only [hevent, List.append_nil] at hsnoc
    rw [State.next, allow, if_pos hclar]
    refine hsnoc h.sound ?_ (fun _ => rfl) (fun channelId => ?_) (fun channelId start => ?_) nofun
    · rintro a' answer heq
      cases heq
      exact ⟨true, rfl⟩
    · rw [answerOf, if_neg fun hc => hclar hc.1]
      rfl
    · rw [if_neg]
      · rfl
      · simp [grantedOn, Concerns, hclar]

/-! ### Whole runs -/

/-- The ids of a clarifying question are new, and there is room for its entries. -/
def DrawnAt (g : Gate) (s : State) : Action → Prop
  | .write _ => True
  | .allow a => a.questionType = .clarification → Drawn g s.rows a

def ReadyAt (d : Dialect) (g : Gate) (s : State) : Action → Prop
  | .write _ => True
  | .allow a => a.questionType = .clarification → Ready d g s.rows a

/-- In every run whose clarifying questions are asked where the gate can read the rows and its own records fall on their
    day, the budget is kept. -/
theorem clarifications_budgeted {sha256 : Bytes → Bytes} (hinj : Function.Injective sha256) {d : Dialect} {g : Gate}
    {actions : List Action} {s : State} (hdrawn : Run.Guarded (step sha256 d g) (DrawnAt g) State.init actions)
    (hready : Run.Guarded (step sha256 d g) (ReadyAt d g) State.init actions)
    (h : Run.exec (step sha256 d g) State.init actions = some s) : Budgeted d g s.log := by
  have hkept : Kept sha256 d g s := by
    refine Run.guarded_invariant (fun s action s' hs hguard hstep => ?_) kept_init (hdrawn.and hready) h
    cases hstep
    cases action with
    | write c => exact kept_write hs c
    | allow a => exact kept_allow hinj hs fun hclar => ⟨hguard.1 hclar, hguard.2 hclar⟩
  refine ⟨hkept.returns, fun channelId start => ?_, hkept.apart⟩
  rw [hkept.granted]
  exact (Allowance.granted_le (hkept.own channelId)).trans (Nat.sub_le _ _)

/-! ### A write without args -/

/-- A reading of the clock as an instant. -/
def Gate.instant (g : Gate) (now : DateTime) : ℤ := now.wall - (now.utcoffset.getD (g.zone now.wall)).1

def Action.now? : Action → Option DateTime
  | .write _ => none
  | .allow a => some a.now

/-- The clock never goes back. -/
def Forward (g : Gate) (actions : List Action) : Prop :=
  (actions.filterMap Action.now?).Pairwise fun t t' => g.instant t ≤ g.instant t'

def sampleGate : Gate := ⟨⟨1⟩, 3, fun _ => DateTime.utc⟩

/-- A clarifying question at midnight. -/
def sampleAsk : Ask := ⟨"general", .clarification, midnight, ⟨100⟩, ⟨101⟩, ⟨102⟩, ⟨103⟩, ⟨104⟩, ⟨105⟩⟩

theorem sampleAsk_drawn {rows : List Entry} (hids : ∀ row ∈ rows, row.entryId ∈ [⟨2⟩, ⟨3⟩, ⟨4⟩, ⟨5⟩])
    (hlen : rows.length ≤ 4) : Drawn sampleGate rows sampleAsk := by
  refine ⟨by decide, fun row hrow hin => ?_, fun k hk => ?_⟩
  · have hdisjoint : ∀ id ∈ [(⟨2⟩ : UUID), ⟨3⟩, ⟨4⟩, ⟨5⟩], id ∉ [(⟨102⟩ : UUID), ⟨103⟩, ⟨104⟩, ⟨105⟩] := by decide
    exact hdisjoint _ (hids row hrow) hin
  · have hsmall : ∀ k ≤ 8, checkInt (k : ℕ) = .ok () := fun k hk => checkInt_small (by omega)
    refine hsmall k (hk.trans ?_)
    have := List.length_filter_le (fun e : Entry => decide (e.companyId = sampleGate.companyId)) rows
    exact Nat.add_le_add_right (this.trans hlen) 4

theorem sampleAsk_ready : Ready .sqlite sampleGate [] sampleAsk where
  aware := isoText_midnight
  ownDay start h := by
    obtain rfl : (⟨0, by decide⟩ : Fin maxMicros) = start := Except.ok.inj h
    exact le_of_eq rfl
  readable r hr := absurd hr List.not_mem_nil

/-- The first question of a ledger is within the budget. -/
theorem first_clarification_budgeted : ∃ s,
    Run.exec (step tagHash .sqlite sampleGate) State.init [.allow sampleAsk] = some s ∧
      Budgeted .sqlite sampleGate s.log :=
  ⟨_, rfl, @clarifications_budgeted tagHash tagHash_injective .sqlite sampleGate [.allow sampleAsk] _
    ⟨fun _ => @sampleAsk_drawn [] (fun _ h => absurd h List.not_mem_nil) (Nat.zero_le 4), fun _ _ => trivial⟩
    ⟨fun _ => sampleAsk_ready, fun _ _ => trivial⟩ rfl⟩

/-- After a write whose execute payload has no args, a clarifying question raises. -/
theorem write_without_args_stops_gate : ¬∀ (sha256 : Bytes → Bytes), Function.Injective sha256 → ∀ (d : Dialect) (g : Gate)
    (actions : List Action) (s : State), Run.Guarded (step sha256 d g) (DrawnAt g) State.init actions →
      Forward g actions → Run.exec (step sha256 d g) State.init actions = some s → Budgeted d g s.log := by
  intro hall
  obtain ⟨res, rows, hw⟩ := @sampleCall_returns midnight isoText_midnight
  rcases @write_cases tagHash .sqlite [] (sampleCall midnight []) with ⟨res', ep, vp, rp, p, e, v, r, hg, hw'⟩ | ⟨x, hx⟩
  · have hrows : (write tagHash .sqlite [] (sampleCall midnight [])).2 = [p, e, v, r] := congrArg Prod.snd hw'
    have hunreadable : counts "general" midnight.wall (normalizeRow e) = .error (keyError "args") := by
      obtain rfl := Except.ok.inj hg.execPayload
      have hpayload := Except.ok.inj hg.execute.payload
      obtain ⟨-, -, -, hkind, -, -⟩ := normalizeRow_fields e
      have hsame : (normalizeRow e).payload = e.payload := by
        unfold normalizeRow
        split <;> rfl
      rw [counts, hkind, hg.execute.fields.2.2.1, hsame, ← hpayload]
      rfl
    have hcompany : e.companyId = sampleGate.companyId := hg.company e (by simp)
    have hfetched : normalizeRow e ∈ fetchEntries .sqlite [p, e, v, r] sampleGate.companyId none :=
      mem_fetchEntries.mpr ⟨e, by simp, hcompany, rfl⟩
    obtain ⟨y, hy⟩ := countAsked_error hfetched hunreadable
    have hallow : allow tagHash .sqlite sampleGate [p, e, v, r] sampleAsk = (.error y, [p, e, v, r]) :=
      allow_unreadable rfl (show sampleGate.windowStart sampleAsk.now = .ok midnight.wall from rfl) hy
    have hdrawn : Drawn sampleGate [p, e, v, r] sampleAsk := by
      refine sampleAsk_drawn (fun row hrow => ?_) le_rfl
      have hid : row.entryId ∈ [p, e, v, r].map (·.entryId) := List.mem_map_of_mem hrow
      rwa [hg.ids] at hid
    have hwrite : step tagHash .sqlite sampleGate State.init (.write (sampleCall midnight [])) =
        some ⟨[p, e, v, r], [.wrote [p, e, v, r]]⟩ := by
      simp only [step, State.next, State.init, hrows]
      rfl
    have hask : step tagHash .sqlite sampleGate ⟨[p, e, v, r], [.wrote [p, e, v, r]]⟩ (.allow sampleAsk) =
        some ⟨[p, e, v, r], [.wrote [p, e, v, r], .asked sampleAsk (.error y)]⟩ := by
      simp only [step, State.next, hallow]
      rfl
    have hguarded : Run.Guarded (step tagHash .sqlite sampleGate) (DrawnAt sampleGate) State.init
        [.write (sampleCall midnight []), .allow sampleAsk] :=
      Run.guarded_cons trivial hwrite ⟨fun _ => hdrawn, fun _ _ => trivial⟩
    have hbudget := hall tagHash tagHash_injective .sqlite sampleGate _ _ hguarded (List.pairwise_singleton ..)
      (Run.exec_cons.mpr ⟨_, hwrite, Run.exec_cons.mpr ⟨_, hask, rfl⟩⟩)
    obtain ⟨b, hb⟩ := hbudget.returns sampleAsk (.error y) (by simp)
    cases hb
  · cases hx.symm.trans hw

end Governance.InterjectionGate
