import Wormbase.ChatPresence.ChatStore
import Wormbase.Lib.Run

/-! The budget of a channel, over every sequence of policies, questions and observations.

    The gate counts against its own limit and never reads the policy; the observer reads the policy and
    never looks for a snapshot of the day. -/

namespace ChatPresence
open Py
open Ledger (Entry actions)
open Governance.InterjectionGate (Gate Ask State askedContent counts countAsked Readable recordOf allow answered grantedOn)

/-! ### Runs -/

/-- Somebody writes an action, a question is asked, or the observer is given an entry. -/
inductive Op where
  | write (c : Ledger.Call) (tool : String) (args : List (String × Val)) (hacts : c.Acts tool args)
  | allow (a : Ask)
  | observe (entry : Dict) (w : Draw)

/-- A channel, a UTC day and a budget. -/
def Observation.key (o : Observation) : String × Fin maxMicros × ℤ :=
  (o.channelId, o.start, o.policy.dailyInterjectionBudget)

/-- The ledger with the questions so far, and the snapshots that were written. -/
structure Channels where
  gate : State
  snapshots : List Observation

def Channels.start : Channels := ⟨.init, []⟩

def Channels.keys (s : Channels) : List (String × Fin maxMicros × ℤ) := s.snapshots.map Observation.key

section
variable (py : Interp) (sha256 : Bytes → Bytes) (d : Ledger.Dialect) (g : Gate)

def Channels.next (s : Channels) : Op → Channels
  | .write c _ _ _ => { s with gate := s.gate.next sha256 d g (.write c) }
  | .allow a => { s with gate := s.gate.next sha256 d g (.allow a) }
  | .observe entry w =>
    let done := fire d g py sha256 s.gate.rows entry w
    ⟨{ s.gate with rows := done.2.2 }, s.snapshots ++ done.2.1.toList⟩

def step (s : Channels) (op : Op) : Option Channels := some (s.next py sha256 d g op)

/-- The ledger takes a write. -/
def Takes (rows : List Entry) (c : Ledger.Call) : Prop := ∃ res, (Ledger.write sha256 d rows c).1 = .ok res

/-- How many questions of a channel were allowed on a UTC day. -/
def granted (s : Channels) (channelId : String) (start : Fin maxMicros) : ℕ :=
  s.gate.log.countP (grantedOn g channelId start)

/-- What a step owes: a question is allowed only below the budget of its channel; no two snapshots are of
    one channel, day and budget; and the observer leaves every policy as it was. -/
structure Enforced (s : Channels) (op : Op) (s' : Channels) : Prop where
  budgeted : ∀ a, op = .allow a → a.questionType = .clarification →
    (allow sha256 d g s.gate.rows a).1 = .ok true → ∃ start policy, g.windowStart a.now = .ok start ∧
      readPolicy d g s.gate.rows a.channelId = .ok policy ∧
        (granted g s a.channelId start : ℤ) < policy.dailyInterjectionBudget
  once : s'.keys.Nodup
  unchanged : ∀ entry w, op = .observe entry w → ∀ channelId,
    readPolicy d g s'.gate.rows channelId = readPolicy d g s.gate.rows channelId

/-- The records of a channel since midnight. -/
def recorded (rows : List Entry) (channelId : String) (start : Fin maxMicros) : ℕ :=
  Allowance.used start (g.stamps channelId rows)

/-- An entry tells of a question in a channel whose records of the day have reached the budget, and the
    ledger takes the snapshot. -/
structure Consumed (rows : List Entry) (entry : Dict) (w : Draw) (o : Observation) : Prop where
  asked : ∃ args, Reactivity.Registry.entryArgs entry = .ok args ∧
    "clarify_asked:".toList.isPrefixOf ((Dict.get args "content").text py).toList = true ∧
      o.channelId = afterColon ((Dict.get args "content").text py)
  now : (entry.get "ts").or (.datetime w.mint.now) = .datetime o.now
  start : g.windowStart o.now = .ok o.start
  count : o.count = recorded g rows o.channelId o.start
  policy : readPolicy d g rows o.channelId = .ok o.policy
  reached : o.policy.dailyInterjectionBudget ≤ o.count
  taken : Takes sha256 d rows (o.call g w)

/-- A question that finds the gate's limit free finds the budget free too; and no entry tells of a
    consumed budget that has its snapshot of the day. -/
def Within (s : Channels) : Op → Prop
  | .write _ _ _ _ => True
  | .allow a => a.questionType = .clarification → ∀ start, g.windowStart a.now = .ok start →
      recorded g s.gate.rows a.channelId start < g.limit → Takes sha256 d s.gate.rows (g.askedCall a) →
        ∃ policy, readPolicy d g s.gate.rows a.channelId = .ok policy ∧
          (granted g s a.channelId start : ℤ) < policy.dailyInterjectionBudget
  | .observe entry w => ∀ o, Consumed py sha256 d g s.gate.rows entry w o → o.key ∉ s.keys

end

/-! ### What is read of the actions -/

section
variable {channelId : String} {start : Fin maxMicros} {rows : List Entry} {args : Dict}

/-- What an action is to the policy of a channel. -/
def setsPolicy (channelId : String) (a : String × Dict) : Except Err (Option Dict) :=
  if a.1 = "emit_policy_applied" then
    if (Dict.get a.2 "policy_name").isText "policy:channel_talkativeness" then do
      let appliesTo ← orMapping (Dict.get a.2 "applies_to")
      return if (Dict.get appliesTo "channel_id").isText channelId then some a.2 else none
    else .ok none
  else .ok none

/-- The args of a policy set it for the one channel that they apply to. -/
theorem setsPolicy_applies {channel : String} (hname : Dict.get args "policy_name" = .str "policy:channel_talkativeness")
    (happlies : Dict.get args "applies_to" =
      .dict ([("scope", .str "channel"), ("channel_id", .str channel)].map strItem)) :
    setsPolicy channelId ("emit_policy_applied", args) = .ok (if channel = channelId then some args else none) := by
  rw [setsPolicy, if_pos rfl, hname, happlies, orMapping_dict]
  simp [Dict.get, Dict.get?, strItem, Val.isText, bind, Except.bind, pure, Except.pure]

theorem applies_back (channel : String) :
    backOf (.dict [strItem ("scope", .str "channel"), strItem ("channel_id", .str channel)]) =
      .dict [strItem ("scope", .str "channel"), strItem ("channel_id", .str channel)] := by
  have happlies : Ledger.Settled (.dict ([("scope", .str "channel"), ("channel_id", .str channel)].map strItem)) :=
    Ledger.settled_dict (by simp) (by simp [Ledger.settled_str])
  exact backOf_eq happlies.column

/-- The args that set the policy of a channel, after one more action. -/
def noted (channelId : String) (latest : Option Dict) (a : String × Dict) : Except Err (Option Dict) := do
  return (← setsPolicy channelId a).or latest

theorem channelPolicy_action {r : Entry} (h : r.kind = .execute → (Ledger.action r).isSome) :
    channelPolicy channelId r = ((Ledger.action r).elim (.ok none) (setsPolicy channelId)) := by
  unfold channelPolicy
  by_cases hkind : r.kind = .execute
  · rw [if_neg (not_not.mpr hkind)]
    obtain ⟨⟨tool, args⟩, haction⟩ := Option.isSome_iff_exists.mp (h hkind)
    obtain ⟨-, payload, hpayload, htool, hargs⟩ := Ledger.action_eq_some.mp haction
    rw [haction, hpayload]
    simp only [htool, hargs, orMapping_dict, Option.elim_some, setsPolicy, Val.isText, decide_eq_true_eq, bind,
      Except.bind]
    rfl
  · rw [if_pos hkind, Ledger.action_none hkind]
    rfl

theorem policyArgs_eq : ∀ {rows : List Entry} {latest : Option Dict},
    (∀ r ∈ rows, r.kind = .execute → (Ledger.action r).isSome) →
      policyArgs channelId latest rows = (rows.filterMap Ledger.action).foldlM (noted channelId) latest
  | [], _, _ => rfl
  | r :: rows, latest, h => by
    obtain ⟨hr, hrows⟩ := List.forall_mem_cons.mp h
    have ih := fun latest => @policyArgs_eq rows latest hrows
    rw [policyArgs, channelPolicy_action hr, List.filterMap_cons]
    cases Ledger.action r with
    | none => exact ih latest
    | some a =>
      simp only [Option.elim_some, List.foldlM_cons, noted]
      cases setsPolicy channelId a with
      | error x => rfl
      | ok found =>
        cases found with
        | none => exact ih latest
        | some args => exact ih (some args)

/-- A row with an action counts for the store as it counts for the gate. -/
theorem countsToday_action {r : Entry} (h : r.kind = .execute → (Ledger.action r).isSome) :
    countsToday channelId start r = counts channelId start r := by
  unfold countsToday counts
  by_cases hkind : r.kind = .execute
  · rw [if_neg (not_not.mpr hkind), if_neg (not_not.mpr hkind)]
    obtain ⟨⟨tool, args⟩, haction⟩ := Option.isSome_iff_exists.mp (h hkind)
    obtain ⟨-, payload, hpayload, -, hargs⟩ := Ledger.action_eq_some.mp haction
    have hitem : Governance.InterjectionGate.argsOf (.dict payload) = .ok (.dict args) := by
      rw [Governance.InterjectionGate.argsOf, Dict.item]
      rw [Dict.get] at hargs
      cases hget : Dict.get? payload "args" with
      | none => simp [hget] at hargs
      | some v =>
        rw [hget] at hargs
        exact congrArg Except.ok hargs
    rw [hpayload]
    simp only [hargs, orMapping_dict, hitem, bind, Except.bind]
    rfl
  · rw [if_pos hkind, if_pos hkind]

theorem countToday_action : ∀ {rows : List Entry}, (∀ r ∈ rows, r.kind = .execute → (Ledger.action r).isSome) →
    countToday channelId start rows = countAsked channelId start rows
  | [], _ => rfl
  | r :: rows, h => by
    obtain ⟨hr, hrows⟩ := List.forall_mem_cons.mp h
    rw [countToday, countAsked, countsToday_action hr, countToday_action hrows]

end

/-! ### Readings of a ledger whose rows all act -/

/-- The rows are a sound ledger, and every execute row of the company shows an action. -/
structure Kept (sha256 : Bytes → Bytes) (d : Ledger.Dialect) (g : Gate) (rows : List Entry) : Prop where
  sound : Ledger.Sound sha256 d rows
  acting : Ledger.Acting g.companyId rows

section
variable {py : Interp} {sha256 : Bytes → Bytes} {d : Ledger.Dialect} {g : Gate} {rows rows' : List Entry}
  {channelId : String} {c : Ledger.Call} {tool : String} {args : List (String × Val)} {entry : Dict} {w : Draw}
  {o : Observation}

theorem kept_nil : Kept sha256 d g [] := ⟨Ledger.sound_nil, Ledger.acting_nil⟩

theorem Kept.write (h : Kept sha256 d g rows) (hacts : c.Acts tool args) :
    Kept sha256 d g (Ledger.write sha256 d rows c).2 :=
  ⟨Ledger.sound_write h.sound c, Ledger.acting_write h.acting hacts⟩

theorem Kept.readable (h : Kept sha256 d g rows) : ∀ r ∈ rows, r.companyId = g.companyId → Readable r := by
  intro r hr hcompany hkind
  obtain ⟨⟨tool, args⟩, haction⟩ :=
    Option.isSome_iff_exists.mp (h.acting r (List.mem_filter.mpr ⟨hr, decide_eq_true hcompany⟩) hkind)
  obtain ⟨-, payload, hpayload, -, hargs⟩ := Ledger.action_eq_some.mp haction
  refine ⟨payload, args, hpayload, ?_⟩
  rw [Dict.get] at hargs
  cases hget : Dict.get? payload "args" with
  | none => simp [hget] at hargs
  | some v =>
    rw [hget] at hargs
    exact congrArg some hargs

theorem Kept.readPolicy (h : Kept sha256 d g rows) : readPolicy d g rows channelId =
    ((actions g.companyId rows).foldlM (noted channelId) none).bind policyOf := by
  obtain ⟨hacts, hrows⟩ := Ledger.fetch_acting h.sound h.acting
  rw [ChatPresence.readPolicy, fetch, policyArgs_eq hrows, hacts]
  rfl

theorem Kept.countAsked (h : Kept sha256 d g rows) (start : Fin maxMicros) :
    countAsked channelId start (fetch d g rows) = .ok (recorded g rows channelId start) :=
  Governance.InterjectionGate.countAsked_fetch h.readable

theorem Kept.countToday (h : Kept sha256 d g rows) (start : Fin maxMicros) :
    countToday channelId start (fetch d g rows) = .ok (recorded g rows channelId start) := by
  obtain ⟨-, hrows⟩ := Ledger.fetch_acting h.sound h.acting
  rw [fetch, countToday_action hrows]
  exact h.countAsked start

theorem Kept.recorded_le (h : Kept sha256 d g rows) (start : Fin maxMicros) :
    recorded g rows channelId start ≤ (actions g.companyId rows).length := by
  refine List.countP_le_length.trans ?_
  rw [Gate.stamps, actions, List.length_filterMap_eq_countP, List.length_filterMap_eq_countP]
  refine List.countP_mono_left fun r hr hrecord => ?_
  have hkind : r.kind = .execute := by
    by_contra hkind
    simp [recordOf, hkind] at hrecord
  exact h.acting r hr hkind

/-- What the observer finds before it writes. -/
theorem Kept.observe_iff (h : Kept sha256 d g rows) {clock : DateTime} :
    observe d g py rows entry clock = .ok (some o) ↔
      (∃ args, Reactivity.Registry.entryArgs entry = .ok args ∧
        "clarify_asked:".toList.isPrefixOf ((Dict.get args "content").text py).toList = true ∧
          o.channelId = afterColon ((Dict.get args "content").text py)) ∧
      (entry.get "ts").or (.datetime clock) = .datetime o.now ∧ g.windowStart o.now = .ok o.start ∧
        o.count = recorded g rows o.channelId o.start ∧ ChatPresence.readPolicy d g rows o.channelId = .ok o.policy ∧
          o.policy.dailyInterjectionBudget ≤ o.count := by
  unfold observe
  constructor
  · intro hobserve
    obtain ⟨args, hargs, hobserve⟩ := bind_eq_ok.mp hobserve
    simp only at hobserve
    split at hobserve
    · rename_i hprefix
      split at hobserve
      · rename_i now hnow
        obtain ⟨today, htoday, hobserve⟩ := bind_eq_ok.mp hobserve
        obtain ⟨policy, hpolicy, hobserve⟩ := bind_eq_ok.mp hobserve
        obtain ⟨start, hstart, htoday⟩ := bind_eq_ok.mp htoday
        rw [h.countToday] at htoday
        obtain rfl := Except.ok.inj htoday
        have hsome := Except.ok.inj hobserve
        split at hsome
        · cases hsome
        · rename_i hreached
          obtain rfl := Option.some.inj hsome
          exact ⟨⟨args, hargs, hprefix, rfl⟩, hnow, hstart, rfl, hpolicy, not_lt.mp hreached⟩
      · cases hobserve
    · cases hobserve
  · rintro ⟨⟨args, hargs, hprefix, hchannel⟩, hnow, hstart, hcount, hpolicy, hreached⟩
    obtain ⟨channelId, now, start, count, policy⟩ := o
    subst hchannel
    simp only at hnow hstart hcount hpolicy hreached
    subst hcount
    have htoday : countInterjectionsToday d g rows (afterColon ((Dict.get args "content").text py)) now =
        .ok (start, recorded g rows (afterColon ((Dict.get args "content").text py)) start) := by
      rw [countInterjectionsToday, hstart]
      simp only [bind, Except.bind, h.countToday]
      rfl
    rw [hargs]
    simp only [bind, Except.bind, hprefix, if_true, hnow, htoday, hpolicy]
    rw [if_neg (not_lt.mpr hreached)]
    rfl

theorem acts_call (o : Observation) (w : Draw) : (o.call g w).Acts "emit_policy_applied" (o.args w.snapshotId) :=
  Ledger.emit_acts (by simp [Observation.args])

/-- A call of `fire` leaves the rows alone, or its snapshot is written. -/
theorem Kept.fire_cases (h : Kept sha256 d g rows) (entry : Dict) (w : Draw) :
    ((fire d g py sha256 rows entry w).2 = (none, rows) ∧ ∀ o, ¬Consumed py sha256 d g rows entry w o) ∨
    ∃ o, Consumed py sha256 d g rows entry w o ∧ (∀ o', Consumed py sha256 d g rows entry w o' → o' = o) ∧
      (fire d g py sha256 rows entry w).2 = (some o, (Ledger.write sha256 d rows (o.call g w)).2) := by
  have hread : ∀ o, Consumed py sha256 d g rows entry w o → observe d g py rows entry w.mint.now = .ok (some o) :=
    fun o ho => h.observe_iff.mpr ⟨ho.asked, ho.now, ho.start, ho.count, ho.policy, ho.reached⟩
  unfold fire
  cases hobserve : observe d g py rows entry w.mint.now with
  | error x => exact .inl ⟨rfl, fun o ho => nomatch hobserve.symm.trans (hread o ho)⟩
  | ok found =>
    cases found with
    | none => exact .inl ⟨rfl, fun o ho => nomatch hobserve.symm.trans (hread o ho)⟩
    | some o =>
      simp only
      have hsame : ∀ o', Consumed py sha256 d g rows entry w o' → o' = o := fun o' ho' =>
        (Option.some.inj (Except.ok.inj (hobserve.symm.trans (hread o' ho')))).symm
      rcases @Ledger.write_cases sha256 d rows (o.call g w) with ⟨res, ep, vp, rp, p, e, v, r, -, hw⟩ | ⟨x, hw⟩
      · right
        obtain ⟨hasked, hnow, hstart, hcount, hpolicy, hreached⟩ := h.observe_iff.mp hobserve
        refine ⟨o, ⟨hasked, hnow, hstart, hcount, hpolicy, hreached, res, congrArg Prod.fst hw⟩, hsame, ?_⟩
        rw [hw]
      · left
        rw [hw]
        refine ⟨rfl, fun o' ho' => ?_⟩
        obtain rfl := hsame o' ho'
        obtain ⟨res, hres⟩ := ho'.taken
        rw [hw] at hres
        cases hres

/-! ### A snapshot is the policy it was made under -/

theorem talkativenessOf_name (t : Talkativeness) : talkativenessOf (.str t.name) = t := by
  cases t <;> decide

/-- The args of a written snapshot say the policy again. -/
theorem policyOf_snapshot {id : UUID} (hbudget : jsonColumn (.int o.policy.dailyInterjectionBudget) =
    .ok (backOf (.int o.policy.dailyInterjectionBudget))) : policyOf (some (backDict (o.args id))) = .ok o.policy := by
  have hint : backOf (.int o.policy.dailyInterjectionBudget) = .int o.policy.dailyInterjectionBudget :=
    comesBack_int _ _ hbudget
  have htalk : Dict.getD (backDict (o.args id)) "talkativeness" (.str "responsive") = .str o.policy.talkativeness.name := by
    simp [Dict.getD, Dict.get?, backDict, Observation.args]
  have hget : Dict.getD (backDict (o.args id)) "daily_interjection_budget" (.int 3) =
      .int o.policy.dailyInterjectionBudget := by
    simp [Dict.getD, Dict.get?, backDict, Observation.args, hint]
  rw [policyOf, htalk, hget, talkativenessOf_name]
  rfl

theorem setsPolicy_snapshot {id : UUID} : setsPolicy channelId ("emit_policy_applied", backDict (o.args id)) =
    .ok (if o.channelId = channelId then some (backDict (o.args id)) else none) := by
  refine setsPolicy_applies ?_ ?_
  · simp [Dict.get, Dict.get?, backDict, Observation.args]
  · simp [Dict.get, Dict.get?, backDict, Observation.args, applies_back]

/-- After a snapshot every channel has the policy that it had. -/
theorem Kept.readPolicy_snapshot (h : Kept sha256 d g rows) (ho : Consumed py sha256 d g rows entry w o) :
    ChatPresence.readPolicy d g (Ledger.write sha256 d rows (o.call g w)).2 channelId =
      ChatPresence.readPolicy d g rows channelId := by
  have hacts := @acts_call g o w
  obtain ⟨res, hres⟩ := ho.taken
  rcases @Ledger.actions_write sha256 d rows (o.call g w) _ _ hacts with ⟨res', rows', hw, happend, -⟩ | ⟨x, hw⟩
  · have hbudget := Ledger.written_args hacts hw ("daily_interjection_budget", .int o.policy.dailyInterjectionBudget)
      (by simp [Observation.args])
    have hpolicy := ho.policy
    rw [h.readPolicy] at hpolicy
    rw [(h.write hacts).readPolicy, h.readPolicy, hw]
    have happend' : actions g.companyId rows' = actions g.companyId rows ++
      [("emit_policy_applied", backDict (o.args w.snapshotId))] := happend
    simp only [happend', List.foldlM_append, List.foldlM_cons, List.foldlM_nil]
    by_cases hchannel : o.channelId = channelId
    · subst hchannel
      rw [hpolicy]
      obtain ⟨latest, hlatest, -⟩ := bind_eq_ok.mp hpolicy
      rw [hlatest]
      simp only [noted, setsPolicy_snapshot, bind, Except.bind, pure, Except.pure, if_true, Option.some_or]
      exact policyOf_snapshot hbudget
    · cases (actions g.companyId rows).foldlM (noted channelId) none with
      | error x => rfl
      | ok latest =>
        simp only [noted, setsPolicy_snapshot, bind, Except.bind, pure, Except.pure, if_neg hchannel, Option.none_or]
  · rw [hw] at hres
    cases hres

end

/-! ### One step -/

section
variable {py : Interp} {sha256 : Bytes → Bytes} {d : Ledger.Dialect} {g : Gate} {s : Channels} {rows : List Entry}
  {a : Ask}

theorem acts_askedCall (a : Ask) :
    (g.askedCall a).Acts "emit_memory_written" [("memory_id", .str a.memoryId.str),
      ("content", .str (askedContent a.channelId)),
      ("tags", .list [.str "clarify_asked", .str ("channel:" ++ a.channelId)])] :=
  ⟨⟨[("result_ref", .str "clarify_asked")], rfl, by simp⟩, by simp⟩

theorem acts_blockedCall (a : Ask) (count : ℕ) (start : Fin maxMicros) :
    (g.blockedCall a count start).Acts "emit_gate_fired" [("gate", .str "interjection"), ("outcome", .str "blocked"),
      ("subject_ref", .str a.channelId), ("reason", .str s!"budget {g.limit} exhausted"),
      ("channel_id", .str a.channelId), ("current_count", .int count), ("limit", .int g.limit),
      ("window_start", .str (DateTime.isoformat ⟨start, some DateTime.utc⟩))] :=
  ⟨⟨[("result_ref", .str "interjection")], rfl, by simp⟩, by simp⟩

/-- A clarifying question is allowed where the gate's own limit is free, if the ledger takes its record. -/
theorem Kept.allowed_iff (h : Kept sha256 d g rows) (hclar : a.questionType = .clarification) :
    (allow sha256 d g rows a).1 = .ok true ↔ ∃ start, g.windowStart a.now = .ok start ∧
      recorded g rows a.channelId start < g.limit ∧ Takes sha256 d rows (g.askedCall a) := by
  unfold allow
  rw [if_neg (not_not.mpr hclar)]
  cases hstart : g.windowStart a.now with
  | error x => exact iff_of_false nofun fun ⟨_, hother, _⟩ => nomatch hother
  | ok start =>
    have hcount : Governance.InterjectionGate.countAsked a.channelId start (Ledger.fetchEntries d rows g.companyId none) = _ := h.countAsked start
    simp only [hcount, Except.ok.injEq, exists_eq_left']
    by_cases hfree : recorded g rows a.channelId start < g.limit
    · rw [if_pos hfree, and_iff_right hfree, answered, Takes]
      cases (Ledger.write sha256 d rows (g.askedCall a)).1 with
      | error x => exact iff_of_false nofun fun ⟨_, hres⟩ => nomatch hres
      | ok res => exact iff_of_true rfl ⟨res, rfl⟩
    · rw [if_neg hfree, answered]
      refine iff_of_false (fun hanswer => ?_) fun hc => hfree hc.1
      cases hw : (Ledger.write sha256 d rows (g.blockedCall a (recorded g rows a.channelId start) start)).1 with
      | error x => simp [hw, Except.map] at hanswer
      | ok res => simp [hw, Except.map] at hanswer

theorem answered_rows (answer : Bool) (out : Except Err Ledger.WriteResult × List Entry) :
    (answered answer out).2 = out.2 := rfl

theorem Kept.allow (h : Kept sha256 d g rows) (a : Ask) : Kept sha256 d g (allow sha256 d g rows a).2 := by
  unfold Governance.InterjectionGate.allow
  split
  · exact h
  · split
    · exact h
    · split
      · exact h
      · split
        · rw [answered_rows]
          exact h.write (acts_askedCall a)
        · rw [answered_rows]
          exact h.write (acts_blockedCall a _ _)

theorem next_write {tool : String} {args : List (String × Val)} (c : Ledger.Call) (hacts : c.Acts tool args) :
    (s.next py sha256 d g (.write c tool args hacts)).gate.rows = (Ledger.write sha256 d s.gate.rows c).2 := by
  rw [Channels.next, State.next]

theorem next_allow (a : Ask) :
    (s.next py sha256 d g (.allow a)).gate.rows = (Governance.InterjectionGate.allow sha256 d g s.gate.rows a).2 := by
  rw [Channels.next, State.next]

theorem next_observe (entry : Dict) (w : Draw) :
    (s.next py sha256 d g (.observe entry w)).gate.rows = (fire d g py sha256 s.gate.rows entry w).2.2 := by
  rw [Channels.next]

theorem keys_write {tool : String} {args : List (String × Val)} (c : Ledger.Call) (hacts : c.Acts tool args) :
    (s.next py sha256 d g (.write c tool args hacts)).keys = s.keys := by
  rw [Channels.next, Channels.keys, Channels.keys]

theorem keys_allow (a : Ask) : (s.next py sha256 d g (.allow a)).keys = s.keys := by
  rw [Channels.next, Channels.keys, Channels.keys]

theorem kept_next (h : Kept sha256 d g s.gate.rows) (op : Op) : Kept sha256 d g (s.next py sha256 d g op).gate.rows := by
  cases op with
  | write c tool args hacts =>
    rw [next_write]
    exact h.write hacts
  | allow a =>
    rw [next_allow]
    exact h.allow a
  | observe entry w =>
    rw [next_observe]
    rcases @Kept.fire_cases py sha256 d g s.gate.rows h entry w with ⟨hfire, -⟩ | ⟨o, -, -, hfire⟩
    · rw [hfire]
      exact h
    · simp only [hfire]
      exact h.write (acts_call o w)

/-- A step does what it owes exactly if the budgets are within. -/
theorem enforced_iff (h : Kept sha256 d g s.gate.rows) (hkeys : s.keys.Nodup) (op : Op) :
    Enforced sha256 d g s op (s.next py sha256 d g op) ↔ Within py sha256 d g s op := by
  cases op with
  | write c tool args hacts => exact iff_of_true ⟨fun _ => nofun, (keys_write c hacts).symm ▸ hkeys, fun _ _ => nofun⟩ trivial
  | allow a =>
    constructor
    · intro henforced hclar start hstart hfree htakes
      obtain ⟨start', policy, hstart', hpolicy, hlt⟩ :=
        henforced.budgeted a rfl hclar ((h.allowed_iff hclar).mpr ⟨start, hstart, hfree, htakes⟩)
      obtain rfl := Except.ok.inj (hstart.symm.trans hstart')
      exact ⟨policy, hpolicy, hlt⟩
    · intro hwithin
      refine ⟨fun a' ha hclar hanswer => ?_, (keys_allow a).symm ▸ hkeys, fun _ _ => nofun⟩
      obtain rfl := Op.allow.inj ha
      obtain ⟨start, hstart, hfree, htakes⟩ := (h.allowed_iff hclar).mp hanswer
      obtain ⟨policy, hpolicy, hlt⟩ := hwithin hclar start hstart hfree htakes
      exact ⟨start, policy, hstart, hpolicy, hlt⟩
  | observe entry w =>
    rcases @Kept.fire_cases py sha256 d g s.gate.rows h entry w with ⟨hfire, hnone⟩ | ⟨o, ho, hsame, hfire⟩
    · have hnext : s.next py sha256 d g (.observe entry w) = s := by
        simp only [Channels.next, hfire, Option.toList_none, List.append_nil]
      rw [hnext]
      exact iff_of_true ⟨fun _ => nofun, hkeys, fun _ _ _ _ => rfl⟩ fun o ho => absurd ho (hnone o)
    · have hnext : s.next py sha256 d g (.observe entry w) = ⟨{ s.gate with
          rows := (Ledger.write sha256 d s.gate.rows (o.call g w)).2 }, s.snapshots ++ [o]⟩ := by
        simp only [Channels.next, hfire, Option.toList_some]
      have hnodup : (s.next py sha256 d g (.observe entry w)).keys.Nodup ↔ o.key ∉ s.keys := by
        rw [hnext, Channels.keys, List.map_append, List.map_singleton, List.nodup_append]
        constructor
        · rintro ⟨-, -, hdisjoint⟩ hin
          exact hdisjoint _ hin _ (List.mem_singleton_self _) rfl
        · intro hnew
          refine ⟨hkeys, List.nodup_singleton _, fun k hk k' hk' heq => hnew ?_⟩
          rwa [← List.mem_singleton.mp hk', ← heq]
      constructor
      · intro henforced o' ho'
        obtain rfl := hsame o' ho'
        exact hnodup.mp henforced.once
      · intro hwithin
        refine ⟨fun _ => nofun, hnodup.mpr (hwithin o ho), fun entry' w' hop channelId => ?_⟩
        rw [hnext]
        exact h.readPolicy_snapshot ho

end

/-! ### Whole runs -/

/-- In every run the budgets are enforced exactly if no question finds the gate's limit free and the budget of its
    channel consumed, and no entry tells of a consumed budget a second time on its day. -/
theorem budgets_enforced_iff {py : Interp} {sha256 : Bytes → Bytes} {d : Ledger.Dialect} {g : Gate} {ops : List Op} :
    Run.EachStep (step py sha256 d g) (Enforced sha256 d g) Channels.start ops ↔
      Run.Guarded (step py sha256 d g) (Within py sha256 d g) Channels.start ops := by
  refine @Run.eachStep_iff_guarded _ _ (step py sha256 d g) (Within py sha256 d g)
    (fun s => Kept sha256 d g s.gate.rows) (fun s => s.keys.Nodup) (Enforced sha256 d g) ?_ ?_ ?_ ?_ ops
    Channels.start kept_nil List.nodup_nil
  · rintro s op s' hs ⟨⟩
    exact kept_next hs op
  · intro s op s' henforced
    exact henforced.once
  · intro s op
    exact ⟨_, rfl⟩
  · rintro s op s' hs hkeys ⟨⟩
    exact enforced_iff hs hkeys op

/-! ### A channel that is to be left alone -/

/-- An admin silences a channel. -/
def silencedArgs (channelId : String) : List (String × Val) :=
  [("policy_id", .str (UUID.str ⟨7⟩)), ("policy_name", .str "policy:channel_talkativeness"),
    ("applies_to", .dict ([("scope", .str "channel"), ("channel_id", .str channelId)].map strItem)),
    ("rule", .str "lurker mode"), ("gate_impl", .str "channel_talkativeness_default"),
    ("talkativeness", .str "lurker"), ("daily_interjection_budget", .int 0)]

def silencedCall (channelId : String) : Ledger.Call :=
  Ledger.emit ⟨1⟩ Ledger.sampleMint [("target_kind", .str "policy_applied"), ("reason", .str "admin: silence")]
    "emit_policy_applied" (silencedArgs channelId) (.str channelId) (.list []) "admin set" .activeDeterministic

theorem acts_silencedCall (channelId : String) :
    (silencedCall channelId).Acts "emit_policy_applied" (silencedArgs channelId) :=
  Ledger.emit_acts (by simp [silencedArgs])

section
open Governance.InterjectionGate (sampleGate sampleAsk sampleAsk_drawn)

theorem settled_silencedArgs (channelId : String) : ∀ p ∈ silencedArgs channelId, Ledger.Settled p.2 := by
  rw [silencedArgs]
  simp only [List.forall_mem_cons]
  exact ⟨Ledger.settled_str _, Ledger.settled_str _, Ledger.settled_dict (by simp) (by simp [Ledger.settled_str]), Ledger.settled_str _,
    Ledger.settled_str _, Ledger.settled_str _, Ledger.settled_int (checkInt_small (Nat.zero_lt_succ 9)), nofun⟩

/-- The policy of a channel that was silenced at once has no budget. -/
theorem policyOf_silenced (channelId : String) :
    ([("emit_policy_applied", backDict (silencedArgs channelId))].foldlM (noted channelId) none).bind policyOf =
      .ok ⟨.lurker, 0⟩ := by
  have hset : setsPolicy channelId ("emit_policy_applied", backDict (silencedArgs channelId)) =
      .ok (some (backDict (silencedArgs channelId))) := by
    rw [@setsPolicy_applies channelId _ channelId, if_pos rfl]
    · simp [Dict.get, Dict.get?, backDict, silencedArgs]
    · simp [Dict.get, Dict.get?, backDict, silencedArgs, applies_back]
  have htalk : Dict.getD (backDict (silencedArgs channelId)) "talkativeness" (.str "responsive") = .str "lurker" := by
    simp [Dict.getD, Dict.get?, backDict, silencedArgs]
  have hzero : backOf (.int 0) = .int 0 := backOf_eq (Ledger.settled_int (checkInt_small (Nat.zero_lt_succ 9))).column
  have hbudget : Dict.getD (backDict (silencedArgs channelId)) "daily_interjection_budget" (.int 3) = .int 0 := by
    simp [Dict.getD, Dict.get?, backDict, silencedArgs, hzero]
  simp only [List.foldlM_cons, List.foldlM_nil, noted, hset, bind, Except.bind, pure, Except.pure, Option.some_or]
  rw [policyOf, htalk, hbudget]
  rfl

/-- The ledger of one policy, as the gate finds it. -/
theorem silenced_first (channelId : String) : ∃ rows,
    (Ledger.write Ledger.tagHash .sqlite [] (silencedCall channelId)).2 = rows ∧
      actions ⟨1⟩ rows = [("emit_policy_applied", backDict (silencedArgs channelId))] ∧
        (∀ row ∈ rows, row.entryId ∈ [(⟨2⟩ : UUID), ⟨3⟩, ⟨4⟩, ⟨5⟩]) ∧ rows.length ≤ 4 := by
  have hpropose : Ledger.Settled (.dict ([("target_kind", .str "policy_applied"),
      ("reason", .str "admin: silence")].map strItem)) :=
    Ledger.settled_dict (by simp) (by simp [Ledger.settled_str])
  obtain ⟨res, rows, hw, hacts⟩ := @Ledger.first_emit ⟨1⟩ _ (silencedArgs channelId) "emit_policy_applied" "admin set"
    (.str channelId) (.list []) .activeDeterministic hpropose (by simp [silencedArgs]) (settled_silencedArgs channelId)
    (Ledger.settled_str _) (Ledger.settled_list nofun)
  have hw' : Ledger.write Ledger.tagHash .sqlite [] (silencedCall channelId) = (.ok res, rows) := hw
  refine ⟨rows, congrArg Prod.snd hw', hacts, ?_⟩
  rcases @Ledger.write_cases Ledger.tagHash .sqlite [] (silencedCall channelId) with
    ⟨res', ep, vp, rp, p, e, v, r, hg, hrows⟩ | ⟨x, hx⟩
  · obtain rfl : rows = [p, e, v, r] := congrArg Prod.snd (hw'.symm.trans hrows)
    refine ⟨fun row hrow => ?_, le_rfl⟩
    have hid : row.entryId ∈ [p, e, v, r].map (·.entryId) := List.mem_map_of_mem hrow
    rwa [hg.ids] at hid
  · cases hx.symm.trans hw'

/-- A channel that was silenced, with a budget of 0, is asked a question. -/
theorem silenced_channel_asked : ¬Run.EachStep (step .plain Ledger.tagHash .sqlite sampleGate)
    (Enforced Ledger.tagHash .sqlite sampleGate) Channels.start
    [.write (silencedCall "general") "emit_policy_applied" (silencedArgs "general") (acts_silencedCall "general"),
      .allow sampleAsk] := by
  intro hall
  obtain ⟨rows, hwrite, hacts, hids, hlen⟩ := silenced_first "general"
  have hkept : Kept Ledger.tagHash .sqlite sampleGate rows := hwrite ▸ kept_nil.write (acts_silencedCall "general")
  obtain ⟨-, hask⟩ := hall _ rfl
  obtain ⟨henforced, -⟩ := hask _ rfl
  have hrows : (Channels.start.next .plain Ledger.tagHash .sqlite sampleGate
      (.write (silencedCall "general") "emit_policy_applied" (silencedArgs "general")
        (acts_silencedCall "general"))).gate.rows = rows := (next_write _ _).trans hwrite
  have hpolicy : readPolicy .sqlite sampleGate rows "general" = .ok ⟨.lurker, 0⟩ := by
    have hacts' : actions sampleGate.companyId rows = _ := hacts
    rw [hkept.readPolicy, hacts']
    exact policyOf_silenced "general"
  have hready : Governance.InterjectionGate.Ready .sqlite sampleGate rows sampleAsk :=
    ⟨Ledger.isoText_midnight, Governance.InterjectionGate.sampleAsk_ready.ownDay, hkept.readable⟩
  obtain ⟨start, new, -, hallow, -⟩ := @Governance.InterjectionGate.allow_ready _ .sqlite sampleGate rows sampleAsk
    Ledger.tagHash_injective hkept.sound (sampleAsk_drawn hids hlen) hready rfl
  have hfree : recorded sampleGate rows sampleAsk.channelId start < sampleGate.limit := by
    have hle := @Kept.recorded_le _ _ _ _ sampleAsk.channelId hkept start
    rw [show actions sampleGate.companyId rows = _ from hacts] at hle
    exact hle.trans_lt (by decide)
  have hanswer : (allow Ledger.tagHash .sqlite sampleGate rows sampleAsk).1 = .ok true := by
    rw [hallow]
    exact congrArg Except.ok (decide_eq_true hfree)
  obtain ⟨start', policy, -, hread, hlt⟩ := henforced.budgeted sampleAsk rfl rfl (hrows.symm ▸ hanswer)
  rw [hrows] at hread
  obtain rfl := Except.ok.inj (hpolicy.symm.trans hread)
  exact absurd hlt (not_lt.mpr (Int.natCast_nonneg _))

end

end ChatPresence
