import Wormbase.ChatPresence.ChannelBudget
import Wormbase.Ledger.Actions
import Mathlib.Data.List.Induction

/-! `WhatsAppLogCapture._ensure_default_policy`: a channel that is admitted first gets the policy of a lurker, unless
    it has a policy.

    A cache of the channels that were looked at stands before the ledger. A ledger that cannot be read counts as one
    with a policy, and that guess is cached like an answer. -/

namespace ChannelAdapter.LurkerDefault
open Py
open Ledger (Entry Mint actions fetchEntries)

/-! ### The capture -/

/-- `_SEEN_CHANNELS_MAX`. -/
def seenChannelsMax : ℕ := 4096

/-- One admit: whether the ledger can be read and be written meanwhile, and what the write draws. -/
structure Admit where
  channelId : String
  reads : Bool
  writes : Bool
  refId : UUID
  policyId : UUID
  mint : Mint

/-- Whether the args of a policy are of the channel. -/
def policyFor (channelId : String) (args : Dict) : Except Err Bool := do
  if !(Dict.get args "policy_name").isText "policy:channel_talkativeness" then return false
  else
    let appliesTo ← orMapping (Dict.get args "applies_to")
    return (Dict.get appliesTo "channel_id").isText channelId

/-- The fold of `_has_existing_policy`. -/
def hasPolicyRow (channelId : String) : List Entry → Except Err Bool
  | [] => .ok false
  | r :: rows => do
    if r.kind ≠ .execute then hasPolicyRow channelId rows
    else
      let payload ← orMapping r.payload
      if !(Dict.get payload "tool").isText "emit_policy_applied" then hasPolicyRow channelId rows
      else
        let args ← orMapping (Dict.get payload "args")
        if ← policyFor channelId args then return true else hasPolicyRow channelId rows

def defaultArgs (a : Admit) : List (String × Val) :=
  [("policy_id", .str a.policyId.str), ("policy_name", .str "policy:channel_talkativeness"),
    ("applies_to", .dict ([("scope", .str "channel"), ("channel_id", .str a.channelId)].map strItem)),
    ("rule", .str "whatsapp first-touch lurker default"), ("gate_impl", .str "channel_talkativeness_default"),
    ("talkativeness", .str "lurker"), ("daily_interjection_budget", .int 0)]

/-- The cycle of a first touch. -/
def defaultCall (companyId : UUID) (a : Admit) : Ledger.Call where
  companyId
  propose := [("target_kind", .str "policy_applied"), ("ref_id", .str a.refId.str),
    ("reason", .str s!"whatsapp first-touch: defensive lurker default for {a.channelId}"),
    ("proposed_by", .str "channel-adapter.whatsapp")].map strItem
  executeFn := .ok (.dict ([("tool", .str "emit_policy_applied"), ("args", .dict ((defaultArgs a).map strItem)),
    ("result_ref", .str a.channelId)].map strItem))
  verifyFn := fun _ => .ok (.dict ([("checks", .list [.dict ([("name", .str "payload_valid"), ("ok", .bool true)].map strItem)]),
    ("passed", .bool true)].map strItem))
  resolveFn := fun _ => .ok (.dict ([("outcome", .str "applied"),
    ("rationale", .str "defensive lurker on first-touch; raise via /channels POST when ready")].map strItem))
  timestamp := none
  quadrant := .activeDeterministic
  now := a.mint.now
  proposeId := a.mint.proposeId
  executeId := a.mint.executeId
  verifyId := a.mint.verifyId
  resolveId := a.mint.resolveId

/-- `_mark_seen`: the oldest channel goes when the cache is full. -/
def markSeen (seen : List String) (channelId : String) : List String :=
  (if seenChannelsMax ≤ seen.length then seen.drop 1 else seen) ++ [channelId]

/-- How an admit ends: the channel is in the cache, it is taken to have a policy, the fold raises, its write fails, or
    the default is written. -/
inductive Outcome where
  | cached
  | guessed
  | existing
  | raised (x : Err)
  | failed
  | wrote
  deriving DecidableEq

/-- The committed rows and the cache. Of the past it is told which defaults were written, in the ledger's whole life,
    and which channels were taken to have a policy because the ledger could not be read, in that of the process. -/
structure Capture where
  rows : List Entry
  seen : List String
  written : List String
  guesses : List String

def Capture.start : Capture := ⟨[], [], [], []⟩

section
variable (sha256 : Bytes → Bytes) (d : Ledger.Dialect) (companyId : UUID)

/-- `_has_existing_policy` of a ledger that can be read. -/
def hasExistingPolicy (rows : List Entry) (channelId : String) : Except Err Bool :=
  hasPolicyRow channelId (fetchEntries d rows companyId none)

/-- `_ensure_default_policy`. -/
def ensureDefaultPolicy (s : Capture) (a : Admit) : Outcome × Capture :=
  if a.channelId ∈ s.seen then (.cached, s)
  else if !a.reads then
    (.guessed, { s with seen := markSeen s.seen a.channelId, guesses := a.channelId :: s.guesses })
  else
    match hasExistingPolicy d companyId s.rows a.channelId with
    | .error x => (.raised x, s)
    | .ok true =>
      (.existing, { s with seen := markSeen s.seen a.channelId, guesses := s.guesses.filter (· ≠ a.channelId) })
    | .ok false =>
      if !a.writes then (.failed, s)
      else
        match Ledger.write sha256 d s.rows (defaultCall companyId a) with
        | (.error _, rows) => (.failed, { s with rows })
        | (.ok _, rows) =>
          (.wrote, ⟨rows, markSeen s.seen a.channelId, s.written ++ [a.channelId], s.guesses.filter (· ≠ a.channelId)⟩)

/-- A channel is admitted, the service starts again over the same ledger, or somebody writes an action: the
    messages of a channel, an admin's policy, or whatever else. -/
inductive Op where
  | onAdmit (a : Admit)
  | restart
  | write (c : Ledger.Call) (tool : String) (args : List (String × Val)) (hacts : c.Acts tool args)

def Capture.next (s : Capture) : Op → Capture
  | .onAdmit a => (ensureDefaultPolicy sha256 d companyId s a).2
  | .restart => { s with seen := [], guesses := [] }
  | .write c _ _ _ => { s with rows := (Ledger.write sha256 d s.rows c).2 }

/-- The state after a run of a new ledger. -/
def run (ops : List Op) : Capture := ops.foldl (Capture.next sha256 d companyId) .start

end

/-! ### The log of actions -/

/-- An action that sets a policy of the channel. -/
def SetsPolicy (channelId : String) (action : String × Dict) : Prop :=
  action.1 = "emit_policy_applied" ∧ policyFor channelId action.2 = .ok true

/-- The ledger has a policy of the channel. -/
def HasPolicy (log : List (String × Dict)) (channelId : String) : Prop := ∃ action ∈ log, SetsPolicy channelId action

section
variable {sha256 : Bytes → Bytes} {d : Ledger.Dialect} {companyId : UUID} {rows rows' : List Entry} {channelId : String}
  {a : Admit} {c : Ledger.Call} {tool : String} {args : List (String × Val)} {s : Capture}

theorem HasPolicy.append {log : List (String × Dict)} (h : HasPolicy log channelId) (more : List (String × Dict)) :
    HasPolicy (log ++ more) channelId := by
  obtain ⟨action, haction, hsets⟩ := h
  exact ⟨action, List.mem_append_left _ haction, hsets⟩

/-- Where every execute row acts, the fold finds a policy exactly if the log has one. -/
theorem hasPolicyRow_iff : ∀ {rows : List Entry} {found : Bool}, (∀ r ∈ rows, r.kind = .execute → (Ledger.action r).isSome) →
    hasPolicyRow channelId rows = .ok found → (found = true ↔ HasPolicy (rows.filterMap Ledger.action) channelId)
  | [], found, _, h => by
    obtain rfl := Except.ok.inj h
    constructor
    · intro hfalse
      cases hfalse
    · rintro ⟨action, haction, -⟩
      exact absurd haction List.not_mem_nil
  | r :: rows, found, hacting, h => by
    obtain ⟨hr, hrows⟩ := List.forall_mem_cons.mp hacting
    rw [hasPolicyRow] at h
    by_cases hkind : r.kind = .execute
    · obtain ⟨⟨tool, args⟩, haction⟩ := Option.isSome_iff_exists.mp (hr hkind)
      obtain ⟨-, payload, hpayload, htool, hargs⟩ := Ledger.action_eq_some.mp haction
      have hcons : HasPolicy ((r :: rows).filterMap Ledger.action) channelId ↔
          SetsPolicy channelId (tool, args) ∨ HasPolicy (rows.filterMap Ledger.action) channelId := by
        rw [List.filterMap_cons, haction]
        simp [HasPolicy]
      rw [if_neg (not_not.mpr hkind), hpayload, orMapping_dict] at h
      obtain ⟨p, hp, h⟩ := bind_eq_ok.mp h
      obtain rfl := Except.ok.inj hp
      rw [hcons]
      by_cases hpolicy : tool = "emit_policy_applied"
      · subst hpolicy
        rw [htool, hargs, orMapping_dict] at h
        simp only [Val.isText, decide_true, Bool.not_true, Bool.false_eq_true, if_false] at h
        obtain ⟨p, hp, h⟩ := bind_eq_ok.mp h
        obtain rfl := Except.ok.inj hp
        obtain ⟨sets, hsets, h⟩ := bind_eq_ok.mp h
        cases sets with
        | true =>
          obtain rfl := Except.ok.inj h
          exact ⟨fun _ => .inl ⟨rfl, hsets⟩, fun _ => rfl⟩
        | false =>
          have hnot : ¬SetsPolicy channelId ("emit_policy_applied", args) := by
            rintro ⟨-, htrue⟩
            cases hsets.symm.trans htrue
          rw [hasPolicyRow_iff hrows h, or_iff_right hnot]
      · have hnot : ¬SetsPolicy channelId (tool, args) := fun hsets => hpolicy hsets.1
        rw [htool] at h
        simp only [Val.isText, hpolicy, decide_false, Bool.not_false, if_true] at h
        rw [hasPolicyRow_iff hrows h, or_iff_right hnot]
    · rw [if_pos hkind] at h
      rw [List.filterMap_cons, Ledger.action_none hkind]
      exact hasPolicyRow_iff hrows h

theorem defaultCall_acts (companyId : UUID) (a : Admit) : (defaultCall companyId a).Acts "emit_policy_applied" (defaultArgs a) :=
  ⟨⟨[("result_ref", .str a.channelId)], rfl, by simp⟩, by simp [defaultArgs]⟩

theorem default_sets (a : Admit) : SetsPolicy a.channelId ("emit_policy_applied", backDict (defaultArgs a)) := by
  refine ⟨rfl, ?_⟩
  have hname : Dict.get (backDict (defaultArgs a)) "policy_name" = .str "policy:channel_talkativeness" := by
    rw [get_backDict]
    rfl
  have happlies : Dict.get (backDict (defaultArgs a)) "applies_to" =
      .dict ([("scope", .str "channel"), ("channel_id", .str a.channelId)].map strItem) := by
    rw [get_backDict]
    exact ChatPresence.applies_back a.channelId
  rw [policyFor, hname, happlies, orMapping_dict]
  simp [Val.isText, Dict.get, Dict.get?, strItem, bind, Except.bind, pure, Except.pure]

/-- The fold over what is read of the ledger. -/
theorem hasExistingPolicy_iff (h : Ledger.Logged sha256 d companyId rows) {found : Bool}
    (hfound : hasExistingPolicy d companyId rows channelId = .ok found) :
    found = true ↔ HasPolicy (actions companyId rows) channelId := by
  obtain ⟨hlog, hacting⟩ := Ledger.fetch_acting h.sound h.acting
  rw [hasPolicyRow_iff hacting hfound, hlog]

/-! ### One admit -/

/-- What an admit does. -/
inductive Admits (sha256 : Bytes → Bytes) (d : Ledger.Dialect) (companyId : UUID) (s : Capture) (a : Admit) :
    Outcome → Capture → Prop where
  | cached (hseen : a.channelId ∈ s.seen) : Admits sha256 d companyId s a .cached s
  | guessed (hseen : a.channelId ∉ s.seen) (hreads : a.reads = false) : Admits sha256 d companyId s a .guessed
      { s with seen := markSeen s.seen a.channelId, guesses := a.channelId :: s.guesses }
  | existing (hseen : a.channelId ∉ s.seen) (hpolicy : HasPolicy (actions companyId s.rows) a.channelId) :
      Admits sha256 d companyId s a .existing
        { s with seen := markSeen s.seen a.channelId, guesses := s.guesses.filter (· ≠ a.channelId) }
  | raised (x : Err) : Admits sha256 d companyId s a (.raised x) s
  | failed : Admits sha256 d companyId s a .failed s
  | wrote (rows : List Entry) (hseen : a.channelId ∉ s.seen) (hfree : ¬HasPolicy (actions companyId s.rows) a.channelId)
      (hlogged : Ledger.Logged sha256 d companyId rows)
      (hlog : actions companyId rows = actions companyId s.rows ++ [("emit_policy_applied", backDict (defaultArgs a))]) :
      Admits sha256 d companyId s a .wrote
        ⟨rows, markSeen s.seen a.channelId, s.written ++ [a.channelId], s.guesses.filter (· ≠ a.channelId)⟩

theorem ensureDefaultPolicy_admits (h : Ledger.Logged sha256 d companyId s.rows) (a : Admit) :
    Admits sha256 d companyId s a (ensureDefaultPolicy sha256 d companyId s a).1 (ensureDefaultPolicy sha256 d companyId s a).2 := by
  rw [ensureDefaultPolicy]
  by_cases hseen : a.channelId ∈ s.seen
  · rw [if_pos hseen]
    exact .cached hseen
  rw [if_neg hseen]
  cases hreads : a.reads with
  | false => exact .guessed hseen hreads
  | true =>
    simp only [Bool.not_true, Bool.false_eq_true, if_false]
    cases hfold : hasExistingPolicy d companyId s.rows a.channelId with
    | error x => exact .raised x
    | ok found =>
      have hiff := hasExistingPolicy_iff h hfold
      cases found with
      | true => exact .existing hseen (hiff.mp rfl)
      | false =>
        have hfree : ¬HasPolicy (actions companyId s.rows) a.channelId := fun hpolicy => Bool.noConfusion (hiff.mpr hpolicy)
        cases a.writes with
        | false => exact .failed
        | true =>
          simp only [Bool.not_true, Bool.false_eq_true, if_false]
          have hacts := defaultCall_acts companyId a
          have hlogged := h.write hacts
          rcases @Ledger.actions_write sha256 d s.rows _ _ _ hacts with ⟨res, rows, hw, hlog, -⟩ | ⟨x, hw⟩
          · rw [hw] at hlogged ⊢
            exact .wrote rows hseen hfree hlogged hlog
          · rw [hw]
            exact .failed

/-! ### Every run -/

/-- What holds in every state: a channel in the cache was guessed or has a policy, and every default that was written
    is there, once for a channel. -/
structure Reached (sha256 : Bytes → Bytes) (d : Ledger.Dialect) (companyId : UUID) (s : Capture) : Prop where
  logged : Ledger.Logged sha256 d companyId s.rows
  known : ∀ c ∈ s.seen, c ∉ s.guesses → HasPolicy (actions companyId s.rows) c
  defaults : ∀ c ∈ s.written, HasPolicy (actions companyId s.rows) c
  once : s.written.Nodup

theorem mem_markSeen {seen : List String} {channel : String} (h : channel ∈ markSeen seen channelId) :
    channel ∈ seen ∨ channel = channelId := by
  rw [markSeen] at h
  rcases List.mem_append.mp h with h | h
  · split at h
    · exact .inl (List.mem_of_mem_drop h)
    · exact .inl h
  · exact .inr (List.mem_singleton.mp h)

theorem Reached.admits (h : Reached sha256 d companyId s) {o : Outcome} {s' : Capture} (hadmits : Admits sha256 d companyId s a o s') :
    Reached sha256 d companyId s' := by
  cases hadmits with
  | cached | raised | failed => exact h
  | guessed hseen hreads =>
    refine ⟨h.logged, fun c hc hguess => ?_, h.defaults, h.once⟩
    obtain ⟨hne, hguess⟩ := not_or.mp fun hor => hguess (List.mem_cons.mpr hor)
    exact h.known c ((mem_markSeen hc).resolve_right hne) hguess
  | existing hseen hpolicy =>
    refine ⟨h.logged, fun c hc hguess => ?_, h.defaults, h.once⟩
    by_cases hsame : c = a.channelId
    · exact hsame ▸ hpolicy
    · refine h.known c ((mem_markSeen hc).resolve_right hsame) fun hmem => hguess ?_
      exact List.mem_filter.mpr ⟨hmem, decide_eq_true hsame⟩
  | wrote rows hseen hfree hlogged hlog =>
    have hnew : HasPolicy (actions companyId rows) a.channelId := by
      rw [hlog]
      exact ⟨_, List.mem_append_right _ (List.mem_singleton.mpr rfl), default_sets a⟩
    have hold : ∀ c, HasPolicy (actions companyId s.rows) c → HasPolicy (actions companyId rows) c := by
      intro c hpolicy
      rw [hlog]
      exact hpolicy.append _
    refine ⟨hlogged, fun c hc hguess => ?_, fun c hc => ?_, ?_⟩
    · by_cases hsame : c = a.channelId
      · exact hsame ▸ hnew
      · refine hold c (h.known c ((mem_markSeen hc).resolve_right hsame) fun hmem => hguess ?_)
        exact List.mem_filter.mpr ⟨hmem, decide_eq_true hsame⟩
    · rcases List.mem_append.mp hc with hc | hc
      · exact hold c (h.defaults c hc)
      · exact List.mem_singleton.mp hc ▸ hnew
    · refine List.nodup_append.mpr ⟨h.once, List.nodup_singleton _, fun c hc c' hc' => ?_⟩
      rintro rfl
      exact hfree (List.mem_singleton.mp hc' ▸ h.defaults c hc)

theorem Reached.next (h : Reached sha256 d companyId s) (op : Op) : Reached sha256 d companyId (s.next sha256 d companyId op) := by
  cases op with
  | onAdmit a => exact h.admits (ensureDefaultPolicy_admits h.logged a)
  | restart => exact ⟨h.logged, fun c hc => absurd hc List.not_mem_nil, h.defaults, h.once⟩
  | write c tool args hacts =>
    have hold : ∀ channel, HasPolicy (actions companyId s.rows) channel →
        HasPolicy (actions companyId (Ledger.write sha256 d s.rows c).2) channel := by
      intro channel hpolicy
      rcases @Ledger.actions_write sha256 d s.rows c tool args hacts with ⟨res, rows, hw, hlog, hforeign⟩ | ⟨x, hw⟩
      · rw [hw]
        by_cases hcompany : companyId = c.companyId
        · subst hcompany
          rw [hlog]
          exact hpolicy.append _
        · rwa [hforeign companyId hcompany]
      · rwa [hw]
    have hlogged := h.logged.write hacts
    change Reached sha256 d companyId { s with rows := (Ledger.write sha256 d s.rows c).2 }
    generalize (Ledger.write sha256 d s.rows c).2 = rows at hold hlogged ⊢
    exact ⟨hlogged, fun channel hc hguess => hold channel (h.known channel hc hguess),
      fun channel hc => hold channel (h.defaults channel hc), h.once⟩

theorem run_reached (ops : List Op) : Reached sha256 d companyId (run sha256 d companyId ops) := by
  have hstart : Reached sha256 d companyId .start := by
    refine ⟨Ledger.logged_nil, fun c hc => absurd hc List.not_mem_nil, fun c hc => absurd hc List.not_mem_nil, List.nodup_nil⟩
  exact List.foldlRecOn ops _ hstart fun s h op _ => h.next op

/-- In every run, with any failures of reads and writes, evictions and restarts, a channel gets the default once. -/
theorem lurker_once (ops : List Op) : (run sha256 d companyId ops).written.Nodup := (run_reached ops).once

/-- After an admit in which the ledger could be read and took what was written to it, the channel has a policy
    exactly if it had one or the cache did not hold it for a guess. -/
theorem admit_policy_iff (ops : List Op) (a : Admit) (hreads : a.reads = true)
    (hwrote : (ensureDefaultPolicy sha256 d companyId (run sha256 d companyId ops) a).1 ≠ .failed)
    (hfold : ∀ x, (ensureDefaultPolicy sha256 d companyId (run sha256 d companyId ops) a).1 ≠ .raised x) :
    HasPolicy (actions companyId (ensureDefaultPolicy sha256 d companyId (run sha256 d companyId ops) a).2.rows) a.channelId ↔
      HasPolicy (actions companyId (run sha256 d companyId ops).rows) a.channelId ∨
        ¬(a.channelId ∈ (run sha256 d companyId ops).seen ∧ a.channelId ∈ (run sha256 d companyId ops).guesses) := by
  have hreached := @run_reached sha256 d companyId ops
  have hadmits := ensureDefaultPolicy_admits hreached.logged a
  generalize run sha256 d companyId ops = s at hreached hadmits hwrote hfold ⊢
  generalize ensureDefaultPolicy sha256 d companyId s a = done at hadmits hwrote hfold ⊢
  obtain ⟨o, s'⟩ := done
  simp only at hadmits hwrote hfold ⊢
  cases hadmits with
  | cached hseen =>
    constructor
    · exact .inl
    · rintro (hpolicy | hguess)
      · exact hpolicy
      · exact hreached.known _ hseen fun hmem => hguess ⟨hseen, hmem⟩
  | guessed hseen hfalse => cases hreads.symm.trans hfalse
  | existing hseen hpolicy => exact ⟨fun _ => .inl hpolicy, fun _ => hpolicy⟩
  | raised x => exact absurd rfl (hfold x)
  | failed => exact absurd rfl hwrote
  | wrote rows hseen hfree hlogged hlog =>
    refine ⟨fun _ => .inr fun hguess => hseen hguess.1, fun _ => ?_⟩
    rw [hlog]
    exact ⟨_, List.mem_append_right _ (List.mem_singleton.mpr rfl), default_sets a⟩

end

/-! ### A guess -/

/-- A channel that is admitted while the ledger can be read, or cannot. -/
def lobby (reads : Bool) : Admit := ⟨"group@g.us", reads, true, ⟨6⟩, ⟨7⟩, Ledger.sampleMint⟩

/-- What was guessed is believed: once the ledger can be read again, the next admit leaves the channel as it is. -/
theorem lobby_unprotected : ¬HasPolicy (actions ⟨1⟩ (ensureDefaultPolicy Ledger.tagHash .sqlite ⟨1⟩
    (run Ledger.tagHash .sqlite ⟨1⟩ [.onAdmit (lobby false)]) (lobby true)).2.rows) "group@g.us" := by
  have hcached : (ensureDefaultPolicy Ledger.tagHash .sqlite ⟨1⟩ (run Ledger.tagHash .sqlite ⟨1⟩ [.onAdmit (lobby false)])
      (lobby true)).1 = .cached := rfl
  have hiff := @admit_policy_iff Ledger.tagHash .sqlite ⟨1⟩ [.onAdmit (lobby false)] (lobby true) rfl (by rw [hcached]; decide)
    (fun x hx => by rw [hcached] at hx; cases hx)
  intro hpolicy
  rcases hiff.mp hpolicy with hbefore | hguess
  · obtain ⟨action, haction, -⟩ := hbefore
    cases haction
  · exact hguess ⟨List.mem_singleton.mpr rfl, List.mem_singleton.mpr rfl⟩

end ChannelAdapter.LurkerDefault
