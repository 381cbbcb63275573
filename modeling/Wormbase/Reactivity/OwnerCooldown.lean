import Wormbase.Reactivity.Novelty
import Wormbase.Reactivity.StatementToOwner

/-! The four hours between two direct messages about one topic to one owner.

    `fire` looks up the last fire under the key of the pair, sends, and then writes the proposal. The
    registry books the fire only after that, so a message whose proposal is not written is forgotten. -/

namespace Reactivity.StatementToOwner
open Py Registry

/-! ### Messages and their times -/

/-- A call, and the instant at which its message goes out. -/
structure SendCall where
  call : Call
  sentAt : Instant

/-- A topic and its owner. -/
abbrev Pair := UUID × UUID

/-- The key that `fire` derives for a pair. -/
def pairKey (pair : Pair) : String := s!"topic:{pair.1.str}:owner:{pair.2.str}"

def DM.pair (dm : DM) : Pair := (dm.topic.id, dm.ownerId)

section
variable (py : Interp)

abbrev sender : Keeper (List (Said Pair)) SendCall where
  id := reactivityId
  turn := fun entry c _ => turn py entry c.call
  after := fun entry c log s => log ++ (fire py entry c.call s).dms.map fun dm => ⟨dm.pair, c.sentAt⟩
  turn_id := fun _ _ _ => rfl

/-- The clock does not go back from the look-up to the message and to the bookkeeping. -/
def Forward : Binding SendCall reactivityId → Prop
  | .own c => c.call.fireNow ≤ c.sentAt ∧ c.sentAt ≤ c.call.firedAt
  | .other _ _ => True

variable (company : UUID)

/-- When the entry is let through and a message about it goes to an owner, its seq is not negative and the
    proposal can be written. -/
def Proposed (entry : Dict) (st : Stores × List (Said Pair)) : Binding SendCall reactivityId → Prop
  | .own c => (turn py entry c.call).reaches py company entry st.1 = true → ∀ m,
      resolve py entry c.call = .ok (some m) →
        novel st.1 reactivityId m.noveltyKey fourHours c.call.fireNow = true → c.call.Delivers m →
          0 ≤ m.statement.seq ∧ c.call.written = .ok ()
  | .other _ _ => True

/-- In no run from a new registry an owner gets two messages about one topic within four hours. -/
def CooldownHolds (disabled : List String) (rs : List (Round SendCall reactivityId)) : Prop :=
  ∀ st', Run.exec ((sender py).step py company) (.fresh disabled, []) rs = some st' → Apart fourHours st'.2

end

/-! ### One binding -/

section
variable {py : Interp} {company : UUID} {entry : Dict} {c : SendCall} {st st' : Stores × List (Said Pair)}

theorem send_pair (m : Match) (call : Call) : (call.send m).1 = [] ∨ call.Delivers m ∧ ∃ dm : DM,
    dm.pair = (m.topic.id, m.owner.personId) ∧ (call.send m).1 = [dm] := by
  rcases @send_dms call m with hnone | ⟨hdelivers, -⟩
  · exact .inl hnone
  · obtain ⟨sent, platformId, hsender, hplatform, hne, hdelivered⟩ := hdelivers
    refine .inr ⟨⟨sent, platformId, hsender, hplatform, hne, hdelivered⟩,
      ⟨m.owner.personId, platformId, m.topic, m.statement, call.resources m.topic⟩, rfl, ?_⟩
    simp only [Call.send, hsender, hplatform, hne, hdelivered, if_false, if_true]

/-- Of every message the registry knows a fire under the key of its pair that is no earlier. -/
def Remembered (st : Stores × List (Said Pair)) : Prop := ∀ pair t, lastSaid st.2 pair = some t →
  ∃ last, st.1.lastFired (reactivityId, pairKey pair) = some last ∧ t ≤ last

/-- A matched entry has args that can be read. -/
theorem resolve_reads {call : Call} {m : Match} (h : resolve py entry call = .ok (some m)) :
    ∃ args, entryArgs entry = .ok args := by
  unfold resolve at h
  split at h
  · obtain ⟨found, hfound, -⟩ := bind_eq_ok.mp h
    obtain ⟨args, hargs, -⟩ := bind_eq_ok.mp hfound
    exact ⟨args, hargs⟩
  · cases h

/-- A fire that is booked, with the message that it sends. -/
theorem Remembered.fired (h : Remembered st) (hforward : Forward (.own c)) {m : Match} {r : Result} {dms : List DM}
    (hkey : r.noveltyKey = m.noveltyKey) (hresolve : resolve py entry c.call = .ok (some m))
    (hnovel : novel st.1 reactivityId m.noveltyKey fourHours c.call.fireNow = true)
    (hdms : dms = [] ∨ ∃ dm : DM, dm.pair = (m.topic.id, m.owner.personId) ∧ dms = [dm]) :
    Remembered ((onFire py company entry st.1 (turn py entry c.call) r).2,
      st.2 ++ dms.map fun dm => ⟨dm.pair, c.sentAt⟩) := by
  obtain ⟨hlook, hsent⟩ := hforward
  obtain ⟨args, hargs⟩ := resolve_reads hresolve
  have hpair : m.noveltyKey = pairKey (m.topic.id, m.owner.personId) := rfl
  have hne : r.noveltyKey ≠ "" := by
    rw [hkey]
    intro hempty
    have hlen := congrArg String.length hempty
    simp only [Match.noveltyKey, String.length_append] at hlen
    have hshort : (toString "topic:").length = 6 := rfl
    have hnil : "".length = 0 := rfl
    omega
  have hbooked := @onFire_recorded py company entry st.1 (turn py entry c.call) r args hargs hne
  -- a message before this one is older than the fire that is booked now
  have hbefore : ∀ pair t, lastSaid st.2 pair = some t → pairKey pair = m.noveltyKey → t ≤ c.call.firedAt := by
    intro pair t ht hsame
    obtain ⟨last, hlast, hle⟩ := h pair t ht
    rw [hsame] at hlast
    have hold := novel_iff.mp hnovel last hlast
    have hfour : (0 : ℤ) ≤ fourHours := by decide
    have hback := sub_le_self c.call.fireNow hfour
    exact hle.trans (hold.le.trans (hback.trans (hlook.trans hsent)))
  have hafter : ∀ pair t, lastSaid st.2 pair = some t → ∃ last,
      (onFire py company entry st.1 (turn py entry c.call) r).2.lastFired (reactivityId, pairKey pair) = some last ∧
        t ≤ last := by
    intro pair t ht
    by_cases hsame : pairKey pair = m.noveltyKey
    · refine ⟨c.call.firedAt, ?_, hbefore pair t ht hsame⟩
      rw [hsame, ← hkey]
      exact hbooked
    · obtain ⟨last, hlast, hle⟩ := h pair t ht
      refine ⟨last, ?_, hle⟩
      rw [← hlast]
      exact onFire_lastFired fun heq => hsame ((congrArg Prod.snd heq).trans hkey)
  rcases hdms with rfl | ⟨dm, hdm, rfl⟩
  · intro pair t ht
    rw [List.map_nil, List.append_nil] at ht
    exact hafter pair t ht
  · intro pair t ht
    rw [List.map_singleton, lastSaid_concat] at ht
    split at ht
    · rename_i hsame
      obtain rfl := Option.some.inj ht
      refine ⟨c.call.firedAt, ?_, hsent⟩
      rw [← hsame, show (⟨dm.pair, c.sentAt⟩ : Said Pair).about = dm.pair from rfl, hdm, ← hpair, ← hkey]
      exact hbooked
    · exact hafter pair t ht

/-- What the turn of a binding makes of the messages: none goes out, or one about a pair whose key is novel
    and is booked. -/
theorem sender_kept {b : Binding SendCall (sender py).id} (h : Remembered st ∧ Apart fourHours st.2)
    (hforward : Forward b) (hproposed : Proposed py company entry st b)
    (hkept : Kept py company (sender py) entry st b st') : Remembered st' ∧ Apart fourHours st'.2 := by
  obtain ⟨hremembered, hapart⟩ := h
  cases hkept with
  | idle c hreach => exact ⟨hremembered, hapart⟩
  | other t hid =>
    refine ⟨fun pair t' ht' => ?_, hapart⟩
    rw [Turn.run_lastFired (Ne.symm hid)]
    exact hremembered pair t' ht'
  | quiet c hreach hquiet =>
    have hnone : (fire py entry c.call st.1).dms = [] := by
      have hdid := did py entry c.call st.1
      have hquiet' : ∀ r, (fire py entry c.call st.1).result = .ok r → r.fired = false := hquiet
      generalize fire py entry c.call st.1 = f at hdid hquiet' ⊢
      cases hdid with
      | nothing result _ => rfl
      | stopped m result _ hresolve hnovel hstop =>
        rcases send_pair m c.call with hnone | ⟨hdelivers, -⟩
        · exact hnone
        · obtain ⟨hseq, hwritten⟩ := hproposed hreach m hresolve hnovel hdelivers
          rcases hstop with hneg | hunwritten
          · exact absurd hseq (not_le.mpr hneg)
          · exact absurd hwritten hunwritten
      | fired m hresolve hnovel hseq hwritten => cases hquiet' _ rfl
    simp only [hnone, List.map_nil, List.append_nil]
    exact ⟨hremembered, hapart⟩
  | fired c r hreach hfire hfired =>
    obtain ⟨m, hkey, hresolve, hnovel, hdms⟩ : ∃ m : Match, r.noveltyKey = m.noveltyKey ∧
        resolve py entry c.call = .ok (some m) ∧
        novel st.1 reactivityId m.noveltyKey fourHours c.call.fireNow = true ∧
        ((fire py entry c.call st.1).dms = [] ∨ ∃ dm : DM, dm.pair = (m.topic.id, m.owner.personId) ∧
          (fire py entry c.call st.1).dms = [dm]) := by
      have hdid := did py entry c.call st.1
      have hfire' : (fire py entry c.call st.1).result = .ok r := hfire
      generalize fire py entry c.call st.1 = f at hdid hfire' ⊢
      cases hdid with
      | nothing result hquiet =>
        rw [hquiet r hfire'] at hfired
        cases hfired
      | stopped m result hquiet hresolve hnovel hstop =>
        rw [hquiet r hfire'] at hfired
        cases hfired
      | fired m hresolve hnovel hseq hwritten =>
        obtain rfl := Except.ok.inj hfire'
        exact ⟨m, rfl, hresolve, hnovel, (send_pair m c.call).imp_right And.right⟩
    refine ⟨hremembered.fired hforward hkey hresolve hnovel hdms, ?_⟩
    rcases hdms with hnone | ⟨dm, hdm, hone⟩
    · simpa only [hnone, List.map_nil, List.append_nil] using hapart
    · simp only [hone, List.map_singleton]
      refine (apart_concat (by decide)).mpr ⟨hapart, fun t ht => ?_⟩
      obtain ⟨last, hlast, hle⟩ := hremembered dm.pair t ht
      rw [hdm] at hlast
      have hold := novel_iff.mp hnovel last hlast
      exact hle.trans_lt (hold.trans_le (sub_le_sub_right hforward.1 fourHours))

end

/-- For every sequence of dispatched entries: when the proposal of each message that goes out can be
    written, no owner gets two messages about one topic within four hours. -/
theorem proposed_cooldown_holds (py : Interp) (company : UUID) (disabled : List String)
    (rs : List (Round SendCall reactivityId)) (hforward : ∀ r ∈ rs, ∀ b ∈ r.bindings, Forward b)
    (hproposed : Run.Guarded ((sender py).step py company)
      (fun st r => (sender py).Each py company (Proposed py company) r.entry st r.bindings) (.fresh disabled, []) rs) :
    CooldownHolds py company disabled rs := by
  intro st' hrun
  have hstart : Remembered (Stores.fresh disabled, []) ∧ Apart fourHours ([] : List (Said Pair)) :=
    ⟨nofun, List.Pairwise.nil⟩
  exact (rounds_invariant (fun _ _ _ _ h hb hp hkept => sender_kept h hb hp hkept) hstart hforward hproposed hrun).2

/-! ### A proposal that is not written -/

/-- A message about a topic of Carol's, whose proposal is written or not. -/
def churnMessage (written : Except Err Unit) : Round SendCall reactivityId :=
  ⟨chatReceived [], [.own ⟨{ aboutTopic ⟨1⟩ with written }, 0⟩]⟩

theorem churnMessage_forward (written : Except Err Unit) : ∀ b ∈ (churnMessage written).bindings, Forward b := by
  simp only [churnMessage, List.forall_mem_singleton]
  exact ⟨le_rfl, le_rfl⟩

/-- The written proposal is remembered: a message at once after it stays at home. -/
theorem churnMessage_kept : CooldownHolds .plain ⟨1⟩ [] [churnMessage (.ok ()), churnMessage (.ok ())] := by
  refine proposed_cooldown_holds .plain ⟨1⟩ [] _ ?_ ?_
  · simp only [List.forall_mem_cons, List.not_mem_nil, false_imp_iff]
    exact ⟨churnMessage_forward _, churnMessage_forward _, fun _ => trivial⟩
  · have heach : ∀ st, (sender .plain).Each .plain ⟨1⟩ (Proposed .plain ⟨1⟩) (churnMessage (.ok ())).entry st
        (churnMessage (.ok ())).bindings := by
      refine fun st => ⟨fun _ m hm _ _ => ?_, fun _ => trivial⟩
      have hresolve : (resolve .plain (chatReceived []) (aboutTopic ⟨1⟩)).toOption.map
        (fun found => found.map fun m => m.statement.seq) = some (some 1) := by decide +kernel
      have hm' : (resolve .plain (chatReceived []) (aboutTopic ⟨1⟩)) = .ok (some m) := hm
      rw [hm'] at hresolve
      have hseq : m.statement.seq = 1 := Option.some.inj (Option.some.inj hresolve)
      refine ⟨?_, rfl⟩
      rw [hseq]
      exact Int.one_nonneg
    exact ⟨heach _, fun _ _ => ⟨heach _, fun _ _ => trivial⟩⟩

/-- Two messages at one time whose proposals the store refuses. -/
def refusedTwice : List (Round SendCall reactivityId) :=
  [churnMessage (.error Ledger.integrityError), churnMessage (.error Ledger.integrityError)]

/-- The store refuses both proposals, and the owner gets the message twice. -/
theorem churnMessage_repeated : (∀ r ∈ refusedTwice, ∀ b ∈ r.bindings, Forward b) ∧
    ¬CooldownHolds .plain ⟨1⟩ [] refusedTwice := by
  constructor
  · simp only [refusedTwice, List.forall_mem_cons, List.not_mem_nil, false_imp_iff]
    exact ⟨churnMessage_forward _, churnMessage_forward _, fun _ => trivial⟩
  · intro hholds
    have htwice : (Run.exec ((sender .plain).step .plain ⟨1⟩) (.fresh [], [])
        refusedTwice).map
          (fun st => st.2.map fun said => (said.about, said.time)) =
        some [((⟨1⟩, carol.personId), 0), ((⟨1⟩, carol.personId), 0)] := by decide +kernel
    obtain ⟨st, hst, hsaid⟩ := Option.map_eq_some_iff.mp htwice
    have hapart := hholds st hst
    obtain ⟨s, rest, hs, hs', hrest⟩ := List.map_eq_cons_iff.mp hsaid
    obtain ⟨t, rest', rfl, ht', -⟩ := List.map_eq_cons_iff.mp hrest
    rw [hs] at hapart
    have hclose := (List.pairwise_cons.mp hapart).1 t List.mem_cons_self
    rw [Prod.mk.injEq] at hs' ht'
    have hgap := hclose (hs'.1.trans ht'.1.symm)
    rw [hs'.2, ht'.2] at hgap
    exact absurd hgap (by decide)

end Reactivity.StatementToOwner
