import Wormbase.Ledger.Runs
import Wormbase.Subscriptions.Stream

/-! What an owner gets who resumes a stream.

    An event is pushed first and recorded then. The queue outlives the sessions, and the replay does not
    look at it: an event that was recorded and never taken is in both. -/

namespace Subscriptions
open Py

/-! ### A subscription and one session of its owner -/

/-- The ledger, the registry, the delivery whose record is not written yet, the triggering seqs pushed so
    far, and the session with what it has yielded. -/
structure Channel where
  rows : List Ledger.Entry
  registry : StreamRegistry
  inFlight : Option Delivery
  delivered : List ℤ
  session : Option Position
  yielded : List Dict

/-- What may happen next. An earlier session takes from the queue; the session opens, and takes turns. -/
inductive Happening where
  | write (call : Ledger.Call)
  | push (seq : ℤ) (kind : String) (ts args : Val) (durationMs : ℤ)
  | record (env : Env)
  | take
  | opens
  | resumes

namespace Channel

/-- Before the first delivery. -/
def start (maxsize : ℤ) : Channel := ⟨[], ⟨maxsize, fun _ => none⟩, none, [], none, []⟩

section
variable (py : Interp) (sha256 : Bytes → Bytes) (d : Ledger.Dialect) (companyId : UUID) (c : StreamCall)
  (active : List Dict)

/-- The rows that `fetch` gives. -/
def fetched (s : Channel) : List Dict :=
  (Ledger.fetchEntries d s.rows companyId none).map Ledger.Entry.dict

def queue (s : Channel) : List Dict := s.registry.queueFor c.subscriptionId

/-- The dispatcher delivers one event at a time, and none that the index has. -/
def step (s : Channel) : Happening → Option Channel
  | .write call => some { s with rows := (Ledger.write sha256 d s.rows call).2 }
  | .push seq kind ts args durationMs =>
    match s.inFlight, deliveredIndex py (s.fetched d companyId) with
    | none, .ok index =>
      if c.subscriptionId = "" ∨ (c.subscriptionId, seq) ∈ index then none
      else some { s with
        registry := s.registry.push c.subscriptionId (eventPayload c.subscriptionId seq kind ts args)
        inFlight := some ⟨c.subscriptionId, seq, kind, "mcp_stream", "delivered", durationMs, none⟩
        delivered := s.delivered ++ [seq] }
    | _, _ => none
  | .record env =>
    match s.inFlight with
    | none => none
    | some v =>
      match Ledger.write sha256 d s.rows (v.call companyId env) with
      | (.ok _, rows) => some { s with rows, inFlight := none }
      | (.error _, _) => none
  | .take =>
    match s.session, s.queue c with
    | none, _ :: rest => some { s with registry := s.registry.setQueue c.subscriptionId rest }
    | _, _ => none
  | .opens => if s.session.isSome then none else some { s with session := some .opened }
  | .resumes =>
    match s.session with
    | none => none
    | some position =>
      match c.turn py active (s.fetched d companyId) s.registry position with
      | .yields event position registry =>
        some { s with registry, session := some position, yielded := s.yielded ++ [event] }
      | .moves position => some { s with session := some position }
      | _ => none

/-- The other writes record no delivery to the subscription, and no push meets a full queue. -/
def Allowed (s : Channel) : Happening → Prop
  | .write call => ∀ e ∈ (Ledger.write sha256 d s.rows call).2.drop s.rows.length,
      e.companyId = companyId → ∀ since, replayed py c.subscriptionId since (handed e) = .ok none
  | .push .. => s.registry.full c.subscriptionId = false
  | _ => True

/-- The session has come to an empty queue. -/
def Drained (s : Channel) : Prop := s.session = some .tailing ∧ s.queue c = []

/-- Every delivered seq above the one given is yielded once, in increasing order, and none at or below. -/
def ResumedOnce (s : Channel) : Prop :=
  ∃ seqs : List ℤ, s.yielded.map eventSeq = seqs.map some ∧ seqs.Pairwise (· < ·) ∧
    ∀ seq, seq ∈ seqs ↔ seq ∈ s.delivered ∧ c.sinceSeq < seq

/-- The queue holds the delivery in flight, where it is above the seq given, and nothing else. -/
def HandsOver (s : Channel) : Prop :=
  (s.queue c).map eventSeq = ((s.inFlight.toList.map (·.seq)).filter (c.sinceSeq < ·)).map some

end

end Channel

/-! ### The record in the replay -/

section
variable {py : Interp} {sha256 : Bytes → Bytes} {d : Ledger.Dialect} {companyId : UUID} {c : StreamCall}
  {active : List Dict}

/-- The replay event of a recorded delivery. -/
def Delivery.replay (v : Delivery) : Dict := replayEvent v.subId v.seq v.kind v.status

@[simp] theorem eventSeq_replay (v : Delivery) : eventSeq v.replay = some v.seq := rfl

@[simp] theorem eventSeq_payload (subId : String) (seq : ℤ) (kind : String) (ts args : Val) :
    eventSeq (eventPayload subId seq kind ts args) = some seq := rfl

theorem replayed_execute {v : Delivery} {e : Ledger.Entry} {proposeId : UUID} {since : ℤ}
    (hkind : e.kind = .execute) (hpayload : e.payload = .dict (v.stored proposeId)) :
    replayed py v.subId since (handed e) = .ok (if v.seq ≤ since then none else some v.replay) := by
  have hk := handed_kind e
  rw [hkind] at hk
  have hp := (handed_payload e).trans hpayload
  have hexec : (Val.str Ledger.Kind.execute.text).isText "execute" = true := rfl
  have hpay : (Val.dict (v.stored proposeId)).or (.dict []) = .dict (v.stored proposeId) := rfl
  have htool : (Dict.get (v.stored proposeId) "tool").isText "emit_agent_event_delivered" = true := rfl
  have hargs : (Dict.get (v.stored proposeId) "args").or (.dict []) = .dict v.executeArgs := rfl
  have hsid : (Dict.get v.executeArgs "subscription_id").text py = v.subId := Val.text_str py v.subId
  have hseq : ((Dict.get v.executeArgs "triggering_entry_seq").or (.int 0)).toInt = .ok v.seq :=
    toInt_or_int v.seq
  have hkindText : (Dict.get v.executeArgs "triggering_entry_kind").text py = v.kind := Val.text_str py v.kind
  have hstatus : (Dict.get v.executeArgs "delivery_status").text py = v.status := Val.text_str py v.status
  simp only [replayed, hk, hp, hexec, if_true, hpay, htool, hargs, hsid, hseq, hkindText, hstatus]
  split <;> rfl

theorem replayed_other {e : Ledger.Entry} {subscriptionId : String} {since : ℤ} (hkind : e.kind ≠ .execute) :
    replayed py subscriptionId since (handed e) = .ok none := by
  have hk := handed_kind e
  have hother : (Val.str e.kind.text).isText "execute" = false := by
    cases h : e.kind <;> first | exact absurd h hkind | rfl
  simp only [replayed, hk, hother, Bool.false_eq_true, if_false]

theorem replayDelivered_append {subscriptionId : String} {since : ℤ} {xs ys : List Dict}
    {as bs : List Dict} (hx : replayDelivered py subscriptionId since xs = .ok as)
    (hy : replayDelivered py subscriptionId since ys = .ok bs) :
    replayDelivered py subscriptionId since (xs ++ ys) = .ok (as ++ bs) := by
  obtain ⟨os, hos, hx⟩ := bind_eq_ok.mp hx
  obtain ⟨ps, hps, hy⟩ := bind_eq_ok.mp hy
  obtain rfl := Except.ok.inj hx
  obtain rfl := Except.ok.inj hy
  refine bind_eq_ok.mpr ⟨os ++ ps, ?_, ?_⟩
  · rw [List.mapM_append]
    exact bind_eq_ok.mpr ⟨os, hos, bind_eq_ok.mpr ⟨ps, hps, rfl⟩⟩
  · rw [List.reduceOption_append]
    rfl

theorem replayDelivered_none {subscriptionId : String} {since : ℤ} : ∀ {xs : List Dict},
    (∀ e ∈ xs, replayed py subscriptionId since e = .ok none) →
      replayDelivered py subscriptionId since xs = .ok []
  | [], _ => rfl
  | e :: rest, h => by
    obtain ⟨he, hrest⟩ := List.forall_mem_cons.mp h
    have hone : replayDelivered py subscriptionId since [e] = .ok [] :=
      bind_eq_ok.mpr ⟨[none], by simp [he, bind, Except.bind, pure, Except.pure], rfl⟩
    exact replayDelivered_append hone (replayDelivered_none hrest)

/-- The rows of a record add its delivery to the replay, where it is above the seq given. -/
theorem replay_group {v : Delivery} {env : Env} {n : ℕ} {prevHash : Bytes} {ep vp rp : Dict}
    {p e vr r : Ledger.Entry} {since : ℤ}
    (hg : Ledger.Group sha256 d (v.call companyId env) n prevHash ep vp rp p e vr r) :
    replayDelivered py v.subId since ((Ledger.ofCompany [p, e, vr, r] companyId).map handed) =
      .ok (([v].filter fun v => since < v.seq).map Delivery.replay) := by
  have hown : Ledger.ofCompany [p, e, vr, r] companyId = [p, e, vr, r] :=
    List.filter_eq_self.mpr fun row hrow => decide_eq_true (hg.company row hrow)
  have hep : ep = v.stored env.proposeId := (Except.ok.inj hg.execPayload).symm
  have hpayload : e.payload = .dict (v.stored env.proposeId) :=
    comesBack_stored v env.proposeId e.payload (hep ▸ hg.execute.payload)
  have hp : p.kind = .propose := hg.propose.fields.2.2.1
  have hvr : vr.kind = .verify := hg.verify.fields.2.2.1
  have hr : r.kind = .resolve := hg.resolve.fields.2.2.1
  have hbefore : replayDelivered py v.subId since [handed p] = .ok [] :=
    replayDelivered_none (List.forall_mem_singleton.mpr (replayed_other (by simp [hp])))
  have hafter : replayDelivered py v.subId since [handed vr, handed r] = .ok [] :=
    replayDelivered_none (List.forall_mem_cons.mpr ⟨replayed_other (by simp [hvr]),
      List.forall_mem_singleton.mpr (replayed_other (by simp [hr]))⟩)
  have hhere : replayDelivered py v.subId since [handed e] =
      .ok (([v].filter fun v => since < v.seq).map Delivery.replay) := by
    have hone := @replayed_execute py v e env.proposeId since hg.execute.fields.2.2.1 hpayload
    refine bind_eq_ok.mpr ⟨[if v.seq ≤ since then none else some v.replay], ?_, ?_⟩
    · simp [hone, bind, Except.bind, pure, Except.pure]
    · by_cases hle : v.seq ≤ since
      · simp [hle, not_lt.mpr hle, List.reduceOption, pure, Except.pure]
      · simp [hle, not_le.mp hle, List.reduceOption, pure, Except.pure]
  have hrest := replayDelivered_append hhere hafter
  rw [List.append_nil] at hrest
  rw [hown]
  exact replayDelivered_append hbefore hrest

/-! ### What every run keeps -/

namespace Channel

/-- `records` are the recorded deliveries, in the order of the ledger. -/
structure Sound (py : Interp) (d : Ledger.Dialect) (companyId : UUID) (c : StreamCall)
    (records : List Delivery) (s : Channel) : Prop where
  chain : ∀ company, Ledger.IsChain (Ledger.ofCompany s.rows company)
  replay : ∀ since, replayDelivered py c.subscriptionId since (s.fetched d companyId) =
    .ok ((records.filter fun v => since < v.seq).map Delivery.replay)
  logged : ∀ v ∈ records, Logged py companyId s.rows (c.subscriptionId, v.seq)
  delivered : s.delivered = (records ++ s.inFlight.toList).map (·.seq)
  nodup : s.delivered.Nodup
  queued : ∃ seqs : List ℤ, (s.queue c).map eventSeq = seqs.map some
  flight : ∀ v, s.inFlight = some v → v.subId = c.subscriptionId ∧ v.subId ≠ ""
  fresh : s.session = none ∨ s.session = some .opened ∨ s.session = some .checked → s.yielded = []

theorem start_sound (maxsize : ℤ) : Sound py d companyId c [] (start maxsize) := by
  refine ⟨fun _ => Ledger.isChain_nil, fun _ => rfl, fun _ h => (nomatch h), rfl, List.nodup_nil,
    ⟨[], rfl⟩, fun _ h => (nomatch h), fun _ => rfl⟩

/-- Rows of a chain are fetched in the order in which they were written. -/
theorem fetched_eq {s : Channel} (h : ∀ company, Ledger.IsChain (Ledger.ofCompany s.rows company)) :
    s.fetched d companyId = (Ledger.ofCompany s.rows companyId).map handed := by
  rw [fetched, Ledger.fetchEntries_of_contiguous (h companyId).toContiguous, List.map_map]
  rfl

/-- What new rows add to the replay. -/
theorem replay_grows (s s' : Channel) {since : ℤ} {old added : List Dict} {new : List Ledger.Entry}
    (hchain : ∀ company, Ledger.IsChain (Ledger.ofCompany s.rows company))
    (hchain' : ∀ company, Ledger.IsChain (Ledger.ofCompany s'.rows company))
    (hrows : s'.rows = s.rows ++ new)
    (hold : replayDelivered py c.subscriptionId since (s.fetched d companyId) = .ok old)
    (hnew : replayDelivered py c.subscriptionId since ((Ledger.ofCompany new companyId).map handed) =
      .ok added) :
    replayDelivered py c.subscriptionId since (s'.fetched d companyId) = .ok (old ++ added) := by
  rw [fetched_eq hchain', hrows, Ledger.ofCompany_append, List.map_append]
  rw [fetched_eq hchain] at hold
  exact replayDelivered_append hold hnew

theorem write_appends (rows : List Ledger.Entry) (call : Ledger.Call) :
    ∃ new, (Ledger.write sha256 d rows call).2 = rows ++ new := by
  rcases @Ledger.write_cases sha256 d rows call with ⟨res, ep, vp, rp, p, e, v, r, -, hw⟩ | ⟨x, hw⟩
  · exact ⟨[p, e, v, r], by rw [hw]⟩
  · exact ⟨[], by rw [hw, List.append_nil]⟩

theorem Sound.write {s s' : Channel} {records : List Delivery} {call : Ledger.Call}
    (h : Sound py d companyId c records s) (hallowed : s.Allowed py sha256 d companyId c (.write call))
    (hstep : s.step py sha256 d companyId c active (.write call) = some s') :
    Sound py d companyId c records s' := by
  simp only [step, Option.some.injEq] at hstep
  have hchain := @Ledger.isChain_write sha256 d s.rows call h.chain
  have hkeeps := @write_keeps sha256 d s.rows call
  obtain ⟨new, hnew⟩ := @write_appends sha256 d s.rows call
  simp only [Allowed, hnew, List.drop_left] at hallowed
  rw [hnew] at hchain hkeeps hstep
  subst hstep
  refine { h with chain := hchain, replay := fun since => ?_, logged := fun v hv => ?_ }
  · have hnone : replayDelivered py c.subscriptionId since ((Ledger.ofCompany new companyId).map handed) =
        .ok [] := by
      refine replayDelivered_none fun e he => ?_
      obtain ⟨row, hrow, rfl⟩ := List.mem_map.mp he
      obtain ⟨hmem, hcompany⟩ := List.mem_filter.mp hrow
      exact hallowed row hmem (of_decide_eq_true hcompany) since
    have happ := replay_grows s { s with rows := s.rows ++ new } h.chain hchain rfl (h.replay since) hnone
    rwa [List.append_nil] at happ
  · exact (h.logged v hv).mono hkeeps

theorem Sound.record {s : Channel} {records : List Delivery} {v : Delivery} {env : Env}
    {res : Ledger.WriteResult} {rows : List Ledger.Entry} (h : Sound py d companyId c records s)
    (hflight : s.inFlight = some v)
    (hw : Ledger.write sha256 d s.rows (v.call companyId env) = (.ok res, rows)) :
    Sound py d companyId c (records ++ [v]) { s with rows, inFlight := none } := by
  obtain ⟨hsub, hne⟩ := h.flight v hflight
  have hchain := @Ledger.isChain_write sha256 d s.rows (v.call companyId env) h.chain
  have hkeeps := @write_keeps sha256 d s.rows (v.call companyId env)
  have hlogged := @write_logged py sha256 d companyId v env s.rows res hne (by rw [hw])
  obtain ⟨new, hrows, hadded⟩ : ∃ new, rows = s.rows ++ new ∧ ∀ since,
      replayDelivered py v.subId since ((Ledger.ofCompany new companyId).map handed) =
        .ok (([v].filter fun v => since < v.seq).map Delivery.replay) := by
    rcases @Ledger.write_cases sha256 d s.rows (v.call companyId env) with
      ⟨res', ep, vp, rp, p, e, vr, r, hg, hw'⟩ | ⟨x, hx⟩
    · exact ⟨[p, e, vr, r], (Prod.mk.inj (hw.symm.trans hw')).2, fun since => replay_group hg⟩
    · cases hw.symm.trans hx
  rw [hw] at hchain hkeeps hlogged
  rw [hsub] at hlogged hadded
  refine { h with chain := hchain, replay := fun since => ?_, logged := fun u hu => ?_, delivered := ?_
                  flight := fun _ hu => (nomatch hu) }
  · rw [List.filter_append, List.map_append]
    exact replay_grows s { s with rows, inFlight := none } h.chain hchain hrows (h.replay since)
      (hadded since)
  · rcases List.mem_append.mp hu with hold | hlast
    · exact (h.logged u hold).mono hkeeps
    · obtain rfl := List.mem_singleton.mp hlast
      exact hlogged
  · rw [h.delivered, hflight]
    simp

theorem step_record {s : Channel} {v : Delivery} {env : Env} {res : Ledger.WriteResult}
    {rows : List Ledger.Entry} (hflight : s.inFlight = some v)
    (hw : Ledger.write sha256 d s.rows (v.call companyId env) = (.ok res, rows)) :
    s.step py sha256 d companyId c active (.record env) = some { s with rows, inFlight := none } := by
  simp only [step, hflight, hw]

theorem step_reads {s : Channel} {events : List Dict} (hchecked : s.session = some .checked)
    (hreplay : replayDelivered py c.subscriptionId c.sinceSeq (s.fetched d companyId) = .ok events) :
    s.step py sha256 d companyId c active .resumes = some { s with session := some (.replaying events) } := by
  simp only [step, hchecked, StreamCall.turn, hreplay]

theorem Sound.push {s s' : Channel} {records : List Delivery} {seq durationMs : ℤ} {kind : String}
    {ts args : Val} (h : Sound py d companyId c records s)
    (hallowed : s.Allowed py sha256 d companyId c (.push seq kind ts args durationMs))
    (hstep : s.step py sha256 d companyId c active (.push seq kind ts args durationMs) = some s') :
    Sound py d companyId c records s' ∧ s'.rows = s.rows ∧ s'.session = s.session ∧
      s'.yielded = s.yielded ∧ s'.delivered = s.delivered ++ [seq] ∧
        ∃ event, s'.queue c = s.queue c ++ [event] ∧ eventSeq event = some seq := by
  simp only [step] at hstep
  split at hstep
  · rename_i index hflight hindex
    split at hstep
    · cases hstep
    · rename_i hnew
      obtain ⟨hne, hmem⟩ := not_or.mp hnew
      obtain rfl := Option.some.inj hstep
      have hqueue := s.registry.queueFor_push (eventPayload c.subscriptionId seq kind ts args) hallowed
      refine ⟨{ h with delivered := ?_, nodup := ?_, queued := ?_, flight := ?_ }, rfl, rfl, rfl, rfl,
        _, hqueue, rfl⟩
      · rw [h.delivered, hflight]
        simp
      · -- what is recorded is in the index, and nothing is in flight
        rw [List.nodup_append]
        refine ⟨h.nodup, List.nodup_singleton _, fun x hx y hy => ?_⟩
        obtain rfl := List.mem_singleton.mp hy
        rintro rfl
        rw [h.delivered, hflight, Option.toList_none, List.append_nil] at hx
        obtain ⟨v, hv, rfl⟩ := List.mem_map.mp hx
        exact hmem ((h.logged v hv).mem_index hindex)
      · obtain ⟨seqs, hseqs⟩ := h.queued
        refine ⟨seqs ++ [seq], ?_⟩
        simp only [queue] at hseqs ⊢
        rw [hqueue, List.map_append, hseqs]
        simp
      · rintro v hv
        obtain rfl := Option.some.inj hv
        exact ⟨rfl, hne⟩
  · cases hstep

/-- The events that a turn of the session takes from the replay or the queue are those that it yields. -/
def left : Option Position → List Dict
  | some (.replaying rest) => rest
  | _ => []

/-- What a turn of the session does once the ledger is read. -/
theorem resumes_running {s s' : Channel}
    (hrunning : (∃ rest, s.session = some (.replaying rest)) ∨ s.session = some .tailing)
    (hstep : s.step py sha256 d companyId c active .resumes = some s') :
    s'.rows = s.rows ∧ s'.inFlight = s.inFlight ∧ s'.delivered = s.delivered ∧
      ((∃ rest, s'.session = some (.replaying rest)) ∨ s'.session = some .tailing) ∧
      s'.yielded ++ (left s'.session ++ s'.queue c) = s.yielded ++ (left s.session ++ s.queue c) ∧
      ∃ taken, s.queue c = taken ++ s'.queue c := by
  rcases hrunning with ⟨rest, hsession⟩ | hsession
  · cases rest with
    | nil =>
      simp only [step, hsession, StreamCall.turn, Option.some.injEq] at hstep
      subst hstep
      refine ⟨rfl, rfl, rfl, .inr rfl, ?_, [], rfl⟩
      simp [left, hsession, queue]
    | cons event rest =>
      simp only [step, hsession, StreamCall.turn, Option.some.injEq] at hstep
      subst hstep
      refine ⟨rfl, rfl, rfl, .inl ⟨rest, rfl⟩, ?_, [], rfl⟩
      simp [left, hsession, queue]
  · simp only [step, hsession, StreamCall.turn] at hstep
    cases hqueue : s.registry.queueFor c.subscriptionId with
    | nil =>
      rw [hqueue] at hstep
      cases hstep
    | cons event rest =>
      rw [hqueue] at hstep
      simp only [Option.some.injEq] at hstep
      subst hstep
      refine ⟨rfl, rfl, rfl, .inr rfl, ?_, [event], ?_⟩
      · simp [left, hsession, queue, hqueue]
      · simp [queue, hqueue]

theorem queued_suffix {events taken rest : List Dict} (hsplit : events = taken ++ rest)
    (h : ∃ seqs : List ℤ, events.map eventSeq = seqs.map some) :
    ∃ seqs : List ℤ, rest.map eventSeq = seqs.map some := by
  obtain ⟨seqs, hseqs⟩ := h
  refine ⟨seqs.drop taken.length, ?_⟩
  rw [List.map_drop, ← hseqs, hsplit, List.map_append, List.drop_left' (by simp)]

theorem Sound.running {s s' : Channel} {records : List Delivery} (h : Sound py d companyId c records s)
    (hrunning : (∃ rest, s.session = some (.replaying rest)) ∨ s.session = some .tailing)
    (hstep : s.step py sha256 d companyId c active .resumes = some s') :
    Sound py d companyId c records s' := by
  obtain ⟨hrows, hflight, hdelivered, hsession, -, taken, hqueue⟩ := resumes_running (c := c) hrunning hstep
  have hfetched : s'.fetched d companyId = s.fetched d companyId := by rw [fetched, fetched, hrows]
  refine ⟨hrows ▸ h.chain, hfetched ▸ h.replay, hrows ▸ h.logged, ?_, hdelivered ▸ h.nodup,
    queued_suffix hqueue h.queued, hflight ▸ h.flight, ?_⟩
  · rw [hdelivered, hflight]
    exact h.delivered
  · rcases hsession with ⟨rest, hs⟩ | hs <;> simp [hs]

/-- Every step keeps what the ledger says of the deliveries. -/
theorem Sound.step {s s' : Channel} {records : List Delivery} {a : Happening}
    (h : Sound py d companyId c records s) (hallowed : s.Allowed py sha256 d companyId c a)
    (hstep : s.step py sha256 d companyId c active a = some s') :
    ∃ records', Sound py d companyId c records' s' := by
  cases a with
  | write call => exact ⟨records, h.write hallowed hstep⟩
  | push seq kind ts args durationMs => exact ⟨records, (h.push hallowed hstep).1⟩
  | record env =>
    simp only [Channel.step] at hstep
    split at hstep
    · cases hstep
    · rename_i v hflight
      split at hstep
      · rename_i res rows hw
        obtain rfl := Option.some.inj hstep
        exact ⟨records ++ [v], h.record hflight hw⟩
      · cases hstep
  | take =>
    simp only [Channel.step] at hstep
    split at hstep
    · rename_i event rest hsession hqueue
      obtain rfl := Option.some.inj hstep
      refine ⟨records, { h with queued := ?_ }⟩
      have hsplit : s.queue c = [event] ++ rest := hqueue
      simpa [queue] using queued_suffix hsplit h.queued
    · cases hstep
  | opens =>
    simp only [Channel.step] at hstep
    split at hstep
    · cases hstep
    · rename_i hsession
      obtain rfl := Option.some.inj hstep
      refine ⟨records, { h with fresh := fun _ => h.fresh (.inl ?_) }⟩
      simpa using hsession
  | resumes =>
    cases hsession : s.session with
    | none =>
      simp only [Channel.step, hsession] at hstep
      cases hstep
    | some position =>
      cases position with
      | opened =>
        simp only [Channel.step, hsession, StreamCall.turn] at hstep
        cases hdenial : c.denial py active with
        | some event =>
          simp only [hdenial, Option.some.injEq] at hstep
          subst hstep
          refine ⟨records, { h with fresh := ?_ }⟩
          rintro (hs | hs | hs) <;> cases hs
        | none =>
          simp only [hdenial, Option.some.injEq] at hstep
          subst hstep
          exact ⟨records, { h with fresh := fun _ => h.fresh (.inr (.inl hsession)) }⟩
      | checked =>
        obtain rfl := Option.some.inj ((step_reads hsession (h.replay c.sinceSeq)).symm.trans hstep)
        exact ⟨records, { h with fresh := fun _ => h.fresh (.inr (.inr hsession)) }⟩
      | replaying rest => exact ⟨records, h.running (.inl ⟨rest, hsession⟩) hstep⟩
      | tailing => exact ⟨records, h.running (.inr hsession) hstep⟩
      | closed =>
        simp only [Channel.step, hsession, StreamCall.turn] at hstep
        cases hstep

/-! ### From the reading of the ledger to the empty queue -/

/-- The seqs that the session has yielded or will, while `new` is delivered. -/
structure Owes (c : StreamCall) (old base : List ℤ) (s : Channel) (new : List ℤ) : Prop where
  running : (∃ rest, s.session = some (.replaying rest)) ∨ s.session = some .tailing
  delivered : s.delivered = old ++ new
  owed : (s.yielded ++ (left s.session ++ s.queue c)).map eventSeq = (base ++ new).map some

/-- What a session owes only grows by what is pushed. -/
theorem Owes.step {s s' : Channel} {records : List Delivery} {old base new : List ℤ} {a : Happening}
    (h : Owes c old base s new) (hsound : Sound py d companyId c records s)
    (hallowed : s.Allowed py sha256 d companyId c a)
    (hstep : s.step py sha256 d companyId c active a = some s') : ∃ new', Owes c old base s' new' := by
  cases a with
  | write call =>
    obtain rfl := Option.some.inj hstep
    exact ⟨new, h.running, h.delivered, h.owed⟩
  | push seq kind ts args durationMs =>
    obtain ⟨-, -, hsession, hyielded, hdelivered, event, hqueue, hseq⟩ := hsound.push hallowed hstep
    refine ⟨new ++ [seq], ?_, ?_, ?_⟩
    · rw [hsession]
      exact h.running
    · rw [hdelivered, h.delivered, List.append_assoc]
    · have howed := h.owed
      rw [hsession, hyielded, hqueue, ← List.append_assoc base, List.map_append (f := some), ← howed]
      simp [hseq]
  | record env =>
    simp only [Channel.step] at hstep
    split at hstep
    · cases hstep
    · split at hstep
      · obtain rfl := Option.some.inj hstep
        exact ⟨new, h.running, h.delivered, h.owed⟩
      · cases hstep
  | take =>
    simp only [Channel.step] at hstep
    split at hstep
    · rename_i hsession _
      rcases h.running with ⟨rest, hs⟩ | hs <;> cases hsession.symm.trans hs
    · cases hstep
  | opens =>
    simp only [Channel.step] at hstep
    split at hstep
    · cases hstep
    · rename_i hsession
      rcases h.running with ⟨rest, hs⟩ | hs <;> simp [hs] at hsession
  | resumes =>
    obtain ⟨-, -, hdelivered, hrunning, hsame, -⟩ := resumes_running (c := c) h.running hstep
    exact ⟨new, hrunning, hdelivered.trans h.delivered, hsame ▸ h.owed⟩

/-- The turn that reads the ledger makes the session owe the records above the seq and the queue. -/
theorem Owes.reads {s s' : Channel} {records : List Delivery} {queued : List ℤ}
    (hsound : Sound py d companyId c records s) (hchecked : s.session = some .checked)
    (hqueued : (s.queue c).map eventSeq = queued.map some)
    (hstep : s.step py sha256 d companyId c active .resumes = some s') :
    Owes c s.delivered ((records.map (·.seq)).filter (c.sinceSeq < ·) ++ queued) s' [] := by
  obtain rfl := Option.some.inj ((step_reads hchecked (hsound.replay c.sinceSeq)).symm.trans hstep)
  refine ⟨.inl ⟨_, rfl⟩, (List.append_nil _).symm, ?_⟩
  have hyielded := hsound.fresh (.inr (.inr hchecked))
  have hreplay : ((records.filter fun v => c.sinceSeq < v.seq).map Delivery.replay).map eventSeq =
      ((records.map (·.seq)).filter (c.sinceSeq < ·)).map some := by
    simp [List.filter_map, Function.comp_def]
  simp only [queue] at hqueued
  simp only [hyielded, left, queue, List.nil_append, List.append_nil, List.map_append, hqueued, hreplay]

end Channel

end

/-! ### When the two sources fit together -/

/-- The replay, the queue and what comes live are the seqs above `since` in increasing order exactly when
    the queue holds what is in flight. -/
theorem once_iff {since : ℤ} {recorded flight queued new : List ℤ} (hflight : flight.length ≤ 1)
    (hnodup : (recorded ++ flight ++ new).Nodup) :
    ((recorded.filter (since < ·) ++ queued ++ new).Pairwise (· < ·) ∧
        ∀ seq, seq ∈ recorded.filter (since < ·) ++ queued ++ new ↔
          seq ∈ recorded ++ flight ++ new ∧ since < seq) ↔
      queued = flight.filter (since < ·) ∧
        ((recorded ++ flight ++ new).filter (since < ·)).Pairwise (· < ·) ∧ ∀ seq ∈ new, since < seq := by
  have hall : (∀ seq ∈ new, since < seq) → new.filter (since < ·) = new := fun h =>
    List.filter_eq_self.mpr fun seq hseq => decide_eq_true (h seq hseq)
  constructor
  · rintro ⟨hsorted, hmem⟩
    have hnew : ∀ seq ∈ new, since < seq := fun seq hseq =>
      ((hmem seq).mp (List.mem_append_right _ hseq)).2
    have hqueued : queued = flight.filter (since < ·) := by
      obtain ⟨hfront, -, hlate⟩ := List.pairwise_append.mp hsorted
      obtain ⟨-, hqsorted, hacross⟩ := List.pairwise_append.mp hfront
      obtain ⟨hleft, -, hdisj⟩ := List.nodup_append.mp hnodup
      obtain ⟨-, -, hdisj'⟩ := List.nodup_append.mp hleft
      have hsingle : (flight.filter (since < ·)).Pairwise (· < ·) := by
        have hlen := (List.length_filter_le (since < ·) flight).trans hflight
        match flight.filter (since < ·), hlen with
        | [], _ => exact .nil
        | [seq], _ => exact List.pairwise_singleton _ _
      refine List.Perm.eq_of_pairwise (fun a b _ _ hab hba => absurd hab (lt_asymm hba)) hqsorted hsingle ?_
      refine (List.perm_ext_iff_of_nodup (hqsorted.imp ne_of_lt) (hsingle.imp ne_of_lt)).mpr fun seq => ?_
      constructor
      · -- what the queue holds was delivered, and is neither in the replay nor to come
        intro hseq
        obtain ⟨hwhere, habove⟩ := (hmem seq).mp (List.mem_append_left _ (List.mem_append_right _ hseq))
        refine List.mem_filter.mpr ⟨?_, decide_eq_true habove⟩
        rcases List.mem_append.mp hwhere with hold | hcome
        · rcases List.mem_append.mp hold with hrec | hfl
          · have hlt := hacross seq (List.mem_filter.mpr ⟨hrec, decide_eq_true habove⟩) seq hseq
            exact absurd hlt (lt_irrefl _)
          · exact hfl
        · exact absurd (hlate seq (List.mem_append_right _ hseq) seq hcome) (lt_irrefl _)
      · intro hseq
        obtain ⟨hfl, habove⟩ := List.mem_filter.mp hseq
        have hhere := (hmem seq).mpr
          ⟨List.mem_append_left _ (List.mem_append_right _ hfl), of_decide_eq_true habove⟩
        rcases List.mem_append.mp hhere with hold | hcome
        · rcases List.mem_append.mp hold with hrec | hq
          · exact absurd rfl (hdisj' seq (List.mem_filter.mp hrec).1 seq hfl)
          · exact hq
        · exact absurd rfl (hdisj seq (List.mem_append_right _ hfl) seq hcome)
    refine ⟨hqueued, ?_, hnew⟩
    rw [List.filter_append, List.filter_append, ← hqueued, hall hnew]
    exact hsorted
  · rintro ⟨rfl, hsorted, hnew⟩
    have hsame : recorded.filter (since < ·) ++ flight.filter (since < ·) ++ new =
        (recorded ++ flight ++ new).filter (since < ·) := by
      rw [List.filter_append, List.filter_append, hall hnew]
    rw [hsame]
    exact ⟨hsorted, fun seq => by rw [List.mem_filter, decide_eq_true_iff]⟩

/-- A session that reads the ledger and comes to an empty queue has resumed exactly when the queue held
    the delivery in flight and nothing else as the ledger was read, and the deliveries go upwards. -/
theorem resumedOnce_iff (py : Interp) (sha256 : Bytes → Bytes) (d : Ledger.Dialect) (companyId : UUID)
    (c : StreamCall) (active : List Dict) (maxsize : ℤ) (before after : List Happening) (reads final : Channel)
    (hallowed : Run.Guarded (Channel.step py sha256 d companyId c active)
      (Channel.Allowed py sha256 d companyId c) (Channel.start maxsize) (before ++ .resumes :: after))
    (hbefore : Run.exec (Channel.step py sha256 d companyId c active) (Channel.start maxsize) before =
      some reads)
    (hreads : reads.session = some .checked)
    (hafter : Run.exec (Channel.step py sha256 d companyId c active) reads (.resumes :: after) = some final)
    (hdrained : final.Drained c) :
    final.ResumedOnce c ↔ reads.HandsOver c ∧
      (final.delivered.filter (c.sinceSeq < ·)).Pairwise (· < ·) ∧
        ∀ seq ∈ final.delivered.drop reads.delivered.length, c.sinceSeq < seq := by
  obtain ⟨hallowedBefore, hallowedAfter⟩ := Run.guarded_append.mp hallowed
  obtain ⟨records, hsound⟩ := Run.guarded_invariant
    (I := fun s : Channel => ∃ records, Channel.Sound py d companyId c records s)
    (fun s a s' ⟨records, h⟩ ha hstep => h.step ha hstep) ⟨[], Channel.start_sound maxsize⟩
    hallowedBefore hbefore
  obtain ⟨queued, hqueued⟩ := hsound.queued
  obtain ⟨read, hread, hafter⟩ := Run.exec_cons.mp hafter
  have howes := Channel.Owes.reads hsound hreads hqueued hread
  obtain ⟨records', hsound'⟩ := hsound.step ((hallowedAfter _ hbefore).1) hread
  generalize hbase : (records.map (·.seq)).filter (c.sinceSeq < ·) ++ queued = base at howes
  obtain ⟨⟨records'', hend⟩, new, howes⟩ := Run.guarded_invariant
    (I := fun s : Channel => (∃ records, Channel.Sound py d companyId c records s) ∧
      ∃ new, Channel.Owes c reads.delivered base s new)
    (fun s a s' ⟨⟨records, h⟩, new, ho⟩ ha hstep => ⟨h.step ha hstep, ho.step h ha hstep⟩)
    ⟨⟨records', hsound'⟩, [], howes⟩ ((hallowedAfter _ hbefore).2 _ hread) hafter
  have hyielded : final.yielded.map eventSeq = (base ++ new).map some := by
    have howed := howes.owed
    simpa [hdrained.1, hdrained.2, Channel.left] using howed
  have hnodup := hend.nodup
  rw [howes.delivered, hsound.delivered, List.map_append] at hnodup
  have honce := @once_iff c.sinceSeq (records.map (·.seq)) (reads.inFlight.toList.map (·.seq)) queued new
    (by cases reads.inFlight <;> simp) hnodup
  rw [← List.map_append, ← hsound.delivered, ← howes.delivered, hbase] at honce
  have hover : reads.HandsOver c ↔ queued = (reads.inFlight.toList.map (·.seq)).filter (c.sinceSeq < ·) := by
    rw [Channel.HandsOver, hqueued]
    exact (List.map_injective_iff.mpr (Option.some_injective ℤ)).eq_iff
  have hlive : final.delivered.drop reads.delivered.length = new := by
    rw [howes.delivered, List.drop_left]
  rw [hover, hlive, ← honce, Channel.ResumedOnce]
  constructor
  · rintro ⟨seqs, hseqs, hsorted, hmem⟩
    obtain rfl := List.map_injective_iff.mpr (Option.some_injective ℤ) (hseqs.symm.trans hyielded)
    exact ⟨hsorted, hmem⟩
  · rintro ⟨hsorted, hmem⟩
    exact ⟨_, hyielded, hsorted, hmem⟩

/-! ### One delivery that stays in the queue -/

def fifth : Delivery := ⟨"s-1", 5, "propose", "mcp_stream", "delivered", 0, none⟩

/-- The registry with the fifth entry in the queue. -/
def fifthQueued : StreamRegistry :=
  StreamRegistry.push ⟨1000, fun _ => none⟩ "s-1" (eventPayload "s-1" 5 "propose" .none .none)

def fifthPushed : List Happening := [.push 5 "propose" .none .none 0, .record matchAll.2]

theorem fifth_returns : ∃ res rows,
    Ledger.write Ledger.tagHash .sqlite [] (fifth.call ⟨1⟩ matchAll.2) = (.ok res, rows) := by
  obtain ⟨t, ht⟩ := Ledger.isoText_midnight
  refine Ledger.first_write_returns Ledger.tagHash_injective ⟨t, _, ht, rfl, rfl⟩ rfl
    ⟨t, _, ht, rfl, rfl⟩ rfl ⟨t, _, ht, rfl, rfl⟩ rfl rfl ⟨t, _, ht, rfl, rfl⟩
    (show (fifth.call ⟨1⟩ matchAll.2).ids.Nodup by decide) ?_
  simp only [Ledger.Storable, List.forall_mem_cons]
  exact ⟨⟨_, rfl⟩, ⟨_, rfl⟩, ⟨_, rfl⟩, ⟨_, rfl⟩, by simp⟩

/-- The delivery is in the queue and in the replay. -/
theorem fifth_pushed : ∃ rows, Run.exec (Channel.step .plain Ledger.tagHash .sqlite ⟨1⟩ resumeCall
    (ownedBy "agent-1")) (Channel.start 1000) fifthPushed = some ⟨rows, fifthQueued, none, [5], none, []⟩ ∧
      replayDelivered .plain "s-1" 1 ((Ledger.fetchEntries .sqlite rows ⟨1⟩ none).map Ledger.Entry.dict) =
        .ok [fifth.replay] := by
  obtain ⟨res, rows, hw⟩ := fifth_returns
  have hpush : (Channel.start 1000).step .plain Ledger.tagHash .sqlite ⟨1⟩ resumeCall (ownedBy "agent-1")
      (.push 5 "propose" .none .none 0) = some ⟨[], fifthQueued, some fifth, [5], none, []⟩ := by
    have hindex : deliveredIndex .plain ((Channel.start 1000).fetched .sqlite ⟨1⟩) = .ok [] := rfl
    simp only [Channel.step, hindex]
    rfl
  have hrecord : Channel.step .plain Ledger.tagHash .sqlite ⟨1⟩ resumeCall (ownedBy "agent-1")
      ⟨[], fifthQueued, some fifth, [5], none, []⟩ (.record matchAll.2) =
        some ⟨rows, fifthQueued, none, [5], none, []⟩ :=
    @Channel.step_record .plain Ledger.tagHash .sqlite ⟨1⟩ resumeCall (ownedBy "agent-1")
      ⟨[], fifthQueued, some fifth, [5], none, []⟩ fifth matchAll.2 res rows rfl hw
  refine ⟨rows, Run.exec_cons.mpr ⟨_, hpush, Run.exec_cons.mpr ⟨_, hrecord, rfl⟩⟩, ?_⟩
  have hsound := @Channel.start_sound .plain .sqlite ⟨1⟩ resumeCall 1000
  have hpushed := (@Channel.Sound.push .plain Ledger.tagHash .sqlite ⟨1⟩ resumeCall (ownedBy "agent-1")
    _ _ _ _ _ _ _ _ hsound rfl hpush).1
  exact (hpushed.record rfl hw).replay 1

theorem fifth_allowed (rest : List Happening)
    (hrest : ∀ a ∈ rest, a = .record matchAll.2 ∨ a = .take ∨ a = .opens ∨ a = .resumes) :
    Run.Guarded (Channel.step .plain Ledger.tagHash .sqlite ⟨1⟩ resumeCall (ownedBy "agent-1"))
      (Channel.Allowed .plain Ledger.tagHash .sqlite ⟨1⟩ resumeCall) (Channel.start 1000)
      (.push 5 "propose" .none .none 0 :: rest) := by
  refine ⟨rfl, fun _ _ => Run.guarded_of_forall fun a ha s => ?_⟩
  rcases hrest a ha with rfl | rfl | rfl | rfl <;> trivial

/-- An earlier session took the event, and the replay alone has it. -/
theorem fifth_resumed : ∃ final, Run.exec (Channel.step .plain Ledger.tagHash .sqlite ⟨1⟩ resumeCall
    (ownedBy "agent-1")) (Channel.start 1000) (fifthPushed ++ [.take, .opens, .resumes] ++
      [.resumes, .resumes, .resumes]) = some final ∧ final.ResumedOnce resumeCall := by
  obtain ⟨rows, hpushed, hreplay⟩ := fifth_pushed
  have hbefore : Run.exec (Channel.step .plain Ledger.tagHash .sqlite ⟨1⟩ resumeCall (ownedBy "agent-1"))
      (Channel.start 1000) (fifthPushed ++ [.take, .opens, .resumes]) =
        some ⟨rows, fifthQueued.setQueue "s-1" [], none, [5], some .checked, []⟩ :=
    Run.exec_append.mpr ⟨_, hpushed, rfl⟩
  have hread : Channel.step .plain Ledger.tagHash .sqlite ⟨1⟩ resumeCall (ownedBy "agent-1")
      ⟨rows, fifthQueued.setQueue "s-1" [], none, [5], some .checked, []⟩ .resumes =
        some ⟨rows, fifthQueued.setQueue "s-1" [], none, [5], some (.replaying [fifth.replay]), []⟩ :=
    @Channel.step_reads .plain Ledger.tagHash .sqlite ⟨1⟩ resumeCall (ownedBy "agent-1")
      ⟨rows, fifthQueued.setQueue "s-1" [], none, [5], some .checked, []⟩ _ rfl hreplay
  have hafter : Run.exec (Channel.step .plain Ledger.tagHash .sqlite ⟨1⟩ resumeCall (ownedBy "agent-1"))
      ⟨rows, fifthQueued.setQueue "s-1" [], none, [5], some .checked, []⟩ [.resumes, .resumes, .resumes] =
        some ⟨rows, fifthQueued.setQueue "s-1" [], none, [5], some .tailing, [fifth.replay]⟩ :=
    Run.exec_cons.mpr ⟨_, hread, rfl⟩
  refine ⟨_, Run.exec_append.mpr ⟨_, hbefore, hafter⟩, ?_⟩
  have hallowed := fifth_allowed [.record matchAll.2, .take, .opens, .resumes, .resumes, .resumes, .resumes]
    (by simp)
  have hiff := resumedOnce_iff .plain Ledger.tagHash .sqlite ⟨1⟩ resumeCall (ownedBy "agent-1") 1000
    (fifthPushed ++ [.take, .opens, .resumes]) [.resumes, .resumes]
    ⟨rows, fifthQueued.setQueue "s-1" [], none, [5], some .checked, []⟩
    ⟨rows, fifthQueued.setQueue "s-1" [], none, [5], some .tailing, [fifth.replay]⟩
    hallowed
  refine (hiff hbefore rfl hafter ⟨rfl, rfl⟩).mpr ⟨rfl, ?_, ?_⟩
  · exact List.pairwise_singleton _ _
  · exact fun _ h => nomatch h

theorem queued_yields_twice : ¬∀ (py : Interp) (sha256 : Bytes → Bytes) (d : Ledger.Dialect)
    (companyId : UUID) (c : StreamCall) (active : List Dict) (maxsize : ℤ) (before after : List Happening)
    (reads final : Channel),
    Run.Guarded (Channel.step py sha256 d companyId c active) (Channel.Allowed py sha256 d companyId c)
      (Channel.start maxsize) (before ++ .resumes :: after) →
    Run.exec (Channel.step py sha256 d companyId c active) (Channel.start maxsize) before = some reads →
    reads.session = some .checked →
    Run.exec (Channel.step py sha256 d companyId c active) reads (.resumes :: after) = some final →
    final.Drained c → final.ResumedOnce c := by
  intro h
  obtain ⟨rows, hpushed, hreplay⟩ := fifth_pushed
  have hbefore : Run.exec (Channel.step .plain Ledger.tagHash .sqlite ⟨1⟩ resumeCall (ownedBy "agent-1"))
      (Channel.start 1000) (fifthPushed ++ [.opens, .resumes]) =
        some ⟨rows, fifthQueued, none, [5], some .checked, []⟩ :=
    Run.exec_append.mpr ⟨_, hpushed, rfl⟩
  have hread : Channel.step .plain Ledger.tagHash .sqlite ⟨1⟩ resumeCall (ownedBy "agent-1")
      ⟨rows, fifthQueued, none, [5], some .checked, []⟩ .resumes =
        some ⟨rows, fifthQueued, none, [5], some (.replaying [fifth.replay]), []⟩ :=
    @Channel.step_reads .plain Ledger.tagHash .sqlite ⟨1⟩ resumeCall (ownedBy "agent-1")
      ⟨rows, fifthQueued, none, [5], some .checked, []⟩ _ rfl hreplay
  have hafter : Run.exec (Channel.step .plain Ledger.tagHash .sqlite ⟨1⟩ resumeCall (ownedBy "agent-1"))
      ⟨rows, fifthQueued, none, [5], some .checked, []⟩ [.resumes, .resumes, .resumes, .resumes] =
        some ⟨rows, fifthQueued.setQueue "s-1" [], none, [5], some .tailing,
          [fifth.replay, eventPayload "s-1" 5 "propose" .none .none]⟩ :=
    Run.exec_cons.mpr ⟨_, hread, rfl⟩
  have hallowed := fifth_allowed [.record matchAll.2, .opens, .resumes, .resumes, .resumes, .resumes, .resumes]
    (by simp)
  have hall := h .plain Ledger.tagHash .sqlite ⟨1⟩ resumeCall (ownedBy "agent-1") 1000
    (fifthPushed ++ [.opens, .resumes]) [.resumes, .resumes, .resumes]
    ⟨rows, fifthQueued, none, [5], some .checked, []⟩
    ⟨rows, fifthQueued.setQueue "s-1" [], none, [5], some .tailing,
      [fifth.replay, eventPayload "s-1" 5 "propose" .none .none]⟩
    hallowed
  obtain ⟨seqs, hseqs, hsorted, -⟩ := hall hbefore rfl hafter ⟨rfl, rfl⟩
  have htwice : seqs = [5, 5] := List.map_injective_iff.mpr (Option.some_injective ℤ) hseqs.symm
  rw [htwice] at hsorted
  simp at hsorted

end Subscriptions
