import Wormbase.Lib.Run
import Wormbase.Subscriptions.Dispatcher

/-! Whether deliveries feed on the rows that record them.

    A cycle leaves four rows, and the dispatcher's predicate knows the execute row only. The others
    pass it, and go to every subscription whose filter matches them. -/

namespace Subscriptions
open Py

section
variable {py : Interp} {sha256 : Bytes → Bytes} {d : Ledger.Dialect} {companyId : UUID} {replayMode : Bool}

/-! ### What a fire adds -/

/-- A subscription of the list is reached, matches, and has nothing in the index for the entry. -/
def DueIn (py : Interp) (entry : Dict) (seq : ℤ) (index : List (String × ℤ)) (active : List (Dict × Env)) :
    Prop :=
  ∃ before sub after, active = before ++ sub :: after ∧
    (∀ s ∈ before, ∃ o, candidate py s.1 entry = .ok o) ∧
      ∃ subId, candidate py sub.1 entry = .ok (some subId) ∧ (subId, seq) ∉ index

theorem dueIn_cons {entry : Dict} {seq : ℤ} {index : List (String × ℤ)} {sub : Dict × Env}
    {rest : List (Dict × Env)} : DueIn py entry seq index (sub :: rest) ↔
      ∃ o, candidate py sub.1 entry = .ok o ∧
        ((∃ subId, o = some subId ∧ (subId, seq) ∉ index) ∨ DueIn py entry seq index rest) := by
  constructor
  · rintro ⟨before, sub', after, hactive, hbefore, subId, hsub, hindex⟩
    cases before with
    | nil =>
      obtain ⟨rfl, rfl⟩ := List.cons.inj hactive
      exact ⟨_, hsub, .inl ⟨subId, rfl, hindex⟩⟩
    | cons first before =>
      obtain ⟨rfl, rfl⟩ := List.cons.inj hactive
      obtain ⟨⟨o, ho⟩, hbefore⟩ := List.forall_mem_cons.mp hbefore
      exact ⟨o, ho, .inr ⟨before, sub', after, rfl, hbefore, subId, hsub, hindex⟩⟩
  · rintro ⟨o, ho, ⟨subId, rfl, hindex⟩ | ⟨before, sub', after, rfl, hbefore, hsub⟩⟩
    · exact ⟨[], sub, rest, rfl, fun _ h => (nomatch h), subId, ho, hindex⟩
    · exact ⟨sub :: before, sub', after, rfl, List.forall_mem_cons.mpr ⟨⟨o, ho⟩, hbefore⟩, hsub⟩

/-- One call of `_deliver` is one attempt, whatever becomes of it. -/
theorem deliver_attempts (sub : Dict) (subId : String) (seq : ℤ) (kind : String) (env : Env)
    (s : Firing) : ∃ handed recorded noted,
      (deliver py sha256 d companyId replayMode sub subId seq kind env s).1.attempts =
        s.attempts ++ [⟨subId, seq, handed, recorded, noted⟩] := by
  simp only [deliver]
  generalize doTransport py sub subId seq kind replayMode env.reply = t
  generalize Ledger.write sha256 d s.rows (t.1.call companyId env) = w
  split
  · exact ⟨_, _, _, rfl⟩
  · exact ⟨_, _, _, rfl⟩
  · exact ⟨_, _, _, rfl⟩
  · exact ⟨_, _, _, rfl⟩
  · exact ⟨_, _, _, rfl⟩

/-- The loop of a fire adds at most one attempt for each subscription. -/
theorem offers_attempts {entry : Dict} {seq : ℤ} {kind : String} : ∀ {active : List (Dict × Env)}
    {s : Firing}, ∃ new, new.length ≤ active.length ∧
      (offers py sha256 d companyId replayMode entry seq kind active s).1.attempts = s.attempts ++ new
  | [], s => ⟨[], le_rfl, (List.append_nil _).symm⟩
  | (sub, env) :: rest, s => by
    rw [offers]
    split
    · exact ⟨[], by simp, (List.append_nil _).symm⟩
    · obtain ⟨new, hlen, hnew⟩ := @offers_attempts entry seq kind rest s
      exact ⟨new, hlen.trans (Nat.le_succ _), hnew⟩
    · rename_i subId _
      split
      · obtain ⟨new, hlen, hnew⟩ := @offers_attempts entry seq kind rest s
        exact ⟨new, hlen.trans (Nat.le_succ _), hnew⟩
      · obtain ⟨handed, recorded, noted, hdeliver⟩ := @deliver_attempts py sha256 d companyId replayMode sub subId
          seq kind env s
        split
        · rename_i s' hs'
          rw [hs'] at hdeliver
          obtain ⟨new, hlen, hnew⟩ := @offers_attempts entry seq kind rest s'
          refine ⟨⟨subId, seq, handed, recorded, noted⟩ :: new, Nat.succ_le_succ hlen, ?_⟩
          rw [hnew, hdeliver, List.append_assoc]
          rfl
        · rename_i s' stop hs'
          rw [hs'] at hdeliver
          exact ⟨[_], by simp, hdeliver⟩

/-- Nothing is added exactly when no subscription is due. -/
theorem offers_quiet_iff {entry : Dict} {seq : ℤ} {kind : String} : ∀ {active : List (Dict × Env)}
    {s : Firing}, (offers py sha256 d companyId replayMode entry seq kind active s).1.attempts =
      s.attempts ↔ ¬DueIn py entry seq s.index active
  | [], s => by simp [offers, DueIn]
  | (sub, env) :: rest, s => by
    rw [offers, dueIn_cons]
    split
    · rename_i x hx
      simp [hx]
    · rename_i hnone
      simp only [hnone, Except.ok.injEq, exists_eq_left', reduceCtorEq, false_and, exists_false, false_or]
      exact offers_quiet_iff
    · rename_i subId hsub
      simp only [hsub, Except.ok.injEq, exists_eq_left', Option.some.injEq]
      split
      · rename_i hindex
        simp only [hindex, not_true_eq_false, false_or]
        exact offers_quiet_iff
      · rename_i hindex
        simp only [hindex, not_false_eq_true, true_or, not_true_eq_false, iff_false]
        obtain ⟨handed, recorded, noted, hdeliver⟩ := @deliver_attempts py sha256 d companyId replayMode sub subId
          seq kind env s
        intro hsame
        have hlen := congrArg List.length hsame
        split at hlen
        · rename_i s' hs'
          rw [hs'] at hdeliver
          obtain ⟨new, -, hnew⟩ := @offers_attempts py sha256 d companyId replayMode entry seq kind rest s'
          rw [hnew, hdeliver] at hlen
          simp only [List.length_append, List.length_cons] at hlen
          omega
        · rename_i s' stop hs'
          rw [hs'] at hdeliver
          rw [hdeliver] at hlen
          simp only [List.length_append, List.length_cons] at hlen
          omega

/-- A subscription is due for an entry when `fire` is called on it with this ledger. -/
def Due (py : Interp) (d : Ledger.Dialect) (companyId : UUID) (entry : Dict)
    (active : List (Dict × Env)) (rows : List Ledger.Entry) : Prop :=
  ∃ seq index, ((entry.getD "seq" (.int 0)).or (.int 0)).toInt = .ok seq ∧
    deliveredIndex py ((Ledger.fetchEntries d rows companyId none).map Ledger.Entry.dict) = .ok index ∧
      DueIn py entry seq index active

theorem fire_quiet_iff {entry : Dict} {active : List (Dict × Env)} {rows : List Ledger.Entry}
    {attempts : List Attempt} :
    (fire py sha256 d companyId replayMode entry active rows attempts).1.attempts = attempts ↔
      ¬Due py d companyId entry active rows := by
  simp only [fire]
  split
  · rename_i hnone
    simp [Due, DueIn, hnone]
  · split
    · rename_i x hx
      simp only [true_iff]
      rintro ⟨seq, index, hseq, hindex, -⟩
      simp [hseq, hindex, bind, Except.bind, pure, Except.pure] at hx
    · rename_i seq index hread
      obtain ⟨seq', hseq, hread⟩ := bind_eq_ok.mp hread
      obtain ⟨index', hindex, hread⟩ := bind_eq_ok.mp hread
      obtain ⟨rfl, rfl⟩ := Prod.mk.inj (Except.ok.inj hread)
      rw [offers_quiet_iff, not_iff_not, Due]
      constructor
      · exact fun hdue => ⟨_, _, hseq, hindex, hdue⟩
      · rintro ⟨seq, index, hseq', hindex', hdue⟩
        obtain rfl := Except.ok.inj (hseq.symm.trans hseq')
        obtain rfl := Except.ok.inj (hindex.symm.trans hindex')
        exact hdue

theorem fire_attempts {entry : Dict} {active : List (Dict × Env)} {rows : List Ledger.Entry}
    {attempts : List Attempt} : ∃ new, new.length ≤ active.length ∧
      (fire py sha256 d companyId replayMode entry active rows attempts).1.attempts = attempts ++ new := by
  simp only [fire]
  split
  · exact ⟨[], by simp, (List.append_nil _).symm⟩
  · split
    · exact ⟨[], by simp, (List.append_nil _).symm⟩
    · exact offers_attempts

/-! ### The rows of a cycle -/

/-- A row of a cycle for `kind`: its execute row names the action, the other three can say anything. -/
def CycleRow (kind : String) (e : Ledger.Entry) : Prop :=
  ∃ payload, e.payload = .dict payload ∧
    (e.kind = .execute → Dict.get payload "tool" = .str ("emit_" ++ kind))

theorem handed_payload (e : Ledger.Entry) : (handed e).get "payload" = e.payload := by
  unfold handed Ledger.normalizeRow
  split
  · rfl
  · rfl

/-- The predicate rejects the execute row of a cycle for one of its kinds, and nothing else of it. -/
theorem predicate_cycleRow {kind : String} {e : Ledger.Entry} (hkind : kind ∈ metaKinds)
    (he : CycleRow kind e) :
    dispatcherPredicate (handed e) = .ok (if e.kind = .execute then false else true) := by
  obtain ⟨payload, hpayload, htool⟩ := he
  have hstep := handed_kind e
  split
  · rename_i hexec
    rw [hexec] at hstep
    have hpayload' := (handed_payload e).trans hpayload
    have hany : Reactivity.anyOf (metaKinds.map fun k => Reactivity.entryKind k (handed e)) = .ok true := by
      refine Reactivity.anyOf_true (fun c hc => ?_) (List.mem_map.mpr ⟨kind, hkind, ?_⟩)
      · obtain ⟨k, -, rfl⟩ := List.mem_map.mp hc
        exact Reactivity.entryKind_isOk hstep hpayload' (htool hexec)
      · exact Reactivity.entryKind_action hstep hpayload' (htool hexec)
    rw [dispatcherPredicate, hany]
    rfl
  · rename_i hexec
    have htext : e.kind.text ≠ "execute" ∧ ∀ k ∈ metaKinds, e.kind.text ≠ k := by
      cases hk : e.kind with
      | execute => exact absurd hk hexec
      | propose => simp [Ledger.Kind.text, metaKinds]
      | verify => simp [Ledger.Kind.text, metaKinds]
      | resolve => simp [Ledger.Kind.text, metaKinds]
    have hany : Reactivity.anyOf (metaKinds.map fun k => Reactivity.entryKind k (handed e)) = .ok false := by
      refine Reactivity.anyOf_false fun c hc => ?_
      obtain ⟨k, hk, rfl⟩ := List.mem_map.mp hc
      exact Reactivity.entryKind_step hstep htext.1 (htext.2 k hk)
    rw [dispatcherPredicate, hany]
    rfl

/-- The predicate rejects the entry, or `fire` delivers nothing for it. -/
def Quiet (py : Interp) (sha256 : Bytes → Bytes) (d : Ledger.Dialect) (companyId : UUID)
    (replayMode : Bool) (entry : Dict) (active : List (Dict × Env)) (rows : List Ledger.Entry) : Prop :=
  dispatcherPredicate entry = .ok false ∨
    (fire py sha256 d companyId replayMode entry active rows []).1.attempts = []

theorem cycleRow_quiet_iff {kind : String} {e : Ledger.Entry} (hkind : kind ∈ metaKinds)
    (he : CycleRow kind e) {active : List (Dict × Env)} {rows : List Ledger.Entry} :
    Quiet py sha256 d companyId replayMode (handed e) active rows ↔
      e.kind = .execute ∨ ¬Due py d companyId (handed e) active rows := by
  rw [Quiet, predicate_cycleRow hkind he, fire_quiet_iff]
  refine or_congr_left ?_
  split
  · rename_i hexec
    simp [hexec]
  · rename_i hexec
    simp [hexec]

end

/-! ### Dispatching row after row -/

/-- The ledger, the rows of the company not handed to dispatch yet with whether a dispatch wrote them,
    the deliveries, and the number of rows that others wrote. -/
structure Feed where
  rows : List Ledger.Entry
  queue : List (Bool × Ledger.Entry)
  attempts : List Attempt
  external : ℕ

inductive Move where
  | commit (new : List Ledger.Entry)
  | dispatch (active : List (Dict × Env)) (onFire : Ledger.Call)

section
variable (py : Interp) (sha256 : Bytes → Bytes) (d : Ledger.Dialect) (companyId : UUID)

/-- A company's ledger of which no row has been handed yet. -/
def Feed.start (rows : List Ledger.Entry) : Feed where
  rows
  queue := (Ledger.ofCompany rows companyId).map fun e => (false, e)
  attempts := []
  external := (Ledger.ofCompany rows companyId).length

/-- The dispatcher's part of `ReactivityRegistry.dispatch`, with the write that a fire leads to. -/
def dispatched (entry : Dict) (active : List (Dict × Env)) (onFire : Ledger.Call)
    (rows : List Ledger.Entry) (attempts : List Attempt) : List Ledger.Entry × List Attempt :=
  match dispatcherPredicate entry with
  | .ok true =>
    let f := fire py sha256 d companyId false entry active rows attempts
    if f.2.isNone && 0 < f.1.actions then ((Ledger.write sha256 d f.1.rows onFire).2, f.1.attempts)
    else (f.1.rows, f.1.attempts)
  | _ => (rows, attempts)

/-- Others commit rows, or the next row is handed to dispatch. -/
def feed (s : Feed) : Move → Option Feed
  | .commit new => some {
      rows := s.rows ++ new
      queue := s.queue ++ (Ledger.ofCompany new companyId).map fun e => (false, e)
      attempts := s.attempts
      external := s.external + (Ledger.ofCompany new companyId).length }
  | .dispatch active onFire =>
    match s.queue with
    | [] => none
    | (_, e) :: queue =>
      let r := dispatched py sha256 d companyId (handed e) active onFire s.rows s.attempts
      let new := Ledger.ofCompany (r.1.drop s.rows.length) companyId
      some {
        rows := r.1
        queue := queue ++ new.map fun e => (true, e)
        attempts := r.2
        external := s.external }

/-- At most `n` subscriptions are active, and what a dispatch wrote is rejected or due to none. -/
def Calm (n : ℕ) (s : Feed) : Move → Prop
  | .commit _ => True
  | .dispatch active _ => active.length ≤ n ∧ ∀ e queue, s.queue = (true, e) :: queue →
      dispatcherPredicate (handed e) = .ok false ∨ ¬Due py d companyId (handed e) active s.rows

end

section
variable {py : Interp} {sha256 : Bytes → Bytes} {d : Ledger.Dialect} {companyId : UUID} {n : ℕ}

/-- The rows of others that wait. -/
def Feed.waiting (s : Feed) : ℕ := s.queue.countP fun q => !q.1

theorem waiting_external (es : List Ledger.Entry) :
    (es.map fun e => (false, e)).countP (fun q => !q.1) = es.length := by
  simp [List.countP_eq_length]

theorem dispatched_attempts {entry : Dict} {active : List (Dict × Env)} {onFire : Ledger.Call}
    {rows : List Ledger.Entry} {attempts : List Attempt} : ∃ new, new.length ≤ active.length ∧
      (dispatched py sha256 d companyId entry active onFire rows attempts).2 = attempts ++ new ∧
        (dispatcherPredicate entry = .ok false ∨ ¬Due py d companyId entry active rows → new = []) := by
  unfold dispatched
  split
  · rename_i hpasses
    obtain ⟨new, hlen, hnew⟩ := @fire_attempts py sha256 d companyId false entry active rows attempts
    refine ⟨new, hlen, ?_, ?_⟩
    · simp only
      split
      · exact hnew
      · exact hnew
    · rintro (hrejected | hdue)
      · rw [hrejected] at hpasses
        cases hpasses
      · rw [← @fire_quiet_iff py sha256 d companyId false entry active rows attempts, hnew] at hdue
        exact List.append_right_eq_self.mp hdue
  · exact ⟨[], by simp, (List.append_nil _).symm, fun _ => rfl⟩

theorem feed_bound {s s' : Feed} {a : Move}
    (h : s.attempts.length + n * s.waiting ≤ n * s.external) (hcalm : Calm py d companyId n s a)
    (hstep : feed py sha256 d companyId s a = some s') :
    s'.attempts.length + n * s'.waiting ≤ n * s'.external := by
  cases a with
  | commit new =>
    obtain rfl := Option.some.inj hstep
    simp only [Feed.waiting, List.countP_append, waiting_external, Nat.mul_add] at h ⊢
    omega
  | dispatch active onFire =>
    obtain ⟨hactive, hown⟩ := hcalm
    simp only [feed] at hstep
    cases hqueue : s.queue with
    | nil =>
      rw [hqueue] at hstep
      cases hstep
    | cons q queue =>
      obtain ⟨own, e⟩ := q
      rw [hqueue] at hstep
      obtain rfl := Option.some.inj hstep
      obtain ⟨new, hlen, hnew, hquiet⟩ := @dispatched_attempts py sha256 d companyId (handed e) active
        onFire s.rows s.attempts
      -- what the dispatch wrote does not wait as a row of others
      have hnone : ∀ es : List Ledger.Entry, (es.map fun e => (true, e)).countP (fun q => !q.1) = 0 := by
        simp [List.countP_map]
      simp only [Feed.waiting, hqueue, List.countP_cons, List.countP_append, hnone, hnew,
        List.length_append, Nat.add_zero] at h ⊢
      cases own with
      | true =>
        rw [hquiet (hown e queue hqueue)]
        simpa using h
      | false =>
        simp only [Bool.not_false, if_true, Nat.mul_add, Nat.mul_one] at h
        omega

/-- A run bounds the deliveries by the rows of others, however many rows the deliveries leave. -/
theorem feed_run {rows : List Ledger.Entry} {moves : List Move} {s : Feed}
    (hcalm : Run.Guarded (feed py sha256 d companyId) (Calm py d companyId n)
      (Feed.start companyId rows) moves)
    (hrun : Run.exec (feed py sha256 d companyId) (Feed.start companyId rows) moves = some s) :
    s.attempts.length ≤ n * s.external := by
  have hstart : (Feed.start companyId rows).attempts.length +
      n * (Feed.start companyId rows).waiting ≤ n * (Feed.start companyId rows).external := by
    simp only [Feed.start, Feed.waiting, waiting_external, List.length_nil, Nat.zero_add, le_refl]
  have hend := Run.guarded_invariant (I := fun s : Feed =>
    s.attempts.length + n * s.waiting ≤ n * s.external)
    (fun s a s' h hg hstep => feed_bound h hg hstep) hstart hcalm hrun
  omega

end

/-- A row of one of the dispatcher's cycles is quiet exactly when it is the execute row or no
    subscription is due for it; and where every row that a dispatch wrote is rejected or due to none,
    the deliveries of a run are bounded by the rows of others. -/
theorem feedback_iff (py : Interp) (sha256 : Bytes → Bytes) (d : Ledger.Dialect) (companyId : UUID) :
    (∀ replayMode kind e active rows, kind ∈ metaKinds → CycleRow kind e →
      (Quiet py sha256 d companyId replayMode (handed e) active rows ↔
        e.kind = .execute ∨ ¬Due py d companyId (handed e) active rows)) ∧
    ∀ n rows moves s, Run.Guarded (feed py sha256 d companyId) (Calm py d companyId n)
        (Feed.start companyId rows) moves →
      Run.exec (feed py sha256 d companyId) (Feed.start companyId rows) moves = some s →
        s.attempts.length ≤ n * s.external :=
  ⟨fun _ _ _ _ _ hkind he => cycleRow_quiet_iff hkind he, fun _ _ _ _ => feed_run⟩

/-! ### A subscription to everything -/

/-- The propose row of the cycle that creates a subscription. -/
def proposeRow : Ledger.Entry where
  entryId := ⟨2⟩
  companyId := ⟨1⟩
  seq := 1
  ts := Ledger.midnight
  kind := .propose
  quadrant := .activeDeterministic
  payload := .dict [(.str "target_kind", .str "agent_subscription_created"), (.str "ref_id", .str "s-1"),
    (.str "agent_id", .str "agent-1"), (.str "transport", .str "mcp_stream")]
  prevHash := Ledger.genesisPrevHash
  hash := Ledger.genesisPrevHash

/-- An active subscription without a constraint, on the stream. -/
def matchAll : Dict × Env :=
  ([(.str "subscription_id", .str "s-1"), (.str "filter", .dict []), (.str "transport", .str "mcp_stream")],
    ⟨.returned "delivered" 0 none, Ledger.midnight, ⟨3⟩, ⟨4⟩, ⟨5⟩, ⟨6⟩, .goes⟩)

theorem proposeRow_cycle : CycleRow "agent_subscription_created" proposeRow :=
  ⟨_, rfl, fun h => nomatch h⟩

theorem matchAll_due : Due .plain .sqlite ⟨1⟩ (handed proposeRow) [matchAll] [proposeRow] :=
  ⟨1, [], rfl, rfl, [], matchAll, [], rfl, fun _ h => (nomatch h), "s-1", rfl, fun h => nomatch h⟩

theorem matchAll_feeds : ¬Quiet .plain Ledger.tagHash .sqlite ⟨1⟩ false (handed proposeRow) [matchAll]
    [proposeRow] := by
  intro hquiet
  rcases (cycleRow_quiet_iff (by simp [metaKinds]) proposeRow_cycle).mp hquiet with hexec | hdue
  · cases hexec
  · exact hdue matchAll_due

/-- The execute row of the same cycle. -/
def executeRow : Ledger.Entry :=
  { proposeRow with
    seq := 2
    kind := .execute
    payload := .dict [(.str "tool", .str "emit_agent_subscription_created")] }

/-- The execute row is quiet, and a run that hands it on is bounded. -/
theorem executeRow_quiet :
    Quiet .plain Ledger.tagHash .sqlite ⟨1⟩ false (handed executeRow) [matchAll] [executeRow] ∧
      ∃ s, Run.exec (feed .plain Ledger.tagHash .sqlite ⟨1⟩) (Feed.start ⟨1⟩ [executeRow])
        [.dispatch [matchAll] sampleEmit] = some s ∧ s.attempts.length ≤ 1 * s.external := by
  obtain ⟨hrow, hbound⟩ := feedback_iff .plain Ledger.tagHash .sqlite ⟨1⟩
  refine ⟨?_, ?_⟩
  · exact (hrow false "agent_subscription_created" executeRow [matchAll] [executeRow]
      (by simp [metaKinds]) ⟨_, rfl, fun _ => rfl⟩).mpr (.inl rfl)
  · obtain ⟨s, hs⟩ : ∃ s, Run.exec (feed .plain Ledger.tagHash .sqlite ⟨1⟩)
      (Feed.start ⟨1⟩ [executeRow]) [.dispatch [matchAll] sampleEmit] = some s := ⟨_, rfl⟩
    refine ⟨s, hs, hbound 1 [executeRow] [.dispatch [matchAll] sampleEmit] s
      ⟨⟨le_rfl, fun e queue h => ?_⟩, fun _ _ => trivial⟩ hs⟩
    cases h

end Subscriptions
