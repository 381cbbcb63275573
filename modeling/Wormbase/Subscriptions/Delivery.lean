import Mathlib.Data.List.ReduceOption
import Wormbase.Lib.Run
import Wormbase.Subscriptions.Feedback

/-! Whether an event is handed to a transport twice.

    The transport gets the event before the ledger gets the record, and the ledger is all that a later
    fire knows of it: a record that is lost brings the event back. -/

namespace Subscriptions
open Py

section
variable {py : Interp} {sha256 : Bytes → Bytes} {d : Ledger.Dialect} {companyId : UUID} {replayMode : Bool}

/-! ### The record in the index -/

/-- A row of the company records a delivery. -/
def Logged (py : Interp) (companyId : UUID) (rows : List Ledger.Entry) (key : String × ℤ) : Prop :=
  ∃ e ∈ rows, e.companyId = companyId ∧ deliveredKey py (handed e) = .ok (some key)

theorem Logged.mono {rows rows' : List Ledger.Entry} {key : String × ℤ}
    (h : Logged py companyId rows key) (hsub : rows ⊆ rows') : Logged py companyId rows' key := by
  obtain ⟨e, he, hcompany, hkey⟩ := h
  exact ⟨e, hsub he, hcompany, hkey⟩

/-- An index that could be read has every delivery that is recorded. -/
theorem Logged.mem_index {rows : List Ledger.Entry} {key : String × ℤ} {index : List (String × ℤ)}
    (h : Logged py companyId rows key) (hindex : deliveredIndex py
      ((Ledger.fetchEntries d rows companyId none).map Ledger.Entry.dict) = .ok index) : key ∈ index := by
  obtain ⟨e, he, hcompany, hkey⟩ := h
  obtain ⟨keys, hkeys, hindex⟩ := bind_eq_ok.mp hindex
  obtain rfl := Except.ok.inj hindex
  have hfetched : handed e ∈ (Ledger.fetchEntries d rows companyId none).map Ledger.Entry.dict :=
    List.mem_map_of_mem (Ledger.mem_fetchEntries.mpr ⟨e, he, hcompany, rfl⟩)
  obtain ⟨o, ho, hread⟩ := mapM_mem hkeys hfetched
  obtain rfl := Except.ok.inj (hkey.symm.trans hread)
  exact List.reduceOption_mem_iff.mpr ho

/-- The execute payload of a record, as the ledger keeps it. -/
def Delivery.stored (v : Delivery) (proposeId : UUID) : Dict :=
  (.str "propose_entry_id", .str proposeId.str) :: v.execute

theorem comesBack_stored (v : Delivery) (proposeId : UUID) : ComesBack (.dict (v.stored proposeId)) := by
  have herror : ComesBack v.errorVal := by
    unfold Delivery.errorVal
    split
    · exact comesBack_str _
    · exact comesBack_none
  have hargs : ComesBack (.dict v.executeArgs) := by
    refine @comesBack_dict [("subscription_id", .str v.subId), ("triggering_entry_seq", .int v.seq),
      ("triggering_entry_kind", .str v.kind), ("transport_used", .str v.transportUsed),
      ("delivery_status", .str v.status), ("duration_ms", .int v.durationMs), ("error", v.errorVal)]
      (by simp) ?_
    simp only [List.forall_mem_cons, comesBack_str, comesBack_int, herror, true_and]
    exact fun _ h => nomatch h
  refine @comesBack_dict [("propose_entry_id", .str proposeId.str),
    ("tool", .str "emit_agent_event_delivered"), ("args", .dict v.executeArgs),
    ("result_ref", .str v.subId)] (by simp) ?_
  simp only [List.forall_mem_cons, comesBack_str, hargs, true_and]
  exact fun _ h => nomatch h

theorem toInt_or_int (i : ℤ) : ((Val.int i).or (.int 0)).toInt = .ok i := by
  rcases eq_or_ne i 0 with rfl | hi
  · rfl
  · simp [Val.or, Val.truthy, hi, Val.toInt]

/-- The execute row of a record has the key of the delivery. -/
theorem deliveredKey_execute {v : Delivery} {e : Ledger.Entry} {proposeId : UUID} (hsub : v.subId ≠ "")
    (hkind : e.kind = .execute) (hpayload : e.payload = .dict (v.stored proposeId)) :
    deliveredKey py (handed e) = .ok (some (v.subId, v.seq)) := by
  have hk := handed_kind e
  rw [hkind] at hk
  have hp := (handed_payload e).trans hpayload
  have hexec : (Val.str Ledger.Kind.execute.text).isText "execute" = true := rfl
  have hpay : (Val.dict (v.stored proposeId)).or (.dict []) = .dict (v.stored proposeId) := rfl
  have htool : (Dict.get (v.stored proposeId) "tool").isText "emit_agent_event_delivered" = true := rfl
  have hargs : (Dict.get (v.stored proposeId) "args").or (.dict []) = .dict v.executeArgs := rfl
  have hsid : (Dict.get v.executeArgs "subscription_id").text py = v.subId := by
    have hget : Dict.get v.executeArgs "subscription_id" = .str v.subId := rfl
    simp [hget, Val.text, Val.or, Val.truthy, hsub, Val.toStr]
  have hseq : ((Dict.get v.executeArgs "triggering_entry_seq").or (.int 0)).toInt = .ok v.seq :=
    toInt_or_int v.seq
  simp only [deliveredKey, hk, hp, hexec, if_true, hpay, htool, hargs, hsid, hseq, hsub, if_false]

/-- A write of a record that goes through leaves the delivery in the ledger. -/
theorem write_logged {v : Delivery} {env : Env} {rows : List Ledger.Entry} {res : Ledger.WriteResult}
    (hsub : v.subId ≠ "") (h : (Ledger.write sha256 d rows (v.call companyId env)).1 = .ok res) :
    Logged py companyId (Ledger.write sha256 d rows (v.call companyId env)).2 (v.subId, v.seq) := by
  rcases @Ledger.write_cases sha256 d rows (v.call companyId env) with
    ⟨res', ep, vp, rp, p, e, vr, r, hg, hw⟩ | ⟨x, hw⟩
  · rw [hw]
    have hep : ep = v.stored env.proposeId := (Except.ok.inj hg.execPayload).symm
    have hback := comesBack_stored v env.proposeId e.payload (hep ▸ hg.execute.payload)
    refine ⟨e, by simp, hg.execute.fields.1, ?_⟩
    exact deliveredKey_execute hsub hg.execute.fields.2.2.1 hback
  · rw [hw] at h
    cases h

theorem write_keeps (rows : List Ledger.Entry) (c : Ledger.Call) :
    rows ⊆ (Ledger.write sha256 d rows c).2 := by
  rcases @Ledger.write_cases sha256 d rows c with ⟨res, ep, vp, rp, p, e, v, r, -, hw⟩ | ⟨x, hw⟩
  · rw [hw]
    exact List.subset_append_left _ _
  · rw [hw]
    exact List.Subset.refl _

/-! ### One call of `_deliver` -/

theorem candidate_id {sub entry : Dict} {subId : String} (h : candidate py sub entry = .ok (some subId)) :
    subId = (sub.get "subscription_id").text py ∧ subId ≠ "" := by
  simp only [candidate] at h
  split at h
  · cases h
  · obtain ⟨predicateFn, -, h⟩ := bind_eq_ok.mp h
    obtain ⟨b, -, h⟩ := bind_eq_ok.mp h
    cases b with
    | false => cases h
    | true =>
      simp only [pure, Except.pure, Except.ok.injEq] at h
      split at h
      · cases h
      · rename_i hne
        obtain rfl := Option.some.inj h
        exact ⟨rfl, hne⟩

theorem doTransport_key (sub : Dict) (subId : String) (seq : ℤ) (kind : String) (reply : Reply) :
    (doTransport py sub subId seq kind replayMode reply).1.subId = subId ∧
      (doTransport py sub subId seq kind replayMode reply).1.seq = seq := by
  simp only [doTransport]
  repeat' split
  all_goals exact ⟨rfl, rfl⟩

/-- The ledger and the index only grow, and they have what the attempt says of them. -/
theorem deliver_spec {sub : Dict} {subId : String} {seq : ℤ} {kind : String} {env : Env} {s : Firing}
    (hsub : subId ≠ "") : ∃ a : Attempt, a.subId = subId ∧ a.seq = seq ∧
      (deliver py sha256 d companyId replayMode sub subId seq kind env s).1.attempts = s.attempts ++ [a] ∧
      s.rows ⊆ (deliver py sha256 d companyId replayMode sub subId seq kind env s).1.rows ∧
      s.index ⊆ (deliver py sha256 d companyId replayMode sub subId seq kind env s).1.index ∧
      (a.recorded = true → Logged py companyId
        (deliver py sha256 d companyId replayMode sub subId seq kind env s).1.rows (subId, seq)) ∧
      (a.noted = true →
        (subId, seq) ∈ (deliver py sha256 d companyId replayMode sub subId seq kind env s).1.index) := by
  obtain ⟨hkey, hseq⟩ := @doTransport_key py replayMode sub subId seq kind env.reply
  simp only [deliver]
  generalize doTransport py sub subId seq kind replayMode env.reply = t at hkey hseq
  have hkeeps := @write_keeps sha256 d s.rows (t.1.call companyId env)
  have hlogged := fun res => @write_logged py sha256 d companyId t.1 env s.rows res (hkey ▸ hsub)
  rw [hkey, hseq] at hlogged
  generalize Ledger.write sha256 d s.rows (t.1.call companyId env) = w at hkeeps hlogged
  split
  · rename_i hw
    exact ⟨_, rfl, rfl, rfl, hkeeps, List.subset_cons_self _ _, fun _ => hlogged _ hw,
      fun _ => List.mem_cons_self⟩
  · rename_i hw
    exact ⟨_, rfl, rfl, rfl, hkeeps, List.Subset.refl _, fun _ => hlogged _ hw,
      fun h => absurd h Bool.false_ne_true⟩
  · rename_i hw
    exact ⟨_, rfl, rfl, rfl, hkeeps, List.Subset.refl _, fun _ => hlogged _ hw,
      fun h => absurd h Bool.false_ne_true⟩
  · exact ⟨_, rfl, rfl, rfl, List.Subset.refl _, List.Subset.refl _, fun h => absurd h Bool.false_ne_true,
      fun h => absurd h Bool.false_ne_true⟩
  · exact ⟨_, rfl, rfl, rfl, List.Subset.refl _, List.Subset.refl _, fun h => absurd h Bool.false_ne_true,
      fun h => absurd h Bool.false_ne_true⟩

theorem deliver_goes {sub : Dict} {subId : String} {seq : ℤ} {kind : String} {env : Env} {s : Firing}
    {res : Ledger.WriteResult} {rows : List Ledger.Entry} (hfate : env.fate = .goes)
    (hw : Ledger.write sha256 d s.rows
      ((doTransport py sub subId seq kind replayMode env.reply).1.call companyId env) = (.ok res, rows)) :
    deliver py sha256 d companyId replayMode sub subId seq kind env s =
      (⟨rows, (subId, seq) :: s.index, s.actions + 1, s.attempts ++
        [⟨subId, seq, (doTransport py sub subId seq kind replayMode env.reply).2, true, true⟩]⟩, none) := by
  simp only [deliver, hw, hfate]

/-! ### One fire -/

/-- The pairs that the transport took. -/
def taken (attempts : List Attempt) : List (String × ℤ) :=
  (attempts.filter (·.handed)).map fun a => (a.subId, a.seq)

theorem mem_taken {attempts : List Attempt} {key : String × ℤ} :
    key ∈ taken attempts ↔ ∃ a ∈ attempts, a.handed = true ∧ (a.subId, a.seq) = key := by
  simp [taken, and_assoc]

/-- The ids that the loop has before it. -/
def idsOf (py : Interp) (active : List (Dict × Env)) : List String :=
  active.map fun s => (s.1.get "subscription_id").text py

/-- What the transport took was recorded and noted; noting it does not matter where no id comes twice. -/
def Kept (py : Interp) (active : List (Dict × Env)) (attempts : List Attempt) : Prop :=
  ∀ a ∈ attempts, a.handed = true → a.recorded = true ∧ (a.noted = true ∨ (idsOf py active).Nodup)

/-- Nothing was handed twice, and the ledger knows of all that was. -/
structure OnceSoFar (py : Interp) (companyId : UUID) (rows : List Ledger.Entry) (attempts : List Attempt) :
    Prop where
  nodup : (taken attempts).Nodup
  logged : ∀ key ∈ taken attempts, Logged py companyId rows key

theorem OnceSoFar.add {rows rows' : List Ledger.Entry} {attempts : List Attempt} {a : Attempt}
    (h : OnceSoFar py companyId rows attempts) (hrows : rows ⊆ rows')
    (hnew : a.handed = true → (a.subId, a.seq) ∉ taken attempts)
    (hlogged : a.handed = true → Logged py companyId rows' (a.subId, a.seq)) :
    OnceSoFar py companyId rows' (attempts ++ [a]) := by
  have hsplit : taken (attempts ++ [a]) = taken attempts ++ taken [a] := by
    simp [taken, List.filter_append]
  cases hhanded : a.handed with
  | false =>
    have hnone : taken [a] = [] := by simp [taken, hhanded]
    rw [hnone, List.append_nil] at hsplit
    constructor
    · rw [hsplit]
      exact h.nodup
    · rw [hsplit]
      exact fun key hkey => (h.logged key hkey).mono hrows
  | true =>
    have hone : taken [a] = [(a.subId, a.seq)] := by simp [taken, hhanded]
    rw [hone] at hsplit
    constructor
    · rw [hsplit]
      exact List.nodup_append.mpr ⟨h.nodup, List.nodup_singleton _, fun x hx y hy => by
        rintro rfl
        exact hnew hhanded (List.mem_singleton.mp hy ▸ hx)⟩
    · rw [hsplit]
      intro key hkey
      rcases List.mem_append.mp hkey with hold | hlast
      · exact (h.logged key hold).mono hrows
      · obtain rfl := List.mem_singleton.mp hlast
        exact hlogged hhanded

/-- Through the loop: what was handed is in the index, or its subscription does not come again. -/
theorem offers_once {entry : Dict} {seq : ℤ} {kind : String} : ∀ {active : List (Dict × Env)} {s : Firing},
    OnceSoFar py companyId s.rows s.attempts →
    (∀ key ∈ taken s.attempts, key ∈ s.index ∨ key.1 ∉ idsOf py active) →
    Kept py active ((offers py sha256 d companyId replayMode entry seq kind active s).1.attempts.drop
      s.attempts.length) →
    OnceSoFar py companyId (offers py sha256 d companyId replayMode entry seq kind active s).1.rows
      (offers py sha256 d companyId replayMode entry seq kind active s).1.attempts
  | [], _, hs, _, _ => hs
  | (sub, env) :: rest, s, hs, hindex, hkept => by
    have hrest : ∀ key ∈ taken s.attempts, key ∈ s.index ∨ key.1 ∉ idsOf py rest := fun key hkey =>
      (hindex key hkey).imp_right fun h hmem => h (List.mem_cons_of_mem _ hmem)
    have hkeptRest : ∀ {new : List Attempt}, Kept py ((sub, env) :: rest) new → Kept py rest new :=
      fun h a ha hh => ⟨(h a ha hh).1, (h a ha hh).2.imp_right fun hn => (List.nodup_cons.mp hn).2⟩
    rw [offers] at hkept ⊢
    split
    · exact hs
    · rename_i hnone
      rw [hnone] at hkept
      exact offers_once hs hrest (hkeptRest hkept)
    · rename_i subId hsub
      simp only [hsub] at hkept
      obtain ⟨hid, hne⟩ := candidate_id hsub
      split
      · rename_i hmem
        rw [if_pos hmem] at hkept
        exact offers_once hs hrest (hkeptRest hkept)
      · rename_i hmem
        rw [if_neg hmem] at hkept
        have hfresh : (subId, seq) ∉ taken s.attempts := fun h =>
          (hindex _ h).elim hmem fun hout => hout (hid ▸ List.mem_cons_self)
        obtain ⟨a, rfl, rfl, hattempts, hrows, hgrows, hrecorded, hnoted⟩ := @deliver_spec py sha256 d
          companyId replayMode sub subId seq kind env s hne
        generalize hdeliver : deliver py sha256 d companyId replayMode sub a.subId a.seq kind env s = t
          at hkept hattempts hrows hgrows hrecorded hnoted
        obtain ⟨s', stop⟩ := t
        simp only at hattempts hrows hgrows hrecorded hnoted
        -- the attempt is the first of those that the loop adds
        have hfirst : ∀ final new : List Attempt, final = s'.attempts ++ new →
            final.drop s.attempts.length = a :: new := by
          rintro final new rfl
          rw [hattempts, List.append_assoc, List.drop_left]
          rfl
        cases stop with
        | some stop =>
          simp only at hkept ⊢
          rw [hfirst s'.attempts [] (List.append_nil _).symm] at hkept
          have ha := hkept a List.mem_cons_self
          rw [hattempts]
          exact hs.add hrows (fun _ => hfresh) fun hh => hrecorded (ha hh).1
        | none =>
          simp only at hkept ⊢
          obtain ⟨new, -, hnew⟩ := @offers_attempts py sha256 d companyId replayMode entry a.seq kind rest s'
          rw [hfirst _ new hnew] at hkept
          have ha := hkept a List.mem_cons_self
          refine offers_once ?_ ?_ ?_
          · rw [hattempts]
            exact hs.add hrows (fun _ => hfresh) fun hh => hrecorded (ha hh).1
          · intro key hkey
            rw [hattempts] at hkey
            obtain ⟨b, hb, hhanded, rfl⟩ := mem_taken.mp hkey
            rcases List.mem_append.mp hb with hold | hlast
            · exact (hrest _ (mem_taken.mpr ⟨b, hold, hhanded, rfl⟩)).imp_left (hgrows ·)
            · obtain rfl := List.mem_singleton.mp hlast
              refine (ha hhanded).2.imp hnoted fun hnodup => ?_
              rw [hid]
              exact (List.nodup_cons.mp hnodup).1
          · rw [hnew, List.drop_left]
            exact hkeptRest fun b hb => hkept b (List.mem_cons_of_mem _ hb)

theorem fire_once {entry : Dict} {active : List (Dict × Env)} {rows : List Ledger.Entry}
    {attempts : List Attempt} (h : OnceSoFar py companyId rows attempts)
    (hkept : Kept py active ((fire py sha256 d companyId replayMode entry active rows attempts).1.attempts.drop
      attempts.length)) :
    OnceSoFar py companyId (fire py sha256 d companyId replayMode entry active rows attempts).1.rows
      (fire py sha256 d companyId replayMode entry active rows attempts).1.attempts := by
  simp only [fire] at hkept ⊢
  split
  · exact h
  · rename_i hsome
    rw [if_neg hsome] at hkept
    split
    · exact h
    · rename_i seq index hread
      obtain ⟨seq', -, hread'⟩ := bind_eq_ok.mp hread
      obtain ⟨index', hindex, hread'⟩ := bind_eq_ok.mp hread'
      obtain ⟨rfl, rfl⟩ := Prod.mk.inj (Except.ok.inj hread')
      simp only [hread] at hkept
      exact offers_once h (fun key hkey => .inl ((h.logged key hkey).mem_index hindex)) hkept

end

/-! ### Fires, failures and restarts -/

/-- The ledger, and all calls of `_deliver` since the start. The dispatcher keeps nothing else, so a
    restart leaves it as it is. -/
structure World where
  rows : List Ledger.Entry
  attempts : List Attempt

inductive Event where
  | commit (new : List Ledger.Entry)
  | fire (entry : Dict) (active : List (Dict × Env)) (replayMode : Bool)
  | restart

section
variable (py : Interp) (sha256 : Bytes → Bytes) (d : Ledger.Dialect) (companyId : UUID)

/-- Others write, the runner fires on an entry, again or for the first time, or the process restarts. -/
def happen (w : World) : Event → Option World
  | .commit new => some { w with rows := w.rows ++ new }
  | .fire entry active replayMode =>
    let f := fire py sha256 d companyId replayMode entry active w.rows w.attempts
    some ⟨f.1.rows, f.1.attempts⟩
  | .restart => some w

/-- No pair was handed to the transport successfully twice. -/
def AtMostOnce (w : World) : Prop := (taken w.attempts).Nodup

/-- In a fire, what the transport takes is recorded. -/
def KeepsRecord (w : World) : Event → Prop
  | .fire entry active replayMode => Kept py active
      ((fire py sha256 d companyId replayMode entry active w.rows w.attempts).1.attempts.drop
        w.attempts.length)
  | _ => True

end

section
variable {py : Interp} {sha256 : Bytes → Bytes} {d : Ledger.Dialect} {companyId : UUID}

theorem happen_once {w w' : World} {e : Event} (h : OnceSoFar py companyId w.rows w.attempts)
    (hkeeps : KeepsRecord py sha256 d companyId w e) (hstep : happen py sha256 d companyId w e = some w') :
    OnceSoFar py companyId w'.rows w'.attempts := by
  cases e with
  | commit new =>
    obtain rfl := Option.some.inj hstep
    exact ⟨h.nodup, fun key hkey => (h.logged key hkey).mono (List.subset_append_left _ _)⟩
  | fire entry active replayMode =>
    obtain rfl := Option.some.inj hstep
    exact fire_once h hkeeps
  | restart =>
    obtain rfl := Option.some.inj hstep
    exact h

end

/-- Where no record of a hand-over is lost, no pair is handed over twice in any run. -/
theorem at_most_once (py : Interp) (sha256 : Bytes → Bytes) (d : Ledger.Dialect) (companyId : UUID)
    (rows : List Ledger.Entry) (events : List Event) (w : World)
    (hkeeps : Run.Guarded (happen py sha256 d companyId) (KeepsRecord py sha256 d companyId) ⟨rows, []⟩ events)
    (hrun : Run.exec (happen py sha256 d companyId) ⟨rows, []⟩ events = some w) : AtMostOnce w := by
  have hstart : OnceSoFar py companyId rows [] := ⟨List.nodup_nil, fun _ h => nomatch h⟩
  exact (Run.guarded_invariant (I := fun w : World => OnceSoFar py companyId w.rows w.attempts)
    (fun w e w' h hg hstep => happen_once h hg hstep) hstart hkeeps hrun).nodup

/-! ### A record that is lost -/

/-- The record of the first delivery to `matchAll`. -/
def sampleRecord : Ledger.Call :=
  (⟨"s-1", 1, "propose", "mcp_stream", "delivered", 0, none⟩ : Delivery).call ⟨1⟩ matchAll.2

theorem sampleRecord_returns :
    ∃ res rows, Ledger.write Ledger.tagHash .sqlite [] sampleRecord = (.ok res, rows) := by
  obtain ⟨t, ht⟩ := Ledger.isoText_midnight
  refine Ledger.first_write_returns Ledger.tagHash_injective ⟨t, _, ht, rfl, rfl⟩ rfl
    ⟨t, _, ht, rfl, rfl⟩ rfl ⟨t, _, ht, rfl, rfl⟩ rfl rfl ⟨t, _, ht, rfl, rfl⟩
    (show sampleRecord.ids.Nodup by decide) ?_
  simp only [Ledger.Storable, List.forall_mem_cons]
  exact ⟨⟨_, rfl⟩, ⟨_, rfl⟩, ⟨_, rfl⟩, ⟨_, rfl⟩, by simp⟩

theorem matchAll_delivered : (fire .plain Ledger.tagHash .sqlite ⟨1⟩ false (handed proposeRow) [matchAll]
    [] []).1.attempts = [⟨"s-1", 1, true, true, true⟩] := by
  obtain ⟨res, rows, hw⟩ := sampleRecord_returns
  have hdeliver := @deliver_goes .plain Ledger.tagHash .sqlite ⟨1⟩ false matchAll.1 "s-1" 1 "propose"
    matchAll.2 ⟨[], [], 0, []⟩ res rows rfl hw
  have htaken : (doTransport .plain matchAll.1 "s-1" 1 "propose" false matchAll.2.reply).2 = true := rfl
  have hcandidate : candidate .plain matchAll.1 (handed proposeRow) = .ok (some "s-1") := rfl
  have hoffers : offers .plain Ledger.tagHash .sqlite ⟨1⟩ false (handed proposeRow) 1 "propose"
      [matchAll] ⟨[], [], 0, []⟩ =
        (⟨rows, [("s-1", 1)], 1, [⟨"s-1", 1, true, true, true⟩]⟩, none) := by
    rw [← Prod.mk.eta (p := matchAll), offers, hcandidate]
    simp only [hdeliver, htaken, List.not_mem_nil, if_false, List.nil_append, offers]
  have hseq : (((handed proposeRow).getD "seq" (.int 0)).or (.int 0)).toInt = .ok 1 := rfl
  have hkind : ((handed proposeRow).get "kind").text .plain = "propose" := rfl
  have hindex : deliveredIndex .plain ((Ledger.fetchEntries .sqlite [] ⟨1⟩ none).map Ledger.Entry.dict) =
    .ok [] := rfl
  simp only [fire, hseq, hindex, hkind, bind, Except.bind, pure, Except.pure, List.cons_ne_nil, if_false]
  rw [hoffers]

/-- One delivery, and a restart. -/
theorem matchAll_once : ∃ w, Run.exec (happen .plain Ledger.tagHash .sqlite ⟨1⟩) ⟨[], []⟩
    [.fire (handed proposeRow) [matchAll] false, .restart] = some w ∧ AtMostOnce w := by
  obtain ⟨w, hw⟩ : ∃ w, Run.exec (happen .plain Ledger.tagHash .sqlite ⟨1⟩) ⟨[], []⟩
    [.fire (handed proposeRow) [matchAll] false, .restart] = some w := ⟨_, rfl⟩
  refine ⟨w, hw, at_most_once .plain Ledger.tagHash .sqlite ⟨1⟩ []
    [.fire (handed proposeRow) [matchAll] false, .restart] w
    ⟨?_, fun _ _ => ⟨trivial, fun _ _ => trivial⟩⟩ hw⟩
  simp only [KeepsRecord, matchAll_delivered]
  intro a ha _
  obtain rfl := List.mem_singleton.mp ha
  exact ⟨rfl, .inl rfl⟩

/-- The same subscription, with a ledger that refuses the record. -/
def matchAllLost : Dict × Env := (matchAll.1, { matchAll.2 with fate := .raises false })

theorem lostRecord_twice : ¬∀ events w, Run.exec (happen .plain Ledger.tagHash .sqlite ⟨1⟩)
    ⟨[proposeRow], []⟩ events = some w → AtMostOnce w := by
  intro h
  have htwice := h [.fire (handed proposeRow) [matchAllLost] false,
    .fire (handed proposeRow) [matchAllLost] false] _ rfl
  have hsame : (taken [⟨"s-1", 1, true, false, false⟩, ⟨"s-1", 1, true, false, false⟩]).Nodup := htwice
  simp [taken] at hsame

end Subscriptions
