import Wormbase.Projection.Parts

/-! How the status of a source moves, and what becomes of its domain and its confirming person.

    The fold takes the lifecycle entries as they come: a proposal starts a source anew, and the other
    three write their status whatever it was. -/

namespace Projection
open Py

/-- The order proposed < confirmed < connected < profiled. -/
def SourceStatus.rank : SourceStatus → ℕ
  | proposed => 0
  | confirmed => 1
  | connected => 2
  | profiled => 3

/-- The status does not move back, and no domain or person that is there goes. -/
structure Source.Keeps (r r' : Source) : Prop where
  status : r.status.rank ≤ r'.status.rank
  domain : r.domainId.isSome → r'.domainId.isSome
  person : r.addedByPerson.isSome → r'.addedByPerson.isSome

theorem Source.Keeps.refl (r : Source) : r.Keeps r := ⟨le_rfl, id, id⟩

/-- An entry that comes in its order: a proposal before any other step, a confirmation that names a
    domain before the source is connected, a connection before it is profiled. -/
def LedgerRow.InOrder (e : LedgerRow) (sid : String) (r : Source) : Prop :=
  ∀ tool args, e.action = some (tool, args) → args.get "source_id" = .str sid →
    (tool = "emit_source_proposed" → r.status = .proposed) ∧
    (tool = "emit_source_confirmed" → r.status.rank ≤ 1 ∧
      (r.domainId.isSome → (args.get "domain_id").truthy = true)) ∧
    (tool = "emit_source_connected" → r.status ≠ .profiled)

/-- A source that is proposed has neither a domain nor a person. -/
def Source.Fresh (r : Source) : Prop :=
  r.status = .proposed → r.domainId = none ∧ r.addedByPerson = none

section
variable {e : LedgerRow} {args : Dict} {t t' : Sources} {sid : String} {r : Source}

theorem emitSourceProposed_row (h : emitSourceProposed e args t = .ok t') : ∃ sid r,
    args.get "source_id" = .str sid ∧ r.status = .proposed ∧ r.domainId = none ∧
      r.addedByPerson = none ∧ t' = t.put (sid, r) := by
  obtain ⟨v, hv, h⟩ := bind_eq_ok.mp h
  obtain ⟨⟨sid, u⟩, hid, h⟩ := bind_eq_ok.mp h
  obtain ⟨kind, -, h⟩ := bind_eq_ok.mp h
  obtain ⟨uri, -, h⟩ := bind_eq_ok.mp h
  obtain ⟨classification, -, h⟩ := bind_eq_ok.mp h
  obtain ⟨flow, -, h⟩ := bind_eq_ok.mp h
  rw [item_get hv]
  exact ⟨sid, _, (uuidText_ok hid).1, rfl, rfl, rfl, (Except.ok.inj h).symm⟩

/-- What a change at the key of a source does to any source. -/
theorem updateAt_row {k : Val} {f : Source → Except Err Source} (h : updateAt t k f = .ok t')
    (hr : t.get? sid = some (sid, r)) :
    (k = .str sid → ∃ r', f r = .ok r' ∧ t'.get? sid = some (sid, r')) ∧
      (k ≠ .str sid → t'.get? sid = some (sid, r)) := by
  constructor
  · rintro rfl
    obtain ⟨key, hkey, h⟩ := bind_eq_ok.mp h
    obtain rfl := Except.ok.inj hkey
    simp only [hr] at h
    obtain ⟨r', hr', h⟩ := bind_eq_ok.mp h
    obtain rfl := Except.ok.inj h
    exact ⟨r', hr', by rw [Table.get?_put, if_pos rfl]⟩
  · intro hk
    rcases updateAt_ok h with rfl | ⟨s, q, q', hks, -, -, rfl⟩
    · exact hr
    · rw [Table.get?_put, if_neg, hr]
      rintro rfl
      exact hk hks

theorem toUUID?_isSome {v : Val} {o : Option UUID} (h : v.toUUID? = .ok o) :
    o.isSome = true ↔ v.truthy = true := by
  unfold Val.toUUID? at h
  split at h
  · rename_i htruthy
    obtain ⟨u, -, h⟩ := bind_eq_ok.mp h
    obtain rfl := Except.ok.inj h
    simp [htruthy]
  · rename_i hfalsy
    obtain rfl := Except.ok.inj h
    simp [hfalsy]

/-! ### One entry -/

theorem proposed_keeps_iff (h : emitSourceProposed e args t = .ok t') (hr : t.get? sid = some (sid, r))
    (hfresh : r.Fresh) : ∃ r', t'.get? sid = some (sid, r') ∧
      (r.Keeps r' ↔ (args.get "source_id" = .str sid → r.status = .proposed)) := by
  obtain ⟨s, q, hs, hstatus, hdomain, hperson, rfl⟩ := emitSourceProposed_row h
  rw [hs]
  by_cases hsid : s = sid
  · subst hsid
    refine ⟨q, by rw [Table.get?_put, if_pos rfl], ?_⟩
    constructor
    · intro hkeeps _
      have hrank := hkeeps.status
      rw [hstatus] at hrank
      cases hr : r.status with
      | proposed => rfl
      | _ => simp [hr, SourceStatus.rank] at hrank
    · intro hproposed
      obtain ⟨hnone, hnobody⟩ := hfresh (hproposed rfl)
      exact ⟨by rw [hproposed rfl, hstatus], by simp [hnone], by simp [hnobody]⟩
  · refine ⟨r, by rw [Table.get?_put, if_neg hsid, hr], ?_⟩
    exact ⟨fun _ heq => absurd (Val.str.inj heq) hsid, fun _ => .refl r⟩

theorem confirmed_keeps_iff (h : emitSourceConfirmed e args t = .ok t') (hr : t.get? sid = some (sid, r)) :
    ∃ r', t'.get? sid = some (sid, r') ∧ (r.Keeps r' ↔ (args.get "source_id" = .str sid →
      r.status.rank ≤ 1 ∧ (r.domainId.isSome → (args.get "domain_id").truthy = true))) := by
  obtain ⟨v, hv, h⟩ := bind_eq_ok.mp h
  obtain ⟨hat, hother⟩ := updateAt_row h hr
  rw [item_get hv]
  by_cases hsid : v = .str sid
  · obtain ⟨r', hr', hget⟩ := hat hsid
    obtain ⟨domain, hdomain, hr'⟩ := bind_eq_ok.mp hr'
    obtain ⟨w, -, hr'⟩ := bind_eq_ok.mp hr'
    obtain ⟨person, -, hr'⟩ := bind_eq_ok.mp hr'
    obtain rfl := Except.ok.inj hr'
    refine ⟨_, hget, ?_⟩
    constructor
    · intro hkeeps _
      exact ⟨hkeeps.status, fun hsome => (toUUID?_isSome hdomain).mp (hkeeps.domain hsome)⟩
    · intro hin
      obtain ⟨hrank, htruthy⟩ := hin hsid
      exact ⟨hrank, fun hsome => (toUUID?_isSome hdomain).mpr (htruthy hsome), fun _ => rfl⟩
  · exact ⟨r, hother hsid, fun _ heq => absurd heq hsid, fun _ => .refl r⟩

theorem reaches_keeps_iff {status : SourceStatus} (h : sourceReaches status e args t = .ok t')
    (hr : t.get? sid = some (sid, r)) : ∃ r', t'.get? sid = some (sid, r') ∧
      (r.Keeps r' ↔ (args.get "source_id" = .str sid → r.status.rank ≤ status.rank)) := by
  obtain ⟨v, hv, h⟩ := bind_eq_ok.mp h
  obtain ⟨hat, hother⟩ := updateAt_row h hr
  rw [item_get hv]
  by_cases hsid : v = .str sid
  · obtain ⟨r', hr', hget⟩ := hat hsid
    obtain rfl := Except.ok.inj hr'
    exact ⟨_, hget, fun hkeeps _ => hkeeps.status, fun hin => ⟨hin hsid, id, id⟩⟩
  · exact ⟨r, hother hsid, fun _ heq => absurd heq hsid, fun _ => .refl r⟩

variable {py : Interp}

theorem rank_le_connected {status : SourceStatus} : status.rank ≤ SourceStatus.connected.rank ↔
    status ≠ .profiled := by
  cases status <;> simp [SourceStatus.rank]

theorem rank_le_profiled (status : SourceStatus) : status.rank ≤ SourceStatus.profiled.rank := by
  cases status <;> simp [SourceStatus.rank]

/-- One entry keeps a source that is there exactly when it is in order for it. -/
theorem actAt_keeps_iff (h : actAt py .sources t e = .ok t') (hr : t.get? sid = some (sid, r))
    (hfresh : r.Fresh) : ∃ r', t'.get? sid = some (sid, r') ∧ (r.Keeps r' ↔ e.InOrder sid r) := by
  unfold actAt at h
  cases haction : e.action with
  | none =>
    rw [haction] at h
    obtain rfl := Except.ok.inj h
    refine ⟨r, hr, fun _ tool args hsome => ?_, fun _ => .refl r⟩
    rw [haction] at hsome
    cases hsome
  | some action =>
    obtain ⟨tool, args⟩ := action
    rw [haction] at h
    simp only at h
    have hin : e.InOrder sid r ↔ (args.get "source_id" = .str sid →
        (tool = "emit_source_proposed" → r.status = .proposed) ∧
        (tool = "emit_source_confirmed" → r.status.rank ≤ 1 ∧
          (r.domainId.isSome → (args.get "domain_id").truthy = true)) ∧
        (tool = "emit_source_connected" → r.status ≠ .profiled)) := by
      constructor
      · exact fun hin => hin tool args haction
      · intro hin tool' args' hsome
        rw [haction] at hsome
        obtain ⟨rfl, rfl⟩ := Prod.mk.inj (Option.some.inj hsome)
        exact hin
    rw [hin]
    cases hlookup : (Part.sources.handlers py).lookup tool with
    | none =>
      rw [hlookup] at h
      obtain rfl := Except.ok.inj h
      refine ⟨r, hr, fun _ _ => ?_, fun _ => .refl r⟩
      refine ⟨?_, ?_, ?_⟩
      all_goals
        rintro rfl
        cases hlookup
    | some run =>
      rw [hlookup] at h
      have hmem := (lookup_iff_mem (handlers_nodup py .sources)).mp hlookup
      simp only [Part.handlers, List.mem_cons, Prod.mk.injEq, List.not_mem_nil, or_false] at hmem
      rcases hmem with ⟨rfl, rfl⟩ | ⟨rfl, rfl⟩ | ⟨rfl, rfl⟩ | ⟨rfl, rfl⟩
      · simpa using proposed_keeps_iff h hr hfresh
      · simpa using confirmed_keeps_iff h hr
      · simpa [rank_le_connected] using reaches_keeps_iff h hr
      · simpa [rank_le_profiled] using reaches_keeps_iff h hr

/-- Every source of a fold is fresh: a proposal leaves no domain, and no other entry proposes. -/
theorem actAt_fresh (h : actAt py .sources t e = .ok t') (ht : ∀ p ∈ t.rows, p.2.Fresh) :
    ∀ p ∈ t'.rows, p.2.Fresh := by
  have hmoves : ∀ {t' : Sources}, Updates (fun _ r' => r'.status ≠ .proposed) t t' →
      ∀ p ∈ t'.rows, p.2.Fresh := fun h =>
    forall_mem_updates h (fun _ _ hne _ heq => absurd heq hne) ht
  unfold actAt at h
  split at h
  · split at h
    · rename_i tool args haction run hlookup
      have hmem := (lookup_iff_mem (handlers_nodup py .sources)).mp hlookup
      simp only [Part.handlers, List.mem_cons, Prod.mk.injEq, List.not_mem_nil, or_false] at hmem
      rcases hmem with ⟨rfl, rfl⟩ | ⟨rfl, rfl⟩ | ⟨rfl, rfl⟩ | ⟨rfl, rfl⟩
      · obtain ⟨sid, r, -, -, hdomain, hperson, rfl⟩ := emitSourceProposed_row h
        exact Table.forall_mem_put ht fun _ => ⟨hdomain, hperson⟩
      · obtain ⟨v, -, h⟩ := bind_eq_ok.mp h
        refine hmoves (updateAt_updates h fun r r' hr => ?_)
        obtain ⟨domain, -, hr⟩ := bind_eq_ok.mp hr
        obtain ⟨w, -, hr⟩ := bind_eq_ok.mp hr
        obtain ⟨person, -, hr⟩ := bind_eq_ok.mp hr
        obtain rfl := Except.ok.inj hr
        intro hstatus
        cases hstatus
      · obtain ⟨v, -, h⟩ := bind_eq_ok.mp h
        refine hmoves (updateAt_updates h fun r r' hr => ?_)
        obtain rfl := Except.ok.inj hr
        intro hstatus
        cases hstatus
      · obtain ⟨v, -, h⟩ := bind_eq_ok.mp h
        refine hmoves (updateAt_updates h fun r r' hr => ?_)
        obtain rfl := Except.ok.inj hr
        intro hstatus
        cases hstatus
    · obtain rfl := Except.ok.inj h
      exact ht
  · obtain rfl := Except.ok.inj h
    exact ht

end

/-- Whatever the ledger, an entry that is appended keeps the status, the domain and the person of a
    source exactly when it comes in its order for that source. -/
theorem source_keeps_iff (py : Interp) (es : List LedgerRow) (e : LedgerRow) (s s' : State) (sid : String)
    (r : Source) (hs : foldEntries py initialProjectionState es = .ok s)
    (hs' : foldEntries py initialProjectionState (es ++ [e]) = .ok s')
    (hr : Table.get? (s .sources : Sources) sid = some (sid, r)) :
    ∃ r', Table.get? (s' .sources : Sources) sid = some (sid, r') ∧ (r.Keeps r' ↔ e.InOrder sid r) := by
  have hfresh : ∀ p ∈ (s .sources : Sources).rows, p.2.Fresh := by
    refine foldAt_invariant (p := .sources) (P := fun t : Sources => ∀ p ∈ t.rows, p.2.Fresh)
      (fun e _ t t' ht h => ?_) (fun _ hp => absurd hp List.not_mem_nil) (foldEntries_at hs .sources)
    rw [stepAt_plain (by simp)] at h
    exact actAt_fresh h ht
  obtain ⟨u, hu, hlast⟩ := foldEntries_append.mp hs'
  obtain rfl := Except.ok.inj (hs.symm.trans hu)
  obtain ⟨w, hw, hlast⟩ := foldEntries_cons.mp hlast
  obtain rfl := Except.ok.inj hlast
  have hstep := applyEntry_at hw .sources
  rw [stepAt_plain (by simp)] at hstep
  exact actAt_keeps_iff hstep hr (hfresh _ (Table.get?_eq_some_iff.mp hr).1)

/-! ### A source that is discovered again -/

def sampleSource : String := "00000000-0000-0000-0000-000000000001"

def sampleSourceProposed (seq : ℕ) : LedgerRow :=
  executed seq "emit_source_proposed" [(.str "source_id", .str sampleSource),
    (.str "source_kind", .str "database"), (.str "uri", .str "postgres://warehouse"),
    (.str "added_via_flow", .str "lake_discovery"), (.str "suggested_domain", .str "sales"),
    (.str "suggested_classification", .str "internal")]

def sampleSourceConfirmed (seq : ℕ) : LedgerRow :=
  executed seq "emit_source_confirmed" [(.str "source_id", .str sampleSource),
    (.str "confirmed_by_person", .str "00000000-0000-0000-0000-000000000002"),
    (.str "domain_id", .str "00000000-0000-0000-0000-000000000003"),
    (.str "classification", .str "internal")]

/-- A proposal of a source that is confirmed takes it back, with its domain and its person. -/
theorem proposedAgain_regresses : ¬∀ (es : List LedgerRow) (e : LedgerRow) (s s' : State) (sid : String)
    (r r' : Source), foldEntries .plain initialProjectionState es = .ok s →
      foldEntries .plain initialProjectionState (es ++ [e]) = .ok s' →
      Table.get? (s .sources : Sources) sid = some (sid, r) →
      Table.get? (s' .sources : Sources) sid = some (sid, r') → r.Keeps r' := by
  intro h
  obtain ⟨s, s', r, r', hs, hs', hr, hr', hdomain, hnone⟩ : ∃ (s s' : State) (r r' : Source),
      foldEntries .plain initialProjectionState [sampleSourceProposed 1, sampleSourceConfirmed 2] = .ok s ∧
      foldEntries .plain initialProjectionState ([sampleSourceProposed 1, sampleSourceConfirmed 2] ++
        [sampleSourceProposed 3]) = .ok s' ∧
      Table.get? (s .sources : Sources) sampleSource = some (sampleSource, r) ∧
      Table.get? (s' .sources : Sources) sampleSource = some (sampleSource, r') ∧
      r.domainId = some ⟨3⟩ ∧ r'.domainId = none := ⟨_, _, _, _, rfl, rfl, rfl, rfl, rfl, rfl⟩
  have hkeeps := (h _ _ s s' sampleSource r r' hs hs' hr hr').domain
  simp [hdomain, hnone] at hkeeps

theorem sampleSource_confirmed : ∃ s s' : State, ∃ r r' : Source,
    foldEntries .plain initialProjectionState [sampleSourceProposed 1] = .ok s ∧
    foldEntries .plain initialProjectionState ([sampleSourceProposed 1] ++ [sampleSourceConfirmed 2]) =
      .ok s' ∧
    Table.get? (s' .sources : Sources) sampleSource = some (sampleSource, r') ∧ r.Keeps r' := by
  obtain ⟨s, s', r, hs, hs', hr, hstatus, hdomain⟩ : ∃ (s s' : State) (r : Source),
      foldEntries .plain initialProjectionState [sampleSourceProposed 1] = .ok s ∧
      foldEntries .plain initialProjectionState ([sampleSourceProposed 1] ++ [sampleSourceConfirmed 2]) =
        .ok s' ∧
      Table.get? (s .sources : Sources) sampleSource = some (sampleSource, r) ∧
      r.status = .proposed ∧ r.domainId = none := ⟨_, _, _, rfl, rfl, rfl, rfl, rfl⟩
  obtain ⟨r', hr', hiff⟩ := source_keeps_iff .plain [sampleSourceProposed 1] (sampleSourceConfirmed 2) s s'
    sampleSource r hs hs' hr
  refine ⟨s, s', r, r', hs, hs', hr', hiff.mpr fun tool args haction _ => ?_⟩
  obtain ⟨rfl, rfl⟩ := Prod.mk.inj (Option.some.inj haction)
  exact ⟨fun h => absurd h (by decide), fun _ => ⟨by simp [hstatus, SourceStatus.rank], by simp [hdomain]⟩,
    fun h => absurd h (by decide)⟩

end Projection
