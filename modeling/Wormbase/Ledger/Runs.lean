import Wormbase.Ledger.Commit

/-! Runs of writes over any set of companies.

    Whatever the writes do, the rows of each company stay one chain: seq values 1 to n, each row
    linked to the one before, groups of four. The walk of `verify_chain` over that chain succeeds
    exactly when every committed write was stable under storage. -/

namespace Ledger
open Py

section
variable (sha256 : Bytes → Bytes) (d : Dialect)

/-- The committed rows after a sequence of calls. -/
def runWrites (rows : List Entry) (cs : List Call) : List Entry :=
  cs.foldl (fun rows c => (write sha256 d rows c).2) rows

/-- The calls of a sequence that return. -/
def committedCalls : List Entry → List Call → List Call
  | _, [] => []
  | rows, c :: cs =>
    let out := write sha256 d rows c
    (if out.1.isOk then [c] else []) ++ committedCalls out.2 cs

theorem runWrites_cons (rows : List Entry) (c : Call) (cs : List Call) :
    runWrites sha256 d rows (c :: cs) = runWrites sha256 d (write sha256 d rows c).2 cs := by
  rw [runWrites, List.foldl_cons, ← runWrites]

theorem runWrites_append (rows : List Entry) (cs cs' : List Call) :
    runWrites sha256 d rows (cs ++ cs') = runWrites sha256 d (runWrites sha256 d rows cs) cs' :=
  List.foldl_append ..

theorem committedCalls_cons (rows : List Entry) (c : Call) (cs : List Call) :
    committedCalls sha256 d rows (c :: cs) =
      (if (write sha256 d rows c).1.isOk then [c] else []) ++
        committedCalls sha256 d (write sha256 d rows c).2 cs := by
  rw [committedCalls]

end

section
variable {sha256 : Bytes → Bytes} {d : Dialect}

/-! ### The chain of a company -/

/-- One chain of groups of four. -/
structure IsChain (es : List Entry) : Prop extends Contiguous es where
  groups : ∃ k, es.map (·.kind) = (List.replicate k groupKinds).flatten

theorem isChain_nil : IsChain [] := ⟨contiguous_nil, 0, rfl⟩

/-- A group built on the end of a chain extends it. -/
theorem IsChain.append_group {es : List Entry} (h : IsChain es) {c : Call} {ep vp rp : Dict}
    {p e v r : Entry} (hg : Group sha256 d c es.length (tipHash es) ep vp rp p e v r) :
    IsChain (es ++ [p, e, v, r]) := by
  obtain ⟨-, hpseq, hpkind, hpprev⟩ := hg.propose.fields
  obtain ⟨-, heseq, hekind, heprev⟩ := hg.execute.fields
  obtain ⟨-, hvseq, hvkind, hvprev⟩ := hg.verify.fields
  obtain ⟨-, hrseq, hrkind, hrprev⟩ := hg.resolve.fields
  refine ⟨?_, ?_⟩
  · have h1 := h.toContiguous.concat hpseq hpprev
    have h2 := h1.concat (e := e) (by simp [heseq, Call.body]) (heprev.trans (tipHash_concat _ _).symm)
    have h3 := h2.concat (e := v) (by simp [hvseq, Call.body]) (hvprev.trans (tipHash_concat _ _).symm)
    have h4 := h3.concat (e := r) (by simp [hrseq, Call.body]) (hrprev.trans (tipHash_concat _ _).symm)
    simpa using h4
  · obtain ⟨k, hk⟩ := h.groups
    refine ⟨k + 1, ?_⟩
    rw [List.map_append, hk, List.replicate_succ', List.flatten_append]
    simp [hpkind, hekind, hvkind, hrkind, Call.body, groupKinds]

theorem IsChain.map_normalizeRow {es : List Entry} (h : IsChain es) :
    IsChain (es.map normalizeRow) := by
  refine ⟨h.toContiguous.congr (link_normalizeRow es), ?_⟩
  have hkind : (es.map normalizeRow).map (·.kind) = es.map (·.kind) := by
    rw [List.map_map, List.map_inj_left]
    exact fun e _ => (normalizeRow_fields e).2.2.2.1
  rw [hkind]
  exact h.groups

/-- Every company's rows are a chain, before a write and after it. -/
theorem isChain_write {rows : List Entry} (c : Call)
    (h : ∀ companyId, IsChain (ofCompany rows companyId)) (companyId : UUID) :
    IsChain (ofCompany (write sha256 d rows c).2 companyId) := by
  rcases @write_cases sha256 d rows c with
    ⟨res, ep, vp, rp, p, e, v, r, hgroup, hw⟩ | ⟨x, hw⟩
  · have hp := hgroup.propose.fields.1
    have he := hgroup.execute.fields.1
    have hv := hgroup.verify.fields.1
    have hr := hgroup.resolve.fields.1
    rw [hw, ofCompany_append]
    by_cases hc : companyId = c.companyId
    · subst hc
      have hnew : ofCompany [p, e, v, r] c.companyId = [p, e, v, r] := by
        simp [ofCompany, hp, he, hv, hr, Call.body]
      rw [hnew]
      rw [tail_of_contiguous (h _).toContiguous] at hgroup
      exact (h _).append_group hgroup
    · have hnew : ofCompany [p, e, v, r] companyId = [] := by
        simp [ofCompany, hp, he, hv, hr, Call.body, Ne.symm hc]
      rw [hnew, List.append_nil]
      exact h companyId
  · rw [hw]
    exact h companyId

theorem isChain_runWrites (cs : List Call) (companyId : UUID) :
    IsChain (ofCompany (runWrites sha256 d [] cs) companyId) := by
  refine List.foldlRecOn (motive := fun rows => ∀ companyId, IsChain (ofCompany rows companyId))
    cs _ (fun companyId => ?_) (fun rows h c _ => isChain_write c h) companyId
  exact isChain_nil

/-! ### Reading the chain back -/

/-- A linked list of rows is verified exactly when every row carries its recomputed hash. -/
theorem verifyFrom_linked : ∀ {es : List Entry} {prev : Bytes} {i : ℕ},
    HashChain.Linked Entry.hash RowFollows prev es →
      (verifyFrom sha256 prev i (es.map Entry.dict) = .ok (true, none) ↔
        ∀ e ∈ es, computeEntryHash sha256 e.dict = .ok e.hash)
  | [], _, _, _ => by simp [verifyFrom]
  | e :: es, prev, i, h => by
    obtain ⟨hprev, hlinks⟩ := h
    have hlink : e.dict.get "prev_hash" = .bytes prev := by rw [← hprev]; rfl
    have hstored : e.dict.get "hash" = .bytes e.hash := rfl
    rw [List.map_cons, List.forall_mem_cons, ← verifyFrom_linked (i := i + 1) hlinks]
    constructor
    · intro hv
      cases hh : computeEntryHash sha256 e.dict with
      | error x => rw [verifyFrom_error hlink hh] at hv; cases hv
      | ok b =>
        cases hseal : sameBytes (e.dict.get "hash") b with
        | false => rw [verifyFrom_seal hlink hh hseal] at hv; cases hv
        | true =>
          obtain rfl := Val.bytes.inj (sameBytes_iff.mp hseal)
          rw [verifyFrom_step hlink hh hseal] at hv
          exact ⟨rfl, hv⟩
    · rintro ⟨hh, hv⟩
      rw [verifyFrom_step hlink hh (sameBytes_iff.mpr hstored)]
      exact hv

/-! ### The whole law -/

theorem fetchEntries_isChain {rows : List Entry} {companyId : UUID}
    (h : IsChain (ofCompany rows companyId)) : IsChain (fetchEntries d rows companyId none) := by
  rw [fetchEntries_of_contiguous h.toContiguous]
  exact h.map_normalizeRow

/-- The chain of a company is verified exactly when all its rows recompute. -/
theorem verifyChain_fetch_iff {rows : List Entry} {companyId : UUID}
    (h : IsChain (ofCompany rows companyId)) :
    verifyChain sha256 ((fetchEntries d rows companyId none).map Entry.dict) = .ok (true, none) ↔
      ∀ row ∈ rows, row.companyId = companyId → Recomputes sha256 row := by
  rw [verifyChain, verifyFrom_linked (fetchEntries_isChain (d := d) h).links,
    fetchEntries_of_contiguous h.toContiguous]
  simp only [List.forall_mem_map, ofCompany, List.mem_filter, decide_eq_true_eq, and_imp]
  refine forall₃_congr fun row _ _ => ?_
  rw [Recomputes, (normalizeRow_fields row).2.2.2.2.2]

/-- A run adds rows, and every added row recomputes if every call that returned was stable. -/
theorem runWrites_recomputes : ∀ (cs : List Call) (rows : List Entry),
    (∀ row ∈ rows, Recomputes sha256 row) →
      (∀ c ∈ committedCalls sha256 d rows cs, CallStable d c) →
        ∀ row ∈ runWrites sha256 d rows cs, Recomputes sha256 row
  | [], rows, hrows, _ => hrows
  | c :: cs, rows, hrows, hcs => by
    rw [runWrites_cons]
    rw [committedCalls_cons, List.forall_mem_append] at hcs
    rcases @write_cases sha256 d rows c with ⟨res, ep, vp, rp, p, e, v, r, hg, hw⟩ | ⟨x, hw⟩
    · rw [hw] at hcs ⊢
      refine runWrites_recomputes cs _ (List.forall_mem_append.mpr ⟨hrows, ?_⟩) hcs.2
      exact hg.recomputes (hcs.1 c (by simp [Except.isOk, Except.toBool]))
    · rw [hw] at hcs ⊢
      exact runWrites_recomputes cs rows hrows hcs.2

theorem mem_runWrites : ∀ (cs : List Call) (rows : List Entry),
    ∀ row ∈ rows, row ∈ runWrites sha256 d rows cs
  | [], _, _, h => h
  | c :: cs, rows, row, h => by
    rw [runWrites_cons]
    refine mem_runWrites cs _ row ?_
    rcases @write_cases sha256 d rows c with ⟨res, ep, vp, rp, p, e, v, r, -, hw⟩ | ⟨x, hw⟩
    · rw [hw]
      exact List.mem_append_left _ h
    · rw [hw]
      exact h

/-- With a collision-free hash, a call that returned and was not stable leaves a row that does not
    recompute. -/
theorem callStable_of_recomputes (hinj : Function.Injective sha256) :
    ∀ (cs : List Call) (rows : List Entry),
      (∀ row ∈ runWrites sha256 d rows cs, Recomputes sha256 row) →
        ∀ c ∈ committedCalls sha256 d rows cs, CallStable d c
  | [], _, _ => fun _ h => absurd h List.not_mem_nil
  | c :: cs, rows, hall => by
    rw [runWrites_cons] at hall
    rw [committedCalls_cons, List.forall_mem_append]
    refine ⟨?_, callStable_of_recomputes hinj cs _ hall⟩
    rcases @write_cases sha256 d rows c with ⟨res, ep, vp, rp, p, e, v, r, hg, hw⟩ | ⟨x, hw⟩
    · rw [hw] at hall ⊢
      have hnew : ∀ row ∈ [p, e, v, r], Recomputes sha256 row := fun row hrow =>
        hall row (mem_runWrites cs _ row (List.mem_append_right _ hrow))
      simpa [Except.isOk, Except.toBool] using (hg.recomputes_iff hinj).mp hnew
    · rw [hw]
      simp [Except.isOk, Except.toBool]

/-- What the ledger promises for the entries of a company, read back in seq order. -/
structure LedgerLaw (sha256 : Bytes → Bytes) (es : List Entry) : Prop extends IsChain es where
  verified : verifyChain sha256 (es.map Entry.dict) = .ok (true, none)

end

/-- Every run of writes leaves, for every company, one chain of groups of four. The chain is also
    verified when every call that returned was stable under storage; and with a collision-free hash
    only then. -/
theorem runWrites_law (sha256 : Bytes → Bytes) (d : Dialect) (cs : List Call) :
    (∀ companyId, IsChain (fetchEntries d (runWrites sha256 d [] cs) companyId none)) ∧
    ((∀ c ∈ committedCalls sha256 d [] cs, CallStable d c) →
      ∀ companyId, LedgerLaw sha256 (fetchEntries d (runWrites sha256 d [] cs) companyId none)) ∧
    (Function.Injective sha256 →
      (∀ companyId, LedgerLaw sha256 (fetchEntries d (runWrites sha256 d [] cs) companyId none)) →
        ∀ c ∈ committedCalls sha256 d [] cs, CallStable d c) := by
  have hchain := @isChain_runWrites sha256 d cs
  refine ⟨fun companyId => fetchEntries_isChain (hchain companyId), fun hcs companyId => ?_,
    fun hinj hlaw => ?_⟩
  · refine ⟨fetchEntries_isChain (hchain companyId), (verifyChain_fetch_iff (hchain companyId)).mpr ?_⟩
    exact fun row hrow _ => runWrites_recomputes cs [] (by simp) hcs row hrow
  · refine callStable_of_recomputes hinj cs [] fun row hrow => ?_
    exact (verifyChain_fetch_iff (hchain row.companyId)).mp (hlaw row.companyId).verified row hrow rfl

/-- One write at two o'clock east of Greenwich is enough for `verify_chain` to report a break. -/
theorem runWrites_eastern_not_verified :
    verifyChain tagHash ((fetchEntries .sqlite (runWrites tagHash .sqlite []
      [sampleCall eastern []]) ⟨1⟩ none).map Entry.dict) ≠ .ok (true, none) := by
  obtain ⟨res, rows, h, row, hrow, hcompany, hbreak⟩ := sampleCall_eastern_breaks
  have hrun : runWrites tagHash .sqlite [] [sampleCall eastern []] = rows := by
    rw [runWrites_cons, h, runWrites, List.foldl_nil]
  have hchain := @isChain_runWrites tagHash .sqlite [sampleCall eastern []] ⟨1⟩
  rw [hrun] at hchain ⊢
  rw [Ne, verifyChain_fetch_iff hchain]
  exact fun hall => hbreak (hall row hrow hcompany)

end Ledger
