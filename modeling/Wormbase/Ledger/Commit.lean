import Wormbase.Ledger.RoundTrip
import Wormbase.Ledger.Chain
import Wormbase.Py.UuidText

/-! When a write returns, and what a reader then finds.

    A write returns on the rows of a sealed chain when its callbacks return mappings with canonical
    JSON, its ids are new and the columns take its payloads. -/

namespace Ledger
open Py

/-- The entries of one company: a contiguous chain of sealed entries. -/
structure SealedChain (sha256 : Bytes → Bytes) (companyId : UUID) (es : List Entry) : Prop
    extends Contiguous es where
  company : ∀ e ∈ es, e.companyId = companyId
  seals : ∀ e ∈ es, sealEntry sha256 e.toBody = .ok e

section
variable {sha256 : Bytes → Bytes} {d : Dialect}

/-! ### Sealed entries -/

/-- The payload, the timestamp and the seq of an entry have canonical JSON. -/
def Hashable (c : Call) (seq : ℕ) (payload : Dict) : Prop :=
  ∃ t j, isoText c.ts = .ok t ∧ encode (.dict payload) = .ok j ∧ checkInt seq = .ok ()

theorem sealEntry_isOk {c : Call} {id : UUID} {seq : ℕ} {prevHash : Bytes} {kind : Kind}
    {payload : Dict} {e : Entry} (h : sealEntry sha256 (c.body id seq prevHash kind payload) = .ok e) :
    Hashable c seq payload := by
  obtain ⟨-, s, hs, -⟩ := sealEntry_ok h
  obtain ⟨t, j, ht, hj, hseq, -⟩ := canonicalJson_body_iff.mp hs
  exact ⟨t, j, ht, hj, hseq⟩

theorem sealEntry_of_hashable {c : Call} {seq : ℕ} {payload : Dict} (h : Hashable c seq payload)
    (id : UUID) (prevHash : Bytes) (kind : Kind) :
    ∃ e, sealEntry sha256 (c.body id seq prevHash kind payload) = .ok e := by
  obtain ⟨t, j, ht, hj, hseq⟩ := h
  have hs := canonicalJson_body_iff (b := c.body id seq prevHash kind payload).mpr
    ⟨t, j, ht, hj, hseq, rfl⟩
  rw [sealEntry, computeEntryHash, hs]
  exact ⟨_, rfl⟩

theorem sealEntry_error {c : Call} {id : UUID} {seq : ℕ} {prevHash : Bytes} {kind : Kind}
    {payload : Dict} {x : Err} (h : sealEntry sha256 (c.body id seq prevHash kind payload) = .error x) :
    ¬ Hashable c seq payload := by
  intro hh
  obtain ⟨e, he⟩ := @sealEntry_of_hashable sha256 _ _ _ hh id prevHash kind
  cases he.symm.trans h

/-- Four payloads with canonical JSON build four entries, when the verify step passes. -/
theorem built_of_hashable {c : Call} {n : ℕ} {ep vp rp : Dict} (hp : Hashable c (n + 1) c.propose)
    (hep : c.execPayload = .ok ep) (he : Hashable c (n + 2) ep) (hvp : c.verifyPayload ep = .ok vp)
    (hv : Hashable c (n + 3) vp) (hpass : Call.passed vp = true) (hrp : c.resolvePayload vp = .ok rp)
    (hr : Hashable c (n + 4) rp) (prevHash : Bytes) :
    ∃ p e v r, Built sha256 c n prevHash ep vp rp p e v r := by
  obtain ⟨p, sp⟩ := @sealEntry_of_hashable sha256 _ _ _ hp c.proposeId prevHash .propose
  obtain ⟨e, se⟩ := @sealEntry_of_hashable sha256 _ _ _ he c.executeId p.hash .execute
  obtain ⟨v, sv⟩ := @sealEntry_of_hashable sha256 _ _ _ hv c.verifyId e.hash .verify
  obtain ⟨r, sr⟩ := @sealEntry_of_hashable sha256 _ _ _ hr c.resolveId v.hash .resolve
  exact ⟨p, e, v, r, sp, hep, se, hvp, sv, hpass, hrp, sr⟩

/-- A sealed entry on the end of a chain extends it. -/
theorem SealedChain.concat {companyId : UUID} {es : List Entry} (h : SealedChain sha256 companyId es)
    {b : Body} {e : Entry} (he : sealEntry sha256 b = .ok e) (hcompany : b.companyId = companyId)
    (hseq : b.seq = es.length + 1) (hprev : b.prevHash = tipHash es) :
    SealedChain sha256 companyId (es ++ [e]) := by
  obtain ⟨rfl, -⟩ := sealEntry_ok he
  exact ⟨h.toContiguous.concat hseq hprev,
    List.forall_mem_append.mpr ⟨h.company, by simpa using hcompany⟩,
    List.forall_mem_append.mpr ⟨h.seals, by simpa using he⟩⟩

theorem sealedChain_nil (companyId : UUID) : SealedChain sha256 companyId [] :=
  ⟨contiguous_nil, by simp, by simp⟩

theorem Built.chain {c : Call} {rows : List Entry} (hrows : SealedChain sha256 c.companyId rows)
    {ep vp rp : Dict} {p e v r : Entry}
    (h : Built sha256 c rows.length (tipHash rows) ep vp rp p e v r) :
    SealedChain sha256 c.companyId (rows ++ [p, e, v, r]) := by
  have h1 := hrows.concat h.propose rfl rfl rfl
  have h2 := h1.concat h.execute rfl (by simp [Call.body]) (tipHash_concat ..).symm
  have h3 := h2.concat h.verify rfl (by simp [Call.body]) (tipHash_concat ..).symm
  have h4 := h3.concat h.resolve rfl (by simp [Call.body]) (tipHash_concat ..).symm
  simpa using h4

/-! ### A write of four storable entries returns -/

/-- Entries with one hash have one id and one seq. -/
theorem eq_of_hash_eq (hinj : Function.Injective sha256) {a b : Entry}
    (ha : sealEntry sha256 a.toBody = .ok a) (hb : sealEntry sha256 b.toBody = .ok b)
    (h : a.hash = b.hash) : a.entryId = b.entryId ∧ a.seq = b.seq := by
  obtain ⟨-, s, hs, hah⟩ := sealEntry_ok ha
  obtain ⟨-, s', hs', hbh⟩ := sealEntry_ok hb
  obtain rfl := encodeUtf8_injective (hinj (hah.symm.trans (h.trans hbh)))
  obtain ⟨t, j, -, -, -, rfl⟩ := canonicalJson_body_iff.mp hs
  obtain ⟨t', j', -, -, -, heq⟩ := canonicalJson_body_iff.mp hs'
  have htree := Json.obj.inj (render_injective heq)
  simp only [List.cons.injEq, Prod.mk.injEq, Json.atom.injEq, Json.str.injEq, true_and, and_true]
    at htree
  exact ⟨UUID.str_injective htree.2.1, intAtom_natCast_inj htree.2.2.2.2.2.2.1⟩

theorem seq_eq_of_hash_eq (hinj : Function.Injective sha256) {a b : Entry}
    (ha : sealEntry sha256 a.toBody = .ok a) (hb : sealEntry sha256 b.toBody = .ok b)
    (h : a.hash = b.hash) : a.seq = b.seq := (eq_of_hash_eq hinj ha hb h).2

/-- Rows with one hash have one id. -/
theorem Stored.entryId_eq (hinj : Function.Injective sha256) {a b : Body} {row row' : Entry}
    (h : Stored sha256 d a row) (h' : Stored sha256 d b row') (hhash : row.hash = row'.hash) :
    row.entryId = row'.entryId := by
  obtain ⟨e, he, hrow⟩ := h
  obtain ⟨e', he', hrow'⟩ := h'
  obtain ⟨hid, -, -, -, -, hash⟩ := storeRow_fields hrow
  obtain ⟨hid', -, -, -, -, hash'⟩ := storeRow_fields hrow'
  obtain rfl := (sealEntry_ok he).1
  obtain rfl := (sealEntry_ok he').1
  rw [hid, hid']
  exact (eq_of_hash_eq hinj he he' (hash.symm.trans (hhash.trans hash'))).1

theorem StoredAs.link {es rows : List Entry} (h : StoredAs d es rows) :
    rows.map Entry.link = es.map Entry.link := by
  induction h with
  | nil => rfl
  | cons hrow _ ih =>
    obtain ⟨-, -, hseq, -, hprev, hhash⟩ := storeRow_fields hrow
    rw [List.map_cons, List.map_cons, ih, Entry.link, Entry.link, hseq, hprev, hhash]

theorem StoredAs.exists_of_mem {es rows : List Entry} (h : StoredAs d es rows) {row : Entry}
    (hrow : row ∈ rows) : ∃ e ∈ es, storeRow d e = .ok row := by
  induction h with
  | nil => cases hrow
  | cons hab _ ih =>
    rcases List.mem_cons.mp hrow with rfl | hrow
    · exact ⟨_, List.mem_cons_self, hab⟩
    · obtain ⟨e, he, hstored⟩ := ih hrow
      exact ⟨e, List.mem_cons_of_mem _ he, hstored⟩

/-- On the rows of a chain `_tail` finds the length and the tip of the chain. -/
theorem tail_of_storedAs {rows es : List Entry} {companyId : UUID} (hes : Contiguous es)
    (h : StoredAs d es (ofCompany rows companyId)) :
    tail rows companyId = (es.length, tipHash es) := by
  rw [tail_of_contiguous (hes.congr h.link), tipHash_congr h.link, h.length_eq]

/-- The next entry of a chain can be inserted when its id is new and the columns take it. -/
theorem append_next (hinj : Function.Injective sha256) {companyId : UUID} {es rows : List Entry}
    (hes : SealedChain sha256 companyId es) (hrel : StoredAs d es (ofCompany rows companyId))
    {b : Body} {e row : Entry} (he : sealEntry sha256 b = .ok e) (hrow : storeRow d e = .ok row)
    (hcompany : b.companyId = companyId) (hseq : b.seq = es.length + 1)
    (hid : ∀ other ∈ rows, other.entryId ≠ b.entryId) :
    append sha256 d rows b = .ok (e, rows ++ [row]) ∧
      StoredAs d (es ++ [e]) (ofCompany (rows ++ [row]) companyId) := by
  obtain ⟨rfl, -⟩ := sealEntry_ok he
  obtain ⟨hrid, hrcompany, hrseq, -, -, hrhash⟩ := storeRow_fields hrow
  have hfree : rows.any (conflicts row) = false := by
    rw [List.any_eq_false]
    intro other hother hconflict
    simp only [conflicts, Bool.or_eq_true, Bool.and_eq_true, decide_eq_true_eq, hrid, hrcompany,
      hrseq, hrhash] at hconflict
    rcases hconflict with h | ⟨hc, h⟩
    · exact hid other hother h
    · -- a row of the company comes from an entry of the chain
      have hmem : other ∈ ofCompany rows companyId := by
        simp [ofCompany, hother, hc, hcompany]
      obtain ⟨a, ha, hstored⟩ := hrel.exists_of_mem hmem
      obtain ⟨-, -, haseq, -, -, hahash⟩ := storeRow_fields hstored
      have hle := (seq_mem_range hes.seqs a ha).2
      rcases h with h | h
      · omega
      · have := seq_eq_of_hash_eq hinj (hes.seals a ha) he (hahash.symm.trans h)
        omega
  constructor
  · rw [append, he]
    simp only [insertRow, addRow, hrow, bind, Except.bind, hfree]
    rfl
  · rw [ofCompany_append]
    refine List.rel_append hrel ?_
    have hnew : ofCompany [row] companyId = [row] := by
      simp [ofCompany, hrcompany, hcompany]
    rw [hnew]
    exact .cons hrow .nil

/-- The four ids of a call, all different and none of them in the table. -/
structure FreshIds (rows : List Entry) (c : Call) : Prop where
  nodup : c.ids.Nodup
  unused : ∀ row ∈ rows, row.entryId ∉ c.ids

/-- The JSON column takes every payload. -/
def Storable (d : Dialect) (payloads : List Dict) : Prop :=
  ∀ p ∈ payloads, ∃ w, storePayload d (.dict p) = .ok w

theorem storeRow_of_storable {e : Entry} {p : Dict} (he : e.payload = .dict p)
    (h : ∃ w, storePayload d (.dict p) = .ok w) : ∃ row, storeRow d e = .ok row := by
  obtain ⟨w, hw⟩ := h
  rw [storeRow, he, hw]
  exact ⟨_, rfl⟩

theorem storable_of_storeRow {e row : Entry} {p : Dict} (he : e.payload = .dict p)
    (h : storeRow d e = .ok row) : ∃ w, storePayload d (.dict p) = .ok w := by
  obtain ⟨w, hw, -⟩ := bind_eq_ok.mp h
  exact ⟨w, he ▸ hw⟩

theorem Built.storable {c : Call} {n : ℕ} {prevHash : Bytes} {ep vp rp : Dict} {p e v r : Entry}
    {new : List Entry} (h : Built sha256 c n prevHash ep vp rp p e v r)
    (hnew : StoredAs d [p, e, v, r] new) : Storable d [c.propose, ep, vp, rp] := by
  rcases hnew with _ | ⟨hp, _ | ⟨he, _ | ⟨hv, _ | ⟨hr, ⟨⟩⟩⟩⟩⟩
  simp only [Storable, List.forall_mem_cons]
  exact ⟨storable_of_storeRow (congrArg Body.payload (sealEntry_ok h.propose).1) hp,
    storable_of_storeRow (congrArg Body.payload (sealEntry_ok h.execute).1) he,
    storable_of_storeRow (congrArg Body.payload (sealEntry_ok h.verify).1) hv,
    storable_of_storeRow (congrArg Body.payload (sealEntry_ok h.resolve).1) hr, by simp⟩

theorem Built.exists_stored {c : Call} {n : ℕ} {prevHash : Bytes} {ep vp rp : Dict}
    {p e v r : Entry} (h : Built sha256 c n prevHash ep vp rp p e v r)
    (hstore : Storable d [c.propose, ep, vp, rp]) : ∃ new, StoredAs d [p, e, v, r] new := by
  simp only [Storable, List.forall_mem_cons] at hstore
  obtain ⟨sp, se, sv, sr, -⟩ := hstore
  obtain ⟨p', hp⟩ := storeRow_of_storable (congrArg Body.payload (sealEntry_ok h.propose).1) sp
  obtain ⟨e', he⟩ := storeRow_of_storable (congrArg Body.payload (sealEntry_ok h.execute).1) se
  obtain ⟨v', hv⟩ := storeRow_of_storable (congrArg Body.payload (sealEntry_ok h.verify).1) sv
  obtain ⟨r', hr⟩ := storeRow_of_storable (congrArg Body.payload (sealEntry_ok h.resolve).1) sr
  exact ⟨[p', e', v', r'], .cons hp (.cons he (.cons hv (.cons hr .nil)))⟩

/-- Four entries built on a chain are written when their ids are new and the columns take them. -/
theorem write_of_built (hinj : Function.Injective sha256) {c : Call} {es rows : List Entry}
    (hes : SealedChain sha256 c.companyId es) (hrel : StoredAs d es (ofCompany rows c.companyId))
    (hids : FreshIds rows c) {ep vp rp : Dict} {p e v r : Entry}
    (h : Built sha256 c es.length (tipHash es) ep vp rp p e v r)
    (hstore : Storable d [c.propose, ep, vp, rp]) :
    ∃ new, write sha256 d rows c = (.ok (resultOf p e v r), rows ++ new) ∧
      StoredAs d (es ++ [p, e, v, r]) (ofCompany (rows ++ new) c.companyId) ∧
      ∀ row ∈ new, row.companyId = c.companyId := by
  obtain ⟨new, hnew⟩ := h.exists_stored hstore
  rcases hnew with _ | ⟨hp', _ | ⟨he', _ | ⟨hv', _ | ⟨hr', ⟨⟩⟩⟩⟩⟩
  rename_i p' e' v' r'
  have hown : ∀ {b : Body} {a row : Entry}, sealEntry sha256 b = .ok a → storeRow d a = .ok row →
      row.entryId = b.entryId ∧ row.companyId = b.companyId := fun ha hrow => by
    obtain ⟨hrowId, hrowCompany, -⟩ := storeRow_fields hrow
    rw [hrowId, hrowCompany, (sealEntry_ok ha).1]
    exact ⟨rfl, rfl⟩
  obtain ⟨hpid, hpc⟩ := hown h.propose hp'
  obtain ⟨heid, hec⟩ := hown h.execute he'
  obtain ⟨hvid, hvc⟩ := hown h.verify hv'
  obtain ⟨-, hrc⟩ := hown h.resolve hr'
  obtain ⟨hnodup, hunused⟩ := hids
  simp only [Call.ids, List.nodup_cons, List.mem_cons, List.not_mem_nil, or_false, not_or]
    at hnodup hunused
  obtain ⟨⟨hpe, hpv, hpr⟩, ⟨hev, her⟩, hvr, -⟩ := hnodup
  have hchain1 := hes.concat h.propose rfl rfl rfl
  have hchain2 := hchain1.concat h.execute rfl (by simp [Call.body]) (tipHash_concat ..).symm
  have hchain3 := hchain2.concat h.verify rfl (by simp [Call.body]) (tipHash_concat ..).symm
  obtain ⟨h1, hrel1⟩ := append_next hinj hes hrel h.propose hp' rfl rfl
    fun other ho => (hunused other ho).1
  obtain ⟨h2, hrel2⟩ := append_next hinj hchain1 hrel1 h.execute he' rfl (by simp [Call.body]) <|
    List.forall_mem_append.mpr ⟨fun other ho => (hunused other ho).2.1, by simpa [hpid, Call.body] using hpe⟩
  obtain ⟨h3, hrel3⟩ := append_next hinj hchain2 hrel2 h.verify hv' rfl (by simp [Call.body]) <|
    List.forall_mem_append.mpr ⟨List.forall_mem_append.mpr ⟨fun other ho => (hunused other ho).2.2.1,
      by simpa [hpid, Call.body] using hpv⟩, by simpa [heid, Call.body] using hev⟩
  obtain ⟨h4, hrel4⟩ := append_next hinj hchain3 hrel3 h.resolve hr' rfl (by simp [Call.body]) <|
    List.forall_mem_append.mpr ⟨List.forall_mem_append.mpr ⟨List.forall_mem_append.mpr
      ⟨fun other ho => (hunused other ho).2.2.2, by simpa [hpid, Call.body] using hpr⟩,
      by simpa [heid, Call.body] using her⟩, by simpa [hvid, Call.body] using hvr⟩
  refine ⟨[p', e', v', r'], ?_, by simpa using hrel4, by simp [hpc, hec, hvc, hrc, Call.body]⟩
  simp only [write, sessionScope, writePrimitive, tail_of_storedAs hes.toContiguous hrel, h1,
    h.execPayload, h2, h.verifyPayload, h3, h.passed, h.resolvePayload, h4, bind, Except.bind]
  simp [pure, Except.pure, resultOf]

/-- The first write of all returns when its payloads have canonical JSON and can be stored. -/
theorem first_write_returns (hinj : Function.Injective sha256) {c : Call} {ep vp rp : Dict}
    (hp : Hashable c 1 c.propose) (hep : c.execPayload = .ok ep) (he : Hashable c 2 ep)
    (hvp : c.verifyPayload ep = .ok vp) (hv : Hashable c 3 vp) (hpass : Call.passed vp = true)
    (hrp : c.resolvePayload vp = .ok rp) (hr : Hashable c 4 rp) (hids : c.ids.Nodup)
    (hstore : Storable d [c.propose, ep, vp, rp]) :
    ∃ res rows, write sha256 d [] c = (.ok res, rows) := by
  obtain ⟨p, e, v, r, hb⟩ := @built_of_hashable sha256 c 0 ep vp rp hp hep he hvp hv hpass hrp hr
    genesisPrevHash
  obtain ⟨new, hw, -⟩ := @write_of_built sha256 d hinj c [] [] (sealedChain_nil c.companyId) .nil
    ⟨hids, by simp⟩ _ _ _ _ _ _ _ hb hstore
  exact ⟨_, _, hw⟩

/-- The rows of four entries built on a chain break no constraint when their ids are new. -/
theorem addRow_of_built (hinj : Function.Injective sha256) {c : Call} {es rows : List Entry}
    (hes : SealedChain sha256 c.companyId es) (hrel : StoredAs d es (ofCompany rows c.companyId))
    (hids : FreshIds rows c) {ep vp rp : Dict} {p e v r : Entry} {new : List Entry}
    (h : Built sha256 c es.length (tipHash es) ep vp rp p e v r)
    (hnew : StoredAs d [p, e, v, r] new) : ∃ rows', new.foldlM addRow rows = .ok rows' := by
  obtain ⟨new', hw, -⟩ := write_of_built hinj hes hrel hids h (h.storable hnew)
  rw [write_of_stored (by rw [tail_of_storedAs hes.toContiguous hrel]; exact h) hnew] at hw
  cases hrows : new.foldlM addRow rows with
  | ok rows' => exact ⟨rows', rfl⟩
  | error x => rw [hrows] at hw; cases hw

/-! ### Reading a write back -/

/-- The four rows of a write that returns come back from `fetch_entries`. The hashes recomputed from
    them are the stored ones when, on SQLite, the timestamp is in UTC and the keys of the payloads
    are stable; and with a collision-free hash only then. -/
theorem write_hashes_recompute_iff {c : Call} {rows rows' : List Entry} {res : WriteResult}
    (h : write sha256 d rows c = (.ok res, rows')) :
    ∃ new, rows' = rows ++ new ∧ new.length = 4 ∧
      (∀ row ∈ new, normalizeRow row ∈ fetchEntries d rows' c.companyId none) ∧
      (CallStable d c →
        ∀ row ∈ new, computeEntryHash sha256 (normalizeRow row).dict = .ok row.hash) ∧
      (Function.Injective sha256 →
        (∀ row ∈ new, computeEntryHash sha256 (normalizeRow row).dict = .ok row.hash) →
          CallStable d c) := by
  rcases @write_cases sha256 d rows c with ⟨res', ep, vp, rp, p, e, v, r, hg, hw⟩ | ⟨x, hw⟩
  · rw [hw] at h
    cases h
    refine ⟨[p, e, v, r], rfl, rfl, fun row hrow => ?_, hg.recomputes,
      fun hinj => (hg.recomputes_iff hinj).mp⟩
    exact mem_fetchEntries.mpr ⟨row, List.mem_append_right _ hrow, hg.company row hrow, rfl⟩
  · rw [hw] at h
    cases h

end

/-- A write with a given timestamp and proposal whose callbacks return the least they can. -/
def sampleCall (ts : DateTime) (propose : Dict) : Call where
  companyId := ⟨1⟩
  propose := propose
  executeFn := .ok (.dict [])
  verifyFn := fun _ => .ok (.dict [(.str "passed", .bool true)])
  resolveFn := fun _ => .ok (.dict [])
  timestamp := some ts
  quadrant := .activeDeterministic
  now := ts
  proposeId := ⟨2⟩
  executeId := ⟨3⟩
  verifyId := ⟨4⟩
  resolveId := ⟨5⟩

/-- Two o'clock, two hours east of Greenwich. -/
def eastern : DateTime where
  wall := ⟨7200000000, by decide⟩
  utcoffset := some ⟨7200000000, by decide⟩

theorem sampleCall_fresh (ts : DateTime) (propose : Dict) : FreshIds [] (sampleCall ts propose) :=
  ⟨show [(⟨2⟩ : UUID), ⟨3⟩, ⟨4⟩, ⟨5⟩].Nodup by decide, by simp⟩

theorem sampleCall_storable {ts : DateTime} {ps : List Dict}
    (h : (sampleCall ts []).payloads = .ok ps) : Storable .sqlite ps := by
  obtain rfl := Except.ok.inj h
  simp only [Storable, List.forall_mem_cons]
  exact ⟨⟨_, rfl⟩, ⟨_, rfl⟩, ⟨_, rfl⟩, ⟨_, rfl⟩, by simp⟩

/-- The sample write returns on the empty table. -/
theorem sampleCall_returns {ts : DateTime} (hts : ∃ t, isoText ts = .ok t) :
    ∃ res rows, write tagHash .sqlite [] (sampleCall ts []) = (.ok res, rows) := by
  obtain ⟨t, ht⟩ := hts
  exact first_write_returns tagHash_injective ⟨t, _, ht, rfl, rfl⟩ rfl ⟨t, _, ht, rfl, rfl⟩ rfl
    ⟨t, _, ht, rfl, rfl⟩ rfl rfl ⟨t, _, ht, rfl, rfl⟩ (sampleCall_fresh ts []).nodup
    (sampleCall_storable rfl)

/-- Midnight in UTC. -/
def midnight : DateTime where
  wall := ⟨0, maxMicros_pos⟩
  utcoffset := some DateTime.utc

theorem isoText_midnight : ∃ t, isoText midnight = .ok t := ⟨_, rfl⟩

theorem sampleCall_midnight_stable : CallStable .sqlite (sampleCall midnight []) := by
  refine ⟨fun _ => rfl, fun ps hps => ?_⟩
  obtain rfl := Except.ok.inj hps
  have one (s : String) : List.Pairwise (· < ·) [s.toList] := List.pairwise_singleton ..
  have two : List.Pairwise (· < ·) ["execute_entry_id".toList, "passed".toList] := by decide
  simp only [List.forall_mem_cons, KeysStable]
  exact ⟨⟨List.Pairwise.nil, trivial⟩, ⟨one _, trivial, trivial⟩, ⟨two, trivial, trivial, trivial⟩,
    ⟨one _, trivial, trivial⟩, by simp⟩

/-- A write at midnight in UTC recomputes. -/
theorem sampleCall_midnight_recomputes : ∃ rows, ∃ new : List Entry, rows = [] ++ new ∧
    new.length = 4 ∧
    ∀ row ∈ new, computeEntryHash tagHash (normalizeRow row).dict = .ok row.hash := by
  obtain ⟨res, rows, h⟩ := sampleCall_returns isoText_midnight
  obtain ⟨new, hnew, hlen, -, hrec, -⟩ := write_hashes_recompute_iff h
  exact ⟨rows, new, hnew, hlen, hrec sampleCall_midnight_stable⟩

theorem sampleCall_eastern_not_stable : ¬ CallStable .sqlite (sampleCall eastern []) :=
  fun h => absurd (h.1 rfl) (by decide)

theorem sampleCall_eastern_breaks :
    ∃ res rows, write tagHash .sqlite [] (sampleCall eastern []) = (.ok res, rows) ∧
      ∃ row ∈ rows, row.companyId = ⟨1⟩ ∧ ¬ Recomputes tagHash row := by
  obtain ⟨res, rows, h⟩ := @sampleCall_returns eastern ⟨_, rfl⟩
  refine ⟨res, rows, h, ?_⟩
  rcases @write_cases tagHash .sqlite [] (sampleCall eastern []) with
    ⟨res', ep, vp, rp, p, e, v, r, hg, hw⟩ | ⟨x, hw⟩
  · obtain ⟨-, rfl⟩ := Prod.mk.inj (h.symm.trans hw)
    have hnot := sampleCall_eastern_not_stable
    rw [← hg.recomputes_iff tagHash_injective, not_forall₂] at hnot
    obtain ⟨row, hrow, hbreak⟩ := hnot
    exact ⟨row, hrow, hg.company row hrow, hbreak⟩
  · cases h.symm.trans hw

/-- A write at two o'clock east of Greenwich does not recompute: SQLite drops the offset. -/
theorem sampleCall_eastern_not_recomputed :
    ∃ res rows, write tagHash .sqlite [] (sampleCall eastern []) = (.ok res, rows) ∧
      ∃ row ∈ rows, normalizeRow row ∈ fetchEntries .sqlite rows ⟨1⟩ none ∧
        computeEntryHash tagHash (normalizeRow row).dict ≠ .ok row.hash := by
  obtain ⟨res, rows, h, row, hrow, hcompany, hbreak⟩ := sampleCall_eastern_breaks
  exact ⟨res, rows, h, row, hrow, mem_fetchEntries.mpr ⟨row, hrow, hcompany, rfl⟩, hbreak⟩

end Ledger
