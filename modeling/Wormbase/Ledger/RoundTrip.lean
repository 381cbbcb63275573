import Wormbase.Ledger.WritePrimitive

/-! The hash input before and after storage.

    `_append` hashes the values it is given; the verifier hashes what the columns give back. The two
    texts agree exactly when the timestamp keeps its meaning (on SQLite, an offset of zero) and the
    keys of the payload are in one order as values and as text. -/

namespace Ledger
open Py

/-! ### The canonical text of an entry -/

/-- The tree of an entry whose timestamp has text `t` and whose payload has tree `j`. -/
def bodyTree (b : Body) (t : String) (j : Json) : Json :=
  .obj [("company_id", .str b.companyId.str), ("entry_id", .str b.entryId.str),
    ("kind", .str b.kind.text), ("payload", j),
    ("prev_hash", .str (String.ofList (hex b.prevHash))), ("quadrant", .str b.quadrant.text),
    ("seq", .atom (intAtom b.seq)), ("ts", .str t)]

theorem sorted_bodyDict (b : Body) : b.dict.insertionSort KeyBefore =
    [(.str "company_id", .uuid b.companyId), (.str "entry_id", .uuid b.entryId),
      (.str "kind", .str b.kind.text), (.str "payload", b.payload),
      (.str "prev_hash", .bytes b.prevHash), (.str "quadrant", .str b.quadrant.text),
      (.str "seq", .int b.seq), (.str "ts", .datetime b.ts)] := rfl

theorem filter_bodyDict (b : Body) : (b.dict.filter fun p => p.1 ≠ .str "hash") = b.dict := rfl

theorem filter_entryDict (e : Entry) :
    (e.dict.filter fun p => p.1 ≠ .str "hash") = e.toBody.dict := rfl

theorem canonicalJson_entry (e : Entry) : canonicalJson e.dict = canonicalJson e.toBody.dict := by
  rw [canonicalJson, canonicalJson, filter_entryDict, filter_bodyDict]

/-- An entry has canonical JSON exactly when its timestamp, its payload and its seq have a text. -/
theorem canonicalJson_body_iff {b : Body} {s : List Char} :
    canonicalJson b.dict = .ok s ↔ ∃ t j, isoText b.ts = .ok t ∧ encode b.payload = .ok j ∧
      checkInt b.seq = .ok () ∧ s = render (bodyTree b t j) := by
  rw [canonicalJson, filter_bodyDict]
  constructor
  · intro h
    obtain ⟨j, hj, hs⟩ := bind_eq_ok.mp h
    obtain ⟨-, hall, rfl⟩ := encode_dict_iff.mp hj
    simp only [Body.dict, List.forall_mem_cons] at hall
    obtain ⟨-, -, ⟨-, hseq⟩, ⟨-, hts⟩, -, -, ⟨-, hpayload⟩, -⟩ := hall
    obtain ⟨t, ht, htree⟩ := encode_datetime_iff.mp hts
    obtain ⟨hcheck, hint⟩ := encode_int_iff.mp hseq
    refine ⟨t, treeOf b.payload, ht, hpayload, hcheck, ?_⟩
    rw [← Except.ok.inj hs, sorted_bodyDict, bodyTree, ← htree, ← hint]
    rfl
  · rintro ⟨t, j, ht, hj, hseq, rfl⟩
    have hts : encode (.datetime b.ts) = .ok (.str t) := encode_datetime_iff.mpr ⟨t, ht, rfl⟩
    have hint : encode (.int b.seq) = .ok (.atom (intAtom b.seq)) :=
      encode_int_iff.mpr ⟨hseq, rfl⟩
    have henc : encode (.dict b.dict) = .ok (bodyTree b t j) := by
      refine encode_dict_iff.mpr ⟨rfl, ?_, ?_⟩
      · simp only [Body.dict, List.forall_mem_cons]
        exact ⟨⟨rfl, rfl⟩, ⟨rfl, rfl⟩, ⟨rfl, encode_treeOf hint⟩, ⟨rfl, encode_treeOf hts⟩,
          ⟨rfl, rfl⟩, ⟨rfl, rfl⟩, ⟨rfl, encode_treeOf hj⟩, ⟨rfl, rfl⟩, by simp⟩
      · rw [sorted_bodyDict, bodyTree, ← treeOf_eq hts, ← treeOf_eq hint, ← treeOf_eq hj]
        rfl
    rw [henc]
    rfl

/-! ### The timestamp column -/

theorem isoText_iff {t : DateTime} {s : String} : isoText t = .ok s ↔
    ∃ o u, t.utcoffset = some o ∧ t.instant o = some u ∧ s = String.ofList (isoZ u) := by
  unfold isoText
  split
  · rename_i h
    simp [h]
  · rename_i o h
    cases hu : t.instant o with
    | none => simp [h, hu]
    | some u => simp [h, hu, eq_comm]

/-- The timestamp that a reader gets. -/
def readTs (d : Dialect) (t : DateTime) : DateTime :=
  if (storeTs d t).utcoffset = none then (storeTs d t).replaceUtc else storeTs d t

/-- Postgres keeps the text of a timestamp; SQLite keeps it exactly when the offset is zero. -/
theorem isoText_readTs {d : Dialect} {t : DateTime} {s : String} (h : isoText t = .ok s) :
    ∃ s', isoText (readTs d t) = .ok s' ∧
      (s' = s ↔ (d = .sqlite → t.utcoffset = some DateTime.utc)) := by
  obtain ⟨o, u, ho, hu, rfl⟩ := isoText_iff.mp h
  cases d with
  | sqlite =>
    refine ⟨String.ofList (isoZ t.wall), isoText_iff.mpr ⟨DateTime.utc, t.wall, rfl, ?_, rfl⟩, ?_⟩
    · exact DateTime.instant_utc _
    · simp only [forall_const]
      constructor
      · intro heq
        have hwall := isoZ_injective t.wall.2 u.2 (String.ofList_injective heq)
        have hinst := DateTime.instant_eq_some.mp hu
        rw [ho]
        exact congrArg some (Subtype.ext (by simp only [DateTime.utc]; omega))
      · intro hutc
        rw [ho] at hutc
        cases hutc
        rw [DateTime.instant_utc] at hu
        cases hu
        rfl
  | postgresql =>
    have hread : readTs .postgresql t = ⟨u, some DateTime.utc⟩ := by
      simp [readTs, storeTs, ho, hu]
    refine ⟨String.ofList (isoZ u), ?_, by simp⟩
    rw [hread]
    exact isoText_iff.mpr ⟨DateTime.utc, u, rfl, DateTime.instant_utc _, rfl⟩

/-! ### Rows -/

theorem normalizeRow_stored {d : Dialect} {e : Entry} {w : Val} :
    normalizeRow { e with payload := w, ts := storeTs d e.ts } =
      { e with payload := w, ts := readTs d e.ts } := by
  unfold normalizeRow readTs
  split <;> rfl

/-- The timestamp has no offset to lose, and the keys of the payload no order to lose. -/
def HashStable (d : Dialect) (b : Body) : Prop :=
  (d = .sqlite → b.ts.utcoffset = some DateTime.utc) ∧ KeysStable b.payload

/-- A row that is read back has canonical JSON again, the same exactly when it is stable. -/
theorem canonicalJson_read {d : Dialect} {e row : Entry} {s : List Char}
    (hs : canonicalJson e.toBody.dict = .ok s) (hrow : storeRow d e = .ok row) :
    ∃ s', canonicalJson (normalizeRow row).dict = .ok s' ∧ (s' = s ↔ HashStable d e.toBody) := by
  obtain ⟨t, j, ht, hj, hseq, rfl⟩ := canonicalJson_body_iff.mp hs
  obtain ⟨w, hw, rfl⟩ := storeRow_ok hrow
  obtain ⟨t', ht', htime⟩ := @isoText_readTs d _ _ ht
  obtain ⟨henc, hkeys⟩ := encode_jsonColumn _ hj hw
  rw [normalizeRow_stored, canonicalJson_entry]
  refine ⟨_, canonicalJson_body_iff.mpr ⟨t', _, ht', henc, hseq, rfl⟩, ?_⟩
  rw [HashStable, ← htime, ← hkeys]
  constructor
  · intro h
    have htree := Json.obj.inj (render_injective h)
    simp only [List.cons.injEq, Prod.mk.injEq, Json.str.injEq, true_and, and_true] at htree
    exact htree.symm
  · rintro ⟨rfl, rfl⟩
    rfl

section
variable {sha256 : Bytes → Bytes}

/-- With a collision-free hash, the recomputed hash of a row is its stored hash exactly when the
    row is stable. -/
theorem computeEntryHash_read (hinj : Function.Injective sha256) {d : Dialect} {b : Body}
    {e row : Entry} (he : sealEntry sha256 b = .ok e) (hrow : storeRow d e = .ok row) :
    computeEntryHash sha256 (normalizeRow row).dict = .ok e.hash ↔ HashStable d b := by
  obtain ⟨rfl, s, hs, hhash⟩ := sealEntry_ok he
  obtain ⟨s', hs', hstable⟩ := canonicalJson_read hs hrow
  rw [← hstable, computeEntryHash, hs', hhash]
  constructor
  · intro h
    exact encodeUtf8_injective (hinj (Except.ok.inj h))
  · rintro rfl
    rfl

/-- A stable row is verified, whatever the hash function. -/
theorem computeEntryHash_stable {d : Dialect} {b : Body} {e row : Entry}
    (he : sealEntry sha256 b = .ok e) (hrow : storeRow d e = .ok row) (hstable : HashStable d b) :
    computeEntryHash sha256 (normalizeRow row).dict = .ok e.hash := by
  obtain ⟨rfl, s, hs, hhash⟩ := sealEntry_ok he
  obtain ⟨s', hs', hiff⟩ := canonicalJson_read hs hrow
  obtain rfl := hiff.mpr hstable
  rw [computeEntryHash, hs', hhash]
  rfl

/-! ### Writes -/

/-- The row carries the hash that the verifier recomputes from it. -/
def Recomputes (sha256 : Bytes → Bytes) (row : Entry) : Prop :=
  computeEntryHash sha256 (normalizeRow row).dict = .ok row.hash

/-- On SQLite the timestamp of the call is in UTC, and its payloads have stable keys. -/
def CallStable (d : Dialect) (c : Call) : Prop :=
  (d = .sqlite → c.ts.utcoffset = some DateTime.utc) ∧
    ∀ ps, c.payloads = .ok ps → ∀ p ∈ ps, KeysStable (.dict p)

theorem Stored.recomputes {d : Dialect} {b : Body} {row : Entry} (h : Stored sha256 d b row)
    (hstable : HashStable d b) : Recomputes sha256 row := by
  obtain ⟨e, he, hrow⟩ := h
  rw [Recomputes, (storeRow_fields hrow).2.2.2.2.2]
  exact computeEntryHash_stable he hrow hstable

theorem Stored.recomputes_iff (hinj : Function.Injective sha256) {d : Dialect} {b : Body}
    {row : Entry} (h : Stored sha256 d b row) : Recomputes sha256 row ↔ HashStable d b := by
  obtain ⟨e, he, hrow⟩ := h
  rw [Recomputes, (storeRow_fields hrow).2.2.2.2.2]
  exact computeEntryHash_read hinj he hrow

section
variable {d : Dialect} {c : Call} {n : ℕ} {prevHash : Bytes} {ep vp rp : Dict} {p e v r : Entry}
  (h : Group sha256 d c n prevHash ep vp rp p e v r)
include h

theorem Group.callStable_iff : CallStable d c ↔
    (d = .sqlite → c.ts.utcoffset = some DateTime.utc) ∧ KeysStable (.dict c.propose) ∧
      KeysStable (.dict ep) ∧ KeysStable (.dict vp) ∧ KeysStable (.dict rp) := by
  simp [CallStable, h.payloads]

/-- The rows of a stable write are verified, whatever the hash function. -/
theorem Group.recomputes (hstable : CallStable d c) : ∀ row ∈ [p, e, v, r], Recomputes sha256 row := by
  obtain ⟨hts, hp, he, hv, hr⟩ := h.callStable_iff.mp hstable
  simp only [List.forall_mem_cons]
  exact ⟨h.propose.recomputes ⟨hts, hp⟩, h.execute.recomputes ⟨hts, he⟩,
    h.verify.recomputes ⟨hts, hv⟩, h.resolve.recomputes ⟨hts, hr⟩, by simp⟩

theorem Group.recomputes_iff (hinj : Function.Injective sha256) :
    (∀ row ∈ [p, e, v, r], Recomputes sha256 row) ↔ CallStable d c := by
  refine ⟨fun hall => ?_, h.recomputes⟩
  simp only [List.forall_mem_cons] at hall
  obtain ⟨hp, he, hv, hr, -⟩ := hall
  have hp := (h.propose.recomputes_iff hinj).mp hp
  have he := (h.execute.recomputes_iff hinj).mp he
  have hv := (h.verify.recomputes_iff hinj).mp hv
  have hr := (h.resolve.recomputes_iff hinj).mp hr
  exact h.callStable_iff.mpr ⟨hp.1, hp.2, he.2, hv.2, hr.2⟩

end

end

end Ledger
