import Wormbase.Ledger.Serialise

/-! Calls that return.

    Texts, truth values, numbers that have a text, and lists and dicts of these have canonical JSON, and every
    column keeps them as they are. -/

namespace Ledger
open Py

/-! ### Payloads -/

structure Settled (v : Val) : Prop where
  encodes : ∃ j, encode v = .ok j
  column : jsonColumn v = .ok v
  standard : standardJson v = true

theorem settled_str (s : String) : Settled (.str s) := ⟨⟨_, rfl⟩, rfl, rfl⟩

theorem settled_none : Settled .none := ⟨⟨_, rfl⟩, rfl, rfl⟩

theorem settled_bool (b : Bool) : Settled (.bool b) := ⟨⟨_, rfl⟩, rfl, rfl⟩

theorem settled_int {i : ℤ} (h : checkInt i = .ok ()) : Settled (.int i) :=
  ⟨⟨_, encode_int_iff.mpr ⟨h, rfl⟩⟩, by rw [jsonColumn, h]; rfl, rfl⟩

theorem settled_list {vs : List Val} (h : ∀ v ∈ vs, Settled v) : Settled (.list vs) := by
  have hlist : (∃ js, encodeList vs = .ok js) ∧ columnList vs = .ok vs ∧ standardList vs = true := by
    induction vs with
    | nil => exact ⟨⟨_, rfl⟩, rfl, rfl⟩
    | cons v vs ih =>
      obtain ⟨⟨⟨j, hj⟩, hcolumn, hstandard⟩, hrest⟩ := List.forall_mem_cons.mp h
      obtain ⟨⟨js, hjs⟩, hcols, hstds⟩ := ih hrest
      refine ⟨⟨j :: js, ?_⟩, ?_, ?_⟩
      · rw [encodeList, hj, hjs]
        rfl
      · rw [columnList, hcolumn, hcols]
        rfl
      · rw [standardList, hstandard, hstds]
        rfl
  obtain ⟨⟨js, hjs⟩, hcols, hstds⟩ := hlist
  refine ⟨⟨.arr js, ?_⟩, ?_, hstds⟩
  · rw [encode, hjs]
    rfl
  · rw [jsonColumn, hcols]
    rfl

theorem columnItems_settled : ∀ {D : List (String × Val)}, (∀ p ∈ D, Settled p.2) →
    columnItems (D.map strItem) = .ok D ∧ standardItems (D.map strItem) = true
  | [], _ => ⟨rfl, rfl⟩
  | (name, v) :: D, h => by
    obtain ⟨hv, hD⟩ := List.forall_mem_cons.mp h
    obtain ⟨hcol, hstd⟩ := columnItems_settled hD
    refine ⟨?_, ?_⟩
    · rw [List.map_cons, strItem, columnItems, hv.column, hcol]
      rfl
    · rw [List.map_cons, strItem, standardItems, hv.standard, hstd]
      rfl

/-- A dict of settled values under texts, none of them twice. -/
theorem settled_dict {D : List (String × Val)} (hkeys : (D.map Prod.fst).Nodup) (h : ∀ p ∈ D, Settled p.2) :
    Settled (.dict (D.map strItem)) := by
  obtain ⟨hcol, hstd⟩ := columnItems_settled h
  refine ⟨⟨_, encode_strItems fun p hp => ?_⟩, ?_, hstd⟩
  · obtain ⟨j, hj⟩ := (h p hp).encodes
    exact encode_treeOf hj
  · obtain ⟨D', hD', -, -, hsame⟩ := ofPairs_spec D
    obtain rfl := hsame hkeys
    rw [jsonColumn, hcol, ← hD']
    rfl

theorem settled_entry {D : List (String × Val)} {kvs : Dict} (hkvs : kvs = D.map strItem)
    (hkeys : (D.map Prod.fst).Nodup) (h : ∀ p ∈ D, Settled p.2) : Settled (.dict kvs) :=
  hkvs ▸ settled_dict hkeys h

theorem Settled.storable {payload : Dict} (h : Settled (.dict payload)) (d : Dialect) :
    storePayload d (.dict payload) = .ok (.dict payload) := by
  rw [storePayload, h.column]
  simp [h.standard, bind, Except.bind, pure, Except.pure]

/-! ### Writes -/

section
variable {sha256 : Bytes → Bytes} {d : Dialect} {rows : List Entry} {c : Call} {ep vp rp : Dict}

/-- The timestamp of a call and the next seqs of its company have texts, and its ids are new. -/
structure Room (rows : List Entry) (c : Call) : Prop where
  ts : ∃ t, isoText c.ts = .ok t
  seqs : ∀ k ≤ (ofCompany rows c.companyId).length + 4, checkInt k = .ok ()
  ids : FreshIds rows c

/-- What a call has to be for the ledger to take it: its callbacks give payloads that pass, these have canonical
    JSON, the columns take them, and the ids are new. -/
structure Writable (d : Dialect) (rows : List Entry) (c : Call) (ep vp rp : Dict) : Prop where
  payloads : c.payloads = .ok [c.propose, ep, vp, rp]
  passed : Call.passed vp = true
  propose : Hashable c ((ofCompany rows c.companyId).length + 1) c.propose
  execute : Hashable c ((ofCompany rows c.companyId).length + 2) ep
  verify : Hashable c ((ofCompany rows c.companyId).length + 3) vp
  resolve : Hashable c ((ofCompany rows c.companyId).length + 4) rp
  storable : Storable d [c.propose, ep, vp, rp]
  ids : FreshIds rows c

theorem payloads_parts (h : c.payloads = .ok [c.propose, ep, vp, rp]) :
    c.execPayload = .ok ep ∧ c.verifyPayload ep = .ok vp ∧ c.resolvePayload vp = .ok rp := by
  obtain ⟨ep', hep, hrest⟩ := bind_eq_ok.mp h
  obtain ⟨vp', hvp, hrest⟩ := bind_eq_ok.mp hrest
  obtain ⟨rp', hrp, hrest⟩ := bind_eq_ok.mp hrest
  have hlist := Except.ok.inj hrest
  simp only [List.cons.injEq, and_true, true_and] at hlist
  obtain ⟨rfl, rfl, rfl⟩ := hlist
  exact ⟨hep, hvp, hrp⟩

theorem Writable.returns (hinj : Function.Injective sha256) (hsound : Sound sha256 d rows) (h : Writable d rows c ep vp rp) :
    ∃ res rows', write sha256 d rows c = (.ok res, rows') := by
  obtain ⟨hep, hvp, hrp⟩ := payloads_parts h.payloads
  obtain ⟨es, hes, hrel⟩ := hsound c.companyId
  have hlen : (ofCompany rows c.companyId).length = es.length := hrel.length_eq.symm
  obtain ⟨p, e, v, r, hb⟩ := @built_of_hashable sha256 c es.length ep vp rp (hlen ▸ h.propose) hep (hlen ▸ h.execute) hvp
    (hlen ▸ h.verify) h.passed hrp (hlen ▸ h.resolve) (tipHash es)
  obtain ⟨new, hw, -⟩ := write_of_built hinj hes hrel h.ids hb h.storable
  exact ⟨_, _, hw⟩

/-- Rows that join a table have ids that the table and the rows before them do not have. -/
theorem fresh_of_addRows : ∀ {new rows rows' : List Entry}, new.foldlM addRow rows = .ok rows' →
    (new.map (·.entryId)).Nodup ∧ ∀ row ∈ rows, row.entryId ∉ new.map (·.entryId)
  | [], _, _, _ => by simp
  | row :: new, rows, rows', h => by
    rw [List.foldlM_cons] at h
    obtain ⟨rows₁, hrow, h⟩ := bind_eq_ok.mp h
    obtain ⟨hfree, rfl⟩ := addRow_ok hrow
    obtain ⟨hnodup, hnew⟩ := fresh_of_addRows h
    have hne : ∀ other ∈ rows, other.entryId ≠ row.entryId := by
      intro other hother heq
      have := hfree other hother
      simp [conflicts, heq] at this
    refine ⟨List.nodup_cons.mpr ⟨hnew row (by simp), hnodup⟩, ?_⟩
    intro other hother
    rw [List.map_cons, List.mem_cons, not_or]
    exact ⟨hne other hother, hnew other (List.mem_append_left _ hother)⟩

theorem writable_of_returns (hsound : Sound sha256 d rows) {res : WriteResult} {rows' : List Entry}
    (h : write sha256 d rows c = (.ok res, rows')) : ∃ ep vp rp, Writable d rows c ep vp rp := by
  obtain ⟨es, hes, hrel⟩ := hsound c.companyId
  have htail : (tail rows c.companyId).1 = (ofCompany rows c.companyId).length := by
    rw [tail_of_storedAs hes.toContiguous hrel, hrel.length_eq]
  rcases @write_outcome sha256 d rows c with ⟨ep, vp, rp, p, e, v, r, new, hb, hnew, hw⟩ | ⟨x, hw⟩
  · have hids : FreshIds rows c := by
      rw [write_of_stored hb hnew] at hw
      split at hw
      · rename_i rows₁ hadd
        obtain ⟨p', e', v', r', rfl, hg⟩ := hb.group hnew
        obtain ⟨hnodup, hunused⟩ := fresh_of_addRows hadd
        rw [hg.ids] at hnodup hunused
        exact ⟨hnodup, hunused⟩
      · cases (Prod.mk.inj hw).1
    refine ⟨ep, vp, rp, hb.payloads, hb.passed, ?_, ?_, ?_, ?_, hb.storable hnew, hids⟩ <;> rw [← htail]
    · exact sealEntry_isOk hb.propose
    · exact sealEntry_isOk hb.execute
    · exact sealEntry_isOk hb.verify
    · exact sealEntry_isOk hb.resolve
  · cases (Prod.mk.inj (h.symm.trans hw)).1

/-- The ledger takes what is writable. -/
theorem write_returns_iff (hinj : Function.Injective sha256) (hsound : Sound sha256 d rows) :
    (∃ res rows', write sha256 d rows c = (.ok res, rows')) ↔ ∃ ep vp rp, Writable d rows c ep vp rp :=
  ⟨fun ⟨_, _, h⟩ => writable_of_returns hsound h, fun ⟨_, _, _, h⟩ => h.returns hinj hsound⟩

/-- A call with settled payloads whose verify step passes can be written. -/
theorem Room.writable (hroom : Room rows c) (hps : c.payloads = .ok [c.propose, ep, vp, rp])
    (hpass : Call.passed vp = true) (hsettled : ∀ payload ∈ [c.propose, ep, vp, rp], Settled (.dict payload)) :
    Writable d rows c ep vp rp := by
  obtain ⟨t, ht⟩ := hroom.ts
  have hashable : ∀ payload ∈ [c.propose, ep, vp, rp], ∀ k ≤ 4,
      Hashable c ((ofCompany rows c.companyId).length + k) payload := by
    intro payload hpayload k hk
    obtain ⟨j, hj⟩ := (hsettled payload hpayload).encodes
    exact ⟨t, j, ht, hj, hroom.seqs _ (by omega)⟩
  exact ⟨hps, hpass, hashable _ (by simp) 1 (by omega), hashable _ (by simp) 2 (by omega), hashable _ (by simp) 3 (by omega),
    hashable _ (by simp) 4 (by omega), fun payload hpayload => ⟨_, (hsettled payload hpayload).storable d⟩, hroom.ids⟩

/-- A call with settled payloads whose verify step passes is written. -/
theorem settled_write (hinj : Function.Injective sha256) (hsound : Sound sha256 d rows) (hroom : Room rows c)
    (hps : c.payloads = .ok [c.propose, ep, vp, rp]) (hpass : Call.passed vp = true)
    (hsettled : ∀ payload ∈ [c.propose, ep, vp, rp], Settled (.dict payload)) :
    ∃ res p e v r, write sha256 d rows c = (.ok res, rows ++ [p, e, v, r]) ∧
      Group sha256 d c (tail rows c.companyId).1 (tail rows c.companyId).2 ep vp rp p e v r := by
  have hwritable := @Room.writable d rows c ep vp rp hroom hps hpass hsettled
  obtain ⟨res', rows', hw⟩ := hwritable.returns hinj hsound
  rcases @write_cases sha256 d rows c with ⟨res, ep, vp, rp, p, e, v, r, hg, hw'⟩ | ⟨x, hw'⟩
  · have hsame := Except.ok.inj (hg.payloads.symm.trans hps)
    simp only [List.cons.injEq, and_true, true_and] at hsame
    obtain ⟨rfl, rfl, rfl⟩ := hsame
    exact ⟨res, p, e, v, r, hw', hg⟩
  · cases (Prod.mk.inj (hw.symm.trans hw')).1

end

end Ledger
