import Wormbase.Ledger.Commit
import Wormbase.Projection.Entry

/-! The rows that a write leaves, as a reader of the ledger gets them. -/

namespace Projection
open Py

/-- What the ledger adds to the four payloads of a write: ids, the timestamp that is read back and
    hashes. -/
structure Stamp where
  proposeId : UUID
  executeId : UUID
  verifyId : UUID
  resolveId : UUID
  ts : DateTime
  hash : Fin 4 → Bytes

/-- A stamp to compute with. -/
def instantStamp : Stamp where
  proposeId := ⟨101⟩
  executeId := ⟨102⟩
  verifyId := ⟨103⟩
  resolveId := ⟨104⟩
  ts := ⟨⟨0, maxMicros_pos⟩, some DateTime.utc⟩
  hash := fun _ => []

/-- Four rows of a company, the first after `n` others. -/
def stampedRows (company : UUID) (n : ℕ) (st : Stamp) (propose execute verify resolve : Dict) :
    List LedgerRow :=
  let row := fun (k : Fin 4) (id : UUID) (kind : String) (payload : Dict) =>
    (⟨id, company, n + k + 1, st.ts, kind, .dict payload, st.hash k⟩ : LedgerRow)
  [row 0 st.proposeId "propose" propose, row 1 st.executeId "execute" execute,
    row 2 st.verifyId "verify" verify, row 3 st.resolveId "resolve" resolve]

/-- What a reader gets of a row that has been stored. -/
def LedgerRow.read (e : Ledger.Entry) : LedgerRow := LedgerRow.ofEntry (Ledger.normalizeRow e)

variable {sha256 : Bytes → Bytes} {d : Ledger.Dialect}

/-- A stored row is read with the payload that its column gives back. -/
theorem read_stored {b : Ledger.Body} {row : Ledger.Entry} (h : Ledger.Stored sha256 d b row) {w : Val}
    (hback : jsonColumn b.payload = .ok w) :
    LedgerRow.read row =
      ⟨b.entryId, b.companyId, b.seq, Ledger.readTs d b.ts, b.kind.text, w, row.hash⟩ := by
  obtain ⟨e, he, hrow⟩ := h
  obtain ⟨rfl, -⟩ := Ledger.sealEntry_ok he
  obtain ⟨w', hw, rfl⟩ := Ledger.storeRow_ok hrow
  obtain rfl := Except.ok.inj (hback.symm.trans hw)
  rw [LedgerRow.read, Ledger.normalizeRow_stored]
  rfl

/-- A write that returns appends the four payloads of its call, as the column gives them back. -/
theorem write_rows_back {c : Ledger.Call} {rows rows' : List Ledger.Entry} {res : Ledger.WriteResult}
    (h : Ledger.write sha256 d rows c = (.ok res, rows')) {propose execute verify resolve : Dict}
    (hps : c.payloads = .ok [propose, execute, verify, resolve]) {propose' execute' verify' resolve' : Dict}
    (hpropose : ∀ w, jsonColumn (.dict propose) = .ok w → w = .dict propose')
    (hexecute : ∀ w, jsonColumn (.dict execute) = .ok w → w = .dict execute')
    (hverify : ∀ w, jsonColumn (.dict verify) = .ok w → w = .dict verify')
    (hresolve : ∀ w, jsonColumn (.dict resolve) = .ok w → w = .dict resolve') :
    ∃ new hash, rows' = rows ++ new ∧ new.map LedgerRow.read = stampedRows c.companyId
      (Ledger.tail rows c.companyId).1
      ⟨c.proposeId, c.executeId, c.verifyId, c.resolveId, Ledger.readTs d c.ts, hash⟩
      propose' execute' verify' resolve' := by
  rcases @Ledger.write_cases sha256 d rows c with ⟨res', ep, vp, rp, p, e, v, r, hg, hw⟩ | ⟨x, hx⟩
  · obtain ⟨-, rfl⟩ := Prod.mk.inj (h.symm.trans hw)
    have hlist := Except.ok.inj (hps.symm.trans hg.payloads)
    simp only [List.cons.injEq, and_true] at hlist
    obtain ⟨rfl, rfl, rfl, rfl⟩ := hlist
    have hp := read_stored hg.propose hg.propose.payload
    have he := read_stored hg.execute hg.execute.payload
    have hv := read_stored hg.verify hg.verify.payload
    have hr := read_stored hg.resolve hg.resolve.payload
    rw [hpropose _ hg.propose.payload] at hp
    rw [hexecute _ hg.execute.payload] at he
    rw [hverify _ hg.verify.payload] at hv
    rw [hresolve _ hg.resolve.payload] at hr
    refine ⟨[p, e, v, r], fun k => ([p, e, v, r][k]).hash, rfl, ?_⟩
    simp only [List.map_cons, List.map_nil, hp, he, hv, hr]
    rfl
  · cases h.symm.trans hx

/-- A write that returns appends the four payloads of its call, when they survive the column. -/
theorem write_rows {c : Ledger.Call} {rows rows' : List Ledger.Entry} {res : Ledger.WriteResult}
    (h : Ledger.write sha256 d rows c = (.ok res, rows')) {propose execute verify resolve : Dict}
    (hps : c.payloads = .ok [propose, execute, verify, resolve])
    (hback : ∀ p ∈ [propose, execute, verify, resolve], jsonColumn (.dict p) = .ok (.dict p)) :
    ∃ new hash, rows' = rows ++ new ∧ new.map LedgerRow.read = stampedRows c.companyId
      (Ledger.tail rows c.companyId).1
      ⟨c.proposeId, c.executeId, c.verifyId, c.resolveId, Ledger.readTs d c.ts, hash⟩
      propose execute verify resolve := by
  simp only [List.forall_mem_cons] at hback
  obtain ⟨hp, he, hv, hr, -⟩ := hback
  exact write_rows_back h hps (fun _ hw => (Except.ok.inj (hp.symm.trans hw)).symm)
    (fun _ hw => (Except.ok.inj (he.symm.trans hw)).symm) (fun _ hw => (Except.ok.inj (hv.symm.trans hw)).symm)
    fun _ hw => (Except.ok.inj (hr.symm.trans hw)).symm

end Projection
