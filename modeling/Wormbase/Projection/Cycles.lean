import Wormbase.Projection.Written
import Wormbase.Py.UuidText
import Mathlib.Data.List.Nodup
import Mathlib.Data.List.Range

/-! Ledgers that are made of write cycles, whatever is in the bodies of their payloads.

    The ledger puts the id of the row before into each payload and then the body over it, so a body that
    names the field itself has the last word. -/

namespace Projection
open Py

/-- `{name: str(id), **body}`. -/
def linked (name : String) (id : UUID) (body : Dict) : Dict := Dict.update [(.str name, .str id.str)] body

theorem get?_set_ne {name name' : String} (hne : name' ≠ name) (v : Val) : ∀ d : Dict,
    Dict.get? (d.set name' v) name = Dict.get? d name
  | [] => by simp [Dict.set, Dict.get?, hne]
  | (k, w) :: d => by
    have ih := get?_set_ne hne v d
    simp only [Dict.get?] at ih
    by_cases hk : k = .str name'
    · simp [Dict.set, Dict.get?, hk, hne]
    · by_cases hk' : k = .str name
      · simp [Dict.set, Dict.get?, hk', Ne.symm hne]
      · simp [Dict.set, Dict.get?, hk, hk', ih]

/-- A body that has no value for a field leaves it as it was. -/
theorem get?_update {name : String} : ∀ {m base : Dict}, m.get? name = none →
    Dict.get? (base.update m) name = Dict.get? base name
  | [], _, _ => by simp only [Dict.update]
  | (k, v) :: m, base, h => by
    have hk : k ≠ .str name := by
      rintro rfl
      simp [Dict.get?] at h
    have hm : Dict.get? m name = none := by simpa [Dict.get?, hk] using h
    have hother : Dict.get? (base ++ [(k, v)]) name = Dict.get? base name := by simp [Dict.get?, hk]
    cases k with
    | str name' =>
      have hne : name' ≠ name := fun heq => hk (congrArg Key.str heq)
      rw [Dict.update, get?_update hm, get?_set_ne hne]
    | _ =>
      simp only [Dict.update]
      rw [get?_update hm, hother]

theorem get_linked {name : String} {id : UUID} {body : Dict} (h : body.get? name = none) :
    (linked name id body).get name = .str id.str := by
  rw [Dict.get, linked, get?_update h]
  simp [Dict.get?]

/-- One write: what the ledger stamps and the bodies of the four payloads. -/
structure Cycle where
  stamp : Stamp
  propose : Dict
  execute : Dict
  verify : Dict
  resolve : Dict

namespace Cycle
variable (c : Cycle)

def ids : List UUID := [c.stamp.proposeId, c.stamp.executeId, c.stamp.verifyId, c.stamp.resolveId]

def executePayload : Dict := linked "propose_entry_id" c.stamp.proposeId c.execute
def verifyPayload : Dict := linked "execute_entry_id" c.stamp.executeId c.verify
def resolvePayload : Dict := linked "verify_entry_id" c.stamp.verifyId c.resolve

def payloads : List Dict := [c.propose, c.executePayload, c.verifyPayload, c.resolvePayload]

/-- The rows of the cycle after `n` others. -/
def rows (company : UUID) (n : ℕ) : List LedgerRow :=
  stampedRows company n c.stamp c.propose c.executePayload c.verifyPayload c.resolvePayload

end Cycle

/-- A write whose callbacks return the bodies leaves the rows of the cycle. -/
theorem Cycle.write_rows {sha256 : Bytes → Bytes} {d : Ledger.Dialect} {call : Ledger.Call}
    {rows rows' : List Ledger.Entry} {res : Ledger.WriteResult} {execute verify resolve : Dict}
    (h : Ledger.write sha256 d rows call = (.ok res, rows')) (hexecute : call.executeFn = .ok (.dict execute))
    (hverify : call.verifyFn (linked "propose_entry_id" call.proposeId execute) = .ok (.dict verify))
    (hresolve : call.resolveFn (linked "execute_entry_id" call.executeId verify) = .ok (.dict resolve))
    (hback : ∀ p ∈ [call.propose, linked "propose_entry_id" call.proposeId execute,
      linked "execute_entry_id" call.executeId verify, linked "verify_entry_id" call.verifyId resolve],
      jsonColumn (.dict p) = .ok (.dict p)) :
    ∃ (new : List Ledger.Entry) (c : Cycle), rows' = rows ++ new ∧ c.ids = call.ids ∧
      new.map LedgerRow.read = c.rows call.companyId (Ledger.tail rows call.companyId).1 := by
  have hps : call.payloads = .ok [call.propose, linked "propose_entry_id" call.proposeId execute,
      linked "execute_entry_id" call.executeId verify, linked "verify_entry_id" call.verifyId resolve] := by
    simp only [Ledger.Call.payloads, Ledger.Call.execPayload, Ledger.Call.verifyPayload,
      Ledger.Call.resolvePayload, hexecute, bind, Except.bind, Ledger.spread]
    rw [linked] at hverify hresolve
    simp only [hverify, hresolve]
    rfl
  obtain ⟨new, hash, hrows, hread⟩ := Projection.write_rows h hps hback
  exact ⟨new, ⟨⟨call.proposeId, call.executeId, call.verifyId, call.resolveId, Ledger.readTs d call.ts, hash⟩,
    call.propose, execute, verify, resolve⟩, hrows, rfl, hread⟩

/-! ### A ledger of cycles -/

/-- The cycles of a company from the `n`-th row on, each with its rows. -/
def blocks (company : UUID) : ℕ → List Cycle → List (Cycle × List LedgerRow)
  | _, [] => []
  | n, c :: cs => (c, c.rows company n) :: blocks company (n + 4) cs

/-- The rows of one company: cycles whose ids all differ. -/
structure CycleLedger where
  company : UUID
  cycles : List Cycle
  nodup : (cycles.flatMap Cycle.ids).Nodup

namespace CycleLedger

def blocks (l : CycleLedger) : List (Cycle × List LedgerRow) := Projection.blocks l.company 0 l.cycles

def rows (l : CycleLedger) : List LedgerRow := l.blocks.flatMap Prod.snd

end CycleLedger

variable {company : UUID} {n : ℕ} {c : Cycle} {cs : List Cycle}

/-- A row of a company, up to its number and its hash. -/
structure LedgerRow.Is (r : LedgerRow) (company id : UUID) (ts : DateTime) (kind : String) (payload : Dict) : Prop where
  entryId : r.entryId = id
  companyId : r.companyId = company
  ts : r.ts = ts
  kind : r.kind = kind
  payload : r.payload = .dict payload

/-- The four rows of a cycle. -/
theorem Cycle.rows_eq (c : Cycle) (company : UUID) (n : ℕ) : ∃ p e v r, c.rows company n = [p, e, v, r] ∧
    p.Is company c.stamp.proposeId c.stamp.ts "propose" c.propose ∧
    e.Is company c.stamp.executeId c.stamp.ts "execute" c.executePayload ∧
    v.Is company c.stamp.verifyId c.stamp.ts "verify" c.verifyPayload ∧
    r.Is company c.stamp.resolveId c.stamp.ts "resolve" c.resolvePayload :=
  ⟨_, _, _, _, rfl, ⟨rfl, rfl, rfl, rfl, rfl⟩, ⟨rfl, rfl, rfl, rfl, rfl⟩, ⟨rfl, rfl, rfl, rfl, rfl⟩,
    ⟨rfl, rfl, rfl, rfl, rfl⟩⟩

theorem Cycle.rows_ids : (c.rows company n).map LedgerRow.entryId = c.ids := rfl

theorem Cycle.rows_seqs : (c.rows company n).map LedgerRow.seq = List.range' (n + 1) 4 := rfl

theorem mem_blocks {b : Cycle × List LedgerRow} (h : b ∈ blocks company n cs) :
    b.1 ∈ cs ∧ ∃ k, b.2 = b.1.rows company k := by
  induction cs generalizing n with
  | nil => exact nomatch h
  | cons c cs ih =>
    rcases List.mem_cons.mp h with rfl | h
    · exact ⟨List.mem_cons_self, n, rfl⟩
    · obtain ⟨hmem, hrows⟩ := ih h
      exact ⟨List.mem_cons_of_mem c hmem, hrows⟩

theorem exists_block (h : c ∈ cs) : ∃ k, (c, c.rows company k) ∈ blocks company n cs := by
  induction cs generalizing n with
  | nil => exact nomatch h
  | cons d cs ih =>
    rcases List.mem_cons.mp h with rfl | h
    · exact ⟨n, List.mem_cons_self⟩
    · obtain ⟨k, hk⟩ := ih h
      exact ⟨k, List.mem_cons_of_mem _ hk⟩

theorem blocks_ids : ((blocks company n cs).flatMap Prod.snd).map LedgerRow.entryId = cs.flatMap Cycle.ids := by
  induction cs generalizing n with
  | nil => rfl
  | cons c cs ih => rw [blocks, List.flatMap_cons, List.map_append, ih, List.flatMap_cons, Cycle.rows_ids]

theorem blocks_seqs : ((blocks company n cs).flatMap Prod.snd).map LedgerRow.seq =
    List.range' (n + 1) (4 * cs.length) := by
  induction cs generalizing n with
  | nil => rfl
  | cons c cs ih =>
    rw [blocks, List.flatMap_cons, List.map_append, ih, Cycle.rows_seqs, List.length_cons,
      show n + 4 + 1 = n + 1 + 4 by omega, show 4 * (cs.length + 1) = 4 + 4 * cs.length by omega]
    simp [List.range'_append_1]

namespace CycleLedger
variable {l : CycleLedger} {r : LedgerRow} {b b' : Cycle × List LedgerRow}

theorem nodup_ids : (l.rows.map LedgerRow.entryId).Nodup := by
  rw [rows, blocks, blocks_ids]
  exact l.nodup

theorem seqs : l.rows.map LedgerRow.seq = List.range' 1 (4 * l.cycles.length) := blocks_seqs

theorem nodup_seqs : (l.rows.map LedgerRow.seq).Nodup := by
  rw [seqs]
  exact List.nodup_range'

theorem mem_rows : r ∈ l.rows ↔ ∃ b ∈ l.blocks, r ∈ b.2 := List.mem_flatMap

theorem block_eq (hb : b ∈ l.blocks) (hb' : b' ∈ l.blocks) (hr : r ∈ b.2) (hr' : r ∈ b'.2) : b = b' := by
  by_contra hne
  have hnodup := (List.nodup_flatMap.mp (List.Nodup.of_map _ (nodup_ids (l := l)))).2
  have hsymm : Std.Symm fun b b' : Cycle × List LedgerRow => List.Disjoint b.2 b'.2 := ⟨fun _ _ h _ hr hr' => h hr' hr⟩
  exact List.Pairwise.forall hnodup hb hb' hne hr hr'

end CycleLedger

end Projection
