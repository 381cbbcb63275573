import Wormbase.Ledger.Commit

/-! `InMemoryLedger.write` against the session of the database path.

    The in-memory write runs the same four steps on a Python list that no transaction guards: the only
    undo is the `del rows[-3:]` of a failed verify step. -/

namespace Ledger
open Py

section
variable (sha256 : Bytes → Bytes)

/-- `InMemoryLedger.write` on the entries of the company: the result and the entries it leaves. -/
def memWrite (rows : List Entry) (c : Call) : Except Err WriteResult × List Entry :=
  let seq := rows.getLast?.elim 0 (·.seq)
  let prevHash := rows.getLast?.elim genesisPrevHash (·.hash)
  match sealEntry sha256 (c.body c.proposeId (seq + 1) prevHash .propose c.propose) with
  | .error x => (.error x, rows)
  | .ok p =>
  let rows := rows ++ [p]
  match c.execPayload with
  | .error x => (.error x, rows)
  | .ok execPayload =>
  match sealEntry sha256 (c.body c.executeId (seq + 2) p.hash .execute execPayload) with
  | .error x => (.error x, rows)
  | .ok e =>
  let rows := rows ++ [e]
  match c.verifyPayload execPayload with
  | .error x => (.error x, rows)
  | .ok verifyPayload =>
  match sealEntry sha256 (c.body c.verifyId (seq + 3) e.hash .verify verifyPayload) with
  | .error x => (.error x, rows)
  | .ok v =>
  let rows := rows ++ [v]
  if !Call.passed verifyPayload then (.error verifyFailed, rows.take (rows.length - 3))
  else
  match c.resolvePayload verifyPayload with
  | .error x => (.error x, rows)
  | .ok resolvePayload =>
  match sealEntry sha256 (c.body c.resolveId (seq + 4) v.hash .resolve resolvePayload) with
  | .error x => (.error x, rows)
  | .ok r =>
    (.ok ⟨(p.entryId, e.entryId, v.entryId, r.entryId), (p.hash, e.hash, v.hash, r.hash)⟩,
      rows ++ [r])

end

section
variable {sha256 : Bytes → Bytes}

/-! ### When a write is all or nothing -/

/-- The proposal has no canonical JSON; or `execute_fn` and `verify_fn` return mappings that have it
    and then the verify step has not passed, or `resolve_fn` returns such a mapping and the four
    payloads satisfy `extra`. -/
def Clean (extra : List Dict → Prop) (c : Call) (n : ℕ) : Prop :=
  ¬ Hashable c (n + 1) c.propose ∨
  ∃ ep vp, c.execPayload = .ok ep ∧ Hashable c (n + 2) ep ∧
    c.verifyPayload ep = .ok vp ∧ Hashable c (n + 3) vp ∧
    (Call.passed vp = false ∨
      ∃ rp, c.resolvePayload vp = .ok rp ∧ Hashable c (n + 4) rp ∧ extra [c.propose, ep, vp, rp])

/-- What a write can leave. -/
inductive MemOutcome (sha256 : Bytes → Bytes) (c : Call) (rows : List Entry) :
    Except Err WriteResult × List Entry → Prop
  | unhashable {x : Err} (h : ¬ Hashable c (rows.length + 1) c.propose) :
      MemOutcome sha256 c rows (.error x, rows)
  | partly {x : Err} {e : Entry} {new : List Entry}
      (hchain : SealedChain sha256 c.companyId (rows ++ e :: new))
      (h : ∀ extra, ¬ Clean extra c rows.length) :
      MemOutcome sha256 c rows (.error x, rows ++ e :: new)
  | notPassed {x : Err} {ep vp : Dict} (hep : c.execPayload = .ok ep)
      (he : Hashable c (rows.length + 2) ep) (hvp : c.verifyPayload ep = .ok vp)
      (hv : Hashable c (rows.length + 3) vp) (h : Call.passed vp = false) :
      MemOutcome sha256 c rows (.error x, rows)
  | returned {ep vp rp : Dict} {p e v r : Entry}
      (h : Built sha256 c rows.length (tipHash rows) ep vp rp p e v r) :
      MemOutcome sha256 c rows (.ok (resultOf p e v r), rows ++ [p, e, v, r])

section
variable {extra : List Dict → Prop} {c : Call} {n : ℕ} {ep vp : Dict} (h : Clean extra c n)
  (hp : Hashable c (n + 1) c.propose)
include h hp

/-- A call with a hashable proposal is clean only through its callbacks. -/
theorem Clean.execute : ∃ ep, c.execPayload = .ok ep := by
  obtain ⟨ep, vp, hep, -⟩ := h.resolve_left fun hn => hn hp
  exact ⟨ep, hep⟩

theorem Clean.verify (hep : c.execPayload = .ok ep) :
    Hashable c (n + 2) ep ∧ ∃ vp, c.verifyPayload ep = .ok vp := by
  obtain ⟨ep', vp, hep', he, hvp, -⟩ := h.resolve_left fun hn => hn hp
  obtain rfl := Except.ok.inj (hep.symm.trans hep')
  exact ⟨he, vp, hvp⟩

theorem Clean.resolve (hep : c.execPayload = .ok ep) (hvp : c.verifyPayload ep = .ok vp) :
    Hashable c (n + 3) vp ∧ (Call.passed vp = true → ∃ rp, c.resolvePayload vp = .ok rp ∧
      Hashable c (n + 4) rp ∧ extra [c.propose, ep, vp, rp]) := by
  obtain ⟨ep', vp', hep', -, hvp', hv, hlast⟩ := h.resolve_left fun hn => hn hp
  obtain rfl := Except.ok.inj (hep.symm.trans hep')
  obtain rfl := Except.ok.inj (hvp.symm.trans hvp')
  exact ⟨hv, fun hpass => hlast.resolve_left (by simp [hpass])⟩

end

theorem memWrite_outcome {c : Call} {rows : List Entry}
    (hrows : SealedChain sha256 c.companyId rows) :
    MemOutcome sha256 c rows (memWrite sha256 rows c) := by
  simp only [memWrite, hrows.last.1, hrows.last.2]
  cases hp : sealEntry sha256 (c.body c.proposeId (rows.length + 1) (tipHash rows) .propose
    c.propose) with
  | error x => exact .unhashable (sealEntry_error hp)
  | ok p =>
  have hp' := sealEntry_isOk hp
  have hchain := hrows.concat hp rfl rfl rfl
  simp only
  -- from here on a failure leaves at least the proposal behind
  cases hep : c.execPayload with
  | error x =>
    refine .partly hchain fun extra hclean => ?_
    obtain ⟨ep, h⟩ := hclean.execute hp'
    cases hep.symm.trans h
  | ok ep =>
  simp only
  cases he : sealEntry sha256 (c.body c.executeId (rows.length + 2) p.hash .execute ep) with
  | error x => exact .partly hchain fun extra hclean => sealEntry_error he (hclean.verify hp' hep).1
  | ok e =>
  have hchain := hchain.concat he rfl (by simp [Call.body]) (tipHash_concat ..).symm
  rw [List.append_assoc] at hchain
  simp only
  cases hvp : c.verifyPayload ep with
  | error x =>
    rw [List.append_assoc]
    refine .partly hchain fun extra hclean => ?_
    obtain ⟨-, vp, h⟩ := hclean.verify hp' hep
    cases hvp.symm.trans h
  | ok vp =>
  simp only
  cases hv : sealEntry sha256 (c.body c.verifyId (rows.length + 3) e.hash .verify vp) with
  | error x =>
    rw [List.append_assoc]
    exact .partly hchain fun extra hclean => sealEntry_error hv (hclean.resolve hp' hep hvp).1
  | ok v =>
  have hchain := hchain.concat hv rfl (by simp [Call.body])
    (by rw [← List.append_assoc, tipHash_concat]; rfl)
  rw [List.append_assoc] at hchain
  simp only
  cases hpass : Call.passed vp with
  | false =>
    have htake : (rows ++ [p] ++ [e] ++ [v]).take ((rows ++ [p] ++ [e] ++ [v]).length - 3) = rows := by
      simp
    simp only [Bool.not_false, if_true, htake]
    exact .notPassed hep (sealEntry_isOk he) hvp (sealEntry_isOk hv) hpass
  | true =>
  simp only [Bool.not_true, Bool.false_eq_true, if_false]
  cases hrp : c.resolvePayload vp with
  | error x =>
    rw [List.append_assoc, List.append_assoc]
    refine .partly hchain fun extra hclean => ?_
    obtain ⟨rp, h, -⟩ := (hclean.resolve hp' hep hvp).2 hpass
    cases hrp.symm.trans h
  | ok rp =>
  simp only
  cases hr : sealEntry sha256 (c.body c.resolveId (rows.length + 4) v.hash .resolve rp) with
  | error x =>
    rw [List.append_assoc, List.append_assoc]
    refine .partly hchain fun extra hclean => ?_
    obtain ⟨rp', h, hh, -⟩ := (hclean.resolve hp' hep hvp).2 hpass
    obtain rfl := Except.ok.inj (hrp.symm.trans h)
    exact sealEntry_error hr hh
  | ok r =>
    have hnew : rows ++ [p] ++ [e] ++ [v] ++ [r] = rows ++ [p, e, v, r] := by simp
    simp only [hnew]
    exact .returned ⟨hp, hep, he, hvp, hv, hpass, hrp, hr⟩

/-- Whatever happens, the entries of the company stay a chain. -/
theorem sealedChain_memWrite {c : Call} {rows : List Entry}
    (hrows : SealedChain sha256 c.companyId rows) :
    SealedChain sha256 c.companyId (memWrite sha256 rows c).2 := by
  have hout := memWrite_outcome hrows
  generalize memWrite sha256 rows c = out at hout
  cases hout with
  | unhashable => exact hrows
  | partly hchain => exact hchain
  | notPassed => exact hrows
  | returned h => exact h.chain hrows

end

/-- The in-memory ledger: a contiguous chain of sealed entries for every company. -/
structure InMemoryLedger (sha256 : Bytes → Bytes) where
  entries : UUID → List Entry
  valid : ∀ companyId, SealedChain sha256 companyId (entries companyId)

namespace InMemoryLedger
variable {sha256 : Bytes → Bytes}

def empty : InMemoryLedger sha256 := ⟨fun _ => [], sealedChain_nil⟩

/-- `InMemoryLedger.write`. -/
def write (m : InMemoryLedger sha256) (c : Call) : Except Err WriteResult × InMemoryLedger sha256 :=
  let out := memWrite sha256 (m.entries c.companyId) c
  (out.1, {
    entries := Function.update m.entries c.companyId out.2
    valid := by
      intro companyId
      by_cases h : companyId = c.companyId
      · subst h
        rw [Function.update_self]
        exact sealedChain_memWrite (m.valid _)
      · rw [Function.update_of_ne h]
        exact m.valid companyId })

theorem write_fst (m : InMemoryLedger sha256) (c : Call) :
    (m.write c).1 = (memWrite sha256 (m.entries c.companyId) c).1 := by
  simp only [write]

theorem write_entries (m : InMemoryLedger sha256) (c : Call) :
    (m.write c).2.entries = Function.update m.entries c.companyId
      (memWrite sha256 (m.entries c.companyId) c).2 := by
  simp only [write]

end InMemoryLedger

end Ledger
