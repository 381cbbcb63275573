import Wormbase.Ledger.InMemory

/-! The in-memory ledger against the database.

    With the same ids, and as long as the JSON column takes the payloads, the two ledgers make the same
    moves exactly when the in-memory write is all or nothing. -/

namespace Ledger
open Py

section
variable {sha256 : Bytes → Bytes} {d : Dialect}

/-! ### The two ledgers side by side -/

/-- The rows of every company are the stored entries of the in-memory ledger. -/
def Related (d : Dialect) (m : InMemoryLedger sha256) (rows : List Entry) : Prop :=
  ∀ companyId, StoredAs d (m.entries companyId) (ofCompany rows companyId)

/-- Both ledgers return the same ids and hashes, or both raise, and stay related. -/
def Refines (d : Dialect) (m : InMemoryLedger sha256) (rows : List Entry) (c : Call) : Prop :=
  (m.write c).1.toOption = (write sha256 d rows c).1.toOption ∧
    Related d (m.write c).2 (write sha256 d rows c).2

/-- `write` appends the four entries of the call and returns, or raises and changes nothing. -/
def AllOrNothing (m : InMemoryLedger sha256) (c : Call) : Prop :=
  (∃ p e v r, (m.write c).1 = .ok (resultOf p e v r) ∧
    (m.write c).2.entries =
      Function.update m.entries c.companyId (m.entries c.companyId ++ [p, e, v, r]) ∧
    [p, e, v, r].map (·.kind) = groupKinds ∧
    [p, e, v, r].map (·.seq) = List.range' ((m.entries c.companyId).length + 1) 4) ∨
  ∃ x, (m.write c).1 = .error x ∧ (m.write c).2.entries = m.entries

theorem Built.kinds {c : Call} {n : ℕ} {prevHash : Bytes} {ep vp rp : Dict} {p e v r : Entry}
    (h : Built sha256 c n prevHash ep vp rp p e v r) :
    [p, e, v, r].map (·.kind) = groupKinds ∧ [p, e, v, r].map (·.seq) = List.range' (n + 1) 4 := by
  have hp := (sealEntry_ok h.propose).1
  have he := (sealEntry_ok h.execute).1
  have hv := (sealEntry_ok h.verify).1
  have hr := (sealEntry_ok h.resolve).1
  simp [hp, he, hv, hr, Call.body, groupKinds, List.range']

/-- The in-memory write is all or nothing exactly when the call is clean. -/
theorem allOrNothing_iff (m : InMemoryLedger sha256) (c : Call) :
    AllOrNothing m c ↔ Clean (fun _ => True) c (m.entries c.companyId).length := by
  have hout := memWrite_outcome (m.valid c.companyId)
  simp only [AllOrNothing, InMemoryLedger.write_fst, InMemoryLedger.write_entries]
  generalize memWrite sha256 (m.entries c.companyId) c = out at hout
  cases hout with
  | @unhashable x h => exact ⟨fun _ => .inl h, fun _ => .inr ⟨x, rfl, Function.update_eq_self ..⟩⟩
  | @partly x e new hchain h =>
    refine ⟨?_, fun hclean => absurd hclean (h _)⟩
    rintro (⟨p, e, v, r, h, -⟩ | ⟨x, -, h⟩)
    · cases h
    · have := congrArg List.length (congrFun h c.companyId)
      simp at this
  | @notPassed x ep vp hep he hvp hv h =>
    exact ⟨fun _ => .inr ⟨ep, vp, hep, he, hvp, hv, .inl h⟩,
      fun _ => .inr ⟨x, rfl, Function.update_eq_self ..⟩⟩
  | @returned ep vp rp p e v r h =>
    exact ⟨fun _ => .inr ⟨ep, vp, h.execPayload, sealEntry_isOk h.execute, h.verifyPayload,
        sealEntry_isOk h.verify, .inr ⟨rp, h.resolvePayload, sealEntry_isOk h.resolve, trivial⟩⟩,
      fun _ => .inl ⟨p, e, v, r, rfl, rfl, h.kinds⟩⟩

section
variable (hinj : Function.Injective sha256) {m : InMemoryLedger sha256} {rows : List Entry} {c : Call}
  (hrel : Related d m rows) (hids : FreshIds rows c)
include hinj hrel

omit hinj in
/-- What the database returns, it has built on the entries of the in-memory ledger. -/
theorem built_of_write {res : WriteResult} (h : (write sha256 d rows c).1 = .ok res) :
    ∃ ep vp rp p e v r, Built sha256 c (m.entries c.companyId).length
      (tipHash (m.entries c.companyId)) ep vp rp p e v r ∧ Storable d [c.propose, ep, vp, rp] := by
  rcases @write_outcome sha256 d rows c with ⟨ep, vp, rp, p, e, v, r, new, hb, hnew, hw⟩ | ⟨x, hw⟩
  · rw [tail_of_storedAs (m.valid _).toContiguous (hrel _)] at hb
    exact ⟨ep, vp, rp, p, e, v, r, hb, hb.storable hnew⟩
  · rw [hw] at h
    cases h

omit hinj in
/-- A call that cannot build its four entries leaves the table as it is. -/
theorem write_error_of_not_built (h : ∀ ep vp rp p e v r, ¬ Built sha256 c
    (m.entries c.companyId).length (tipHash (m.entries c.companyId)) ep vp rp p e v r) :
    ∃ x, write sha256 d rows c = (.error x, rows) := by
  rcases @write_outcome sha256 d rows c with ⟨ep, vp, rp, p, e, v, r, new, hb, -, hw⟩ | h'
  · obtain ⟨ep, vp, rp, p, e, v, r, hb, -⟩ := built_of_write hrel (by rw [hw])
    exact absurd hb (h ep vp rp p e v r)
  · exact h'

include hids

/-- The in-memory ledger makes the moves of the database exactly when the call is clean and, if it
    returns, the JSON column takes its payloads. -/
theorem refines_iff : Refines d m rows c ↔
    Clean (Storable d) c (m.entries c.companyId).length := by
  have hchain := m.valid c.companyId
  have hout := memWrite_outcome hchain
  simp only [Refines, Related, InMemoryLedger.write_fst, InMemoryLedger.write_entries]
  generalize memWrite sha256 (m.entries c.companyId) c = out at hout
  -- a call that leaves both ledgers as they are
  have same {x : Err} (h : ∀ ep vp rp p e v r, ¬ Built sha256 c (m.entries c.companyId).length
      (tipHash (m.entries c.companyId)) ep vp rp p e v r) :
      (Except.error x : Except Err WriteResult).toOption = (write sha256 d rows c).1.toOption ∧
      ∀ companyId, StoredAs d (Function.update m.entries c.companyId (m.entries c.companyId)
        companyId) (ofCompany (write sha256 d rows c).2 companyId) := by
    obtain ⟨y, hw⟩ := write_error_of_not_built hrel h
    rw [hw, Function.update_eq_self]
    exact ⟨rfl, hrel⟩
  cases hout with
  | @unhashable x h =>
    refine ⟨fun _ => .inl h, fun _ => same ?_⟩
    exact fun ep vp rp p e v r hb => h (sealEntry_isOk hb.propose)
  | @partly x e new _ h =>
    refine ⟨?_, fun hclean => absurd hclean (h _)⟩
    rintro ⟨hres, hafter⟩
    obtain ⟨y, hw⟩ : ∃ y, write sha256 d rows c = (.error y, rows) := by
      rcases @write_outcome sha256 d rows c with ⟨_, _, _, _, _, _, _, _, -, -, hw⟩ | h
      · rw [hw] at hres
        cases hres
      · exact h
    have hlen := (hafter c.companyId).length_eq
    rw [hw, Function.update_self, ← (hrel c.companyId).length_eq] at hlen
    simp at hlen
  | @notPassed x ep vp hep he hvp hv h =>
    refine ⟨fun _ => .inr ⟨ep, vp, hep, he, hvp, hv, .inl h⟩, fun _ => same ?_⟩
    intro ep' vp' rp p e v r hb
    obtain rfl := Except.ok.inj (hep.symm.trans hb.execPayload)
    obtain rfl := Except.ok.inj (hvp.symm.trans hb.verifyPayload)
    exact absurd hb.passed (by simp [h])
  | @returned ep vp rp p e v r h =>
    constructor
    · rintro ⟨hres, -⟩
      cases hw : (write sha256 d rows c).1 with
      | error y => rw [hw] at hres; cases hres
      | ok res =>
        obtain ⟨ep', vp', rp', _, _, _, _, hb, hstore⟩ := built_of_write hrel hw
        obtain rfl := Except.ok.inj (h.execPayload.symm.trans hb.execPayload)
        obtain rfl := Except.ok.inj (h.verifyPayload.symm.trans hb.verifyPayload)
        obtain rfl := Except.ok.inj (h.resolvePayload.symm.trans hb.resolvePayload)
        exact .inr ⟨ep, vp, h.execPayload, sealEntry_isOk h.execute, h.verifyPayload,
          sealEntry_isOk h.verify, .inr ⟨rp, h.resolvePayload, sealEntry_isOk h.resolve, hstore⟩⟩
    · intro hclean
      obtain ⟨rp', hrp', -, hstore⟩ := (hclean.resolve (sealEntry_isOk h.propose) h.execPayload
        h.verifyPayload).2 h.passed
      obtain rfl := Except.ok.inj (h.resolvePayload.symm.trans hrp')
      obtain ⟨new, hw, hnew, hcompany⟩ := write_of_built hinj hchain (hrel _) hids h hstore
      rw [hw]
      refine ⟨rfl, fun companyId => ?_⟩
      by_cases hc : companyId = c.companyId
      · subst hc
        rw [Function.update_self]
        exact hnew
      · have hnone : ofCompany new companyId = [] := List.filter_eq_nil_iff.mpr fun row hrow => by
          simp [hcompany row hrow, Ne.symm hc]
        rw [Function.update_of_ne hc, ofCompany_append, hnone, List.append_nil]
        exact hrel companyId

end

/-- The in-memory write is all or nothing exactly when the call is clean; and, with the same ids, it
    makes the moves of the database exactly when the call is clean and, if it returns, the JSON
    column takes its payloads. -/
theorem memWrite_refines_iff (m : InMemoryLedger sha256) (c : Call) :
    (AllOrNothing m c ↔ Clean (fun _ => True) c (m.entries c.companyId).length) ∧
    ∀ (d : Dialect) (rows : List Entry), Function.Injective sha256 → Related d m rows →
      FreshIds rows c → (Refines d m rows c ↔ Clean (Storable d) c (m.entries c.companyId).length) :=
  ⟨allOrNothing_iff m c, fun _ _ hinj hrel hids => refines_iff hinj hrel hids⟩

end

theorem related_empty (d : Dialect) : Related d (InMemoryLedger.empty : InMemoryLedger tagHash) [] :=
  fun _ => .nil

theorem sampleCall_clean {extra : List Dict → Prop}
    (h : ∀ ps, (sampleCall midnight []).payloads = .ok ps → extra ps) :
    Clean extra (sampleCall midnight []) 0 :=
  .inr ⟨_, _, rfl, ⟨_, _, rfl, rfl, rfl⟩, rfl, ⟨_, _, rfl, rfl, rfl⟩,
    .inr ⟨_, rfl, ⟨_, _, rfl, rfl, rfl⟩, h _ rfl⟩⟩

/-- The write at midnight is one of the clean ones. -/
theorem memWrite_midnight_refines :
    AllOrNothing (InMemoryLedger.empty : InMemoryLedger tagHash) (sampleCall midnight []) ∧
      Refines .sqlite (InMemoryLedger.empty : InMemoryLedger tagHash) [] (sampleCall midnight []) := by
  obtain ⟨hatomic, hrefines⟩ :=
    memWrite_refines_iff (InMemoryLedger.empty : InMemoryLedger tagHash) (sampleCall midnight [])
  exact ⟨hatomic.mpr (sampleCall_clean fun _ _ => trivial), (hrefines .sqlite [] tagHash_injective
    (related_empty _) (sampleCall_fresh _ _)).mpr (sampleCall_clean fun _ => sampleCall_storable)⟩

/-- A write whose `execute_fn` raises. -/
def raisingCall : Call :=
  { sampleCall midnight [] with executeFn := .error (valueError "execute failed") }

theorem raisingCall_not_clean (extra : List Dict → Prop) : ¬ Clean extra raisingCall 0 := by
  rintro (h | ⟨ep, vp, hep, -⟩)
  · exact h ⟨_, _, rfl, rfl, rfl⟩
  · cases hep

/-- On the empty ledger that write leaves its proposal behind, and the database leaves nothing. -/
theorem memWrite_raising_not_atomic :
    ¬ AllOrNothing (InMemoryLedger.empty : InMemoryLedger tagHash) raisingCall ∧
      ¬ Refines .sqlite (InMemoryLedger.empty : InMemoryLedger tagHash) [] raisingCall := by
  have hids : FreshIds [] raisingCall :=
    ⟨(sampleCall_fresh midnight []).nodup, (sampleCall_fresh midnight []).unused⟩
  rw [allOrNothing_iff, refines_iff tagHash_injective (related_empty _) hids]
  exact ⟨raisingCall_not_clean _, raisingCall_not_clean _⟩

end Ledger
