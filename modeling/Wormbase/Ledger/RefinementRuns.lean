import Wormbase.Ledger.Refinement
import Wormbase.Lib.Run

/-! The in-memory ledger against the database over whole runs.

    A write that leaves part of its entries in memory, or that only one of the two refuses, parts the ledgers for good.
    Until then both answer alike and hold the same chains. -/

namespace Ledger
open Py

section
variable {sha256 : Bytes → Bytes} {d : Dialect}

/-- A call that is made on both ledgers. -/
def writeBoth (d : Dialect) (s : InMemoryLedger sha256 × List Entry) (c : Call) : Option (InMemoryLedger sha256 × List Entry) :=
  some ((s.1.write c).2, (write sha256 d s.2 c).2)

/-- The call moves both ledgers alike: they answer alike, and hold the same chains after it. -/
def MovesAlike (d : Dialect) (s : InMemoryLedger sha256 × List Entry) (c : Call) (_ : InMemoryLedger sha256 × List Entry) : Prop :=
  Refines d s.1 s.2 c

/-- The call is clean where it is made, and the JSON column takes its payloads if it returns. -/
def CleanHere (d : Dialect) (s : InMemoryLedger sha256 × List Entry) (c : Call) : Prop :=
  Clean (Storable d) c (s.1.entries c.companyId).length

/-- The ids in a table after a write are old ones and those of the call. -/
theorem write_ids (rows : List Entry) (c : Call) : ∀ row ∈ (write sha256 d rows c).2,
    row.entryId ∈ rows.map (·.entryId) ∨ row.entryId ∈ c.ids := by
  rcases @write_cases sha256 d rows c with ⟨res, ep, vp, rp, p, e, v, r, hg, hw⟩ | ⟨x, hw⟩
  · rw [hw]
    intro row hrow
    rcases List.mem_append.mp hrow with hrow | hrow
    · exact .inl (List.mem_map_of_mem hrow)
    · exact .inr (hg.ids ▸ List.mem_map_of_mem hrow)
  · rw [hw]
    exact fun row hrow => .inl (List.mem_map_of_mem hrow)

/-- From ledgers that hold the same chains, with ids that are new. -/
theorem moves_alike_from (hinj : Function.Injective sha256) {cs : List Call} {s : InMemoryLedger sha256 × List Entry}
    (hrel : Related d s.1 s.2) (hnodup : (cs.flatMap Call.ids).Nodup)
    (hnew : ∀ row ∈ s.2, row.entryId ∉ cs.flatMap Call.ids) :
    Run.EachStep (writeBoth d) (MovesAlike d) s cs ↔ Run.Guarded (writeBoth d) (CleanHere d) s cs := by
  induction cs generalizing s with
  | nil => exact Iff.rfl
  | cons c cs ih =>
    rw [List.flatMap_cons] at hnodup hnew
    obtain ⟨hown, hrest, hdisjoint⟩ := List.nodup_append.mp hnodup
    have hfresh : FreshIds s.2 c := ⟨hown, fun row hrow hmem => hnew row hrow (List.mem_append_left _ hmem)⟩
    have hone : Refines d s.1 s.2 c ↔ CleanHere d s c := refines_iff hinj hrel hfresh
    have hlater : ∀ row ∈ (write sha256 d s.2 c).2, row.entryId ∉ cs.flatMap Call.ids := by
      intro row hrow hmem
      rcases write_ids s.2 c row hrow with hold | hcall
      · obtain ⟨old, hold, heq⟩ := List.mem_map.mp hold
        exact hnew old hold (heq ▸ List.mem_append_right _ hmem)
      · exact hdisjoint _ hcall _ hmem rfl
    have hnext : Related d (s.1.write c).2 (write sha256 d s.2 c).2 →
        (Run.EachStep (writeBoth d) (MovesAlike d) ((s.1.write c).2, (write sha256 d s.2 c).2) cs ↔
          Run.Guarded (writeBoth d) (CleanHere d) ((s.1.write c).2, (write sha256 d s.2 c).2) cs) :=
      fun hrel' => ih (s := ((s.1.write c).2, (write sha256 d s.2 c).2)) hrel' hrest hlater
    generalize hs' : ((s.1.write c).2, (write sha256 d s.2 c).2) = s' at hnext
    have hstep : writeBoth d s c = some s' := congrArg some hs'
    constructor
    · intro hall
      obtain ⟨halike, hsteps⟩ := hall s' hstep
      refine ⟨hone.mp halike, fun t ht => ?_⟩
      obtain rfl := Option.some.inj (hstep.symm.trans ht)
      exact (hnext halike.2).mp hsteps
    · rintro ⟨hclean, hsteps⟩ t ht
      obtain rfl := Option.some.inj (hstep.symm.trans ht)
      have halike : MovesAlike d s c s' := hone.mpr hclean
      exact ⟨halike, (hnext halike.2).mpr (hsteps s' hstep)⟩

/-- In a run over new ledgers whose ids are all different, the two ledgers answer every call alike and hold the same
    chains after it exactly when every call is clean where it is made. -/
theorem ledgers_agree_iff (hinj : Function.Injective sha256) (d : Dialect) {cs : List Call}
    (hids : (cs.flatMap Call.ids).Nodup) : Run.EachStep (writeBoth d) (MovesAlike d) ((.empty : InMemoryLedger sha256), []) cs ↔
      Run.Guarded (writeBoth d) (CleanHere d) ((.empty : InMemoryLedger sha256), []) cs :=
  moves_alike_from hinj (fun _ => .nil) hids fun _ hrow => absurd hrow List.not_mem_nil

end

/-- The write at midnight, on both ledgers. -/
theorem midnight_agrees : Run.EachStep (writeBoth .sqlite) (MovesAlike .sqlite) ((.empty : InMemoryLedger tagHash), [])
    [sampleCall midnight []] := by
  refine (ledgers_agree_iff tagHash_injective .sqlite (by decide)).mpr ⟨?_, fun _ _ => trivial⟩
  exact sampleCall_clean fun _ => sampleCall_storable

end Ledger
