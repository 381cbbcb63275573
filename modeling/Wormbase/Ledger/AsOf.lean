import Wormbase.Ledger.Tenants

/-! Reading a ledger as of a time: the writes up to that time, each with all four of its entries.

    A timestamp may be of any time, so what is left out need not be the end of the ledger. A table compares what its
    timestamp column keeps: SQLite wall clocks, Postgres instants. -/

namespace Ledger
open Py

/-- Whether a write of a time is in a read as of another. -/
def inTime (d : Dialect) (untilTs : Option DateTime) (ts : DateTime) : Bool :=
  match untilTs with
  | none => true
  | some t => tsLe d ts t

/-- The rows are the four entries of a call, all at its time. -/
structure Whole (d : Dialect) (c : Call) (rows : List Entry) : Prop where
  kinds : rows.map (·.kind) = groupKinds
  ids : rows.map (·.entryId) = c.ids
  ts : ∀ row ∈ rows, row.ts = storeTs d c.ts

/-- A read of a company as of any time, after a run over a new table, consists of all four rows of each of its committed
    calls up to that time, in the order of the calls, and of no other rows. -/
def ReadsWhole (sha256 : Bytes → Bytes) (d : Dialect) (companyId : UUID) (cs : List Call) : Prop :=
  ∃ written : List (Call × List Entry), written.map Prod.fst = callsOf companyId (committedCalls sha256 d [] cs) ∧
    (∀ w ∈ written, Whole d w.1 w.2) ∧ ∀ untilTs, fetchEntries d (runWrites sha256 d [] cs) companyId untilTs =
      ((written.filter fun w => inTime d untilTs w.1.ts).flatMap Prod.snd).map normalizeRow

section
variable {sha256 : Bytes → Bytes} {d : Dialect} {companyId : UUID} {c : Call}

/-! ### The rows of one write -/

/-- What the column keeps it keeps again. -/
theorem storeTs_storeTs (d : Dialect) (t : DateTime) : storeTs d (storeTs d t) = storeTs d t := by
  obtain ⟨wall, offset⟩ := t
  cases d with
  | sqlite => rfl
  | postgresql =>
    cases offset with
    | none => rfl
    | some o =>
      cases hinstant : (⟨wall, some o⟩ : DateTime).instant o with
      | none => simp [storeTs, hinstant]
      | some u => simp [storeTs, hinstant, DateTime.instant_utc]

theorem inTime_storeTs (untilTs : Option DateTime) (ts : DateTime) :
    inTime d untilTs (storeTs d ts) = inTime d untilTs ts := by
  cases untilTs with
  | none => rfl
  | some t => simp only [inTime, tsLe, storeTs_storeTs]

theorem Stored.ts {b : Body} {row : Entry} (h : Stored sha256 d b row) : row.ts = storeTs d b.ts := by
  obtain ⟨e, he, hrow⟩ := h
  obtain ⟨hbody, -⟩ := sealEntry_ok he
  obtain ⟨w, -, rfl⟩ := storeRow_ok hrow
  rw [← hbody]

theorem Group.whole {n : ℕ} {prevHash : Bytes} {ep vp rp : Dict} {p e v r : Entry}
    (h : Group sha256 d c n prevHash ep vp rp p e v r) : Whole d c [p, e, v, r] := by
  refine ⟨?_, h.ids, ?_⟩
  · simp only [List.map_cons, List.map_nil, h.propose.fields.2.2.1, h.execute.fields.2.2.1, h.verify.fields.2.2.1,
      h.resolve.fields.2.2.1]
    rfl
  · simp only [List.forall_mem_cons]
    exact ⟨h.propose.ts, h.execute.ts, h.verify.ts, h.resolve.ts, by simp⟩

/-! ### Runs -/

/-- A run adds to a company's rows those of its committed calls. -/
theorem runWrites_whole (companyId : UUID) (cs : List Call) (rows : List Entry) : ∃ written : List (Call × List Entry),
    written.map Prod.fst = callsOf companyId (committedCalls sha256 d rows cs) ∧ (∀ w ∈ written, Whole d w.1 w.2) ∧
      ofCompany (runWrites sha256 d rows cs) companyId = ofCompany rows companyId ++ written.flatMap Prod.snd := by
  induction cs generalizing rows with
  | nil => exact ⟨[], rfl, by simp, by simp [runWrites]⟩
  | cons c cs ih =>
    obtain ⟨written, hcalls, hwhole, hrows⟩ := ih (write sha256 d rows c).2
    rw [committedCalls_cons, runWrites_cons]
    rcases @write_cases sha256 d rows c with ⟨res, ep, vp, rp, p, e, v, r, hg, hw⟩ | ⟨x, hw⟩
    · rw [hw] at hcalls hrows ⊢
      rw [ofCompany_append] at hrows
      by_cases hcompany : c.companyId = companyId
      · have hown : ofCompany [p, e, v, r] companyId = [p, e, v, r] := List.filter_eq_self.mpr fun row hrow =>
          decide_eq_true ((hg.company row hrow).trans hcompany)
        refine ⟨(c, [p, e, v, r]) :: written, ?_, List.forall_mem_cons.mpr ⟨hg.whole, hwhole⟩, ?_⟩
        · rw [List.map_cons, hcalls]
          exact (callsOf_own hcompany).symm
        · rw [hrows, hown, List.flatMap_cons, List.append_assoc]
      · have hnone : ofCompany [p, e, v, r] companyId = [] := List.filter_eq_nil_iff.mpr fun row hrow => by
          rw [decide_eq_true_eq, hg.company row hrow]
          exact hcompany
        refine ⟨written, ?_, hwhole, ?_⟩
        · rw [hcalls]
          exact (callsOf_foreign hcompany).symm
        · rw [hrows, hnone, List.append_nil]
    · rw [hw] at hcalls hrows ⊢
      exact ⟨written, hcalls, hwhole, hrows⟩

/-- A read keeps the rows up to a time in their order. -/
theorem fetchEntries_asOf {rows : List Entry} (h : Contiguous (ofCompany rows companyId)) (untilTs : Option DateTime) :
    fetchEntries d rows companyId untilTs =
      ((ofCompany rows companyId).filter fun e => inTime d untilTs e.ts).map normalizeRow := by
  have hsorted : (ofCompany rows companyId).Pairwise SeqBefore := (pairwise_seq h.seqs).imp le_of_lt
  have hfound : ((ofCompany rows companyId).filter fun e => inTime d untilTs e.ts).Pairwise SeqBefore :=
    hsorted.sublist List.filter_sublist
  rw [← hfound.insertionSort_eq]
  cases untilTs <;> rfl

/-- The rows of a call are kept or left out together. -/
theorem filter_whole {written : List (Call × List Entry)} (h : ∀ w ∈ written, Whole d w.1 w.2) (untilTs : Option DateTime) :
    (written.flatMap Prod.snd).filter (fun e => inTime d untilTs e.ts) =
      (written.filter fun w => inTime d untilTs w.1.ts).flatMap Prod.snd := by
  induction written with
  | nil => rfl
  | cons w written ih =>
    obtain ⟨hw, hrest⟩ := List.forall_mem_cons.mp h
    have hsame : ∀ row ∈ w.2, inTime d untilTs row.ts = inTime d untilTs w.1.ts := fun row hrow => by
      rw [hw.ts row hrow, inTime_storeTs]
    rw [List.flatMap_cons, List.filter_append, ih hrest]
    cases hin : inTime d untilTs w.1.ts with
    | true =>
      have hall : w.2.filter (fun e => inTime d untilTs e.ts) = w.2 := List.filter_eq_self.mpr fun row hrow =>
        (hsame row hrow).trans hin
      simp only [List.filter_cons, hin, if_true, List.flatMap_cons, hall]
    | false =>
      have hout : w.2.filter (fun e => inTime d untilTs e.ts) = [] := List.filter_eq_nil_iff.mpr fun row hrow => by
        rw [hsame row hrow, hin]
        exact Bool.false_ne_true
      simp only [List.filter_cons, hin, Bool.false_eq_true, if_false, hout, List.nil_append]

/-- No read splits a write, in any run of writes of any companies, at any times and read as of any time. -/
theorem asOf_whole (sha256 : Bytes → Bytes) (d : Dialect) (companyId : UUID) (cs : List Call) :
    ReadsWhole sha256 d companyId cs := by
  obtain ⟨written, hcalls, hwhole, hrows⟩ := @runWrites_whole sha256 d companyId cs []
  refine ⟨written, hcalls, hwhole, fun untilTs => ?_⟩
  have hchain := @isChain_runWrites sha256 d cs companyId
  rw [fetchEntries_asOf hchain.toContiguous, hrows]
  exact congrArg (List.map normalizeRow) (filter_whole hwhole untilTs)

end

end Ledger
