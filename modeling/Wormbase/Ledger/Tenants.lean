import Wormbase.Ledger.Runs
import Wormbase.Lib.Unwinding

/-! One table for the ledgers of all companies: what a company reads of it and gets from its writes is what a table of
    its own would give, whatever the others write in between.

    The primary key is of the whole table, so no id of a company's entries may be drawn for another's. -/

namespace Ledger
open Py

/-- The calls of a company. -/
def callsOf (companyId : UUID) (cs : List Call) : List Call := cs.filter fun c => c.companyId = companyId

/-- No id of a company's calls is drawn for a call of another company. -/
def IdsApart (companyId : UUID) (cs : List Call) : Prop :=
  ∀ c ∈ cs, ∀ other ∈ cs, c.companyId = companyId → other.companyId ≠ companyId → ∀ id ∈ c.ids, id ∉ other.ids

/-- After a run over a new table a company has the rows, and after any prefix of it the reads, of a table that only
    it writes, and each of its writes ended as it would there. -/
structure Alone (sha256 : Bytes → Bytes) (d : Dialect) (companyId : UUID) (cs : List Call) : Prop where
  rows : ofCompany (runWrites sha256 d [] cs) companyId = runWrites sha256 d [] (callsOf companyId cs)
  answers : (Unwinding.answers (write sha256 d) [] cs).filter (fun p => p.1.companyId = companyId) =
    Unwinding.answers (write sha256 d) [] (callsOf companyId cs)
  reads : ∀ soFar, soFar <+: cs → ∀ untilTs, fetchEntries d (runWrites sha256 d [] soFar) companyId untilTs =
    fetchEntries d (runWrites sha256 d [] (callsOf companyId soFar)) companyId untilTs

/-- No row of another company has one of the ids. -/
def ForeignApart (companyId : UUID) (ids : List UUID) (rows : List Entry) : Prop :=
  ∀ row ∈ rows, row.companyId ≠ companyId → row.entryId ∉ ids

section
variable {sha256 : Bytes → Bytes} {d : Dialect} {companyId : UUID} {rows rows' : List Entry} {c : Call} {cs : List Call}
  {ids : List UUID}

theorem callsOf_own (h : c.companyId = companyId) : callsOf companyId (c :: cs) = c :: callsOf companyId cs :=
  List.filter_cons_of_pos (decide_eq_true h)

theorem callsOf_foreign (h : c.companyId ≠ companyId) : callsOf companyId (c :: cs) = callsOf companyId cs :=
  List.filter_cons_of_neg (by simpa using h)

/-! ### One write on the rows of its company -/

theorem ofCompany_idem (rows : List Entry) (companyId : UUID) :
    ofCompany (ofCompany rows companyId) companyId = ofCompany rows companyId := by
  simp [ofCompany, List.filter_filter]

theorem tail_own (rows : List Entry) (companyId : UUID) : tail (ofCompany rows companyId) companyId = tail rows companyId := by
  rw [tail, tail, newest, newest, ofCompany_idem]

theorem fetchEntries_own (rows : List Entry) (companyId : UUID) (untilTs : Option DateTime) :
    fetchEntries d (ofCompany rows companyId) companyId untilTs = fetchEntries d rows companyId untilTs := by
  rw [fetchEntries, fetchEntries, ofCompany_idem]

theorem ForeignApart.concat (h : ForeignApart companyId ids rows) {row : Entry} (hrow : row.companyId = companyId) :
    ForeignApart companyId ids (rows ++ [row]) := by
  intro other hother hforeign
  rcases List.mem_append.mp hother with hold | hnew
  · exact h other hold hforeign
  · obtain rfl := List.mem_singleton.mp hnew
    exact absurd hrow hforeign

/-- A row of the company meets a constraint of the table on its company's rows or not at all. -/
theorem conflicts_own (h : ForeignApart companyId ids rows) {row : Entry} (hcompany : row.companyId = companyId)
    (hid : row.entryId ∈ ids) : (ofCompany rows companyId).any (conflicts row) = rows.any (conflicts row) := by
  rw [Bool.eq_iff_iff, List.any_eq_true, List.any_eq_true]
  constructor
  · rintro ⟨other, hother, hconflict⟩
    exact ⟨other, List.mem_of_mem_filter hother, hconflict⟩
  · rintro ⟨other, hother, hconflict⟩
    refine ⟨other, List.mem_filter.mpr ⟨hother, decide_eq_true ?_⟩, hconflict⟩
    by_contra hforeign
    have hapart := h other hother hforeign
    simp only [conflicts, Bool.or_eq_true, Bool.and_eq_true, decide_eq_true_eq] at hconflict
    rcases hconflict with heq | ⟨heq, -⟩
    · exact hapart (heq ▸ hid)
    · exact hforeign (heq.trans hcompany)

theorem addRow_own (h : ForeignApart companyId ids rows) {row : Entry} (hcompany : row.companyId = companyId)
    (hid : row.entryId ∈ ids) : addRow (ofCompany rows companyId) row = (addRow rows row).map (ofCompany · companyId) := by
  rw [addRow, addRow, conflicts_own h hcompany hid]
  split
  · rfl
  · have hown : ofCompany [row] companyId = [row] := by simp [ofCompany, hcompany]
    simp only [Except.map, ofCompany_append, hown]

/-- An append to the company's rows, and to all rows. -/
theorem append_own (h : ForeignApart companyId ids rows) {b : Body} (hcompany : b.companyId = companyId)
    (hid : b.entryId ∈ ids) : append sha256 d (ofCompany rows companyId) b =
      (append sha256 d rows b).map (Prod.map id (ofCompany · companyId)) := by
  cases he : sealEntry sha256 b with
  | error x => simp [append, he, bind, Except.bind, Except.map]
  | ok e =>
    obtain ⟨hbody, -⟩ := sealEntry_ok he
    cases hrow : storeRow d e with
    | error x => simp [append, he, insertRow, hrow, bind, Except.bind, Except.map]
    | ok row =>
      obtain ⟨hids, hcompanies, -⟩ := storeRow_fields hrow
      have hsame : row.companyId = companyId := by rw [hcompanies, hbody, hcompany]
      have hmem : row.entryId ∈ ids := by rwa [hids, hbody]
      have hown := addRow_own h hsame hmem
      rw [append_of_sealed he hrow, append_of_sealed he hrow, hown]
      cases addRow rows row <;> rfl

theorem append_apart (h : ForeignApart companyId ids rows) {b : Body} (hcompany : b.companyId = companyId) {e : Entry}
    (happend : append sha256 d rows b = .ok (e, rows')) : ForeignApart companyId ids rows' := by
  obtain ⟨he, row, hrow, -, rfl⟩ := append_ok happend
  obtain ⟨-, hcompanies, -⟩ := storeRow_fields hrow
  obtain ⟨hbody, -⟩ := sealEntry_ok he
  exact h.concat (by rw [hcompanies, hbody, hcompany])

/-- A session of a company's write sees only that company's rows. -/
theorem writePrimitive_own (h : ForeignApart c.companyId c.ids rows) :
    writePrimitive sha256 d c (ofCompany rows c.companyId) =
      (writePrimitive sha256 d c rows).map (Prod.map id (ofCompany · c.companyId)) := by
  cases htail : tail rows c.companyId with
  | mk seq prevHash =>
  simp only [writePrimitive, tail_own, htail]
  rw [append_own h rfl (by simp [Call.ids, Call.body])]
  cases hp : append sha256 d rows (c.body c.proposeId (seq + 1) prevHash .propose c.propose) with
  | error x => rfl
  | ok q =>
  obtain ⟨p, rows₁⟩ := q
  have h₁ := append_apart h rfl hp
  simp only [Except.map, Prod.map, id_eq, bind, Except.bind]
  cases c.execPayload with
  | error x => rfl
  | ok ep =>
  simp only
  rw [append_own h₁ rfl (by simp [Call.ids, Call.body])]
  cases he : append sha256 d rows₁ (c.body c.executeId (seq + 2) p.hash .execute ep) with
  | error x => rfl
  | ok q =>
  obtain ⟨e, rows₂⟩ := q
  have h₂ := append_apart h₁ rfl he
  simp only [Except.map, Prod.map, id_eq]
  cases c.verifyPayload ep with
  | error x => rfl
  | ok vp =>
  simp only
  rw [append_own h₂ rfl (by simp [Call.ids, Call.body])]
  cases hv : append sha256 d rows₂ (c.body c.verifyId (seq + 3) e.hash .verify vp) with
  | error x => rfl
  | ok q =>
  obtain ⟨v, rows₃⟩ := q
  have h₃ := append_apart h₂ rfl hv
  simp only [Except.map, Prod.map, id_eq]
  cases Call.passed vp with
  | false => rfl
  | true =>
  simp only [Bool.not_true, Bool.false_eq_true, if_false, pure, Except.pure]
  cases c.resolvePayload vp with
  | error x => rfl
  | ok rp =>
  simp only
  rw [append_own h₃ rfl (by simp [Call.ids, Call.body])]
  cases append sha256 d rows₃ (c.body c.resolveId (seq + 4) v.hash .resolve rp) <;> rfl

/-- A write of the company on its rows alone. -/
theorem write_own (h : ForeignApart c.companyId c.ids rows) : write sha256 d (ofCompany rows c.companyId) c =
    ((write sha256 d rows c).1, ofCompany (write sha256 d rows c).2 c.companyId) := by
  rw [write, write, sessionScope, sessionScope, writePrimitive_own h]
  cases writePrimitive sha256 d c rows <;> rfl

/-- A write of another company. -/
theorem write_foreign (h : c.companyId ≠ companyId) :
    ofCompany (write sha256 d rows c).2 companyId = ofCompany rows companyId := by
  rcases @write_cases sha256 d rows c with ⟨res, ep, vp, rp, p, e, v, r, hg, hw⟩ | ⟨x, hw⟩
  · have hnone : ofCompany [p, e, v, r] companyId = [] := List.filter_eq_nil_iff.mpr fun row hrow => by
      rw [decide_eq_true_eq, hg.company row hrow]
      exact h
    rw [hw, ofCompany_append, hnone, List.append_nil]
  · rw [hw]

/-! ### Runs -/

/-- No id of the company's calls to come is drawn for another call to come, or taken by another company's row. -/
def Ahead (companyId : UUID) (rows : List Entry) (cs : List Call) : Prop :=
  IdsApart companyId cs ∧ ∀ c ∈ cs, c.companyId = companyId → ForeignApart companyId c.ids rows

theorem Ahead.write (h : Ahead companyId rows (c :: cs)) : Ahead companyId (write sha256 d rows c).2 cs := by
  obtain ⟨hapart, hrows⟩ := h
  refine ⟨fun a ha b hb => hapart a (List.mem_cons_of_mem _ ha) b (List.mem_cons_of_mem _ hb), fun a ha hown => ?_⟩
  have hold := hrows a (List.mem_cons_of_mem _ ha) hown
  rcases @write_cases sha256 d rows c with ⟨res, ep, vp, rp, p, e, v, r, hg, hw⟩ | ⟨x, hw⟩
  · rw [hw]
    intro row hrow hforeign
    rcases List.mem_append.mp hrow with hrow | hrow
    · exact hold row hrow hforeign
    · have hcompany := hg.company row hrow
      have hid : row.entryId ∈ c.ids := hg.ids ▸ List.mem_map_of_mem hrow
      exact fun hmem => hapart a (List.mem_cons_of_mem _ ha) c List.mem_cons_self hown (hcompany ▸ hforeign) _ hmem hid
  · rwa [hw]

/-- What a company sees of the table. -/
theorem write_sees (sha256 : Bytes → Bytes) (d : Dialect) (companyId : UUID) :
    Unwinding.Sees (write sha256 d) (write sha256 d) (ofCompany · companyId) (fun c => c.companyId = companyId)
      (Ahead companyId) where
  keeps := Ahead.write
  own := by
    rintro rows c cs ⟨-, hrows⟩ rfl
    exact write_own (hrows c List.mem_cons_self rfl)
  others := fun _ => write_foreign

theorem IdsApart.ahead (h : IdsApart companyId cs) : Ahead companyId [] cs :=
  ⟨h, fun _ _ _ _ hrow => absurd hrow List.not_mem_nil⟩

theorem IdsApart.initial {soFar : List Call} (h : IdsApart companyId cs) (hinit : soFar <+: cs) : IdsApart companyId soFar :=
  fun c hc other hother => h c (hinit.subset hc) other (hinit.subset hother)

theorem runWrites_own (h : IdsApart companyId cs) :
    ofCompany (runWrites sha256 d [] cs) companyId = runWrites sha256 d [] (callsOf companyId cs) :=
  (write_sees sha256 d companyId).view_after h.ahead

/-- Every company has the table to itself, in any interleaving of the writes of all companies, those that raise
    included. -/
theorem company_alone (sha256 : Bytes → Bytes) (d : Dialect) (h : IdsApart companyId cs) : Alone sha256 d companyId cs where
  rows := runWrites_own h
  answers := (write_sees sha256 d companyId).own_answers h.ahead
  reads := by
    intro soFar hinit untilTs
    rw [← fetchEntries_own, runWrites_own (h.initial hinit)]

end

/-- A call of a second company. -/
def neighbourCall : Call :=
  { sampleCall midnight [] with companyId := ⟨6⟩, proposeId := ⟨7⟩, executeId := ⟨8⟩, verifyId := ⟨9⟩, resolveId := ⟨10⟩ }

theorem neighbours_alone : Alone tagHash .sqlite ⟨1⟩ [neighbourCall, sampleCall midnight []] :=
  company_alone tagHash .sqlite (by
    unfold IdsApart
    decide)

end Ledger
