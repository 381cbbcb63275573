import Wormbase.Ledger.Runs
import Wormbase.Lib.Run
import Wormbase.Lib.Window
import Wormbase.Projection.Constraints
import Wormbase.Projection.Written

/-! `ProjectionRunner.run_once` over a ledger that is written, wiped and seeded again.

    A pass reads the ledger twice: once to compare it with the cursor, and again to fold it. Whether
    it folds at all is decided by the cursor alone, which a restart forgets. -/

namespace Projection.Runner
open Py
open Ledger (Entry Call Dialect IsChain fetchEntries ofCompany normalizeRow)

/-! ### One pass -/

/-- `_last_seq` and `_last_hash`. -/
structure Cursor where
  lastSeq : ℕ
  lastHash : Option Bytes

def Cursor.fresh : Cursor := ⟨0, none⟩

/-- `max(r["seq"] for r in rows)`. -/
def maxSeq (rows : List Entry) : ℕ := (rows.map (·.seq)).max?.getD 0

/-- The first row with a seq. -/
def rowAt (rows : List Entry) (seq : ℕ) : Option Entry := rows.find? fun r => r.seq = seq

/-- The largest seq is below the cursor, or the row at the cursor has another hash. -/
def Cursor.resetDetected (c : Cursor) (rows : List Entry) : Bool :=
  maxSeq rows < c.lastSeq || (0 < c.lastSeq && c.lastHash.any fun h =>
    (rowAt rows c.lastSeq).any fun r => r.hash ≠ h)

def Cursor.newCount (c : Cursor) (rows : List Entry) : ℕ := rows.countP fun r => c.lastSeq < r.seq

/-- The cursor after the rows were folded. -/
def Cursor.at (rows : List Entry) : Cursor :=
  ⟨maxSeq rows, (rowAt rows (maxSeq rows)).map (·.hash)⟩

/-- Where `run_once` stands: between two passes, before the fold, or before the persist. It holds the
    rows of its first read and what it will return. -/
inductive Pass where
  | idle
  | building (rows : List Entry) (result : ℕ)
  | built (rows : List Entry) (result : ℕ) (p : Projections)

/-- The ledger table, the projection tables, the runner and what its passes returned.

    Beside them stand the rows that were ever committed for the company, whether its ledger is
    unchanged since the pass began, and whether it is since a pass that returned began. -/
structure State where
  rows : List Entry
  history : Window Entry
  db : Database
  cursor : Cursor
  pass : Pass
  results : List ℕ
  quiet : Bool
  settled : Bool

/-- A new process over tables of any content, before the first entry. -/
def State.boot (db : Database) : State := ⟨[], .empty, db, .fresh, .idle, [], false, false⟩

inductive Event where
  | write (c : Call)
  | wipe
  | restart
  | fetch
  | build
  | persist (asOf : DateTime) (returns : Bool)
  | fail

section
variable (py : Interp) (sha256 : Bytes → Bytes) (d : Dialect) (company : UUID)

def State.finish (s : State) (cursor : Cursor) (result : ℕ) : State :=
  { s with cursor, pass := .idle, results := s.results ++ [result], settled := s.quiet }

/-- `run_once` up to its fold, which it reaches or does without. -/
def State.begin (s : State) : State :=
  let s := { s with quiet := true }
  let rows := fetchEntries d s.rows company none
  if rows.isEmpty then
    if s.cursor.lastSeq = 0 then s.finish s.cursor 0
    else { s with cursor := .fresh, pass := .building rows 0 }
  else
    let reset := s.cursor.resetDetected rows
    let cursor := if reset then .fresh else s.cursor
    let new := cursor.newCount rows
    if new = 0 ∧ maxSeq rows = cursor.lastSeq ∧ reset = false then s.finish cursor 0
    else { s with cursor, pass := .building rows (max new (if reset then 1 else 0)) }

/-- One step. Entries are written and wiped between the awaits of a pass, and an exception ends it:
    what a transaction did not commit is not done, but a persist that is committed may be the last
    thing that a cancelled pass does. -/
def step (s : State) : Event → Option State
  | .write c =>
    let out := Ledger.write sha256 d s.rows c
    let new := ofCompany (out.2.drop s.rows.length) company
    let same := new.isEmpty
    some { s with
      rows := out.2
      history := s.history.append new
      quiet := s.quiet && same
      settled := s.settled && same }
  | .wipe =>
    let same := (ofCompany s.rows company).isEmpty
    some { s with
      rows := s.rows.filter fun e => e.companyId ≠ company
      history := s.history.clear
      quiet := s.quiet && same
      settled := s.settled && same }
  | .restart => some { s with cursor := .fresh, pass := .idle }
  | .fetch =>
    match s.pass with
    | .idle => some (s.begin d company)
    | _ => none
  | .build =>
    match s.pass with
    | .building rows result =>
      match buildProjections py d s.rows company none with
      | .ok p => some { s with pass := .built rows result p }
      | .error _ => some { s with pass := .idle }
    | _ => none
  | .persist asOf returns =>
    match s.pass with
    | .built rows result p =>
      match persistProjections company asOf p s.db with
      | .ok db =>
        let s := { s with db }
        -- a pass over an empty ledger has rewound its cursor before the fold
        let cursor := if rows.isEmpty then s.cursor else .at rows
        some (if returns then s.finish cursor result else { s with pass := .idle })
      | .error _ => some { s with pass := .idle }
    | _ => none
  | .fail =>
    match s.pass with
    | .idle => none
    | _ => some { s with pass := .idle }

/-- The rows of the company in the tables are those of the fold of its ledger, persisted at some
    instant. -/
def Converged (s : State) : Prop :=
  ∃ p asOf, buildProjections py d s.rows company none = .ok p ∧ ∀ t : SqlTable,
    (s.db t).filter (t.ownedBy company) = (t.rows company asOf p).filter (t.ownedBy company)

/-- No row of the company ever had an id of the call, and its ids differ. -/
def Fresh (s : State) : Event → Prop
  | .write c => c.companyId = company → Ledger.FreshIds s.history.log c
  | _ => True

/-- A pass that finds no entries with its cursor at 0 finds the tables of an empty ledger. -/
def FindsClear (s : State) : Event → Prop
  | .fetch => ofCompany s.rows company = [] → s.cursor.lastSeq = 0 → Converged py d company s
  | _ => True

end

/-! ### What a cursor says about the rows -/

section
variable {rows : List Entry}

theorem maxSeq_of_contiguous (h : Ledger.Contiguous rows) : maxSeq rows = rows.length := by
  cases hlast : rows.getLast? with
  | none =>
    obtain rfl := List.getLast?_eq_none_iff.mp hlast
    rfl
  | some e =>
    have hseq := h.last.1
    rw [hlast] at hseq
    have hmax : (rows.map (·.seq)).max? = some rows.length := by
      refine List.max?_eq_some_iff.mpr ⟨?_, fun n hn => ?_⟩
      · exact hseq ▸ List.mem_map_of_mem (List.mem_of_getLast? hlast)
      · obtain ⟨r, hr, rfl⟩ := List.mem_map.mp hn
        exact (Ledger.seq_mem_range h.seqs r hr).2
    rw [maxSeq, hmax]
    rfl

theorem rowAt_length (h : Ledger.Contiguous rows) : rowAt rows rows.length = rows.getLast? := by
  cases hlast : rows.getLast? with
  | none =>
    obtain rfl := List.getLast?_eq_none_iff.mp hlast
    rfl
  | some e =>
    have hseq := h.last.1
    rw [hlast] at hseq
    have he := List.mem_of_getLast? hlast
    cases hfind : rowAt rows rows.length with
    | none => exact absurd hseq (by simpa using List.find?_eq_none.mp hfind e he)
    | some r =>
      have hr : r.seq = rows.length := by simpa using List.find?_some hfind
      rw [Ledger.eq_of_seq h.seqs (List.mem_of_find?_eq_some hfind) he (hr.trans hseq.symm)]

theorem Cursor.at_of_contiguous (h : Ledger.Contiguous rows) :
    Cursor.at rows = ⟨rows.length, rows.getLast?.map (·.hash)⟩ := by
  rw [Cursor.at, maxSeq_of_contiguous h, rowAt_length h]

/-- Where no reset is detected and no row is new, the cursor is at the last row. -/
theorem Cursor.eq_at (h : Ledger.Contiguous rows) (hne : rows ≠ []) {c : Cursor} {hash : Bytes}
    (hc : c.lastHash = some hash) (hreset : c.resetDetected rows = false)
    (hseq : maxSeq rows = c.lastSeq) : c = .at rows := by
  obtain ⟨lastSeq, lastHash⟩ := c
  obtain rfl : lastHash = some hash := hc
  obtain rfl : maxSeq rows = lastSeq := hseq
  obtain ⟨e, he⟩ : ∃ e, rows.getLast? = some e := by
    cases hlast : rows.getLast? with
    | none => exact absurd (List.getLast?_eq_none_iff.mp hlast) hne
    | some e => exact ⟨e, rfl⟩
  have hpos := List.length_pos_of_ne_nil hne
  simp only [resetDetected, maxSeq_of_contiguous h, rowAt_length h, he, Option.any_some,
    Bool.or_eq_false_iff, Bool.and_eq_false_iff, decide_eq_false_iff_not, not_lt] at hreset
  rw [Cursor.at_of_contiguous h, maxSeq_of_contiguous h, he]
  rcases hreset.2 with hzero | hhash
  · omega
  · simp [not_ne_iff.mp hhash]

end

/-! ### What stays true -/

/-- The company's rows in the tables are those of the fold of what was visible. -/
def Folded (py : Interp) (company : UUID) (w : Window Entry) (db : Database) : Prop :=
  ∃ p asOf, projectionsOf py (w.view.map LedgerRow.read) = .ok p ∧ ∀ t : SqlTable,
    (db t).filter (t.ownedBy company) = (t.rows company asOf p).filter (t.ownedBy company)

/-- The cursor was set after a read that was not later. -/
def CursorBy (c : Cursor) (w : Window Entry) : Prop :=
  c = .fresh ∨ ∃ v ≤ w, v.view ≠ [] ∧ Ledger.Contiguous v.view ∧ c = .at (v.view.map normalizeRow)

theorem CursorBy.mono {c : Cursor} {w w' : Window Entry} (h : CursorBy c w) (hle : w ≤ w') :
    CursorBy c w' := by
  rcases h with rfl | ⟨v, hv, hrest⟩
  · exact .inl rfl
  · exact .inr ⟨v, hv.trans hle, hrest⟩

/-- The rows of the first read were visible once, and so were those of the fold, no earlier. -/
def PassInv (py : Interp) (s : State) : Pass → Prop
  | .idle => True
  | .building rows _ => ∃ v ≤ s.history, rows = v.view.map normalizeRow ∧
      Ledger.Contiguous v.view ∧ CursorBy s.cursor v ∧ (rows = [] → s.cursor = .fresh)
  | .built rows _ p => ∃ v v', v ≤ v' ∧ v' ≤ s.history ∧ rows = v.view.map normalizeRow ∧
      Ledger.Contiguous v.view ∧ CursorBy s.cursor v ∧ (rows = [] → s.cursor = .fresh) ∧
        projectionsOf py (v'.view.map LedgerRow.read) = .ok p ∧ (s.quiet = true → v' = s.history)

/-- What every step keeps. The tables were folded when the cursor was set, or later. -/
structure Inv (py : Interp) (sha256 : Bytes → Bytes) (d : Dialect) (company : UUID) (s : State) :
    Prop where
  chains : ∀ companyId, IsChain (ofCompany s.rows companyId)
  visible : s.history.view = ofCompany s.rows company
  stored : ∀ row ∈ s.history.log, ∃ b, Ledger.Stored sha256 d b row
  ids : (s.history.log.map (·.entryId)).Nodup
  cursor : s.cursor = .fresh ∨ ∃ w ≤ s.history, CursorBy s.cursor w ∧ Folded py company w s.db
  pass : PassInv py s s.pass
  settled : s.settled = true → s.quiet = true

section
variable {py : Interp} {sha256 : Bytes → Bytes} {d : Dialect} {company : UUID} {s s' : State}

theorem inv_boot (db : Database) : Inv py sha256 d company (.boot db) where
  chains _ := Ledger.isChain_nil
  visible := rfl
  stored := by simp [State.boot, Window.empty]
  ids := List.nodup_nil
  cursor := .inl rfl
  pass := trivial
  settled h := h

theorem Inv.contiguous (h : Inv py sha256 d company s) : Ledger.Contiguous s.history.view :=
  h.visible ▸ (h.chains company).toContiguous

/-- The rows that a pass reads are those visible. -/
theorem Inv.fetch (h : Inv py sha256 d company s) :
    fetchEntries d s.rows company none = s.history.view.map normalizeRow := by
  rw [Ledger.fetchEntries_of_contiguous (h.chains company).toContiguous, h.visible]

theorem Inv.build (h : Inv py sha256 d company s) : buildProjections py d s.rows company none =
    projectionsOf py (s.history.view.map LedgerRow.read) := by
  rw [buildProjections, h.fetch, List.map_map]
  rfl

theorem Inv.converged_iff (h : Inv py sha256 d company s) :
    Converged py d company s ↔ Folded py company s.history s.db := by
  rw [Converged, Folded, h.build]

theorem contiguous_read {es : List Entry} (h : Ledger.Contiguous es) :
    Ledger.Contiguous (es.map normalizeRow) := h.congr (Ledger.link_normalizeRow es)

theorem Cursor.at_read {es : List Entry} (h : Ledger.Contiguous es) :
    Cursor.at (es.map normalizeRow) = ⟨es.length, es.getLast?.map (·.hash)⟩ := by
  rw [Cursor.at_of_contiguous (contiguous_read h), List.length_map, List.getLast?_map,
    Option.map_map, show (fun e : Entry => e.hash) ∘ normalizeRow = fun e => e.hash from
      funext fun e => (Ledger.normalizeRow_fields e).2.2.2.2.2]

/-- With a collision-free hash, a cursor that fits what is visible was set when it was. -/
theorem Inv.eq_of_at (hinj : Function.Injective sha256) (h : Inv py sha256 d company s)
    {v : Window Entry} (hle : v ≤ s.history) (hne : v.view ≠ []) (hv : Ledger.Contiguous v.view)
    (hat : Cursor.at (v.view.map normalizeRow) = .at (s.history.view.map normalizeRow)) :
    v = s.history := by
  rw [Cursor.at_read hv, Cursor.at_read h.contiguous, Cursor.mk.injEq] at hat
  obtain ⟨hlength, hlast⟩ := hat
  refine Window.eq_of_getLast? hle h.ids.of_map hne ?_ hlength
  cases ha : v.view.getLast? with
  | none => exact absurd (List.getLast?_eq_none_iff.mp ha) hne
  | some a =>
    rw [ha] at hlast
    obtain ⟨b, hb, hhash⟩ := Option.map_eq_some_iff.mp hlast.symm
    have hamem := hle.1.subset (Window.mem_log_of_mem_view (List.mem_of_getLast? ha))
    have hbmem := Window.mem_log_of_mem_view (List.mem_of_getLast? hb)
    obtain ⟨_, hastored⟩ := h.stored a hamem
    obtain ⟨_, hbstored⟩ := h.stored b hbmem
    have hid := hastored.entryId_eq hinj hbstored hhash.symm
    rw [hb, List.inj_on_of_nodup_map h.ids hamem hbmem hid]

/-! ### Steps of the ledger -/

/-- A pass keeps its place in a history that goes on. -/
theorem PassInv.mono {pass : Pass} (h : PassInv py s pass) (hcursor : s'.cursor = s.cursor)
    (hle : s.history ≤ s'.history) (hquiet : s'.quiet = true → s.quiet = true ∧ s'.history = s.history) :
    PassInv py s' pass := by
  cases pass with
  | idle => trivial
  | building rows result =>
    obtain ⟨v, hv, hrows, hcont, hby, hnil⟩ := h
    exact ⟨v, hv.trans hle, hrows, hcont, hcursor ▸ hby, hcursor ▸ hnil⟩
  | built rows result p =>
    obtain ⟨v, v', hvv, hv, hrows, hcont, hby, hnil, hp, hnow⟩ := h
    refine ⟨v, v', hvv, hv.trans hle, hrows, hcont, hcursor ▸ hby, hcursor ▸ hnil, hp, fun hq => ?_⟩
    obtain ⟨hq, hsame⟩ := hquiet hq
    exact (hnow hq).trans hsame.symm

/-- A write appends rows of its company with the ids of its call, or nothing. -/
theorem write_appends (rows : List Entry) (c : Call) : ∃ new,
    (Ledger.write sha256 d rows c).2 = rows ++ new ∧
      ofCompany new company = (if c.companyId = company then new else []) ∧
      (new.map (·.entryId)).Sublist c.ids ∧ ∀ row ∈ new, ∃ b, Ledger.Stored sha256 d b row := by
  rcases @Ledger.write_cases sha256 d rows c with
    ⟨res, ep, vp, rp, p, e, v, r, hg, hw⟩ | ⟨x, hw⟩
  · refine ⟨[p, e, v, r], by rw [hw], ?_, hg.ids ▸ .refl _, ?_⟩
    · split
      · rename_i hc
        exact List.filter_eq_self.mpr fun row hrow => decide_eq_true ((hg.company row hrow).trans hc)
      · rename_i hc
        refine List.filter_eq_nil_iff.mpr fun row hrow => ?_
        simpa [hg.company row hrow] using hc
    · simp only [List.forall_mem_cons]
      exact ⟨⟨_, hg.propose⟩, ⟨_, hg.execute⟩, ⟨_, hg.verify⟩, ⟨_, hg.resolve⟩, by simp⟩
  · refine ⟨[], by rw [hw, List.append_nil], ?_, List.nil_sublist _, by simp⟩
    split <;> rfl

theorem inv_write (h : Inv py sha256 d company s) {c : Call} (hfresh : Fresh company s (.write c))
    (hstep : step py sha256 d company s (.write c) = some s') : Inv py sha256 d company s' := by
  obtain ⟨new, hw, hown, hids, hstored⟩ := @write_appends sha256 d company s.rows c
  have hchains := @Ledger.isChain_write sha256 d s.rows c h.chains
  simp only [step, Option.some.injEq] at hstep
  subst hstep
  rw [hw] at hchains ⊢
  simp only [List.drop_left]
  have hle := s.history.le_append (ofCompany new company)
  refine ⟨hchains, ?_, ?_, ?_, ?_, ?_, ?_⟩
  · rw [Window.view_append, Ledger.ofCompany_append, h.visible]
  · exact List.forall_mem_append.mpr ⟨h.stored, fun row hrow => hstored row (List.mem_filter.mp hrow).1⟩
  · -- the ids of the new rows are new
    simp only [Window.append, List.map_append]
    rw [hown]
    split
    · rename_i hc
      obtain ⟨hnodup, hunused⟩ := hfresh hc
      refine List.nodup_append.mpr ⟨h.ids, hids.nodup hnodup, fun id hid id' hid' heq => ?_⟩
      obtain ⟨row, hrow, rfl⟩ := List.mem_map.mp hid
      exact hunused row hrow (heq ▸ hids.subset hid')
    · simpa using h.ids
  · rcases h.cursor with hcur | ⟨w, hwle, hby, hfold⟩
    · exact .inl hcur
    · exact .inr ⟨w, hwle.trans hle, hby, hfold⟩
  · refine h.pass.mono rfl hle fun hq => ?_
    simp only [Bool.and_eq_true, List.isEmpty_iff] at hq
    exact ⟨hq.1, by rw [hq.2, Window.append_nil]⟩
  · simp only [Bool.and_eq_true, and_imp]
    exact fun hset hsame => ⟨h.settled hset, hsame⟩

theorem ofCompany_wipe (rows : List Entry) (companyId : UUID) :
    ofCompany (rows.filter fun e => e.companyId ≠ company) companyId =
      if companyId = company then [] else ofCompany rows companyId := by
  rw [ofCompany, List.filter_filter]
  split
  · rename_i heq
    subst heq
    exact List.filter_eq_nil_iff.mpr fun e _ => by simp
  · rename_i hne
    refine List.filter_congr fun e _ => ?_
    by_cases he : e.companyId = companyId
    · simp [he, hne]
    · simp [he]

theorem inv_wipe (h : Inv py sha256 d company s)
    (hstep : step py sha256 d company s .wipe = some s') : Inv py sha256 d company s' := by
  simp only [step, Option.some.injEq] at hstep
  subst hstep
  refine ⟨fun companyId => ?_, ?_, h.stored, h.ids, ?_, ?_, ?_⟩
  · rw [ofCompany_wipe]
    split
    · exact Ledger.isChain_nil
    · exact h.chains companyId
  · rw [Window.view_clear, ofCompany_wipe, if_pos rfl]
  · rcases h.cursor with hcur | ⟨w, hwle, hby, hfold⟩
    · exact .inl hcur
    · exact .inr ⟨w, hwle.trans s.history.le_clear, hby, hfold⟩
  · refine h.pass.mono rfl s.history.le_clear fun hq => ?_
    simp only [Bool.and_eq_true, List.isEmpty_iff] at hq
    exact ⟨hq.1, Window.clear_of_view (h.visible.trans hq.2)⟩
  · simp only [Bool.and_eq_true, and_imp]
    exact fun hset hsame => ⟨h.settled hset, hsame⟩

/-! ### Steps of a pass -/

/-- Only the fields of the runner differ. -/
structure SameTables (s s' : State) : Prop where
  rows : s'.rows = s.rows
  history : s'.history = s.history
  db : s'.db = s.db

theorem Inv.runner (h : Inv py sha256 d company s) (hsame : SameTables s s')
    (hcursor : s'.cursor = .fresh ∨ s'.cursor = s.cursor) (hpass : PassInv py s' s'.pass)
    (hsettled : s'.settled = true → s'.quiet = true) : Inv py sha256 d company s' where
  chains := hsame.rows ▸ h.chains
  visible := hsame.rows ▸ hsame.history ▸ h.visible
  stored := hsame.history ▸ h.stored
  ids := hsame.history ▸ h.ids
  cursor := by
    rcases hcursor with hcur | hcur
    · exact .inl hcur
    · rw [hcur, hsame.history, hsame.db]
      exact h.cursor
  pass := hpass
  settled := hsettled

theorem SameTables.converged (hsame : SameTables s s') :
    Converged py d company s' ↔ Converged py d company s := by
  rw [Converged, Converged, hsame.rows, hsame.db]

theorem Inv.cursorBy (h : Inv py sha256 d company s) : CursorBy s.cursor s.history := by
  rcases h.cursor with hcur | ⟨w, hwle, hby, -⟩
  · exact .inl hcur
  · exact hby.mono hwle

/-- A cursor at the last row was set when the rows were the same, and the tables were folded since. -/
theorem Inv.folded_of_skip (hinj : Function.Injective sha256) (h : Inv py sha256 d company s)
    (hne : s.history.view ≠ [])
    (hreset : s.cursor.resetDetected (s.history.view.map normalizeRow) = false)
    (hseq : maxSeq (s.history.view.map normalizeRow) = s.cursor.lastSeq) :
    Folded py company s.history s.db := by
  have hcont := contiguous_read h.contiguous
  have hrows : s.history.view.map normalizeRow ≠ [] := by simpa using hne
  have hfresh : s.cursor ≠ .fresh := by
    intro hcur
    rw [maxSeq_of_contiguous hcont, hcur] at hseq
    exact hrows (List.length_eq_zero_iff.mp hseq)
  obtain ⟨w, hwle, hby, hfold⟩ := h.cursor.resolve_left hfresh
  obtain ⟨v, hvw, hvne, hv, hat⟩ := hby.resolve_left hfresh
  obtain ⟨a, ha⟩ : ∃ a, v.view.getLast? = some a := by
    cases hlast : v.view.getLast? with
    | none => exact absurd (List.getLast?_eq_none_iff.mp hlast) hvne
    | some a => exact ⟨a, rfl⟩
  have hhash : s.cursor.lastHash = some a.hash := by
    rw [hat, Cursor.at_read hv, ha]
    rfl
  have hnow := Cursor.eq_at hcont hrows hhash hreset hseq
  have hsame := h.eq_of_at hinj (hvw.trans hwle) hvne hv (hat.symm.trans hnow)
  obtain rfl := le_antisymm hwle (hsame ▸ hvw)
  exact hfold

/-- A pass over no entries is over at once, or forgets the cursor; over entries it is over when the
    cursor is at the last of them, and compares otherwise. -/
inductive Begun (py : Interp) (company : UUID) (s : State) : State → Prop
  | nothing (hnil : s.history.view = []) (hzero : s.cursor.lastSeq = 0) :
      Begun py company s ({ s with quiet := true }.finish s.cursor 0)
  | rewind (hnil : s.history.view = []) (hpos : s.cursor.lastSeq ≠ 0) :
      Begun py company s { s with quiet := true, cursor := .fresh, pass := .building [] 0 }
  | skip (hfold : Folded py company s.history s.db) :
      Begun py company s ({ s with quiet := true }.finish s.cursor 0)
  | rebuild (cursor : Cursor) (result : ℕ) (hcursor : cursor = .fresh ∨ cursor = s.cursor)
      (hne : s.history.view ≠ []) : Begun py company s { s with
        quiet := true
        cursor
        pass := .building (s.history.view.map normalizeRow) result }

theorem begun (hinj : Function.Injective sha256) (h : Inv py sha256 d company s) :
    Begun py company s (s.begin d company) := by
  have hfetch := h.fetch
  have hcont := contiguous_read h.contiguous
  simp only [State.begin]
  rw [hfetch]
  by_cases hnil : s.history.view = []
  · simp only [hnil, List.map_nil, List.isEmpty_nil, if_true]
    split
    · rename_i hzero
      exact .nothing hnil hzero
    · rename_i hpos
      exact .rewind hnil hpos
  · have hne : s.history.view.map normalizeRow ≠ [] := by simpa using hnil
    rw [if_neg (by simpa using hnil)]
    cases hreset : s.cursor.resetDetected (s.history.view.map normalizeRow) with
    | true =>
      simp only [if_true, Bool.true_eq_false, and_false, if_false]
      exact .rebuild _ _ (.inl rfl) hnil
    | false =>
      simp only [Bool.false_eq_true, if_false, and_true]
      split
      · rename_i hskip
        exact .skip (h.folded_of_skip hinj hnil hreset hskip.2)
      · exact .rebuild _ _ (.inr rfl) hnil

theorem inv_begun (h : Inv py sha256 d company s) (hb : Begun py company s s') :
    Inv py sha256 d company s' := by
  cases hb with
  | nothing hnil hzero => exact h.runner ⟨rfl, rfl, rfl⟩ (.inr rfl) trivial fun _ => rfl
  | rewind hnil hpos =>
    refine h.runner ⟨rfl, rfl, rfl⟩ (.inl rfl) ?_ fun _ => rfl
    exact ⟨s.history, le_rfl, by rw [hnil, List.map_nil], h.contiguous, .inl rfl, fun _ => rfl⟩
  | skip hfold => exact h.runner ⟨rfl, rfl, rfl⟩ (.inr rfl) trivial fun _ => rfl
  | rebuild cursor result hcursor hne =>
    refine h.runner ⟨rfl, rfl, rfl⟩ hcursor ?_ fun _ => rfl
    refine ⟨s.history, le_rfl, rfl, h.contiguous, ?_, fun hnil => absurd hnil (by simpa using hne)⟩
    rcases hcursor with rfl | rfl
    · exact .inl rfl
    · exact h.cursorBy

/-- A persist leaves the rows of the fold, and none that the company had before. -/
theorem folded_of_persist {asOf : DateTime} {p : Projections} {db db' : Database} {w : Window Entry}
    (hp : projectionsOf py (w.view.map LedgerRow.read) = .ok p)
    (h : persistProjections company asOf p db = .ok db') : Folded py company w db' := by
  refine ⟨p, asOf, hp, fun t => ?_⟩
  rw [(persistProjections_ok.mp h).2 t, List.filter_append, Database.wipe, List.filter_filter]
  simp

theorem inv_build (h : Inv py sha256 d company s)
    (hstep : step py sha256 d company s .build = some s') :
    Inv py sha256 d company s' ∧ SameTables s s' ∧ s'.settled = s.settled := by
  have hpass := h.pass
  simp only [step] at hstep
  cases hp : s.pass with
  | building rows result =>
    rw [hp] at hstep hpass
    simp only [h.build] at hstep
    cases hb : projectionsOf py (s.history.view.map LedgerRow.read) with
    | ok p =>
      rw [hb] at hstep
      obtain rfl := Option.some.inj hstep
      obtain ⟨v, hv, hrows, hcont, hby, hnil⟩ := hpass
      exact ⟨h.runner ⟨rfl, rfl, rfl⟩ (.inr rfl)
        ⟨v, s.history, hv, le_rfl, hrows, hcont, hby, hnil, hb, fun _ => rfl⟩ h.settled,
        ⟨rfl, rfl, rfl⟩, rfl⟩
    | error x =>
      rw [hb] at hstep
      obtain rfl := Option.some.inj hstep
      exact ⟨h.runner ⟨rfl, rfl, rfl⟩ (.inr rfl) trivial h.settled, ⟨rfl, rfl, rfl⟩, rfl⟩
  | idle =>
    rw [hp] at hstep
    cases hstep
  | built rows result p =>
    rw [hp] at hstep
    cases hstep

/-- A persist folds the tables as of a read of the pass. When nothing was written since the pass
    began, they are those of the ledger. -/
theorem inv_persist (h : Inv py sha256 d company s) {asOf : DateTime} {returns : Bool}
    (hstep : step py sha256 d company s (.persist asOf returns) = some s') :
    Inv py sha256 d company s' ∧ ((s.settled = true → Converged py d company s) →
      s'.settled = true → Converged py d company s') := by
  have hpass := h.pass
  simp only [step] at hstep
  cases hp : s.pass with
  | built rows result p =>
    rw [hp] at hstep hpass
    simp only at hstep
    obtain ⟨v, v', hvv, hv, rfl, hcont, hby, hnil, hproj, hnow⟩ := hpass
    cases hdb : persistProjections company asOf p s.db with
    | ok db =>
      rw [hdb] at hstep
      have hfold : Folded py company v' db := folded_of_persist hproj hdb
      obtain rfl := Option.some.inj hstep
      -- the cursor is of this pass, or of one before
      have hcursor : CursorBy (if (v.view.map normalizeRow).isEmpty then s.cursor
          else .at (v.view.map normalizeRow)) v := by
        split
        · exact hby
        · rename_i hne
          exact .inr ⟨v, le_rfl, by simpa using hne, hcont, rfl⟩
      cases returns with
      | true =>
        have hinv : Inv py sha256 d company (State.finish { s with db } (if (v.view.map
            normalizeRow).isEmpty then s.cursor else .at (v.view.map normalizeRow)) result) :=
          ⟨h.chains, h.visible, h.stored, h.ids, .inr ⟨v', hv, hcursor.mono hvv, hfold⟩, trivial, id⟩
        exact ⟨hinv, fun _ hset => hinv.converged_iff.mpr (hnow hset ▸ hfold)⟩
      | false =>
        have hinv : Inv py sha256 d company { s with db, pass := .idle } :=
          ⟨h.chains, h.visible, h.stored, h.ids, .inr ⟨v', hv, hby.mono hvv, hfold⟩, trivial, h.settled⟩
        exact ⟨hinv, fun _ hset => hinv.converged_iff.mpr (hnow (h.settled hset) ▸ hfold)⟩
    | error x =>
      rw [hdb] at hstep
      obtain rfl := Option.some.inj hstep
      exact ⟨h.runner ⟨rfl, rfl, rfl⟩ (.inr rfl) trivial h.settled, id⟩
  | idle =>
    rw [hp] at hstep
    cases hstep
  | building rows result =>
    rw [hp] at hstep
    cases hstep

/-! ### Runs -/

theorem fetch_begun (hinj : Function.Injective sha256) (h : Inv py sha256 d company s)
    (hstep : step py sha256 d company s .fetch = some s') : Begun py company s s' := by
  simp only [step] at hstep
  split at hstep
  · obtain rfl := Option.some.inj hstep
    exact begun hinj h
  · cases hstep

theorem fail_step (hstep : step py sha256 d company s .fail = some s') :
    s' = { s with pass := .idle } := by
  simp only [step] at hstep
  split at hstep
  · cases hstep
  · exact (Option.some.inj hstep).symm

theorem inv_step (hinj : Function.Injective sha256) {e : Event} (h : Inv py sha256 d company s)
    (hfresh : Fresh company s e) (hstep : step py sha256 d company s e = some s') :
    Inv py sha256 d company s' := by
  cases e with
  | write c => exact inv_write h hfresh hstep
  | wipe => exact inv_wipe h hstep
  | restart =>
    obtain rfl := Option.some.inj hstep
    exact h.runner ⟨rfl, rfl, rfl⟩ (.inl rfl) trivial h.settled
  | fetch => exact inv_begun h (fetch_begun hinj h hstep)
  | build => exact (inv_build h hstep).1
  | persist asOf returns => exact (inv_persist h hstep).1
  | fail =>
    obtain rfl := fail_step hstep
    exact h.runner ⟨rfl, rfl, rfl⟩ (.inr rfl) trivial h.settled

/-- Only a read that finds no entries can settle tables that are off. -/
theorem settled_step (hinj : Function.Injective sha256) {e : Event} (h : Inv py sha256 d company s)
    (hs : s.settled = true → Converged py d company s) (hfresh : Fresh company s e)
    (hstep : step py sha256 d company s e = some s') :
    (s'.settled = true → Converged py d company s') ↔ FindsClear py d company s e := by
  have hinv := inv_step hinj h hfresh hstep
  cases e with
  | write c =>
    refine iff_of_true (fun hset => ?_) trivial
    obtain ⟨new, hw, -⟩ := @write_appends sha256 d company s.rows c
    simp only [step, Option.some.injEq] at hstep
    subst hstep
    simp only [Bool.and_eq_true, List.isEmpty_iff] at hset
    obtain ⟨hset, hnone⟩ := hset
    rw [hinv.converged_iff]
    simp only [hnone, Window.append_nil]
    exact h.converged_iff.mp (hs hset)
  | wipe =>
    refine iff_of_true (fun hset => ?_) trivial
    simp only [step, Option.some.injEq] at hstep
    subst hstep
    simp only [Bool.and_eq_true, List.isEmpty_iff] at hset
    obtain ⟨hset, hnone⟩ := hset
    rw [hinv.converged_iff]
    simp only [Window.clear_of_view (h.visible.trans hnone)]
    exact h.converged_iff.mp (hs hset)
  | restart =>
    obtain rfl := Option.some.inj hstep
    exact iff_of_true hs trivial
  | fetch =>
    rw [FindsClear, ← h.visible]
    cases fetch_begun hinj h hstep with
    | nothing hnil hzero => exact ⟨fun hconv _ _ => hconv rfl, fun hclear _ => hclear hnil hzero⟩
    | rewind hnil hpos => exact iff_of_true hs fun _ hzero => absurd hzero hpos
    | skip hfold =>
      exact iff_of_true (fun _ => hinv.converged_iff.mpr hfold) fun _ _ => h.converged_iff.mpr hfold
    | rebuild cursor result hcursor hne => exact iff_of_true hs fun hnil => absurd hnil hne
  | build =>
    obtain ⟨-, hsame, hset⟩ := inv_build h hstep
    exact iff_of_true (fun hset' => hsame.converged.mpr (hs (hset ▸ hset'))) trivial
  | persist asOf returns => exact iff_of_true ((inv_persist h hstep).2 hs) trivial
  | fail =>
    obtain rfl := fail_step hstep
    exact iff_of_true hs trivial

end

/-- In every run of a company, with no id drawn twice and a collision-free hash, the tables are those
    of the ledger whenever a pass has returned since it last changed, exactly if every pass that finds
    no entries with its cursor at 0 finds the tables of an empty ledger. -/
theorem converges_iff (py : Interp) (sha256 : Bytes → Bytes) (d : Dialect) (company : UUID)
    (hinj : Function.Injective sha256) (db : Database) (es : List Event) (s : State)
    (hrun : Run.exec (step py sha256 d company) (.boot db) es = some s)
    (hfresh : Run.Guarded (step py sha256 d company) (Fresh company) (.boot db) es) :
    Run.Always (step py sha256 d company)
        (fun s => s.settled = true → Converged py d company s) (.boot db) es ↔
      Run.Guarded (step py sha256 d company) (FindsClear py d company) (.boot db) es :=
  Run.always_iff_guarded_of (fun _ _ _ hI hfresh hstep => inv_step hinj hI hfresh hstep)
    (fun _ _ _ hI hs hfresh hstep => settled_step hinj hI hs hfresh hstep) (inv_boot db)
    (fun hset => absurd hset Bool.false_ne_true) hfresh hrun

/-! ### A ledger that is wiped while no runner watches -/

section
variable {py : Interp} {sha256 : Bytes → Bytes} {d : Dialect} {company : UUID}

/-- A fresh runner folds every ledger that has entries. -/
theorem exec_fresh_pass {s : State} {rows : List Entry} {p : Projections} {asOf : DateTime}
    {db : Database} (hpass : s.pass = .idle) (hcur : s.cursor = .fresh)
    (hrows : fetchEntries d s.rows company none = rows) (hmax : maxSeq rows ≠ 0)
    (hp : buildProjections py d s.rows company none = .ok p)
    (hdb : persistProjections company asOf p s.db = .ok db) :
    ∃ s', Run.exec (step py sha256 d company) s [.fetch, .build, .persist asOf true] = some s' ∧
      s'.db = db ∧ s'.settled = true := by
  have hreset : Cursor.fresh.resetDetected rows = false := by simp [Cursor.resetDetected, Cursor.fresh]
  have hne : rows ≠ [] := by
    rintro rfl
    exact hmax rfl
  obtain ⟨result, hbegin⟩ : ∃ result, s.begin d company =
      { s with quiet := true, pass := .building rows result } := by
    refine ⟨max (Cursor.fresh.newCount rows) 0, ?_⟩
    simp only [State.begin, hrows, hcur, hreset, Bool.false_eq_true, if_false]
    rw [if_neg (by simpa using hne), if_neg fun h => hmax h.2.1]
  simp [Run.exec, step, hpass, hbegin, hp, hdb, State.finish]

theorem step_write (s : State) (c : Call) : ∃ s', step py sha256 d company s (.write c) = some s' ∧
    s'.pass = s.pass ∧ s'.cursor = s.cursor ∧ s'.db = s.db ∧
      s'.rows = (Ledger.write sha256 d s.rows c).2 := ⟨_, rfl, rfl, rfl, rfl, rfl⟩

/-- After a wipe and a restart the next pass returns at once, and leaves the tables as they were. -/
theorem exec_wiped (s : State) : ∃ s',
    Run.exec (step py sha256 d company) s [.wipe, .restart, .fetch] = some s' ∧
      ofCompany s'.rows company = [] ∧ s'.settled = true ∧ s'.db = s.db := by
  have hnone := (@ofCompany_wipe company s.rows company).trans (if_pos rfl)
  have hfetch : fetchEntries d (s.rows.filter fun e => e.companyId ≠ company) company none = [] := by
    rw [fetchEntries, hnone]
    rfl
  refine ⟨_, Run.exec_cons.mpr ⟨_, rfl, Run.exec_cons.mpr ⟨_, rfl, Run.exec_cons.mpr ⟨_, rfl, rfl⟩⟩⟩, ?_⟩
  simp only [State.begin, hfetch]
  exact ⟨hnone, rfl, rfl⟩

end

/-- A call that writes one memory. -/
def memoryCall : Call :=
  { Ledger.sampleCall Ledger.midnight [] with
    executeFn := .ok (.dict [(.str "tool", .str "emit_memory_written"),
      (.str "args", .dict sampleMemory)]) }

theorem memoryCall_returns :
    ∃ res rows, Ledger.write Ledger.tagHash .sqlite [] memoryCall = (.ok res, rows) := by
  obtain ⟨t, ht⟩ := Ledger.isoText_midnight
  refine Ledger.first_write_returns Ledger.tagHash_injective ⟨t, _, ht, rfl, rfl⟩ rfl
    ⟨t, _, ht, rfl, rfl⟩ rfl ⟨t, _, ht, rfl, rfl⟩ rfl rfl ⟨t, _, ht, rfl, rfl⟩
    (show memoryCall.ids.Nodup by decide) ?_
  simp only [Ledger.Storable, List.forall_mem_cons]
  exact ⟨⟨_, rfl⟩, ⟨_, rfl⟩, ⟨_, rfl⟩, ⟨_, rfl⟩, by simp⟩

/-- The rows of the memory are folded and persisted. -/
theorem memoryCall_persisted (asOf : DateTime) : ∃ rows p db,
    (Ledger.write Ledger.tagHash .sqlite [] memoryCall).2 = rows ∧ rows ≠ [] ∧
      ofCompany rows ⟨1⟩ = rows ∧ projectionsOf .plain (rows.map LedgerRow.read) = .ok p ∧
      persistProjections ⟨1⟩ asOf p (fun _ => []) = .ok db ∧
        ∃ r ∈ db .memory, SqlTable.ownedBy ⟨1⟩ .memory r = true := by
  obtain ⟨res, rows, hw⟩ := memoryCall_returns
  obtain ⟨new, hash, hnew, hread⟩ := write_rows hw rfl (by
    simp only [List.forall_mem_cons]
    exact ⟨rfl, rfl, rfl, rfl, by simp⟩)
  rw [List.nil_append] at hnew
  subst hnew
  obtain ⟨new, hnew, hown, -⟩ := @write_appends Ledger.tagHash .sqlite ⟨1⟩ [] memoryCall
  rw [hw, List.nil_append] at hnew
  subst hnew
  obtain ⟨s, hs, hkpi, hinstalls, hmem⟩ : ∃ s, foldEntries .plain initialProjectionState
      (rows.map LedgerRow.read) = .ok s ∧ s .kpiNodes = .empty ∧ s .installs = .empty ∧
        s .memory ≠ [] := by
    rw [hread]
    exact ⟨_, rfl, rfl, rfl, List.cons_ne_nil _ _⟩
  have hfits : FitsAll .plain (rows.map LedgerRow.read) := by
    rw [hread]
    exact group_fits (fun _ => quiet_fits rfl rfl rfl)
      (congrArg Except.ok (Function.update_eq_self Part.counts initialProjectionState))
      (memory_fits rfl rfl rfl) (fun _ => quiet_fits rfl rfl rfl) (fun _ => quiet_fits rfl rfl rfl)
  obtain ⟨p, db, hp, hsp, hdb⟩ := fitting_persisted hs hfits hkpi hinstalls ⟨1⟩ asOf
  refine ⟨_, p, db, by rw [hw], ?_, hown, hp, hdb, ?_⟩
  · rintro (hnil : rows = [])
    rw [hnil] at hread
    cases hread
  · obtain ⟨m, hm⟩ := List.exists_mem_of_ne_nil _ hmem
    refine ⟨⟨⟨1⟩, m⟩, ?_, rfl⟩
    rw [(persistProjections_ok.mp hdb).2 .memory]
    refine List.mem_append_right _ ((@rows_perm .plain ⟨1⟩ asOf s p hsp .memory).mem_iff.mpr ?_)
    exact List.mem_map_of_mem hm

/-- A memory is written and a first pass persists it. -/
def firstPass : List Event :=
  [.write memoryCall] ++ [.fetch, .build, .persist Ledger.midnight true]

theorem exec_firstPass : ∃ s,
    Run.exec (step .plain Ledger.tagHash .sqlite ⟨1⟩) (.boot fun _ => []) firstPass = some s ∧
      s.settled = true ∧ ∃ r ∈ s.db .memory, SqlTable.ownedBy ⟨1⟩ .memory r = true := by
  obtain ⟨rows, p, db, hw, hne, hown, hp, hdb, hmem⟩ := memoryCall_persisted Ledger.midnight
  have hcont : Ledger.Contiguous rows := by
    have h := @Ledger.isChain_write Ledger.tagHash .sqlite [] memoryCall
      (fun _ => Ledger.isChain_nil) ⟨1⟩
    rw [hw, hown] at h
    exact h.toContiguous
  have hfetch : fetchEntries .sqlite rows ⟨1⟩ none = rows.map normalizeRow := by
    rw [Ledger.fetchEntries_of_contiguous (hown.symm ▸ hcont), hown]
  have hmax : maxSeq (rows.map normalizeRow) ≠ 0 := by
    rw [maxSeq_of_contiguous (contiguous_read hcont)]
    simpa using hne
  have hbuild : buildProjections .plain .sqlite rows ⟨1⟩ none = .ok p := by
    rw [buildProjections, hfetch, List.map_map]
    exact hp
  obtain ⟨s₁, hs₁, hidle, hcur, hempty, hrows⟩ :=
    @step_write .plain Ledger.tagHash .sqlite ⟨1⟩ (.boot fun _ => []) memoryCall
  replace hrows : s₁.rows = rows := hrows.trans hw
  rw [← hrows] at hfetch hbuild
  obtain ⟨s₂, hs₂, rfl, hsettled⟩ := @exec_fresh_pass .plain Ledger.tagHash .sqlite ⟨1⟩ s₁ _ p
    Ledger.midnight db hidle hcur hfetch (hrows.symm ▸ hmax) hbuild (hempty ▸ hdb)
  exact ⟨s₂, Run.exec_append.mpr ⟨s₁, Run.exec_cons.mpr ⟨s₁, hs₁, rfl⟩, hs₂⟩, hsettled, hmem⟩

theorem firstPass_fresh : Run.Guarded (step .plain Ledger.tagHash .sqlite ⟨1⟩) (Fresh ⟨1⟩)
    (.boot fun _ => []) firstPass :=
  ⟨fun _ => ⟨show memoryCall.ids.Nodup by decide, by simp [State.boot, Window.empty]⟩, fun _ _ =>
    Run.guarded_of_forall (by simp [Fresh])⟩

/-- After the first pass the tables are those of the ledger. -/
theorem firstPass_converges : ∃ s,
    Run.exec (step .plain Ledger.tagHash .sqlite ⟨1⟩) (.boot fun _ => []) firstPass = some s ∧
      s.settled = true ∧ Converged .plain .sqlite ⟨1⟩ s := by
  obtain ⟨s, hs, hsettled, -⟩ := exec_firstPass
  obtain ⟨rows, p, db, hw, hne, hown, -⟩ := memoryCall_persisted Ledger.midnight
  refine ⟨s, hs, hsettled, ?_⟩
  have hclear : Run.Guarded (step .plain Ledger.tagHash .sqlite ⟨1⟩) (FindsClear .plain .sqlite ⟨1⟩)
      (.boot fun _ => []) firstPass := by
    refine ⟨trivial, fun s₁ hs₁ => ⟨fun hnone => ?_, fun _ _ => Run.guarded_of_forall (by simp [FindsClear])⟩⟩
    obtain ⟨s₁', hs₁', -, -, -, hrows⟩ :=
      @step_write .plain Ledger.tagHash .sqlite ⟨1⟩ (.boot fun _ => []) memoryCall
    obtain rfl := Option.some.inj (hs₁.symm.trans hs₁')
    rw [hrows, State.boot, hw, hown] at hnone
    exact absurd hnone hne
  have hall := (converges_iff .plain Ledger.tagHash .sqlite ⟨1⟩ Ledger.tagHash_injective (fun _ => [])
    firstPass s hs firstPass_fresh).mpr hclear
  exact Run.always_iff_prefix.mp hall firstPass List.prefix_rfl s hs hsettled

/-- Tables with a memory of the company are not those of an empty ledger. -/
theorem not_converged {py : Interp} {d : Dialect} {company : UUID} {s : State}
    (hnone : ofCompany s.rows company = [])
    (hrow : ∃ r ∈ s.db .memory, SqlTable.ownedBy company .memory r = true) :
    ¬Converged py d company s := by
  rintro ⟨p, asOf, hp, htables⟩
  rw [buildProjections, fetchEntries, hnone] at hp
  obtain ⟨t, ht, htp⟩ := projectionsOf_ok hp
  obtain rfl : initialProjectionState = t := Except.ok.inj ht
  have hempty : SqlTable.rows company asOf p .memory = [] := (rows_perm htp .memory).eq_nil
  obtain ⟨r, hr, hown⟩ := hrow
  have hmem := List.mem_filter.mpr ⟨hr, hown⟩
  rw [htables, hempty] at hmem
  cases hmem

/-- The memory is still there when the ledger was wiped, the runner restarted and a pass returned. -/
theorem wiped_ledger_keeps_rows : ∃ s,
    Run.exec (step .plain Ledger.tagHash .sqlite ⟨1⟩) (.boot fun _ => [])
      (firstPass ++ [.wipe, .restart, .fetch]) = some s ∧
    Run.Guarded (step .plain Ledger.tagHash .sqlite ⟨1⟩) (Fresh ⟨1⟩) (.boot fun _ => [])
      (firstPass ++ [.wipe, .restart, .fetch]) ∧
    s.settled = true ∧ ¬Converged .plain .sqlite ⟨1⟩ s := by
  obtain ⟨s, hs, -, hmem⟩ := exec_firstPass
  obtain ⟨s', hs', hnone, hsettled, hdb⟩ := @exec_wiped .plain Ledger.tagHash .sqlite ⟨1⟩ s
  refine ⟨s', Run.exec_append.mpr ⟨s, hs, hs'⟩, ?_, hsettled, not_converged hnone (hdb ▸ hmem)⟩
  exact Run.guarded_append.mpr ⟨firstPass_fresh, fun _ _ => Run.guarded_of_forall (by simp [Fresh])⟩

end Projection.Runner
