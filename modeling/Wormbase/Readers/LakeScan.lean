import Wormbase.Readers.LakeReaders
import Mathlib.Data.List.DropRight

/-! What a lake reader keeps of one id, beside the row that the projection has for it.

    Both are folds over the entries that name the id, so they are compared entry by entry. The state
    of a row is that of the last decision, whatever is proposed after it. A reader that keeps the state
    follows it; one that starts over loses it with the next proposal. -/

namespace Readers
open Py Projection

/-! ### Rows -/

section
variable {e : LedgerRow} {tool : String} {args : Dict}

theorem isEmitTool_action (h : e.action = some (tool, args)) (t : String) :
    isEmitTool e t = decide (tool = t) := by
  obtain ⟨hkind, payload, hpayload, htool, -⟩ := action_eq_some.mp h
  simp only [isEmitTool, hkind, decide_true, Bool.true_and, hpayload, or_dict, htool]
  rfl

theorem executeArgs_action (h : e.action = some (tool, args)) : executeArgs e = args := by
  obtain ⟨hkind, payload, hpayload, -, hargs⟩ := action_eq_some.mp h
  simp only [executeArgs, hkind, if_true, hpayload, or_dict, or_args hargs]
  rfl

/-- A row without an action calls no tool that the builder has a branch for. -/
theorem isEmitTool_none {py : Interp} {s s' : State} (h : applyEntry py s e = .ok s')
    (hnone : e.action = none) (hmem : tool ∈ Part.all.flatMap Part.tools) : isEmitTool e tool = false := by
  cases hcase : isEmitTool e tool with
  | false => rfl
  | true =>
    rw [isEmitTool, Bool.and_eq_true, decide_eq_true_eq] at hcase
    obtain ⟨hkind, htool⟩ := hcase
    obtain ⟨payload, hpayload, hcall⟩ := folded_execute h hkind
    rw [hpayload, or_dict] at htool
    obtain ⟨args, hact, -⟩ := hcall tool (Val.isText_iff.mp htool) hmem
    rw [hnone] at hact
    cases hact

end

/-! ### One id -/

/-- A scan reads the entries of an axis. -/
structure Scan.Reads {F : Type} (c : Scan) (spec : AxisSpec F) : Prop where
  proposeTool : spec.proposeTool = c.proposeTool
  idArg : spec.idArg = c.idArg
  decisions : spec.decisions =
    [⟨c.acceptTool, c.accepted, c.byArg, fun _ f => f⟩, rejectedBy c.rejectTool]
  apart : [c.proposeTool, c.acceptTool, c.rejectTool].Nodup
  known : ∀ t ∈ [c.proposeTool, c.acceptTool, c.rejectTool], t ∈ Part.all.flatMap Part.tools
  accepted : c.accepted ≠ .rejected ∧ c.accepted ≠ .proposed

section
variable {py : Interp} {F : Type} {c : Scan} {spec : AxisSpec F} {k : String × String} {e : LedgerRow}

/-- What an entry makes of what is kept of the id `k`. -/
def keptStep (py : Interp) (c : Scan) (spec : AxisSpec F) (k : String × String) (r : Option Scanned)
    (e : LedgerRow) : Option Scanned :=
  match spec.proposal? py k e with
  | some args => if c.asked args then some (c.propose args r) else r
  | none =>
    match spec.decision? py k e with
    | some (d, args) => r.map fun r => { r with
        state := d.state
        note := if d.state = c.accepted then some (e.ts, (args.get c.byArg).text py) else none }
    | none => r

/-- What a scan keeps of an id. -/
def kept (seen : Dictionary String Scanned) (id : String) : Option Scanned := (seen.get? id).map Prod.snd

theorem kept_put (seen : Dictionary String Scanned) (id id' : String) (r : Scanned) :
    kept (seen.put (id, r)) id' = if id = id' then some r else kept seen id' := by
  rw [kept, Table.get?_put]
  split
  · rfl
  · rfl

theorem kept_decideAt {args : Dict} (hargs : executeArgs e = args) (f : Dict → Scanned → Scanned)
    (seen : Dictionary String Scanned) (id : String) :
    kept (decideAt py c e f seen) id =
      if (args.get c.idArg).text py ≠ "" ∧ (args.get c.idArg).text py = id then
        (kept seen id).map (f args)
      else kept seen id := by
  simp only [decideAt, hargs]
  by_cases hempty : (args.get c.idArg).text py = ""
  · rw [if_pos hempty, if_neg fun h => h.1 hempty]
  · rw [if_neg hempty]
    by_cases hid : (args.get c.idArg).text py = id
    · rw [if_pos ⟨hempty, hid⟩, hid]
      cases hget : seen.get? id with
      | none => simp [kept, hget]
      | some p =>
        have hput := kept_put seen id id (f args p.2)
        rw [if_pos rfl] at hput
        exact hput.trans (by simp [kept, hget])
    · rw [if_neg fun h => hid h.2]
      cases hget : seen.get? ((args.get c.idArg).text py) with
      | none => rfl
      | some p => rw [kept_put, if_neg hid]

/-- A row of the ledger changes what is kept of each id as `keptStep` says. -/
theorem kept_scanRow (hreads : c.Reads spec) {s s' : State} (h : applyEntry py s e = .ok s')
    (hcompany : e.company = k.1) (seen : Dictionary String Scanned) :
    kept (scanRow py c seen e) k.2 = keptStep py c spec k (kept seen k.2) e := by
  obtain ⟨company, id⟩ := k
  obtain rfl : e.company = company := hcompany
  have hapart := hreads.apart
  simp only [List.nodup_cons, List.mem_cons, List.not_mem_nil, or_false, not_or] at hapart
  obtain ⟨⟨hpa, hpr⟩, har, -⟩ := hapart
  cases hact : e.action with
  | none =>
    have hno : ∀ t ∈ [c.proposeTool, c.acceptTool, c.rejectTool], isEmitTool e t = false :=
      fun t ht => isEmitTool_none h hact (hreads.known t ht)
    simp only [List.forall_mem_cons] at hno
    simp [scanRow, hno.1, hno.2.1, hno.2.2.1, keptStep, AxisSpec.proposal?, AxisSpec.decision?, hact]
  | some call =>
    obtain ⟨tool, args⟩ := call
    have hargs := executeArgs_action hact
    have hkey : spec.keyOf py e args = some (e.company, id) ↔
        (args.get c.idArg).text py ≠ "" ∧ (args.get c.idArg).text py = id := by
      rw [keyOf_eq_some, hreads.idArg]
      simp
    simp only [scanRow, isEmitTool_action hact, decide_eq_true_eq, keptStep, AxisSpec.proposal?,
      AxisSpec.decision?, hact, hreads.proposeTool, hkey, hreads.decisions]
    by_cases hpropose : tool = c.proposeTool
    · have hnone : c.acceptTool ≠ tool ∧ c.rejectTool ≠ tool := by
        rw [hpropose]
        exact ⟨Ne.symm hpa, Ne.symm hpr⟩
      simp only [hpropose, if_true, true_and, hargs]
      by_cases hempty : (args.get c.idArg).text py = ""
      · have hno : ¬((args.get c.idArg).text py ≠ "" ∧ (args.get c.idArg).text py = id) := fun h => h.1 hempty
        simp only [hempty, if_true]
        simp
      · by_cases hid : (args.get c.idArg).text py = id
        · subst hid
          simp only [hempty, if_false, ne_eq, not_false_eq_true, and_self, if_true]
          split
          · rw [kept_put, if_pos rfl]
            rfl
          · rfl
        · simp only [hempty, if_false, hid, and_false]
          split
          · rw [kept_put, if_neg hid]
          · rfl
    · simp only [hpropose, if_false, false_and]
      by_cases haccept : tool = c.acceptTool
      · subst haccept
        rw [if_pos rfl, kept_decideAt hargs]
        by_cases hid : (args.get c.idArg).text py ≠ "" ∧ (args.get c.idArg).text py = id
        · simp only [if_pos hid, List.find?_cons, decide_true, Option.map_some, if_true]
        · simp only [if_neg hid]
      · rw [if_neg haccept]
        by_cases hreject : tool = c.rejectTool
        · subst hreject
          rw [if_pos rfl, kept_decideAt hargs]
          by_cases hid : (args.get c.idArg).text py ≠ "" ∧ (args.get c.idArg).text py = id
          · have hne : Verdict.rejected ≠ c.accepted := Ne.symm hreads.accepted.1
            simp only [if_pos hid, List.find?_cons, har, decide_false, rejectedBy, decide_true,
              Option.map_some, hne, if_false]
          · simp only [if_neg hid]
        · have hfind : ([⟨c.acceptTool, c.accepted, c.byArg, fun _ f => f⟩, rejectedBy c.rejectTool] :
              List (Decision F)).find? (fun d => d.tool = tool) = none := by
            simp [rejectedBy, Ne.symm haccept, Ne.symm hreject]
          simp only [hreject, if_false, hfind, Option.map_none, ite_self]

theorem kept_scan (hreads : c.Reads spec) : ∀ {rows : List LedgerRow} {s s' : State},
    foldEntries py s rows = .ok s' → (∀ e ∈ rows, e.company = k.1) →
      ∀ seen, kept (rows.foldl (scanRow py c) seen) k.2 =
        rows.foldl (keptStep py c spec k) (kept seen k.2)
  | [], _, _, _, _, _ => rfl
  | e :: rows, s, s', h, hcompany, seen => by
    obtain ⟨u, hu, h⟩ := foldEntries_cons.mp h
    obtain ⟨he, hrows⟩ := List.forall_mem_cons.mp hcompany
    rw [List.foldl_cons, List.foldl_cons, ← kept_scanRow hreads hu he]
    exact kept_scan hreads h hrows _

/-! ### The row of the id -/

/-- The args of some proposal of the id. -/
def Proposed (py : Interp) (spec : AxisSpec F) (k : String × String) (rows : List LedgerRow)
    (args : Dict) : Prop := ∃ e ∈ rows, spec.proposal? py k e = some args

/-- The row has the columns that a proposal with these args dumps. -/
structure Dumped (py : Interp) (spec : AxisSpec F) (args : Dict) (row : AxisRow F) : Prop where
  facts : row.facts = spec.facts args
  confidence : row.confidence = confidenceOf args
  strategy : row.strategy = (args.get "strategy").text py

/-- The note says when and by whom the row reached the listed state. -/
def Noted (c : Scan) (row : AxisRow F) (r : Scanned) : Prop :=
  r.state = c.accepted → ∃ by', r.note = some (row.stateChangedAt, by') ∧ row.stateChangedBy = some by'

theorem Proposed.concat {rows : List LedgerRow} {args : Dict} (h : Proposed py spec k rows args) :
    Proposed py spec k (rows ++ [e]) args := by
  obtain ⟨e', he', hprop⟩ := h
  exact ⟨e', List.mem_append_left _ he', hprop⟩

/-- A decision of the scan is one of its two. -/
theorem decision_cases (hreads : c.Reads spec) {d : Decision F} {args : Dict}
    (h : spec.decision? py k e = some (d, args)) :
    (d.state = c.accepted ∧ d.byArg = c.byArg ∨ d.state = .rejected) ∧ ∀ f, d.note args f = f := by
  have hmem := decision?_mem h
  rw [hreads.decisions] at hmem
  simp only [List.mem_cons, List.not_mem_nil, or_false] at hmem
  rcases hmem with rfl | rfl
  · exact ⟨.inl ⟨rfl, rfl⟩, fun _ => rfl⟩
  · exact ⟨.inr rfl, fun _ => rfl⟩

/-- A decision leaves the columns, and notes what the row has of it. -/
theorem decided_dumped (hreads : c.Reads spec) {d : Decision F} {args args' : Dict} {row : AxisRow F}
    (r : Scanned) (h : spec.decision? py k e = some (d, args)) (hrow : Dumped py spec args' row) :
    Dumped py spec args' (d.decided py e args row) ∧ Noted c (d.decided py e args row) { r with
      state := d.state
      note := if d.state = c.accepted then some (e.ts, (args.get c.byArg).text py) else none } := by
  obtain ⟨hcases, hnote⟩ := decision_cases hreads h
  refine ⟨⟨(hnote _).trans hrow.facts, hrow.confidence, hrow.strategy⟩, fun haccepted => ?_⟩
  have haccepted : d.state = c.accepted := haccepted
  rcases hcases with ⟨-, hby⟩ | hrejected
  · exact ⟨_, by rw [if_pos haccepted, ← hby]; rfl, rfl⟩
  · exact absurd (haccepted.symm.trans hrejected) hreads.accepted.1

/-! ### A reader that keeps the state -/

/-- What is kept follows the row; nothing is kept of a row that is not asked for. -/
def Follows (py : Interp) (c : Scan) (spec : AxisSpec F) (k : String × String) (rows : List LedgerRow)
    (row : Option (AxisRow F)) : Option Scanned → Prop
  | some r => ∃ row', row = some row' ∧ Proposed py spec k rows r.args ∧ Dumped py spec r.args row' ∧
      c.asked r.args = true ∧ row'.state = r.state ∧ Noted c row' r
  | none => ∀ row', row = some row' →
      ∃ args, Proposed py spec k rows args ∧ Dumped py spec args row' ∧ c.asked args = false

/-- Proposals of one id are asked for alike, and a later one leaves nothing of an earlier one. -/
def OneKey (py : Interp) (c : Scan) (spec : AxisSpec F) (k : String × String) (rows : List LedgerRow) :
    Prop := ∀ args args', Proposed py spec k rows args → Proposed py spec k rows args' →
      spec.refresh (spec.facts args) (spec.facts args') = spec.facts args' ∧ c.asked args = c.asked args'

theorem follows_step (hreads : c.Reads spec) (hpropose : c.propose = keepState) {rows : List LedgerRow}
    (hkey : OneKey py c spec k (rows ++ [e])) {row : Option (AxisRow F)} {r : Option Scanned}
    (h : Follows py c spec k rows row r) :
    Follows py c spec k (rows ++ [e]) (spec.rowStep py k row e) (keptStep py c spec k r e) := by
  cases hprop : spec.proposal? py k e with
  | some args =>
    have hnew : Proposed py spec k (rows ++ [e]) args := ⟨e, by simp, hprop⟩
    simp only [AxisSpec.rowStep, keptStep, hprop, hpropose]
    cases r with
    | some r =>
      obtain ⟨row', rfl, hold, hdumped, hasked, hstate, hnoted⟩ := h
      obtain ⟨hrefresh, hsame⟩ := hkey _ _ hold.concat hnew
      rw [if_pos (hsame ▸ hasked)]
      refine ⟨_, rfl, hnew, ⟨?_, rfl, rfl⟩, hsame ▸ hasked, hstate, fun haccepted => ?_⟩
      · exact (congrArg (spec.refresh · _) hdumped.facts).trans hrefresh
      · have haccepted : r.state = c.accepted := haccepted
        have hdecided : row'.state ≠ .proposed := by
          rw [hstate, haccepted]
          exact hreads.accepted.2
        obtain ⟨by', hnote, hby⟩ := hnoted haccepted
        exact ⟨by', by simp only [keepState, hnote, AxisSpec.refreshed, hdecided, if_false], hby⟩
    | none =>
      cases row with
      | none =>
        cases hasked : c.asked args with
        | true =>
          simp only [if_true]
          exact ⟨_, rfl, hnew, ⟨rfl, rfl, rfl⟩, hasked, rfl, fun h => absurd h.symm hreads.accepted.2⟩
        | false =>
          simp only [Bool.false_eq_true, if_false]
          rintro row' rfl'
          obtain rfl := Option.some.inj rfl'
          exact ⟨args, hnew, ⟨rfl, rfl, rfl⟩, hasked⟩
      | some row =>
        obtain ⟨old, hold, hdumped, hasked⟩ := h row rfl
        obtain ⟨hrefresh, hsame⟩ := hkey _ _ hold.concat hnew
        have hasked : c.asked args = false := hsame ▸ hasked
        simp only [hasked, Bool.false_eq_true, if_false]
        rintro row' rfl'
        obtain rfl := Option.some.inj rfl'
        exact ⟨args, hnew, ⟨(congrArg (spec.refresh · _) hdumped.facts).trans hrefresh, rfl, rfl⟩, hasked⟩
  | none =>
    simp only [AxisSpec.rowStep, keptStep, hprop]
    cases hdec : spec.decision? py k e with
    | none =>
      simp only
      cases r with
      | some r =>
        obtain ⟨row', hrow, hold, hrest⟩ := h
        exact ⟨row', hrow, hold.concat, hrest⟩
      | none =>
        intro row' hrow
        obtain ⟨args, hold, hrest⟩ := h row' hrow
        exact ⟨args, hold.concat, hrest⟩
    | some p =>
      obtain ⟨d, args⟩ := p
      simp only
      cases r with
      | some r =>
        obtain ⟨row', rfl, hold, hdumped, hasked, -, -⟩ := h
        obtain ⟨hdumped, hnoted⟩ := decided_dumped hreads r hdec hdumped
        exact ⟨_, rfl, hold.concat, hdumped, hasked, rfl, hnoted⟩
      | none =>
        intro row' hrow
        obtain ⟨row, rfl, rfl⟩ := Option.map_eq_some_iff.mp hrow
        obtain ⟨old, hold, hdumped, hasked⟩ := h row rfl
        exact ⟨old, hold.concat, (decided_dumped hreads ⟨[], .proposed, none⟩ hdec hdumped).1, hasked⟩

theorem follows_run (hreads : c.Reads spec) (hpropose : c.propose = keepState) (rows : List LedgerRow) :
    OneKey py c spec k rows → Follows py c spec k rows (rows.foldl (spec.rowStep py k) none)
      (rows.foldl (keptStep py c spec k) none) := by
  induction rows using List.reverseRecOn with
  | nil =>
    intro _ row' h
    cases h
  | append_singleton rows e ih =>
    intro hkey
    rw [List.foldl_append, List.foldl_append]
    exact follows_step hreads hpropose hkey
      (ih fun args args' h h' => hkey args args' h.concat h'.concat)

/-! ### A reader that starts over -/

/-- The id was proposed again after the last decision on it. -/
def Reproposed (py : Interp) (spec : AxisSpec F) (k : String × String) (rows : List LedgerRow) : Prop :=
  ∃ e ∈ rows.rtakeWhile fun e => (spec.decision? py k e).isNone, (spec.proposal? py k e).isSome

/-- What is kept is the row, at the start again where it was proposed again. -/
def StartsOver (py : Interp) (c : Scan) (spec : AxisSpec F) (k : String × String) (rows : List LedgerRow) :
    Option (AxisRow F) → Option Scanned → Prop
  | none, none => True
  | some row, some r => Proposed py spec k rows r.args ∧ Dumped py spec r.args row ∧
      (Reproposed py spec k rows → r.state = .proposed) ∧
      (¬Reproposed py spec k rows → r.state = row.state) ∧ Noted c row r
  | _, _ => False

theorem reproposed_concat {rows : List LedgerRow} : Reproposed py spec k (rows ++ [e]) ↔
    spec.decision? py k e = none ∧ (Reproposed py spec k rows ∨ (spec.proposal? py k e).isSome) := by
  rw [Reproposed, List.rtakeWhile_concat]
  cases hdec : spec.decision? py k e with
  | some p => simp
  | none =>
    simp only [Option.isNone_none, if_true, true_and, List.mem_append, List.mem_singleton, Reproposed]
    constructor
    · rintro ⟨e', he' | rfl, hprop⟩
      · exact .inl ⟨e', he', hprop⟩
      · exact .inr hprop
    · rintro (⟨e', he', hprop⟩ | hprop)
      · exact ⟨e', .inl he', hprop⟩
      · exact ⟨e, .inr rfl, hprop⟩

theorem startsOver_step (hreads : c.Reads spec) (hs : spec.Sound) (hpropose : c.propose = startOver)
    (hasked : ∀ args, c.asked args = true) (hrefresh : ∀ old new, spec.refresh old new = new)
    {rows : List LedgerRow} {row : Option (AxisRow F)} {r : Option Scanned}
    (h : StartsOver py c spec k rows row r) :
    StartsOver py c spec k (rows ++ [e]) (spec.rowStep py k row e) (keptStep py c spec k r e) := by
  cases hprop : spec.proposal? py k e with
  | some args =>
    have hnew : Proposed py spec k (rows ++ [e]) args := ⟨e, by simp, hprop⟩
    have hagain : Reproposed py spec k (rows ++ [e]) :=
      reproposed_concat.mpr ⟨decision?_of_proposal hs hprop, .inr (by rw [hprop]; rfl)⟩
    have hnoted : ∀ row' : AxisRow F, Noted c row' (startOver args r) :=
      fun _ h => absurd h.symm hreads.accepted.2
    simp only [AxisSpec.rowStep, keptStep, hprop, hpropose, hasked, if_true]
    cases row with
    | none => exact ⟨hnew, ⟨rfl, rfl, rfl⟩, fun _ => rfl, fun hno => absurd hagain hno, hnoted _⟩
    | some row =>
      exact ⟨hnew, ⟨hrefresh _ _, rfl, rfl⟩, fun _ => rfl, fun hno => absurd hagain hno, hnoted _⟩
  | none =>
    simp only [AxisSpec.rowStep, keptStep, hprop]
    cases hdec : spec.decision? py k e with
    | none =>
      have hsame : Reproposed py spec k (rows ++ [e]) ↔ Reproposed py spec k rows := by
        simp [reproposed_concat, hdec, hprop]
      cases row with
      | none =>
        cases r with
        | none => exact h
        | some r => exact h
      | some row =>
        cases r with
        | none => exact h
        | some r =>
          obtain ⟨hold, hdumped, hyes, hno, hnoted⟩ := h
          exact ⟨hold.concat, hdumped, hyes ∘ hsame.mp, hno ∘ mt hsame.mpr, hnoted⟩
    | some p =>
      obtain ⟨d, args⟩ := p
      have hdone : ¬Reproposed py spec k (rows ++ [e]) := by simp [reproposed_concat, hdec]
      cases row with
      | none =>
        cases r with
        | none => exact h
        | some r => exact h
      | some row =>
        cases r with
        | none => exact h
        | some r =>
          obtain ⟨hold, hdumped, -, -, -⟩ := h
          obtain ⟨hdumped, hnoted⟩ := decided_dumped hreads r hdec hdumped
          exact ⟨hold.concat, hdumped, fun h => absurd h hdone, fun _ => rfl, hnoted⟩

theorem startsOver_run (hreads : c.Reads spec) (hs : spec.Sound) (hpropose : c.propose = startOver)
    (hasked : ∀ args, c.asked args = true) (hrefresh : ∀ old new, spec.refresh old new = new)
    (rows : List LedgerRow) : StartsOver py c spec k rows (rows.foldl (spec.rowStep py k) none)
      (rows.foldl (keptStep py c spec k) none) := by
  induction rows using List.reverseRecOn with
  | nil => trivial
  | append_singleton rows e ih =>
    rw [List.foldl_append, List.foldl_append]
    exact startsOver_step hreads hs hpropose hasked hrefresh ih

end

end Readers
