import Wormbase.Projection.Parts
import Wormbase.Projection.Output

/-! The state law of the propose/decide axes.

    A row is a function of the entries that name its key (`get?_foldlM`), so the law is proved for
    one row, by induction on the ledger from its end: the first proposal opens the row, and from
    then on the last decision names its state. -/

namespace Projection
open Py

section
variable (py : Interp) {F : Type} (spec : AxisSpec F)

/-! ### Entries that name a row -/

/-- The key that args name, unless the id is empty. -/
def AxisSpec.keyOf (e : LedgerRow) (args : Dict) : Option (String × String) :=
  let id := (args.get spec.idArg).text py
  if id = "" then none else some (e.company, id)

/-- The args of a proposal of the row `k`. -/
def AxisSpec.proposal? (k : String × String) (e : LedgerRow) : Option Dict :=
  match e.action with
  | some (tool, args) =>
    if tool = spec.proposeTool ∧ spec.keyOf py e args = some k then some args else none
  | none => none

/-- A decision on the row `k`, with its args. -/
def AxisSpec.decision? (k : String × String) (e : LedgerRow) : Option (Decision F × Dict) :=
  match e.action with
  | some (tool, args) =>
    if spec.keyOf py e args = some k then
      (spec.decisions.find? fun d => d.tool = tool).map fun d => (d, args)
    else none
  | none => none

/-- The decisions on `k` from its first proposal on, each with its entry. -/
def AxisSpec.decisionsAfter (k : String × String) (es : List LedgerRow) :
    List (LedgerRow × Decision F × Dict) :=
  (es.dropWhile fun e => (spec.proposal? py k e).isNone).filterMap fun e =>
    (spec.decision? py k e).map fun d => (e, d)

/-- The proposals of `k`, each with its entry. -/
def AxisSpec.proposals (k : String × String) (es : List LedgerRow) : List (LedgerRow × Dict) :=
  es.filterMap fun e => (spec.proposal? py k e).map fun args => (e, args)

/-! ### One row -/

/-- The confidence of a proposal that the fold has taken. -/
def confidenceOf (args : Dict) : PyFloat :=
  (args.getD "confidence" (.float (.finite false 0))).toFloat.toOption.getD .nan

/-- The row that a first proposal writes. -/
def AxisSpec.opened (k : String × String) (e : LedgerRow) (args : Dict) : AxisRow F where
  companyId := k.1
  id := k.2
  facts := spec.facts args
  confidence := confidenceOf args
  strategy := (args.get "strategy").text py
  reasoning := (args.get "reasoning").text py
  evidence := dictOrEmpty (args.get "evidence")
  state := .proposed
  stateChangedAt := e.ts
  stateChangedBy := none

/-- A row after a further proposal: the state and who changed it stay. -/
def AxisSpec.refreshed (e : LedgerRow) (args : Dict) (row : AxisRow F) : AxisRow F :=
  { row with
    facts := spec.refresh row.facts (spec.facts args)
    confidence := confidenceOf args
    strategy := (args.get "strategy").text py
    reasoning := (args.get "reasoning").text py
    evidence := dictOrEmpty (args.get "evidence")
    stateChangedAt := if row.state = .proposed then e.ts else row.stateChangedAt }

/-- A row after a decision. -/
def Decision.decided (d : Decision F) (e : LedgerRow) (args : Dict) (row : AxisRow F) : AxisRow F :=
  { row with
    facts := d.note args row.facts
    state := d.state
    stateChangedAt := e.ts
    stateChangedBy := some ((args.get d.byArg).text py) }

/-- What an entry makes of the row `k`. -/
def AxisSpec.rowStep (k : String × String) (row : Option (AxisRow F)) (e : LedgerRow) :
    Option (AxisRow F) :=
  match spec.proposal? py k e with
  | some args =>
    match row with
    | none => some (spec.opened py k e args)
    | some r => some (spec.refreshed py e args r)
  | none =>
    match spec.decision? py k e with
    | some (d, args) => row.map (d.decided py e args)
    | none => row

end

section
variable {py : Interp} {F : Type} {spec : AxisSpec F} {e : LedgerRow} {args : Dict}
  {t t' : AxisTable F} {k : String × String}

theorem keyOf_eq_some : spec.keyOf py e args = some k ↔
    (args.get spec.idArg).text py ≠ "" ∧ (e.company, (args.get spec.idArg).text py) = k := by
  simp only [AxisSpec.keyOf]
  split <;> simp_all

theorem opened_key : (spec.opened py k e args).key = k := rfl

theorem refreshed_key (row : AxisRow F) : (spec.refreshed py e args row).key = row.key := rfl

theorem decided_key (d : Decision F) (row : AxisRow F) : (d.decided py e args row).key = row.key :=
  rfl

/-- A proposal with an id puts one row: the opened one, or the refreshed one. -/
theorem applyProposal_ok (h : applyProposal py spec e args t = .ok t') :
    (spec.keyOf py e args = none ∧ t' = t) ∨
    ∃ k, spec.keyOf py e args = some k ∧ t' = t.put (match t.get? k with
      | none => spec.opened py k e args
      | some row => spec.refreshed py e args row) := by
  simp only [applyProposal] at h
  simp only [AxisSpec.keyOf]
  split at h
  · rename_i hid
    exact .inl ⟨if_pos hid, (Except.ok.inj h).symm⟩
  · rename_i hid
    obtain ⟨c, hc, h⟩ := bind_eq_ok.mp h
    have hconf : confidenceOf args = c := by rw [confidenceOf, hc]; rfl
    refine .inr ⟨_, if_neg hid, ?_⟩
    cases hget : t.get? (e.company, (args.get spec.idArg).text py) with
    | none =>
      simp only [hget] at h
      rw [← Except.ok.inj h, AxisSpec.opened, hconf]
    | some row =>
      simp only [hget] at h
      rw [← Except.ok.inj h]
      simp only [AxisSpec.refreshed, hconf]

/-- A decision puts the decided row where there is one. -/
theorem applyDecision_ok {d : Decision F} (h : applyDecision py spec d e args t = .ok t') :
    (spec.keyOf py e args = none ∧ t' = t) ∨
    ∃ k, spec.keyOf py e args = some k ∧ t' = match t.get? k with
      | none => t
      | some row => t.put (d.decided py e args row) := by
  simp only [applyDecision] at h
  simp only [AxisSpec.keyOf]
  split at h
  · rename_i hid
    exact .inl ⟨if_pos hid, (Except.ok.inj h).symm⟩
  · rename_i hid
    refine .inr ⟨_, if_neg hid, ?_⟩
    cases hget : t.get? (e.company, (args.get spec.idArg).text py) with
    | none =>
      simp only [hget] at h
      exact (Except.ok.inj h).symm
    | some row =>
      simp only [hget] at h
      exact (Except.ok.inj h).symm

/-- The handler of a tool: the proposal's, or that of the first decision with this tool. -/
theorem lookup_handlers (tool : String) : (spec.handlers py).lookup tool =
    if tool = spec.proposeTool then some (applyProposal py spec)
    else (spec.decisions.find? fun d => d.tool = tool).map (applyDecision py spec) := by
  have hdec : ∀ ds : List (Decision F),
      (ds.map fun d => (d.tool, applyDecision py spec d)).lookup tool =
        (ds.find? fun d => d.tool = tool).map (applyDecision py spec) := by
    intro ds
    induction ds with
    | nil => rfl
    | cons d ds ih =>
      rw [List.map_cons, List.lookup_cons, List.find?_cons, ih]
      by_cases hd : d.tool = tool
      · simp [hd]
      · have hbeq : (tool == d.tool) = false := by simpa using Ne.symm hd
        simp [hd, hbeq]
  rw [AxisSpec.handlers, List.lookup_cons, hdec]
  by_cases htool : tool = spec.proposeTool
  · simp [htool]
  · have hbeq : (tool == spec.proposeTool) = false := by simpa using htool
    simp [htool, hbeq]

/-- One action changes the row that it names, as `rowStep` says, and no other. -/
theorem get?_act {tool : String} (hact : e.action = some (tool, args))
    (h : (match (spec.handlers py).lookup tool with
      | some run => run e args t
      | none => .ok t) = .ok t') (k : String × String) :
    t'.get? k = spec.rowStep py k (t.get? k) e := by
  rw [lookup_handlers] at h
  simp only [AxisSpec.rowStep, AxisSpec.proposal?, AxisSpec.decision?, hact]
  by_cases htool : tool = spec.proposeTool
  · simp only [htool, if_true, true_and] at h ⊢
    rcases applyProposal_ok h with ⟨hkey, rfl⟩ | ⟨k', hkey, rfl⟩
    · simp [hkey]
    · rw [Table.get?_put]
      by_cases hk : k' = k
      · subst hk
        have hrow : (match t.get? k' with
            | none => spec.opened py k' e args
            | some row => spec.refreshed py e args row).key = k' := by
          cases hget : t.get? k' with
          | none => rfl
          | some row => exact (Table.get?_eq_some_iff.mp hget).2
        rw [if_pos hrow, if_pos hkey]
        cases t.get? k' <;> rfl
      · have hrow : (match t.get? k' with
            | none => spec.opened py k' e args
            | some row => spec.refreshed py e args row).key ≠ k := by
          cases hget : t.get? k' with
          | none => exact hk
          | some row => exact fun heq => hk ((Table.get?_eq_some_iff.mp hget).2.symm.trans heq)
        simp [hrow, hkey, hk]
  · simp only [htool, if_false, false_and] at h ⊢
    cases hfind : spec.decisions.find? fun d => d.tool = tool with
    | none =>
      simp only [hfind, Option.map_none] at h ⊢
      rw [Except.ok.inj h]
      simp
    | some d =>
      simp only [hfind, Option.map_some] at h ⊢
      rcases applyDecision_ok h with ⟨hkey, rfl⟩ | ⟨k', hkey, rfl⟩
      · simp [hkey]
      · by_cases hk : k' = k
        · subst hk
          cases hget : t.get? k' with
          | none => simp [hkey, hget]
          | some row =>
            have hrow : (d.decided py e args row).key = k' := (Table.get?_eq_some_iff.mp hget).2
            simp [hkey, Table.get?_put, hrow]
        · cases hget : t.get? k' with
          | none => simp [hkey, hk]
          | some row =>
            have hrow : (d.decided py e args row).key ≠ k := fun heq =>
              hk ((Table.get?_eq_some_iff.mp hget).2.symm.trans heq)
            simp [hkey, hk, Table.get?_put, hrow]

/-- One entry changes the row `k` as `rowStep` says. -/
theorem get?_step {a : Axis} {t t' : AxisTable a.Facts} (h : actAt py (.axis a) t e = .ok t')
    (k : String × String) : t'.get? k = (a.spec py).rowStep py k (t.get? k) e := by
  unfold actAt at h
  cases hact : e.action with
  | none =>
    rw [hact] at h
    rw [Except.ok.inj h]
    simp [AxisSpec.rowStep, AxisSpec.proposal?, AxisSpec.decision?, hact]
  | some act =>
    obtain ⟨tool, args⟩ := act
    rw [hact] at h
    refine @get?_act py _ (a.spec py) e args t t' tool hact ?_ k
    cases hrun : ((a.spec py).handlers py).lookup tool with
    | none =>
      have hnone : ((Part.axis a).handlers py).lookup tool = none := hrun
      simpa [hnone] using h
    | some run =>
      have hsome : ((Part.axis a).handlers py).lookup tool = some run := hrun
      simpa [hsome] using h

theorem get?_foldlM {a : Axis} {t' : AxisTable a.Facts} (k : String × String) :
    ∀ {es : List LedgerRow} {t : AxisTable a.Facts}, es.foldlM (stepAt py (.axis a)) t = .ok t' →
      t'.get? k = es.foldl ((a.spec py).rowStep py k) (t.get? k)
  | [], _, h => by rw [Except.ok.inj h]; rfl
  | e :: es, t, h => by
    obtain ⟨u, hu, h⟩ := bind_eq_ok.mp h
    rw [stepAt_plain (by simp)] at hu
    rw [List.foldl_cons, ← get?_step hu k]
    exact get?_foldlM k h

end

/-! ### The law of one row -/

/-- No decision puts a row back to `proposed`, and no deciding tool proposes. -/
structure AxisSpec.Sound {F : Type} (spec : AxisSpec F) : Prop where
  decides : ∀ d ∈ spec.decisions, d.state ≠ .proposed
  apart : ∀ d ∈ spec.decisions, d.tool ≠ spec.proposeTool

theorem axis_decisions (py : Interp) (a : Axis) :
    (a.spec py).decisions.map (fun d => (d.state, d.tool)) =
      (a.spec .plain).decisions.map fun d => (d.state, d.tool) := by
  cases a <;> rfl

theorem axis_proposeTool (py : Interp) (a : Axis) :
    (a.spec py).proposeTool = (a.spec .plain).proposeTool := by
  cases a <;> rfl

theorem axis_sound (py : Interp) (a : Axis) : (a.spec py).Sound := by
  have hall : ∀ p ∈ (a.spec .plain).decisions.map fun d => (d.state, d.tool),
      p.1 ≠ .proposed ∧ p.2 ≠ (a.spec .plain).proposeTool := by
    cases a <;> decide
  rw [← axis_decisions py a, ← axis_proposeTool py a] at hall
  exact ⟨fun d hd => (hall _ (List.mem_map_of_mem hd)).1,
    fun d hd => (hall _ (List.mem_map_of_mem hd)).2⟩

/-- What a row says, given the ledger: the inference is that of the last proposal, the state that
    of the last decision since the first one. -/
structure RowLaw (py : Interp) {F : Type} (spec : AxisSpec F) (k : String × String)
    (es : List LedgerRow) (r : AxisRow F) : Prop where
  inference : ∃ e args, (spec.proposals py k es).getLast? = some (e, args) ∧
    r.confidence = confidenceOf args ∧ r.strategy = (args.get "strategy").text py ∧
    r.reasoning = (args.get "reasoning").text py ∧
    r.evidence = dictOrEmpty (args.get "evidence")
  undecided : (spec.decisionsAfter py k es).getLast? = none →
    r.state = .proposed ∧ r.stateChangedBy = none
  decided : ∀ e d args, (spec.decisionsAfter py k es).getLast? = some (e, d, args) →
    r.state = d.state ∧ r.stateChangedAt = e.ts ∧
      r.stateChangedBy = some ((args.get d.byArg).text py)

section
variable {py : Interp} {F : Type} {spec : AxisSpec F} {k : String × String} {es : List LedgerRow}
  {e : LedgerRow} {args : Dict}

theorem proposals_append : spec.proposals py k (es ++ [e]) =
    spec.proposals py k es ++ ((spec.proposal? py k e).map fun args => (e, args)).toList := by
  rw [AxisSpec.proposals, List.filterMap_append]
  cases h : spec.proposal? py k e <;> simp [AxisSpec.proposals, h]

theorem proposals_eq_nil : spec.proposals py k es = [] ↔ ∀ e ∈ es, spec.proposal? py k e = none := by
  simp [AxisSpec.proposals]

/-- Before the first proposal no decision counts. -/
theorem decisionsAfter_of_none (h : spec.proposals py k es = []) :
    spec.decisionsAfter py k (es ++ [e]) =
      if (spec.proposal? py k e).isSome then
        ((spec.decision? py k e).map fun d => (e, d)).toList
      else [] := by
  have hall := proposals_eq_nil.mp h
  have hdrop : es.dropWhile (fun e => (spec.proposal? py k e).isNone) = [] :=
    List.dropWhile_eq_nil_iff.mpr fun e he => by simp [hall e he]
  rw [AxisSpec.decisionsAfter, List.dropWhile_append, hdrop]
  cases hp : spec.proposal? py k e with
  | none => simp [hp]
  | some args => cases hd : spec.decision? py k e <;> simp [hp, hd]

/-- After it each one does. -/
theorem decisionsAfter_of_some (h : spec.proposals py k es ≠ []) :
    spec.decisionsAfter py k (es ++ [e]) = spec.decisionsAfter py k es ++
      ((spec.decision? py k e).map fun d => (e, d)).toList := by
  have hdrop : es.dropWhile (fun e => (spec.proposal? py k e).isNone) ≠ [] := fun hnil =>
    h (proposals_eq_nil.mpr fun e he => by simpa using List.dropWhile_eq_nil_iff.mp hnil e he)
  rw [AxisSpec.decisionsAfter, List.dropWhile_append, if_neg (by simpa using hdrop),
    List.filterMap_append]
  cases hd : spec.decision? py k e <;> simp [AxisSpec.decisionsAfter, hd]

theorem decision?_mem {d : Decision F} (h : spec.decision? py k e = some (d, args)) :
    d ∈ spec.decisions := by
  unfold AxisSpec.decision? at h
  split at h
  · split at h
    · obtain ⟨d', hd', heq⟩ := Option.map_eq_some_iff.mp h
      exact (Prod.mk.inj heq).1 ▸ List.mem_of_find?_eq_some hd'
    · cases h
  · cases h

theorem decision?_of_proposal (hs : spec.Sound) (h : spec.proposal? py k e = some args) :
    spec.decision? py k e = none := by
  unfold AxisSpec.proposal? at h
  unfold AxisSpec.decision?
  split at h
  · rename_i tool args' hact
    split at h
    · rename_i hcond
      have hnone : (spec.decisions.find? fun d => d.tool = tool) = none :=
        List.find?_eq_none.mpr fun d hd => by simpa [hcond.1] using hs.apart d hd
      simp [hnone]
    · cases h
  · cases h

/-- A row is there exactly after a proposal. -/
theorem rowAfter_eq_none : es.foldl (spec.rowStep py k) none = none ↔
    spec.proposals py k es = [] := by
  induction es using List.reverseRecOn with
  | nil => simp [AxisSpec.proposals]
  | append_singleton es e ih =>
    rw [List.foldl_append, proposals_append]
    simp only [List.foldl_cons, List.foldl_nil]
    generalize es.foldl (spec.rowStep py k) none = row at ih ⊢
    unfold AxisSpec.rowStep
    cases hp : spec.proposal? py k e with
    | some args => cases row <;> simp
    | none =>
      cases hd : spec.decision? py k e with
      | none => simp [ih]
      | some d => cases row <;> simp_all

/-- The law holds of a row from the proposal that opens it to the end of the ledger. -/
theorem rowAfter_law (hs : spec.Sound) {r : AxisRow F} :
    es.foldl (spec.rowStep py k) none = some r → RowLaw py spec k es r := by
  induction es using List.reverseRecOn generalizing r with
  | nil => intro h; cases h
  | append_singleton es e ih =>
    intro h
    rw [List.foldl_append] at h
    simp only [List.foldl_cons, List.foldl_nil] at h
    have hnone := @rowAfter_eq_none py _ spec k es
    cases hrow : es.foldl (spec.rowStep py k) none with
    | none =>
      have hnil := hnone.mp hrow
      rw [hrow] at h
      cases hp : spec.proposal? py k e with
      | none =>
        simp only [AxisSpec.rowStep, hp] at h
        cases hd : spec.decision? py k e with
        | none => simp [hd] at h
        | some d => simp [hd] at h
      | some args =>
        simp only [AxisSpec.rowStep, hp] at h
        obtain rfl := Option.some.inj h
        have hlog : spec.decisionsAfter py k (es ++ [e]) = [] := by
          rw [decisionsAfter_of_none hnil, decision?_of_proposal hs hp]
          simp
        exact {
          inference := ⟨e, args, by simp [proposals_append, hnil, hp], rfl, rfl, rfl, rfl⟩
          undecided := fun _ => ⟨rfl, rfl⟩
          decided := fun e' d args' hlast => by simp [hlog] at hlast }
    | some row =>
      have hsome : spec.proposals py k es ≠ [] := fun hnil => by simp [hnone.mpr hnil] at hrow
      obtain ⟨hinf, hund, hdec⟩ := ih hrow
      rw [hrow] at h
      cases hp : spec.proposal? py k e with
      | some args =>
        -- a further proposal: the decisions and so the state are as before
        simp only [AxisSpec.rowStep, hp] at h
        obtain rfl := Option.some.inj h
        have hlog : spec.decisionsAfter py k (es ++ [e]) = spec.decisionsAfter py k es := by
          rw [decisionsAfter_of_some hsome, decision?_of_proposal hs hp]
          simp
        refine ⟨⟨e, args, by simp [proposals_append, hp], rfl, rfl, rfl, rfl⟩, ?_, ?_⟩
        · intro hlast
          exact hund (hlog ▸ hlast)
        · intro e' d args' hlast
          rw [hlog] at hlast
          obtain ⟨hstate, hat, hby⟩ := hdec e' d args' hlast
          have hmem : (e', d, args') ∈ spec.decisionsAfter py k es := List.mem_of_getLast? hlast
          obtain ⟨e'', -, heq⟩ := List.mem_filterMap.mp hmem
          obtain ⟨dd, hdd, heq⟩ := Option.map_eq_some_iff.mp heq
          obtain ⟨rfl, rfl⟩ := Prod.mk.inj heq
          have hne : row.state ≠ .proposed := hstate ▸ hs.decides d (decision?_mem hdd)
          exact ⟨hstate, by simp [AxisSpec.refreshed, hne, hat], hby⟩
      | none =>
        have hinf' : spec.proposals py k (es ++ [e]) = spec.proposals py k es := by
          simp [proposals_append, hp]
        simp only [AxisSpec.rowStep, hp] at h
        cases hd : spec.decision? py k e with
        | none =>
          simp only [hd] at h
          obtain rfl := Option.some.inj h
          have hlog : spec.decisionsAfter py k (es ++ [e]) = spec.decisionsAfter py k es := by
            rw [decisionsAfter_of_some hsome, hd]
            simp
          exact ⟨hinf' ▸ hinf, hlog ▸ hund, hlog ▸ hdec⟩
        | some dd =>
          obtain ⟨d, args⟩ := dd
          simp only [hd, Option.map_some] at h
          obtain rfl := Option.some.inj h
          have hlast : (spec.decisionsAfter py k (es ++ [e])).getLast? = some (e, d, args) := by
            rw [decisionsAfter_of_some hsome, hd]
            simp
          refine ⟨hinf' ▸ hinf, fun hnil => ?_, fun e' d' args' h' => ?_⟩
          · rw [hlast] at hnil
            cases hnil
          · rw [hlast] at h'
            obtain ⟨rfl, hpair⟩ := Prod.mk.inj (Option.some.inj h')
            obtain ⟨rfl, rfl⟩ := Prod.mk.inj hpair
            exact ⟨rfl, rfl, rfl⟩

end

/-! ### The law of one table -/

/-- One row for each key that has a proposal, and every row as its entries say. -/
structure AxisLaw (py : Interp) {F : Type} (spec : AxisSpec F) (es : List LedgerRow)
    (rows : List (AxisRow F)) : Prop where
  unique : (rows.map AxisRow.key).Nodup
  proposed : ∀ k, (∃ r ∈ rows, r.key = k) ↔ ∃ e ∈ es, (spec.proposal? py k e).isSome
  row : ∀ r ∈ rows, RowLaw py spec r.key es r

section
variable {py : Interp} {a : Axis} {es : List LedgerRow} {p : Projections}

theorem axes_perm (h : projectionsOf py es = .ok p) : ∃ s : State,
    foldEntries py initialProjectionState es = .ok s ∧ (p.axes a).Perm (s (.axis a)).rows ∧
      p.axes a = sortRows (fun r => [r.companyId, r.id]) (s (.axis a)).rows := by
  obtain ⟨s, hs, hp⟩ := projectionsOf_ok h
  obtain ⟨kpis, -, hp⟩ := bind_eq_ok.mp hp
  obtain ⟨installs, -, hp⟩ := bind_eq_ok.mp hp
  obtain rfl := Except.ok.inj hp
  exact ⟨s, hs, sortRows_perm _ _, rfl⟩

theorem get?_axis {s : State} (h : foldEntries py initialProjectionState es = .ok s)
    (k : String × String) :
    (s (.axis a)).get? k = es.foldl ((a.spec py).rowStep py k) none :=
  get?_foldlM k (foldEntries_at h (.axis a))

theorem mem_axes (h : projectionsOf py es = .ok p) {r : AxisRow a.Facts} :
    r ∈ p.axes a ↔ es.foldl ((a.spec py).rowStep py r.key) none = some r := by
  obtain ⟨s, hs, hperm, -⟩ := @axes_perm py a es p h
  rw [hperm.mem_iff, ← get?_axis hs, Table.get?_eq_some_iff]
  simp

theorem axes_law (h : projectionsOf py es = .ok p) :
    AxisLaw py (a.spec py) es (p.axes a) := by
  obtain ⟨s, hs, hperm, -⟩ := @axes_perm py a es p h
  refine ⟨(hperm.map _).nodup_iff.mpr (s (.axis a)).nodup, fun k => ?_, fun r hr =>
    rowAfter_law (axis_sound py a) ((mem_axes h).mp hr)⟩
  have hnone := @rowAfter_eq_none py _ (a.spec py) k es
  constructor
  · rintro ⟨r, hr, rfl⟩
    by_contra hall
    push Not at hall
    have := hnone.mpr (proposals_eq_nil.mpr fun e he => by simpa using hall e he)
    rw [(mem_axes h).mp hr] at this
    cases this
  · rintro ⟨e, he, hprop⟩
    cases hrow : es.foldl ((a.spec py).rowStep py k) none with
    | none =>
      rw [proposals_eq_nil.mp (hnone.mp hrow) e he] at hprop
      cases hprop
    | some r =>
      have hget := get?_axis (a := a) hs k
      rw [hrow] at hget
      obtain ⟨hr, hkey⟩ := Table.get?_eq_some_iff.mp hget
      exact ⟨r, hperm.mem_iff.mpr hr, hkey⟩

/-- A further proposal refreshes the row that is there. -/
theorem axes_refreshed {e : LedgerRow} {args : Dict} {p' : Projections} {r : AxisRow a.Facts}
    (h : projectionsOf py es = .ok p) (h' : projectionsOf py (es ++ [e]) = .ok p')
    (hr : r ∈ p.axes a) (hprop : (a.spec py).proposal? py r.key e = some args) :
    (a.spec py).refreshed py e args r ∈ p'.axes a := by
  rw [mem_axes h']
  rw [refreshed_key, List.foldl_append, (mem_axes h).mp hr]
  simp [AxisSpec.rowStep, hprop]

/-- A decision on a key without a row leaves the table as it is. -/
theorem act_dangling {t t' : AxisTable a.Facts} {e : LedgerRow} {k : String × String}
    (h : stepAt py (.axis a) t e = .ok t') (hget : t.get? k = none)
    (hdec : ((a.spec py).decision? py k e).isSome) : t' = t := by
  rw [stepAt_plain (by simp)] at h
  unfold actAt at h
  unfold AxisSpec.decision? at hdec
  cases hact : e.action with
  | none => simp [hact] at hdec
  | some act =>
    obtain ⟨tool, args⟩ := act
    simp only [hact] at h hdec
    split at hdec
    · rename_i hkey
      obtain ⟨d, hd⟩ : ∃ d, ((a.spec py).decisions.find? fun d => d.tool = tool) = some d := by
        cases hfind : (a.spec py).decisions.find? fun d => d.tool = tool with
        | none => simp [hfind] at hdec
        | some d => exact ⟨d, rfl⟩
      have htool : tool ≠ (a.spec py).proposeTool := by
        have hdt : d.tool = tool := by simpa using List.find?_some hd
        exact hdt ▸ (axis_sound py a).apart d (List.mem_of_find?_eq_some hd)
      have hlookup : ((Part.axis a).handlers py).lookup tool =
          some (applyDecision py (a.spec py) d) := by
        have := @lookup_handlers py _ (a.spec py) tool
        rwa [if_neg htool, hd] at this
      rw [hlookup] at h
      rcases applyDecision_ok h with ⟨hnone, -⟩ | ⟨k', hk', rfl⟩
      · rw [hkey] at hnone
        cases hnone
      · obtain rfl := Option.some.inj (hkey.symm.trans hk')
        rw [hget]
    · cases hdec

/-- So the table is the same without it. -/
theorem axes_dangling {es₁ es₂ : List LedgerRow} {e : LedgerRow} {k : String × String}
    {p' : Projections} (h : projectionsOf py (es₁ ++ e :: es₂) = .ok p)
    (h' : projectionsOf py (es₁ ++ es₂) = .ok p')
    (hdec : ((a.spec py).decision? py k e).isSome)
    (hnew : ∀ e' ∈ es₁, (a.spec py).proposal? py k e' = none) : p.axes a = p'.axes a := by
  obtain ⟨s, hs, -, hp⟩ := @axes_perm py a _ p h
  obtain ⟨s', hs', -, hp'⟩ := @axes_perm py a _ p' h'
  have hat := foldEntries_at hs (.axis a)
  have hat' := foldEntries_at hs' (.axis a)
  rw [List.foldlM_append] at hat hat'
  obtain ⟨t, ht, hrest⟩ := bind_eq_ok.mp hat
  obtain ⟨t', ht', hrest'⟩ := bind_eq_ok.mp hat'
  obtain rfl := Except.ok.inj (ht.symm.trans ht')
  obtain ⟨u, hu, hlast⟩ := bind_eq_ok.mp hrest
  have hget : t.get? k = none := by
    rw [get?_foldlM k ht]
    exact rowAfter_eq_none.mpr (proposals_eq_nil.mpr hnew)
  obtain rfl := act_dangling hu hget hdec
  rw [hp, hp', Except.ok.inj (hlast.symm.trans hrest')]

end

/-! ### The fold of axis entries returns -/

/-- An entry that no other part looks at: of another kind than `execute`, or the action of an axis
    with a confidence that is a number. -/
def AxisEntry (py : Interp) (e : LedgerRow) : Prop :=
  ∃ payload, e.payload = .dict payload ∧ envelopeBranch py payload = none ∧
    (e.kind = "execute" → ∃ (a : Axis) (tool : String) (args : Dict),
      e.action = some (tool, args) ∧ tool ∈ a.tools ∧
        ∃ x, (args.getD "confidence" (.float (.finite false 0))).toFloat = .ok x)

section
variable {py : Interp}

theorem axisHandler_returns {F : Type} {spec : AxisSpec F} {tool : String} {run : Fold (AxisTable F)}
    (hmem : (tool, run) ∈ spec.handlers py) {e : LedgerRow} {args : Dict} {x : PyFloat}
    (hx : (args.getD "confidence" (.float (.finite false 0))).toFloat = .ok x) (t : AxisTable F) :
    ∃ t', run e args t = .ok t' := by
  rcases List.mem_cons.mp hmem with heq | hmem
  · obtain rfl := (Prod.mk.inj heq).2
    simp only [applyProposal, hx]
    split
    · exact ⟨t, rfl⟩
    · cases t.get? (e.company, (args.get spec.idArg).text py) <;> exact ⟨_, rfl⟩
  · obtain ⟨d, -, heq⟩ := List.mem_map.mp hmem
    obtain rfl := (Prod.mk.inj heq).2
    simp only [applyDecision]
    split
    · exact ⟨t, rfl⟩
    · cases t.get? (e.company, (args.get spec.idArg).text py) <;> exact ⟨_, rfl⟩

/-- An axis entry is folded, and leaves the parts that are neither an axis nor a counter. -/
theorem axisEntry_applies {e : LedgerRow} (h : AxisEntry py e) (s : State) :
    ∃ s', applyEntry py s e = .ok s' ∧
      ∀ p : Part, (∀ a, p ≠ .axis a) → p ≠ .counts → s' p = s p := by
  obtain ⟨payload, hpayload, hshape, haxis⟩ := h
  have henv : (if e.kind ∈ ["propose", "execute", "verify", "resolve"] then
      applyPevrEnvelope py e s else .ok s) = .ok s := by
    split
    · simp [applyPevrEnvelope, hpayload, hshape]
    · rfl
  simp only [applyEntry, henv]
  by_cases hkind : e.kind = "execute"
  · obtain ⟨a, tool, args, hact, htool, x, hx⟩ := haxis hkind
    obtain ⟨⟨tool', run⟩, hmem, rfl⟩ := List.mem_map.mp (axis_tools py a ▸ htool)
    have hmem' : (tool', run) ∈ (Part.axis a).handlers py := hmem
    have hlookup : (branches py).lookup tool' = some ⟨.axis a, run⟩ :=
      (lookup_branches py).mpr ((lookup_iff_mem (handlers_nodup py _)).mpr hmem')
    obtain ⟨t, ht⟩ := axisHandler_returns hmem (e := e) hx (s (.axis a))
    unfold LedgerRow.action at hact
    rw [if_pos hkind, hpayload] at hact
    simp only at hact
    split at hact
    · rename_i tool'' args' htool' hargs
      obtain ⟨rfl, rfl⟩ := Prod.mk.inj (Option.some.inj hact)
      have hexec : applyExecute py e s = .ok (Function.update s (.axis a) t) := by
        simp only [applyExecute, hpayload, htool', hlookup, hargs, State.onPart]
        rw [ht]
        rfl
      refine ⟨Function.update s (.axis a) t, ?_, fun p hp _ => Function.update_of_ne (hp a) _ _⟩
      simp [bind, Except.bind, hkind, hexec]
    · cases hact
  · refine ⟨Function.update s .counts (countChat e (s .counts)), ?_, fun p _ hp =>
      Function.update_of_ne hp _ _⟩
    simp [bind, Except.bind, pure, Except.pure, hkind, State.onPart]

theorem axisEntries_fold : ∀ {es : List LedgerRow} {s : State}, (∀ e ∈ es, AxisEntry py e) →
    ∃ s', foldEntries py s es = .ok s' ∧
      ∀ p : Part, (∀ a, p ≠ .axis a) → p ≠ .counts → s' p = s p
  | [], s, _ => ⟨s, rfl, fun _ _ _ => rfl⟩
  | e :: es, s, h => by
    obtain ⟨t, ht, hsame⟩ := axisEntry_applies (h e List.mem_cons_self) s
    obtain ⟨s', hs', hsame'⟩ := axisEntries_fold (s := t) fun e he => h e (List.mem_cons_of_mem _ he)
    refine ⟨s', ?_, fun p ha hc => (hsame' p ha hc).trans (hsame p ha hc)⟩
    simp only [foldEntries, List.foldlM_cons, ht]
    exact hs'

theorem axisEntries_return {es : List LedgerRow} (h : ∀ e ∈ es, AxisEntry py e) :
    ∃ p, projectionsOf py es = .ok p := by
  obtain ⟨s, hs, hsame⟩ := axisEntries_fold (s := initialProjectionState) h
  have hkpi : s .kpiNodes = Table.empty := hsame .kpiNodes (fun a => by simp) (by simp)
  have hinst : s .installs = Table.empty := hsame .installs (fun a => by simp) (by simp)
  obtain ⟨p, hp⟩ := @stateToProjections_ok py _ hkpi hinst
  exact ⟨p, by rw [projectionsOf, hs]; exact hp⟩

/-- The state law of the eight axes: entries of the axes are always folded; and whatever ledger the
    fold takes, each table has one row for each proposed key, a decided row is as the last decision
    after its first proposal says, a re-proposal refreshes a row without touching its state, and a
    decision on a key that was not proposed before has no effect. -/
theorem axes_follow_decisions (py : Interp) (a : Axis) (es : List LedgerRow) :
    ((∀ e ∈ es, AxisEntry py e) → ∃ p, projectionsOf py es = .ok p) ∧
    ∀ p, projectionsOf py es = .ok p →
      AxisLaw py (a.spec py) es (p.axes a) ∧
      (∀ e args p', projectionsOf py (es ++ [e]) = .ok p' → ∀ r ∈ p.axes a,
        (a.spec py).proposal? py r.key e = some args →
          (a.spec py).refreshed py e args r ∈ p'.axes a) ∧
      ∀ es₁ e es₂ k p', es = es₁ ++ e :: es₂ → projectionsOf py (es₁ ++ es₂) = .ok p' →
        ((a.spec py).decision? py k e).isSome →
          (∀ e' ∈ es₁, (a.spec py).proposal? py k e' = none) → p.axes a = p'.axes a := by
  refine ⟨axisEntries_return, fun p h => ⟨axes_law h, ?_, ?_⟩⟩
  · intro e args p' h' r hr hprop
    exact axes_refreshed h h' hr hprop
  · rintro es₁ e es₂ k p' rfl h' hdec hnew
    exact axes_dangling h h' hdec hnew

end

/-- An edge that is proposed, confirmed and proposed again. -/
def sampleEdge : List LedgerRow :=
  [executed 1 "emit_lineage_edge_proposed" [(.str "edge_id", .str "e1")],
    executed 2 "emit_lineage_edge_confirmed"
      [(.str "edge_id", .str "e1"), (.str "confirmed_by_person_id", .str "ana")],
    executed 3 "emit_lineage_edge_proposed" [(.str "edge_id", .str "e1")]]

theorem sampleEdge_entries : ∀ e ∈ sampleEdge, AxisEntry .plain e := by
  intro e he
  simp only [sampleEdge, List.mem_cons, List.not_mem_nil, or_false] at he
  rcases he with rfl | rfl | rfl
  all_goals exact ⟨_, rfl, rfl, fun _ => ⟨.lineageEdges, _, _, rfl, by decide, _, rfl⟩⟩

theorem sampleEdge_follows_decisions : ∃ p, projectionsOf .plain sampleEdge = .ok p ∧
    AxisLaw .plain (Axis.lineageEdges.spec .plain) sampleEdge (p.axes .lineageEdges) := by
  obtain ⟨hret, hlaw⟩ := axes_follow_decisions .plain .lineageEdges sampleEdge
  obtain ⟨p, hp⟩ := hret sampleEdge_entries
  exact ⟨p, hp, (hlaw p hp).1⟩

end Projection
