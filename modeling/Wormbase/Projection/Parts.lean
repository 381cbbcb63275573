import Wormbase.Projection.Build

/-! Every part of the state is folded on its own.

    A step changes at most the part of its tool's branch and the part of its payload's shape, so
    what one part becomes depends on that part and the entries alone. -/

namespace Projection
open Py

section
variable {β : Type}

/-- Where the keys are distinct, looking one up finds its item. -/
theorem lookup_iff_mem {k : String} {v : β} : ∀ {l : List (String × β)}, (l.map Prod.fst).Nodup →
    (l.lookup k = some v ↔ (k, v) ∈ l)
  | [], _ => by simp
  | (k', v') :: l, h => by
    obtain ⟨hk, h⟩ := List.nodup_cons.mp h
    have ih := lookup_iff_mem (k := k) (v := v) h
    by_cases heq : k = k'
    · subst heq
      have hnot : (k, v) ∉ l := fun hmem =>
        hk (List.mem_map.mpr ⟨_, hmem, rfl⟩)
      simp [hnot, eq_comm]
    · have hbeq : (k == k') = false := by simpa using heq
      simp [List.lookup_cons, hbeq, ih, heq]

end

section
variable (py : Interp)

/-! ### Tools -/

theorem handlers_fst {F : Type} (spec : AxisSpec F) : (spec.handlers py).map Prod.fst =
    spec.proposeTool :: spec.decisions.map Decision.tool := by
  simp [AxisSpec.handlers]

def Axis.tools (a : Axis) : List String :=
  let spec := a.spec .plain
  spec.proposeTool :: spec.decisions.map Decision.tool

theorem axis_tools (a : Axis) : ((a.spec py).handlers py).map Prod.fst = a.tools := by
  rw [handlers_fst]
  cases a <;> rfl

/-- The tools whose branches write a part. -/
def Part.tools (p : Part) : List String := (p.handlers .plain).map Prod.fst

theorem part_tools (p : Part) : (p.handlers py).map Prod.fst = p.tools := by
  cases p with
  | axis a => exact (axis_tools py a).trans (axis_tools _ a).symm
  | _ => simp only [Part.handlers, Part.tools, List.map_cons, List.map_nil]

/-- No tool has two branches. -/
theorem tools_nodup : (Part.all.flatMap Part.tools).Nodup := by decide +kernel

theorem Part.mem_all (p : Part) : p ∈ Part.all := by
  cases p with
  | axis a => cases a <;> decide
  | _ => decide

theorem branches_fst : (branches py).map Prod.fst = Part.all.flatMap Part.tools := by
  have hpart : ∀ p : Part, ((p.handlers py).map fun h => (h.1, Branch.mk p h.2)).map Prod.fst =
      p.tools := fun p => by
    rw [List.map_map]
    exact part_tools py p
  simp only [branches, List.map_flatMap, hpart]

theorem mem_branches {tool : String} {p : Part} {run : Fold p.Carrier} :
    (tool, ⟨p, run⟩) ∈ branches py ↔ (tool, run) ∈ p.handlers py := by
  simp only [branches, List.mem_flatMap, List.mem_map]
  constructor
  · rintro ⟨q, -, ⟨tool', run'⟩, hmem, heq⟩
    obtain ⟨rfl, hb⟩ := Prod.mk.inj heq
    cases hb
    exact hmem
  · intro h
    exact ⟨p, p.mem_all, (tool, run), h, rfl⟩

theorem handlers_nodup (p : Part) : ((p.handlers py).map Prod.fst).Nodup := by
  rw [part_tools]
  exact List.nodup_flatMap.mp tools_nodup |>.1 p p.mem_all

/-- The branch of a tool is the handler that its part has for it. -/
theorem lookup_branches {tool : String} {p : Part} {run : Fold p.Carrier} :
    (branches py).lookup tool = some ⟨p, run⟩ ↔ (p.handlers py).lookup tool = some run := by
  rw [lookup_iff_mem (branches_fst py ▸ tools_nodup), lookup_iff_mem (handlers_nodup py p),
    mem_branches]

/-! ### One part -/

/-- The tool and the args of an execute entry that calls one. -/
def LedgerRow.action (e : LedgerRow) : Option (String × Dict) :=
  if e.kind = "execute" then
    match e.payload with
    | .dict payload =>
      match Dict.get payload "tool", Dict.getD payload "args" (.dict []) with
      | .str tool, .dict args => some (tool, args)
      | _, _ => none
    | _ => none
  else none

/-- What the action of an entry does to a part. -/
def actAt (p : Part) (t : p.Carrier) (e : LedgerRow) : Except Err p.Carrier :=
  match e.action with
  | some (tool, args) =>
    match (p.handlers py).lookup tool with
    | some run => run e args t
    | none => .ok t
  | none => .ok t

/-- What the shape of an entry's payload does to a part. -/
def envelopeAt (p : Part) (t : p.Carrier) (e : LedgerRow) : Except Err p.Carrier :=
  match e.payload with
  | .dict payload =>
    if e.kind ∈ ["propose", "execute", "verify", "resolve"] then
      match p with
      | .agentQueries => if isAgentQueryPayload payload then applyAgentQuery e payload t else .ok t
      | .credentials =>
        if !isAgentQueryPayload payload && isCredentialPayload payload then
          applyCredential py e payload t
        else .ok t
      | .queryTemplates =>
        if !isAgentQueryPayload payload && !isCredentialPayload payload &&
            isQueryTemplatePromotedPayload payload then
          applyQueryTemplate py e payload t
        else .ok t
      | _ => .ok t
    else .ok t
  | _ => .ok t

def countAt (p : Part) (t : p.Carrier) (e : LedgerRow) : p.Carrier :=
  match p with
  | .counts => if e.kind = "execute" then t else countChat e t
  | _ => t

/-- One entry, seen from one part. -/
def stepAt (p : Part) (t : p.Carrier) (e : LedgerRow) : Except Err p.Carrier := do
  let t ← envelopeAt py p t e
  let t ← actAt py p t e
  return countAt p t e

variable {py} {s s' : State} {e : LedgerRow}

/-- A fold on one part leaves the others. -/
theorem onPart_ok {q : Part} {f : q.Carrier → Except Err q.Carrier} (h : s.onPart q f = .ok s') :
    f (s q) = .ok (s' q) ∧ ∀ p, p ≠ q → s' p = s p := by
  obtain ⟨t, ht, h⟩ := bind_eq_ok.mp h
  obtain rfl := Except.ok.inj h
  refine ⟨?_, fun p hp => Function.update_of_ne hp _ _⟩
  rw [Function.update_self]
  exact ht

theorem applyExecute_at (hkind : e.kind = "execute") (h : applyExecute py e s = .ok s') (p : Part) :
    actAt py p (s p) e = .ok (s' p) := by
  unfold applyExecute at h
  split at h
  · rename_i payload hpayload
    split at h
    · rename_i tool htool
      cases hlookup : (branches py).lookup tool with
      | none =>
        rw [hlookup] at h
        obtain rfl := Except.ok.inj h
        have hnone : (p.handlers py).lookup tool = none := by
          cases hp : (p.handlers py).lookup tool with
          | none => rfl
          | some run => rw [(lookup_branches py).mpr hp] at hlookup; cases hlookup
        simp only [actAt, LedgerRow.action, hkind, if_true, hpayload, htool]
        cases Dict.getD payload "args" (.dict []) <;> simp [hnone]
      | some b =>
        obtain ⟨q, run⟩ := b
        rw [hlookup] at h
        simp only at h
        split at h
        · rename_i args hargs
          obtain ⟨hq, hother⟩ := onPart_ok h
          simp only [actAt, LedgerRow.action, hkind, if_true, hpayload, htool, hargs]
          by_cases hpq : p = q
          · subst hpq
            rw [(lookup_branches py).mp hlookup]
            exact hq
          · have hnone : (p.handlers py).lookup tool = none := by
              cases hp : (p.handlers py).lookup tool with
              | none => rfl
              | some run' =>
                have heq := Option.some.inj (((lookup_branches py).mpr hp).symm.trans hlookup)
                exact absurd (congrArg Branch.part heq) hpq
            rw [hnone, hother p hpq]
        · cases h
    · rename_i htool
      obtain rfl := Except.ok.inj h
      have hnone : e.action = none := by
        simp only [LedgerRow.action, hkind, if_true, hpayload]
        split
        · rename_i tool args h1 h2
          exact absurd h1 (htool tool)
        · rfl
      simp [actAt, hnone]
  · cases h

theorem applyPevrEnvelope_at (hkind : e.kind ∈ ["propose", "execute", "verify", "resolve"])
    (h : applyPevrEnvelope py e s = .ok s') (p : Part) : envelopeAt py p (s p) e = .ok (s' p) := by
  unfold applyPevrEnvelope at h
  unfold envelopeAt
  split at h
  · rename_i payload hpayload
    simp only [hpayload, hkind, if_true]
    unfold envelopeBranch at h
    by_cases hquery : isAgentQueryPayload payload
    · simp only [hquery, if_true] at h ⊢
      obtain ⟨hq, hother⟩ := onPart_ok h
      by_cases hp : p = .agentQueries
      · subst hp
        exact hq
      · rw [hother p hp]
        cases p <;> simp_all
    · by_cases hcred : isCredentialPayload payload
      · simp only [hquery, hcred, if_true, Bool.false_eq_true, if_false] at h ⊢
        obtain ⟨hq, hother⟩ := onPart_ok h
        by_cases hp : p = .credentials
        · subst hp
          simpa using hq
        · rw [hother p hp]
          cases p <;> simp_all
      · by_cases htemplate : isQueryTemplatePromotedPayload payload
        · simp only [hquery, hcred, htemplate, if_true, Bool.false_eq_true, if_false] at h ⊢
          obtain ⟨hq, hother⟩ := onPart_ok h
          by_cases hp : p = .queryTemplates
          · subst hp
            simpa using hq
          · rw [hother p hp]
            cases p <;> simp_all
        · simp only [hquery, hcred, htemplate, Bool.false_eq_true, if_false] at h
          obtain rfl := Except.ok.inj h
          cases p <;> simp_all
  · rename_i hpayload
    obtain rfl := Except.ok.inj h
    cases hdict : e.payload with
    | dict payload => exact absurd hdict (hpayload payload)
    | _ => rfl

theorem applyEntry_at (h : applyEntry py s e = .ok s') (p : Part) :
    stepAt py p (s p) e = .ok (s' p) := by
  unfold applyEntry at h
  obtain ⟨u, hu, h⟩ := bind_eq_ok.mp h
  have henv : envelopeAt py p (s p) e = .ok (u p) := by
    split at hu
    · rename_i hkind
      exact applyPevrEnvelope_at hkind hu p
    · rename_i hkind
      obtain rfl := Except.ok.inj hu
      unfold envelopeAt
      split
      · rw [if_neg hkind]
      · rfl
  unfold stepAt
  rw [henv]
  by_cases hkind : e.kind = "execute"
  · rw [if_pos hkind] at h
    have hact := applyExecute_at hkind h p
    have hcount : countAt p (s' p) e = s' p := by cases p <;> simp [countAt, hkind]
    simp [bind, Except.bind, pure, Except.pure, hact, hcount]
  · rw [if_neg hkind] at h
    obtain ⟨hcounts, hother⟩ := onPart_ok h
    have hact : actAt py p (u p) e = .ok (u p) := by
      simp [actAt, LedgerRow.action, hkind]
    have hcount : countAt p (u p) e = s' p := by
      by_cases hp : p = .counts
      · subst hp
        simp only [countAt, hkind]
        exact Except.ok.inj hcounts
      · rw [hother p hp]
        cases p <;> simp_all [countAt]
    simp [bind, Except.bind, pure, Except.pure, hact, hcount]

/-- Most parts are written by actions alone. -/
theorem stepAt_plain {p : Part} (hp : p ∉ [.agentQueries, .credentials, .queryTemplates, .counts])
    (t : p.Carrier) (e : LedgerRow) : stepAt py p t e = actAt py p t e := by
  have henv : envelopeAt py p t e = .ok t := by
    unfold envelopeAt
    split
    · split
      · cases p <;> simp_all
      · rfl
    · rfl
  have hcount : ∀ t, countAt p t e = t := by
    intro t
    cases p <;> simp_all [countAt]
  unfold stepAt
  rw [henv]
  cases hact : actAt py p t e with
  | error x => simp [bind, Except.bind, hact]
  | ok t' => simp [bind, Except.bind, pure, Except.pure, hact, hcount]

theorem foldEntries_append {xs ys : List LedgerRow} {s s' : State} :
    foldEntries py s (xs ++ ys) = .ok s' ↔
      ∃ u, foldEntries py s xs = .ok u ∧ foldEntries py u ys = .ok s' := by
  rw [foldEntries, List.foldlM_append, bind_eq_ok]
  rfl

theorem foldEntries_cons {ys : List LedgerRow} {s s' : State} :
    foldEntries py s (e :: ys) = .ok s' ↔
      ∃ u, applyEntry py s e = .ok u ∧ foldEntries py u ys = .ok s' := by
  rw [foldEntries, List.foldlM_cons, bind_eq_ok]
  rfl

/-- The fold of the whole state is, at each part, the fold of that part. -/
theorem foldEntries_at : ∀ {es : List LedgerRow} {s : State}, foldEntries py s es = .ok s' →
    ∀ p, es.foldlM (stepAt py p) (s p) = .ok (s' p)
  | [], _, h, _ => by rw [Except.ok.inj h]; rfl
  | e :: es, s, h, p => by
    obtain ⟨t, ht, h⟩ := bind_eq_ok.mp h
    rw [List.foldlM_cons, applyEntry_at ht p]
    exact foldEntries_at h p

/-- What every step keeps of a part, the fold keeps. -/
theorem foldAt_invariant {p : Part} {P : p.Carrier → Prop} : ∀ {es : List LedgerRow}
    {t t' : p.Carrier}, (∀ e ∈ es, ∀ t t', P t → stepAt py p t e = .ok t' → P t') → P t →
      es.foldlM (stepAt py p) t = .ok t' → P t'
  | [], _, _, _, ht, h => Except.ok.inj h ▸ ht
  | e :: es, t, _, hstep, ht, h => by
    obtain ⟨u, hu, h⟩ := bind_eq_ok.mp h
    exact foldAt_invariant (fun e he => hstep e (List.mem_cons_of_mem _ he))
      (hstep e List.mem_cons_self t u ht hu) h

end

end Projection
