import Mathlib.Data.Set.List
import Wormbase.Projection.Output
import Wormbase.WriteActions.Effects

/-! What a request does to persons and identities, and what the two views say of it afterwards. -/

namespace WriteActions
open Py Projection

/-! ### The views of a ledger -/

/-- The projection assigns the identity to the person. -/
def Assigns (p : Projections) (person : UUID) (i : Ident) : Prop :=
  ∃ r ∈ p.personIdentities, r.personId = person ∧ r.platform = i.1 ∧ r.platformUserId = i.2

/-- A person that the projection has and that is not archived. -/
def Alive (p : Projections) (person : UUID) : Prop :=
  ∃ r ∈ p.persons, r.personId = person ∧ r.status ≠ .archived

section
variable {py : Interp} {company : UUID} {rows : List LedgerRow} {s : State} {att : UUID → Attached}

theorem Reads.projections (h : Reads py company rows s att) : ∃ p, projectionsOf py rows = .ok p ∧
    (∀ q i, Assigns p q i ↔ ((standing company (s .people) att).holding i).register = some q) ∧
    ∀ q, Alive p q ↔ q ∈ (standing company (s .people) att).live := by
  obtain ⟨p, hp⟩ := @stateToProjections_ok py _ h.kpiNodes h.installs
  have hproj : projectionsOf py rows = .ok p := by simp [projectionsOf, h.state, hp, bind, Except.bind]
  have hmem : ∀ {κ ρ : Type} [DecidableEq κ] (f : κ → List String) (t : Dictionary κ ρ) (r : ρ),
      r ∈ sortedValues f t ↔ ∃ kr ∈ t.rows, kr.2 = r := fun f t r => by
    rw [(sortedValues_perm f t).mem_iff, List.mem_map]
  have hfields : p.personIdentities = sortedValues (fun k => [k.1, k.2.1, k.2.2]) (s .people).identities ∧
      p.persons = sortedValues (fun k => [k]) (s .people).persons := by
    obtain ⟨kpi, hkpi, hp⟩ := bind_eq_ok.mp hp
    obtain ⟨installs, hinstalls, hp⟩ := bind_eq_ok.mp hp
    obtain rfl := Except.ok.inj hp
    exact ⟨rfl, rfl⟩
  refine ⟨p, hproj, fun q i => ?_, fun q => ?_⟩
  · simp only [Assigns, hfields.1, hmem, standing, holderIn, Option.map_eq_some_iff,
      Table.get?_eq_some_iff]
    constructor
    · rintro ⟨r, ⟨kr, hkr, rfl⟩, hq, hplatform, hpuid⟩
      exact ⟨kr, ⟨hkr, by rw [h.identities kr hkr, hplatform, hpuid]⟩, hq⟩
    · rintro ⟨kr, ⟨hkr, hkey⟩, hq⟩
      rw [h.identities kr hkr, Prod.mk.injEq, Prod.mk.injEq] at hkey
      exact ⟨kr.2, ⟨kr, hkr, rfl⟩, hq, hkey.2.1, hkey.2.2⟩
  · simp only [Alive, hfields.2, hmem, standing, mem_liveIn]
    constructor
    · rintro ⟨r, ⟨kr, hkr, rfl⟩, hq⟩
      exact ⟨kr, hkr, hq⟩
    · rintro ⟨kr, hkr, hq⟩
      exact ⟨kr.2, ⟨kr, hkr, rfl⟩, hq⟩

/-- The fold of a person returns the identities of its accounts, each once. -/
theorem Reads.identitiesOf (h : Reads py company rows s att) (p : UUID) : ∃ ids : List Ident,
    currentIdentitiesForPerson rows p = .ok (ids.map key) ∧ ids.Nodup ∧ (∀ i ∈ ids, Named i) ∧
      ∀ i, i ∈ ids ↔ p ∈ ((standing company (s .people) att).holding i).accounts := by
  have hfold : currentIdentitiesForPerson rows p =
      .ok ((((att p).rows.filter Prod.snd).map Prod.fst)) := by
    rw [currentIdentitiesForPerson, h.attached p]
    rfl
  have hrange : ((att p).rows.filter Prod.snd).map Prod.fst ∈ Set.range (List.map key) := by
    rw [Set.range_list_map]
    intro k hk
    obtain ⟨kb, hkb, rfl⟩ := List.mem_map.mp hk
    obtain ⟨i, hi, -⟩ := h.named p kb (List.mem_filter.mp hkb).1
    exact ⟨i, hi.symm⟩
  obtain ⟨ids, hids⟩ := hrange
  have hmem : ∀ i, i ∈ ids ↔ (key i, true) ∈ (att p).rows := by
    intro i
    rw [← List.mem_map_of_injective key_injective, hids, List.mem_map]
    constructor
    · rintro ⟨⟨k, b⟩, hkb, rfl⟩
      obtain ⟨hkb, rfl⟩ := List.mem_filter.mp hkb
      exact hkb
    · intro hi
      exact ⟨_, List.mem_filter.mpr ⟨hi, rfl⟩, rfl⟩
  refine ⟨ids, hids ▸ hfold, ?_, fun i hi => ?_, fun i => ?_⟩
  · refine List.Nodup.of_map key ?_
    rw [hids]
    exact (att p).nodup.sublist (List.filter_sublist.map _)
  · obtain ⟨j, hj, hnamed⟩ := h.named p _ ((hmem i).mp hi)
    exact key_injective hj ▸ hnamed
  · rw [hmem]
    exact ⟨fun hi => Table.get?_eq_some_iff.mpr ⟨hi, rfl⟩, fun hi => (Table.get?_eq_some_iff.mp hi).1⟩

end

/-! ### The calls of a request -/

/-- A request that is refused before its first call. -/
def Refused : WriteAction → Prop
  | .mergePersons keeper mergee _ => keeper = mergee
  | .splitPerson _ _ _ _ _ items _ => ∀ seed rest, normalised items ≠ .ok (seed :: rest)
  | .proposePerson .. | .linkIdentity .. | .unlinkIdentity .. | .archivePerson .. => False

section
variable {py : Interp} {company : UUID} {stamp : ℕ → Stamp} {rows : List LedgerRow} {s : State}
  {att : UUID → Attached}

theorem Reads.writes {calls : List Pevr} {deeds : List Deed}
    (hcalls : List.Forall₂ (Does py company) calls deeds) (h : Reads py company rows s att) :
    ∃ s' att', Reads py company (writeAll company stamp rows calls) s' att' ∧
      standing company (s' .people) att' = (standing company (s .people) att).afterAll deeds := by
  induction hcalls generalizing rows s att with
  | nil => exact ⟨s, att, h, rfl⟩
  | cons hc _ ih =>
    obtain ⟨s₁, att₁, h₁, hstanding₁⟩ := h.does hc (stamp rows.length)
    obtain ⟨s', att', h', hstanding⟩ := ih h₁
    refine ⟨s', att', h', ?_⟩
    rw [hstanding, hstanding₁]
    rfl

/-- A merge goes through the mergee's identities, and remembers those that the keeper has got. -/
theorem mergeCalls_does {keeper mergee by' : UUID} {kept : Ident → Bool} : ∀ {ids : List Ident}
    {keeperIdentities : List (Key × Key)}, ids.Nodup →
      (∀ i ∈ ids, kept i = true ↔ key i ∈ keeperIdentities) → List.Forall₂ (Does py company)
        (mergeCalls keeper mergee by' (ids.map key) keeperIdentities).calls
        (mergeDeeds keeper mergee ids kept)
  | [], _, _, _ => .cons .archive .nil
  | i :: ids, keeperIdentities, hnodup, hkept => by
    obtain ⟨hi, hnodup⟩ := List.nodup_cons.mp hnodup
    obtain ⟨hkepti, hkept⟩ := List.forall_mem_cons.mp hkept
    have hdeeds : mergeDeeds keeper mergee (i :: ids) kept = .unlink mergee i ::
        ((if kept i then [] else [.link keeper i]) ++ mergeDeeds keeper mergee ids kept) := by
      simp [mergeDeeds]
    rw [hdeeds, List.map_cons, key, mergeCalls]
    by_cases hmem : key i ∈ keeperIdentities
    · rw [if_pos (hkepti.mpr hmem)]
      simp only [key] at hmem
      simp only [hmem, if_true]
      exact .cons .unlink (mergeCalls_does hnodup hkept)
    · rw [if_neg fun h => hmem (hkepti.mp h)]
      simp only [key] at hmem
      simp only [hmem, if_false]
      refine .cons .unlink (.cons .link (mergeCalls_does hnodup fun j hj => ?_))
      rw [hkept j hj, List.mem_cons]
      refine (or_iff_right fun hkey => hi ?_).symm
      obtain rfl : j = i := key_injective hkey
      exact hj

theorem mergePersons_eq {keeper mergee by' : UUID} {ids kids : List (Key × Key)} (hne : keeper ≠ mergee)
    (hids : currentIdentitiesForPerson rows mergee = .ok ids)
    (hkids : currentIdentitiesForPerson rows keeper = .ok kids) :
    mergePersons rows keeper mergee by' = mergeCalls keeper mergee by' ids kids := by
  simp only [mergePersons, if_neg hne, hids, hkids, bind, Except.bind, pure, Except.pure]

/-- The deeds of a merge: what the two folds return before its first call decides them. -/
theorem Reads.mergeDoes (h : Reads py company rows s att) {keeper mergee : UUID} (by' : UUID)
    (hne : keeper ≠ mergee) : ∃ ids kept, List.Forall₂ (Does py company)
      (mergePersons rows keeper mergee by').calls (mergeDeeds keeper mergee ids kept) ∧
        (∀ i ∈ ids, Named i) ∧
        (∀ i, i ∈ ids ↔ mergee ∈ ((standing company (s .people) att).holding i).accounts) ∧
        ∀ i, kept i = true ↔ keeper ∈ ((standing company (s .people) att).holding i).accounts := by
  obtain ⟨ids, hids, hnodup, hnamed, hmem⟩ := h.identitiesOf mergee
  obtain ⟨kids, hkids, -, -, hkmem⟩ := h.identitiesOf keeper
  refine ⟨ids, fun i => decide (i ∈ kids), ?_, hnamed, hmem, fun i => ?_⟩
  · rw [mergePersons_eq hne hids hkids]
    refine mergeCalls_does hnodup fun i _ => ?_
    rw [decide_eq_true_iff, List.mem_map_of_injective key_injective]
  · rw [decide_eq_true_iff, hkmem]

theorem splitCalls_does {source newId by' : UUID} : ∀ rest : List Ident,
    List.Forall₂ (Does py company)
      (rest.flatMap fun i => [unlinkIdentity source i.1 i.2 by', linkIdentity newId i.1 i.2 by'])
      (rest.flatMap fun i => [.unlink source i, .link newId i])
  | [] => .nil
  | _ :: rest => .cons .unlink (.cons .link (splitCalls_does rest))

theorem splitPerson_does {source newId by' : UUID} {name : String} {email position : Option String}
    {items : List SplitItem} {seed : Ident} {rest : List Ident}
    (hitems : normalised items = .ok (seed :: rest)) : List.Forall₂ (Does py company)
      (splitPerson py company source newId name email position items by').calls
      (splitDeeds source newId seed rest) := by
  rw [splitPerson, hitems]
  exact .cons (.propose rfl) (.cons .unlink (splitCalls_does rest))

/-! ### Ledgers of the actions -/

theorem refused_calls {a : WriteAction} (h : Refused a) : (a.outcome py company rows).calls = [] := by
  cases a with
  | mergePersons keeper mergee by' =>
    have heq : keeper = mergee := h
    simp only [WriteAction.outcome, mergePersons, if_pos heq]
  | splitPerson source newId name email position items by' =>
    simp only [WriteAction.outcome, splitPerson]
    cases hitems : normalised items with
    | error x => rfl
    | ok ids =>
      cases ids with
      | nil => rfl
      | cons seed rest => exact absurd hitems (h seed rest)
  | _ => exact h.elim

/-- On a ledger that both folds read, what is not refused makes a call. -/
theorem Reads.calls (h : Reads py company rows s att) {a : WriteAction} (ha : ¬Refused a) :
    ∃ deeds, deeds ≠ [] ∧ List.Forall₂ (Does py company) (a.outcome py company rows).calls deeds := by
  cases a with
  | proposePerson p name email platform puid position by' =>
    exact ⟨_, by simp, .cons (.propose rfl) .nil⟩
  | linkIdentity p platform puid by' => exact ⟨_, by simp, .cons .link .nil⟩
  | unlinkIdentity p platform puid by' => exact ⟨_, by simp, .cons .unlink .nil⟩
  | archivePerson p by' reason => exact ⟨_, by simp, .cons .archive .nil⟩
  | mergePersons keeper mergee by' =>
    obtain ⟨ids, kept, hdoes, -⟩ := h.mergeDoes by' ha
    exact ⟨mergeDeeds keeper mergee ids kept, by simp [mergeDeeds], hdoes⟩
  | splitPerson source newId name email position items by' =>
    simp only [Refused, not_forall, not_not] at ha
    obtain ⟨seed, rest, hitems⟩ := ha
    exact ⟨splitDeeds source newId seed rest, by simp [splitDeeds], splitPerson_does hitems⟩

/-- What silent mode records has the tool of the call and not its args: the projection stops there. -/
theorem suppressed_stops {c : Pevr} {d : Deed} (hc : Does py company c d) {refId : UUID} {n : ℕ}
    {st : Stamp} {s s' : State} :
    foldEntries py s (suppressedRows c refId company n st) ≠ .ok s' := by
  intro h
  have hpeople := foldEntries_at h .people
  simp only [suppressedRows, stampedRows, List.foldlM_cons] at hpeople
  obtain ⟨t, -, hpeople⟩ := bind_eq_ok.mp hpeople
  obtain ⟨t', hrun, -⟩ := bind_eq_ok.mp hpeople
  rw [stepAt_plain (by simp)] at hrun
  cases hc with
  | propose => cases hrun
  | link => cases hrun
  | unlink => cases hrun
  | archive => cases hrun

/-- A ledger without a projection. -/
def Stopped (py : Interp) (rows : List LedgerRow) : Prop :=
  ∀ s, foldEntries py initialProjectionState rows ≠ .ok s

theorem Stopped.append (h : Stopped py rows) (new : List LedgerRow) : Stopped py (rows ++ new) := by
  intro s hs
  obtain ⟨u, hu, -⟩ := foldEntries_append.mp hs
  exact h u hu

/-- A ledger that both folds read, or that has no projection. -/
def Kept (py : Interp) (company : UUID) (rows : List LedgerRow) : Prop :=
  (∃ s att, Reads py company rows s att) ∨ Stopped py rows

theorem reads_nil : Reads py company [] initialProjectionState fun _ => .empty :=
  ⟨rfl, fun _ => rfl, by rintro _ (_ | _), by rintro _ (_ | _), by rintro _ _ (_ | _), rfl, rfl⟩

theorem kept_nil : Kept py company [] := .inl ⟨_, _, reads_nil⟩

theorem writeAll_append : ∀ (calls : List Pevr) (rows : List LedgerRow),
    ∃ new, writeAll company stamp rows calls = rows ++ new
  | [], rows => ⟨[], (List.append_nil rows).symm⟩
  | c :: calls, rows => by
    obtain ⟨new, hnew⟩ := writeAll_append calls
      (rows ++ c.rows company rows.length (stamp rows.length))
    exact ⟨_, hnew.trans (List.append_assoc _ _ _)⟩

theorem perform_refused {r : Request} (h : Refused r.action) :
    perform py company stamp rows r = rows := by
  simp only [perform, refused_calls h, writeAll]
  cases r.silent with
  | none => rfl
  | some refId => exact List.append_nil rows

theorem perform_silent {r : Request} {refId : UUID} (h : Reads py company rows s att)
    (hr : ¬Refused r.action) (hsilent : r.silent = some refId) :
    Stopped py (perform py company stamp rows r) := by
  obtain ⟨deeds, hne, hcalls⟩ := h.calls hr
  intro s' hs'
  simp only [perform, hsilent] at hs'
  generalize (r.action.outcome py company rows).calls = calls at hcalls hs'
  cases hcalls with
  | nil => exact hne rfl
  | cons hc =>
    obtain ⟨u, -, hu⟩ := foldEntries_append.mp hs'
    exact suppressed_stops hc hu

theorem Kept.perform (h : Kept py company rows) (r : Request) :
    Kept py company (perform py company stamp rows r) := by
  rcases h with ⟨s, att, h⟩ | h
  · by_cases hr : Refused r.action
    · rw [perform_refused hr]
      exact .inl ⟨s, att, h⟩
    · cases hsilent : r.silent with
      | none =>
        obtain ⟨deeds, -, hcalls⟩ := h.calls hr
        obtain ⟨s', att', h', -⟩ := h.writes hcalls
        simp only [WriteActions.perform, hsilent]
        exact .inl ⟨s', att', h'⟩
      | some refId => exact .inr (perform_silent h hr hsilent)
  · refine .inr ?_
    rw [WriteActions.perform]
    cases r.silent with
    | none =>
      obtain ⟨new, hnew⟩ := @writeAll_append company stamp (r.action.outcome py company rows).calls rows
      exact hnew ▸ h.append new
    | some refId => exact h.append _

end

end WriteActions
