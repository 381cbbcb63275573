import Wormbase.Lib.Join
import Wormbase.Projection.Parts
import Wormbase.Py.UuidText
import Mathlib.Data.Set.Function

/-! The row ids that the builder derives from natural keys, and which facts share one. -/

namespace Projection
open Py

/-! ### Natural keys -/

inductive FactKind where | identity | lineage | policy | metric | agentGrant
  deriving DecidableEq

/-- How many texts a natural key of the kind has beside the company. -/
def FactKind.arity : FactKind → ℕ
  | .identity | .policy | .metric => 2
  | .lineage | .agentGrant => 3

/-- A fact by its natural key within a company. -/
@[ext] structure Fact where
  kind : FactKind
  company : String
  parts : List String
  length_eq : parts.length = kind.arity

namespace Fact

def identity (tenant platform platformUserId : String) : Fact :=
  ⟨.identity, tenant, [platform, platformUserId], rfl⟩

def lineage (company sourceId upstream downstream : String) : Fact :=
  ⟨.lineage, company, [sourceId, upstream, downstream], rfl⟩

def policy (company sourceId policyFqn : String) : Fact :=
  ⟨.policy, company, [sourceId, policyFqn], rfl⟩

def metric (company sourceId name : String) : Fact := ⟨.metric, company, [sourceId, name], rfl⟩

def agentGrant (company agentId grantKind grantTarget : String) : Fact :=
  ⟨.agentGrant, company, [agentId, grantKind, grantTarget], rfl⟩

/-- What is hashed for a fact. -/
def text (f : Fact) : String := "|".intercalate (f.company :: f.parts)

/-- No part of the natural key has the separator in it. -/
def Plain (f : Fact) : Prop := ∀ p ∈ f.parts, '|' ∉ p.toList

end Fact

inductive RowId where
  | uuid (u : UUID)
  | hex (s : String)
  deriving DecidableEq

section
variable (py : Interp)

/-- The id that the builder gives to the row of a fact. -/
def Fact.rowId (f : Fact) : Except Err RowId :=
  let parts := (f.company :: f.parts).map Val.str
  match f.kind with
  | .identity => .uuid <$> identityUuid py parts
  | .lineage => .uuid <$> externalLineageUuid py parts
  | .policy => .uuid <$> externalPolicyUuid py parts
  | .metric => .uuid <$> externalMetricUuid py parts
  | .agentGrant => .hex <$> agentGrantUuid py parts

/-- The truncated digest of a text. -/
def textUuid (s : String) : UUID := UUID.ofBytes (py.sha256 (encodeUtf8 s.toList))

/-! ### Ids and texts -/

theorem joinParts_str : ∀ (xs : List String) (i : ℕ), joinParts (xs.map Val.str) i = .ok xs
  | [], _ => rfl
  | x :: xs, i => by
    rw [List.map_cons, joinParts, joinParts_str xs (i + 1)]
    rfl

theorem digestUuid_str (xs : List String) :
    digestUuid py (xs.map Val.str) = .ok (textUuid py ("|".intercalate xs)) := by
  rw [digestUuid, joinParts_str]
  rfl

theorem Fact.rowId_eq (f : Fact) : f.rowId py = .ok (match f.kind with
    | .agentGrant => .hex (textUuid py f.text).hex
    | _ => .uuid (textUuid py f.text)) := by
  obtain ⟨kind, company, parts, hlen⟩ := f
  have hdigest := digestUuid_str py (company :: parts)
  cases kind with
  | agentGrant => simp only [rowId, agentGrantUuid, digestHex, hdigest]; rfl
  | identity => simp only [rowId, identityUuid, hdigest]; rfl
  | lineage => simp only [rowId, externalLineageUuid, hdigest]; rfl
  | policy => simp only [rowId, externalPolicyUuid, hdigest]; rfl
  | metric => simp only [rowId, externalMetricUuid, hdigest]; rfl

end

theorem hex_injective : Function.Injective UUID.hex := by
  intro u v h
  have hdigits : u.digits = v.digits := by
    have := congrArg String.toList h
    rwa [UUID.hex, UUID.hex, String.toList_ofList, String.toList_ofList, UUID.filter_text,
      UUID.filter_text] at this
  have hval : (u.val : ℕ) = v.val := by rw [← u.hexValue_digits, hdigits, v.hexValue_digits]
  obtain ⟨u⟩ := u
  obtain ⟨v⟩ := v
  exact congrArg UUID.mk (Fin.ext hval)

variable {py : Interp} {given : Set String}

/-- Facts of one kind share their id exactly when they share their text. -/
theorem rowId_eq_iff (hinj : Set.InjOn (textUuid py) given) {f g : Fact} (hkind : g.kind = f.kind)
    (hf : f.text ∈ given) (hg : g.text ∈ given) : g.rowId py = f.rowId py ↔ g.text = f.text := by
  rw [Fact.rowId_eq, Fact.rowId_eq, hkind]
  constructor
  · intro h
    refine hinj hg hf ?_
    cases hk : f.kind with
    | agentGrant =>
      rw [hk] at h
      exact hex_injective (RowId.hex.inj (Except.ok.inj h))
    | _ =>
      rw [hk] at h
      exact RowId.uuid.inj (Except.ok.inj h)
  · intro h
    rw [h]

/-! ### Texts and natural keys -/

/-- The characters of a text: those of the parts, joined. -/
theorem text_toList (f : Fact) : f.text.toList = f.company.toList ++ '|' ::
    ['|'].intercalate (f.parts.map String.toList) := by
  have hne : f.parts.map String.toList ≠ [] := by
    intro h
    have hlen := f.length_eq
    rw [List.map_eq_nil_iff.mp h] at hlen
    cases hk : f.kind <;> rw [hk] at hlen <;> cases hlen
  rw [Fact.text, String.toList_intercalate, List.map_cons, List.intercalate_cons_of_ne_nil hne]
  simp

theorem text_eq_iff {f g : Fact} (hcompany : g.company = f.company) : g.text = f.text ↔
    ['|'].intercalate (g.parts.map String.toList) =
      ['|'].intercalate (f.parts.map String.toList) := by
  rw [← String.toList_inj, text_toList, text_toList, hcompany]
  simp

/-- Within a kind and a company, a text belongs to one natural key exactly when no part of it has
    the separator. -/
theorem text_unique_iff (f : Fact) : (∀ g : Fact, g.kind = f.kind → g.company = f.company →
    g.text = f.text → g = f) ↔ f.Plain := by
  constructor
  · intro hunique p hp hsep
    have htwo : 2 ≤ (f.parts.map String.toList).length := by
      rw [List.length_map, f.length_eq]
      cases f.kind <;> decide
    obtain ⟨ys, hlen, hne, hjoin⟩ := Join.exists_other htwo ⟨_, List.mem_map_of_mem hp, hsep⟩
    have hback : (ys.map String.ofList).map String.toList = ys := by
      simp [List.map_map, Function.comp_def]
    let g : Fact := ⟨f.kind, f.company, ys.map String.ofList, by
      rw [List.length_map, hlen, List.length_map, f.length_eq]⟩
    have htext : g.text = f.text := (text_eq_iff (f := f) (g := g) rfl).mpr
      ((congrArg (List.intercalate ['|']) hback).trans hjoin)
    have hg : g = f := hunique g rfl rfl htext
    refine hne ?_
    rw [← hback]
    exact congrArg (fun f : Fact => f.parts.map String.toList) hg
  · intro hplain g hkind hcompany htext
    have hlen : (g.parts.map String.toList).length = (f.parts.map String.toList).length := by
      rw [List.length_map, List.length_map, g.length_eq, f.length_eq, hkind]
    have hfree : ∀ a ∈ f.parts.map String.toList, '|' ∉ a := by
      intro a ha
      obtain ⟨p, hp, rfl⟩ := List.mem_map.mp ha
      exact hplain p hp
    have hparts := Join.eq_of_join_eq hlen hfree ((text_eq_iff hcompany).mp htext)
    exact Fact.ext hkind hcompany (List.map_injective_iff.mpr (fun _ _ => String.toList_injective) hparts)

/-- A fact without the separator, in its company's text as well, is the only one of its kind with
    its text. -/
theorem text_own {f g : Fact} (hkind : g.kind = f.kind) (hcompany : '|' ∉ f.company.toList)
    (hplain : f.Plain) (htext : g.text = f.text) : g = f := by
  have hjoined : ∀ f : Fact, f.text.toList =
      ['|'].intercalate ((f.company :: f.parts).map String.toList) := fun f =>
    String.toList_intercalate
  have hlen : ((g.company :: g.parts).map String.toList).length =
      ((f.company :: f.parts).map String.toList).length := by
    simp [g.length_eq, f.length_eq, hkind]
  have hfree : ∀ a ∈ (f.company :: f.parts).map String.toList, '|' ∉ a := by
    intro a ha
    obtain ⟨p, hp, rfl⟩ := List.mem_map.mp ha
    rcases List.mem_cons.mp hp with rfl | hp
    · exact hcompany
    · exact hplain p hp
  have hall := Join.eq_of_join_eq hlen hfree (by rw [← hjoined, ← hjoined, htext])
  obtain ⟨hc, hparts⟩ := List.cons.inj
    (List.map_injective_iff.mpr (fun _ _ => String.toList_injective) hall)
  exact Fact.ext hkind hc hparts

/-! ### The facts of a ledger and their rows -/

section
variable (py : Interp)

/-- The fact of one edge of a lineage import. -/
def edgeFact (e : LedgerRow) (source edge : Val) : Option Fact :=
  match source, edge with
  | .str source, .list [upstream, downstream] =>
    some (.lineage e.company source (upstream.toStr py) (downstream.toStr py))
  | _, _ => none

def lineageFacts (e : LedgerRow) (args : Dict) : List Fact :=
  match ((args.getD "edges" (.list [])).or (.list [])).toList with
  | .ok edges => edges.filterMap (edgeFact py e (args.get "source_id"))
  | .error _ => []

/-- The fact of an import that names its source and one thing in it. -/
def sourceFact (fact : String → String → String → Fact) (name : String) (e : LedgerRow)
    (args : Dict) : List Fact :=
  match args.get "source_id", args.get name with
  | .str source, .str named => [fact e.company source named]
  | _, _ => []

def grantFacts (e : LedgerRow) (args : Dict) : List Fact :=
  match (args.get "company_id").or (.str e.company), args.get "agent_id", args.get "grant_kind",
    args.get "grant_target" with
  | .str company, .str agentId, .str grantKind, .str grantTarget =>
    [.agentGrant company agentId grantKind grantTarget]
  | _, _, _, _ => []

/-- The facts of the entry of an action, read from its args. -/
def LedgerRow.factsOf (tool : String) (read : LedgerRow → Dict → List Fact) (e : LedgerRow) :
    List Fact :=
  match e.action with
  | some (tool', args) => if tool' = tool then read e args else []
  | none => []

def LedgerRow.lineageFacts := LedgerRow.factsOf "emit_external_lineage_imported"
  (Projection.lineageFacts py)
def LedgerRow.policyFacts :=
  LedgerRow.factsOf "emit_external_policy_imported" (sourceFact .policy "policy_fqn")
def LedgerRow.metricFacts :=
  LedgerRow.factsOf "emit_external_metric_imported" (sourceFact .metric "name")
def LedgerRow.grantFacts := LedgerRow.factsOf "emit_agent_grant" Projection.grantFacts

end

def ExternalLineage.Records (r : ExternalLineage) (f : Fact) : Prop :=
  ∃ source, UUID.ofText source.toList = some r.sourceId ∧
    f = .lineage r.companyId.str source r.upstream r.downstream

def ExternalPolicy.Records (r : ExternalPolicy) (f : Fact) : Prop :=
  ∃ source, UUID.ofText source.toList = some r.sourceId ∧
    f = .policy r.companyId.str source r.policyFqn

def ExternalMetric.Records (r : ExternalMetric) (f : Fact) : Prop :=
  ∃ source, UUID.ofText source.toList = some r.sourceId ∧ f = .metric r.companyId.str source r.name

def AgentGrant.Records (r : AgentGrant) (f : Fact) : Prop :=
  f = .agentGrant r.companyId r.agentId r.grantKind r.grantTarget

/-- A part with one branch changes by that branch, on the entries of its tool. -/
theorem actAt_single {p : Part} {tool : String} {run : Fold p.Carrier} {t t' : p.Carrier}
    {e : LedgerRow} {read : LedgerRow → Dict → List Fact} {P : List Fact → Prop}
    (hp : p.handlers py = [(tool, run)]) (h : actAt py p t e = .ok t')
    (hrun : ∀ args, run e args t = .ok t' → P (read e args)) (hnone : t' = t → P []) :
    P (e.factsOf tool read) := by
  unfold actAt at h
  unfold LedgerRow.factsOf
  cases haction : e.action with
  | none =>
    rw [haction] at h
    exact hnone (Except.ok.inj h).symm
  | some a =>
    obtain ⟨tool', args⟩ := a
    rw [haction, hp] at h
    by_cases htool : tool' = tool
    · subst htool
      simp only [List.lookup_cons_self] at h
      simp only [if_true]
      exact hrun args h
    · have hbeq : (tool' == tool) = false := by simpa using htool
      simp only [List.lookup_cons, hbeq, List.lookup_nil] at h
      simp only [htool, if_false]
      exact hnone (Except.ok.inj h).symm

theorem toUUID_str {s : String} {u : UUID} (h : (Val.str s).toUUID = .ok u) :
    UUID.ofText s.toList = some u := by
  unfold Val.toUUID at h
  dsimp only at h
  cases hu : UUID.ofText s.toList with
  | none =>
    rw [hu] at h
    cases h
  | some v =>
    rw [hu] at h
    rw [Except.ok.inj h]

section
variable {e : LedgerRow} {args : Dict}

/-- The id of a fact of the UUID kinds. -/
abbrev uuidOf (py : Interp) (f : Fact) : UUID := textUuid py f.text

theorem addEdge_puts {t t' : Table ExternalLineage.id} {source edge : Val}
    (h : addEdge py e source t edge = .ok t') : Table.PutAll (uuidOf py) ExternalLineage.Records
      (edgeFact py e source edge).toList t t' := by
  unfold addEdge at h
  split at h
  · rename_i upstream downstream
    obtain ⟨id, hid, h⟩ := bind_eq_ok.mp h
    obtain ⟨sourceId, hsource, h⟩ := bind_eq_ok.mp h
    obtain rfl := Except.ok.inj h
    cases source with
    | str source =>
      have hdigest := digestUuid_str py [e.company, source, upstream.toStr py, downstream.toStr py]
      have hid := Except.ok.inj (hid.symm.trans hdigest)
      exact .single hid ⟨source, toUUID_str hsource, rfl⟩
    | _ => simp [Val.toUUID] at hsource
  · rename_i hedge
    obtain rfl := Except.ok.inj h
    have hnone : edgeFact py e source edge = none := by
      unfold edgeFact
      split
      · exact absurd rfl (hedge _ _)
      · rfl
    rw [hnone]
    exact .nil

theorem lineage_puts {t t' : Table ExternalLineage.id}
    (h : emitExternalLineageImported py e args t = .ok t') :
    Table.PutAll (uuidOf py) ExternalLineage.Records (lineageFacts py e args) t t' := by
  obtain ⟨source, hsource, h⟩ := bind_eq_ok.mp h
  obtain ⟨edges, hedges, h⟩ := bind_eq_ok.mp h
  have hputs := Table.PutAll.foldlM (fun edge _ u u' hu => addEdge_puts hu) h
  rw [lineageFacts, hedges, item_get hsource]
  dsimp only
  rw [List.filterMap_eq_flatMap_toList]
  exact hputs

/-- A row for what an import names, put under the digest of company, source and name. -/
theorem sourceFact_puts {ρ : Type} {key : ρ → UUID} {Records : ρ → Fact → Prop}
    {fact : String → String → String → Fact} {name text : String} {sourceId : UUID} {r : ρ}
    {t : Table key} (hid : digestUuid py [.str e.company, args.get "source_id", args.get name] =
      .ok (key r)) (hsource : (args.get "source_id").toUUID = .ok sourceId)
    (hname : args.get name = .str text)
    (hfact : ∀ source, (fact e.company source text).text = "|".intercalate [e.company, source, text])
    (hr : ∀ source, UUID.ofText source.toList = some sourceId →
      Records r (fact e.company source text)) :
    Table.PutAll (uuidOf py) Records (sourceFact fact name e args) t (t.put r) := by
  unfold sourceFact
  rw [hname] at hid ⊢
  cases hs : args.get "source_id" with
  | str source =>
    rw [hs] at hid hsource
    have hdigest := digestUuid_str py [e.company, source, text]
    have hkey : key r = uuidOf py (fact e.company source text) := by
      rw [uuidOf, hfact]
      exact Except.ok.inj (hid.symm.trans hdigest)
    exact .single hkey (hr source (toUUID_str hsource))
  | _ => simp [hs, Val.toUUID] at hsource

theorem policy_puts {t t' : Table ExternalPolicy.id}
    (h : emitExternalPolicyImported py e args t = .ok t') : Table.PutAll (uuidOf py)
      ExternalPolicy.Records (sourceFact .policy "policy_fqn" e args) t t' := by
  obtain ⟨r, hid, hsource, hfqn, hcompany, rfl⟩ := emitExternalPolicyImported_ok h
  refine sourceFact_puts hid hsource hfqn (fun _ => rfl) fun source hu => ⟨source, hu, ?_⟩
  rw [hcompany]
  rfl

theorem metric_puts {t t' : Table ExternalMetric.id}
    (h : emitExternalMetricImported py e args t = .ok t') : Table.PutAll (uuidOf py)
      ExternalMetric.Records (sourceFact .metric "name" e args) t t' := by
  obtain ⟨r, hid, hsource, hname, hcompany, rfl⟩ := emitExternalMetricImported_ok h
  refine sourceFact_puts hid hsource hname (fun _ => rfl) fun source hu => ⟨source, hu, ?_⟩
  rw [hcompany]
  rfl

theorem grant_puts {t t' : Table AgentGrant.id} (h : emitAgentGrant py e args t = .ok t') :
    Table.PutAll (fun f => (uuidOf py f).hex) AgentGrant.Records (grantFacts e args) t t' := by
  obtain ⟨r, hid, hcompany, hagent, hkind, htarget, rfl⟩ := emitAgentGrant_ok h
  rw [hcompany, hagent, hkind, htarget] at hid
  rw [grantFacts, hcompany, hagent, hkind, htarget]
  have hdigest := digestUuid_str py [r.companyId, r.agentId, r.grantKind, r.grantTarget]
  have hhex : digestHex py ([r.companyId, r.agentId, r.grantKind, r.grantTarget].map Val.str) =
      .ok (textUuid py ("|".intercalate [r.companyId, r.agentId, r.grantKind, r.grantTarget])).hex := by
    rw [digestHex, hdigest]
    rfl
  exact .single (Except.ok.inj (hid.symm.trans hhex)) rfl

end

/-! ### What the fold keeps -/

/-- The row of a fact is in its table. -/
inductive Fact.Recorded (s : State) : Fact → Prop
  | lineage (r : ExternalLineage) (source : String)
      (hr : r ∈ (s .externalLineage : Table ExternalLineage.id).rows)
      (hsource : UUID.ofText source.toList = some r.sourceId) :
      Recorded s (.lineage r.companyId.str source r.upstream r.downstream)
  | policy (r : ExternalPolicy) (source : String)
      (hr : r ∈ (s .externalPolicy : Table ExternalPolicy.id).rows)
      (hsource : UUID.ofText source.toList = some r.sourceId) :
      Recorded s (.policy r.companyId.str source r.policyFqn)
  | metric (r : ExternalMetric) (source : String)
      (hr : r ∈ (s .externalMetric : Table ExternalMetric.id).rows)
      (hsource : UUID.ofText source.toList = some r.sourceId) :
      Recorded s (.metric r.companyId.str source r.name)
  | agentGrant (r : AgentGrant) (hr : r ∈ (s .agentGrants : Table AgentGrant.id).rows) :
      Recorded s (.agentGrant r.companyId r.agentId r.grantKind r.grantTarget)

section
variable {ρ κ : Type} [DecidableEq κ] {key : ρ → κ} {idOf : Fact → κ} {Records : ρ → Fact → Prop}
  {turn : Table key → LedgerRow → Except Err (Table key)} {facts : LedgerRow → List Fact}

/-- Where every turn puts the rows of its facts, the row of a fact without the separator is there in
    the end. -/
theorem turns_record {es : List LedgerRow} {t t' : Table key} {f : Fact} (kind : FactKind)
    (hinj : Set.InjOn (textUuid py) given)
    (hturn : ∀ e t t', turn t e = .ok t' → Table.PutAll idOf Records (facts e) t t')
    (hkind : ∀ r f, Records r f → f.kind = kind)
    (hid : ∀ f g, idOf g = idOf f → uuidOf py g = uuidOf py f)
    (hgiven : ∀ f ∈ es.flatMap facts, f.text ∈ given) (h : es.foldlM turn t = .ok t')
    (hf : f ∈ es.flatMap facts) (hcompany : '|' ∉ f.company.toList) (hplain : f.Plain) :
    ∃ r ∈ t'.rows, Records r f := by
  have hputs := Table.PutAll.foldlM (fun e _ t t' h => hturn e t t' h) h
  have hkinds : ∀ g ∈ es.flatMap facts, g.kind = kind := fun g hg => by
    obtain ⟨r, -, hr⟩ := hputs.exists_row g hg
    exact hkind r g hr
  have hown : ∀ g ∈ es.flatMap facts, idOf g = idOf f → g = f := fun g hg hsame => by
    have htext := hinj (hgiven g hg) (hgiven f hf) (hid f g hsame)
    exact text_own ((hkinds g hg).trans (hkinds f hf).symm) hcompany hplain htext
  obtain ⟨r, hr, -, hrec⟩ := hputs.recorded hf hown
  exact ⟨r, hr, hrec⟩

end

theorem lineage_turn : ∀ (e : LedgerRow) (t t' : Table ExternalLineage.id), stepAt py .externalLineage t e = .ok t' →
    Table.PutAll (uuidOf py) ExternalLineage.Records (e.lineageFacts py) t t' := by
  intro e t t' h
  rw [stepAt_plain (by simp)] at h
  refine actAt_single (P := fun fs => Table.PutAll (uuidOf py) ExternalLineage.Records fs t t') rfl h
    (fun args h => lineage_puts h) ?_
  rintro rfl
  exact .nil

theorem policy_turn : ∀ (e : LedgerRow) (t t' : Table ExternalPolicy.id), stepAt py .externalPolicy t e = .ok t' →
    Table.PutAll (uuidOf py) ExternalPolicy.Records e.policyFacts t t' := by
  intro e t t' h
  rw [stepAt_plain (by simp)] at h
  refine actAt_single (P := fun fs => Table.PutAll (uuidOf py) ExternalPolicy.Records fs t t') rfl h
    (fun args h => policy_puts h) ?_
  rintro rfl
  exact .nil

theorem metric_turn : ∀ (e : LedgerRow) (t t' : Table ExternalMetric.id), stepAt py .externalMetric t e = .ok t' →
    Table.PutAll (uuidOf py) ExternalMetric.Records e.metricFacts t t' := by
  intro e t t' h
  rw [stepAt_plain (by simp)] at h
  refine actAt_single (P := fun fs => Table.PutAll (uuidOf py) ExternalMetric.Records fs t t') rfl h
    (fun args h => metric_puts h) ?_
  rintro rfl
  exact .nil

theorem grant_turn : ∀ (e : LedgerRow) (t t' : Table AgentGrant.id), stepAt py .agentGrants t e = .ok t' →
    Table.PutAll (fun f => (uuidOf py f).hex) AgentGrant.Records e.grantFacts t t' := by
  intro e t t' h
  rw [stepAt_plain (by simp)] at h
  refine actAt_single (P := fun fs => Table.PutAll (fun f => (uuidOf py f).hex) AgentGrant.Records
    fs t t') rfl h (fun args h => grant_puts h) ?_
  rintro rfl
  exact .nil

/-- The facts of the four kinds that the fold keeps under their derived id. -/
def LedgerRow.facts (py : Interp) (e : LedgerRow) : List Fact :=
  e.lineageFacts py ++ (e.policyFacts ++ (e.metricFacts ++ e.grantFacts))

section
variable {es : List LedgerRow} {s : State} {f : Fact}

/-- A fact without the separator has its row after the fold of the ledger. -/
theorem fold_records (hinj : Set.InjOn (textUuid py) given)
    (hs : foldEntries py initialProjectionState es = .ok s)
    (hgiven : ∀ e ∈ es, ∀ f ∈ e.facts py, f.text ∈ given) {e : LedgerRow} (he : e ∈ es)
    (hf : f ∈ e.facts py) (hcompany : '|' ∉ f.company.toList) (hplain : f.Plain) :
    f.Recorded s := by
  have hin : ∀ {read : LedgerRow → List Fact}, (∀ e f, f ∈ read e → f ∈ e.facts py) →
      ∀ f ∈ es.flatMap read, f.text ∈ given := fun hread f hf => by
    obtain ⟨e, he, hf⟩ := List.mem_flatMap.mp hf
    exact hgiven e he f (hread e f hf)
  simp only [LedgerRow.facts, List.mem_append] at hf hin
  rcases hf with hf | hf | hf | hf
  · obtain ⟨r, hr, source, hsource, rfl⟩ := turns_record .lineage hinj lineage_turn
      (fun r f ⟨_, _, h⟩ => h ▸ rfl) (fun _ _ h => h) (hin fun _ _ h => .inl h)
      (foldEntries_at hs .externalLineage) (List.mem_flatMap.mpr ⟨e, he, hf⟩) hcompany hplain
    exact .lineage r source hr hsource
  · obtain ⟨r, hr, source, hsource, rfl⟩ := turns_record .policy hinj policy_turn
      (fun r f ⟨_, _, h⟩ => h ▸ rfl) (fun _ _ h => h)
      (hin fun _ _ h => .inr (.inl h)) (foldEntries_at hs .externalPolicy)
      (List.mem_flatMap.mpr ⟨e, he, hf⟩) hcompany hplain
    exact .policy r source hr hsource
  · obtain ⟨r, hr, source, hsource, rfl⟩ := turns_record .metric hinj metric_turn
      (fun r f ⟨_, _, h⟩ => h ▸ rfl) (fun _ _ h => h)
      (hin fun _ _ h => .inr (.inr (.inl h))) (foldEntries_at hs .externalMetric)
      (List.mem_flatMap.mpr ⟨e, he, hf⟩) hcompany hplain
    exact .metric r source hr hsource
  · obtain ⟨r, hr, rfl⟩ := turns_record .agentGrant hinj grant_turn
      (fun r f h => h ▸ rfl) (fun _ _ h => hex_injective h)
      (hin fun _ _ h => .inr (.inr (.inr h))) (foldEntries_at hs .agentGrants)
      (List.mem_flatMap.mpr ⟨e, he, hf⟩) hcompany hplain
    exact .agentGrant r hr

end

/-- As far as the truncated digest tells the given texts apart, a fact shares its row id with no other
    fact of its kind and company exactly when no part of its natural key has the separator; and the
    fold of a ledger keeps the row of every such fact. -/
theorem rowId_unique_iff (py : Interp) (given : Set String)
    (hinj : Set.InjOn (textUuid py) given) :
    (∀ f : Fact, f.text ∈ given → ((∀ g : Fact, g.kind = f.kind → g.company = f.company →
      g.text ∈ given → g.rowId py = f.rowId py → g = f) ↔ f.Plain)) ∧
    ∀ (es : List LedgerRow) (s : State), foldEntries py initialProjectionState es = .ok s →
      (∀ e ∈ es, ∀ f ∈ e.facts py, f.text ∈ given) →
      ∀ e ∈ es, ∀ f ∈ e.facts py, '|' ∉ f.company.toList → f.Plain → f.Recorded s := by
  refine ⟨fun f hf => ?_, fun es s hs hgiven e he f hfact hcompany hplain =>
    fold_records hinj hs hgiven he hfact hcompany hplain⟩
  rw [← text_unique_iff]
  constructor
  · intro h g hkind hcompany htext
    have hg : g.text ∈ given := htext ▸ hf
    exact h g hkind hcompany hg ((rowId_eq_iff hinj hkind hf hg).mpr htext)
  · intro h g hkind hcompany hg hid
    exact h g hkind hcompany ((rowId_eq_iff hinj hkind hf hg).mp hid)

/-! ### Two edges with one id -/

def sampleSourceId : String := "00000000-0000-0000-0000-000000000001"

def plainEdge : Fact := .lineage "acme" sampleSourceId "raw.events" "staging.events"

theorem plainEdge_unique : Set.InjOn (textUuid .plain) {plainEdge.text} ∧
    ∀ g : Fact, g.kind = .lineage → g.company = "acme" → g.text ∈ ({plainEdge.text} : Set String) →
      g.rowId .plain = plainEdge.rowId .plain → g = plainEdge := by
  have hplain : plainEdge.Plain := by
    simp only [Fact.Plain, plainEdge, Fact.lineage, sampleSourceId]
    decide
  exact ⟨Set.injOn_singleton _ _,
    ((rowId_unique_iff .plain {plainEdge.text} (Set.injOn_singleton _ _)).1 plainEdge rfl).mpr hplain⟩

/-- A lineage import of two edges that join to the same text. -/
def sharedEdges : LedgerRow :=
  executed 1 "emit_external_lineage_imported" [(.str "source_id", .str sampleSourceId),
    (.str "edges", .list [.list [.str "a|b", .str "c"], .list [.str "a", .str "b|c"]])]

/-- Facts of one kind with different natural keys may share an id, and then the fold keeps the row
    of the last one only. -/
theorem edges_share_id : (¬∀ (py : Interp) (given : Set String), Set.InjOn (textUuid py) given →
    ∀ f g : Fact, f.text ∈ given → g.text ∈ given → g.kind = f.kind → g.company = f.company →
      g ≠ f → g.rowId py ≠ f.rowId py) ∧
    ∃ s, foldEntries .plain initialProjectionState [sharedEdges] = .ok s ∧
      (s .externalLineage : Table ExternalLineage.id).rows.map (fun r => (r.upstream, r.downstream)) =
        [("a", "b|c")] := by
  refine ⟨fun h => ?_, _, rfl, rfl⟩
  let f : Fact := .lineage "acme" sampleSourceId "a|b" "c"
  let g : Fact := .lineage "acme" sampleSourceId "a" "b|c"
  have htext : g.text = f.text := by decide
  have hne : g ≠ f := fun heq => absurd (congrArg Fact.parts heq) (by decide)
  refine h .plain {f.text} (Set.injOn_singleton _ _) f g rfl htext rfl rfl hne ?_
  exact (rowId_eq_iff (Set.injOn_singleton _ _) rfl (Set.mem_singleton f.text) htext).mpr htext

end Projection
