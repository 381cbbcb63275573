import Wormbase.Projection.Constraints
import Wormbase.Py.UuidText

/-! What a role grant that is shown goes back to, and what a revocation leaves.

    A revocation stamps the first live grant of its person and role. So it is effective when there is
    one such grant, and once there is none, only an assignment of the same pair brings one back. -/

namespace Projection
open Py

/-- The entry revokes the tenancy role of the person that its args spell. -/
def LedgerRow.Revokes (e : LedgerRow) (person : UUID) (role : String) : Prop :=
  ∃ args, e.action = some ("emit_role_revoked", args) ∧
    (args.get "person_id").toUUID = .ok person ∧ args.get "role" = .str role

/-- The entry assigns a tenancy role. -/
def LedgerRow.Assigns (e : LedgerRow) (person : UUID) (role : String) : Prop :=
  ∃ args, e.action = some ("emit_role_assigned", args) ∧
    (args.get "person_id").toUUID = .ok person ∧ args.get "role" = .str role

/-- A tenancy grant of the role to the person that is not revoked. -/
def Grant.live (person : UUID) (role : String) (g : Grant) : Bool :=
  g.facet = .tenancy && g.personId = person && g.role = role && g.revokedAt.isNone

theorem Grant.live_iff {person : UUID} {role : String} {g : Grant} : g.live person role = true ↔
    g.facet = .tenancy ∧ g.personId = person ∧ g.role = role ∧ g.revokedAt = none := by
  simp [live, Option.isNone_iff_eq_none, and_assoc]

/-- No grant that is shown for the person gives the tenancy role. -/
def NoGrant (roles : List Grant) (person : UUID) (role : String) : Prop :=
  ∀ g ∈ grantsFor roles person, ¬(g.facet = .tenancy ∧ g.role = role)

theorem noGrant_iff {roles : List Grant} {person : UUID} {role : String} :
    NoGrant roles person role ↔ roles.filter (Grant.live person role) = [] := by
  rw [NoGrant, List.filter_eq_nil_iff]
  simp only [mem_grantsFor, Grant.live_iff]
  constructor
  · rintro h g hg ⟨hfacet, hperson, hrole, hrevoked⟩
    exact h g ⟨hg, hperson, hrevoked⟩ ⟨hfacet, hrole⟩
  · rintro h g ⟨hg, hperson, hrevoked⟩ ⟨hfacet, hrole⟩
    exact h g hg ⟨hfacet, hperson, hrole, hrevoked⟩

theorem noGrant_perm {xs ys : List Grant} (h : xs.Perm ys) {person : UUID} {role : String} :
    NoGrant xs person role ↔ NoGrant ys person role := by
  rw [noGrant_iff, noGrant_iff]
  exact ⟨fun hx => ((h.filter _).symm.trans (hx ▸ .refl _)).eq_nil,
    fun hy => ((h.filter _).trans (hy ▸ .refl _)).eq_nil⟩

section
variable {py : Interp} {e : LedgerRow} {t t' : Roles} {person : UUID} {role : String}

/-! ### One step -/

/-- A handler of roles puts a fresh grant that the entry names, or revokes. -/
inductive RoleStep (py : Interp) (e : LedgerRow) (t : Roles) : Roles → Prop
  | same : (∀ person role, ¬e.Revokes person role) → RoleStep py e t t
  | assigned {args : Dict} {r : Grant} :
      e.action = some ("emit_role_assigned", args) → r.facet = .tenancy →
      (args.get "person_id").toUUID = .ok r.personId → args.get "role" = .str r.role →
      RoleStep py e t (t.put r)
  | domain {args : Dict} {r : Grant} :
      e.action = some ("emit_domain_role_assigned", args) → r.facet = .domain → RoleStep py e t (t.put r)
  | resource {args : Dict} {r : Grant} {resource : UUID} :
      e.action = some ("emit_resource_role_assigned", args) → r.facet = .resource →
      (args.get "person_id").toUUID = .ok r.personId → args.get "role" = .str r.role →
      (args.get "resource_id").toUUID = .ok resource → r.scopeId = some resource →
      RoleStep py e t (t.put r)
  | proposed {args : Dict} {r : Grant} {resource : UUID} :
      e.action = some ("emit_resource_role_proposed", args) → r.facet = .resource →
      (args.get "person_id").toUUID = .ok r.personId → args.get "role" = .str r.role →
      (args.get "resource_id").toUUID = .ok resource → r.scopeId = some resource →
      r.scopeType = .str "resource" → (args.get "proposed_by").toUUID = .ok r.grantedBy →
      RoleStep py e t (t.put r)
  | revoked {args : Dict} :
      e.action = some ("emit_role_revoked", args) →
      RoleStep py e t (t.updateFirst (Grant.revokes (args.get "person_id") (args.get "role"))
        (fun g => { g with revokedAt := some e.ts, lastUpdatedSeq := e.seq }) (fun _ => rfl))

theorem roleStep (h : stepAt py .roles t e = .ok t') : RoleStep py e t t' := by
  rcases stepAt_cases (by decide) h with ⟨rfl, hcalls⟩ | ⟨tool, args, run, hact, hmem, hrun⟩
  · refine .same ?_
    rintro person role ⟨args, hact, -⟩
    exact hcalls "emit_role_revoked" (by decide) (fun _ => False) args hact
  · simp only [Part.handlers, List.mem_cons, Prod.mk.injEq, List.not_mem_nil, or_false] at hmem
    rcases hmem with ⟨rfl, rfl⟩ | ⟨rfl, rfl⟩ | ⟨rfl, rfl⟩ | ⟨rfl, rfl⟩ | ⟨rfl, rfl⟩
    · obtain ⟨r, -, -, hperson, hfacet, hrole, -, -, -, -, rfl⟩ := addGrant_ok (emitRoleAssigned_ok hrun)
      exact .assigned hact hfacet hperson hrole
    · rw [emitRoleRevoked_ok hrun]
      exact .revoked hact
    · obtain ⟨domain, -, hrun⟩ := emitDomainRoleAssigned_ok hrun
      obtain ⟨r, -, -, -, hfacet, -, -, -, -, -, rfl⟩ := addGrant_ok hrun
      exact .domain hact hfacet
    · obtain ⟨resource, hresource, hrun⟩ := emitResourceRoleAssigned_ok hrun
      obtain ⟨r, -, -, hperson, hfacet, hrole, hscope, -, -, -, rfl⟩ := addGrant_ok hrun
      exact .resource hact hfacet hperson hrole hresource hscope
    · obtain ⟨resource, hresource, hrun⟩ := emitResourceRoleProposed_ok hrun
      obtain ⟨r, -, -, hperson, hfacet, hrole, hscope, htype, hby, -, rfl⟩ := addGrant_ok hrun
      exact .proposed hact hfacet hperson hrole hresource hscope htype hby

/-! ### Revocation -/

/-- The canonical text of a person picks the live grants of that person. -/
theorem revokes_eq_live : Grant.revokes (.str person.str) (.str role) = Grant.live person role := by
  funext g
  have hperson : decide (person.str = g.personId.str) = decide (g.personId = person) :=
    decide_eq_decide.mpr ⟨fun h => (UUID.str_injective h).symm, fun h => h ▸ rfl⟩
  have hrole : decide (role = g.role) = decide (g.role = role) := decide_eq_decide.mpr eq_comm
  simp only [Grant.revokes, Grant.live, Val.isText, hperson, hrole]

/-- Another spelling of a person picks no grant. -/
theorem revokes_misspelled {pid v : Val} (hpid : pid.toUUID = .ok person)
    (hspelled : pid ≠ .str person.str) (g : Grant) : Grant.revokes pid v g = false := by
  cases htext : pid.isText g.personId.str with
  | false => simp [Grant.revokes, htext]
  | true =>
    have htext := Val.isText_iff.mp htext
    rw [htext, UUID.toUUID_str] at hpid
    exact absurd (Except.ok.inj hpid ▸ htext) hspelled

/-- The state before a revocation in which it leaves no live grant. -/
def RevokeFits (roles : Roles) (e : LedgerRow) : Prop :=
  e.Calls "emit_role_revoked" fun args => ∀ person role,
    (args.get "person_id").toUUID = .ok person → args.get "role" = .str role →
      NoGrant roles.rows person role ∨ args.get "person_id" = .str person.str ∧
        ∃ g, roles.rows.filter (Grant.live person role) = [g]

/-- A revocation leaves no grant of the pair exactly if it fits. -/
theorem revoked_iff {args : Dict} (hact : e.action = some ("emit_role_revoked", args))
    (hpid : (args.get "person_id").toUUID = .ok person) (hrole : args.get "role" = .str role)
    (h : stepAt py .roles t e = .ok t') : NoGrant t'.rows person role ↔
      NoGrant t.rows person role ∨ args.get "person_id" = .str person.str ∧
        ∃ g, t.rows.filter (Grant.live person role) = [g] := by
  obtain ⟨args', hact', rfl⟩ : ∃ args', e.action = some ("emit_role_revoked", args') ∧
      t' = t.updateFirst (Grant.revokes (args'.get "person_id") (args'.get "role"))
        (fun g => { g with revokedAt := some e.ts, lastUpdatedSeq := e.seq }) (fun _ => rfl) := by
    cases roleStep h with
    | same hno => exact absurd ⟨args, hact, hpid, hrole⟩ (hno person role)
    | revoked hact' => exact ⟨_, hact', rfl⟩
    | assigned hact' | domain hact' | resource hact' | proposed hact' =>
      simp [hact] at hact'
  obtain rfl : args = args' := (Prod.mk.inj (Option.some.inj (hact.symm.trans hact'))).2
  rw [noGrant_iff, noGrant_iff, Table.updateFirst, hrole]
  by_cases hspelled : args.get "person_id" = .str person.str
  · have hdead : ∀ g : Grant, g.live person role = true → Grant.live person role
        { g with revokedAt := some e.ts, lastUpdatedSeq := e.seq } = false := by
      intro g _
      simp [Grant.live]
    simp only [hspelled, revokes_eq_live, true_and, Table.filter_updateRow hdead]
    cases hlive : t.rows.filter (Grant.live person role) with
    | nil => simp
    | cons g gs => simp
  · have hnone : ∀ g ∈ t.rows, Grant.revokes (args.get "person_id") (.str role) g = false :=
      fun g _ => revokes_misspelled hpid hspelled g
    simp only [Table.updateRow_none hnone, hspelled, false_and, or_false]

/-- Without a grant of the pair, only its assignment brings one. -/
theorem noGrant_step (h : stepAt py .roles t e = .ok t') (hno : ¬e.Assigns person role)
    (hnone : NoGrant t.rows person role) : NoGrant t'.rows person role := by
  rw [noGrant_iff, List.filter_eq_nil_iff] at hnone ⊢
  have hput : ∀ {r : Grant}, ¬r.live person role = true →
      ∀ g ∈ (t.put r).rows, ¬g.live person role = true :=
    fun hr => Table.forall_mem_put hnone hr
  cases roleStep h with
  | same _ => exact hnone
  | assigned hact hfacet hperson hrole =>
    refine hput fun hlive => hno ⟨_, hact, ?_, ?_⟩
    · rw [hperson, (Grant.live_iff.mp hlive).2.1]
    · rw [hrole, (Grant.live_iff.mp hlive).2.2.1]
  | domain _ hfacet | resource _ hfacet | proposed _ hfacet =>
    refine hput fun hlive => ?_
    rw [(Grant.live_iff.mp hlive).1] at hfacet
    cases hfacet
  | revoked _ =>
    refine Table.forall_mem_updateRow (fun g _ => ?_) hnone
    simp [Grant.live]

/-! ### Where a resource grant comes from -/

/-- The entry calls the tool for the person's role on the resource. -/
def LedgerRow.NamesResource (e : LedgerRow) (tool : String) (person : UUID) (role : String)
    (resource : UUID) (args : Dict) : Prop :=
  e.action = some (tool, args) ∧ (args.get "person_id").toUUID = .ok person ∧
    args.get "role" = .str role ∧ (args.get "resource_id").toUUID = .ok resource

/-- A grant on a resource goes back to an entry that assigns it, or that proposes it. -/
def Grant.Origin (es : List LedgerRow) (g : Grant) : Prop :=
  ∃ resource, g.scopeId = some resource ∧
    ((∃ e ∈ es, ∃ args,
        e.NamesResource "emit_resource_role_assigned" g.personId g.role resource args) ∨
      ∃ e ∈ es, ∃ args, e.NamesResource "emit_resource_role_proposed" g.personId g.role resource args ∧
        g.scopeType = .str "resource" ∧ (args.get "proposed_by").toUUID = .ok g.grantedBy)

theorem origin_step {es : List LedgerRow} (he : e ∈ es) (h : stepAt py .roles t e = .ok t')
    (ht : ∀ g ∈ t.rows, g.facet = .resource → g.Origin es) :
    ∀ g ∈ t'.rows, g.facet = .resource → g.Origin es := by
  have hput : ∀ {r : Grant}, (r.facet = .resource → r.Origin es) →
      ∀ g ∈ (t.put r).rows, g.facet = .resource → g.Origin es :=
    fun hr => Table.forall_mem_put ht hr
  cases roleStep h with
  | same _ => exact ht
  | assigned _ hfacet | domain _ hfacet => exact hput fun h => by simp [hfacet] at h
  | resource hact _ hperson hrole hresource hscope =>
    exact hput fun _ => ⟨_, hscope, .inl ⟨e, he, _, hact, hperson, hrole, hresource⟩⟩
  | proposed hact _ hperson hrole hresource hscope htype hby =>
    exact hput fun _ =>
      ⟨_, hscope, .inr ⟨e, he, _, ⟨hact, hperson, hrole, hresource⟩, htype, hby⟩⟩
  | revoked _ =>
    refine Table.forall_mem_updateRow (fun g hg => ?_) ht
    exact hg

/-! ### Ledgers -/

/-- After a revocation, and until the next assignment of its pair, no grant of the pair is shown. -/
def RevocationHolds (py : Interp) (es : List LedgerRow) : Prop :=
  ∀ es₁ e es₂ person role, es₁ ++ e :: es₂ <+: es → LedgerRow.Revokes e person role →
    (∀ e' ∈ es₂, ¬e'.Assigns person role) → ∀ p, projectionsOf py (es₁ ++ e :: es₂) = .ok p →
      NoGrant p.roles person role

/-- Every revocation meets at most one live grant of its pair, and spells its person out. -/
def RevocationsFit (py : Interp) (es : List LedgerRow) : Prop :=
  ∀ es₁ e, es₁ ++ [e] <+: es → ∀ s, foldEntries py initialProjectionState es₁ = .ok s →
    RevokeFits (s .roles) e

theorem roles_rows {s : State} {p : Projections} (h : stateToProjections py s = .ok p) :
    p.roles.Perm (s .roles).rows := @rows_perm py ⟨0⟩ ⟨⟨0, by decide⟩, none⟩ s p h .roles

theorem noGrant_rows {s : State} {p : Projections} (h : stateToProjections py s = .ok p) :
    NoGrant p.roles person role ↔ NoGrant (s .roles).rows person role := noGrant_perm (roles_rows h)

theorem noGrant_fold {es : List LedgerRow} {s s' : State} (h : foldEntries py s es = .ok s')
    (hno : ∀ e ∈ es, ¬e.Assigns person role) (hnone : NoGrant (s .roles).rows person role) :
    NoGrant (s' .roles).rows person role :=
  foldAt_invariant (P := fun t : Roles => NoGrant t.rows person role)
    (fun e he _ _ ht hstep => noGrant_step hstep (hno e he) ht) hnone (foldEntries_at h .roles)

end

/-- Every resource grant that is shown for a person was assigned to that person, or proposed for it,
    in the ledger; one that only proposals account for is as its proposer wrote it. -/
theorem resource_grant_origin (py : Interp) (es : List LedgerRow) (p : Projections)
    (hp : projectionsOf py es = .ok p) (person : UUID) :
    ∀ g ∈ grantsFor p.roles person, g.facet = .resource → g.personId = person ∧ g.Origin es := by
  intro g hg hfacet
  obtain ⟨hmem, hperson, -⟩ := mem_grantsFor.mp hg
  obtain ⟨s, hs, hsp⟩ := projectionsOf_ok hp
  have horigin : ∀ g ∈ (s .roles).rows, g.facet = .resource → g.Origin es :=
    foldAt_invariant (P := fun t : Roles => ∀ g ∈ t.rows, g.facet = .resource → g.Origin es)
      (fun e he _ _ ht hstep => origin_step he hstep ht) (fun _ h => absurd h List.not_mem_nil)
      (foldEntries_at hs .roles)
  exact ⟨hperson, horigin g ((roles_rows hsp).mem_iff.mp hmem) hfacet⟩

def sampleProposal : Dict :=
  [(.str "person_id", .str "00000000-0000-0000-0000-000000000007"),
    (.str "resource_id", .str "00000000-0000-0000-0000-000000000009"), (.str "role", .str "maintainer"),
    (.str "confidence", .float (.finite false 1)), (.str "signals", .list []),
    (.str "proposed_by", .str "00000000-0000-0000-0000-000000000008")]

theorem singleProposal_grant : ∃ p, projectionsOf .plain (cycle 1 "emit_resource_role_proposed"
    sampleProposal) = .ok p ∧ ∃ g ∈ grantsFor p.roles ⟨7⟩, g.facet = .resource ∧
      g.role = "maintainer" ∧ g.scopeId = some ⟨9⟩ := by
  obtain ⟨s, g, hs, hroles, hperson, hfacet, hrole, hscope, hrevoked, hkpi, hinstalls⟩ : ∃ s g,
      foldEntries .plain initialProjectionState (cycle 1 "emit_resource_role_proposed" sampleProposal) =
        .ok s ∧ (s .roles).rows = [g] ∧ g.personId = ⟨7⟩ ∧ g.facet = .resource ∧
        g.role = "maintainer" ∧ g.scopeId = some ⟨9⟩ ∧ g.revokedAt = none ∧ s .kpiNodes = .empty ∧
        s .installs = .empty := ⟨_, _, rfl, rfl, rfl, rfl, rfl, rfl, rfl, rfl, rfl⟩
  obtain ⟨p, hp⟩ := @stateToProjections_ok .plain _ hkpi hinstalls
  refine ⟨p, by rw [projectionsOf, hs]; exact hp, g, ?_, hfacet, hrole, hscope⟩
  refine mem_grantsFor.mpr ⟨(roles_rows hp).mem_iff.mpr ?_, hperson, hrevoked⟩
  rw [hroles]
  exact .head _

/-- A proposal that no assignment goes with is a grant. -/
theorem proposal_grants : (∃ p, projectionsOf .plain (cycle 1 "emit_resource_role_proposed"
    sampleProposal) = .ok p ∧ ∃ g ∈ grantsFor p.roles ⟨7⟩, g.facet = .resource ∧
      g.role = "maintainer" ∧ g.scopeId = some ⟨9⟩) ∧
    ∀ e ∈ cycle 1 "emit_resource_role_proposed" sampleProposal, ∀ person role resource args,
      ¬e.NamesResource "emit_resource_role_assigned" person role resource args := by
  refine ⟨singleProposal_grant, ?_⟩
  rintro e he person role resource args ⟨hact, -⟩
  simp only [cycle, List.mem_cons, List.not_mem_nil, or_false] at he
  rcases he with rfl | rfl | rfl | rfl
  · cases hact
  · have hproposed : (executed 2 "emit_resource_role_proposed" sampleProposal).action =
      some ("emit_resource_role_proposed", sampleProposal) := rfl
    simp [hproposed] at hact
  · cases hact
  · cases hact

theorem proposal_origin : ∃ p, projectionsOf .plain (cycle 1 "emit_resource_role_proposed"
    sampleProposal) = .ok p ∧ ∃ g ∈ grantsFor p.roles ⟨7⟩,
      g.Origin (cycle 1 "emit_resource_role_proposed" sampleProposal) := by
  obtain ⟨p, hp, g, hg, hfacet, -⟩ := singleProposal_grant
  exact ⟨p, hp, g, hg, (resource_grant_origin .plain _ p hp ⟨7⟩ g hg hfacet).2⟩

/-- Revocations are effective, from each of them to the next assignment of its pair, in every ledger
    whose revocations all fit, and among the ledgers that are built at every point only in these. -/
theorem revocation_effective_iff (py : Interp) (es : List LedgerRow) :
    (RevocationsFit py es → RevocationHolds py es) ∧
    ((∀ es₁, es₁ <+: es → ∃ p, projectionsOf py es₁ = .ok p) →
      RevocationHolds py es → RevocationsFit py es) := by
  constructor
  · rintro hfits es₁ e es₂ person role hpre ⟨args, hact, hpid, hrole⟩ hno p hp
    obtain ⟨s', hs', hsp⟩ := projectionsOf_ok hp
    obtain ⟨s, hs, hrest⟩ := foldEntries_append.mp hs'
    obtain ⟨u, hu, hrest⟩ := foldEntries_cons.mp hrest
    have hpre₁ : es₁ ++ [e] <+: es := by
      refine List.IsPrefix.trans ⟨es₂, ?_⟩ hpre
      rw [List.append_assoc, List.singleton_append]
    have hrevoked := (revoked_iff hact hpid hrole (applyEntry_at hu .roles)).mpr
      (hfits es₁ e hpre₁ s hs args hact person role hpid hrole)
    exact (noGrant_rows hsp).mpr (noGrant_fold hrest hno hrevoked)
  · rintro hbuilt hholds es₁ e hpre s hs args hact person role hpid hrole
    obtain ⟨p, hp⟩ := hbuilt _ hpre
    have hnone := hholds es₁ e [] person role hpre ⟨args, hact, hpid, hrole⟩
      (fun _ h => absurd h List.not_mem_nil) p hp
    obtain ⟨s', hs', hsp⟩ := projectionsOf_ok hp
    obtain ⟨u, hu, hrest⟩ := foldEntries_append.mp hs'
    obtain rfl := Except.ok.inj (hs.symm.trans hu)
    obtain ⟨v, hv, hrest⟩ := foldEntries_cons.mp hrest
    obtain rfl := Except.ok.inj hrest
    exact (revoked_iff hact hpid hrole (applyEntry_at hv .roles)).mp ((noGrant_rows hsp).mp hnone)

/-- A digest that tells texts apart by how they end. -/
def mirrorDigest : Interp := ⟨List.reverse, fun _ => true⟩

def sampleRole : Dict :=
  [(.str "person_id", .str "00000000-0000-0000-0000-000000000007"), (.str "role", .str "admin"),
    (.str "granted_by", .str "00000000-0000-0000-0000-000000000008")]

/-- A role that is assigned twice and revoked once. -/
def doubleAssignment : List LedgerRow :=
  cycle 1 "emit_role_assigned" sampleRole ++ cycle 5 "emit_role_assigned" sampleRole ++
    cycle 9 "emit_role_revoked" sampleRole

theorem doubleAssignment_built : ∃ p, projectionsOf mirrorDigest doubleAssignment = .ok p ∧
    ¬NoGrant p.roles ⟨7⟩ "admin" := by
  obtain ⟨s, hs, hroles, hkpi, hinstalls⟩ : ∃ s,
      foldEntries mirrorDigest initialProjectionState doubleAssignment = .ok s ∧
        ((s .roles).rows.map fun g => (g.facet, g.personId, g.role, g.revokedAt.isNone)) =
          [(.tenancy, ⟨7⟩, "admin", false), (.tenancy, ⟨7⟩, "admin", true)] ∧
        s .kpiNodes = .empty ∧ s .installs = .empty := ⟨_, rfl, rfl, rfl, rfl⟩
  obtain ⟨p, hp⟩ := @stateToProjections_ok mirrorDigest _ hkpi hinstalls
  refine ⟨p, by rw [projectionsOf, hs]; exact hp, fun hnone => ?_⟩
  have hsecond : (Facet.tenancy, (⟨7⟩ : UUID), "admin", true) ∈
      (s .roles).rows.map fun g => (g.facet, g.personId, g.role, g.revokedAt.isNone) := by
    rw [hroles]
    exact .tail _ (.head _)
  obtain ⟨g, hg, hfields⟩ := List.mem_map.mp hsecond
  simp only [Prod.mk.injEq, Option.isNone_iff_eq_none] at hfields
  obtain ⟨hfacet, hperson, hrole, hrevoked⟩ := hfields
  exact (noGrant_rows hp).mp hnone g (mem_grantsFor.mpr ⟨hg, hperson, hrevoked⟩) ⟨hfacet, hrole⟩

theorem doubleAssignment_keeps : ¬RevocationHolds mirrorDigest doubleAssignment := by
  obtain ⟨p, hp, hgrant⟩ := doubleAssignment_built
  obtain ⟨e₁, e₃, e₄, hsplit, h₃, h₄⟩ : ∃ e₁ e₃ e₄ : LedgerRow, cycle 9 "emit_role_revoked" sampleRole =
      [e₁, executed 10 "emit_role_revoked" sampleRole, e₃, e₄] ∧ e₃.action = none ∧
        e₄.action = none := ⟨_, _, _, rfl, rfl, rfl⟩
  have hall : doubleAssignment = (cycle 1 "emit_role_assigned" sampleRole ++
      cycle 5 "emit_role_assigned" sampleRole ++ [e₁]) ++
        executed 10 "emit_role_revoked" sampleRole :: [e₃, e₄] := by
    simp only [doubleAssignment, hsplit, List.append_assoc, List.singleton_append]
  rw [hall] at hp
  intro hholds
  refine hgrant (hholds _ _ _ ⟨7⟩ "admin" (hall ▸ List.prefix_rfl) ⟨sampleRole, rfl, rfl, rfl⟩ ?_ p hp)
  rintro e' he' ⟨args, hact, -⟩
  simp only [List.mem_cons, List.not_mem_nil, or_false] at he'
  rcases he' with rfl | rfl
  · rw [h₃] at hact
    cases hact
  · rw [h₄] at hact
    cases hact

/-- A role that is assigned once and revoked. -/
def singleAssignment : List LedgerRow :=
  [executed 1 "emit_role_assigned" sampleRole, executed 2 "emit_role_revoked" sampleRole]

theorem singleAssignment_built : ∃ s p, foldEntries mirrorDigest initialProjectionState
    [executed 1 "emit_role_assigned" sampleRole] = .ok s ∧
      projectionsOf mirrorDigest singleAssignment = .ok p ∧
        (s .roles).rows.map (fun g => (g.facet, g.personId, g.role, g.revokedAt.isNone)) =
          [(.tenancy, ⟨7⟩, "admin", true)] := by
  obtain ⟨s, s', hs, hs', hroles, hkpi, hinstalls⟩ : ∃ s s', foldEntries mirrorDigest
      initialProjectionState [executed 1 "emit_role_assigned" sampleRole] = .ok s ∧
        foldEntries mirrorDigest initialProjectionState singleAssignment = .ok s' ∧
          (s .roles).rows.map (fun g => (g.facet, g.personId, g.role, g.revokedAt.isNone)) =
            [(.tenancy, ⟨7⟩, "admin", true)] ∧
          s' .kpiNodes = .empty ∧ s' .installs = .empty := ⟨_, _, rfl, rfl, rfl, rfl, rfl⟩
  obtain ⟨p, hp⟩ := @stateToProjections_ok mirrorDigest _ hkpi hinstalls
  exact ⟨s, p, hs, by rw [projectionsOf, hs']; exact hp, hroles⟩

theorem singleAssignment_fits : RevocationsFit mirrorDigest singleAssignment := by
  rintro es₁ e hpre s hs
  rcases es₁ with _ | ⟨e₁, _ | ⟨e₂, es₁⟩⟩
  · obtain rfl := (List.cons_prefix_cons.mp hpre).1
    have hact : (executed 1 "emit_role_assigned" sampleRole).action =
      some ("emit_role_assigned", sampleRole) := rfl
    exact (calls_iff hact).mpr fun h => by simp at h
  · simp only [singleAssignment, List.cons_append, List.nil_append, List.cons_prefix_cons] at hpre
    obtain ⟨rfl, rfl, -⟩ := hpre
    obtain ⟨s₁, p, hs₁, -, hroles⟩ := singleAssignment_built
    obtain rfl := Except.ok.inj (hs₁.symm.trans hs)
    have hact : (executed 2 "emit_role_revoked" sampleRole).action =
      some ("emit_role_revoked", sampleRole) := rfl
    refine (calls_iff hact).mpr fun _ person role hperson hrole => .inr ?_
    obtain rfl : (⟨7⟩ : UUID) = person := Except.ok.inj hperson
    obtain rfl : "admin" = role := Val.str.inj hrole
    refine ⟨rfl, ?_⟩
    simp only [List.map_eq_cons_iff, List.map_eq_nil_iff] at hroles
    obtain ⟨g, _, hrows, hg, rfl⟩ := hroles
    simp only [Prod.mk.injEq, Option.isNone_iff_eq_none] at hg
    exact ⟨g, by rw [hrows, List.filter_cons_of_pos (Grant.live_iff.mpr hg), List.filter_nil]⟩
  · simp [singleAssignment, List.cons_prefix_cons] at hpre

theorem singleAssignment_revoked : ∃ p, projectionsOf mirrorDigest singleAssignment = .ok p ∧
    NoGrant p.roles ⟨7⟩ "admin" := by
  obtain ⟨s, p, -, hp, -⟩ := singleAssignment_built
  refine ⟨p, hp, ?_⟩
  exact (revocation_effective_iff mirrorDigest singleAssignment).1 singleAssignment_fits
    [executed 1 "emit_role_assigned" sampleRole] (executed 2 "emit_role_revoked" sampleRole) [] ⟨7⟩ "admin"
    List.prefix_rfl ⟨sampleRole, rfl, rfl, rfl⟩ (fun _ h => absurd h List.not_mem_nil) p hp

end Projection
