import Wormbase.Projection.Entry

/-! Role grants over the three facets, and the grants that a person holds. -/

namespace Projection
open Py

inductive Facet where | tenancy | domain | resource
  deriving DecidableEq

def Facet.text : Facet → String
  | tenancy => "tenancy" | domain => "domain" | resource => "resource"

structure Grant where
  grantId : UUID
  tenantId : UUID
  personId : UUID
  facet : Facet
  role : String
  scopeId : Option UUID
  scopeType : Val
  grantedBy : UUID
  grantedAt : DateTime
  revokedAt : Option DateTime
  lastUpdatedSeq : ℕ

abbrev Roles := Table Grant.grantId

section
variable (py : Interp)

/-- A fresh grant. Its id is derived from person, facet, role, scope and the entry's own seq. -/
def addGrant (e : LedgerRow) (facet : Facet) (pid role scope : Val) (scopeId : Option UUID)
    (scopeType grantedBy : Val) (roles : Roles) : Except Err Roles := do
  let seq := String.ofList (intText e.seq)
  let grantId ← roleGrantUuid py [.str e.company, pid, .str facet.text, role, scope, .str seq]
  let row : Grant := {
    grantId
    tenantId := e.companyId
    personId := ← pid.toUUID
    facet
    role := ← joined role
    scopeId, scopeType
    grantedBy := ← grantedBy.toUUID
    grantedAt := e.ts
    revokedAt := none
    lastUpdatedSeq := e.seq }
  return roles.put row

theorem addGrant_ok {py : Interp} {e : LedgerRow} {facet : Facet} {pid role scope : Val}
    {scopeId : Option UUID} {scopeType grantedBy : Val} {t t' : Roles}
    (h : addGrant py e facet pid role scope scopeId scopeType grantedBy t = .ok t') : ∃ r,
      roleGrantUuid py [.str e.company, pid, .str facet.text, role, scope,
        .str (String.ofList (intText e.seq))] = .ok r.grantId ∧
      r.tenantId = e.companyId ∧ pid.toUUID = .ok r.personId ∧ r.facet = facet ∧
      role = .str r.role ∧ r.scopeId = scopeId ∧ r.scopeType = scopeType ∧
      grantedBy.toUUID = .ok r.grantedBy ∧ r.revokedAt = none ∧ t' = t.put r := by
  obtain ⟨id, hid, h⟩ := bind_eq_ok.mp h
  obtain ⟨person, hperson, h⟩ := bind_eq_ok.mp h
  obtain ⟨text, htext, h⟩ := bind_eq_ok.mp h
  obtain ⟨by', hby, h⟩ := bind_eq_ok.mp h
  exact ⟨_, hid, rfl, hperson, rfl, joined_ok htext, rfl, rfl, hby, rfl,
    (Except.ok.inj h).symm⟩

def emitRoleAssigned : Fold Roles := fun e args roles => do
  let pid ← args.item "person_id"
  let role ← args.item "role"
  addGrant py e .tenancy pid role (.str "") none .none (← args.item "granted_by") roles

/-- What `emit_role_revoked` looks for: an unrevoked tenancy grant of the person and the role. -/
def Grant.revokes (pid role : Val) (g : Grant) : Bool :=
  g.facet = .tenancy && pid.isText g.personId.str && role.isText g.role && g.revokedAt.isNone

/-- Stamps the first such grant in the order the grants came. -/
def emitRoleRevoked : Fold Roles := fun e args roles => do
  let pid ← args.item "person_id"
  let role ← args.item "role"
  return roles.updateFirst (Grant.revokes pid role)
    (fun g => { g with revokedAt := some e.ts, lastUpdatedSeq := e.seq }) (fun _ => rfl)

def emitDomainRoleAssigned : Fold Roles := fun e args roles => do
  let pid ← args.item "person_id"
  let domainId ← args.item "domain_id"
  let role ← args.item "role"
  addGrant py e .domain pid role domainId (some (← domainId.toUUID)) (.str "domain")
    (← args.item "granted_by") roles

def emitResourceRoleAssigned : Fold Roles := fun e args roles => do
  let pid ← args.item "person_id"
  let resourceId ← args.item "resource_id"
  let resourceType ← args.item "resource_type"
  let role ← args.item "role"
  addGrant py e .resource pid role resourceId (some (← resourceId.toUUID)) resourceType
    (← args.item "granted_by") roles

/-- A proposal writes the grant that an assignment writes, granted by its proposer. -/
def emitResourceRoleProposed : Fold Roles := fun e args roles => do
  let pid ← args.item "person_id"
  let resourceId ← args.item "resource_id"
  let role ← args.item "role"
  addGrant py e .resource pid role resourceId (some (← resourceId.toUUID)) (.str "resource")
    (← args.item "proposed_by") roles

end

section
variable {py : Interp} {e : LedgerRow} {args : Dict} {t t' : Roles}

theorem emitRoleAssigned_ok (h : emitRoleAssigned py e args t = .ok t') :
    addGrant py e .tenancy (args.get "person_id") (args.get "role") (.str "") none .none
      (args.get "granted_by") t = .ok t' := by
  obtain ⟨pid, hpid, h⟩ := bind_eq_ok.mp h
  obtain ⟨role, hrole, h⟩ := bind_eq_ok.mp h
  obtain ⟨by', hby, h⟩ := bind_eq_ok.mp h
  rwa [item_get hpid, item_get hrole, item_get hby]

theorem emitRoleRevoked_ok (h : emitRoleRevoked e args t = .ok t') :
    t' = t.updateFirst (Grant.revokes (args.get "person_id") (args.get "role"))
      (fun g => { g with revokedAt := some e.ts, lastUpdatedSeq := e.seq }) (fun _ => rfl) := by
  obtain ⟨pid, hpid, h⟩ := bind_eq_ok.mp h
  obtain ⟨role, hrole, h⟩ := bind_eq_ok.mp h
  rw [item_get hpid, item_get hrole]
  exact (Except.ok.inj h).symm

theorem emitDomainRoleAssigned_ok (h : emitDomainRoleAssigned py e args t = .ok t') :
    ∃ domain, (args.get "domain_id").toUUID = .ok domain ∧
      addGrant py e .domain (args.get "person_id") (args.get "role") (args.get "domain_id")
        (some domain) (.str "domain") (args.get "granted_by") t = .ok t' := by
  obtain ⟨pid, hpid, h⟩ := bind_eq_ok.mp h
  obtain ⟨v, hv, h⟩ := bind_eq_ok.mp h
  obtain ⟨role, hrole, h⟩ := bind_eq_ok.mp h
  obtain ⟨domain, hdomain, h⟩ := bind_eq_ok.mp h
  obtain ⟨by', hby, h⟩ := bind_eq_ok.mp h
  rw [item_get hpid, item_get hrole, item_get hv, item_get hby]
  exact ⟨domain, hdomain, h⟩

theorem emitResourceRoleAssigned_ok (h : emitResourceRoleAssigned py e args t = .ok t') :
    ∃ resource, (args.get "resource_id").toUUID = .ok resource ∧
      addGrant py e .resource (args.get "person_id") (args.get "role") (args.get "resource_id")
        (some resource) (args.get "resource_type") (args.get "granted_by") t = .ok t' := by
  obtain ⟨pid, hpid, h⟩ := bind_eq_ok.mp h
  obtain ⟨v, hv, h⟩ := bind_eq_ok.mp h
  obtain ⟨type, htype, h⟩ := bind_eq_ok.mp h
  obtain ⟨role, hrole, h⟩ := bind_eq_ok.mp h
  obtain ⟨resource, hresource, h⟩ := bind_eq_ok.mp h
  obtain ⟨by', hby, h⟩ := bind_eq_ok.mp h
  rw [item_get hpid, item_get hrole, item_get hv, item_get htype, item_get hby]
  exact ⟨resource, hresource, h⟩

theorem emitResourceRoleProposed_ok (h : emitResourceRoleProposed py e args t = .ok t') :
    ∃ resource, (args.get "resource_id").toUUID = .ok resource ∧
      addGrant py e .resource (args.get "person_id") (args.get "role") (args.get "resource_id")
        (some resource) (.str "resource") (args.get "proposed_by") t = .ok t' := by
  obtain ⟨pid, hpid, h⟩ := bind_eq_ok.mp h
  obtain ⟨v, hv, h⟩ := bind_eq_ok.mp h
  obtain ⟨role, hrole, h⟩ := bind_eq_ok.mp h
  obtain ⟨resource, hresource, h⟩ := bind_eq_ok.mp h
  obtain ⟨by', hby, h⟩ := bind_eq_ok.mp h
  rw [item_get hpid, item_get hrole, item_get hv, item_get hby]
  exact ⟨resource, hresource, h⟩

end

/-- The order in which `grants_for` shows grants: facet, role and scope as texts. -/
def Grant.shownBefore (g g' : Grant) : Prop :=
  let k := fun g : Grant => (g.facet.text.toList, g.role.toList,
    (g.scopeId.map UUID.text).getD [])
  (k g).1 < (k g').1 ∨ (k g).1 = (k g').1 ∧ ((k g).2.1 < (k g').2.1 ∨
    (k g).2.1 = (k g').2.1 ∧ (k g).2.2 ≤ (k g').2.2)

instance : DecidableRel Grant.shownBefore := fun g g' => by
  unfold Grant.shownBefore
  infer_instance

/-- `grants_for`. -/
def grantsFor (roles : List Grant) (personId : UUID) : List Grant :=
  (roles.filter fun g => g.personId = personId && g.revokedAt.isNone).insertionSort
    Grant.shownBefore

theorem mem_grantsFor {roles : List Grant} {personId : UUID} {g : Grant} :
    g ∈ grantsFor roles personId ↔ g ∈ roles ∧ g.personId = personId ∧ g.revokedAt = none := by
  simp [grantsFor, Option.isNone_iff_eq_none]

end Projection
