import Wormbase.Projection.Entry

/-! Persons with their identities on chat platforms, installs and the setup conversation. -/

namespace Projection
open Py

/-! ### Persons and identities -/

inductive PersonStatus where | proposed | active | archived
  deriving DecidableEq

structure Person where
  personId : UUID
  tenantId : UUID
  name : Val
  email : Val
  position : Val
  status : PersonStatus
  proposedBy : Val
  confirmedBy : Option UUID
  createdAt : DateTime
  lastUpdatedSeq : ℕ

structure Identity where
  identityId : UUID
  personId : UUID
  tenantId : UUID
  platform : String
  platformUserId : String
  displayName : Val
  emailAtPlatform : Val
  avatarUrl : Val
  addedAt : DateTime

/-- Tenant, platform and user id as texts. -/
abbrev IdentityKey := String × String × String

structure People where
  persons : Dictionary String Person
  identities : Dictionary IdentityKey Identity

section
variable (py : Interp)

/-- The identity row of a person, under its key. The row with that key is kept if there is one. -/
def addIdentity (e : LedgerRow) (tid : String) (personId tenantId : UUID)
    (platform userId displayName email : Val) (identities : Dictionary IdentityKey Identity) :
    Except Err (Dictionary IdentityKey Identity) := do
  let identityId ← identityUuid py [.str tid, platform, userId]
  let platform ← joined platform
  let platformUserId ← joined userId
  let row : Identity := {
    identityId, personId, tenantId, platform, platformUserId
    displayName
    emailAtPlatform := email
    avatarUrl := .none
    addedAt := e.ts }
  return identities.putNew ((tid, platform, platformUserId), row)

theorem addIdentity_ok {e : LedgerRow} {tid : String} {personId tenantId : UUID}
    {platform userId displayName email : Val} {t t' : Dictionary IdentityKey Identity}
    (h : addIdentity py e tid personId tenantId platform userId displayName email t = .ok t') :
    ∃ r : Identity, platform = .str r.platform ∧ userId = .str r.platformUserId ∧
      identityUuid py [.str tid, platform, userId] = .ok r.identityId ∧ r.personId = personId ∧
      r.tenantId = tenantId ∧ t' = t.putNew ((tid, r.platform, r.platformUserId), r) := by
  obtain ⟨id, hid, h⟩ := bind_eq_ok.mp h
  obtain ⟨pf, hpf, h⟩ := bind_eq_ok.mp h
  obtain ⟨us, hus, h⟩ := bind_eq_ok.mp h
  exact ⟨⟨id, personId, tenantId, pf, us, displayName, email, .none, e.ts⟩, joined_ok hpf,
    joined_ok hus, hid, rfl, rfl, (Except.ok.inj h).symm⟩

def emitPersonProposed : Fold People := fun e args people => do
  let (pid, personId) ← uuidText (← args.item "person_id")
  let (tid, tenantId) ← uuidText (← args.item "tenant_id")
  let name ← args.item "name"
  let row : Person := {
    personId, tenantId, name
    email := args.get "email"
    position := args.get "position"
    status := .proposed
    proposedBy := args.get "proposed_by"
    confirmedBy := none
    createdAt := e.ts
    lastUpdatedSeq := e.seq }
  let persons := people.persons.put (pid, row)
  let platform := args.get "platform"
  let userId := args.get "platform_user_id"
  if platform.truthy ∧ userId.truthy then
    let identities ← addIdentity py e tid personId tenantId platform userId name
      (args.get "email") people.identities
    return ⟨persons, identities⟩
  else return ⟨persons, people.identities⟩

/-- The person that a proposal writes, under its text, and the identity it may bring along. -/
theorem emitPersonProposed_ok {e : LedgerRow} {args : Dict} {people people' : People}
    (h : emitPersonProposed py e args people = .ok people') : ∃ pid tid r,
      args.get "person_id" = .str pid ∧ (args.get "person_id").toUUID = .ok r.personId ∧
      args.get "tenant_id" = .str tid ∧ (args.get "tenant_id").toUUID = .ok r.tenantId ∧
      r.status = .proposed ∧ people'.persons = people.persons.put (pid, r) ∧
      if (args.get "platform").truthy ∧ (args.get "platform_user_id").truthy then
        addIdentity py e tid r.personId r.tenantId (args.get "platform")
          (args.get "platform_user_id") r.name r.email people.identities = .ok people'.identities
      else people'.identities = people.identities := by
  obtain ⟨v, hv, h⟩ := bind_eq_ok.mp h
  obtain ⟨⟨pid, person⟩, hpid, h⟩ := bind_eq_ok.mp h
  obtain ⟨w, hw, h⟩ := bind_eq_ok.mp h
  obtain ⟨⟨tid, tenant⟩, htid, h⟩ := bind_eq_ok.mp h
  obtain ⟨name, -, h⟩ := bind_eq_ok.mp h
  obtain ⟨hv', hperson⟩ := uuidText_ok hpid
  obtain ⟨hw', htenant⟩ := uuidText_ok htid
  rw [item_get hv, item_get hw]
  simp only at h
  split at h
  · rename_i htruthy
    obtain ⟨identities, hids, h⟩ := bind_eq_ok.mp h
    obtain rfl := Except.ok.inj h
    exact ⟨pid, tid, _, hv', hperson, hw', htenant, rfl, rfl, by rw [if_pos htruthy]; exact hids⟩
  · rename_i htruthy
    obtain rfl := Except.ok.inj h
    exact ⟨pid, tid, _, hv', hperson, hw', htenant, rfl, rfl, by rw [if_neg htruthy]⟩

/-- `if pid in state["persons"]: p.update(...)`. -/
def People.updatePerson (people : People) (pid : Val) (f : Person → Except Err Person) :
    Except Err People := do
  return { people with persons := ← updateAt people.persons pid f }

/-- An update of one person, the identities kept. -/
def People.Revises (Keeps : Person → Person → Prop) (people people' : People) : Prop :=
  Updates Keeps people.persons people'.persons ∧ people'.identities = people.identities

theorem updatePerson_ok {people people' : People} {pid : Val} {f : Person → Except Err Person}
    {Keeps : Person → Person → Prop} (h : people.updatePerson pid f = .ok people')
    (hf : ∀ p p', f p = .ok p' → Keeps p p') : people.Revises Keeps people' := by
  obtain ⟨persons, hpersons, h⟩ := bind_eq_ok.mp h
  obtain rfl := Except.ok.inj h
  exact ⟨updateAt_updates hpersons hf, rfl⟩

/-- A later version of a person: the ids stay. -/
def Person.SameIds (p p' : Person) : Prop := p'.personId = p.personId ∧ p'.tenantId = p.tenantId

def emitPersonConfirmed : Fold People := fun e args people => do
  people.updatePerson (← args.item "person_id") fun p => do
    let by' ← (← args.item "confirmed_by").toUUID
    return { p with status := .active, confirmedBy := some by', lastUpdatedSeq := e.seq }

def emitPersonArchived : Fold People := fun e args people => do
  people.updatePerson (← args.item "person_id") fun p =>
    return { p with status := .archived, lastUpdatedSeq := e.seq }

/-- The entry is tenant-scoped, so its company is the tenant. -/
def emitIdentityLinked : Fold People := fun e args people => do
  let pid ← args.item "person_id"
  let platform ← args.item "platform"
  let userId ← args.item "platform_user_id"
  let personId ← pid.toUUID
  let identities ← addIdentity py e e.company personId e.companyId platform userId .none .none
    people.identities
  return { people with identities }

theorem emitIdentityLinked_ok {e : LedgerRow} {args : Dict} {people people' : People}
    (h : emitIdentityLinked py e args people = .ok people') : ∃ person,
      (args.get "person_id").toUUID = .ok person ∧ people'.persons = people.persons ∧
      addIdentity py e e.company person e.companyId (args.get "platform")
        (args.get "platform_user_id") .none .none people.identities = .ok people'.identities := by
  obtain ⟨v, hv, h⟩ := bind_eq_ok.mp h
  obtain ⟨platform, hplatform, h⟩ := bind_eq_ok.mp h
  obtain ⟨userId, huser, h⟩ := bind_eq_ok.mp h
  obtain ⟨person, hperson, h⟩ := bind_eq_ok.mp h
  obtain ⟨identities, hids, h⟩ := bind_eq_ok.mp h
  obtain rfl := Except.ok.inj h
  rw [item_get hv, item_get hplatform, item_get huser]
  exact ⟨person, hperson, rfl, hids⟩

/-- Drops the identity whoever it belongs to: the args' person is not looked at. -/
def emitIdentityUnlinked : Fold People := fun e args people => do
  let platform ← args.item "platform"
  let userId ← args.item "platform_user_id"
  match ← platform.hash, ← userId.hash with
  | .str platform, .str userId =>
    return { people with identities := people.identities.erase (e.company, platform, userId) }
  | _, _ => return people

theorem emitIdentityUnlinked_ok {e : LedgerRow} {args : Dict} {people people' : People}
    (h : emitIdentityUnlinked e args people = .ok people') : people'.persons = people.persons ∧
      ((∃ platform userId, args.get "platform" = .str platform ∧
          args.get "platform_user_id" = .str userId ∧
          people'.identities = people.identities.erase (e.company, platform, userId)) ∨
        (∀ platform userId, ¬(args.get "platform" = .str platform ∧
          args.get "platform_user_id" = .str userId)) ∧ people'.identities = people.identities) := by
  obtain ⟨v, hv, h⟩ := bind_eq_ok.mp h
  obtain ⟨w, hw, h⟩ := bind_eq_ok.mp h
  obtain ⟨k, hk, h⟩ := bind_eq_ok.mp h
  obtain ⟨l, hl, h⟩ := bind_eq_ok.mp h
  rw [item_get hv, item_get hw]
  split at h
  · obtain rfl := Except.ok.inj h
    exact ⟨rfl, .inl ⟨_, _, Val.hash_eq_str hk, Val.hash_eq_str hl, rfl⟩⟩
  · rename_i hnot
    obtain rfl := Except.ok.inj h
    refine ⟨rfl, .inr ⟨?_, rfl⟩⟩
    rintro platform userId ⟨rfl, rfl⟩
    exact hnot platform userId (Except.ok.inj hk).symm (Except.ok.inj hl).symm

def emitPositionProposed : Fold People := fun e args people => do
  people.updatePerson (← args.item "person_id") fun p => do
    return { p with position := ← args.item "position", lastUpdatedSeq := e.seq }

/-- Clears the position only where it is the rejected one. -/
def emitPositionRejected : Fold People := fun e args people => do
  let pid ← args.item "person_id"
  let rejected ← args.item "position"
  people.updatePerson pid fun p =>
    if p.position.same rejected then
      return { p with position := .none, lastUpdatedSeq := e.seq }
    else return p

theorem emitPersonConfirmed_ok {e : LedgerRow} {args : Dict} {people people' : People}
    (h : emitPersonConfirmed e args people = .ok people') :
    people.Revises Person.SameIds people' := by
  obtain ⟨v, -, h⟩ := bind_eq_ok.mp h
  refine updatePerson_ok h fun p p' hp => ?_
  obtain ⟨w, -, hp⟩ := bind_eq_ok.mp hp
  obtain ⟨u, -, hp⟩ := bind_eq_ok.mp hp
  rw [← Except.ok.inj hp]
  exact ⟨rfl, rfl⟩

theorem emitPersonArchived_ok {e : LedgerRow} {args : Dict} {people people' : People}
    (h : emitPersonArchived e args people = .ok people') :
    people.Revises Person.SameIds people' := by
  obtain ⟨v, -, h⟩ := bind_eq_ok.mp h
  refine updatePerson_ok h fun p p' hp => ?_
  rw [← Except.ok.inj hp]
  exact ⟨rfl, rfl⟩

theorem emitPositionProposed_ok {e : LedgerRow} {args : Dict} {people people' : People}
    (h : emitPositionProposed e args people = .ok people') :
    people.Revises Person.SameIds people' := by
  obtain ⟨v, -, h⟩ := bind_eq_ok.mp h
  refine updatePerson_ok h fun p p' hp => ?_
  obtain ⟨w, -, hp⟩ := bind_eq_ok.mp hp
  rw [← Except.ok.inj hp]
  exact ⟨rfl, rfl⟩

theorem emitPositionRejected_ok {e : LedgerRow} {args : Dict} {people people' : People}
    (h : emitPositionRejected e args people = .ok people') :
    people.Revises Person.SameIds people' := by
  obtain ⟨v, -, h⟩ := bind_eq_ok.mp h
  obtain ⟨w, -, h⟩ := bind_eq_ok.mp h
  refine updatePerson_ok h fun p p' hp => ?_
  split at hp
  · rw [← Except.ok.inj hp]
    exact ⟨rfl, rfl⟩
  · rw [← Except.ok.inj hp]
    exact ⟨rfl, rfl⟩

end

/-! ### Installs -/

inductive InstallStatus where | active | revoked
  deriving DecidableEq

structure Install where
  installId : UUID
  tenantId : UUID
  platform : Val
  installerPersonId : UUID
  oauthGrantRef : Val
  scopes : List Val
  botUserId : Val
  status : InstallStatus
  installedAt : DateTime
  setupMode : Val
  setupCompletedAt : Option DateTime
  lastUpdatedSeq : ℕ

/-- Under tenant text and platform. -/
abbrev Installs := Dictionary (String × Key) Install

def emitInstallCompleted : Fold Installs := fun e args installs => do
  let (tid, tenantId) ← uuidText (← args.item "tenant_id")
  let platform ← args.item "platform"
  let key := (tid, ← platform.hash)
  let prior := (installs.get? key).map Prod.snd
  let row : Install := {
    installId := ← (← args.item "install_id").toUUID
    tenantId, platform
    installerPersonId := ← (← args.item "installer_person_id").toUUID
    oauthGrantRef := ← args.item "oauth_grant_ref"
    scopes := ← (args.getD "scopes" (.list [])).toList
    botUserId := ← args.item "bot_user_id"
    status := .active
    installedAt := e.ts
    setupMode := (prior.map Install.setupMode).getD .none
    setupCompletedAt := prior.bind Install.setupCompletedAt
    lastUpdatedSeq := e.seq }
  return installs.put (key, row)

theorem emitInstallCompleted_ok {e : LedgerRow} {args : Dict} {t t' : Installs}
    (h : emitInstallCompleted e args t = .ok t') : ∃ tid key r,
      args.get "tenant_id" = .str tid ∧ (args.get "tenant_id").toUUID = .ok r.tenantId ∧
      args.get "platform" = r.platform ∧ r.platform.hash = .ok key ∧
      (args.get "install_id").toUUID = .ok r.installId ∧ t' = t.put ((tid, key), r) := by
  obtain ⟨v, hv, h⟩ := bind_eq_ok.mp h
  obtain ⟨⟨tid, tenant⟩, htid, h⟩ := bind_eq_ok.mp h
  obtain ⟨platform, hplatform, h⟩ := bind_eq_ok.mp h
  obtain ⟨key, hkey, h⟩ := bind_eq_ok.mp h
  obtain ⟨w, hw, h⟩ := bind_eq_ok.mp h
  obtain ⟨install, hinstall, h⟩ := bind_eq_ok.mp h
  obtain ⟨x, -, h⟩ := bind_eq_ok.mp h
  obtain ⟨person, -, h⟩ := bind_eq_ok.mp h
  obtain ⟨grant, -, h⟩ := bind_eq_ok.mp h
  obtain ⟨scopes, -, h⟩ := bind_eq_ok.mp h
  obtain ⟨bot, -, h⟩ := bind_eq_ok.mp h
  obtain ⟨hv', htenant⟩ := uuidText_ok htid
  rw [item_get hv, item_get hplatform, item_get hw]
  exact ⟨tid, key, _, hv', htenant, rfl, hkey, hinstall, (Except.ok.inj h).symm⟩

/-- A change to the value of an item. -/
def onValue {κ ρ : Type} (f : ρ → ρ) (p : κ × ρ) : κ × ρ := (p.1, f p.2)

theorem onValue_fst {κ ρ : Type} (f : ρ → ρ) (p : κ × ρ) : (onValue f p).1 = p.1 := rfl

def emitInstallRevoked : Fold Installs := fun e args installs => do
  let target ← args.item "install_id"
  return installs.updateFirst (fun p => target.isText p.2.installId.str)
    (onValue fun inst => { inst with status := .revoked, lastUpdatedSeq := e.seq })
    (onValue_fst _)

/-- Every install of the tenant that the args name. -/
def updateTenant (target : Val) (f : Install → Install) (installs : Installs) : Installs :=
  installs.mapRows (onValue fun inst => if target.isText inst.tenantId.str then f inst else inst)
    (onValue_fst _)

def emitSetupModeChosen : Fold Installs := fun e args installs => do
  let target ← args.item "tenant_id"
  let mode ← args.item "mode"
  return updateTenant target
    (fun inst => { inst with setupMode := mode, lastUpdatedSeq := e.seq }) installs

def emitSetupCompleted : Fold Installs := fun e args installs => do
  let target ← args.item "tenant_id"
  return updateTenant target
    (fun inst => { inst with setupCompletedAt := some e.ts, lastUpdatedSeq := e.seq }) installs

/-! ### The setup conversation -/

structure SetupProgress where
  tenantId : UUID
  currentStep : Val
  stepsCompleted : List Val
  lastAdvanceSeq : ℕ
  lastAdvanceTs : DateTime

def emitSetupStepAdvanced : Fold (Table SetupProgress.tenantId) := fun e args progress => do
  let target ← args.item "tenant_id"
  let stepId ← args.item "step_id"
  let tenantId ← target.toUUID
  match progress.get? tenantId with
  | none =>
    return progress.put {
      tenantId
      currentStep := stepId
      stepsCompleted := [stepId]
      lastAdvanceSeq := e.seq
      lastAdvanceTs := e.ts }
  | some existing =>
    let completed := if existing.stepsCompleted.any (·.same stepId) then existing.stepsCompleted
      else existing.stepsCompleted ++ [stepId]
    return progress.put { existing with
      currentStep := stepId
      stepsCompleted := completed
      lastAdvanceSeq := e.seq
      lastAdvanceTs := e.ts }

theorem emitSetupStepAdvanced_ok {e : LedgerRow} {args : Dict} {t t' : Table SetupProgress.tenantId}
    (h : emitSetupStepAdvanced e args t = .ok t') :
    ∃ r, (args.get "tenant_id").toUUID = .ok r.tenantId ∧ t' = t.put r := by
  obtain ⟨v, hv, h⟩ := bind_eq_ok.mp h
  obtain ⟨step, -, h⟩ := bind_eq_ok.mp h
  obtain ⟨tenant, htenant, h⟩ := bind_eq_ok.mp h
  rw [item_get hv]
  simp only at h
  split at h
  · exact ⟨_, htenant, (Except.ok.inj h).symm⟩
  · rename_i old hget
    refine ⟨_, ?_, (Except.ok.inj h).symm⟩
    exact htenant.trans (congrArg Except.ok (Table.get?_eq_some_iff.mp hget).2.symm)

end Projection
