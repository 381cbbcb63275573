import Wormbase.Lib.Balance
import Wormbase.Projection.Grants
import Wormbase.Projection.Reading
import Wormbase.Projection.RowIds

/-! Role grants as the MCP server folds them to authorise a caller, beside those of the projection.

    The projection stamps one live grant for each revocation. The fold here collects the revocations
    in a set and drops at the end every tenancy role that is in it. -/

namespace McpTools
open Py Projection

/-! ### The fold -/

/-- One dict of the result. -/
structure RoleGrant where
  facet : Facet
  role : Val
  scopeId : Val
  scopeType : Val

/-- `active` and `revoked`; of the triples in `revoked` only the role differs. -/
structure RoleFold where
  active : Dictionary String RoleGrant
  revoked : List Key

section
variable (py : Interp) (personId : UUID)

/-- The branch of a tool, which passes over the rows of other persons. -/
def ofPerson (args : Val) (st : RoleFold) (run : Dict → Except Err RoleFold) : Except Err RoleFold :=
  match args with
  | .dict args => if (Dict.get args "person_id").isText personId.str then run args else .ok st
  | v => .error (attributeError s!"'{v.typeName}' object has no attribute 'get'")

def foldTool (tool args : Val) (st : RoleFold) : Except Err RoleFold :=
  if tool.isText "emit_role_assigned" then
    ofPerson personId args st fun args => do
      let role ← args.item "role"
      let key := "tenancy:" ++ role.toStr py ++ ":"
      return { st with active := st.active.put (key, ⟨.tenancy, role, .none, .none⟩) }
  else if tool.isText "emit_role_revoked" then
    ofPerson personId args st fun args => do
      let role ← args.item "role"
      return { st with revoked := (← role.hash) :: st.revoked }
  else if tool.isText "emit_domain_role_assigned" then
    ofPerson personId args st fun args => do
      let domainId := args.get "domain_id"
      let role ← args.item "role"
      let key := "domain:" ++ role.toStr py ++ ":" ++ domainId.toStr py
      return { st with active := st.active.put (key, ⟨.domain, role, domainId, .str "domain"⟩) }
  else if tool.isText "emit_resource_role_assigned" then
    ofPerson personId args st fun args => do
      let resourceId := args.get "resource_id"
      let role ← args.item "role"
      let key := "resource:" ++ role.toStr py ++ ":" ++ resourceId.toStr py
      return { st with
        active := st.active.put (key, ⟨.resource, role, resourceId, args.get "resource_type"⟩) }
  else .ok st

def foldRow (st : RoleFold) (e : LedgerRow) : Except Err RoleFold :=
  if e.kind = "execute" then
    match e.payload.or (.dict []) with
    | .dict payload =>
      foldTool py personId (Dict.get payload "tool") ((Dict.get payload "args").or (.dict [])) st
    | v => .error (attributeError s!"'{v.typeName}' object has no attribute 'get'")
  else .ok st

/-- Drops the tenancy grants whose role was ever revoked. -/
def unrevoked (revoked : List Key) : List RoleGrant → Except Err (List RoleGrant)
  | [] => .ok []
  | g :: gs =>
    if g.facet = .tenancy then do
      let role ← g.role.hash
      let out ← unrevoked revoked gs
      return if role ∈ revoked then out else g :: out
    else do
      let out ← unrevoked revoked gs
      return g :: out

/-- `fold_role_grants`; it does not read its company. -/
def foldRoleGrants (rows : List LedgerRow) : Except Err (List RoleGrant) := do
  let st ← rows.foldlM (foldRow py personId) ⟨.empty, []⟩
  unrevoked st.revoked (st.active.rows.map Prod.snd)

end

/-! ### What both folds give -/

/-- A grant by facet, role and scope, as values. -/
structure Held where
  facet : Facet
  role : Val
  scope : Val

def Held.ofRoleGrant (g : RoleGrant) : Held := ⟨g.facet, g.role, g.scopeId⟩

def Held.ofGrant (g : Grant) : Held :=
  ⟨g.facet, .str g.role, match g.scopeId with | some u => .str u.str | none => .none⟩

/-- The tenancy and domain grants among some. -/
def roleSet (held : List Held) : Set Held := {h | h ∈ held ∧ h.facet ≠ .resource}

/-- The fold gives the person the tenancy and domain grants that the projection shows. -/
def SameGrants (py : Interp) (rows : List LedgerRow) (p : Projections) (person : UUID) : Prop :=
  ∃ grants, foldRoleGrants py person rows = .ok grants ∧
    roleSet (grants.map Held.ofRoleGrant) = roleSet ((grantsFor p.roles person).map Held.ofGrant)

/-! ### Role entries -/

inductive RoleEvent where
  | assigned (person : UUID) (role : String)
  | revoked (person : UUID) (role : String)
  | domain (person : UUID) (role : String) (domain : UUID)
  deriving DecidableEq

/-- The UUID that a value spells as `str` does. -/
def spelled (v : Val) : Option UUID :=
  match v.toUUID with
  | .ok u => if v.isText u.str then some u else none
  | .error _ => none

def roleText : Val → Option String
  | .str s => some s
  | _ => none

def eventOf (tool : String) (args : Dict) : Option RoleEvent := do
  let person ← spelled (args.get "person_id")
  let role ← roleText (args.get "role")
  if tool = "emit_role_assigned" then some (.assigned person role)
  else if tool = "emit_role_revoked" then some (.revoked person role)
  else if tool = "emit_domain_role_assigned" then
    (spelled (args.get "domain_id")).map (.domain person role)
  else none

/-- What an entry of the tenancy or the domain facet says. -/
def roleEvent (e : LedgerRow) : Option RoleEvent := e.action.bind fun a => eventOf a.1 a.2

def events (rows : List LedgerRow) : List RoleEvent := rows.filterMap roleEvent

def roleTools : List String :=
  ["emit_role_assigned", "emit_role_revoked", "emit_domain_role_assigned"]

/-- Ids are spelled and roles are texts, as the payload classes dump them. -/
def AsWritten (e : LedgerRow) : Prop :=
  ∀ tool args, e.action = some (tool, args) → tool ∈ roleTools → ∃ ev, roleEvent e = some ev

theorem spelled_eq_some {v : Val} {u : UUID} : spelled v = some u ↔ v = .str u.str := by
  constructor
  · intro h
    unfold spelled at h
    split at h
    · split at h
      · rename_i hu htext
        obtain rfl := Option.some.inj h
        exact Val.isText_iff.mp htext
      · cases h
    · cases h
  · rintro rfl
    simp [spelled, UUID.toUUID_str, Val.isText]

theorem isText_str (s t : String) : (Val.str s).isText t = decide (s = t) := rfl

theorem roleText_eq_some {v : Val} {s : String} : roleText v = some s ↔ v = .str s := by
  cases v <;> simp [roleText]

/-- The tool of an event. -/
def RoleEvent.tool : RoleEvent → String
  | assigned .. => "emit_role_assigned"
  | revoked .. => "emit_role_revoked"
  | domain .. => "emit_domain_role_assigned"

def RoleEvent.person : RoleEvent → UUID
  | assigned p _ => p
  | revoked p _ => p
  | domain p _ _ => p

def RoleEvent.role : RoleEvent → String
  | assigned _ r => r
  | revoked _ r => r
  | domain _ r _ => r

theorem eventOf_eq_some {tool : String} {args : Dict} {ev : RoleEvent}
    (h : eventOf tool args = some ev) : tool = ev.tool ∧ args.get "person_id" = .str ev.person.str ∧
      args.get "role" = .str ev.role ∧
      ∀ domain, ev = .domain ev.person ev.role domain → args.get "domain_id" = .str domain.str := by
  simp only [eventOf, Option.bind_eq_bind, Option.bind_eq_some_iff, spelled_eq_some,
    roleText_eq_some] at h
  obtain ⟨person, hperson, role, hrole, h⟩ := h
  split at h
  · obtain rfl := Option.some.inj h
    exact ⟨‹_›, hperson, hrole, fun _ h => nomatch h⟩
  · split at h
    · obtain rfl := Option.some.inj h
      exact ⟨‹_›, hperson, hrole, fun _ h => nomatch h⟩
    · split at h
      · obtain ⟨domain, hdomain, rfl⟩ := Option.map_eq_some_iff.mp h
        refine ⟨‹_›, hperson, hrole, fun d hd => ?_⟩
        obtain rfl := (RoleEvent.domain.inj hd).2.2
        exact spelled_eq_some.mp hdomain
      · cases h

theorem action_of_event {e : LedgerRow} {ev : RoleEvent} (h : roleEvent e = some ev) :
    ∃ args, e.action = some (ev.tool, args) ∧ eventOf ev.tool args = some ev := by
  obtain ⟨⟨tool, args⟩, hact, hev⟩ := Option.bind_eq_some_iff.mp h
  obtain rfl := (eventOf_eq_some hev).1
  exact ⟨args, hact, hev⟩

/-- Where an entry is as written, another reading of its tool says nothing. -/
theorem roleEvent_eq_none {e : LedgerRow} (h : ∀ tool args, e.action = some (tool, args) →
    tool ∉ roleTools) : roleEvent e = none := by
  cases hev : roleEvent e with
  | none => rfl
  | some ev =>
    obtain ⟨args, hact, -⟩ := action_of_event hev
    refine absurd ?_ (h _ _ hact)
    cases ev <;> simp [RoleEvent.tool, roleTools]

/-- The args that the payload class of an event dumps. -/
def RoleEvent.dump (by' : UUID) : RoleEvent → Dict
  | assigned p r =>
    [(.str "person_id", .str p.str), (.str "role", .str r), (.str "granted_by", .str by'.str)]
  | revoked p r =>
    [(.str "person_id", .str p.str), (.str "role", .str r), (.str "revoked_by", .str by'.str)]
  | domain p r d =>
    [(.str "person_id", .str p.str), (.str "domain_id", .str d.str), (.str "role", .str r),
      (.str "granted_by", .str by'.str)]

theorem eventOf_dump (by' : UUID) (ev : RoleEvent) : eventOf ev.tool (ev.dump by') = some ev := by
  cases ev <;> simp [eventOf, RoleEvent.tool, RoleEvent.dump, Dict.get, Dict.get?, roleText, spelled,
    UUID.toUUID_str, isText_str]

theorem asWritten_dump {e : LedgerRow} {by' : UUID} {ev : RoleEvent}
    (h : e.action = some (ev.tool, ev.dump by')) : AsWritten e := by
  intro tool args hact _
  obtain ⟨rfl, rfl⟩ := Prod.mk.inj (Option.some.inj (h.symm.trans hact))
  exact ⟨ev, by rw [roleEvent, h]; exact eventOf_dump by' ev⟩

/-! ### The fold, event by event -/

/-- What the fold puts for an assignment. -/
def RoleEvent.entry : RoleEvent → Option (String × RoleGrant)
  | assigned _ role => some ("tenancy:" ++ role ++ ":", ⟨.tenancy, .str role, .none, .none⟩)
  | domain _ role d =>
    some ("domain:" ++ role ++ ":" ++ d.str, ⟨.domain, .str role, .str d.str, .str "domain"⟩)
  | revoked .. => none

inductive FoldStep (person : UUID) (ev : Option RoleEvent) (st : RoleFold) : RoleFold → Prop
  | same : (∀ ev', ev = some ev' → ev'.person ≠ person) → FoldStep person ev st st
  | put {ev' : RoleEvent} {p : String × RoleGrant} : ev = some ev' → ev'.person = person →
      ev'.entry = some p → FoldStep person ev st { st with active := st.active.put p }
  | revoked {role : String} : ev = some (.revoked person role) →
      FoldStep person ev st { st with revoked := .str role :: st.revoked }
  | resource {p : String × RoleGrant} : ev = none → p.2.facet = .resource →
      (∃ s, p.1 = "resource:" ++ s) → FoldStep person ev st { st with active := st.active.put p }

section
variable {py : Interp} {person : UUID} {s s' : State} {e : LedgerRow} {st : RoleFold}

theorem item_of_get {args : Dict} {name v : String} (h : args.get name = .str v) :
    args.item name = .ok (.str v) := by
  unfold Dict.get at h
  unfold Dict.item
  cases hget : args.get? name with
  | none =>
    rw [hget] at h
    cases h
  | some w =>
    rw [hget] at h
    exact congrArg _ h

theorem ofPerson_own {args : Dict} {run : Dict → Except Err RoleFold}
    (h : args.get "person_id" = .str person.str) : ofPerson person (.dict args) st run = run args := by
  simp [ofPerson, h, isText_str]

theorem ofPerson_other {args : Dict} {run : Dict → Except Err RoleFold}
    (h : args.get "person_id" ≠ .str person.str) : ofPerson person (.dict args) st run = .ok st := by
  have htext : (args.get "person_id").isText person.str = false := by
    rw [Bool.eq_false_iff]
    exact fun htext => h (Val.isText_iff.mp htext)
  simp only [ofPerson, htext, Bool.false_eq_true, if_false]

theorem foldTool_assigned {args : Dict} {role : String} (hperson : args.get "person_id" = .str person.str)
    (hrole : args.get "role" = .str role) :
    foldTool py person (.str "emit_role_assigned") (.dict args) st = .ok { st with
      active := st.active.put ("tenancy:" ++ role ++ ":", ⟨.tenancy, .str role, .none, .none⟩) } := by
  rw [foldTool, if_pos (by decide), ofPerson_own hperson, item_of_get hrole]
  rfl

theorem foldTool_revoked {args : Dict} {role : String} (hperson : args.get "person_id" = .str person.str)
    (hrole : args.get "role" = .str role) :
    foldTool py person (.str "emit_role_revoked") (.dict args) st =
      .ok { st with revoked := .str role :: st.revoked } := by
  rw [foldTool, if_neg (by decide), if_pos (by decide), ofPerson_own hperson, item_of_get hrole]
  rfl

theorem foldTool_domain {args : Dict} {role : String} {d : UUID}
    (hperson : args.get "person_id" = .str person.str) (hrole : args.get "role" = .str role)
    (hscope : args.get "domain_id" = .str d.str) :
    foldTool py person (.str "emit_domain_role_assigned") (.dict args) st = .ok { st with
      active := st.active.put
        ("domain:" ++ role ++ ":" ++ d.str, ⟨.domain, .str role, .str d.str, .str "domain"⟩) } := by
  rw [foldTool, if_neg (by decide), if_neg (by decide), if_pos (by decide), ofPerson_own hperson,
    item_of_get hrole, hscope]
  rfl

theorem foldTool_resource {args : Dict} {role : String} (hperson : args.get "person_id" = .str person.str)
    (hrole : args.get "role" = .str role) :
    foldTool py person (.str "emit_resource_role_assigned") (.dict args) st = .ok { st with
      active := st.active.put ("resource:" ++ role ++ ":" ++ (args.get "resource_id").toStr py,
        ⟨.resource, .str role, args.get "resource_id", args.get "resource_type"⟩) } := by
  rw [foldTool, if_neg (by decide), if_neg (by decide), if_neg (by decide), if_pos (by decide),
    ofPerson_own hperson, item_of_get hrole]
  rfl

/-- The branch of an event puts its entry, or notes its revocation. -/
theorem foldTool_event {args : Dict} {ev : RoleEvent} (h : eventOf ev.tool args = some ev) :
    ∃ st', foldTool py person (.str ev.tool) (.dict args) st = .ok st' ∧
      FoldStep person (some ev) st st' := by
  obtain ⟨-, hperson, hrole, hdomain⟩ := eventOf_eq_some h
  by_cases hown : ev.person = person
  · rw [hown] at hperson
    cases ev with
    | assigned p role => exact ⟨_, foldTool_assigned hperson hrole, .put rfl hown rfl⟩
    | revoked p role =>
      obtain rfl : p = person := hown
      exact ⟨_, foldTool_revoked hperson hrole, .revoked rfl⟩
    | domain p role d => exact ⟨_, foldTool_domain hperson hrole (hdomain d rfl), .put rfl hown rfl⟩
  · have hother : args.get "person_id" ≠ .str person.str := by
      rw [hperson]
      exact fun h => hown (UUID.str_injective (Val.str.inj h))
    refine ⟨st, ?_, .same fun ev' hev => Option.some.inj hev ▸ hown⟩
    cases ev <;> simp [foldTool, RoleEvent.tool, isText_str, ofPerson_other hother]

/-- Any other tool puts at most a resource grant. -/
theorem foldTool_other {tool : String} {args : Dict} (hother : tool ∉ roleTools)
    (hrole : tool = "emit_resource_role_assigned" → ∃ role, args.get "role" = .str role) :
    ∃ st', foldTool py person (.str tool) (.dict args) st = .ok st' ∧ FoldStep person none st st' := by
  have hsame : FoldStep person none st st := .same fun _ h => nomatch h
  simp only [roleTools, List.mem_cons, List.not_mem_nil, or_false, not_or] at hother
  obtain ⟨h₁, h₂, h₃⟩ := hother
  by_cases hresource : tool = "emit_resource_role_assigned"
  · obtain ⟨role, htext⟩ := hrole hresource
    subst hresource
    by_cases hperson : args.get "person_id" = .str person.str
    · refine ⟨_, foldTool_resource hperson htext, .resource rfl rfl ?_⟩
      exact ⟨_, (String.append_assoc ..).trans (String.append_assoc ..)⟩
    · exact ⟨st, by simp [foldTool, isText_str, ofPerson_other hperson], hsame⟩
  · exact ⟨st, by simp [foldTool, isText_str, h₁, h₂, h₃, hresource], hsame⟩

/-- Under tools without a branch here the args are not looked at. -/
theorem foldTool_pass {tool args : Val} (h : ∀ t ∈ "emit_resource_role_assigned" :: roleTools,
    tool ≠ .str t) : foldTool py person tool args st = .ok st := by
  have htext : ∀ t ∈ "emit_resource_role_assigned" :: roleTools, tool.isText t = false := by
    intro t ht
    rw [Bool.eq_false_iff]
    exact fun htext => h t ht (Val.isText_iff.mp htext)
  simp only [roleTools, List.forall_mem_cons] at htext
  obtain ⟨h₁, h₂, h₃, h₄, -⟩ := htext
  simp [foldTool, h₁, h₂, h₃, h₄]

/-- A row that the builder folds is folded here too. -/
theorem foldRow_step (h : applyEntry py s e = .ok s') (hw : AsWritten e) :
    ∃ st', foldRow py person st e = .ok st' ∧ FoldStep person (roleEvent e) st st' := by
  by_cases hkind : e.kind = "execute"
  · obtain ⟨payload, hpayload, hcall⟩ := folded_execute h hkind
    simp only [foldRow, hkind, if_true, hpayload, or_dict]
    by_cases htool : ∃ t ∈ "emit_resource_role_assigned" :: roleTools, Dict.get payload "tool" = .str t
    · obtain ⟨tool, hmem, htool⟩ := htool
      have hbranch : ∀ t ∈ "emit_resource_role_assigned" :: roleTools, t ∈ Part.roles.tools := by
        decide +kernel
      obtain ⟨args, hact, hargs⟩ := hcall tool htool
        (List.mem_flatMap.mpr ⟨.roles, Part.mem_all _, hbranch tool hmem⟩)
      rw [htool, hargs]
      by_cases hrole : tool ∈ roleTools
      · obtain ⟨ev, hev⟩ := hw tool args hact hrole
        obtain ⟨args', hact', hof⟩ := action_of_event hev
        obtain ⟨rfl, rfl⟩ := Prod.mk.inj (Option.some.inj (hact.symm.trans hact'))
        rw [hev]
        exact foldTool_event hof
      · have hnone : roleEvent e = none := roleEvent_eq_none fun t a hta => by
          rwa [(Prod.mk.inj (Option.some.inj (hta.symm.trans hact))).1]
        rw [hnone]
        refine foldTool_other hrole fun hresource => ?_
        subst hresource
        have hrun : emitResourceRoleAssigned py e args (s .roles) = .ok (s' .roles) := by
          rw [← applyEntry_at h .roles]
          exact (stepAt_handler (by decide) hact (by simp [Part.handlers])).symm
        obtain ⟨_, -, hrun⟩ := emitResourceRoleAssigned_ok hrun
        obtain ⟨r, -, -, -, -, hrole, -⟩ := addGrant_ok hrun
        exact ⟨r.role, hrole⟩
    · have hpass : ∀ t ∈ "emit_resource_role_assigned" :: roleTools, Dict.get payload "tool" ≠ .str t :=
        fun t ht heq => htool ⟨t, ht, heq⟩
      refine ⟨st, foldTool_pass hpass, .same fun ev hev => ?_⟩
      have hnone : roleEvent e = none := roleEvent_eq_none fun t a hta hmem => by
        obtain ⟨-, payload', hpayload', htext, -⟩ := action_eq_some.mp hta
        obtain rfl := Val.dict.inj (hpayload.symm.trans hpayload')
        exact hpass t (List.mem_cons_of_mem _ hmem) htext
      rw [hnone] at hev
      cases hev
  · have hnone : roleEvent e = none := roleEvent_eq_none fun t a hta _ =>
      hkind (action_eq_some.mp hta).1
    refine ⟨st, by rw [foldRow, if_neg hkind], .same fun ev hev => ?_⟩
    rw [hnone] at hev
    cases hev

end

/-! ### What the fold holds -/

theorem entry_inj {ev ev' : RoleEvent} {p p' : String × RoleGrant} (h : ev.entry = some p)
    (h' : ev'.entry = some p') (hkey : p.1 = p'.1) : p = p' := by
  have hother : ∀ r r' d : String, "tenancy:" ++ r ++ ":" ≠ "domain:" ++ r' ++ ":" ++ d := by
    intro r r' d h
    have := congrArg String.toList h
    simp at this
  cases ev with
  | revoked _ _ => cases h
  | assigned _ r =>
    obtain rfl := Option.some.inj h
    cases ev' with
    | revoked _ _ => cases h'
    | domain _ r' d =>
      obtain rfl := Option.some.inj h'
      exact absurd hkey (hother _ _ _)
    | assigned _ r' =>
      obtain rfl := Option.some.inj h'
      have hrole := congrArg String.toList hkey
      simp only [String.toList_append, List.append_assoc, List.append_cancel_left_eq,
        List.append_cancel_right_eq, String.toList_inj] at hrole
      rw [hrole]
  | domain _ r d =>
    obtain rfl := Option.some.inj h
    cases ev' with
    | revoked _ _ => cases h'
    | assigned _ r' =>
      obtain rfl := Option.some.inj h'
      exact absurd hkey.symm (hother _ _ _)
    | domain _ r' d' =>
      obtain rfl := Option.some.inj h'
      -- both scopes have 36 characters, so the role ends at one place
      have hlen : d.str.toList.length = d'.str.toList.length := by
        rw [UUID.str, UUID.str, String.toList_ofList, String.toList_ofList, UUID.length_text,
          UUID.length_text]
      have hkey := congrArg String.toList hkey
      simp only [String.toList_append] at hkey
      obtain ⟨hrole, hscope⟩ := List.append_inj' hkey hlen
      obtain rfl := UUID.str_injective (String.toList_inj.mp hscope)
      simp only [List.append_assoc, List.append_cancel_left_eq, List.append_cancel_right_eq,
        String.toList_inj] at hrole
      rw [hrole]

theorem entry_facet {ev : RoleEvent} {p : String × RoleGrant} (h : ev.entry = some p) :
    p.2.facet ≠ .resource ∧ ∀ s, p.1 ≠ "resource:" ++ s := by
  have hkey : ∀ (k s : String), k.toList.head? = some 't' ∨ k.toList.head? = some 'd' →
      k ≠ "resource:" ++ s := by
    rintro k s hk rfl
    simp at hk
  cases ev with
  | revoked _ _ => cases h
  | assigned _ _ | domain _ _ _ =>
    obtain rfl := Option.some.inj h
    exact ⟨by simp, fun s => hkey _ s (by simp)⟩

/-- The state of the fold after some events. -/
structure Folded (person : UUID) (evs : List RoleEvent) (st : RoleFold) : Prop where
  active : ∀ p, p.2.facet ≠ .resource →
    (p ∈ st.active.rows ↔ ∃ ev ∈ evs, ev.person = person ∧ ev.entry = some p)
  revoked : ∀ k, k ∈ st.revoked ↔ ∃ role, k = .str role ∧ .revoked person role ∈ evs

theorem folded_step {person : UUID} {evs : List RoleEvent} {ev : Option RoleEvent} {st st' : RoleFold}
    (h : Folded person evs st) (hstep : FoldStep person ev st st') :
    Folded person (evs ++ ev.toList) st' := by
  cases hstep with
  | same hother =>
    have hnew : ∀ {P : RoleEvent → Prop}, (∀ ev', P ev' → ev'.person = person) →
        ((∃ ev' ∈ evs ++ ev.toList, P ev') ↔ ∃ ev' ∈ evs, P ev') := by
      intro P hP
      constructor
      · rintro ⟨ev', hmem, hev⟩
        rcases List.mem_append.mp hmem with hmem | hmem
        · exact ⟨ev', hmem, hev⟩
        · exact absurd (hP ev' hev) (hother ev' (Option.mem_toList.mp hmem))
      · rintro ⟨ev', hmem, hev⟩
        exact ⟨ev', List.mem_append_left _ hmem, hev⟩
    refine ⟨fun p hp => (h.active p hp).trans (hnew fun _ hev => hev.1).symm, fun k => ?_⟩
    rw [h.revoked]
    refine exists_congr fun role => and_congr_right fun _ => ?_
    have := @hnew (· = .revoked person role) fun _ hev => hev ▸ rfl
    simpa using this.symm
  | @put ev' q hev hown hentry =>
    subst hev
    refine ⟨fun p hp => ?_, fun k => ?_⟩
    · simp only [Table.mem_put, h.active p hp, Option.toList_some, List.mem_append, List.mem_singleton]
      constructor
      · rintro (rfl | ⟨⟨ev₀, hmem, hev₀⟩, -⟩)
        · exact ⟨ev', .inr rfl, hown, hentry⟩
        · exact ⟨ev₀, .inl hmem, hev₀⟩
      · rintro ⟨ev₀, hmem | rfl, hperson, hev₀⟩
        · by_cases hkey : p.1 = q.1
          · exact .inl (entry_inj hev₀ hentry hkey)
          · exact .inr ⟨⟨ev₀, hmem, hperson, hev₀⟩, hkey⟩
        · exact .inl (Option.some.inj (hev₀.symm.trans hentry))
    · have hne : ∀ role, ev' ≠ .revoked person role := by
        rintro role rfl
        cases hentry
      simp only [h.revoked, Option.toList_some, List.mem_append, List.mem_singleton, (hne _).symm,
        or_false]
  | @revoked role hev =>
    subst hev
    refine ⟨fun p hp => ?_, fun k => ?_⟩
    · rw [h.active p hp]
      simp only [Option.toList_some, List.mem_append, List.mem_singleton]
      constructor
      · rintro ⟨ev', hmem, hev⟩
        exact ⟨ev', .inl hmem, hev⟩
      · rintro ⟨ev', hmem | rfl, hperson, hentry⟩
        · exact ⟨ev', hmem, hperson, hentry⟩
        · cases hentry
    · simp only [List.mem_cons, h.revoked, Option.toList_some, List.mem_append, List.not_mem_nil,
        or_false, RoleEvent.revoked.injEq, true_and]
      constructor
      · rintro (rfl | ⟨role', rfl, hmem⟩)
        · exact ⟨role, rfl, .inr rfl⟩
        · exact ⟨role', rfl, .inl hmem⟩
      · rintro ⟨role', rfl, hmem | rfl⟩
        · exact .inr ⟨role', rfl, hmem⟩
        · exact .inl rfl
  | @resource q hev hfacet hkey =>
    subst hev
    obtain ⟨s, hkey⟩ := hkey
    refine ⟨fun p hp => ?_, fun k => by simpa using h.revoked k⟩
    simp only [Table.mem_put, h.active p hp, Option.toList_none, List.append_nil]
    constructor
    · rintro (rfl | ⟨hev, -⟩)
      · exact absurd hfacet hp
      · exact hev
    · rintro ⟨ev', hmem, hperson, hentry⟩
      exact .inr ⟨⟨ev', hmem, hperson, hentry⟩, hkey ▸ (entry_facet hentry).2 s⟩

theorem events_cons (e : LedgerRow) (rows : List LedgerRow) :
    events (e :: rows) = (roleEvent e).toList ++ events rows := by
  rw [events, List.filterMap_cons]
  cases roleEvent e <;> rfl

theorem events_append (xs ys : List LedgerRow) : events (xs ++ ys) = events xs ++ events ys :=
  List.filterMap_append ..

/-- A ledger that the builder folds is folded here too. -/
theorem folded_run {py : Interp} {person : UUID} : ∀ {rows : List LedgerRow} {s s' : State}
    {evs : List RoleEvent} {st : RoleFold}, foldEntries py s rows = .ok s' →
    (∀ e ∈ rows, AsWritten e) → Folded person evs st →
      ∃ st', rows.foldlM (foldRow py person) st = .ok st' ∧ Folded person (evs ++ events rows) st'
  | [], _, _, evs, st, _, _, hst => ⟨st, rfl, by simpa [events] using hst⟩
  | e :: rows, s, s', evs, st, h, hw, hst => by
    obtain ⟨u, hu, h⟩ := foldEntries_cons.mp h
    obtain ⟨hwe, hw⟩ := List.forall_mem_cons.mp hw
    obtain ⟨st₁, hrow, hstep⟩ := @foldRow_step py person s u e st hu hwe
    obtain ⟨st', hrest, hst'⟩ := folded_run h hw (folded_step hst hstep)
    refine ⟨st', ?_, ?_⟩
    · rw [List.foldlM_cons, hrow]
      exact hrest
    · rwa [events_cons, ← List.append_assoc]

theorem unrevoked_ok {revoked : List Key} : ∀ {gs : List RoleGrant},
    (∀ g ∈ gs, g.facet = .tenancy → ∃ role, g.role = .str role) →
      ∃ out, unrevoked revoked gs = .ok out ∧ ∀ g, g ∈ out ↔
        g ∈ gs ∧ (g.facet = .tenancy → ∀ role, g.role = .str role → .str role ∉ revoked)
  | [], _ => ⟨[], rfl, fun g => by simp⟩
  | g :: gs, h => by
    obtain ⟨hg, hgs⟩ := List.forall_mem_cons.mp h
    obtain ⟨out, hout, hmem⟩ := @unrevoked_ok revoked gs hgs
    by_cases hfacet : g.facet = .tenancy
    · obtain ⟨role, hrole⟩ := hg hfacet
      refine ⟨if .str role ∈ revoked then out else g :: out, ?_, fun g' => ?_⟩
      · rw [unrevoked, if_pos hfacet, hrole, hout]
        rfl
      · by_cases hrev : Key.str role ∈ revoked
        · rw [if_pos hrev, hmem, List.mem_cons]
          refine and_congr_left fun hkeep => ⟨.inr, ?_⟩
          rintro (rfl | hg')
          · exact absurd hrev (hkeep hfacet role hrole)
          · exact hg'
        · rw [if_neg hrev, List.mem_cons, hmem, List.mem_cons]
          constructor
          · rintro (rfl | ⟨hg', hkeep⟩)
            · refine ⟨.inl rfl, fun _ role' hrole' => ?_⟩
              rwa [← Val.str.inj (hrole.symm.trans hrole')]
            · exact ⟨.inr hg', hkeep⟩
          · rintro ⟨rfl | hg', hkeep⟩
            · exact .inl rfl
            · exact .inr ⟨hg', hkeep⟩
    · refine ⟨g :: out, ?_, fun g' => ?_⟩
      · rw [unrevoked, if_neg hfacet, hout]
        rfl
      · rw [List.mem_cons, hmem, List.mem_cons]
        constructor
        · rintro (rfl | ⟨hg', hkeep⟩)
          · exact ⟨.inl rfl, fun h => absurd h hfacet⟩
          · exact ⟨.inr hg', hkeep⟩
        · rintro ⟨rfl | hg', hkeep⟩
          · exact .inl rfl
          · exact .inr ⟨hg', hkeep⟩

/-- A grant that events give: `tenancy` for a role that satisfies the test, or a domain that was
    assigned. -/
def Given (tenancy : String → Prop) (person : UUID) (evs : List RoleEvent) (h : Held) : Prop :=
  (∃ role, h = ⟨.tenancy, .str role, .none⟩ ∧ tenancy role) ∨
    ∃ role d, h = ⟨.domain, .str role, .str d.str⟩ ∧ .domain person role d ∈ evs

/-- The fold gives a tenancy role exactly if it was assigned and never revoked. -/
theorem foldRoleGrants_held {py : Interp} {person : UUID} {rows : List LedgerRow} {s s' : State}
    (h : foldEntries py s rows = .ok s') (hw : ∀ e ∈ rows, AsWritten e) :
    ∃ grants, foldRoleGrants py person rows = .ok grants ∧
      roleSet (grants.map Held.ofRoleGrant) = {x | Given (fun role =>
        .assigned person role ∈ events rows ∧ .revoked person role ∉ events rows) person (events rows) x} := by
  have hempty : Folded person [] ⟨.empty, []⟩ := ⟨fun _ _ => by simp, fun _ => by simp⟩
  obtain ⟨st, hst, hfolded⟩ := folded_run h hw hempty
  rw [List.nil_append] at hfolded
  have hentry : ∀ g, g.facet ≠ .resource → (g ∈ st.active.rows.map Prod.snd ↔
      ∃ ev ∈ events rows, ev.person = person ∧ ∃ k, ev.entry = some (k, g)) := by
    intro g hg
    simp only [List.mem_map, Prod.exists, exists_eq_right]
    constructor
    · rintro ⟨k, hk⟩
      obtain ⟨ev, hev, hown, hp⟩ := (hfolded.active (k, g) hg).mp hk
      exact ⟨ev, hev, hown, k, hp⟩
    · rintro ⟨ev, hev, hown, k, hp⟩
      exact ⟨k, (hfolded.active (k, g) hg).mpr ⟨ev, hev, hown, hp⟩⟩
  have htext : ∀ g ∈ st.active.rows.map Prod.snd, g.facet = .tenancy → ∃ role, g.role = .str role := by
    intro g hg hfacet
    obtain ⟨ev, -, -, k, hp⟩ := (hentry g (by simp [hfacet])).mp hg
    cases ev with
    | revoked _ _ => cases hp
    | assigned _ role => exact ⟨role, congrArg (fun p : String × RoleGrant => p.2.role)
        (Option.some.inj hp).symm⟩
    | domain _ role _ => exact ⟨role, congrArg (fun p : String × RoleGrant => p.2.role)
        (Option.some.inj hp).symm⟩
  obtain ⟨out, hout, hmem⟩ := @unrevoked_ok st.revoked _ htext
  refine ⟨out, ?_, ?_⟩
  · rw [foldRoleGrants, hst]
    exact hout
  · ext x
    simp only [roleSet, Set.mem_ofPred_eq, List.mem_map]
    constructor
    · rintro ⟨⟨g, hg, rfl⟩, hfacet⟩
      obtain ⟨hactive, hkeep⟩ := (hmem g).mp hg
      obtain ⟨ev, hev, hown, k, hp⟩ := (hentry g hfacet).mp hactive
      cases ev with
      | revoked _ _ => cases hp
      | assigned p role =>
        obtain rfl : p = person := hown
        obtain ⟨-, rfl⟩ := Prod.mk.inj (Option.some.inj hp)
        refine .inl ⟨role, rfl, hev, fun hrev => ?_⟩
        exact hkeep rfl role rfl ((hfolded.revoked _).mpr ⟨role, rfl, hrev⟩)
      | domain p role d =>
        obtain rfl : p = person := hown
        obtain ⟨-, rfl⟩ := Prod.mk.inj (Option.some.inj hp)
        exact .inr ⟨role, d, rfl, hev⟩
    · rintro (⟨role, rfl, hassigned, hrev⟩ | ⟨role, d, rfl, hev⟩)
      · refine ⟨⟨⟨.tenancy, .str role, .none, .none⟩, (hmem _).mpr ⟨?_, fun _ role' hrole' hin => ?_⟩,
          rfl⟩, by simp⟩
        · exact (hentry _ (by simp)).mpr ⟨_, hassigned, rfl, _, rfl⟩
        · obtain ⟨role'', hkey, hin⟩ := (hfolded.revoked _).mp hin
          obtain rfl := Val.str.inj hrole'
          obtain rfl := Key.str.inj hkey
          exact hrev hin
      · refine ⟨⟨⟨.domain, .str role, .str d.str, .str "domain"⟩, (hmem _).mpr ⟨?_, fun h => nomatch h⟩,
          rfl⟩, by simp⟩
        exact (hentry _ (by simp)).mpr ⟨_, hev, rfl, _, rfl⟩

end McpTools
