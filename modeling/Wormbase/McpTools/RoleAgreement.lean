import Wormbase.McpTools.RoleGrants

/-! When the grants that authorise MCP calls are those of the projection.

    The projection counts: an assignment adds a live grant of its pair, and a revocation takes one
    away. The fold of the server only asks whether the pair was ever revoked. So both agree on a
    revoked pair exactly if its live grants are down to none. -/

namespace McpTools
open Py Projection

/-! ### The ids of grants -/

/-- The tools that put a grant: its facet, and the argument with its scope. -/
def grantTools : List (String × Facet × Option String) := [
  ("emit_role_assigned", .tenancy, none),
  ("emit_domain_role_assigned", .domain, some "domain_id"),
  ("emit_resource_role_assigned", .resource, some "resource_id"),
  ("emit_resource_role_proposed", .resource, some "resource_id")]

def scopeText (name : Option String) (args : Dict) : Option String :=
  match name with
  | none => some ""
  | some name => roleText (args.get name)

/-- The text whose digest is the id of the grant that an entry puts. -/
def grantText (e : LedgerRow) : Option String :=
  e.action.bind fun a => (grantTools.lookup a.1).bind fun t => do
    let pid ← roleText (a.2.get "person_id")
    let role ← roleText (a.2.get "role")
    let scope ← scopeText t.2 a.2
    some ("|".intercalate [e.company, pid, t.1.text, role, scope, String.ofList (intText e.seq)])

theorem eq_of_last {x : Char} {p p' a b : List Char} (ha : x ∉ a) (hb : x ∉ b)
    (h : p ++ x :: a = p' ++ x :: b) : a = b := by
  have hshift : ∀ {c a b : List Char}, x ∉ a → x :: a = c ++ x :: b → a = b := by
    intro c a b ha h
    cases c with
    | nil => exact (List.cons.inj h).2
    | cons y c =>
      obtain ⟨-, rfl⟩ := List.cons.inj h
      exact absurd (List.mem_append_right c List.mem_cons_self) ha
  rcases List.append_eq_append_iff.mp h with ⟨c, -, hc⟩ | ⟨c, -, hc⟩
  · exact hshift ha hc
  · exact (hshift hb hc).symm

theorem intText_free (n : ℕ) : '|' ∉ intText n := by
  intro h
  rw [intText, if_neg (by omega)] at h
  have := PyFloat.digits_isDigit _ _ h
  revert this
  decide

theorem intText_injective {m n : ℕ} (h : intText m = intText n) : m = n := by
  rw [intText, intText, if_neg (by omega), if_neg (by omega)] at h
  exact digits_injective h

/-- The text ends in the seq of the entry. -/
theorem grantText_seq {e e' : LedgerRow} {text : String} (h : grantText e = some text)
    (h' : grantText e' = some text) : e.seq = e'.seq := by
  have hend : ∀ {e : LedgerRow}, grantText e = some text → ∃ p, text.toList = p ++ '|' :: intText e.seq := by
    intro e h
    simp only [grantText, Option.bind_eq_bind, Option.bind_eq_some_iff] at h
    obtain ⟨a, -, t, -, pid, -, role, -, scope, -, h⟩ := h
    rw [← Option.some.inj h]
    refine ⟨['|'].intercalate [e.company.toList, pid.toList, t.1.text.toList, role.toList, scope.toList], ?_⟩
    rw [String.toList_intercalate]
    simp [List.intercalate_cons_cons]
  obtain ⟨p, hp⟩ := hend h
  obtain ⟨p', hp'⟩ := hend h'
  exact intText_injective (eq_of_last (intText_free _) (intText_free _) (hp.symm.trans hp'))

theorem str_of_toUUID {v : Val} {u : UUID} (h : v.toUUID = .ok u) : ∃ s, v = .str s := by
  cases v with
  | str s => exact ⟨s, rfl⟩
  | _ => simp [Val.toUUID] at h

/-- A grant that is put has the digest of its entry's text as id. -/
theorem addGrant_text {py : Interp} {e : LedgerRow} {tool : String} {args : Dict} {facet : Facet}
    {name : Option String} {scope : String} {scopeId : Option UUID} {scopeType grantedBy : Val}
    {t t' : Roles} (hact : e.action = some (tool, args))
    (hlookup : grantTools.lookup tool = some (facet, name)) (hscope : scopeText name args = some scope)
    (h : addGrant py e facet (args.get "person_id") (args.get "role") (.str scope) scopeId scopeType
      grantedBy t = .ok t') :
    ∃ r text, grantText e = some text ∧ r.grantId = textUuid py text ∧
      (args.get "person_id").toUUID = .ok r.personId ∧ r.facet = facet ∧
      args.get "role" = .str r.role ∧ r.scopeId = scopeId ∧ r.revokedAt = none ∧ t' = t.put r := by
  obtain ⟨r, hid, -, hperson, hfacet, hrole, hscopeId, -, -, hrevoked, ht⟩ := addGrant_ok h
  obtain ⟨pid, hpid⟩ := str_of_toUUID hperson
  have htext := digestUuid_str py
    [e.company, pid, facet.text, r.role, scope, String.ofList (intText e.seq)]
  rw [roleGrantUuid, hpid, hrole] at hid
  refine ⟨r, _, ?_, Except.ok.inj (hid.symm.trans htext), hperson, hfacet, hrole, hscopeId, hrevoked, ht⟩
  simp [grantText, hact, hlookup, hpid, hrole, roleText, hscope]

/-! ### The builder, event by event -/

/-- The grant is what the entry's event says; without an event it is one on a resource. -/
def Records (ev : Option RoleEvent) (g : Grant) : Prop :=
  match ev with
  | some (.assigned person role) =>
    g.facet = .tenancy ∧ g.personId = person ∧ g.role = role ∧ g.scopeId = none
  | some (.domain person role d) =>
    g.facet = .domain ∧ g.personId = person ∧ g.role = role ∧ g.scopeId = some d
  | some (.revoked ..) => False
  | none => g.facet = .resource

inductive BuildStep (py : Interp) (e : LedgerRow) (t : Roles) : Roles → Prop
  | same : roleEvent e = none → BuildStep py e t t
  | put {r : Grant} {text : String} : grantText e = some text → r.grantId = textUuid py text →
      r.revokedAt = none → Records (roleEvent e) r → BuildStep py e t (t.put r)
  | revoked {person : UUID} {role : String} : roleEvent e = some (.revoked person role) →
      BuildStep py e t (t.updateFirst (Grant.live person role)
        (fun g => { g with revokedAt := some e.ts, lastUpdatedSeq := e.seq }) (fun _ => rfl))

section
variable {py : Interp} {e : LedgerRow} {t t' : Roles}

/-- The event of a tool, where ids are spelled out. -/
theorem event_of_action {tool : String} {args : Dict} (hw : AsWritten e) (hact : e.action = some (tool, args))
    (hmem : tool ∈ roleTools) : ∃ ev, roleEvent e = some ev ∧ tool = ev.tool ∧
      args.get "person_id" = .str ev.person.str ∧ args.get "role" = .str ev.role ∧
      ∀ domain, ev = .domain ev.person ev.role domain → args.get "domain_id" = .str domain.str := by
  obtain ⟨ev, hev⟩ := hw tool args hact hmem
  obtain ⟨args', hact', hof⟩ := action_of_event hev
  obtain ⟨rfl, rfl⟩ := Prod.mk.inj (Option.some.inj (hact.symm.trans hact'))
  exact ⟨ev, hev, eventOf_eq_some hof⟩

theorem buildStep (hw : AsWritten e) (h : stepAt py .roles t e = .ok t') : BuildStep py e t t' := by
  have hresource : ∀ {tool args}, e.action = some (tool, args) → tool ∉ roleTools →
      roleEvent e = none := fun hact hnot => roleEvent_eq_none fun tool' args' hact' =>
        (Prod.mk.inj (Option.some.inj (hact.symm.trans hact'))).1 ▸ hnot
  rcases stepAt_cases (by decide) h with ⟨rfl, hcalls⟩ | ⟨tool, args, run, hact, hmem, hrun⟩
  · refine .same (roleEvent_eq_none fun tool args hact hmem => ?_)
    have hsub : ∀ t ∈ roleTools, t ∈ Part.roles.tools := by decide +kernel
    exact hcalls tool (hsub tool hmem) (fun _ => False) args hact
  · simp only [Part.handlers, List.mem_cons, Prod.mk.injEq, List.not_mem_nil, or_false] at hmem
    rcases hmem with ⟨rfl, rfl⟩ | ⟨rfl, rfl⟩ | ⟨rfl, rfl⟩ | ⟨rfl, rfl⟩ | ⟨rfl, rfl⟩
    · obtain ⟨ev, hev, htool, hperson, hrole, -⟩ := event_of_action hw hact (by simp [roleTools])
      obtain ⟨r, text, htext, hid, hpid, hfacet, hr, hscope, hrevoked, rfl⟩ :=
        addGrant_text hact rfl rfl (emitRoleAssigned_ok hrun)
      refine .put htext hid hrevoked ?_
      cases ev with
      | assigned person role =>
        rw [hperson, UUID.toUUID_str] at hpid
        rw [hev]
        exact ⟨hfacet, (Except.ok.inj hpid).symm, (Val.str.inj (hrole.symm.trans hr)).symm, hscope⟩
      | revoked _ _ | domain _ _ _ => simp [RoleEvent.tool] at htool
    · obtain ⟨ev, hev, htool, hperson, hrole, -⟩ := event_of_action hw hact (by simp [roleTools])
      rw [emitRoleRevoked_ok hrun]
      cases ev with
      | revoked person role =>
        rw [hperson, hrole, RoleEvent.person, RoleEvent.role, revokes_eq_live]
        exact .revoked hev
      | assigned _ _ | domain _ _ _ => simp [RoleEvent.tool] at htool
    · obtain ⟨ev, hev, htool, hperson, hrole, hdomain⟩ := event_of_action hw hact (by simp [roleTools])
      obtain ⟨d, hd, hrun⟩ := emitDomainRoleAssigned_ok hrun
      cases ev with
      | domain person role d' =>
        have hscope := hdomain d' rfl
        rw [hscope, UUID.toUUID_str] at hd
        obtain rfl := Except.ok.inj hd
        rw [hscope] at hrun
        obtain ⟨r, text, htext, hid, hpid, hfacet, hr, hscope, hrevoked, rfl⟩ :=
          addGrant_text hact rfl (roleText_eq_some.mpr hscope) hrun
        refine .put htext hid hrevoked ?_
        rw [hperson, UUID.toUUID_str] at hpid
        rw [hev]
        exact ⟨hfacet, (Except.ok.inj hpid).symm, (Val.str.inj (hrole.symm.trans hr)).symm, hscope⟩
      | assigned _ _ | revoked _ _ => simp [RoleEvent.tool] at htool
    · obtain ⟨resource, hscope, hrun⟩ := emitResourceRoleAssigned_ok hrun
      obtain ⟨scope, htext⟩ := str_of_toUUID hscope
      rw [htext] at hrun
      obtain ⟨r, text, htext, hid, -, hfacet, -, -, hrevoked, rfl⟩ :=
        addGrant_text hact rfl (roleText_eq_some.mpr htext) hrun
      refine .put htext hid hrevoked ?_
      rw [hresource hact (by decide)]
      exact hfacet
    · obtain ⟨resource, hscope, hrun⟩ := emitResourceRoleProposed_ok hrun
      obtain ⟨scope, htext⟩ := str_of_toUUID hscope
      rw [htext] at hrun
      obtain ⟨r, text, htext, hid, -, hfacet, -, -, hrevoked, rfl⟩ :=
        addGrant_text hact rfl (roleText_eq_some.mpr htext) hrun
      refine .put htext hid hrevoked ?_
      rw [hresource hact (by decide)]
      exact hfacet

end

/-! ### What the builder holds -/

/-- A domain grant that is not revoked. -/
def domainGrant (person : UUID) (role : String) (d : UUID) (g : Grant) : Bool :=
  g.facet = .domain && g.personId = person && g.role = role && g.scopeId = some d && g.revokedAt.isNone

theorem domainGrant_iff {person : UUID} {role : String} {d : UUID} {g : Grant} :
    domainGrant person role d g = true ↔ g.facet = .domain ∧ g.personId = person ∧ g.role = role ∧
      g.scopeId = some d ∧ g.revokedAt = none := by
  simp [domainGrant, Option.isNone_iff_eq_none, and_assoc]

def assigns (person : UUID) (role : String) (ev : RoleEvent) : Bool := ev = .assigned person role

def revokes (person : UUID) (role : String) (ev : RoleEvent) : Bool := ev = .revoked person role

theorem revokes_of_assigns {person : UUID} {role : String} (ev : RoleEvent)
    (h : assigns person role ev = true) : revokes person role ev = false := by
  obtain rfl : ev = .assigned person role := by simpa [assigns] using h
  simp [revokes]

/-- How many live grants of the pair the projection has. -/
def liveGrants (person : UUID) (role : String) (evs : List RoleEvent) : ℕ :=
  Balance.balance (assigns person role) (revokes person role) evs

/-- The table of roles after some rows. -/
structure Built (py : Interp) (rows : List LedgerRow) (t : Roles) : Prop where
  ids : ∀ g ∈ t.rows, ∃ e ∈ rows, ∃ text, grantText e = some text ∧ g.grantId = textUuid py text
  live : ∀ person role,
    (t.rows.filter (Grant.live person role)).length = liveGrants person role (events rows)
  domains : ∀ person role d,
    t.rows.filter (domainGrant person role d) ≠ [] ↔ .domain person role d ∈ events rows
  scopes : ∀ g ∈ t.rows, (g.facet = .tenancy → g.scopeId = none) ∧
    (g.facet = .domain → ∃ d, g.scopeId = some d)

section
variable {py : Interp} {e : LedgerRow} {rows : List LedgerRow} {t t' : Roles}

theorem events_concat : events (rows ++ [e]) = events rows ++ (roleEvent e).toList := by
  rw [events_append, events_cons]
  simp [events]

/-- A live grant more for an assignment of the pair. -/
theorem live_of_records {g : Grant} {ev : Option RoleEvent} (h : Records ev g)
    (hrevoked : g.revokedAt = none) (person : UUID) (role : String) :
    g.live person role = true ↔ ev = some (.assigned person role) := by
  rw [Grant.live_iff]
  cases ev with
  | none =>
    have hfacet : g.facet = .resource := h
    simp [hfacet]
  | some ev =>
    cases ev with
    | assigned p r =>
      obtain ⟨hfacet, rfl, rfl, -⟩ := h
      simp [hfacet, hrevoked]
    | revoked p r => exact absurd h not_false
    | domain p r d =>
      have hfacet := h.1
      simp [hfacet]

theorem domain_of_records {g : Grant} {ev : Option RoleEvent} (h : Records ev g)
    (hrevoked : g.revokedAt = none) (person : UUID) (role : String) (d : UUID) :
    domainGrant person role d g = true ↔ ev = some (.domain person role d) := by
  rw [domainGrant_iff]
  cases ev with
  | none =>
    have hfacet : g.facet = .resource := h
    simp [hfacet]
  | some ev =>
    cases ev with
    | assigned p r =>
      have hfacet := h.1
      simp [hfacet]
    | revoked p r => exact absurd h not_false
    | domain p r d' =>
      obtain ⟨hfacet, rfl, rfl, hscope⟩ := h
      simp [hfacet, hscope, hrevoked]

theorem scope_of_records {g : Grant} {ev : Option RoleEvent} (h : Records ev g) :
    (g.facet = .tenancy → g.scopeId = none) ∧ (g.facet = .domain → ∃ d, g.scopeId = some d) := by
  cases ev with
  | none =>
    have hfacet : g.facet = .resource := h
    simp [hfacet]
  | some ev =>
    cases ev with
    | assigned p r => exact ⟨fun _ => h.2.2.2, fun hd => by simp [h.1] at hd⟩
    | revoked p r => exact absurd h not_false
    | domain p r d => exact ⟨fun ht => by simp [h.1] at ht, fun _ => ⟨d, h.2.2.2⟩⟩

theorem liveGrants_concat {person : UUID} {role : String} {evs : List RoleEvent} (ev : Option RoleEvent) :
    liveGrants person role (evs ++ ev.toList) =
      if ev = some (.assigned person role) then liveGrants person role evs + 1
      else if ev = some (.revoked person role) then liveGrants person role evs - 1
      else liveGrants person role evs := by
  cases ev with
  | none => simp
  | some ev =>
    simp only [liveGrants, Option.toList_some, Balance.balance_concat, Balance.turn, assigns, revokes,
      decide_eq_true_eq, Option.some.injEq]

theorem built_step (h : Built py rows t) (hstep : BuildStep py e t t')
    (hfresh : ∀ text, grantText e = some text → ∀ e' ∈ rows, ∀ text', grantText e' = some text' →
      textUuid py text' ≠ textUuid py text) : Built py (rows ++ [e]) t' := by
  have hids : ∀ g ∈ t.rows, ∃ e' ∈ rows ++ [e], ∃ text, grantText e' = some text ∧
      g.grantId = textUuid py text := by
    intro g hg
    obtain ⟨e', he', text, htext, hid⟩ := h.ids g hg
    exact ⟨e', List.mem_append_left _ he', text, htext, hid⟩
  cases hstep with
  | same hnone =>
    refine ⟨hids, fun person role => ?_, fun person role d => ?_, h.scopes⟩
    · rw [h.live, events_concat, hnone, Option.toList_none, List.append_nil]
    · rw [h.domains, events_concat, hnone, Option.toList_none, List.append_nil]
  | @put r text htext hid hrevoked hrecords =>
    have hnew : ∀ g ∈ t.rows, g.grantId ≠ r.grantId := by
      intro g hg heq
      obtain ⟨e', he', text', htext', hid'⟩ := h.ids g hg
      exact hfresh text htext e' he' text' htext' (by rw [← hid', heq, hid])
    have hrows : (t.put r).rows = t.rows ++ [r] := Table.putRow_fresh hnew
    refine ⟨fun g hg => ?_, fun person role => ?_, fun person role d => ?_, fun g hg => ?_⟩
    · rw [hrows] at hg
      rcases List.mem_append.mp hg with hg | hg
      · exact hids g hg
      · obtain rfl := List.mem_singleton.mp hg
        exact ⟨e, by simp, text, htext, hid⟩
    · have hlive := live_of_records hrecords hrevoked person role
      have hnot : roleEvent e ≠ some (.revoked person role) := by
        intro hev
        rw [hev] at hrecords
        exact hrecords
      rw [hrows, List.filter_append, List.length_append, h.live, events_concat, liveGrants_concat,
        if_neg hnot]
      by_cases hev : roleEvent e = some (.assigned person role)
      · rw [if_pos hev, List.filter_singleton, hlive.mpr hev, cond_true, List.length_singleton]
      · rw [if_neg hev, List.filter_singleton, Bool.eq_false_iff.mpr fun hl => hev (hlive.mp hl),
          cond_false, List.length_nil, Nat.add_zero]
    · have hdomain := domain_of_records hrecords hrevoked person role d
      rw [hrows, List.filter_append, events_concat, List.mem_append, ← h.domains, Option.mem_toList,
        ← hdomain, ne_eq, List.append_eq_nil_iff, not_and_or]
      simp
    · rw [hrows] at hg
      rcases List.mem_append.mp hg with hg | hg
      · exact h.scopes g hg
      · obtain rfl := List.mem_singleton.mp hg
        exact scope_of_records hrecords
  | @revoked p r hev =>
    refine ⟨?_, fun person role => ?_, fun person role d => ?_, ?_⟩
    · refine Table.forall_mem_updateRow (fun g hg => ?_) hids
      exact hg
    · rw [events_concat, liveGrants_concat, hev, ← h.live]
      by_cases hpair : p = person ∧ r = role
      · obtain ⟨rfl, rfl⟩ := hpair
        have hdead : ∀ g : Grant, g.live p r = true → Grant.live p r
            { g with revokedAt := some e.ts, lastUpdatedSeq := e.seq } = false := by
          intro g _
          simp [Grant.live]
        rw [Table.updateFirst, Table.filter_updateRow hdead, List.length_tail]
        simp
      · have hother : ∀ g : Grant, g.live p r = true → Grant.live person role g = false ∧ Grant.live person
            role { g with revokedAt := some e.ts, lastUpdatedSeq := e.seq } = false := by
          intro g hg
          obtain ⟨-, rfl, rfl, -⟩ := Grant.live_iff.mp hg
          refine ⟨Bool.eq_false_iff.mpr fun hl => ?_, by simp [Grant.live]⟩
          exact hpair ⟨(Grant.live_iff.mp hl).2.1, (Grant.live_iff.mp hl).2.2.1⟩
        rw [Table.updateFirst, Table.filter_updateRow_other hother]
        have hne : (some (RoleEvent.revoked p r) = some (.revoked person role)) = False := by
          simpa using hpair
        simp only [hne, if_false]
        simp
    · have hother : ∀ g : Grant, g.live p r = true → domainGrant person role d g = false ∧ domainGrant
          person role d { g with revokedAt := some e.ts, lastUpdatedSeq := e.seq } = false := by
        intro g hg
        simp [domainGrant, (Grant.live_iff.mp hg).1]
      rw [Table.updateFirst, Table.filter_updateRow_other hother, h.domains, events_concat, hev]
      simp
    · refine Table.forall_mem_updateRow (fun g hg => ?_) h.scopes
      exact hg

/-- No two texts of grants in the ledger have one digest. -/
def NoCollision (py : Interp) (rows : List LedgerRow) : Prop :=
  Set.InjOn (textUuid py) {text | ∃ e ∈ rows, grantText e = some text}

theorem built_run (rows : List LedgerRow) : ∀ {t : Roles}, (rows.map LedgerRow.seq).Nodup →
    NoCollision py rows → (∀ e ∈ rows, AsWritten e) →
      rows.foldlM (stepAt py .roles) Table.empty = .ok t → Built py rows t := by
  induction rows using List.reverseRecOn with
  | nil =>
    intro t _ _ _ h
    obtain rfl := Except.ok.inj h
    exact ⟨fun g hg => absurd hg List.not_mem_nil, fun _ _ => rfl, fun _ _ _ => by simp [events],
      fun g hg => absurd hg List.not_mem_nil⟩
  | append_singleton rows e ih =>
    intro t hseq hsha hw h
    rw [List.foldlM_append, bind_eq_ok] at h
    obtain ⟨u, hu, h⟩ := h
    obtain ⟨v, hv, h⟩ := bind_eq_ok.mp h
    obtain rfl := Except.ok.inj h
    rw [List.map_append, List.nodup_append] at hseq
    obtain ⟨hrows, -, hlast⟩ := hseq
    have hsub : NoCollision py rows := by
      refine hsha.mono ?_
      rintro text ⟨e', he', htext⟩
      exact ⟨e', List.mem_append_left _ he', htext⟩
    refine built_step (ih hrows hsub (fun e' he' => hw e' (List.mem_append_left _ he')) hu)
      (buildStep (hw e (by simp)) hv) fun text htext e' he' text' htext' hsame => ?_
    -- one digest means one text, and so one seq
    obtain rfl := hsha ⟨e', List.mem_append_left _ he', htext'⟩ ⟨e, by simp, htext⟩ hsame
    exact hlast _ (List.mem_map_of_mem he') e.seq (by simp) (grantText_seq htext' htext)

end

/-- The projection shows a tenancy role exactly if the assignments outweigh the revocations. -/
theorem grantsFor_held {py : Interp} {rows : List LedgerRow} {s : State} {p : Projections}
    (h : Built py rows (s .roles)) (hp : stateToProjections py s = .ok p) (person : UUID) :
    roleSet ((grantsFor p.roles person).map Held.ofGrant) = {x | Given (fun role =>
      liveGrants person role (events rows) ≠ 0) person (events rows) x} := by
  have hshown : ∀ g, g ∈ grantsFor p.roles person ↔
      g ∈ (s .roles).rows ∧ g.personId = person ∧ g.revokedAt = none := fun g => by
    rw [mem_grantsFor, (roles_rows hp).mem_iff]
  ext x
  simp only [roleSet, Set.mem_ofPred_eq, List.mem_map, hshown]
  constructor
  · rintro ⟨⟨g, ⟨hg, hperson, hrevoked⟩, rfl⟩, hfacet⟩
    obtain ⟨htenancy, hdomain⟩ := h.scopes g hg
    cases hf : g.facet with
    | tenancy =>
      refine .inl ⟨g.role, by simp [Held.ofGrant, hf, htenancy hf], fun hzero => ?_⟩
      rw [← h.live, List.length_eq_zero_iff, List.filter_eq_nil_iff] at hzero
      exact hzero g hg (Grant.live_iff.mpr ⟨hf, hperson, rfl, hrevoked⟩)
    | domain =>
      obtain ⟨d, hd⟩ := hdomain hf
      refine .inr ⟨g.role, d, by simp [Held.ofGrant, hf, hd], (h.domains _ _ _).mp ?_⟩
      exact List.ne_nil_of_mem (List.mem_filter.mpr ⟨hg, domainGrant_iff.mpr ⟨hf, hperson, rfl, hd, hrevoked⟩⟩)
    | resource => exact absurd hf hfacet
  · rintro (⟨role, rfl, hlive⟩ | ⟨role, d, rfl, hev⟩)
    · rw [← h.live] at hlive
      obtain ⟨g, hfirst⟩ := List.exists_mem_of_length_pos (Nat.pos_of_ne_zero hlive)
      obtain ⟨hg, hpair⟩ := List.mem_filter.mp hfirst
      obtain ⟨hf, hperson, rfl, hrevoked⟩ := Grant.live_iff.mp hpair
      exact ⟨⟨g, ⟨hg, hperson, hrevoked⟩, by simp [Held.ofGrant, hf, (h.scopes g hg).1 hf]⟩, by simp⟩
    · obtain ⟨g, hfirst⟩ := List.exists_mem_of_ne_nil _ ((h.domains _ _ _).mpr hev)
      obtain ⟨hg, hdomain⟩ := List.mem_filter.mp hfirst
      obtain ⟨hf, hperson, rfl, hd, hrevoked⟩ := domainGrant_iff.mp hdomain
      exact ⟨⟨g, ⟨hg, hperson, hrevoked⟩, by simp [Held.ofGrant, hf, hd]⟩, by simp⟩

/-- Both sets are the same where the tests on tenancy roles are. -/
theorem given_eq_iff {p q : String → Prop} {person : UUID} {evs : List RoleEvent} :
    {x | Given p person evs x} = {x | Given q person evs x} ↔ ∀ role, p role ↔ q role := by
  constructor
  · intro h role
    have hx := Set.ext_iff.mp h ⟨.tenancy, .str role, .none⟩
    simpa [Given] using hx
  · intro h
    ext x
    simp only [Given, Set.mem_ofPred_eq, h]

/-! ### Agreement -/

/-- From every point of the ledger on, the pair is revoked as often as it is assigned. -/
def Settled (rows : List LedgerRow) (person : UUID) (role : String) : Prop :=
  Balance.Settled (assigns person role) (revokes person role) (events rows)

/-- Both folds give a person the same tenancy and domain grants exactly if every tenancy role of the
    person that was ever revoked is settled. -/
theorem sameGrants_iff (py : Interp) (rows : List LedgerRow) (p : Projections) (person : UUID)
    (hp : projectionsOf py rows = .ok p) (hw : ∀ e ∈ rows, AsWritten e)
    (hseq : (rows.map LedgerRow.seq).Nodup) (hsha : NoCollision py rows) :
    SameGrants py rows p person ↔
      ∀ role, .revoked person role ∈ events rows → Settled rows person role := by
  obtain ⟨s, hs, hsp⟩ := projectionsOf_ok hp
  obtain ⟨grants, hgrants, hfold⟩ := @foldRoleGrants_held py person rows _ s hs hw
  have hbuilt := grantsFor_held (built_run rows hseq hsha hw (foldEntries_at hs .roles)) hsp person
  have hzero : ∀ role, liveGrants person role (events rows) = 0 ↔ Settled rows person role := fun role =>
    Balance.balance_eq_zero_iff (@revokes_of_assigns person role) _
  calc SameGrants py rows p person
    _ ↔ roleSet (grants.map Held.ofRoleGrant) = roleSet ((grantsFor p.roles person).map Held.ofGrant) := by
        constructor
        · rintro ⟨grants', hgrants', hsame⟩
          rwa [Except.ok.inj (hgrants.symm.trans hgrants')]
        · exact fun hsame => ⟨grants, hgrants, hsame⟩
    _ ↔ ∀ role, (.assigned person role ∈ events rows ∧ .revoked person role ∉ events rows ↔
          liveGrants person role (events rows) ≠ 0) := by rw [hfold, hbuilt, given_eq_iff]
    _ ↔ ∀ role, .revoked person role ∈ events rows → Settled rows person role := by
        refine forall_congr' fun role => ?_
        rw [ne_eq, hzero]
        by_cases hrev : .revoked person role ∈ events rows
        · simp [hrev]
        · have hnone : ∀ ev ∈ events rows, revokes person role ev = false := by
            intro ev hev
            rw [revokes, decide_eq_false_iff_not]
            rintro rfl
            exact hrev hev
          simp only [hrev, not_false_eq_true, and_true, false_imp_iff, iff_true]
          rw [Settled, Balance.settled_of_none hnone]
          simp [assigns]

theorem singleAssignment_agrees : ∃ p, projectionsOf mirrorDigest singleAssignment = .ok p ∧
    SameGrants mirrorDigest singleAssignment p ⟨7⟩ := by
  obtain ⟨-, p, -, hp, -⟩ := singleAssignment_built
  have hevents : events singleAssignment = [.assigned ⟨7⟩ "admin", .revoked ⟨7⟩ "admin"] := by
    decide +kernel
  have hiff := sameGrants_iff mirrorDigest singleAssignment p ⟨7⟩ hp ?_ (by decide) ?_
  · refine ⟨p, hp, hiff.mpr fun role hrev => ?_⟩
    rw [hevents] at hrev
    obtain rfl : role = "admin" := by simpa using hrev
    rw [Settled, hevents]
    exact (Balance.balance_eq_zero_iff revokes_of_assigns _).mp (by decide)
  · intro e he tool args _ _
    have hall : ∀ e ∈ singleAssignment, (roleEvent e).isSome := by decide +kernel
    exact Option.isSome_iff_exists.mp (hall e he)
  · have hnone : grantText (executed 2 "emit_role_revoked" sampleRole) = none := by decide +kernel
    rintro text ⟨e, he, htext⟩ text' ⟨e', he', htext'⟩ _
    simp only [singleAssignment, List.mem_cons, List.not_mem_nil, or_false] at he he'
    rcases he with rfl | rfl
    · rcases he' with rfl | rfl
      · exact Option.some.inj (htext.symm.trans htext')
      · rw [hnone] at htext'
        cases htext'
    · rw [hnone] at htext
      cases htext

/-- A role that is assigned, revoked and assigned again. -/
def reassignment : List LedgerRow :=
  [executed 1 "emit_role_assigned" sampleRole, executed 2 "emit_role_revoked" sampleRole,
    executed 3 "emit_role_assigned" sampleRole]

/-- The projection shows the role that was given again; the fold does not give it. -/
theorem reassignment_hidden : ∃ p, projectionsOf mirrorDigest reassignment = .ok p ∧
    ¬SameGrants mirrorDigest reassignment p ⟨7⟩ := by
  obtain ⟨s, hs, hroles, hkpi, hinstalls⟩ : ∃ s,
      foldEntries mirrorDigest initialProjectionState reassignment = .ok s ∧
        ((s .roles).rows.map fun g => (g.facet, g.personId, g.role, g.revokedAt.isNone)) =
          [(.tenancy, ⟨7⟩, "admin", false), (.tenancy, ⟨7⟩, "admin", true)] ∧
        s .kpiNodes = .empty ∧ s .installs = .empty := ⟨_, rfl, rfl, rfl, rfl⟩
  obtain ⟨p, hp⟩ := @stateToProjections_ok mirrorDigest _ hkpi hinstalls
  refine ⟨p, by rw [projectionsOf, hs]; exact hp, ?_⟩
  rintro ⟨grants, hgrants, hsame⟩
  have hfold : foldRoleGrants mirrorDigest ⟨7⟩ reassignment = .ok [] := by rfl
  obtain rfl := Except.ok.inj (hfold.symm.trans hgrants)
  have hsecond : (Facet.tenancy, (⟨7⟩ : UUID), "admin", true) ∈
      (s .roles).rows.map fun g => (g.facet, g.personId, g.role, g.revokedAt.isNone) := by
    rw [hroles]
    exact .tail _ (.head _)
  obtain ⟨g, hg, hfields⟩ := List.mem_map.mp hsecond
  simp only [Prod.mk.injEq, Option.isNone_iff_eq_none] at hfields
  obtain ⟨hfacet, hperson, hrole, hrevoked⟩ := hfields
  have hshown : g ∈ grantsFor p.roles ⟨7⟩ :=
    mem_grantsFor.mpr ⟨(roles_rows hp).mem_iff.mpr hg, hperson, hrevoked⟩
  have hheld : Held.ofGrant g ∈ roleSet ((grantsFor p.roles ⟨7⟩).map Held.ofGrant) :=
    ⟨List.mem_map_of_mem hshown, by simp [Held.ofGrant, hfacet]⟩
  rw [← hsame] at hheld
  exact absurd hheld.1 List.not_mem_nil

end McpTools
