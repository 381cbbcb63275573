import Wormbase.Projection.Isolation
import Wormbase.WriteActions.Deeds

/-! What one call does to the identities, in the projection and in the actions' own fold.

    Both are read off the rows of a ledger, the projection as the register of a holding and the fold
    as its accounts. -/

namespace WriteActions
open Py Projection

/-! ### The rows of a call under the two folds -/

/-- The execute row of a call after `n` rows. -/
def Pevr.executeRow (c : Pevr) (company : UUID) (n : ℕ) (st : Stamp) : LedgerRow :=
  ⟨st.executeId, company, n + 2, st.ts, "execute", .dict (c.executePayload st), st.hash 1⟩

section
variable {py : Interp} {company : UUID} {n : ℕ} {st : Stamp} {s : State}

/-- A row without an action moves the counts only. -/
theorem applyEntry_scaffold {e : LedgerRow} {payload : Dict} (hpayload : e.payload = .dict payload)
    (hshape : envelopeBranch py payload = none) (hkind : e.kind ≠ "execute") :
    ∃ s', applyEntry py s e = .ok s' ∧ ∀ p, p ≠ .counts → s' p = s p := by
  have henv : applyPevrEnvelope py e s = .ok s := by simp [applyPevrEnvelope, hpayload, hshape]
  refine ⟨Function.update s .counts (countChat e (s .counts)), ?_,
    fun p hp => Function.update_of_ne hp _ _⟩
  simp [applyEntry, henv, hkind, State.onPart, bind, Except.bind, pure, Except.pure]

theorem applyEntry_execute {e : LedgerRow} {payload args : Dict} {tool : String} {p : Part}
    {run : Fold p.Carrier} {t : p.Carrier} (hpayload : e.payload = .dict payload)
    (hkind : e.kind = "execute") (hshape : envelopeBranch py payload = none)
    (htool : Dict.get payload "tool" = .str tool)
    (hargs : Dict.getD payload "args" (.dict []) = .dict args) (hmem : (tool, run) ∈ p.handlers py)
    (hrun : run e args (s p) = .ok t) :
    ∃ s', applyEntry py s e = .ok s' ∧ s' p = t ∧ ∀ q, q ≠ p → s' q = s q := by
  have henv : applyPevrEnvelope py e s = .ok s := by simp [applyPevrEnvelope, hpayload, hshape]
  have hbranch : (branches py).lookup tool = some ⟨p, run⟩ :=
    (lookup_branches py).mpr ((lookup_iff_mem (handlers_nodup py p)).mpr hmem)
  refine ⟨Function.update s p t, ?_, Function.update_self _ _ _, fun q hq => Function.update_of_ne hq _ _⟩
  simp only [applyEntry, henv, hkind, applyExecute, hpayload, htool, hbranch, hargs, hrun, State.onPart,
    bind, Except.bind, pure, Except.pure, List.mem_cons, String.reduceEq, true_or, or_true, if_true]

/-- The four rows of a call run its tool on the persons. -/
theorem fold_pevr {c : Pevr} {run : Fold People} {people : People}
    (hmem : (c.tool, run) ∈ Part.people.handlers py)
    (hrun : run (c.executeRow company n st) c.args (s .people) = .ok people) :
    ∃ s', foldEntries py s (c.rows company n st) = .ok s' ∧ s' .people = people ∧
      s' .kpiNodes = s .kpiNodes ∧ s' .installs = s .installs := by
  obtain ⟨s₁, h₁, hsame₁⟩ := @applyEntry_scaffold py s
    ⟨st.proposeId, company, n + 1, st.ts, "propose", .dict c.propose, st.hash 0⟩ _ rfl rfl (by simp)
  rw [← hsame₁ .people (by decide)] at hrun
  obtain ⟨s₂, h₂, hpeople, hsame₂⟩ := @applyEntry_execute py s₁ (c.executeRow company n st) _ _ _ _ _ _
    rfl rfl rfl rfl rfl hmem hrun
  obtain ⟨s₃, h₃, hsame₃⟩ := @applyEntry_scaffold py s₂ ⟨st.verifyId, company, n + 3, st.ts, "verify",
    .dict ((.str "execute_entry_id", .str st.executeId.str) :: c.verify), st.hash 2⟩ _ rfl rfl (by simp)
  obtain ⟨s₄, h₄, hsame₄⟩ := @applyEntry_scaffold py s₃ ⟨st.resolveId, company, n + 4, st.ts, "resolve",
    .dict ((.str "verify_entry_id", .str st.verifyId.str) :: c.resolve), st.hash 3⟩ _ rfl rfl (by simp)
  have hother : ∀ q : Part, q ≠ .counts → q ≠ .people → s₄ q = s q := fun q hcounts hq =>
    (hsame₄ q hcounts).trans ((hsame₃ q hcounts).trans ((hsame₂ q hq).trans (hsame₁ q hcounts)))
  refine ⟨s₄, ?_, ?_, hother _ (by decide) (by decide), hother _ (by decide) (by decide)⟩
  · exact foldEntries_cons.mpr ⟨s₁, h₁, foldEntries_cons.mpr ⟨s₂, h₂, foldEntries_cons.mpr
      ⟨s₃, h₃, foldEntries_cons.mpr ⟨s₄, h₄, rfl⟩⟩⟩⟩
  · rw [hsame₄ _ (by decide), hsame₃ _ (by decide), hpeople]

theorem identityStep_skips {pid : String} {state : Attached} {e : LedgerRow} (h : e.kind ≠ "execute") :
    identityStep pid state e = .ok state := by rw [identityStep, if_pos h]

theorem identityStep_executes {pid tool : String} {state : Attached} {e : LedgerRow}
    {payload args : Dict} (hkind : e.kind = "execute") (hpayload : e.payload = .dict payload)
    (htool : Dict.get payload "tool" = .str tool) (hget : Dict.get payload "args" = .dict args)
    (hargs : args ≠ []) : identityStep pid state e = identityArgs pid (.str tool) args state := by
  have hne : payload ≠ [] := by
    rintro rfl
    cases htool
  have hor : ∀ {d : Dict}, d ≠ [] → (Val.dict d).or (.dict []) = .dict d := by
    intro d hd
    simp [Val.or, Val.truthy, hd]
  simp only [identityStep, hkind, ne_eq, not_true_eq_false, if_false, hpayload, hor hne, hget,
    hor hargs, htool]

/-- Of the four rows of a write, the fold of a person reads the second. -/
theorem identityFold_stamped {rows : List LedgerRow} {propose execute verify resolve args : Dict}
    {tool : String} (htool : Dict.get execute "tool" = .str tool)
    (hget : Dict.get execute "args" = .dict args) (hargs : args ≠ []) (p : UUID) :
    identityFold (rows ++ stampedRows company n st propose execute verify resolve) p =
      identityFold rows p >>= identityArgs p.str (.str tool) args := by
  rw [identityFold, identityFold, List.foldlM_append]
  refine bind_congr fun state => ?_
  simp only [stampedRows, List.foldlM_cons, List.foldlM_nil]
  rw [identityStep_skips (by simp)]
  simp only [bind, Except.bind]
  rw [identityStep_executes rfl rfl htool hget hargs]
  cases identityArgs p.str (.str tool) args state with
  | error x => rfl
  | ok state' =>
    simp only
    rw [identityStep_skips (by simp)]
    simp only
    rw [identityStep_skips (by simp)]
    rfl

end

/-! ### The handlers on the args of the calls -/

section
variable {py : Interp} {company p : UUID} {e : LedgerRow} {platform puid : String}

theorem addIdentity_run (tid : String) (tenant : UUID) (name email : Val)
    (t : Dictionary IdentityKey Projection.Identity) : ∃ r : Projection.Identity,
      addIdentity py e tid p tenant (.str platform) (.str puid) name email t =
        .ok (t.putNew ((tid, platform, puid), r)) ∧
      r.personId = p ∧ r.platform = platform ∧ r.platformUserId = puid := ⟨_, rfl, rfl, rfl, rfl⟩

theorem truthy_str {s : String} : (Val.str s).truthy = true ↔ s ≠ "" := by simp [Val.truthy]

/-- A proposal puts its person, and the identity where both texts are there. -/
theorem emitPersonProposed_run (name : String) (email position : Option String) (by' : String)
    {tenant : Option UUID} (people : People) : ∃ row people', emitPersonProposed py e (proposePerson py
      company p tenant name email platform puid position by').args people = .ok people' ∧
        row.personId = p ∧ row.status = .proposed ∧ row.position = textOrNone position ∧
        people'.persons = people.persons.put (p.str, row) ∧
        if Named (platform, puid) then ∃ r : Projection.Identity, r.personId = p ∧
          r.platform = platform ∧ r.platformUserId = puid ∧ people'.identities =
            people.identities.putNew (((tenant.getD company).str, platform, puid), r)
        else people'.identities = people.identities := by
  obtain ⟨r, hr, hfields⟩ := @addIdentity_run py p e platform puid (tenant.getD company).str
    (tenant.getD company) (.str name) (textOrNone email) people.identities
  have hperson : ∀ u : UUID, uuidText (.str u.str) = .ok (u.str, u) := by
    intro u
    simp [uuidText, UUID.toUUID_str, bind, Except.bind, pure, Except.pure]
  generalize hargs : (proposePerson py company p tenant name email platform puid position by').args =
    args
  have hpid : args.item "person_id" = .ok (.str p.str) := hargs ▸ rfl
  have htid : args.item "tenant_id" = .ok (.str (tenant.getD company).str) := hargs ▸ rfl
  have hname : args.item "name" = .ok (.str name) := hargs ▸ rfl
  have hemail : args.get "email" = textOrNone email := hargs ▸ rfl
  have hplatform : args.get "platform" = .str platform := hargs ▸ rfl
  have hpuid : args.get "platform_user_id" = .str puid := hargs ▸ rfl
  have hposition : args.get "position" = textOrNone position := hargs ▸ rfl
  let row : Person := {
    personId := p
    tenantId := tenant.getD company
    name := .str name
    email := textOrNone email
    position := args.get "position"
    status := .proposed
    proposedBy := args.get "proposed_by"
    confirmedBy := none
    createdAt := e.ts
    lastUpdatedSeq := e.seq }
  by_cases hnamed : Named (platform, puid)
  · have htruthy : (Val.str platform).truthy = true ∧ (Val.str puid).truthy = true :=
      ⟨truthy_str.mpr hnamed.1, truthy_str.mpr hnamed.2⟩
    refine ⟨row, ⟨people.persons.put (p.str, row), people.identities.putNew
      (((tenant.getD company).str, platform, puid), r)⟩, ?_, rfl, rfl, hposition, rfl, ?_⟩
    · simp only [emitPersonProposed, hpid, htid, hname, hperson, hemail, hplatform, hpuid, htruthy,
        and_self, if_true, hr, bind, Except.bind, pure, Except.pure, row]
    · rw [if_pos hnamed]
      exact ⟨r, hfields.1, hfields.2.1, hfields.2.2, rfl⟩
  · have hfalsy : ¬((Val.str platform).truthy = true ∧ (Val.str puid).truthy = true) := by
      rwa [truthy_str, truthy_str]
    refine ⟨row, ⟨people.persons.put (p.str, row), people.identities⟩, ?_, rfl, rfl, hposition, rfl, ?_⟩
    · simp only [emitPersonProposed, hpid, htid, hname, hperson, hemail, hplatform, hpuid, hfalsy,
        if_false, bind, Except.bind, pure, Except.pure, row]
    · rw [if_neg hnamed]

/-- A link puts the identity where nobody has it. -/
theorem emitIdentityLinked_run (linkedBy : UUID) (people : People) (he : e.companyId = company) :
    ∃ r : Projection.Identity, emitIdentityLinked py e (linkIdentity p platform puid linkedBy).args
      people = .ok ⟨people.persons, people.identities.putNew ((company.str, platform, puid), r)⟩ ∧
      r.personId = p ∧ r.platform = platform ∧ r.platformUserId = puid := by
  obtain ⟨r, hr, hfields⟩ := @addIdentity_run py p e platform puid e.company e.companyId .none .none
    people.identities
  refine ⟨r, ?_, hfields⟩
  generalize hargs : (linkIdentity p platform puid linkedBy).args = args
  have hpid : args.item "person_id" = .ok (.str p.str) := hargs ▸ rfl
  have hplatform : args.item "platform" = .ok (.str platform) := hargs ▸ rfl
  have hpuid : args.item "platform_user_id" = .ok (.str puid) := hargs ▸ rfl
  subst he
  rw [LedgerRow.company] at hr
  simp only [emitIdentityLinked, hpid, hplatform, hpuid, UUID.toUUID_str, LedgerRow.company, hr, bind,
    Except.bind, pure, Except.pure]

theorem emitIdentityUnlinked_run (unlinkedBy : UUID) (people : People) (he : e.companyId = company) :
    emitIdentityUnlinked e (unlinkIdentity p platform puid unlinkedBy).args people =
      .ok ⟨people.persons, people.identities.erase (company.str, platform, puid)⟩ := by
  subst he
  rfl

/-- An archive changes the person's status, where there is one. -/
theorem emitPersonArchived_run (archivedBy : UUID) (reason : String) (people : People) :
    emitPersonArchived e (archivePerson p archivedBy reason).args people =
      .ok ⟨match people.persons.get? p.str with
        | some (_, r) => people.persons.put
            (p.str, { r with status := .archived, lastUpdatedSeq := e.seq })
        | none => people.persons, people.identities⟩ := by
  have hpid : Dict.item (archivePerson p archivedBy reason).args "person_id" = .ok (.str p.str) := rfl
  simp only [emitPersonArchived, hpid, People.updatePerson, updateAt, Val.hash, bind, Except.bind, pure,
    Except.pure]
  cases people.persons.get? p.str <;> rfl

end

/-! ### What a reader of the ledger sees -/

def key (i : Ident) : Key × Key := (.str i.1, .str i.2)

theorem key_injective : Function.Injective key := by
  rintro ⟨a, b⟩ ⟨c, d⟩ h
  simpa [key] using h

/-- The person that the projection gives an identity of the company to. -/
def holderIn (companyId : UUID) (people : People) (i : Ident) : Option UUID :=
  (people.identities.get? (companyId.str, i.1, i.2)).map fun kr => kr.2.personId

/-- The persons that are not archived. -/
def liveIn (people : People) : Set UUID :=
  {p | ∃ kr ∈ people.persons.rows, kr.2.personId = p ∧ kr.2.status ≠ .archived}

/-- The identities that the fold has attached. -/
def attachedTo (att : UUID → Attached) (i : Ident) : Set UUID :=
  {p | (att p).get? (key i) = some (key i, true)}

def standing (companyId : UUID) (people : People) (att : UUID → Attached) : Standing where
  holding := fun i => ⟨holderIn companyId people i, attachedTo att i⟩
  live := liveIn people

/-- A ledger of the actions: both folds go through, under keys that the rows spell out. -/
structure Reads (py : Interp) (companyId : UUID) (rows : List LedgerRow) (s : State)
    (att : UUID → Attached) : Prop where
  state : foldEntries py initialProjectionState rows = .ok s
  attached : ∀ p, identityFold rows p = .ok (att p)
  persons : ∀ kr ∈ (s .people).persons.rows, kr.1 = kr.2.personId.str
  identities : ∀ kr ∈ (s .people).identities.rows,
    kr.1 = (companyId.str, kr.2.platform, kr.2.platformUserId)
  named : ∀ p, ∀ kr ∈ (att p).rows, ∃ i, kr.1 = key i ∧ Named i
  kpiNodes : s .kpiNodes = .empty
  installs : s .installs = .empty

section
variable {py : Interp} {company p : UUID} {people : People} {i : Ident}

/-! #### The register -/

theorem identKey_iff {j : Ident} : (company.str, i.1, i.2) = (company.str, j.1, j.2) ↔ j = i := by
  simp [Prod.ext_iff, eq_comm]

theorem holderIn_putNew {persons : Dictionary String Person} {r : Projection.Identity}
    (hr : r.personId = p) (j : Ident) :
    holderIn company ⟨persons, people.identities.putNew ((company.str, i.1, i.2), r)⟩ j =
      if j = i then (holderIn company people j).or (some p) else holderIn company people j := by
  simp only [holderIn, Table.get?_putNew, identKey_iff]
  split
  · cases people.identities.get? (company.str, j.1, j.2) with
    | none => simp [hr]
    | some r' => simp
  · rfl

theorem holderIn_erase {persons : Dictionary String Person} (j : Ident) :
    holderIn company ⟨persons, people.identities.erase (company.str, i.1, i.2)⟩ j =
      if j = i then none else holderIn company people j := by
  simp only [holderIn, Table.get?_erase, identKey_iff]
  split
  · rfl
  · rfl

/-! #### The fold of a person -/

theorem person_isText (q : UUID) : (Val.str p.str).isText q.str = true ↔ q = p := by
  rw [Val.isText_iff, Val.str.injEq]
  exact ⟨fun h => (UUID.str_injective h).symm, fun h => h ▸ rfl⟩

theorem identityArgs_takes {tool : String} {args : Dict} (hperson : args.get "person_id" = .str p.str)
    (hplatform : args.get "platform" = .str i.1) (hpuid : args.get "platform_user_id" = .str i.2)
    (htool : tool = "emit_person_proposed" ∨ tool = "emit_identity_linked") (q : UUID)
    (state : Attached) : identityArgs q.str (.str tool) args state =
      .ok (if q = p ∧ Named i then state.put (key i, true) else state) := by
  have hboth : (Val.str tool).isText "emit_person_proposed" = true ∨
      (Val.str tool).isText "emit_identity_linked" = true := by
    simpa [Val.isText] using htool
  simp only [identityArgs, hperson, hplatform, hpuid, person_isText, truthy_str]
  by_cases h : q = p ∧ i.1 ≠ "" ∧ i.2 ≠ ""
  · rw [if_pos h, if_pos hboth, if_pos (show q = p ∧ Named i from h)]
    rfl
  · rw [if_neg h, if_neg (show ¬(q = p ∧ Named i) from h)]

theorem identityArgs_releases {args : Dict} (hperson : args.get "person_id" = .str p.str)
    (hplatform : args.get "platform" = .str i.1) (hpuid : args.get "platform_user_id" = .str i.2)
    (q : UUID) (state : Attached) : identityArgs q.str (.str "emit_identity_unlinked") args state =
      .ok (if (q = p ∧ Named i) ∧ (state.get? (key i)).isSome then state.put (key i, false)
        else state) := by
  have hother : ¬((Val.str "emit_identity_unlinked").isText "emit_person_proposed" = true ∨
      (Val.str "emit_identity_unlinked").isText "emit_identity_linked" = true) := by
    simp [Val.isText]
  simp only [identityArgs, hperson, hplatform, hpuid, person_isText, truthy_str]
  by_cases h : q = p ∧ i.1 ≠ "" ∧ i.2 ≠ ""
  · have hnamed : q = p ∧ Named i := h
    rw [if_pos h, if_neg hother, if_pos (Val.isText_iff.mpr rfl)]
    simp only [hnamed, and_self, true_and]
    rfl
  · have hnot : ¬((q = p ∧ Named i) ∧ (state.get? (key i)).isSome = true) := fun hn => h hn.1
    rw [if_neg h, if_neg hnot]

theorem identityArgs_ignores {tool : Val} {args : Dict} (h : args.get "platform" = .none) (pid : String)
    (state : Attached) : identityArgs pid tool args state = .ok state := by
  simp [identityArgs, h, Val.truthy]

theorem mem_attachedTo {att : UUID → Attached} {q : UUID} :
    q ∈ attachedTo att i ↔ (att q).get? (key i) = some (key i, true) := Iff.rfl

theorem attachedTo_take {att : UUID → Attached} (hi : Named i) (j : Ident) :
    attachedTo (fun q => if q = p ∧ Named i then (att q).put (key i, true) else att q) j =
      if j = i then insert p (attachedTo att j) else attachedTo att j := by
  ext q
  rw [mem_attachedTo]
  by_cases hq : q = p
  · rw [if_pos ⟨hq, hi⟩, Table.get?_put]
    by_cases hj : j = i
    · rw [if_pos hj, if_pos (congrArg key hj).symm, hj]
      simp [hq]
    · rw [if_neg hj, if_neg fun h => hj (key_injective h).symm, mem_attachedTo]
  · rw [if_neg fun h => hq h.1]
    split
    · rw [Set.mem_insert_iff, or_iff_right hq, mem_attachedTo]
    · rfl

theorem attachedTo_release {att : UUID → Attached} (hi : Named i) (j : Ident) :
    attachedTo (fun q => if (q = p ∧ Named i) ∧ ((att q).get? (key i)).isSome then
      (att q).put (key i, false) else att q) j =
        if j = i then attachedTo att j \ {p} else attachedTo att j := by
  ext q
  rw [mem_attachedTo]
  by_cases hq : q = p
  · by_cases hj : j = i
    · subst hj
      simp only [hq, hi, and_self, true_and, if_true, Set.mem_sdiff, Set.mem_singleton_iff, not_true_eq_false,
        and_false, iff_false]
      cases hget : (att p).get? (key j) with
      | none => simp [hget]
      | some kb => simp [Table.get?_put]
    · rw [if_neg hj, mem_attachedTo]
      split
      · rw [Table.get?_put, if_neg fun h => hj (key_injective h).symm]
      · rfl
  · rw [if_neg fun h => hq h.1.1]
    split
    · rw [Set.mem_sdiff, Set.mem_singleton_iff, and_iff_left hq, mem_attachedTo]
    · rfl

/-! #### The persons -/

theorem mem_liveIn {q : UUID} : q ∈ liveIn people ↔
    ∃ kr ∈ people.persons.rows, kr.2.personId = q ∧ kr.2.status ≠ .archived := Iff.rfl

theorem mem_liveIn_put {row : Person} {ids : Dictionary IdentityKey Projection.Identity}
    (hkeys : ∀ kr ∈ people.persons.rows, kr.1 = kr.2.personId.str) (hrow : row.personId = p) (q : UUID) :
    q ∈ liveIn ⟨people.persons.put (p.str, row), ids⟩ ↔
      if q = p then row.status ≠ .archived else q ∈ liveIn people := by
  simp only [mem_liveIn, Table.mem_put]
  constructor
  · rintro ⟨kr, rfl | ⟨hkr, hne⟩, rfl, hstatus⟩
    · rw [if_pos hrow]
      exact hstatus
    · rw [if_neg fun hq => hne (by rw [hkeys kr hkr, hq])]
      exact ⟨kr, hkr, rfl, hstatus⟩
  · split
    · rename_i hq
      exact fun hstatus => ⟨_, .inl rfl, hrow.trans hq.symm, hstatus⟩
    · rename_i hq
      rintro ⟨kr, hkr, rfl, hstatus⟩
      refine ⟨kr, .inr ⟨hkr, fun hkey => hq (UUID.str_injective ?_)⟩, rfl, hstatus⟩
      rw [← hkeys kr hkr, hkey]

end

/-! ### One call -/

section
variable {py : Interp} {company : UUID} {rows : List LedgerRow} {s : State} {att : UUID → Attached}

/-- A call whose tool runs is read by both folds. -/
theorem Reads.write (h : Reads py company rows s att) {c : Pevr} {run : Fold People} {people : People}
    {att' : UUID → Attached} {st : Stamp} (hmem : (c.tool, run) ∈ Part.people.handlers py)
    (hrun : run (c.executeRow company rows.length st) c.args (s .people) = .ok people)
    (hargs : c.args ≠ [])
    (hatt : ∀ q, identityArgs q.str (.str c.tool) c.args (att q) = .ok (att' q))
    (hpersons : ∀ kr ∈ people.persons.rows, kr.1 = kr.2.personId.str)
    (hids : ∀ kr ∈ people.identities.rows, kr.1 = (company.str, kr.2.platform, kr.2.platformUserId))
    (hnamed : ∀ p, ∀ kr ∈ (att' p).rows, ∃ i, kr.1 = key i ∧ Named i) :
    ∃ s', Reads py company (rows ++ c.rows company rows.length st) s' att' ∧ s' .people = people := by
  obtain ⟨s', hs', hpeople, hkpi, hinstalls⟩ := fold_pevr hmem hrun
  refine ⟨s', ⟨foldEntries_append.mpr ⟨s, h.state, hs'⟩, fun p => ?_, hpeople ▸ hpersons, hpeople ▸ hids,
    hnamed, hkpi.trans h.kpiNodes, hinstalls.trans h.installs⟩, hpeople⟩
  rw [Pevr.rows, identityFold_stamped rfl rfl hargs, h.attached p]
  exact hatt p

/-- The deed that a call of one of the actions does. -/
inductive Does (py : Interp) (company : UUID) : Pevr → Deed → Prop
  | propose {p : UUID} {tenant : Option UUID} {name platform puid by' : String}
      {email position : Option String} (htenant : tenant.getD company = company) :
      Does py company (proposePerson py company p tenant name email platform puid position by')
        (.propose p (platform, puid))
  | link {p by' : UUID} {platform puid : String} :
      Does py company (linkIdentity p platform puid by') (.link p (platform, puid))
  | unlink {p by' : UUID} {platform puid : String} :
      Does py company (unlinkIdentity p platform puid by') (.unlink p (platform, puid))
  | archive {p by' : UUID} {reason : String} :
      Does py company (archivePerson p by' reason) (.archive p)

theorem forall_mem_putNew {ρ κ : Type} [DecidableEq κ] {f : ρ → κ} {P : ρ → Prop} {t : Table f} {r : ρ}
    (ht : ∀ y ∈ t.rows, P y) (hr : P r) : ∀ y ∈ (t.putNew r).rows, P y := by
  intro y hy
  rcases Table.mem_putNew.mp hy with hy | ⟨rfl, -⟩
  · exact ht y hy
  · exact hr

theorem named_takes {p : UUID} {i : Ident}
    (h : ∀ q, ∀ kr ∈ (att q).rows, ∃ j, kr.1 = key j ∧ Named j) (q : UUID) :
    ∀ kr ∈ (if q = p ∧ Named i then (att q).put (key i, true) else att q).rows,
      ∃ j, kr.1 = key j ∧ Named j := by
  split
  · rename_i hi
    exact Table.forall_mem_put (h q) ⟨i, rfl, hi.2⟩
  · exact h q

theorem named_releases {p : UUID} {i : Ident}
    (h : ∀ q, ∀ kr ∈ (att q).rows, ∃ j, kr.1 = key j ∧ Named j) (q : UUID) :
    ∀ kr ∈ (if (q = p ∧ Named i) ∧ ((att q).get? (key i)).isSome then (att q).put (key i, false)
      else att q).rows, ∃ j, kr.1 = key j ∧ Named j := by
  split
  · rename_i hi
    exact Table.forall_mem_put (h q) ⟨i, rfl, hi.1.2⟩
  · exact h q

/-- One act on one identity, and what it does to the two records. -/
theorem standing_act {people people' : People} {att att' : UUID → Attached} {i : Ident} {a : Act UUID}
    (hregister : ∀ j, holderIn company people' j = if j = i then
      ((standing company people att).holding j |>.act a).register else holderIn company people j)
    (haccounts : ∀ j, attachedTo att' j = if j = i then
      ((standing company people att).holding j |>.act a).accounts else attachedTo att j) :
    (standing company people' att').holding =
      (standing company people att).holding.moves ([a].map fun a => (i, a)) := by
  funext j
  rw [Holding.moves_map]
  refine Cell.ext ((hregister j).trans ?_) ((haccounts j).trans ?_)
  · split
    · rfl
    · rfl
  · split
    · rfl
    · rfl

theorem Reads.links (h : Reads py company rows s att) {p by' : UUID} {platform puid : String}
    (st : Stamp) : ∃ s' att', Reads py company
      (rows ++ (linkIdentity p platform puid by').rows company rows.length st) s' att' ∧
        standing company (s' .people) att' =
          (standing company (s .people) att).after (.link p (platform, puid)) := by
  obtain ⟨r, hrun, hperson, hplatform, hpuid⟩ := @emitIdentityLinked_run py company p
    ((linkIdentity p platform puid by').executeRow company rows.length st) platform puid by' (s .people) rfl
  obtain ⟨s', hs', hpeople⟩ := h.write (by simp [Part.handlers, linkIdentity]) hrun (by simp [linkIdentity])
    (fun q => identityArgs_takes (i := (platform, puid)) rfl rfl rfl (.inr rfl) q (att q)) h.persons
    (forall_mem_putNew h.identities (by rw [hplatform, hpuid])) (named_takes h.named)
  refine ⟨s', _, hs', ?_⟩
  rw [hpeople]
  refine Standing.ext (standing_act (fun j => ?_) fun j => ?_) rfl
  · refine (holderIn_putNew (i := (platform, puid)) hperson j).trans ?_
    by_cases hi : Named (platform, puid)
    · simp [hi, standing]
    · simp [hi, standing]
  · by_cases hi : Named (platform, puid)
    · rw [attachedTo_take hi]
      simp [hi, standing]
    · simp [hi, standing]

theorem Reads.unlinks (h : Reads py company rows s att) {p by' : UUID} {platform puid : String}
    (st : Stamp) : ∃ s' att', Reads py company
      (rows ++ (unlinkIdentity p platform puid by').rows company rows.length st) s' att' ∧
        standing company (s' .people) att' =
          (standing company (s .people) att).after (.unlink p (platform, puid)) := by
  have hrun := @emitIdentityUnlinked_run company p
    ((unlinkIdentity p platform puid by').executeRow company rows.length st) platform puid by' (s .people) rfl
  obtain ⟨s', hs', hpeople⟩ := h.write (by simp [Part.handlers, unlinkIdentity]) hrun
    (by simp [unlinkIdentity])
    (fun q => identityArgs_releases (i := (platform, puid)) rfl rfl rfl q (att q)) h.persons
    (fun kr hkr => h.identities kr (Table.mem_erase.mp hkr).1) (named_releases h.named)
  refine ⟨s', _, hs', ?_⟩
  rw [hpeople]
  refine Standing.ext (standing_act (fun j => ?_) fun j => ?_) rfl
  · exact holderIn_erase (i := (platform, puid)) j
  · by_cases hi : Named (platform, puid)
    · rw [attachedTo_release hi]
      rfl
    · -- nobody has an identity without a name
      have hnone : ∀ q, q ∉ attachedTo att (platform, puid) := by
        intro q hq
        obtain ⟨hmem, -⟩ := Table.get?_eq_some_iff.mp (mem_attachedTo.mp hq)
        obtain ⟨i, hkey, hnamed⟩ := h.named q _ hmem
        exact hi (key_injective hkey ▸ hnamed)
      simp only [hi, and_false, false_and, if_false]
      split
      · rename_i hj
        ext q
        simp [hj, standing, hnone]
      · rfl

theorem Reads.archives (h : Reads py company rows s att) {p by' : UUID} {reason : String} (st : Stamp) :
    ∃ s' att', Reads py company
      (rows ++ (archivePerson p by' reason).rows company rows.length st) s' att' ∧
        standing company (s' .people) att' =
          (standing company (s .people) att).after (.archive p) := by
  have hrun := @emitPersonArchived_run p
    ((archivePerson p by' reason).executeRow company rows.length st) by' reason (s .people)
  cases hget : (s .people).persons.get? p.str with
  | none =>
    rw [hget] at hrun
    obtain ⟨s', hs', hpeople⟩ := h.write (by simp [Part.handlers, archivePerson]) hrun
      (by simp [archivePerson]) (fun q => identityArgs_ignores rfl _ _) h.persons h.identities h.named
    refine ⟨s', _, hs', ?_⟩
    rw [hpeople]
    refine Standing.ext rfl (Set.ext fun q => ?_)
    -- without a row the person was not alive before
    have hnot : p ∉ liveIn (s .people) := by
      rintro ⟨kr, hkr, rfl, -⟩
      exact Table.get?_eq_none_iff.mp hget kr hkr (h.persons kr hkr)
    refine ⟨fun hq => ⟨hq, ?_⟩, fun hq => hq.1⟩
    rintro rfl
    exact hnot hq
  | some kr =>
    obtain ⟨k, r⟩ := kr
    rw [hget] at hrun
    obtain ⟨hmem, hk⟩ := Table.get?_eq_some_iff.mp hget
    have hperson : r.personId = p := UUID.str_injective ((h.persons _ hmem).symm.trans hk)
    simp only at hrun
    obtain ⟨s', hs', hpeople⟩ := h.write (by simp [Part.handlers, archivePerson]) hrun
      (by simp [archivePerson]) (fun q => identityArgs_ignores rfl _ _)
      (Table.forall_mem_put h.persons (by rw [← hperson])) h.identities h.named
    refine ⟨s', _, hs', ?_⟩
    rw [hpeople]
    let row : Person := { r with
      status := .archived
      lastUpdatedSeq := ((archivePerson p by' reason).executeRow company rows.length st).seq }
    have hrow : row.personId = p := hperson
    refine Standing.ext rfl (Set.ext fun q => (mem_liveIn_put h.persons hrow q).trans ?_)
    by_cases hq : q = p
    · simp [hq, row, Standing.after, Deed.lives]
    · simp [hq, Standing.after, Deed.lives, standing]

theorem Reads.proposes (h : Reads py company rows s att) {p : UUID} {tenant : Option UUID}
    {name platform puid by' : String} {email position : Option String}
    (htenant : tenant.getD company = company) (st : Stamp) : ∃ s' att', Reads py company
      (rows ++ (proposePerson py company p tenant name email platform puid position by').rows company
        rows.length st) s' att' ∧ standing company (s' .people) att' =
          (standing company (s .people) att).after (.propose p (platform, puid)) := by
  obtain ⟨row, people', hrun, hrow, hstatus, -, hpersons, hids⟩ := @emitPersonProposed_run py company p
    ((proposePerson py company p tenant name email platform puid position by').executeRow company
      rows.length st) platform puid name email position by' tenant (s .people)
  have hlive : liveIn people' = insert p (liveIn (s .people)) := by
    ext q
    obtain ⟨persons, ids⟩ := people'
    obtain rfl : persons = _ := hpersons
    rw [mem_liveIn_put h.persons hrow, Set.mem_insert_iff]
    by_cases hq : q = p
    · simp [hq, hstatus]
    · simp [hq]
  have hkeys : ∀ kr ∈ people'.persons.rows, kr.1 = kr.2.personId.str := by
    rw [hpersons]
    exact Table.forall_mem_put h.persons (by rw [hrow])
  by_cases hi : Named (platform, puid)
  · rw [if_pos hi] at hids
    obtain ⟨r, hperson, hplatform, hpuid, hids⟩ := hids
    rw [htenant] at hids
    obtain ⟨s', hs', hpeople⟩ := h.write (by simp [Part.handlers, proposePerson]) hrun
      (by simp [proposePerson])
      (fun q => identityArgs_takes (i := (platform, puid)) rfl rfl rfl (.inl rfl) q (att q)) hkeys
      (by rw [hids]; exact forall_mem_putNew h.identities (by rw [hplatform, hpuid]))
      (named_takes h.named)
    refine ⟨s', _, hs', ?_⟩
    rw [hpeople]
    refine Standing.ext ?_ hlive
    have hmoves : (Deed.propose p (platform, puid)).moves =
        [Act.take p].map fun a => ((platform, puid), a) := if_pos hi
    rw [Standing.after, hmoves]
    refine standing_act (fun j => ?_) fun j => attachedTo_take hi j
    obtain ⟨persons, ids⟩ := people'
    obtain rfl : ids = _ := hids
    exact holderIn_putNew (i := (platform, puid)) hperson j
  · rw [if_neg hi] at hids
    have hatt : ∀ q, identityArgs q.str (.str "emit_person_proposed") (proposePerson py company p tenant name
        email platform puid position by').args (att q) = .ok (att q) := by
      intro q
      have hargs := @identityArgs_takes p (platform, puid) "emit_person_proposed"
        (proposePerson py company p tenant name email platform puid position by').args
        rfl rfl rfl (.inl rfl) q (att q)
      rwa [if_neg fun hq => hi hq.2] at hargs
    obtain ⟨s', hs', hpeople⟩ := h.write (by simp [Part.handlers, proposePerson]) hrun
      (by simp [proposePerson]) hatt hkeys (by rw [hids]; exact h.identities) h.named
    refine ⟨s', _, hs', ?_⟩
    rw [hpeople]
    refine Standing.ext ?_ hlive
    have hmoves : (Deed.propose p (platform, puid)).moves = [] := if_neg hi
    rw [Standing.after, hmoves, Holding.moves_nil]
    obtain ⟨persons, ids⟩ := people'
    obtain rfl : ids = _ := hids
    rfl

theorem Reads.does (h : Reads py company rows s att) {c : Pevr} {d : Deed} (hd : Does py company c d)
    (st : Stamp) : ∃ s' att', Reads py company (rows ++ c.rows company rows.length st) s' att' ∧
      standing company (s' .people) att' = (standing company (s .people) att).after d := by
  cases hd with
  | propose htenant => exact h.proposes htenant st
  | link => exact h.links st
  | unlink => exact h.unlinks st
  | archive => exact h.archives st

end

end WriteActions
