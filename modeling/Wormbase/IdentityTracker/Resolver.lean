import Wormbase.Py.UuidText
import Wormbase.WriteActions.Agreement

/-! `IdentityResolver.resolve_platform_id`: the person of an identity, read off the ledger, against the row that
    the projection has of the identity.

    The resolver takes the latest bind and the projection the first. Both let go of an identity that is unlinked,
    from whomever. -/

namespace IdentityTracker
open Py
open Projection (LedgerRow State Stamp projectionsOf)
open WriteActions (Attached Assigns Deed Does Ident Named OnlyHeldBy Pevr Reads Refused Request Standing Stopped
  WriteAction normalised standing writeAll)

/-! ### The resolver -/

/-- A fold over what the execute rows call, and with which args. -/
def callStep {σ : Type} (f : Val → Dict → σ → σ) (acc : σ) (r : LedgerRow) : Except Err σ :=
  if r.kind ≠ "execute" then .ok acc
  else do
    let payload ← orMapping r.payload
    let args ← orMapping (Dict.get payload "args")
    return f (Dict.get payload "tool") args acc

/-- `bound`: the person of each platform and user id. -/
abbrev Bound := Dictionary Ident UUID

/-- `types.Person`. -/
structure Resolved where
  personId : UUID
  name : Val
  email : Val
  platform : Val
  platformUserId : Val
  preferences : Dict

/-- What the hydration has of its person so far. -/
structure Draft where
  name : Val
  email : Val
  platform : Val
  platformUserId : Val
  preferences : Dict
  seen : Bool

def Draft.blank : Draft := ⟨.str "", .none, .none, .none, [], false⟩

section
variable (py : Interp)

/-- One call in the fold of `resolve_platform_id`. -/
def bindArgs (tool : Val) (args : Dict) (bound : Bound) : Bound :=
  let p := Dict.get args "platform"
  let u := Dict.get args "platform_user_id"
  if !p.truthy || !u.truthy then bound
  else
    let pidRaw := Dict.get args "person_id"
    if tool.isText "emit_person_proposed" || tool.isText "emit_identity_linked" then
      if pidRaw.truthy then
        match Val.toUUID (.str (pidRaw.toStr py)) with
        | .ok person => bound.put ((p.toStr py, u.toStr py), person)
        | .error _ => bound
      else bound
    else if tool.isText "emit_identity_unlinked" then bound.erase (p.toStr py, u.toStr py)
    else bound

/-- One call in the fold of `_hydrate_person_from_rows`. -/
def draftArgs (target : String) (tool : Val) (args : Dict) (draft : Draft) : Draft :=
  if (Dict.get args "person_id").text py ≠ target then draft
  else
    let bind := fun draft : Draft => { draft with
      platform := (Dict.get args "platform").or draft.platform
      platformUserId := (Dict.get args "platform_user_id").or draft.platformUserId
      seen := true }
    let named := fun draft : Draft => { draft with
      name := (Dict.getD args "name" (.str "")).or draft.name
      email := (Dict.get args "email").or draft.email
      seen := true }
    if tool.isText "emit_person_proposed" then bind (named draft)
    else if tool.isText "emit_identity_linked" then bind draft
    else if tool.isText "emit_person_registered" then named draft
    else if tool.isText "set_person_preferences" then
      match Dict.get args "preferences" with
      | .dict prefs => { draft with preferences := draft.preferences.update prefs, seen := true }
      | _ => { draft with seen := true }
    else draft

/-- `_hydrate_person_from_rows`. -/
def hydratePersonFromRows (rows : List LedgerRow) (personId : UUID) : Except Err (Option Resolved) := do
  let draft ← rows.foldlM (callStep (draftArgs py personId.str)) .blank
  if !draft.seen then return none
  else return some ⟨personId, draft.name.or (.str "Unknown"), draft.email, draft.platform, draft.platformUserId,
    draft.preferences⟩

/-- `resolve_platform_id`. -/
def resolvePlatformId (rows : List LedgerRow) (platform platformUserId : String) : Except Err (Option Resolved) := do
  let rows := rows.mergeSort fun a b => a.seq ≤ b.seq
  let bound ← rows.foldlM (callStep (bindArgs py)) .empty
  match bound.get? (platform, platformUserId) with
  | none => return none
  | some (_, personId) => hydratePersonFromRows py rows personId

/-- The resolver finds for every identity the person that the projection gives it to. -/
def ResolverAgrees (rows : List LedgerRow) : Prop :=
  ∃ p, projectionsOf py rows = .ok p ∧ ∀ i : Ident, ∃ found, resolvePlatformId py rows i.1 i.2 = .ok found ∧
    ∀ person, Assigns p person i ↔ found.map Resolved.personId = some person

/-- What an action must find so that the resolver agrees after it: nobody else has an identity that is proposed or
    linked, and no identity without a name is linked. -/
def Resolvable (rows : List LedgerRow) : WriteAction → Prop
  | .proposePerson p _ _ platform puid _ _ => Named (platform, puid) → OnlyHeldBy py rows {p} (platform, puid)
  | .linkIdentity p platform puid _ => Named (platform, puid) ∧ OnlyHeldBy py rows {p} (platform, puid)
  | .unlinkIdentity .. | .archivePerson .. | .mergePersons .. => True
  | .splitPerson _ _ _ _ _ items _ => ∀ seed rest, normalised items = .ok (seed :: rest) → ∀ i ∈ rest, Named i

/-- A request that is refused, or one outside silent mode that finds what it must. -/
def Resolves (rows : List LedgerRow) (r : Request) : Prop :=
  Refused r.action ∨ r.silent = none ∧ Resolvable py rows r.action

end

/-! ### The latest bind -/

/-- What a deed does to the latest binds. -/
def latest (last : Ident → Option UUID) : Deed → Ident → Option UUID
  | .propose p i | .link p i => if Named i then Function.update last i (some p) else last
  | .unlink _ i => if Named i then Function.update last i none else last
  | .archive _ => last

/-- The latest binds are who is in the register, and an identity without a name is never bound. -/
structure Tracks (v : Standing) (last : Ident → Option UUID) : Prop where
  register : ∀ i, last i = (v.holding i).register
  unnamed : ∀ i, ¬Named i → last i = none

/-- The latest binds after several deeds. -/
def latestAll (last : Ident → Option UUID) (ds : List Deed) : Ident → Option UUID := ds.foldl latest last

section
variable {v : Standing} {last : Ident → Option UUID} {p q : UUID} {i : Ident}

theorem latest_unnamed (h : ∀ i, ¬Named i → last i = none) (d : Deed) : ∀ i, ¬Named i → latest last d i = none := by
  intro i hi
  have hne : ∀ {j : Ident} {w : Option UUID}, Named j → Function.update last j w i = none := by
    intro j w hj
    rw [Function.update_of_ne (fun heq => hi (by rw [heq]; exact hj)), h i hi]
  cases d with
  | propose p j | link p j | unlink p j =>
    simp only [latest]
    split
    · rename_i hj
      exact hne hj
    · exact h i hi
  | archive p => exact h i hi

/-- Letting an identity go brings both to nobody, whatever they said of it. -/
theorem tracks_unlink (hregister : ∀ j, j ≠ i → last j = (v.holding j).register)
    (hunnamed : ∀ j, ¬Named j → last j = none) : Tracks (v.after (.unlink p i)) (latest last (.unlink p i)) := by
  refine ⟨fun j => ?_, latest_unnamed hunnamed _⟩
  rw [Standing.after_register]
  simp only [latest]
  by_cases hj : j = i
  · subst hj
    rw [if_pos rfl]
    split
    · exact Function.update_self _ _ _
    · rename_i hnot
      exact hunnamed j hnot
  · rw [if_neg hj]
    split
    · rw [Function.update_of_ne hj, hregister j hj]
    · exact hregister j hj

/-- A bind of a named identity keeps the latest binds in step where nobody else has it. -/
theorem tracks_take (h : Tracks v last) (hi : Named i) :
    (∀ j, Function.update last i (some p) j = if j = i then ((v.holding j).register).or (some p)
      else (v.holding j).register) ↔ (v.holding i).Within {p} := by
  constructor
  · intro hall q hq
    have hself := hall i
    rw [Function.update_self, if_pos rfl, hq] at hself
    exact (Option.some.inj hself).symm
  · intro hwithin j
    by_cases hj : j = i
    · subst hj
      rw [Function.update_self, if_pos rfl]
      cases hreg : (v.holding j).register with
      | none => rfl
      | some q => exact congrArg some (hwithin q hreg).symm
    · rw [Function.update_of_ne hj, if_neg hj]
      exact h.register j

theorem tracks_deed (h : Tracks v last) (d : Deed) :
    Tracks (v.after d) (latest last d) ↔ match d with
      | .propose p i => Named i → (v.holding i).Within {p}
      | .link p i => Named i ∧ (v.holding i).Within {p}
      | .unlink _ _ | .archive _ => True := by
  have hsplit : Tracks (v.after d) (latest last d) ↔ ∀ j, latest last d j = ((v.after d).holding j).register :=
    ⟨fun h => h.register, fun hall => ⟨hall, latest_unnamed h.unnamed d⟩⟩
  cases d with
  | propose p i =>
    rw [hsplit]
    simp only [Standing.after_register, latest]
    by_cases hi : Named i
    · simp only [hi, true_and, if_true, forall_const]
      exact tracks_take h hi
    · simp only [hi, false_and, if_false, false_imp_iff, iff_true]
      exact h.register
  | link p i =>
    rw [hsplit]
    simp only [Standing.after_register, latest]
    by_cases hi : Named i
    · simp only [hi, true_and, if_true]
      exact tracks_take h hi
    · -- the register takes the identity, and the resolver never finds it
      simp only [hi, false_and, if_false, iff_false, not_forall]
      refine ⟨i, ?_⟩
      rw [if_pos rfl, ← h.register i, h.unnamed i hi]
      intro hnone
      cases hnone
  | unlink p i => exact iff_of_true (tracks_unlink (fun j _ => h.register j) h.unnamed) trivial
  | archive p => exact iff_of_true ⟨h.register, h.unnamed⟩ trivial

/-- An identity that is let go and bound right after. -/
theorem tracks_handover (h : Tracks v last) (hi : Named i) :
    Tracks ((v.after (.unlink p i)).after (.link q i)) (latest (latest last (.unlink p i)) (.link q i)) := by
  have hfree := (tracks_deed h (.unlink p i)).mpr trivial
  refine (tracks_deed hfree (.link q i)).mpr ⟨hi, fun r hr => ?_⟩
  rw [Standing.after_register] at hr
  simp only [if_true] at hr
  cases hr

theorem tracks_merge {keeper mergee : UUID} {kept : Ident → Bool} : ∀ {ids : List Ident} {v : Standing}
    {last : Ident → Option UUID}, Tracks v last → (∀ i ∈ ids, Named i) →
      Tracks (v.afterAll (WriteActions.mergeDeeds keeper mergee ids kept))
        (latestAll last (WriteActions.mergeDeeds keeper mergee ids kept))
  | [], v, last, h, _ => (tracks_deed h (.archive mergee)).mpr trivial
  | i :: ids, v, last, h, hnamed => by
    obtain ⟨hi, hids⟩ := List.forall_mem_cons.mp hnamed
    have hdeeds : WriteActions.mergeDeeds keeper mergee (i :: ids) kept = .unlink mergee i ::
        ((if kept i then [] else [.link keeper i]) ++ WriteActions.mergeDeeds keeper mergee ids kept) := by
      simp [WriteActions.mergeDeeds]
    rw [hdeeds]
    cases hkept : kept i with
    | true => exact tracks_merge ((tracks_deed h (.unlink mergee i)).mpr trivial) hids
    | false => exact tracks_merge (tracks_handover h hi) hids

theorem tracks_rest {source newId : UUID} : ∀ {rest : List Ident} {v : Standing} {last : Ident → Option UUID},
    Tracks v last → (∀ i ∈ rest, Named i) →
      Tracks (v.afterAll (rest.flatMap fun i => [.unlink source i, .link newId i]))
        (latestAll last (rest.flatMap fun i => [.unlink source i, .link newId i]))
  | [], _, _, h, _ => h
  | i :: rest, v, last, h, hnamed => by
    obtain ⟨hi, hrest⟩ := List.forall_mem_cons.mp hnamed
    exact @tracks_rest source newId rest ((v.after (.unlink source i)).after (.link newId i))
      (latest (latest last (.unlink source i)) (.link newId i)) (tracks_handover h hi) hrest

theorem latestAll_unnamed : ∀ {ds : List Deed} {last : Ident → Option UUID}, (∀ i, ¬Named i → last i = none) →
    ∀ i, ¬Named i → latestAll last ds i = none
  | [], _, h => h
  | d :: ds, last, h => @latestAll_unnamed ds (latest last d) (latest_unnamed h d)

/-- A split keeps the latest binds in step where it links named identities only: the seed is let go after it was
    proposed. -/
theorem tracks_split {source newId : UUID} {seed : Ident} {rest : List Ident} (h : Tracks v last) :
    Tracks (v.afterAll (WriteActions.splitDeeds source newId seed rest))
      (latestAll last (WriteActions.splitDeeds source newId seed rest)) ↔ ∀ i ∈ rest, Named i := by
  constructor
  · intro hafter i hi
    by_contra hnot
    have hlast := @latestAll_unnamed (WriteActions.splitDeeds source newId seed rest) last h.unnamed i hnot
    rw [hafter.register i, WriteActions.split_mem v hi, WriteActions.splitActs, if_neg hnot] at hlast
    cases hlast
  · intro hnamed
    refine tracks_rest (tracks_unlink (fun j hj => ?_) (latest_unnamed h.unnamed _)) hnamed
    rw [Standing.after_register]
    simp only [latest]
    by_cases hseed : Named seed
    · rw [if_pos hseed, Function.update_of_ne hj, if_neg fun hboth => hj hboth.2, h.register j]
    · rw [if_neg hseed, if_neg fun hboth => hseed hboth.1, h.register j]

end

/-! ### What a call leaves -/

/-- The latest binds that the fold has. -/
def lastOf (bound : Bound) : Ident → Option UUID := fun i => (bound.get? i).map Prod.snd

section
variable {py : Interp} {company : UUID} {c : Pevr} {d : Deed} {bound : Bound} {p : UUID} {i : Ident} {args : Dict}
  {tool : String} {rows : List LedgerRow}

/-- Of the four rows of a call, a fold over the calls reads the second. -/
theorem callStep_rows {σ : Type} {f : Val → Dict → σ → σ} {acc : σ} (c : Pevr) (n : ℕ) (st : Stamp) :
    (c.rows company n st).foldlM (callStep f) acc = .ok (f (.str c.tool) c.args acc) := by
  have hskip : ∀ (acc : σ) (r : LedgerRow), r.kind ≠ "execute" → callStep f acc r = .ok acc := fun acc r h => if_pos h
  have hexecute : callStep f acc ⟨st.executeId, company, n + 1 + 1, st.ts, "execute",
      .dict (c.executePayload st), st.hash 1⟩ = .ok (f (.str c.tool) c.args acc) := by
    have hargs : Dict.get (c.executePayload st) "args" = .dict c.args := rfl
    have htool : Dict.get (c.executePayload st) "tool" = .str c.tool := rfl
    rw [callStep, if_neg (by simp), orMapping_dict]
    simp only [bind, Except.bind, hargs, htool, orMapping_dict]
    rfl
  simp only [Pevr.rows, Projection.stampedRows, List.foldlM_cons, List.foldlM_nil]
  rw [hskip _ _ (by simp)]
  simp only [bind, Except.bind]
  rw [show ((1 : Fin 4) : ℕ) = 1 from rfl, hexecute]
  simp only
  rw [hskip _ _ (by simp)]
  simp only
  rw [hskip _ _ (by simp)]
  rfl

theorem truthy_str (u : UUID) : (Val.str u.str).truthy = true := by
  have hne : u.str ≠ "" := by
    intro h
    have hback := UUID.toUUID_str u
    rw [h] at hback
    cases hback
  simpa [Val.truthy] using hne

theorem lastOf_put (q : UUID) (i : Ident) : lastOf (bound.put (i, q)) = Function.update (lastOf bound) i (some q) := by
  funext j
  rw [lastOf, Table.get?_put]
  by_cases hj : j = i
  · subst hj
    rw [if_pos rfl, Function.update_self]
    rfl
  · rw [if_neg fun h => hj h.symm, Function.update_of_ne hj]
    rfl

theorem lastOf_erase (i : Ident) : lastOf (bound.erase i) = Function.update (lastOf bound) i none := by
  funext j
  rw [lastOf, Table.get?_erase]
  by_cases hj : j = i
  · subst hj
    rw [if_pos rfl, Function.update_self]
    rfl
  · rw [if_neg fun h => hj h.symm, Function.update_of_ne hj]
    rfl

/-- Both texts of a named identity count as true. -/
theorem unnamed_falsy : (!(Val.str i.1).truthy || !(Val.str i.2).truthy) = !decide (Named i) := by
  by_cases hplatform : i.1 = ""
  · simp [Val.truthy, Named, hplatform]
  · simp [Val.truthy, Named, hplatform]

theorem bindArgs_binds (hperson : Dict.get args "person_id" = .str p.str) (hplatform : Dict.get args "platform" = .str i.1)
    (hpuid : Dict.get args "platform_user_id" = .str i.2) (htool : tool = "emit_person_proposed" ∨ tool = "emit_identity_linked") :
    lastOf (bindArgs py (.str tool) args bound) = if Named i then Function.update (lastOf bound) i (some p) else lastOf bound := by
  have hbinds : ((Val.str tool).isText "emit_person_proposed" || (Val.str tool).isText "emit_identity_linked") = true := by
    rcases htool with rfl | rfl
    · rfl
    · rfl
  simp only [bindArgs, hplatform, hpuid, hperson, unnamed_falsy, hbinds, truthy_str, Val.toStr_str, UUID.toUUID_str, if_true]
  by_cases hi : Named i
  · simp only [hi, decide_true, Bool.not_true, Bool.false_eq_true, if_false, if_true]
    exact lastOf_put p i
  · simp only [hi, decide_false, Bool.not_false, if_true, if_false]

theorem bindArgs_unlinks (hplatform : Dict.get args "platform" = .str i.1)
    (hpuid : Dict.get args "platform_user_id" = .str i.2) :
    lastOf (bindArgs py (.str "emit_identity_unlinked") args bound) =
      if Named i then Function.update (lastOf bound) i none else lastOf bound := by
  have hbinds : ((Val.str "emit_identity_unlinked").isText "emit_person_proposed" ||
      (Val.str "emit_identity_unlinked").isText "emit_identity_linked") = false := rfl
  have hunlinks : (Val.str "emit_identity_unlinked").isText "emit_identity_unlinked" = true := rfl
  simp only [bindArgs, hplatform, hpuid, unnamed_falsy, hbinds, hunlinks, Val.toStr_str, if_true]
  by_cases hi : Named i
  · simp only [hi, decide_true, Bool.not_true, Bool.false_eq_true, if_false, if_true]
    exact lastOf_erase i
  · simp only [hi, decide_false, Bool.not_false, if_true, if_false]

/-- What the call of a deed does to the latest binds. -/
theorem bindArgs_does (h : Does py company c d) :
    lastOf (bindArgs py (.str c.tool) c.args bound) = latest (lastOf bound) d := by
  cases h with
  | @propose p _ _ platform puid => exact bindArgs_binds (i := (platform, puid)) rfl rfl rfl (.inl rfl)
  | @link p _ platform puid => exact bindArgs_binds (i := (platform, puid)) rfl rfl rfl (.inr rfl)
  | @unlink p _ platform puid => exact bindArgs_unlinks (i := (platform, puid)) rfl rfl
  | archive => rfl

/-! ### The hydration -/

/-- A person that was seen stays so. -/
theorem draftArgs_seen {target : String} {toolVal : Val} {draft : Draft} (h : draft.seen = true) :
    (draftArgs py target toolVal args draft).seen = true := by
  unfold draftArgs
  split
  · exact h
  · simp only
    split_ifs
    · rfl
    · rfl
    · rfl
    · split
      · rfl
      · rfl
    · exact h

/-- A call that binds an identity shows its person. -/
theorem draftArgs_does {draft : Draft} (h : Does py company c d) (hd : ∃ j, d = .propose p j ∨ d = .link p j) :
    (draftArgs py p.str (.str c.tool) c.args draft).seen = true := by
  obtain ⟨j, hd⟩ := hd
  have hsame : ∀ args : Dict, Dict.get args "person_id" = .str p.str → ¬(Dict.get args "person_id").text py ≠ p.str := by
    intro args hperson
    rw [hperson, Val.text_str]
    exact not_not.mpr rfl
  cases h with
  | @propose q =>
    obtain rfl : q = p := by
      rcases hd with hd | hd
      · exact (Deed.propose.inj hd).1
      · cases hd
    rw [draftArgs, if_neg (hsame _ rfl)]
    rfl
  | @link q =>
    obtain rfl : q = p := by
      rcases hd with hd | hd
      · cases hd
      · exact (Deed.link.inj hd).1
    rw [draftArgs, if_neg (hsame _ rfl)]
    rfl
  | unlink | archive =>
    rcases hd with hd | hd
    · cases hd
    · cases hd

/-- Who is bound after a deed was bound before or by it. -/
theorem latest_from {last : Ident → Option UUID} (h : latest last d i = some p) :
    last i = some p ∨ ∃ j, d = .propose p j ∨ d = .link p j := by
  have hupdate : ∀ {j : Ident} {w : Option UUID}, Function.update last j w i = some p → last i = some p ∨ w = some p := by
    intro j w hw
    by_cases hj : i = j
    · subst hj
      rw [Function.update_self] at hw
      exact .inr hw
    · rw [Function.update_of_ne hj] at hw
      exact .inl hw
  cases d with
  | propose q j =>
    simp only [latest] at h
    split at h
    · exact (hupdate h).imp_right fun hq => ⟨j, .inl (by rw [Option.some.inj hq])⟩
    · exact .inl h
  | link q j =>
    simp only [latest] at h
    split at h
    · exact (hupdate h).imp_right fun hq => ⟨j, .inr (by rw [Option.some.inj hq])⟩
    · exact .inl h
  | unlink q j =>
    simp only [latest] at h
    split at h
    · exact .inl ((hupdate h).resolve_right fun hq => by cases hq)
    · exact .inl h
  | archive q => exact .inl h

end

/-! ### Ledgers of the actions -/

/-- The resolver reads the ledger next to both other folds. -/
structure Resolving (py : Interp) (company : UUID) (rows : List LedgerRow) (s : State) (att : UUID → Attached)
    (bound : Bound) : Prop where
  reads : Reads py company rows s att
  sorted : rows.Pairwise fun a b => a.seq ≤ b.seq
  seqs : ∀ r ∈ rows, r.seq ≤ rows.length
  folds : rows.foldlM (callStep (bindArgs py)) .empty = .ok bound
  unnamed : ∀ i, ¬Named i → lastOf bound i = none
  hydrated : ∀ i p, lastOf bound i = some p → ∃ draft : Draft,
    rows.foldlM (callStep (draftArgs py p.str)) .blank = .ok draft ∧ draft.seen = true
  drafted : ∀ p : UUID, ∃ draft, rows.foldlM (callStep (draftArgs py p.str)) .blank = .ok draft

section
variable {py : Interp} {company : UUID} {stamp : ℕ → Stamp} {rows : List LedgerRow} {s : State} {att : UUID → Attached}
  {bound : Bound} {c : Pevr} {d : Deed}

theorem resolving_nil : Resolving py company [] Projection.initialProjectionState (fun _ => .empty) .empty :=
  ⟨WriteActions.reads_nil, .nil, fun _ h => absurd h List.not_mem_nil, rfl, fun _ _ => rfl,
    fun _ _ h => (by cases h), fun _ => ⟨_, rfl⟩⟩

theorem call_seqs (c : Pevr) (n : ℕ) (st : Stamp) : (c.rows company n st).Pairwise (fun a b => a.seq ≤ b.seq) ∧
    ∀ r ∈ c.rows company n st, n < r.seq ∧ r.seq ≤ n + 4 := by
  constructor
  · simp [Pevr.rows, Projection.stampedRows]
  · simp only [Pevr.rows, Projection.stampedRows, List.forall_mem_cons, List.not_mem_nil, false_imp_iff, implies_true, and_true]
    refine ⟨?_, ?_, ?_, ?_⟩ <;> constructor <;> simp <;> omega

theorem Resolving.does (h : Resolving py company rows s att bound) (hd : Does py company c d) (st : Stamp) :
    ∃ s' att' bound', Resolving py company (rows ++ c.rows company rows.length st) s' att' bound' ∧
      standing company (s' .people) att' = (standing company (s .people) att).after d ∧
      lastOf bound' = latest (lastOf bound) d := by
  obtain ⟨s', att', hreads, hstanding⟩ := h.reads.does hd st
  obtain ⟨hsorted, hseqs⟩ := @call_seqs company c rows.length st
  have hfold : ∀ {σ : Type} {f : Val → Dict → σ → σ} {start acc : σ}, rows.foldlM (callStep f) start = .ok acc →
      (rows ++ c.rows company rows.length st).foldlM (callStep f) start = .ok (f (.str c.tool) c.args acc) := by
    intro σ f start acc hacc
    rw [List.foldlM_append, hacc]
    exact callStep_rows c _ _
  have hlast := @bindArgs_does py company c d bound hd
  refine ⟨s', att', bindArgs py (.str c.tool) c.args bound, ⟨hreads, ?_, fun r hr => ?_, hfold h.folds, ?_,
    fun i p hp => ?_, fun p => ?_⟩, hstanding, hlast⟩
  · refine List.pairwise_append.mpr ⟨h.sorted, hsorted, fun a ha b hb => ?_⟩
    have hbelow := h.seqs a ha
    have habove := (hseqs b hb).1
    omega
  · have hlen : (c.rows company rows.length st).length = 4 := rfl
    rw [List.length_append, hlen]
    rcases List.mem_append.mp hr with hr | hr
    · exact Nat.le_add_right_of_le (h.seqs r hr)
    · exact (hseqs r hr).2
  · rw [hlast]
    exact latest_unnamed h.unnamed d
  · rw [hlast] at hp
    rcases latest_from hp with hold | hnew
    · obtain ⟨draft, hdraft, hseen⟩ := h.hydrated i p hold
      exact ⟨_, hfold hdraft, draftArgs_seen hseen⟩
    · obtain ⟨draft, hdraft⟩ := h.drafted p
      exact ⟨_, hfold hdraft, draftArgs_does hd hnew⟩
  · obtain ⟨draft, hdraft⟩ := h.drafted p
    exact ⟨_, hfold hdraft⟩

theorem Resolving.writes {calls : List Pevr} {deeds : List Deed} (hcalls : List.Forall₂ (Does py company) calls deeds)
    (h : Resolving py company rows s att bound) : ∃ s' att' bound',
      Resolving py company (writeAll company stamp rows calls) s' att' bound' ∧
        standing company (s' .people) att' = (standing company (s .people) att).afterAll deeds ∧
        lastOf bound' = latestAll (lastOf bound) deeds := by
  induction hcalls generalizing rows s att bound with
  | nil => exact ⟨s, att, bound, h, rfl, rfl⟩
  | cons hc _ ih =>
    obtain ⟨s₁, att₁, bound₁, h₁, hstanding₁, hlast₁⟩ := h.does hc (stamp rows.length)
    obtain ⟨s', att', bound', h', hstanding, hlast⟩ := ih h₁
    refine ⟨s', att', bound', h', ?_, ?_⟩
    · rw [hstanding, hstanding₁]
      rfl
    · rw [hlast, hlast₁]
      rfl

/-- What the resolver finds are the latest binds. -/
theorem Resolving.resolves (h : Resolving py company rows s att bound) (i : Ident) : ∃ found,
    resolvePlatformId py rows i.1 i.2 = .ok found ∧ found.map Resolved.personId = lastOf bound i := by
  have hsort : (rows.mergeSort fun a b => decide (a.seq ≤ b.seq)) = rows :=
    List.mergeSort_of_pairwise (h.sorted.imp fun hle => decide_eq_true hle)
  simp only [resolvePlatformId, hsort, h.folds, bind, Except.bind]
  cases hget : bound.get? i with
  | none => exact ⟨none, rfl, by rw [lastOf, hget]; rfl⟩
  | some kp =>
    obtain ⟨k, p⟩ := kp
    have hlast : lastOf bound i = some p := by
      rw [lastOf, hget]
      rfl
    obtain ⟨draft, hdraft, hseen⟩ := h.hydrated i p hlast
    refine ⟨some ⟨p, draft.name.or (.str "Unknown"), draft.email, draft.platform, draft.platformUserId,
      draft.preferences⟩, ?_, hlast.symm⟩
    simp only [hydratePersonFromRows, hdraft, hseen, bind, Except.bind]
    rfl

theorem Resolving.agrees_iff (h : Resolving py company rows s att bound) :
    ResolverAgrees py rows ↔ Tracks (standing company (s .people) att) (lastOf bound) := by
  obtain ⟨p, hp, hassigns, -⟩ := h.reads.projections
  constructor
  · rintro ⟨p', hp', hall⟩
    obtain rfl := Except.ok.inj (hp.symm.trans hp')
    refine ⟨fun i => Option.ext fun q => ?_, h.unnamed⟩
    obtain ⟨found, hfound, hperson⟩ := hall i
    obtain ⟨found', hfound', hlast⟩ := h.resolves i
    obtain rfl := Except.ok.inj (hfound.symm.trans hfound')
    rw [← hassigns, hperson, hlast]
  · intro htracks
    refine ⟨p, hp, fun i => ?_⟩
    obtain ⟨found, hfound, hlast⟩ := h.resolves i
    refine ⟨found, hfound, fun q => ?_⟩
    rw [hassigns, hlast, htracks.register i]

/-- A request keeps the resolver agreeing exactly where it finds what it must. -/
theorem Resolving.agrees_perform (h : Resolving py company rows s att bound) (hagrees : ResolverAgrees py rows)
    (r : Request) : ResolverAgrees py (WriteActions.perform py company stamp rows r) ↔ Resolves py rows r := by
  have htracks := h.agrees_iff.mp hagrees
  by_cases hr : Refused r.action
  · rw [WriteActions.perform_refused hr]
    exact ⟨fun _ => .inl hr, fun _ => hagrees⟩
  rw [Resolves, or_iff_right hr]
  cases hsilent : r.silent with
  | some refId =>
    constructor
    · rintro ⟨p, hp, -⟩
      obtain ⟨s', hs', -⟩ := Projection.projectionsOf_ok hp
      exact absurd hs' (WriteActions.perform_silent h.reads hr hsilent s')
    · rintro ⟨hnone, -⟩
      cases hnone
  | none =>
    obtain ⟨action, silent⟩ := r
    obtain rfl : silent = none := hsilent
    rw [and_iff_right rfl, WriteActions.perform]
    have hmany : ∀ {calls : List Pevr} {deeds : List Deed}, List.Forall₂ (Does py company) calls deeds →
        (ResolverAgrees py (writeAll company stamp rows calls) ↔
          Tracks ((standing company (s .people) att).afterAll deeds) (latestAll (lastOf bound) deeds)) := by
      intro calls deeds hcalls
      obtain ⟨s', att', bound', h', hstanding, hlast⟩ := @Resolving.writes py company stamp rows s att bound calls deeds hcalls h
      rw [← hstanding, ← hlast]
      exact h'.agrees_iff
    cases action with
    | proposePerson p name email platform puid position by' =>
      refine (hmany (.cons (.propose rfl) .nil)).trans ((tracks_deed htracks _).trans ?_)
      simp only [Resolvable, h.reads.onlyHeldBy_iff]
    | linkIdentity p platform puid by' =>
      refine (hmany (.cons .link .nil)).trans ((tracks_deed htracks _).trans ?_)
      simp only [Resolvable, h.reads.onlyHeldBy_iff]
    | unlinkIdentity p platform puid by' => exact (hmany (.cons .unlink .nil)).trans (tracks_deed htracks _)
    | archivePerson p by' reason => exact (hmany (.cons .archive .nil)).trans (tracks_deed htracks _)
    | mergePersons keeper mergee by' =>
      obtain ⟨ids, kept, hdoes, hnamed, -⟩ := h.reads.mergeDoes by' hr
      exact (hmany hdoes).trans (iff_of_true (tracks_merge htracks hnamed) trivial)
    | splitPerson source newId name email position items by' =>
      simp only [Refused, not_forall, not_not] at hr
      obtain ⟨seed, rest, hitems⟩ := hr
      refine (hmany (WriteActions.splitPerson_does hitems)).trans ((tracks_split htracks).trans ?_)
      simp only [Resolvable, hitems, Except.ok.injEq, List.cons.injEq]
      constructor
      · rintro hnamed _ _ ⟨rfl, rfl⟩
        exact hnamed
      · exact fun hall => hall seed rest ⟨rfl, rfl⟩

/-! ### Runs -/

/-- A ledger that the resolver and both other folds read, or one without a projection. -/
def KeptBound (py : Interp) (company : UUID) (rows : List LedgerRow) : Prop :=
  (∃ s att bound, Resolving py company rows s att bound) ∨ Stopped py rows

theorem stopped_perform (h : Stopped py rows) (r : Request) : Stopped py (WriteActions.perform py company stamp rows r) := by
  rw [WriteActions.perform]
  cases r.silent with
  | none =>
    obtain ⟨new, hnew⟩ := @WriteActions.writeAll_append company stamp (r.action.outcome py company rows).calls rows
    exact hnew ▸ h.append new
  | some refId => exact h.append _

theorem KeptBound.perform (h : KeptBound py company rows) (r : Request) :
    KeptBound py company (WriteActions.perform py company stamp rows r) := by
  rcases h with ⟨s, att, bound, h⟩ | h
  · by_cases hr : Refused r.action
    · rw [WriteActions.perform_refused hr]
      exact .inl ⟨s, att, bound, h⟩
    · cases hsilent : r.silent with
      | none =>
        obtain ⟨deeds, -, hcalls⟩ := h.reads.calls hr
        obtain ⟨s', att', bound', h', -⟩ := @Resolving.writes py company stamp rows s att bound _ deeds hcalls h
        simp only [WriteActions.perform, hsilent]
        exact .inl ⟨s', att', bound', h'⟩
      | some refId => exact .inr (WriteActions.perform_silent h.reads hr hsilent)
  · exact .inr (stopped_perform h r)

theorem resolverAgrees_nil (company : UUID) : ResolverAgrees py [] :=
  (@resolving_nil py company).agrees_iff.mpr ⟨fun _ => rfl, fun _ _ => rfl⟩

end

/-- The resolver and the projection name the same person for every identity, after every action of a run, exactly
    when every action finds what it must. -/
theorem resolver_agrees_iff (py : Interp) (company : UUID) (stamp : ℕ → Stamp) (acts : List Request) :
    Run.Always (WriteActions.step py company stamp) (ResolverAgrees py) [] acts ↔
      Run.Guarded (WriteActions.step py company stamp) (Resolves py) [] acts := by
  obtain ⟨rows', hrun⟩ := @Run.exec_total _ _ (WriteActions.step py company stamp) (fun _ _ => ⟨_, rfl⟩) acts []
  refine Run.always_iff_guarded (I := KeptBound py company) ?_ ?_ (.inl ⟨_, _, _, resolving_nil⟩)
    (resolverAgrees_nil company) hrun
  · rintro rows r rows' hkept ⟨⟩
    exact hkept.perform r
  · rintro rows r rows' (⟨s, att, bound, h⟩ | hstopped) hagrees ⟨⟩
    · exact h.agrees_perform hagrees r
    · obtain ⟨p, hp, -⟩ := hagrees
      obtain ⟨s, hs, -⟩ := Projection.projectionsOf_ok hp
      exact absurd hs (hstopped s)

end IdentityTracker
