import Wormbase.Lib.Run
import Wormbase.WriteActions.Requests

/-! The identities that the projection assigns to a person, against those that the actions fold.

    Both keep agreeing as long as nobody takes or releases what another person has. A split takes its
    seed for the new person while the source has it, and its unlink then clears the row. -/

namespace WriteActions
open Py Projection

/-- Both views give every person the same identities. -/
def ViewsAgree (py : Interp) (rows : List LedgerRow) : Prop :=
  ∃ p, projectionsOf py rows = .ok p ∧ ∀ person, ∃ ids,
    currentIdentitiesForPerson rows person = .ok ids ∧
      ∀ k, k ∈ ids ↔ ∃ i, k = key i ∧ Assigns p person i

/-- Whoever the projection gives the identity to is one of these. -/
def OnlyHeldBy (py : Interp) (rows : List LedgerRow) (persons : Set UUID) (i : Ident) : Prop :=
  ∀ p q, projectionsOf py rows = .ok p → Assigns p q i → q ∈ persons

/-- What an action must find so that the views agree after it. -/
def WriteAction.Fits (py : Interp) (rows : List LedgerRow) : WriteAction → Prop
  | .proposePerson p _ _ platform puid _ _ =>
    Named (platform, puid) → OnlyHeldBy py rows {p} (platform, puid)
  | .linkIdentity p platform puid _ => Named (platform, puid) ∧ OnlyHeldBy py rows {p} (platform, puid)
  | .unlinkIdentity p platform puid _ => OnlyHeldBy py rows {p} (platform, puid)
  | .archivePerson .. => True
  | .mergePersons .. => True
  | .splitPerson source newId _ _ _ items _ => ∀ seed rest, normalised items = .ok (seed :: rest) →
      (∀ i ∈ rest, Named i ∧ OnlyHeldBy py rows {source, newId} i) ∧
        (Named seed → (seed ∈ rest ∨ newId = source) ∧ OnlyHeldBy py rows {source, newId} seed)

/-- A request that is refused, or one outside silent mode that finds what it must. -/
def Fits (py : Interp) (rows : List LedgerRow) (r : Request) : Prop :=
  Refused r.action ∨ r.silent = none ∧ r.action.Fits py rows

section
variable {py : Interp} {company : UUID} {stamp : ℕ → Stamp} {rows : List LedgerRow} {s : State}
  {att : UUID → Attached}

theorem Reads.viewsAgree_iff (h : Reads py company rows s att) :
    ViewsAgree py rows ↔ ∀ i, ((standing company (s .people) att).holding i).Agree := by
  obtain ⟨p, hp, hassigns, -⟩ := h.projections
  constructor
  · rintro ⟨p', hp', hall⟩ i q
    obtain rfl := Except.ok.inj (hp.symm.trans hp')
    obtain ⟨ids, hids, hmem⟩ := hall q
    obtain ⟨is, his, -, -, hmem'⟩ := h.identitiesOf q
    obtain rfl := Except.ok.inj (hids.symm.trans his)
    rw [← hassigns, ← hmem', ← List.mem_map_of_injective key_injective, hmem]
    constructor
    · exact fun hi => ⟨i, rfl, hi⟩
    · rintro ⟨j, hj, hi⟩
      exact key_injective hj ▸ hi
  · intro hagree
    refine ⟨p, hp, fun q => ?_⟩
    obtain ⟨is, his, -, -, hmem⟩ := h.identitiesOf q
    refine ⟨is.map key, his, fun k => ?_⟩
    rw [List.mem_map]
    constructor
    · rintro ⟨i, hi, rfl⟩
      exact ⟨i, rfl, (hassigns q i).mpr ((hagree i q).mpr ((hmem i).mp hi))⟩
    · rintro ⟨i, rfl, hi⟩
      exact ⟨i, (hmem i).mpr ((hagree i q).mp ((hassigns q i).mp hi)), rfl⟩

theorem Reads.onlyHeldBy_iff (h : Reads py company rows s att) {ps : Set UUID} {i : Ident} :
    OnlyHeldBy py rows ps i ↔ ((standing company (s .people) att).holding i).Within ps := by
  obtain ⟨p, hp, hassigns, -⟩ := h.projections
  constructor
  · exact fun hheld q hq => hheld p q hp ((hassigns q i).mpr hq)
  · intro hwithin p' q hp' hq
    obtain rfl := Except.ok.inj (hp.symm.trans hp')
    exact hwithin q ((hassigns q i).mp hq)

/-- Nobody has an identity without a name. -/
theorem Reads.accounts_empty (h : Reads py company rows s att) {i : Ident} (hi : ¬Named i) :
    ((standing company (s .people) att).holding i).accounts = ∅ := by
  refine Set.eq_empty_iff_forall_notMem.mpr fun q hq => hi ?_
  obtain ⟨hmem, -⟩ := Table.get?_eq_some_iff.mp hq
  obtain ⟨j, hj, hnamed⟩ := h.named q _ hmem
  exact key_injective hj ▸ hnamed

theorem within_singleton {c : Cell UUID} {p : UUID} : c.Within {p} ↔ c.Free p := Iff.rfl

/-! ### One request -/

theorem deed_agree {v : Standing} (hagree : ∀ i, (v.holding i).Agree)
    (hempty : ∀ i, ¬Named i → (v.holding i).accounts = ∅) : (d : Deed) →
      ((∀ i, ((v.after d).holding i).Agree) ↔ match d with
        | .propose p i => Named i → (v.holding i).Within {p}
        | .link p i => Named i ∧ (v.holding i).Within {p}
        | .unlink p i => (v.holding i).Within {p}
        | .archive _ => True)
  | .propose p i => by
    by_cases hi : Named i
    · have hmoves : (Deed.propose p i).moves = [(i, .take p)] := if_pos hi
      rw [Standing.after, hmoves]
      refine (Holding.agree_move hagree).trans ((Cell.agree_take (hagree i)).trans ?_)
      exact ⟨fun hfree _ => hfree, fun hwithin => hwithin hi⟩
    · have hmoves : (Deed.propose p i).moves = [] := if_neg hi
      rw [Standing.after, hmoves]
      exact ⟨fun _ hi' => absurd hi' hi, fun _ => hagree⟩
  | .link p i => by
    refine (Holding.agree_move hagree).trans ?_
    by_cases hi : Named i
    · rw [if_pos hi, Cell.agree_take (hagree i)]
      exact ⟨fun hfree => ⟨hi, hfree⟩, fun hlink => hlink.2⟩
    · rw [if_neg hi]
      exact ⟨fun hnote => absurd hnote (Cell.agree_note (hagree i) (hempty i hi)),
        fun hlink => absurd hlink.1 hi⟩
  | .unlink p i => (Holding.agree_move hagree).trans (Cell.agree_release (hagree i))
  | .archive p => ⟨fun _ => trivial, fun _ => hagree⟩

section
variable {v : Standing} {source newId : UUID} {seed i : Ident} {rest : List Ident}

/-- What a split does to an identity after the seed leaves the two records agreeing. -/
theorem rest_agree (hagree : (v.holding i).Agree) (hempty : ¬Named i → (v.holding i).accounts = ∅)
    (hrest : i ∈ rest) : ((v.afterAll (splitDeeds source newId seed rest)).holding i).Agree ↔
      Named i ∧ (v.holding i).Within {source, newId} := by
  rw [split_mem v hrest, seedCell]
  by_cases hi : Named i
  · have hacts : splitActs source newId i = [.release source, .take newId] := by
      rw [splitActs, if_pos hi]
    rw [hacts, and_iff_right hi]
    split
    · rename_i hseed
      have hseedActs : seedActs source newId seed = [.take newId, .release source] := if_pos (hseed ▸ hi)
      rw [hseedActs]
      exact Cell.agree_takeover_handover hagree
    · exact Cell.agree_handover hagree
  · -- the identity is put into the register, and the accounts never have it
    have hacts : splitActs source newId i = [.release source, .note newId] := by
      rw [splitActs, if_neg hi]
    have hregister : (v.holding i).register = none :=
      Option.eq_none_iff_forall_ne_some.mpr fun q hq => by simpa [hempty hi] using (hagree q).mp hq
    have hcell : (if i = seed then (seedActs source newId seed).foldl Cell.act (v.holding i)
        else v.holding i) = ⟨none, ∅⟩ := by
      refine (ite_eq_iff.mpr ?_)
      by_cases hseed : i = seed
      · refine .inl ⟨hseed, ?_⟩
        rw [seedActs, if_neg (hseed ▸ hi)]
        refine Cell.ext rfl ?_
        simp [hempty hi]
      · exact .inr ⟨hseed, Cell.ext hregister (hempty hi)⟩
    rw [hacts, hcell]
    refine ⟨fun h => ?_, fun h => absurd h.1 hi⟩
    have hnote : (Cell.act ⟨none, ∅⟩ (.note newId)).Agree := by simpa using h
    exact absurd hnote (Cell.agree_note (by simp [Cell.Agree]) rfl)

/-- Where the seed is not listed again, it must have been the new person's already. -/
theorem seed_agree (hagree : (v.holding seed).Agree)
    (hempty : ¬Named seed → (v.holding seed).accounts = ∅) (hrest : seed ∉ rest) :
    ((v.afterAll (splitDeeds source newId seed rest)).holding seed).Agree ↔
      (Named seed → newId = source ∧ (v.holding seed).Within {source, newId}) := by
  rw [split_not_mem v hrest, seedCell, if_pos rfl]
  by_cases hi : Named seed
  · have hacts : seedActs source newId seed = [.take newId, .release source] := if_pos hi
    rw [hacts]
    refine (Cell.agree_takeover hagree).trans ?_
    exact ⟨fun h _ => h, fun h => h hi⟩
  · have hacts : seedActs source newId seed = [.release source] := if_neg hi
    rw [hacts]
    refine (Cell.agree_release hagree).trans ⟨fun _ hi' => absurd hi' hi, fun _ q hq => ?_⟩
    simpa [hempty hi] using (hagree q).mp hq

theorem split_agree (hagree : ∀ i, (v.holding i).Agree)
    (hempty : ∀ i, ¬Named i → (v.holding i).accounts = ∅) :
    (∀ i, ((v.afterAll (splitDeeds source newId seed rest)).holding i).Agree) ↔
      (∀ i ∈ rest, Named i ∧ (v.holding i).Within {source, newId}) ∧ (Named seed →
        (seed ∈ rest ∨ newId = source) ∧ (v.holding seed).Within {source, newId}) := by
  constructor
  · intro hall
    have hrest : ∀ i ∈ rest, Named i ∧ (v.holding i).Within {source, newId} := fun i hi =>
      (rest_agree (hagree i) (hempty i) hi).mp (hall i)
    refine ⟨hrest, fun hseed => ?_⟩
    by_cases hmem : seed ∈ rest
    · exact ⟨.inl hmem, (hrest seed hmem).2⟩
    · have hnew := (seed_agree (hagree seed) (hempty seed) hmem).mp (hall seed) hseed
      exact ⟨.inr hnew.1, hnew.2⟩
  · rintro ⟨hrest, hseed⟩ i
    by_cases hmem : i ∈ rest
    · exact (rest_agree (hagree i) (hempty i) hmem).mpr (hrest i hmem)
    · by_cases hi : i = seed
      · subst hi
        refine (seed_agree (hagree i) (hempty i) hmem).mpr fun hnamed => ?_
        exact ⟨(hseed hnamed).1.resolve_left hmem, (hseed hnamed).2⟩
      · rw [split_not_mem v hmem, seedCell, if_neg hi]
        exact hagree i

end

/-- After a merge the records agree where they did before. -/
theorem merge_agree {keeper mergee : UUID} {c c' : Cell UUID} (hagree : c.Agree)
    (hout : mergee ∉ c.accounts → c' = c)
    (hkept : mergee ∈ c.accounts → keeper ∈ c.accounts → c' = c.act (.release mergee))
    (hmoved : mergee ∈ c.accounts → keeper ∉ c.accounts →
      c' = (c.act (.release mergee)).act (.take keeper)) : c'.Agree := by
  by_cases hmergee : mergee ∈ c.accounts
  · by_cases hkeeper : keeper ∈ c.accounts
    · rw [hkept hmergee hkeeper]
      exact Cell.agree_release_of_mem hagree hmergee
    · rw [hmoved hmergee hkeeper, Cell.agree_handover hagree]
      intro q hq
      rw [hagree.mem.mp hmergee] at hq
      exact .inl (Option.some.inj hq).symm
  · rw [hout hmergee]
    exact hagree

/-- A request keeps the views agreeing exactly where it fits. -/
theorem Reads.viewsAgree_perform (h : Reads py company rows s att) (hviews : ViewsAgree py rows)
    (r : Request) : ViewsAgree py (perform py company stamp rows r) ↔ Fits py rows r := by
  have hagree := h.viewsAgree_iff.mp hviews
  have hempty := fun i (hi : ¬Named i) => h.accounts_empty hi
  by_cases hr : Refused r.action
  · rw [perform_refused hr]
    exact ⟨fun _ => .inl hr, fun _ => hviews⟩
  rw [Fits, or_iff_right hr]
  cases hsilent : r.silent with
  | some refId =>
    refine ⟨fun hafter => ?_, fun hafter => nomatch hafter.1⟩
    obtain ⟨p, hp, -⟩ := hafter
    obtain ⟨s', hs', -⟩ := projectionsOf_ok hp
    exact absurd hs' (perform_silent h hr hsilent s')
  | none =>
    obtain ⟨action, silent⟩ := r
    obtain rfl : silent = none := hsilent
    rw [and_iff_right rfl, perform]
    -- a single call is one deed
    have hsingle : ∀ {c : Pevr} {d : Deed}, Does py company c d →
        (ViewsAgree py (writeAll company stamp rows [c]) ↔
          ∀ i, (((standing company (s .people) att).after d).holding i).Agree) := by
      intro c d hd
      obtain ⟨s', att', h', hstanding⟩ := h.does hd (stamp rows.length)
      rw [← hstanding]
      exact h'.viewsAgree_iff
    cases action with
    | proposePerson p name email platform puid position by' =>
      refine (hsingle (.propose rfl)).trans ((deed_agree hagree hempty _).trans ?_)
      simp only [WriteAction.Fits, h.onlyHeldBy_iff]
    | linkIdentity p platform puid by' =>
      refine (hsingle .link).trans ((deed_agree hagree hempty _).trans ?_)
      simp only [WriteAction.Fits, h.onlyHeldBy_iff]
    | unlinkIdentity p platform puid by' =>
      refine (hsingle .unlink).trans ((deed_agree hagree hempty _).trans ?_)
      simp only [WriteAction.Fits, h.onlyHeldBy_iff]
    | archivePerson p by' reason =>
      exact (hsingle .archive).trans (deed_agree hagree hempty _)
    | mergePersons keeper mergee by' =>
      refine ⟨fun _ => trivial, fun _ => ?_⟩
      obtain ⟨ids, kept, hdoes, hnamed, hids, hkids⟩ := h.mergeDoes by' hr
      obtain ⟨s', att', h', hstanding⟩ := h.writes hdoes
      refine h'.viewsAgree_iff.mpr fun i => ?_
      obtain ⟨hout, hkept, hmoved⟩ := merge_cells _ hnamed hids hkids i
      rw [hstanding]
      exact merge_agree (hagree i) hout hkept hmoved
    | splitPerson source newId name email position items by' =>
      simp only [Refused, not_forall, not_not] at hr
      obtain ⟨seed, rest, hitems⟩ := hr
      obtain ⟨s', att', h', hstanding⟩ := h.writes (splitPerson_does hitems)
      refine h'.viewsAgree_iff.trans ?_
      rw [hstanding, split_agree hagree hempty]
      simp only [WriteAction.Fits, hitems, Except.ok.injEq, List.cons.injEq, h.onlyHeldBy_iff]
      constructor
      · rintro hsplit _ _ ⟨rfl, rfl⟩
        exact hsplit
      · exact fun hsplit => hsplit seed rest ⟨rfl, rfl⟩

/-! ### Runs -/

theorem viewsAgree_nil (company : UUID) : ViewsAgree py [] := by
  refine (@reads_nil py company).viewsAgree_iff.mpr fun i q => ⟨fun h => ?_, fun h => ?_⟩
  · cases h
  · cases h

theorem always_viewsAgree (acts : List Request) :
    Run.Always (step py company stamp) (ViewsAgree py) [] acts ↔
      Run.Guarded (step py company stamp) (Fits py) [] acts := by
  obtain ⟨rows', hrun⟩ := @Run.exec_total _ _ (step py company stamp) (fun _ _ => ⟨_, rfl⟩) acts []
  refine Run.always_iff_guarded (I := Kept py company) ?_ ?_ kept_nil (viewsAgree_nil company) hrun
  · rintro rows r rows' hkept ⟨⟩
    exact hkept.perform r
  · rintro rows r rows' (⟨s, att, h⟩ | hstopped) hviews ⟨⟩
    · exact h.viewsAgree_perform hviews r
    · obtain ⟨p, hp, -⟩ := hviews
      obtain ⟨s, hs, -⟩ := projectionsOf_ok hp
      exact absurd hs (hstopped s)

end

/-- The two views agree after every action of a run exactly when every action fits. -/
theorem viewsAgree_iff_fits (py : Interp) (company : UUID) (stamp : ℕ → Stamp) (acts : List Request) :
    Run.Always (step py company stamp) (ViewsAgree py) [] acts ↔
      Run.Guarded (step py company stamp) (Fits py) [] acts := always_viewsAgree acts

/-- A person with one identity, and a split that moves it. -/
def sampleSplit : List Request :=
  [⟨.proposePerson ⟨7⟩ "Ada" none "slack" "U1" none "discovery", none⟩,
    ⟨.splitPerson ⟨7⟩ ⟨8⟩ "Ada B." none none [.pair "slack" "U1"] ⟨9⟩, none⟩]

theorem sampleSplit_disagrees :
    ¬Run.Always (step .plain ⟨1⟩ fun _ => instantStamp) (ViewsAgree .plain) [] sampleSplit := by
  rw [always_viewsAgree]
  rintro ⟨-, hall⟩
  obtain ⟨hsplit, -⟩ := hall _ rfl
  rcases hsplit with hrefused | ⟨-, hfits⟩
  · exact hrefused ("slack", "U1") [] rfl
  · obtain ⟨-, hseed⟩ := hfits ("slack", "U1") [] rfl
    rcases (hseed ⟨by simp, by simp⟩).1 with hmem | hsame
    · exact nomatch hmem
    · exact absurd hsame (by decide)

end WriteActions
