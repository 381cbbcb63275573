import Wormbase.Lib.Run
import Wormbase.WriteActions.Requests

/-! Merges and splits move identities in the projection, and every identity has one live person.

    A split that lists its seed once loses it: the proposal of the new person leaves the row with the
    source, and the unlink clears it. -/

namespace WriteActions
open Py Projection

/-- What a merge or a split does to the identities that the projection had. -/
def WriteAction.Conserves (p p' : Projections) : WriteAction → Prop
  | .mergePersons keeper mergee _ =>
    keeper ≠ mergee → ∀ i, Assigns p keeper i ∨ Assigns p mergee i → Assigns p' keeper i
  | .splitPerson source newId _ _ _ items _ => ∀ seed rest, normalised items = .ok (seed :: rest) →
      (∀ i ∈ seed :: rest, Assigns p' newId i) ∧
        ∀ i, i ∉ seed :: rest → Assigns p source i → Assigns p' source i
  | .proposePerson .. | .linkIdentity .. | .unlinkIdentity .. | .archivePerson .. => True

/-- Each identity belongs to one person, and that one is not archived. -/
def EachLive (p : Projections) : Prop :=
  ∀ q i, Assigns p q i → Alive p q ∧ ∀ q', Assigns p q' i → q' = q

/-- The ledger has a projection where each identity has one live person. -/
def LiveOn (py : Interp) (rows : List LedgerRow) : Prop :=
  ∃ p, projectionsOf py rows = .ok p ∧ EachLive p

section
variable (py : Interp) (company : UUID) (stamp : ℕ → Stamp)

/-- A request that moves what it should, with one live person for each identity all the way. -/
structure Conserved (rows : List LedgerRow) (r : Request) (rows' : List LedgerRow) : Prop where
  moved : ∃ p p', projectionsOf py rows = .ok p ∧ projectionsOf py rows' = .ok p' ∧
    r.action.Conserves p p'
  live : LiveOn py rows'
  between : r.silent = none → ∀ calls, calls <+: (r.action.outcome py company rows).calls →
    LiveOn py (writeAll company stamp rows calls)

end

/-! ### What a request must find -/

/-- The projection gives the identity to the person. -/
def Gives (py : Interp) (rows : List LedgerRow) (person : UUID) (i : Ident) : Prop :=
  ∃ p, projectionsOf py rows = .ok p ∧ Assigns p person i

def Lives (py : Interp) (rows : List LedgerRow) (person : UUID) : Prop :=
  ∃ p, projectionsOf py rows = .ok p ∧ Alive p person

/-- The fold of the person returns the identity. -/
def Sees (rows : List LedgerRow) (person : UUID) (i : Ident) : Prop :=
  ∃ ids, currentIdentitiesForPerson rows person = .ok ids ∧ key i ∈ ids

/-- What an action must find: a link somebody alive, an archive nobody's holder, a merge two folds
    that see what the projection gives, each identity in one of them, and a split its seed twice. -/
def WriteAction.Keeps (py : Interp) (rows : List LedgerRow) : WriteAction → Prop
  | .proposePerson .. => True
  | .linkIdentity p platform puid _ =>
    Lives py rows p ∨ ∃ q, Gives py rows q (platform, puid)
  | .unlinkIdentity .. => True
  | .archivePerson p _ _ => ∀ i, ¬Gives py rows p i
  | .mergePersons keeper mergee _ => ∀ i,
      (Gives py rows mergee i → Sees rows mergee i ∧ ¬Sees rows keeper i) ∧
      (Gives py rows keeper i → ¬(Sees rows mergee i ∧ Sees rows keeper i)) ∧
      (Sees rows mergee i → ¬Sees rows keeper i → Lives py rows keeper)
  | .splitPerson _ _ _ _ _ items _ => ∀ seed rest, normalised items = .ok (seed :: rest) → seed ∈ rest

def Keeps (py : Interp) (rows : List LedgerRow) (r : Request) : Prop :=
  Refused r.action ∨ r.silent = none ∧ r.action.Keeps py rows

/-! ### Standings with live holders -/

/-- Whoever is in the register is live. -/
def Standing.HoldersLive (v : Standing) : Prop := ∀ i q, (v.holding i).register = some q → q ∈ v.live

section
variable {v : Standing}

theorem deed_live (hlive : v.HoldersLive) : (d : Deed) → ((v.after d).HoldersLive ↔ match d with
    | .propose _ _ | .unlink _ _ => True
    | .link p i => p ∈ v.live ∨ ∃ q, (v.holding i).register = some q
    | .archive p => ∀ i, (v.holding i).register ≠ some p)
  | .propose p i => by
    refine ⟨fun _ => trivial, fun _ j q hq => ?_⟩
    rw [Standing.after_register] at hq
    simp only at hq
    split at hq
    · rcases Option.or_eq_some_iff.mp hq with hq | ⟨-, hq⟩
      · exact .inr (hlive j q hq)
      · exact .inl (Option.some.inj hq).symm
    · exact .inr (hlive j q hq)
  | .unlink p i => by
    refine ⟨fun _ => trivial, fun _ j q hq => hlive j q ?_⟩
    rw [Standing.after_register] at hq
    simp only at hq
    split at hq
    · cases hq
    · exact hq
  | .link p i => by
    constructor
    · intro hafter
      cases hregister : (v.holding i).register with
      | some q => exact .inr ⟨q, hregister⟩
      | none =>
        refine .inl (hafter i p ?_)
        rw [Standing.after_register]
        simp [hregister]
    · intro hp j q hq
      rw [Standing.after_register] at hq
      simp only at hq
      split at hq
      · rename_i hj
        subst hj
        rcases Option.or_eq_some_iff.mp hq with hq | ⟨hnone, hq⟩
        · exact hlive j q hq
        · obtain rfl := Option.some.inj hq
          rcases hp with hp | ⟨r, hr⟩
          · exact hp
          · rw [hnone] at hr
            cases hr
      · exact hlive j q hq
  | .archive p => by
    constructor
    · exact fun hafter i hi => (hafter i p hi).2 rfl
    · intro hnone i q hq
      refine ⟨hlive i q hq, ?_⟩
      rintro rfl
      exact hnone i hq

/-- Deeds that archive nobody and link to those who live keep the holders live, all the way. -/
theorem deeds_live : ∀ {ds : List Deed} {v : Standing}, v.HoldersLive →
    (∀ d ∈ ds, ∀ p, (∀ i, d = .link p i → p ∈ v.live) ∧ d ≠ .archive p) → (v.afterAll ds).HoldersLive
  | [], _, hlive, _ => hlive
  | d :: ds, v, hlive, hds => by
    obtain ⟨hd, hds⟩ := List.forall_mem_cons.mp hds
    have hgrows : v.live ⊆ (v.after d).live := by
      cases d with
      | propose p i => exact Set.subset_insert p v.live
      | link p i => exact subset_rfl
      | unlink p i => exact subset_rfl
      | archive p => exact absurd rfl (hd p).2
    have hafter : (v.after d).HoldersLive := by
      cases d with
      | propose p i => exact (deed_live hlive _).mpr trivial
      | link p i => exact (deed_live hlive (.link p i)).mpr (.inl ((hd p).1 i rfl))
      | unlink p i => exact (deed_live hlive (.unlink p i)).mpr trivial
      | archive p => exact absurd rfl (hd p).2
    have hrest : ((v.after d).afterAll ds).HoldersLive := deeds_live hafter fun d' hd' p =>
      ⟨fun i hi => hgrows ((hds d' hd' p).1 i hi), (hds d' hd' p).2⟩
    exact hrest

/-! #### Merge -/

section
variable {keeper mergee : UUID} {c c' : Cell UUID}

/-- A merge gives the keeper what the projection gave to either, if the folds agree with it. -/
theorem merge_moved (hout : mergee ∉ c.accounts → c' = c)
    (hkept : mergee ∈ c.accounts → keeper ∈ c.accounts → c' = c.act (.release mergee))
    (hmoved : mergee ∈ c.accounts → keeper ∉ c.accounts →
      c' = (c.act (.release mergee)).act (.take keeper)) (hne : keeper ≠ mergee) :
    (c.register = some keeper ∨ c.register = some mergee → c'.register = some keeper) ↔
      (c.register = some mergee → mergee ∈ c.accounts ∧ keeper ∉ c.accounts) ∧
        (c.register = some keeper → ¬(mergee ∈ c.accounts ∧ keeper ∈ c.accounts)) := by
  by_cases hmergee : mergee ∈ c.accounts
  · by_cases hkeeper : keeper ∈ c.accounts
    · rw [hkept hmergee hkeeper]
      simp [hmergee, hkeeper]
      tauto
    · rw [hmoved hmergee hkeeper]
      simp [hmergee, hkeeper]
  · rw [hout hmergee]
    constructor
    · intro hstays
      refine ⟨fun hregister => ?_, fun _ hboth => hmergee hboth.1⟩
      have hkeeper := hstays (.inr hregister)
      rw [hregister] at hkeeper
      exact absurd (Option.some.inj hkeeper).symm hne
    · rintro ⟨hsees, -⟩ (hregister | hregister)
      · exact hregister
      · exact absurd (hsees hregister).1 hmergee

/-- Afterwards nobody but those who were there, and the keeper where it got something, is in the
    register. -/
theorem merge_register (hout : mergee ∉ c.accounts → c' = c)
    (hkept : mergee ∈ c.accounts → keeper ∈ c.accounts → c' = c.act (.release mergee))
    (hmoved : mergee ∈ c.accounts → keeper ∉ c.accounts →
      c' = (c.act (.release mergee)).act (.take keeper)) (q : UUID) :
    c'.register = some q ↔ (mergee ∉ c.accounts ∧ c.register = some q) ∨
      (mergee ∈ c.accounts ∧ keeper ∉ c.accounts ∧ q = keeper) := by
  by_cases hmergee : mergee ∈ c.accounts
  · by_cases hkeeper : keeper ∈ c.accounts
    · rw [hkept hmergee hkeeper]
      simp [hmergee, hkeeper]
    · rw [hmoved hmergee hkeeper]
      simp [hmergee, hkeeper, eq_comm]
  · rw [hout hmergee]
    simp [hmergee]

/-- Up to the archive a merge unlinks, and links to the keeper. -/
theorem merge_holdersLive {v : Standing} {ids : List Ident} {kept : Ident → Bool}
    (hlive : v.HoldersLive) (hkeeper : ∀ i ∈ ids, kept i = false → keeper ∈ v.live)
    (hend : (v.afterAll (mergeDeeds keeper mergee ids kept)).HoldersLive) {ds : List Deed}
    (hds : ds <+: mergeDeeds keeper mergee ids kept) : (v.afterAll ds).HoldersLive := by
  rcases List.prefix_concat_iff.mp hds with rfl | hds
  · exact hend
  · refine deeds_live hlive fun d hd p => ?_
    obtain ⟨i, hi, hd⟩ := List.mem_flatMap.mp (hds.subset hd)
    rcases List.mem_cons.mp hd with rfl | hd
    · exact ⟨fun j h => (nomatch h), fun h => nomatch h⟩
    · split at hd
      · cases hd
      · rename_i hkept
        obtain rfl := List.mem_singleton.mp hd
        refine ⟨fun j h => ?_, fun h => nomatch h⟩
        cases h
        exact hkeeper i hi (Bool.eq_false_of_not_eq_true hkept)

end

/-! #### Split -/

section
variable {source newId : UUID} {seed i : Ident} {rest : List Ident}

theorem split_register (v : Standing) : ((v.afterAll (splitDeeds source newId seed rest)).holding i).register =
    if i ∈ rest then some newId else if i = seed then none else (v.holding i).register := by
  split
  · rename_i hi
    rw [split_mem v hi, splitActs]
    by_cases hnamed : Named i
    · simp [hnamed]
    · simp [hnamed]
  · rename_i hi
    rw [split_not_mem v hi, seedCell]
    split
    · rw [seedActs]
      by_cases hnamed : Named seed
      · simp [hnamed]
      · simp [hnamed]
    · rfl

/-- A split moves what it lists and nothing else, if the seed is among the rest. -/
theorem split_moved (v : Standing) :
    ((∀ j ∈ seed :: rest, ((v.afterAll (splitDeeds source newId seed rest)).holding j).register =
        some newId) ∧ ∀ j, j ∉ seed :: rest → (v.holding j).register = some source →
      ((v.afterAll (splitDeeds source newId seed rest)).holding j).register = some source) ↔
        seed ∈ rest := by
  simp only [split_register]
  constructor
  · rintro ⟨hall, -⟩
    by_contra hseed
    have hlost := hall seed List.mem_cons_self
    rw [if_neg hseed, if_pos rfl] at hlost
    cases hlost
  · intro hseed
    constructor
    · intro j hj
      rcases List.mem_cons.mp hj with rfl | hj
      · rw [if_pos hseed]
      · rw [if_pos hj]
    · intro j hj hsource
      obtain ⟨hne, hrest⟩ := List.ne_and_not_mem_of_not_mem_cons hj
      rw [if_neg hrest, if_neg hne]
      exact hsource

theorem split_deeds (d : Deed) (hd : d ∈ splitDeeds source newId seed rest) :
    d = .propose newId seed ∨ (∃ j, d = .unlink source j) ∨ ∃ j, d = .link newId j := by
  simp only [splitDeeds, List.mem_cons, List.mem_flatMap, List.not_mem_nil, or_false] at hd
  rcases hd with rfl | rfl | ⟨j, -, rfl | rfl⟩
  · exact .inl rfl
  · exact .inr (.inl ⟨seed, rfl⟩)
  · exact .inr (.inl ⟨j, rfl⟩)
  · exact .inr (.inr ⟨j, rfl⟩)

/-- The new person lives from the first call on. -/
theorem split_holdersLive {v : Standing} (hlive : v.HoldersLive) {ds : List Deed}
    (hds : ds <+: splitDeeds source newId seed rest) : (v.afterAll ds).HoldersLive := by
  cases ds with
  | nil => exact hlive
  | cons d ds =>
    obtain ⟨rfl, htail⟩ := List.cons_prefix_cons.mp hds
    have hfirst : (v.after (.propose newId seed)).HoldersLive := (deed_live hlive _).mpr trivial
    have hrest : ((v.after (.propose newId seed)).afterAll ds).HoldersLive := by
      refine deeds_live hfirst fun d hd p => ?_
      have hmem : d ∈ splitDeeds source newId seed rest := List.mem_cons_of_mem _ (htail.subset hd)
      rcases split_deeds d hmem with rfl | ⟨j, rfl⟩ | ⟨j, rfl⟩
      · exact ⟨fun i h => (nomatch h), fun h => nomatch h⟩
      · exact ⟨fun i h => (nomatch h), fun h => nomatch h⟩
      · refine ⟨fun i h => ?_, fun h => nomatch h⟩
        cases h
        exact Set.mem_insert newId v.live
    exact hrest

end

end

/-! ### One request -/

section
variable {py : Interp} {company : UUID} {stamp : ℕ → Stamp} {rows : List LedgerRow} {s : State}
  {att : UUID → Attached}

theorem Reads.liveOn_iff (h : Reads py company rows s att) :
    LiveOn py rows ↔ (standing company (s .people) att).HoldersLive := by
  obtain ⟨p, hp, hassigns, halive⟩ := h.projections
  constructor
  · rintro ⟨p', hp', hlive⟩ i q hq
    obtain rfl := Except.ok.inj (hp.symm.trans hp')
    exact (halive q).mp (hlive q i ((hassigns q i).mpr hq)).1
  · intro hlive
    refine ⟨p, hp, fun q i hq => ⟨(halive q).mpr (hlive i q ((hassigns q i).mp hq)), fun q' hq' => ?_⟩⟩
    have hsame := ((hassigns q' i).mp hq').symm.trans ((hassigns q i).mp hq)
    exact Option.some.inj hsame

theorem Reads.gives_iff (h : Reads py company rows s att) {q : UUID} {i : Ident} :
    Gives py rows q i ↔ ((standing company (s .people) att).holding i).register = some q := by
  obtain ⟨p, hp, hassigns, -⟩ := h.projections
  constructor
  · rintro ⟨p', hp', hq⟩
    obtain rfl := Except.ok.inj (hp.symm.trans hp')
    exact (hassigns q i).mp hq
  · exact fun hq => ⟨p, hp, (hassigns q i).mpr hq⟩

theorem Reads.lives_iff (h : Reads py company rows s att) {q : UUID} :
    Lives py rows q ↔ q ∈ (standing company (s .people) att).live := by
  obtain ⟨p, hp, -, halive⟩ := h.projections
  constructor
  · rintro ⟨p', hp', hq⟩
    obtain rfl := Except.ok.inj (hp.symm.trans hp')
    exact (halive q).mp hq
  · exact fun hq => ⟨p, hp, (halive q).mpr hq⟩

theorem Reads.sees_iff (h : Reads py company rows s att) {q : UUID} {i : Ident} :
    Sees rows q i ↔ q ∈ ((standing company (s .people) att).holding i).accounts := by
  obtain ⟨ids, hids, -, -, hmem⟩ := h.identitiesOf q
  rw [← hmem, ← List.mem_map_of_injective key_injective]
  constructor
  · rintro ⟨ids', hids', hi⟩
    obtain rfl := Except.ok.inj (hids.symm.trans hids')
    exact hi
  · exact fun hi => ⟨_, hids, hi⟩

/-- The ledger after the first calls of a request is read by both folds too. -/
theorem Reads.between (h : Reads py company rows s att) {calls calls' : List Pevr} {deeds : List Deed}
    (hcalls : List.Forall₂ (Does py company) calls deeds) (hpre : calls' <+: calls) :
    ∃ deeds', deeds' <+: deeds ∧ ∃ s' att', Reads py company (writeAll company stamp rows calls') s' att' ∧
      standing company (s' .people) att' = (standing company (s .people) att).afterAll deeds' := by
  rw [List.prefix_iff_eq_take] at hpre
  refine ⟨deeds.take calls'.length, List.take_prefix _ _, ?_⟩
  have hwrites := @Reads.writes py company stamp rows s att _ _
    (List.forall₂_take calls'.length hcalls) h
  rwa [← hpre] at hwrites

/-- Every step of the way, holders live. -/
theorem Reads.betweenLive (h : Reads py company rows s att) {calls : List Pevr} {deeds : List Deed}
    (hcalls : List.Forall₂ (Does py company) calls deeds)
    (hdeeds : ∀ ds, ds <+: deeds → ((standing company (s .people) att).afterAll ds).HoldersLive)
    {calls' : List Pevr} (hpre : calls' <+: calls) :
    LiveOn py (writeAll company stamp rows calls') := by
  obtain ⟨deeds', hdeeds', s', att', h', hstanding⟩ := h.between hcalls hpre
  refine h'.liveOn_iff.mpr ?_
  rw [hstanding]
  exact hdeeds deeds' hdeeds'

/-- A request that is one call conserves when its deed keeps the holders live. -/
theorem Reads.conserved_single (h : Reads py company rows s att) (hlive : LiveOn py rows)
    (a : WriteAction) {c : Pevr} {d : Deed} (hd : Does py company c d)
    (hcalls : (a.outcome py company rows).calls = [c]) (ha : ∀ p p', a.Conserves p p') :
    Conserved py company stamp rows ⟨a, none⟩ (writeAll company stamp rows [c]) ↔
      ((standing company (s .people) att).after d).HoldersLive := by
  obtain ⟨s', att', h', hstanding⟩ := @Reads.writes py company stamp rows s att _ _ (.cons hd .nil) h
  have hafter : LiveOn py (writeAll company stamp rows [c]) ↔
      ((standing company (s .people) att).after d).HoldersLive := by
    rw [h'.liveOn_iff, hstanding]
    rfl
  constructor
  · exact fun hc => hafter.mp hc.live
  · intro hd'
    obtain ⟨p, hp, -⟩ := h.projections
    obtain ⟨p', hp', -⟩ := h'.projections
    refine ⟨⟨p, p', hp, hp', ha p p'⟩, hafter.mpr hd', fun _ calls hpre => ?_⟩
    rw [hcalls] at hpre
    refine h.betweenLive (.cons hd .nil) (fun ds hds => ?_) hpre
    rcases ds with - | ⟨d', ds⟩
    · exact h.liveOn_iff.mp hlive
    · obtain ⟨rfl, htail⟩ := List.cons_prefix_cons.mp hds
      obtain rfl := List.prefix_nil.mp htail
      exact hd'

theorem Reads.conserved_merge (h : Reads py company rows s att) (hlive : LiveOn py rows)
    {keeper mergee by' : UUID} (hne : keeper ≠ mergee) :
    Conserved py company stamp rows ⟨.mergePersons keeper mergee by', none⟩
        (writeAll company stamp rows (mergePersons rows keeper mergee by').calls) ↔
      (WriteAction.mergePersons keeper mergee by').Keeps py rows := by
  obtain ⟨ids, kept, hdoes, hnamed, hids, hkids⟩ := h.mergeDoes by' hne
  obtain ⟨s', att', h', hstanding⟩ := @Reads.writes py company stamp rows s att _ _ hdoes h
  have hcells := merge_cells _ hnamed hids hkids
  have hend := merge_live keeper mergee ids kept (standing company (s .people) att)
  rw [← hstanding] at hcells hend
  obtain ⟨p, hp, hassigns, -⟩ := h.projections
  obtain ⟨p', hp', hassigns', -⟩ := h'.projections
  have hholders := h.liveOn_iff.mp hlive
  have hmoved : (∀ i, Assigns p keeper i ∨ Assigns p mergee i → Assigns p' keeper i) ↔
      ∀ i, (Gives py rows mergee i → Sees rows mergee i ∧ ¬Sees rows keeper i) ∧
        (Gives py rows keeper i → ¬(Sees rows mergee i ∧ Sees rows keeper i)) := by
    refine forall_congr' fun i => ?_
    obtain ⟨hout, hkept, hmove⟩ := hcells i
    rw [hassigns, hassigns, hassigns', h.gives_iff, h.gives_iff, h.sees_iff, h.sees_iff]
    exact merge_moved hout hkept hmove hne
  have hregister : ∀ i q, ((standing company (s' .people) att').holding i).register = some q ↔
      (¬Sees rows mergee i ∧ ((standing company (s .people) att).holding i).register = some q) ∨
        (Sees rows mergee i ∧ ¬Sees rows keeper i ∧ q = keeper) := by
    intro i q
    obtain ⟨hout, hkept, hmove⟩ := hcells i
    rw [h.sees_iff, h.sees_iff]
    exact merge_register hout hkept hmove q
  constructor
  · rintro ⟨⟨q, q', hq, hq', hconserves⟩, hliveOn, -⟩
    obtain rfl := Except.ok.inj (hp.symm.trans hq)
    obtain rfl := Except.ok.inj (hp'.symm.trans hq')
    have hfolds := hmoved.mp (hconserves hne)
    refine fun i => ⟨(hfolds i).1, (hfolds i).2, fun hmergee hkeeper => ?_⟩
    have hkeeperLive := h'.liveOn_iff.mp hliveOn i keeper ((hregister i keeper).mpr
      (.inr ⟨hmergee, hkeeper, rfl⟩))
    rw [hend] at hkeeperLive
    exact h.lives_iff.mpr hkeeperLive.1
  · intro hkeeps
    have hlast : (standing company (s' .people) att').HoldersLive := by
      intro i q hq
      rw [hend]
      rcases (hregister i q).mp hq with ⟨hmergee, hq⟩ | ⟨hmergee, hkeeper, rfl⟩
      · refine ⟨hholders i q hq, ?_⟩
        rintro rfl
        exact hmergee ((hkeeps i).1 (h.gives_iff.mpr hq)).1
      · exact ⟨h.lives_iff.mp ((hkeeps i).2.2 hmergee hkeeper), hne⟩
    refine ⟨⟨p, p', hp, hp', fun _ => hmoved.mpr fun i => ⟨(hkeeps i).1, (hkeeps i).2.1⟩⟩,
      h'.liveOn_iff.mpr hlast, fun _ calls hpre => ?_⟩
    rw [hstanding] at hlast
    refine h.betweenLive hdoes (fun ds => merge_holdersLive hholders (fun i hi hk => ?_) hlast) hpre
    refine h.lives_iff.mp ((hkeeps i).2.2 (h.sees_iff.mpr ((hids i).mp hi)) fun hsees => ?_)
    rw [(hkids i).mpr (h.sees_iff.mp hsees)] at hk
    cases hk

theorem Reads.conserved_split (h : Reads py company rows s att) (hlive : LiveOn py rows)
    {source newId by' : UUID} {name : String} {email position : Option String} {items : List SplitItem}
    {seed : Ident} {rest : List Ident} (hitems : normalised items = .ok (seed :: rest)) :
    Conserved py company stamp rows ⟨.splitPerson source newId name email position items by', none⟩
        (writeAll company stamp rows
          (splitPerson py company source newId name email position items by').calls) ↔
      seed ∈ rest := by
  have hdoes := @splitPerson_does py company source newId by' name email position items seed rest hitems
  obtain ⟨s', att', h', hstanding⟩ := @Reads.writes py company stamp rows s att _ _ hdoes h
  obtain ⟨p, hp, hassigns, -⟩ := h.projections
  obtain ⟨p', hp', hassigns', -⟩ := h'.projections
  have hmoved := @split_moved source newId seed rest (standing company (s .people) att)
  rw [← hstanding] at hmoved
  simp only [← hassigns, ← hassigns'] at hmoved
  constructor
  · rintro ⟨⟨q, q', hq, hq', hconserves⟩, -, -⟩
    obtain rfl := Except.ok.inj (hp.symm.trans hq)
    obtain rfl := Except.ok.inj (hp'.symm.trans hq')
    exact hmoved.mp (hconserves seed rest hitems)
  · intro hseed
    have hbetween : ∀ ds, ds <+: splitDeeds source newId seed rest →
        ((standing company (s .people) att).afterAll ds).HoldersLive :=
      fun ds => split_holdersLive (h.liveOn_iff.mp hlive)
    have hlast := hbetween _ List.prefix_rfl
    rw [← hstanding] at hlast
    refine ⟨⟨p, p', hp, hp', fun seed' rest' hitems' => ?_⟩, h'.liveOn_iff.mpr hlast,
      fun _ calls hpre => h.betweenLive hdoes hbetween hpre⟩
    rw [hitems] at hitems'
    cases hitems'
    exact hmoved.mpr hseed

/-- A request conserves exactly where it finds what it must. -/
theorem Reads.conserved_iff (h : Reads py company rows s att) (hlive : LiveOn py rows) (r : Request) :
    Conserved py company stamp rows r (perform py company stamp rows r) ↔ Keeps py rows r := by
  by_cases hr : Refused r.action
  · refine ⟨fun _ => .inl hr, fun _ => ?_⟩
    rw [perform_refused hr]
    obtain ⟨p, hp, -⟩ := h.projections
    refine ⟨⟨p, p, hp, hp, ?_⟩, hlive, fun _ calls hpre => ?_⟩
    · cases haction : r.action with
      | mergePersons keeper mergee by' =>
        rw [haction] at hr
        exact fun hne => absurd hr hne
      | splitPerson source newId name email position items by' =>
        rw [haction] at hr
        exact fun seed rest hitems => absurd hitems (hr seed rest)
      | _ => trivial
    · rw [refused_calls hr] at hpre
      obtain rfl := List.prefix_nil.mp hpre
      exact hlive
  rw [Keeps, or_iff_right hr]
  cases hsilent : r.silent with
  | some refId =>
    refine ⟨fun hc => ?_, fun hk => nomatch hk.1⟩
    obtain ⟨p, hp, -⟩ := hc.live
    obtain ⟨s', hs', -⟩ := projectionsOf_ok hp
    exact absurd hs' (perform_silent h hr hsilent s')
  | none =>
    obtain ⟨action, silent⟩ := r
    obtain rfl : silent = none := hsilent
    rw [and_iff_right rfl, perform]
    have hholders := h.liveOn_iff.mp hlive
    cases action with
    | proposePerson p name email platform puid position by' =>
      refine (h.conserved_single hlive (.proposePerson p name email platform puid position by')
        (.propose rfl) rfl fun _ _ => trivial).trans ?_
      exact deed_live hholders (.propose p (platform, puid))
    | linkIdentity p platform puid by' =>
      refine (h.conserved_single hlive (.linkIdentity p platform puid by') .link rfl
        fun _ _ => trivial).trans ?_
      simp only [WriteAction.Keeps, h.lives_iff, h.gives_iff]
      exact deed_live hholders (.link p (platform, puid))
    | unlinkIdentity p platform puid by' =>
      refine (h.conserved_single hlive (.unlinkIdentity p platform puid by') .unlink rfl
        fun _ _ => trivial).trans ?_
      exact deed_live hholders (.unlink p (platform, puid))
    | archivePerson p by' reason =>
      refine (h.conserved_single hlive (.archivePerson p by' reason) .archive rfl fun _ _ => trivial).trans ?_
      simp only [WriteAction.Keeps, h.gives_iff]
      exact deed_live hholders (.archive p)
    | mergePersons keeper mergee by' => exact h.conserved_merge hlive hr
    | splitPerson source newId name email position items by' =>
      simp only [Refused, not_forall, not_not] at hr
      obtain ⟨seed, rest, hitems⟩ := hr
      refine (h.conserved_split hlive hitems).trans ?_
      simp only [WriteAction.Keeps, hitems, Except.ok.injEq, List.cons.injEq]
      constructor
      · rintro hseed _ _ ⟨rfl, rfl⟩
        exact hseed
      · exact fun hsplit => hsplit seed rest ⟨rfl, rfl⟩

/-! ### Runs -/

theorem liveOn_nil (company : UUID) : LiveOn py [] := by
  refine (@reads_nil py company).liveOn_iff.mpr fun i q h => ?_
  cases h

theorem eachStep_conserved (acts : List Request) :
    Run.EachStep (step py company stamp) (Conserved py company stamp) [] acts ↔
      Run.Guarded (step py company stamp) (Keeps py) [] acts := by
  refine Run.eachStep_iff_guarded (I := Kept py company) (J := LiveOn py) ?_ ?_ (fun _ _ => ⟨_, rfl⟩)
    ?_ kept_nil (liveOn_nil company)
  · rintro rows r rows' hkept ⟨⟩
    exact hkept.perform r
  · exact fun rows r rows' hc => hc.live
  · rintro rows r rows' (⟨s, att, h⟩ | hstopped) hlive ⟨⟩
    · exact h.conserved_iff hlive r
    · obtain ⟨p, hp, -⟩ := hlive
      obtain ⟨s, hs, -⟩ := projectionsOf_ok hp
      exact absurd hs (hstopped s)

end

/-- All requests of a run conserve exactly when each finds what it must. -/
theorem conserved_iff_keeps (py : Interp) (company : UUID) (stamp : ℕ → Stamp) (acts : List Request) :
    Run.EachStep (step py company stamp) (Conserved py company stamp) [] acts ↔
      Run.Guarded (step py company stamp) (Keeps py) [] acts := eachStep_conserved acts

/-- A person with one identity, and a split that should give it to another. -/
def sampleMove : List Request :=
  [⟨.proposePerson ⟨7⟩ "Ada" none "slack" "U1" none "discovery", none⟩,
    ⟨.splitPerson ⟨7⟩ ⟨8⟩ "Ada B." none none [.dict (some "slack") (some "U1")] ⟨9⟩, none⟩]

theorem sampleMove_loses : ¬Run.EachStep (step .plain ⟨1⟩ fun _ => instantStamp)
    (Conserved .plain ⟨1⟩ fun _ => instantStamp) [] sampleMove := by
  rw [eachStep_conserved]
  rintro ⟨-, hall⟩
  obtain ⟨hsplit, -⟩ := hall _ rfl
  rcases hsplit with hrefused | ⟨-, hkeeps⟩
  · exact hrefused ("slack", "U1") [] rfl
  · exact absurd (hkeeps ("slack", "U1") [] rfl) List.not_mem_nil

end WriteActions
