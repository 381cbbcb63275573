import Wormbase.IdentityTracker.PositionInference
import Wormbase.WriteActions.Effects
import Wormbase.Lib.Run

/-! Who is known to have a position, against who has one in the projection.

    The scan of the reactivity only adds persons. The projection sets positions and takes them back, and
    only for persons that it has a row of. -/

namespace IdentityTracker
open Py
open Projection (LedgerRow People Person Stamp Fold Part foldEntries initialProjectionState)
open WriteActions (Pevr textOrNone)

/-! ### Runs -/

inductive Op where
  | proposePerson (p : UUID) (tenant : Option UUID) (name : String) (email : Option String)
      (platform platformUserId : String) (position : Option String) (proposedBy : String)
  | proposePosition (p : UUID) (position : String) (confidence : PyFloat) (signals : List String)
      (proposedBy : String)
  | confirmPosition (p : UUID) (position : String) (confirmedBy : UUID)
  | rejectPosition (p : UUID) (position : String) (rejectedBy : UUID) (reason : Option String)

section
variable (py : Interp) (company : UUID) (stamp : ℕ → Stamp)

/-- The call that an operation makes, or what its payload class raises. -/
def Op.call : Op → Except Err Pevr
  | .proposePerson p tenant name email platform puid position by' =>
    .ok (WriteActions.proposePerson py company p tenant name email platform puid position by')
  | .proposePosition p position confidence signals by' =>
    IdentityTracker.proposePosition py p position confidence signals by'
  | .confirmPosition p position by' => .ok (confirmPositionProposal py p position by')
  | .rejectPosition p position by' reason => .ok (rejectPositionProposal py p position by' reason)

def perform (rows : List LedgerRow) (op : Op) : List LedgerRow :=
  match op.call py company with
  | .ok c => rows ++ c.rows company rows.length (stamp rows.length)
  | .error _ => rows

def step (rows : List LedgerRow) (op : Op) : Option (List LedgerRow) := some (perform py company stamp rows op)

/-- The position in the row of a person, if there is a row. -/
def positionOf (people : People) (pid : String) : Option Val :=
  (people.persons.get? pid).map fun kr => kr.2.position

/-- The persons with a position. -/
def positioned (people : People) : Set String := {pid | ∃ v, positionOf people pid = some v ∧ v ≠ .none}

/-- The persons of the projection of a ledger. -/
def projected (rows : List LedgerRow) : Except Err People :=
  (foldEntries py initialProjectionState rows).map fun s => s .people

/-- The reactivity takes the persons for known that have a position in the projection. -/
def Follows (rows : List LedgerRow) : Prop :=
  ∃ known people, rehydrateKnownPositions py rows = .ok known ∧ projected py rows = .ok people ∧
    ∀ pid, pid ∈ known ↔ pid ∈ positioned people

/-- A person is proposed anew without a position only where it has none, and with an empty one only
    where it has one; a position is proposed for a person with a row; and no position is rejected that
    stands in the row of its person. -/
def Lasting (rows : List LedgerRow) (op : Op) : Prop :=
  ∀ people, projected py rows = .ok people →
    match op with
    | .proposePerson p _ _ _ _ _ position _ =>
      (position = none → p.str ∉ positioned people) ∧ (position = some "" → p.str ∈ positioned people)
    | .proposePosition p _ _ _ _ => (∃ c, op.call py company = .ok c) → (positionOf people p.str).isSome
    | .confirmPosition _ _ _ => True
    | .rejectPosition p position _ _ => positionOf people p.str ≠ some (.str position)

end

/-! ### The scan -/

section
variable {py : Interp} {company : UUID} {rows : List LedgerRow} {known : List String}

theorem knownStep_skips {r : LedgerRow} (h : r.kind ≠ "execute") : knownStep py known r = .ok known := by
  rw [knownStep, if_pos h]

/-- Of the four rows of a call, the scan reads the second. -/
theorem rehydrate_rows (h : rehydrateKnownPositions py rows = .ok known) (c : Pevr) (n : ℕ) (st : Stamp) :
    rehydrateKnownPositions py (rows ++ c.rows company n st) = .ok (knownArgs py (.str c.tool) c.args known) := by
  have hexecute : knownStep py known ⟨st.executeId, company, n + 1 + 1, st.ts, "execute",
      .dict (c.executePayload st), st.hash 1⟩ = .ok (knownArgs py (.str c.tool) c.args known) := by
    have hargs : Dict.get (c.executePayload st) "args" = .dict c.args := rfl
    have htool : Dict.get (c.executePayload st) "tool" = .str c.tool := rfl
    rw [knownStep, if_neg (by simp), orMapping_dict]
    simp only [bind, Except.bind, hargs, htool, orMapping_dict]
    rfl
  rw [rehydrateKnownPositions] at h ⊢
  rw [List.foldlM_append, h]
  simp only [Pevr.rows, Projection.stampedRows, bind, Except.bind, List.foldlM_cons, List.foldlM_nil]
  rw [knownStep_skips (by simp)]
  simp only
  rw [show ((1 : Fin 4) : ℕ) = 1 from rfl, hexecute]
  simp only
  rw [knownStep_skips (by simp)]
  simp only
  rw [knownStep_skips (by simp)]
  rfl

theorem addKnown_person (p : UUID) : addKnown py (.str p.str) known = p.str :: known := by
  have hne : p.str ≠ "" := by
    intro h
    have hback := UUID.toUUID_str p
    rw [h] at hback
    cases hback
  rw [addKnown, if_pos (by simpa [Val.truthy] using hne), Val.toStr_str]

end

/-! ### The projection -/

section
variable {py : Interp} {company : UUID} {n : ℕ} {st : Stamp} {e : LedgerRow} {people people' : People}
  {args : Dict} {pid : String}

/-- A change of the one row that a person may have. -/
theorem updatePerson_total {f : Person → Except Err Person} {g : Person → Person} {k : Val → Val}
    (hf : ∀ p, f p = .ok (g p)) (hg : ∀ p, (g p).position = k p.position) :
    ∃ people', people.updatePerson (.str pid) f = .ok people' ∧ ∀ t, positionOf people' t =
      if pid = t then (positionOf people pid).map k else positionOf people t := by
  simp only [People.updatePerson, Projection.updateAt, Val.hash, bind, Except.bind, pure, Except.pure]
  cases hget : people.persons.get? pid with
  | none =>
    refine ⟨people, rfl, fun t => ?_⟩
    split
    · rename_i ht
      rw [positionOf, positionOf, ← ht, hget]
      rfl
    · rfl
  | some kr =>
    obtain ⟨key, r⟩ := kr
    simp only [hf]
    refine ⟨_, rfl, fun t => ?_⟩
    simp only [positionOf, Table.get?_put, hget, Option.map_some]
    split
    · rw [Option.map_some, hg]
    · rfl

/-- `p.get("position") == rejected` of a text. -/
theorem same_str {v : Val} {s : String} : v.same (.str s) = true ↔ v = .str s := by
  cases v with
  | str t => simp [Val.same]
  | _ => simp [Val.same, Val.num]

theorem emitPositionProposed_run {position : String} (hpid : args.item "person_id" = .ok (.str pid))
    (hposition : args.item "position" = .ok (.str position)) :
    ∃ people', Projection.emitPositionProposed e args people = .ok people' ∧ ∀ t, positionOf people' t =
      if pid = t then (positionOf people pid).map (fun _ => .str position) else positionOf people t := by
  rw [Projection.emitPositionProposed, hpid]
  refine @updatePerson_total people pid _ (fun p => { p with position := .str position, lastUpdatedSeq := e.seq })
    (fun _ => .str position) (fun p => ?_) fun _ => rfl
  rw [hposition]
  rfl

theorem emitPositionRejected_run {position : String} (hpid : args.item "person_id" = .ok (.str pid))
    (hposition : args.item "position" = .ok (.str position)) :
    ∃ people', Projection.emitPositionRejected e args people = .ok people' ∧ ∀ t, positionOf people' t =
      if pid = t then (positionOf people pid).map (fun v => if v.same (.str position) then .none else v)
      else positionOf people t := by
  rw [Projection.emitPositionRejected, hpid, hposition]
  refine @updatePerson_total people pid _
    (fun p => if p.position.same (.str position) then { p with position := .none, lastUpdatedSeq := e.seq } else p)
    (fun v => if v.same (.str position) then .none else v) (fun p => ?_) fun p => ?_
  · split
    · rfl
    · rfl
  · split
    · rfl
    · rfl

/-- The four rows of a call whose tool has no branch leave the persons as they are. -/
theorem fold_unbranched {c : Pevr} {s : Projection.State} (hnone : (Projection.branches py).lookup c.tool = none) :
    ∃ s', foldEntries py s (c.rows company n st) = .ok s' ∧ s' .people = s .people := by
  obtain ⟨s₁, h₁, hsame₁⟩ := @WriteActions.applyEntry_scaffold py s
    ⟨st.proposeId, company, n + 1, st.ts, "propose", .dict c.propose, st.hash 0⟩ _ rfl rfl (by simp)
  have h₂ : Projection.applyEntry py s₁ (c.executeRow company n st) = .ok s₁ := by
    have henv : Projection.applyPevrEnvelope py (c.executeRow company n st) s₁ = .ok s₁ := rfl
    have htool : Dict.get (c.executePayload st) "tool" = .str c.tool := rfl
    rw [Pevr.executeRow] at henv ⊢
    simp only [Projection.applyEntry, henv, Projection.applyExecute, htool, hnone, bind,
      Except.bind, pure, Except.pure, List.mem_cons, String.reduceEq, true_or, or_true, if_true]
  obtain ⟨s₃, h₃, hsame₃⟩ := @WriteActions.applyEntry_scaffold py s₁ ⟨st.verifyId, company, n + 3, st.ts, "verify",
    .dict ((.str "execute_entry_id", .str st.executeId.str) :: c.verify), st.hash 2⟩ _ rfl rfl (by simp)
  obtain ⟨s₄, h₄, hsame₄⟩ := @WriteActions.applyEntry_scaffold py s₃ ⟨st.resolveId, company, n + 4, st.ts, "resolve",
    .dict ((.str "verify_entry_id", .str st.verifyId.str) :: c.resolve), st.hash 3⟩ _ rfl rfl (by simp)
  refine ⟨s₄, ?_, ?_⟩
  · exact Projection.foldEntries_cons.mpr ⟨s₁, h₁, Projection.foldEntries_cons.mpr ⟨s₁, h₂,
      Projection.foldEntries_cons.mpr ⟨s₃, h₃, Projection.foldEntries_cons.mpr ⟨s₄, h₄, rfl⟩⟩⟩⟩
  · rw [hsame₄ _ (by decide), hsame₃ _ (by decide), hsame₁ _ (by decide)]

end

/-! ### One operation -/

section
variable {py : Interp} {company : UUID} {stamp : ℕ → Stamp} {rows : List LedgerRow} {s : Projection.State}
  {known : List String}

/-- A ledger that both folds go through. -/
structure Read (py : Interp) (rows : List LedgerRow) (s : Projection.State) (known : List String) : Prop where
  state : foldEntries py initialProjectionState rows = .ok s
  known : rehydrateKnownPositions py rows = .ok known

theorem Read.projected (h : Read py rows s known) : projected py rows = .ok (s .people) := by
  rw [IdentityTracker.projected, h.state]
  rfl

theorem Read.follows_iff (h : Read py rows s known) :
    Follows py rows ↔ ∀ pid, pid ∈ known ↔ pid ∈ positioned (s .people) := by
  constructor
  · rintro ⟨known', people, hknown, hpeople, hsame⟩
    obtain rfl := Except.ok.inj (h.known.symm.trans hknown)
    obtain rfl := Except.ok.inj (h.projected.symm.trans hpeople)
    exact hsame
  · intro hsame
    exact ⟨known, s .people, h.known, h.projected, hsame⟩

/-- A call whose tool runs on the persons. -/
theorem Read.write (h : Read py rows s known) {c : Pevr} {run : Fold People} {people : People} {st : Stamp}
    (hmem : (c.tool, run) ∈ Part.people.handlers py)
    (hrun : run (c.executeRow company rows.length st) c.args (s .people) = .ok people) :
    ∃ s', Read py (rows ++ c.rows company rows.length st) s' (knownArgs py (.str c.tool) c.args known) ∧
      s' .people = people := by
  obtain ⟨s', hs', hpeople, -⟩ := WriteActions.fold_pevr hmem hrun
  exact ⟨s', ⟨Projection.foldEntries_append.mpr ⟨s, h.state, hs'⟩, rehydrate_rows h.known c rows.length st⟩, hpeople⟩

theorem mem_positioned {people : People} {pid : String} :
    pid ∈ positioned people ↔ ∃ v, positionOf people pid = some v ∧ v ≠ .none := Iff.rfl

/-- Where only one person changes, the two agree after it exactly if they agree on that person. -/
theorem follows_at {known known' : List String} {people people' : People} (pid : String)
    (hsame : ∀ t, t ∈ known ↔ t ∈ positioned people) (hknown : ∀ t, pid ≠ t → (t ∈ known' ↔ t ∈ known))
    (hpeople : ∀ t, pid ≠ t → positionOf people' t = positionOf people t) :
    (∀ t, t ∈ known' ↔ t ∈ positioned people') ↔ (pid ∈ known' ↔ pid ∈ positioned people') := by
  constructor
  · intro hall
    exact hall pid
  · intro hpid t
    by_cases ht : pid = t
    · exact ht ▸ hpid
    · have hposition : t ∈ positioned people' ↔ t ∈ positioned people := by
        rw [mem_positioned, mem_positioned, hpeople t ht]
      rw [hknown t ht, hsame t, hposition]

theorem knownArgs_person (p : UUID) {args : Dict} {position : Option String}
    (hpid : args.get "person_id" = .str p.str) (hposition : args.get "position" = textOrNone position) :
    knownArgs py (.str "emit_person_proposed") args known =
      if (textOrNone position).truthy then p.str :: known else known := by
  rw [knownArgs, if_pos (by decide), hposition, hpid, addKnown_person]

theorem knownArgs_position (p : UUID) {args : Dict} (hpid : args.get "person_id" = .str p.str) :
    knownArgs py (.str "emit_position_proposed") args known = p.str :: known := by
  rw [knownArgs, if_neg (by decide), if_pos (by decide), hpid, addKnown_person]

theorem knownArgs_other {tool : String} {args : Dict}
    (h : tool ∉ ["emit_person_proposed", "emit_position_assigned", "emit_position_proposed"]) :
    knownArgs py (.str tool) args known = known := by
  simp only [List.mem_cons, List.not_mem_nil, or_false, not_or] at h
  rw [knownArgs, if_neg, if_neg]
  · simp [Val.isText, h]
  · simp [Val.isText, h]

/-- A person is proposed: it has the position that it is proposed with, or none. -/
theorem Read.proposePerson (h : Read py rows s known) {p : UUID} {tenant : Option UUID} {name platform puid by' : String}
    {email position : Option String} (st : Stamp) : ∃ s' known', Read py
      (rows ++ (WriteActions.proposePerson py company p tenant name email platform puid position by').rows company
        rows.length st) s' known' ∧
      known' = (if (textOrNone position).truthy then p.str :: known else known) ∧
      ∀ t, positionOf (s' .people) t =
        if p.str = t then some (textOrNone position) else positionOf (s .people) t := by
  obtain ⟨row, people', hrun, -, -, hposition, hpersons, -⟩ := @WriteActions.emitPersonProposed_run py company p
    ((WriteActions.proposePerson py company p tenant name email platform puid position by').executeRow company
      rows.length st) platform puid name email position by' tenant (s .people)
  obtain ⟨s', hread, hpeople⟩ := h.write (by simp [Part.handlers, WriteActions.proposePerson]) hrun
  refine ⟨s', _, hread, knownArgs_person p rfl rfl, fun t => ?_⟩
  simp only [positionOf, hpeople, hpersons, Table.get?_put]
  split
  · rw [Option.map_some, hposition]
  · rfl

theorem proposePosition_ok {p : UUID} {position by' : String} {confidence : PyFloat} {signals : List String} {c : Pevr}
    (h : IdentityTracker.proposePosition py p position confidence signals by' = .ok c) :
    c.tool = "emit_position_proposed" ∧ c.args.item "person_id" = .ok (.str p.str) ∧
      c.args.item "position" = .ok (.str position) := by
  rw [IdentityTracker.proposePosition] at h
  split at h
  · obtain rfl := Except.ok.inj h
    exact ⟨rfl, rfl, rfl⟩
  · cases h

theorem Read.proposePosition (h : Read py rows s known) {p : UUID} {position by' : String} {confidence : PyFloat}
    {signals : List String} {c : Pevr} (hc : IdentityTracker.proposePosition py p position confidence signals by' = .ok c)
    (st : Stamp) : ∃ s', Read py (rows ++ c.rows company rows.length st) s' (p.str :: known) ∧
      ∀ t, positionOf (s' .people) t = if p.str = t then
        (positionOf (s .people) p.str).map (fun _ => .str position) else positionOf (s .people) t := by
  obtain ⟨htool, hpid, hposition⟩ := proposePosition_ok hc
  obtain ⟨people', hrun, hafter⟩ := @emitPositionProposed_run (c.executeRow company rows.length st) (s .people) c.args
    p.str position hpid hposition
  obtain ⟨s', hread, hpeople⟩ := h.write (by rw [htool]; simp [Part.handlers]) hrun
  rw [htool, knownArgs_position p (Projection.item_get hpid)] at hread
  exact ⟨s', hread, fun t => hpeople ▸ hafter t⟩

theorem Read.rejectPosition (h : Read py rows s known) {p by' : UUID} {position : String} {reason : Option String}
    (st : Stamp) : ∃ s', Read py
      (rows ++ (rejectPositionProposal py p position by' reason).rows company rows.length st) s' known ∧
      ∀ t, positionOf (s' .people) t = if p.str = t then
        (positionOf (s .people) p.str).map (fun v => if v.same (.str position) then .none else v)
        else positionOf (s .people) t := by
  obtain ⟨people', hrun, hafter⟩ := @emitPositionRejected_run
    ((rejectPositionProposal py p position by' reason).executeRow company rows.length st) (s .people)
    (rejectPositionProposal py p position by' reason).args p.str position rfl rfl
  obtain ⟨s', hread, hpeople⟩ := h.write (by simp [Part.handlers, rejectPositionProposal]) hrun
  rw [show (rejectPositionProposal py p position by' reason).tool = "emit_position_rejected" from rfl,
    knownArgs_other (by decide)] at hread
  exact ⟨s', hread, fun t => hpeople ▸ hafter t⟩

/-- A confirmation is an action that the projection has no branch for. -/
theorem confirmed_unbranched : (Projection.branches py).lookup "emit_position_confirmed" = none := by
  rw [List.lookup_eq_none_iff]
  intro b hb
  have hmem : b.1 ∈ (Projection.branches py).map Prod.fst := List.mem_map_of_mem hb
  rw [Projection.branches_fst] at hmem
  have hnot : "emit_position_confirmed" ∉ Part.all.flatMap Part.tools := by decide +kernel
  simp only [bne_iff_ne, ne_eq]
  rintro heq
  exact hnot (heq ▸ hmem)

theorem Read.confirmPosition (h : Read py rows s known) {p by' : UUID} {position : String} (st : Stamp) :
    ∃ s', Read py (rows ++ (confirmPositionProposal py p position by').rows company rows.length st) s' known ∧
      s' .people = s .people := by
  obtain ⟨s', hs', hpeople⟩ := @fold_unbranched py company rows.length st (confirmPositionProposal py p position by') s
    confirmed_unbranched
  have hknown := @rehydrate_rows py company _ _ h.known (confirmPositionProposal py p position by') rows.length st
  rw [show (confirmPositionProposal py p position by').tool = "emit_position_confirmed" from rfl,
    knownArgs_other (by decide)] at hknown
  exact ⟨s', ⟨Projection.foldEntries_append.mpr ⟨s, h.state, hs'⟩, hknown⟩, hpeople⟩

end

/-! ### The law -/

section
variable {py : Interp} {company : UUID} {stamp : ℕ → Stamp} {rows : List LedgerRow} {s : Projection.State}
  {known : List String}

theorem textOrNone_ne {position : Option String} : textOrNone position ≠ .none ↔ position ≠ none := by
  cases position <;> simp [textOrNone]

theorem perform_ok {op : Op} {c : Pevr} (h : op.call py company = .ok c) :
    IdentityTracker.perform py company stamp rows op = rows ++ c.rows company rows.length (stamp rows.length) := by
  rw [IdentityTracker.perform, h]

/-- After an operation both folds still go through. -/
theorem Read.perform (h : Read py rows s known) (op : Op) :
    ∃ s' known', Read py (IdentityTracker.perform py company stamp rows op) s' known' := by
  unfold IdentityTracker.perform
  cases op with
  | proposePerson p tenant name email platform puid position by' =>
    obtain ⟨s', known', hread, -⟩ := h.proposePerson (stamp rows.length)
    exact ⟨s', known', hread⟩
  | proposePosition p position confidence signals by' =>
    cases hc : IdentityTracker.proposePosition py p position confidence signals by' with
    | error x =>
      simp only [Op.call, hc]
      exact ⟨s, known, h⟩
    | ok c =>
      simp only [Op.call, hc]
      obtain ⟨s', hread, -⟩ := h.proposePosition hc (stamp rows.length)
      exact ⟨s', _, hread⟩
  | confirmPosition p position by' =>
    obtain ⟨s', hread, -⟩ := h.confirmPosition (stamp rows.length)
    exact ⟨s', known, hread⟩
  | rejectPosition p position by' reason =>
    obtain ⟨s', hread, -⟩ := h.rejectPosition (stamp rows.length)
    exact ⟨s', known, hread⟩

/-- An operation after which the two agree, when they did before. -/
theorem Read.follows_perform (h : Read py rows s known) (hsame : ∀ pid, pid ∈ known ↔ pid ∈ positioned (s .people))
    (op : Op) : Follows py (IdentityTracker.perform py company stamp rows op) ↔ Lasting py company rows op := by
  have hlasting : ∀ {P : People → Prop}, (∀ people, IdentityTracker.projected py rows = .ok people → P people) ↔ P (s .people) := by
    intro P
    constructor
    · exact fun hall => hall _ h.projected
    · intro hp people hpeople
      exact Except.ok.inj (h.projected.symm.trans hpeople) ▸ hp
  cases op with
  | proposePerson p tenant name email platform puid position by' =>
    obtain ⟨s', known', hread, rfl, hafter⟩ := @Read.proposePerson py company rows s known h p tenant name platform puid
      by' email position (stamp rows.length)
    have hat := @follows_at known (if (textOrNone position).truthy then p.str :: known else known) (s .people)
      (s' .people) p.str hsame (fun t ht => by split <;> simp [Ne.symm ht]) fun t ht => by rw [hafter, if_neg ht]
    have hmem : p.str ∈ positioned (s' .people) ↔ position ≠ none := by
      rw [mem_positioned, hafter, if_pos rfl, ← textOrNone_ne]
      simp
    refine hread.follows_iff.trans (hat.trans ?_)
    rw [hmem, Lasting, hlasting]
    cases position with
    | none => simp [textOrNone, Val.truthy, hsame]
    | some t =>
      by_cases ht : t = ""
      · simp [textOrNone, Val.truthy, ht, hsame]
      · simp [textOrNone, Val.truthy, ht]
  | proposePosition p position confidence signals by' =>
    rw [Lasting, hlasting, IdentityTracker.perform, Op.call]
    cases hc : IdentityTracker.proposePosition py p position confidence signals by' with
    | error x =>
      refine iff_of_true (h.follows_iff.mpr hsame) ?_
      rintro ⟨c, hother⟩
      cases hother
    | ok c =>
      obtain ⟨s', hread, hafter⟩ := @Read.proposePosition py company rows s known h p position by' confidence signals c hc
        (stamp rows.length)
      have hat := @follows_at known (p.str :: known) (s .people) (s' .people) p.str hsame
        (fun t ht => by simp [Ne.symm ht]) fun t ht => by rw [hafter, if_neg ht]
      refine hread.follows_iff.trans (hat.trans ?_)
      rw [mem_positioned, hafter, if_pos rfl]
      cases hposition : positionOf (s .people) p.str with
      | none => simp [hposition]
      | some v => simp [hposition]
  | confirmPosition p position by' =>
    obtain ⟨s', hread, hpeople⟩ := @Read.confirmPosition py company rows s known h p by' position (stamp rows.length)
    refine iff_of_true (hread.follows_iff.mpr ?_) fun _ _ => trivial
    rw [hpeople]
    exact hsame
  | rejectPosition p position by' reason =>
    obtain ⟨s', hread, hafter⟩ := @Read.rejectPosition py company rows s known h p by' position reason (stamp rows.length)
    have hat := @follows_at known known (s .people) (s' .people) p.str hsame (fun _ _ => Iff.rfl)
      fun t ht => by rw [hafter, if_neg ht]
    refine hread.follows_iff.trans (hat.trans ?_)
    rw [mem_positioned, hafter, if_pos rfl, hsame, mem_positioned, Lasting, hlasting]
    cases hposition : positionOf (s .people) p.str with
    | none => simp [hposition]
    | some v =>
      by_cases hv : v = .str position
      · subst hv
        simp [same_str, hposition]
      · simp [same_str, hv, hposition]

/-- All along a run the reactivity takes the persons for known that have a position exactly if no position is taken back
    and none is proposed for a person without a row. -/
theorem known_positions_iff {ops : List Op} : Run.Always (step py company stamp) (Follows py) [] ops ↔
    Run.Guarded (step py company stamp) (Lasting py company) [] ops := by
  have hstart : Read py [] initialProjectionState [] := ⟨rfl, rfl⟩
  have hfollows : Follows py [] := by
    refine hstart.follows_iff.mpr fun pid => iff_of_false List.not_mem_nil ?_
    rintro ⟨v, hv, -⟩
    cases hv
  obtain ⟨rows, hrows⟩ := Run.exec_total (fun rows op => ⟨perform py company stamp rows op, rfl⟩) ops []
  refine Run.always_iff_guarded (I := fun rows => ∃ s known, Read py rows s known) ?_ ?_ ⟨_, _, hstart⟩ hfollows hrows
  · rintro rows op rows' ⟨s, known, h⟩ ⟨⟩
    exact h.perform op
  · rintro rows op rows' ⟨s, known, h⟩ hfollows ⟨⟩
    exact h.follows_perform (h.follows_iff.mp hfollows) op

/-- A message of a person: it is scored exactly if the person has no position. -/
theorem Follows.fire (h : Follows py rows) {people : People} (hpeople : projected py rows = .ok people)
    (scoreSignals : List Val → Except Err Scored) (threshold : PyFloat) {entry payload args : Dict} {pid : String}
    (hpayload : entry.get "payload" = .dict payload)
    (htool : Dict.get payload "tool" = .str "channel_adapter.emit_chat_received")
    (hargs : Dict.get payload "args" = .dict args) (hsender : Dict.get args "sender_person" = .str pid) (hpid : pid ≠ "") :
    (pid ∈ positioned people → fire py scoreSignals threshold rows entry = .ok none) ∧
      (pid ∉ positioned people → fire py scoreSignals threshold rows entry =
        infer py scoreSignals threshold rows (.str pid)) := by
  obtain ⟨known, people', hknown, hpeople', hsame⟩ := h
  obtain rfl := Except.ok.inj (hpeople.symm.trans hpeople')
  have hfire : IdentityTracker.fire py scoreSignals threshold rows entry =
      if known.contains pid then .ok none else infer py scoreSignals threshold rows (.str pid) := by
    have htruthy : (Val.str pid).truthy = true := by simp [Val.truthy, hpid]
    have hchat : ((Val.str "channel_adapter.emit_chat_received").or (.str "")).isText
      "channel_adapter.emit_chat_received" = true := by decide
    simp only [IdentityTracker.fire, hpayload, orMapping_dict, htool, hargs, hsender, htruthy, hchat, if_true, hknown,
      inKnown, Val.hash, bind, Except.bind, pure, Except.pure]
  rw [hfire]
  constructor
  · intro hin
    rw [if_pos (List.contains_iff_mem.mpr ((hsame pid).mpr hin))]
  · intro hnot
    rw [if_neg fun hin => hnot ((hsame pid).mp (List.contains_iff_mem.mp hin))]

/-- A person whose proposed position was rejected stays known for it. -/
theorem rejected_stays_known : ¬Run.Always (step .plain ⟨1⟩ fun _ => Projection.instantStamp) (Follows .plain) []
    [.proposePerson ⟨7⟩ none "Ada" none "slack" "U1" none "worm",
      .proposePosition ⟨7⟩ "data_engineer" .one ["patterns"] "worm",
      .rejectPosition ⟨7⟩ "data_engineer" ⟨8⟩ none] := by
  intro hall
  have hstart : Read .plain [] initialProjectionState [] := ⟨rfl, rfl⟩
  obtain ⟨s₁, known₁, h₁, -, hafter₁⟩ := @Read.proposePerson .plain ⟨1⟩ _ _ _ hstart ⟨7⟩ none "Ada" "slack" "U1" "worm"
    none none Projection.instantStamp
  obtain ⟨c, hc⟩ : ∃ c, proposePosition .plain ⟨7⟩ "data_engineer" .one ["patterns"] "worm" = .ok c := ⟨_, rfl⟩
  obtain ⟨s₂, h₂, hafter₂⟩ := @Read.proposePosition .plain ⟨1⟩ _ _ _ h₁ ⟨7⟩ "data_engineer" "worm" .one ["patterns"] c hc
    Projection.instantStamp
  obtain ⟨-, hall⟩ := hall
  obtain ⟨-, hall⟩ := hall _ rfl
  obtain ⟨hfollows, hall⟩ := hall _ (congrArg some (perform_ok hc))
  have hlasting := (h₂.follows_perform (h₂.follows_iff.mp hfollows) (.rejectPosition ⟨7⟩ "data_engineer" ⟨8⟩ none)).mp
    (hall _ rfl)
  refine hlasting _ h₂.projected ?_
  rw [hafter₂, if_pos rfl, hafter₁, if_pos rfl]
  rfl

end

end IdentityTracker
