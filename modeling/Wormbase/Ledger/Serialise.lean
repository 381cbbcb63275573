import Wormbase.Ledger.Concurrent

/-! When concurrent writers serialise.

    The lock covers the row that a writer found, not the place after it. Two writers that find the
    company empty share no lock, and a waiter may get a row that is no longer the newest: the second
    to commit then breaks the constraint on the seq. -/

namespace Ledger
open Py

section
variable {ι : Type} [DecidableEq ι] {sha256 : Bytes → Bytes} {calls : ι → Call}

/-! ### What the rows of a run are built from -/

section
variable {d : Dialect}

/-- Behind the rows of every company, before storage, stands a sealed chain. -/
def Sound (sha256 : Bytes → Bytes) (d : Dialect) (rows : List Entry) : Prop :=
  ∀ companyId, ∃ es, SealedChain sha256 companyId es ∧ StoredAs d es (ofCompany rows companyId)

theorem sound_nil : Sound sha256 d [] := fun companyId => ⟨[], sealedChain_nil companyId, .nil⟩

theorem sound_write {rows : List Entry} (h : Sound sha256 d rows) (c : Call) : Sound sha256 d (write sha256 d rows c).2 := by
  intro companyId
  rcases @write_outcome sha256 d rows c with ⟨ep, vp, rp, p, e, v, r, new, hb, hnew, hw⟩ | ⟨x, hw⟩
  · obtain ⟨p', e', v', r', rfl, hg⟩ := hb.group hnew
    rw [hw, ofCompany_append]
    by_cases hc : companyId = c.companyId
    · subst hc
      obtain ⟨es, hes, hrel⟩ := h c.companyId
      rw [tail_of_storedAs hes.toContiguous hrel] at hb
      have hown : ofCompany [p', e', v', r'] c.companyId = [p', e', v', r'] :=
        List.filter_eq_self.mpr fun row hrow => decide_eq_true (hg.company row hrow)
      rw [hown]
      exact ⟨es ++ [p, e, v, r], hb.chain hes, List.rel_append hrel hnew⟩
    · have hnone : ofCompany [p', e', v', r'] companyId = [] :=
        List.filter_eq_nil_iff.mpr fun row hrow => by simpa [hg.company row hrow] using Ne.symm hc
      rw [hnone, List.append_nil]
      exact h companyId
  · rw [hw]
    exact h companyId

/-- Behind the rows of a run stand sealed chains. -/
theorem sealedChain_runWrites (cs : List Call) : Sound sha256 d (runWrites sha256 d [] cs) :=
  List.foldlRecOn (motive := Sound sha256 d) cs _ sound_nil fun _ h c _ => sound_write h c

end

/-- Every row of a run has an id of one of its calls. -/
theorem entryId_mem_runWrites {d : Dialect} : ∀ {cs : List Call} {rows : List Entry} {row : Entry},
    row ∈ runWrites sha256 d rows cs → row ∈ rows ∨ ∃ c ∈ cs, row.entryId ∈ c.ids
  | [], _, _, h => .inl h
  | c :: cs, rows, row, h => by
    rw [runWrites_cons] at h
    rcases entryId_mem_runWrites h with h | ⟨c', hc', hid⟩
    · rcases @write_cases sha256 d rows c with ⟨res, ep, vp, rp, p, e, v, r, hg, hw⟩ | ⟨x, hw⟩
      · rw [hw] at h
        rcases List.mem_append.mp h with h | h
        · exact .inl h
        · exact .inr ⟨c, List.mem_cons_self, hg.ids ▸ List.mem_map_of_mem h⟩
      · rw [hw] at h
        exact .inl h
    · exact .inr ⟨c', List.mem_cons_of_mem _ hc', hid⟩

/-- No id is drawn twice. -/
structure FreshCalls {ι : Type} (calls : ι → Call) : Prop where
  nodup : ∀ w, (calls w).ids.Nodup
  disjoint : ∀ v w, v ≠ w → List.Disjoint (calls v).ids (calls w).ids

/-! ### Commits -/

theorem foldlM_addRow_error : ∀ {new rows : List Entry} {x : Err},
    new.foldlM addRow rows = .error x → x = integrityError
  | [], _, _, h => by cases h
  | row :: new, rows, x, h => by
    rw [List.foldlM_cons, addRow] at h
    split at h
    · exact (Except.error.inj h).symm
    · exact foldlM_addRow_error h

/-- A transaction with nothing left to insert ends at its commit. -/
theorem commit_cases {s : World ι} {w : ι} {found : Option Entry} {pending : List Entry}
    (hphase : s.phase w = .writing found pending)
    (hdone : nextRow sha256 (calls w) (tailOf found) pending = none) :
    ∃ s', step sha256 calls s (.commit w) = some s' ∧
      (s'.phase w = .committed ∨ s'.phase w = .aborted integrityError) ∧
      ∀ v, v ≠ w → s'.phase v = s.phase v := by
  cases hrows : pending.foldlM addRow s.rows with
  | ok rows =>
    refine ⟨{ s.finish w found .committed with rows := rows }, ?_, .inl (by simp), fun v hv => ?_⟩
    · simp only [step, hphase, hdone, hrows]
    · simp [Function.update_of_ne hv]
  | error x =>
    obtain rfl := foldlM_addRow_error hrows
    refine ⟨s.finish w found (.aborted integrityError), ?_, .inr (by simp), fun v hv => ?_⟩
    · simp only [step, hphase, hdone, hrows]
    · simp [Function.update_of_ne hv]

section
variable (hinj : Function.Injective sha256) (hfresh : FreshCalls calls) {s : World ι}
  (h : Inv sha256 calls s) {w : ι} {found : Option Entry} {pending : List Entry}
  (hphase : s.phase w = .writing found pending)
  (hdone : nextRow sha256 (calls w) (tailOf found) pending = none)
include hinj hfresh h hphase hdone

omit [DecidableEq ι] in
/-- The rows of a transaction that still has the newest row break no constraint. -/
theorem addRow_of_newest (hnewest : newest s.rows (calls w).companyId = found) :
    ∃ rows, pending.foldlM addRow s.rows = .ok rows := by
  have hok := h.writers w
  rw [hphase] at hok
  obtain ⟨ep, vp, rp, p, e, v, r, hb, hstored, -⟩ := write_eq_of_newest hdone hok.2 hnewest
  obtain ⟨order, -, horder, hserial⟩ := h.serial
  obtain ⟨es, hes, hrel⟩ := @sealedChain_runWrites sha256 .postgresql (order.map calls)
    (calls w).companyId
  rw [← hserial] at hrel
  have hids : FreshIds s.rows (calls w) := by
    refine ⟨hfresh.nodup w, fun row hrow hid => ?_⟩
    rw [hserial] at hrow
    rcases entryId_mem_runWrites hrow with hrow | ⟨c, hc, hid'⟩
    · cases hrow
    · obtain ⟨v, hv, rfl⟩ := List.mem_map.mp hc
      -- that writer has committed, and this one has not
      have hne : v ≠ w := by
        rintro rfl
        rw [(horder v).mp hv] at hphase
        cases hphase
      exact hfresh.disjoint v w hne hid' hid
  rw [tail_of_storedAs hes.toContiguous hrel] at hb
  exact addRow_of_built hinj hes hrel hids hb hstored

/-- A transaction commits exactly when the row it found is still the newest. -/
theorem commit_iff : (∃ s', step sha256 calls s (.commit w) = some s' ∧ s'.phase w = .committed) ↔
    newest s.rows (calls w).companyId = found := by
  constructor
  · rintro ⟨s', hstep, hcommitted⟩
    cases step_moves hstep with
    | commit hphase' hdone' hrows =>
      obtain ⟨rfl, rfl⟩ := Phase.writing.inj (hphase.symm.trans hphase')
      exact h.found_newest hphase hdone hrows
    | abort => simp at hcommitted
  · intro hnewest
    obtain ⟨rows, hrows⟩ := addRow_of_newest hinj hfresh h hphase hdone hnewest
    refine ⟨{ s.finish w found .committed with rows := rows }, ?_, by simp⟩
    simp only [step, hphase, hdone, hrows]

end

/-! ### Runs in which every tail read is current -/

/-- The row that a writer under way has found. -/
def Phase.found? : Phase → Option (Option Entry)
  | .writing found _ => some found
  | _ => none

/-- The row that a writer gets is the newest of its company, and no other writer is under way on the
    empty company. -/
def ReadsNewest (calls : ι → Call) (s : World ι) : Action ι → Prop
  | .lock w => ∀ found, s.phase w = .waiting found →
      newest s.rows (calls w).companyId = found ∧
        (found = none → ∀ v, (calls v).companyId = (calls w).companyId →
          (s.phase v).found? ≠ some none)
  | _ => True

variable (sha256 calls) in
/-- One writer at a time has the newest row of a company, and it has its lock. -/
structure Serial (s : World ι) : Prop extends Inv sha256 calls s where
  current : ∀ w found, (s.phase w).found? = some found → newest s.rows (calls w).companyId = found
  held : ∀ w row, (s.phase w).found? = some (some row) → s.locks row.key = some w
  alone : ∀ v w found found', (s.phase v).found? = some found → (s.phase w).found? = some found' →
    (calls v).companyId = (calls w).companyId → v = w
  clean : ∀ w x, s.phase w ≠ .aborted x

omit [DecidableEq ι] in
theorem serial_start : Serial sha256 calls World.start :=
  ⟨inv_start, by simp [World.start, Phase.found?], by simp [World.start, Phase.found?],
    by simp [World.start, Phase.found?], by simp [World.start]⟩

section
variable {s s' : World ι} (h : Serial sha256 calls s) (hinv : Inv sha256 calls s')
include h hinv

/-- A step of a writer that does not find a row in it, while the others keep what they have. -/
theorem Serial.shrink {w : ι} {p : Phase} (hphase : s'.phase = Function.update s.phase w p)
    (hp : ∀ found, p.found? = some found →
      (s.phase w).found? = some found ∧ s'.rows = s.rows ∧ s'.locks = s.locks)
    (hothers : ∀ v found, v ≠ w → (s.phase v).found? = some found →
      newest s'.rows (calls v).companyId = newest s.rows (calls v).companyId ∧
      ∀ row, found = some row → s'.locks row.key = s.locks row.key)
    (hclean : ∀ x, p ≠ .aborted x) : Serial sha256 calls s' := by
  have hkept : ∀ v found, (s'.phase v).found? = some found → (s.phase v).found? = some found ∧
      newest s'.rows (calls v).companyId = newest s.rows (calls v).companyId ∧
      ∀ row, found = some row → s'.locks row.key = s.locks row.key := by
    intro v found hv
    rw [hphase] at hv
    by_cases hvw : v = w
    · subst hvw
      rw [Function.update_self] at hv
      obtain ⟨hfound, hrows, hlocks⟩ := hp found hv
      exact ⟨hfound, by rw [hrows], fun row _ => by rw [hlocks]⟩
    · rw [Function.update_of_ne hvw] at hv
      exact ⟨hv, hothers v found hvw hv⟩
  refine ⟨hinv, fun v found hv => ?_, fun v row hv => ?_, fun v v' f f' hv hv' => ?_, fun v x => ?_⟩
  · obtain ⟨hfound, hnewest, -⟩ := hkept v found hv
    rw [hnewest]
    exact h.current v found hfound
  · obtain ⟨hfound, -, hlock⟩ := hkept v _ hv
    rw [hlock row rfl]
    exact h.held v row hfound
  · exact h.alone v v' f f' (hkept v f hv).1 (hkept v' f' hv').1
  · rw [hphase]
    by_cases hvw : v = w
    · subst hvw
      rw [Function.update_self]
      exact hclean x
    · rw [Function.update_of_ne hvw]
      exact h.clean v x

/-- A step after which one more writer is under way, with the newest row of its company. -/
theorem Serial.grow {w : ι} {found : Option Entry} {pending : List Entry} (hrows : s'.rows = s.rows)
    (hphase : s'.phase = Function.update s.phase w (.writing found pending))
    (hnewest : newest s.rows (calls w).companyId = found)
    (hheld : ∀ row, found = some row → s'.locks row.key = some w)
    (hothers : ∀ v row, v ≠ w → (s.phase v).found? = some (some row) →
      s'.locks row.key = s.locks row.key)
    (halone : ∀ v, v ≠ w → (calls v).companyId = (calls w).companyId →
      (s.phase v).found? ≠ some found) : Serial sha256 calls s' := by
  have hself : (s'.phase w).found? = some found := by
    rw [hphase, Function.update_self]
    rfl
  have hother : ∀ {v}, v ≠ w → s'.phase v = s.phase v := fun hv => by
    rw [hphase, Function.update_of_ne hv]
  -- another writer of the company would have the newest row too
  have hfree : ∀ {v found'}, v ≠ w → (s.phase v).found? = some found' →
      (calls v).companyId ≠ (calls w).companyId := by
    intro v found' hv hfound hcompany
    have hcurrent := h.current v found' hfound
    rw [hcompany, hnewest] at hcurrent
    exact halone v hv hcompany (hcurrent ▸ hfound)
  refine ⟨hinv, fun v found' hv => ?_, fun v row hv => ?_, fun v v' f f' hv hv' hcompany => ?_,
    fun v x => ?_⟩
  · rw [hrows]
    by_cases hvw : v = w
    · subst hvw
      rw [hnewest]
      exact Option.some.inj (hself.symm.trans hv)
    · exact h.current v found' (hother hvw ▸ hv)
  · by_cases hvw : v = w
    · subst hvw
      exact hheld row (Option.some.inj (hself.symm.trans hv))
    · rw [hother hvw] at hv
      rw [hothers v row hvw hv]
      exact h.held v row hv
  · by_cases hvw : v = w
    · by_cases hvw' : v' = w
      · rw [hvw, hvw']
      · rw [hother hvw'] at hv'
        rw [hvw] at hcompany
        exact absurd hcompany.symm (hfree hvw' hv')
    · rw [hother hvw] at hv
      by_cases hvw' : v' = w
      · rw [hvw'] at hcompany
        exact absurd hcompany (hfree hvw hv)
      · rw [hother hvw'] at hv'
        exact h.alone v v' f f' hv hv' hcompany
  · by_cases hvw : v = w
    · subst hvw
      simp [hphase]
    · rw [hother hvw]
      exact h.clean v x

end

/-- The end of a transaction frees the row of no other writer. -/
theorem Serial.finish_locks {s : World ι} (h : Serial sha256 calls s) {v w : ι} {found : Option Entry}
    (p : Phase) {row : Entry} (hw : (s.phase w).found? = some found) (hvw : v ≠ w)
    (hv : (s.phase v).found? = some (some row)) :
    (s.finish w found p).locks row.key = s.locks row.key := by
  cases found with
  | none => rfl
  | some other =>
    refine Function.update_of_ne (fun hkey => hvw ?_) ..
    have hlocks := h.held v row hv
    rw [hkey, h.held w other hw] at hlocks
    exact (Option.some.inj hlocks).symm

theorem serial_step (hinj : Function.Injective sha256) (hfresh : FreshCalls calls) {s s' : World ι}
    {a : Action ι} (h : Serial sha256 calls s) (hread : ReadsNewest calls s a)
    (hstep : step sha256 calls s a = some s') : Serial sha256 calls s' := by
  have hinv := inv_step h.toInv hstep
  cases step_moves hstep with
  | select hphase =>
    exact h.shrink hinv rfl (by simp [Phase.found?]) (fun _ _ _ _ => ⟨rfl, fun _ _ => rfl⟩) (by simp)
  | @readEmpty w hphase =>
    obtain ⟨hnewest, hnone⟩ := hread none hphase
    exact h.grow hinv rfl rfl hnewest (by simp) (fun _ _ _ _ => rfl) fun v _ => hnone rfl v
  | @lock w row hphase hfree =>
    obtain ⟨hnewest, -⟩ := hread (some row) hphase
    refine h.grow hinv rfl rfl hnewest (fun row' heq => ?_) (fun v row' hvw hv => ?_) fun v _ _ hv => ?_
    · rw [Option.some.inj heq]
      exact Function.update_self ..
    · refine Function.update_of_ne (fun hkey => ?_) ..
      have hlocks := h.held v row' hv
      rw [hkey, hfree] at hlocks
      cases hlocks
    · have hlocks := h.held v row hv
      rw [hfree] at hlocks
      cases hlocks
  | insert hphase hrow =>
    refine h.shrink hinv rfl (fun found' hfound => ⟨?_, rfl, rfl⟩)
      (fun _ _ _ _ => ⟨rfl, fun _ _ => rfl⟩) (by simp)
    rw [hphase]
    exact hfound
  | @fail w found pending x hphase hrow =>
    have hw : (s.phase w).found? = some found := by rw [hphase]; rfl
    exact h.shrink hinv rfl (by simp [Phase.found?]) (fun v found' hvw hv =>
      ⟨rfl, fun row heq => h.finish_locks _ hw hvw (heq ▸ hv)⟩) (by simp)
  | @commit w found pending rows hphase hdone hrows =>
    have hw : (s.phase w).found? = some found := by rw [hphase]; rfl
    refine h.shrink hinv rfl (by simp [Phase.found?]) (fun v found' hvw hv => ⟨?_, fun row heq =>
      h.finish_locks .committed hw hvw (heq ▸ hv)⟩) (by simp)
    -- the others write to other companies
    have hcompany : (calls w).companyId ≠ (calls v).companyId := fun heq =>
      hvw (h.alone w v found found' hw hv heq).symm
    have hok := h.writers w
    rw [hphase] at hok
    obtain ⟨ep, vp, rp, p, e, v', r, hb, hstored⟩ := hok.2.built hdone
    obtain ⟨p', e', v', r', rfl, hg⟩ := hb.group hstored
    obtain ⟨rfl, -⟩ := foldlM_addRow_ok hrows
    have hnone : ofCompany [p', e', v', r'] (calls v).companyId = [] :=
      List.filter_eq_nil_iff.mpr fun row hrow => by simpa [hg.company row hrow] using hcompany
    rw [newest, ofCompany_append, hnone, List.append_nil, ← newest]
  | @abort w found pending x hphase hdone hrows =>
    have hw : (s.phase w).found? = some found := by rw [hphase]; rfl
    obtain ⟨rows, hok⟩ := addRow_of_newest hinj hfresh h.toInv hphase hdone (h.current w found hw)
    rw [hok] at hrows
    cases hrows

end

/-- With ids that are never drawn twice and a collision-free hash: a run in which every writer gets
    the newest row of its company, and meets no other on the empty company, aborts nobody, and every
    writer that has inserted its rows can commit them. In any run a writer that has inserted its rows
    can commit them exactly when the row it found is still the newest. -/
theorem exec_commits_of_readsNewest {ι : Type} [DecidableEq ι] (sha256 : Bytes → Bytes)
    (calls : ι → Call)
    (hinj : Function.Injective sha256) (hfresh : FreshCalls calls) (acts : List (Action ι)) (s : World ι)
    (h : Run.exec (step sha256 calls) World.start acts = some s) :
    (Run.Guarded (step sha256 calls) (ReadsNewest calls) World.start acts →
      (∀ w x, s.phase w ≠ .aborted x) ∧
      ∀ w found pending, s.phase w = .writing found pending →
        nextRow sha256 (calls w) (tailOf found) pending = none →
          ∃ s', step sha256 calls s (.commit w) = some s' ∧ s'.phase w = .committed) ∧
    ∀ w found pending, s.phase w = .writing found pending →
      nextRow sha256 (calls w) (tailOf found) pending = none →
        ((∃ s', step sha256 calls s (.commit w) = some s' ∧ s'.phase w = .committed) ↔
          newest s.rows (calls w).companyId = found) := by
  have hinv : Inv sha256 calls s := Run.exec_invariant (fun _ _ _ => inv_step) inv_start h
  refine ⟨fun hg => ?_, fun w found pending hphase hdone => commit_iff hinj hfresh hinv hphase hdone⟩
  have hserial : Serial sha256 calls s :=
    Run.guarded_invariant (fun _ _ _ => serial_step hinj hfresh) serial_start hg h
  refine ⟨hserial.clean, fun w found pending hphase hdone => ?_⟩
  exact (commit_iff hinj hfresh hinv hphase hdone).mpr (hserial.current w found (by rw [hphase]; rfl))

theorem twoWriters_fresh : FreshCalls twoWriters := by
  refine ⟨twoWriters_ids, fun v w hvw id hv hw => ?_⟩
  have hne : v.val ≠ w.val := fun h => hvw (Fin.ext h)
  simp only [Call.ids, twoWriters, List.mem_cons, List.not_mem_nil, or_false] at hv hw
  rcases hv with rfl | rfl | rfl | rfl <;>
    simp only [UUID.mk.injEq, Fin.mk.injEq] at hw <;> omega

/-- A lone writer reads the newest row of the empty company. -/
theorem oneWriter_readsNewest : Run.Guarded (step tagHash twoWriters) (ReadsNewest twoWriters)
    World.start ([.select 0, .lock 0] ++ List.replicate 4 (.insert 0)) := by
  refine ⟨trivial, fun t ht => ⟨?_, fun t' _ => Run.guarded_of_forall fun a ha s => ?_⟩⟩
  · obtain rfl : World.start.setPhase 0 (.waiting none) = t := Option.some.inj ht
    intro found hfound
    obtain rfl : none = found := by simpa using hfound
    refine ⟨rfl, fun _ v _ => ?_⟩
    by_cases hv : v = 0
    · subst hv
      simp [Phase.found?]
    · simp [Function.update_of_ne hv, World.start, Phase.found?]
  · rw [List.eq_of_mem_replicate ha]
    trivial

/-- One of two writers on the empty company, on its own, can commit. -/
theorem oneWriter_commits : ∃ s s', Run.exec (step tagHash twoWriters) World.start
      ([.select 0, .lock 0] ++ List.replicate 4 (.insert 0)) = some s ∧
    step tagHash twoWriters s (.commit 0) = some s' ∧ s'.phase 0 = .committed := by
  obtain ⟨_, _, _, p, e, v, r, new, hb, hnew⟩ := twoWriters_built 0
  obtain ⟨t, ht, h₀⟩ : ∃ t, Run.exec (step tagHash twoWriters) World.start [.select 0, .lock 0] =
      some t ∧ t.phase 0 = .writing none [] := ⟨_, rfl, rfl⟩
  obtain ⟨hexec, hdone⟩ := @exec_inserts _ _ tagHash twoWriters t 0 none _ _ _ _ _ _ _ _ h₀ hb hnew
  have hexec := Run.exec_append.mpr ⟨t, ht, hexec⟩
  obtain ⟨hguarded, -⟩ := exec_commits_of_readsNewest tagHash twoWriters tagHash_injective
    twoWriters_fresh _ _ hexec
  obtain ⟨-, hcommits⟩ := hguarded oneWriter_readsNewest
  obtain ⟨s', hstep, hs'⟩ := hcommits 0 none new (by simp) hdone
  exact ⟨_, s', hexec, hstep, hs'⟩

/-- Two writers that both find the company empty: the second is aborted. -/
theorem twoWriters_second_aborted : ∃ s, Run.exec (step tagHash twoWriters) World.start
      (bothInserted ++ [.commit 0, .commit 1]) = some s ∧
    s.phase 0 = .committed ∧ s.phase 1 = .aborted integrityError := by
  obtain ⟨s, new₁, hexec, h₀, h₁, hdone₁⟩ := exec_firstCommitted
  have hinv : Inv tagHash twoWriters s := Run.exec_invariant (fun _ _ _ => inv_step) inv_start hexec
  have hstale : newest s.rows (twoWriters 1).companyId ≠ none := by
    have hgroup := hinv.writers 0
    rw [h₀] at hgroup
    obtain ⟨before, p, e, v, r, after, hrows, -⟩ := hgroup
    rw [show (twoWriters 1).companyId = (twoWriters 0).companyId from rfl,
      newest_of_contiguous (hinv.chain _).toContiguous, hrows]
    simp
  obtain ⟨s', hstep, hs', hothers⟩ := @commit_cases _ _ tagHash twoWriters s 1 _ _ h₁ hdone₁
  refine ⟨s', ?_, by rw [hothers 0 (by decide), h₀], hs'.resolve_left fun hcommitted => ?_⟩
  · rw [show bothInserted ++ [.commit 0, .commit 1] = bothInserted ++ [.commit 0] ++ [.commit 1] by
      simp]
    exact Run.exec_append.mpr ⟨s, hexec, Run.exec_cons.mpr ⟨s', hstep, rfl⟩⟩
  · exact hstale ((commit_iff tagHash_injective twoWriters_fresh hinv h₁ hdone₁).mp
      ⟨s', hstep, hcommitted⟩)

end Ledger
