import Wormbase.Ledger.Runs
import Wormbase.Lib.Run

/-! Concurrent writers on Postgres, under READ COMMITTED.

    A writer selects the newest committed row of its company, waits for the lock of that row, inserts
    its four rows where only it sees them, and commits them against the constraints of the table. A
    waiter gets the row it had selected, whatever was committed since, or selects again; when the
    company has no row there is nothing to lock. -/

namespace Ledger
open Py

/-! ### The steps of a writer -/

/-- A writer fails when a step raises, and is aborted when its rows break a constraint. -/
inductive Phase where
  | idle
  | waiting (found : Option Entry)
  | writing (found : Option Entry) (pending : List Entry)
  | committed
  | failed (x : Err)
  | aborted (x : Err)

/-- The committed rows, the locked rows by company and seq, and the writers. -/
structure World (ι : Type) where
  rows : List Entry
  locks : UUID × ℕ → Option ι
  phase : ι → Phase

inductive Action (ι : Type) where
  | select (w : ι)
  | lock (w : ι)
  | insert (w : ι)
  | commit (w : ι)

def Entry.key (e : Entry) : UUID × ℕ := (e.companyId, e.seq)

namespace World
variable {ι : Type} [DecidableEq ι]

/-- Nobody has started. -/
def start : World ι := ⟨[], fun _ => none, fun _ => .idle⟩

def setPhase (s : World ι) (w : ι) (p : Phase) : World ι :=
  { s with phase := Function.update s.phase w p }

/-- The end of a transaction: its lock is free and its writer is done. -/
def finish (s : World ι) (w : ι) (found : Option Entry) (p : Phase) : World ι :=
  { s.setPhase w p with
    locks := match found with
      | none => s.locks
      | some row => Function.update s.locks row.key none }

end World

section
variable (sha256 : Bytes → Bytes)

/-- The row of a body. -/
def storeBody (b : Body) : Except Err Entry := do storeRow .postgresql (← sealEntry sha256 b)

/-- The next row of a transaction that found the tail `t` and has inserted `pending`. -/
def nextRow (c : Call) (t : ℕ × Bytes) : List Entry → Option (Except Err Entry)
  | [] => some (storeBody sha256 (c.body c.proposeId (t.1 + 1) t.2 .propose c.propose))
  | [p] => some do
    storeBody sha256 (c.body c.executeId (t.1 + 2) p.hash .execute (← c.execPayload))
  | [_, e] => some do
    let verifyPayload ← c.verifyPayload (← c.execPayload)
    storeBody sha256 (c.body c.verifyId (t.1 + 3) e.hash .verify verifyPayload)
  | [_, _, v] => some do
    let verifyPayload ← c.verifyPayload (← c.execPayload)
    if !Call.passed verifyPayload then throw verifyFailed
    let resolvePayload ← c.resolvePayload verifyPayload
    storeBody sha256 (c.body c.resolveId (t.1 + 4) v.hash .resolve resolvePayload)
  | _ => none

/-- One step of one writer, if it can take it. -/
def step {ι : Type} [DecidableEq ι] (calls : ι → Call) (s : World ι) : Action ι → Option (World ι)
  | .select w =>
    match s.phase w with
    | .idle | .waiting _ => some (s.setPhase w (.waiting (newest s.rows (calls w).companyId)))
    | _ => none
  | .lock w =>
    match s.phase w with
    | .waiting none => some (s.setPhase w (.writing none []))
    | .waiting (some row) =>
      if s.locks row.key = none then
        some { s.setPhase w (.writing (some row) []) with
          locks := Function.update s.locks row.key (some w) }
      else none
    | _ => none
  | .insert w =>
    match s.phase w with
    | .writing found pending =>
      match nextRow sha256 (calls w) (tailOf found) pending with
      | some (.ok row) => some (s.setPhase w (.writing found (pending ++ [row])))
      | some (.error x) => some (s.finish w found (.failed x))
      | none => none
    | _ => none
  | .commit w =>
    match s.phase w with
    | .writing found pending =>
      match nextRow sha256 (calls w) (tailOf found) pending with
      | some _ => none
      | none =>
        match pending.foldlM addRow s.rows with
        | .ok rows => some { s.finish w found .committed with rows := rows }
        | .error x => some (s.finish w found (.aborted x))
    | _ => none

end

section
variable {ι : Type} [DecidableEq ι]

@[simp] theorem World.setPhase_rows (s : World ι) (w : ι) (p : Phase) : (s.setPhase w p).rows = s.rows :=
  rfl

@[simp] theorem World.setPhase_phase (s : World ι) (w : ι) (p : Phase) :
    (s.setPhase w p).phase = Function.update s.phase w p := rfl

@[simp] theorem World.setPhase_setPhase (s : World ι) (w : ι) (p q : Phase) :
    (s.setPhase w p).setPhase w q = s.setPhase w q := by
  simp [World.setPhase]

@[simp] theorem World.finish_rows (s : World ι) (w : ι) (found : Option Entry) (p : Phase) :
    (s.finish w found p).rows = s.rows := rfl

@[simp] theorem World.finish_phase (s : World ι) (w : ι) (found : Option Entry) (p : Phase) :
    (s.finish w found p).phase = Function.update s.phase w p := rfl

section
variable (sha256 : Bytes → Bytes) (calls : ι → Call)

/-- What a step can do. -/
inductive Moves (s : World ι) : Action ι → World ι → Prop
  | select {w : ι} (h : s.phase w = .idle ∨ ∃ found, s.phase w = .waiting found) :
      Moves s (.select w) (s.setPhase w (.waiting (newest s.rows (calls w).companyId)))
  | readEmpty {w : ι} (h : s.phase w = .waiting none) :
      Moves s (.lock w) (s.setPhase w (.writing none []))
  | lock {w : ι} {row : Entry} (h : s.phase w = .waiting (some row)) (hfree : s.locks row.key = none) :
      Moves s (.lock w) { s.setPhase w (.writing (some row) []) with
        locks := Function.update s.locks row.key (some w) }
  | insert {w : ι} {found : Option Entry} {pending : List Entry} {row : Entry}
      (h : s.phase w = .writing found pending)
      (hrow : nextRow sha256 (calls w) (tailOf found) pending = some (.ok row)) :
      Moves s (.insert w) (s.setPhase w (.writing found (pending ++ [row])))
  | fail {w : ι} {found : Option Entry} {pending : List Entry} {x : Err}
      (h : s.phase w = .writing found pending)
      (hrow : nextRow sha256 (calls w) (tailOf found) pending = some (.error x)) :
      Moves s (.insert w) (s.finish w found (.failed x))
  | commit {w : ι} {found : Option Entry} {pending rows : List Entry}
      (h : s.phase w = .writing found pending)
      (hdone : nextRow sha256 (calls w) (tailOf found) pending = none)
      (hrows : pending.foldlM addRow s.rows = .ok rows) :
      Moves s (.commit w) { s.finish w found .committed with rows := rows }
  | abort {w : ι} {found : Option Entry} {pending : List Entry} {x : Err}
      (h : s.phase w = .writing found pending)
      (hdone : nextRow sha256 (calls w) (tailOf found) pending = none)
      (hrows : pending.foldlM addRow s.rows = .error x) :
      Moves s (.commit w) (s.finish w found (.aborted x))

variable {sha256 calls} {s s' : World ι}

theorem step_moves {a : Action ι} (h : step sha256 calls s a = some s') :
    Moves sha256 calls s a s' := by
  cases a with
  | select w =>
    simp only [step] at h
    split at h
    · rename_i hphase
      exact Option.some.inj h ▸ .select (.inl hphase)
    · rename_i found hphase
      exact Option.some.inj h ▸ .select (.inr ⟨found, hphase⟩)
    · cases h
  | lock w =>
    simp only [step] at h
    split at h
    · rename_i hphase
      exact Option.some.inj h ▸ .readEmpty hphase
    · rename_i row hphase
      split at h
      · rename_i hfree
        exact Option.some.inj h ▸ .lock hphase hfree
      · cases h
    · cases h
  | insert w =>
    simp only [step] at h
    split at h
    · rename_i found pending hphase
      split at h
      · rename_i row hrow
        exact Option.some.inj h ▸ .insert hphase hrow
      · rename_i x hrow
        exact Option.some.inj h ▸ .fail hphase hrow
      · cases h
    · cases h
  | commit w =>
    simp only [step] at h
    split at h
    · rename_i found pending hphase
      split at h
      · cases h
      · rename_i hdone
        split at h
        · rename_i rows hrows
          exact Option.some.inj h ▸ .commit hphase hdone hrows
        · rename_i x hrows
          exact Option.some.inj h ▸ .abort hphase hdone hrows
    · cases h

/-! ### The rows of a transaction -/

/-- Each row of a transaction is the next row of the rows before it. -/
def Inserted (sha256 : Bytes → Bytes) (c : Call) (t : ℕ × Bytes) (pending : List Entry) : Prop :=
  ∀ k row, pending[k]? = some row → nextRow sha256 c t (pending.take k) = some (.ok row)

theorem inserted_nil (c : Call) (t : ℕ × Bytes) : Inserted sha256 c t [] := by
  intro k row h
  simp at h

theorem Inserted.concat {c : Call} {t : ℕ × Bytes} {pending : List Entry} {row : Entry}
    (h : Inserted sha256 c t pending) (hrow : nextRow sha256 c t pending = some (.ok row)) :
    Inserted sha256 c t (pending ++ [row]) := by
  intro k other hk
  rcases Nat.lt_trichotomy k pending.length with hlt | rfl | hgt
  · rw [List.getElem?_append_left hlt] at hk
    rw [List.take_append_of_le_length hlt.le]
    exact h k other hk
  · rw [List.getElem?_concat_length] at hk
    cases hk
    rwa [List.take_left']
    rfl
  · rw [List.getElem?_eq_none (by rw [List.length_append, List.length_singleton]; omega)] at hk
    cases hk

theorem storeBody_ok {b : Body} {row : Entry} (h : storeBody sha256 b = .ok row) :
    ∃ e, sealEntry sha256 b = .ok e ∧ storeRow .postgresql e = .ok row ∧ row.hash = e.hash := by
  obtain ⟨e, he, hrow⟩ := bind_eq_ok.mp h
  exact ⟨e, he, hrow, (storeRow_fields hrow).2.2.2.2.2⟩

/-- A transaction with nothing left to insert holds the rows of four built entries. -/
theorem Inserted.built {c : Call} {t : ℕ × Bytes} {pending : List Entry}
    (h : Inserted sha256 c t pending) (hdone : nextRow sha256 c t pending = none) :
    ∃ ep vp rp p e v r, Built sha256 c t.1 t.2 ep vp rp p e v r ∧
      StoredAs .postgresql [p, e, v, r] pending := by
  match pending, hdone with
  | [p, e, v, r], _ =>
    obtain ⟨p', sp, hp, hph⟩ := storeBody_ok (Option.some.inj (h 0 p rfl))
    obtain ⟨ep, hep, he⟩ := bind_eq_ok.mp (Option.some.inj (h 1 e rfl))
    obtain ⟨e', se, he, heh⟩ := storeBody_ok he
    obtain ⟨ep', hep', hv⟩ := bind_eq_ok.mp (Option.some.inj (h 2 v rfl))
    obtain rfl := Except.ok.inj (hep.symm.trans hep')
    obtain ⟨vp, hvp, hv⟩ := bind_eq_ok.mp hv
    obtain ⟨v', sv, hv, hvh⟩ := storeBody_ok hv
    obtain ⟨ep', hep', hr⟩ := bind_eq_ok.mp (Option.some.inj (h 3 r rfl))
    obtain rfl := Except.ok.inj (hep.symm.trans hep')
    obtain ⟨vp', hvp', hr⟩ := bind_eq_ok.mp hr
    obtain rfl := Except.ok.inj (hvp.symm.trans hvp')
    split at hr
    · obtain ⟨_, hr, -⟩ := bind_eq_ok.mp hr
      cases hr
    · rename_i hpass
      obtain ⟨rp, hrp, hr⟩ := bind_eq_ok.mp hr
      obtain ⟨r', sr, hr, -⟩ := storeBody_ok hr
      rw [hph] at se
      rw [heh] at sv
      rw [hvh] at sr
      exact ⟨ep, vp, rp, p', e', v', r', ⟨sp, hep, se, hvp, sv, by simpa using hpass, hrp, sr⟩,
        .cons hp (.cons he (.cons hv (.cons hr .nil)))⟩
  | p :: e :: v :: r :: x :: rest, _ => cases h 4 x rfl

theorem nextRow_of_built {c : Call} {t : ℕ × Bytes} {ep vp rp : Dict} {p e v r p' e' v' r' : Entry}
    (h : Built sha256 c t.1 t.2 ep vp rp p e v r)
    (hnew : StoredAs .postgresql [p, e, v, r] [p', e', v', r']) :
    nextRow sha256 c t [] = some (.ok p') ∧ nextRow sha256 c t [p'] = some (.ok e') ∧
      nextRow sha256 c t [p', e'] = some (.ok v') ∧ nextRow sha256 c t [p', e', v'] = some (.ok r') := by
  rcases hnew with _ | ⟨hp, _ | ⟨he, _ | ⟨hv, _ | ⟨hr, ⟨⟩⟩⟩⟩⟩
  have hph := (storeRow_fields hp).2.2.2.2.2
  have heh := (storeRow_fields he).2.2.2.2.2
  have hvh := (storeRow_fields hv).2.2.2.2.2
  simp only [nextRow, storeBody, h.execPayload, h.verifyPayload, h.resolvePayload, h.passed, bind,
    Except.bind, h.propose, hph, h.execute, heh, h.verify, hvh, h.resolve, hp, he, hv, hr]
  exact ⟨trivial, trivial, trivial, rfl⟩

/-- A writer whose four entries can be built gets to its commit. -/
theorem exec_inserts {w : ι} {found : Option Entry} {ep vp rp : Dict} {p e v r : Entry}
    {new : List Entry} (hphase : s.phase w = .writing found [])
    (h : Built sha256 (calls w) (tailOf found).1 (tailOf found).2 ep vp rp p e v r)
    (hnew : StoredAs .postgresql [p, e, v, r] new) :
    Run.exec (step sha256 calls) s (List.replicate 4 (.insert w)) =
      some (s.setPhase w (.writing found new)) ∧
    nextRow sha256 (calls w) (tailOf found) new = none := by
  obtain ⟨p', e', v', r', rfl, -⟩ := h.group hnew
  obtain ⟨hp, he, hv, hr⟩ := nextRow_of_built h hnew
  refine ⟨?_, rfl⟩
  have hinsert : ∀ {s : World ι} {pending : List Entry} {row : Entry},
      s.phase w = .writing found pending →
      nextRow sha256 (calls w) (tailOf found) pending = some (.ok row) →
      step sha256 calls s (.insert w) = some (s.setPhase w (.writing found (pending ++ [row]))) := by
    intro s pending row hphase hrow
    simp only [step, hphase, hrow]
  simp only [List.replicate, Run.exec, hinsert hphase hp, Option.bind_some]
  rw [hinsert (by simp) he]
  simp only [Option.bind_some, World.setPhase_setPhase]
  rw [hinsert (by simp) hv]
  simp only [Option.bind_some, World.setPhase_setPhase]
  rw [hinsert (by simp) hr]
  simp

/-! ### The committed rows are those of a serial run -/

/-- The table keeps its own constraints. -/
def Unique (rows : List Entry) : Prop := rows.Pairwise fun other row => conflicts row other = false

theorem foldlM_addRow_ok : ∀ {new rows rows' : List Entry}, new.foldlM addRow rows = .ok rows' →
    rows' = rows ++ new ∧ (∀ row ∈ new, ∀ other ∈ rows, conflicts row other = false) ∧
      (Unique rows → Unique rows')
  | [], rows, rows', h => by
    cases h
    exact ⟨by simp, by simp, id⟩
  | row :: new, rows, rows', h => by
    obtain ⟨rows₁, hrow, h⟩ := bind_eq_ok.mp h
    obtain ⟨hfree, rfl⟩ := addRow_ok hrow
    obtain ⟨rfl, hnew, hunique⟩ := foldlM_addRow_ok h
    refine ⟨by simp, ?_, fun hrows => hunique ?_⟩
    · intro row' hrow' other hother
      rcases List.mem_cons.mp hrow' with rfl | hrow'
      · exact hfree other hother
      · exact hnew row' hrow' other (List.mem_append_left _ hother)
    · refine List.pairwise_append.mpr ⟨hrows, List.pairwise_singleton .., fun other hother row' hrow' => ?_⟩
      obtain rfl := List.mem_singleton.mp hrow'
      exact hfree other hother

/-- The row that a writer has found was the newest of its company at some time. -/
def Found (rows : List Entry) (companyId : UUID) (found : Option Entry) : Prop :=
  ∃ es, es <+: ofCompany rows companyId ∧ found = es.getLast?

/-- The four rows of a call stand next to each other in the chain of its company. -/
def HasGroup (rows : List Entry) (c : Call) : Prop :=
  ∃ before p e v r after, ofCompany rows c.companyId = before ++ [p, e, v, r] ++ after ∧
    [p, e, v, r].map (·.entryId) = c.ids

/-- What a writer knows of the committed rows. -/
def WriterOk (sha256 : Bytes → Bytes) (c : Call) (rows : List Entry) : Phase → Prop
  | .idle => True
  | .waiting found => Found rows c.companyId found
  | .writing found pending =>
    Found rows c.companyId found ∧ Inserted sha256 c (tailOf found) pending
  | .committed => HasGroup rows c
  | .failed _ => True
  | .aborted _ => True

variable (sha256 calls) in
/-- The committed rows are those of the committed writers, one after the other. -/
structure Inv (s : World ι) : Prop where
  serial : ∃ order : List ι, order.Nodup ∧ (∀ w, w ∈ order ↔ s.phase w = .committed) ∧
    s.rows = runWrites sha256 .postgresql [] (order.map calls)
  unique : Unique s.rows
  writers : ∀ w, WriterOk sha256 (calls w) s.rows (s.phase w)

omit [DecidableEq ι] in
theorem inv_start : Inv sha256 calls World.start where
  serial := ⟨[], List.nodup_nil, by simp [World.start], rfl⟩
  unique := List.Pairwise.nil
  writers := fun _ => trivial

omit [DecidableEq ι] in
theorem Inv.chain (h : Inv sha256 calls s) (companyId : UUID) :
    IsChain (ofCompany s.rows companyId) := by
  obtain ⟨order, -, -, hrows⟩ := h.serial
  rw [hrows]
  exact isChain_runWrites _ companyId

theorem Found.mono {rows new : List Entry} {companyId : UUID} {found : Option Entry}
    (h : Found rows companyId found) : Found (rows ++ new) companyId found := by
  obtain ⟨es, hes, hfound⟩ := h
  rw [Found, ofCompany_append]
  exact ⟨es, hes.trans (List.prefix_append ..), hfound⟩

theorem WriterOk.mono {c : Call} {rows new : List Entry} {p : Phase}
    (h : WriterOk sha256 c rows p) : WriterOk sha256 c (rows ++ new) p := by
  cases p with
  | idle => trivial
  | waiting found => exact Found.mono h
  | writing found pending => exact ⟨Found.mono h.1, h.2⟩
  | committed =>
    obtain ⟨before, p, e, v, r, after, hrows, hids⟩ := h
    refine ⟨before, p, e, v, r, after ++ ofCompany new c.companyId, ?_, hids⟩
    rw [ofCompany_append, hrows, List.append_assoc _ after]
  | failed x => trivial
  | aborted x => trivial

/-- A writer that is not committed moves to another such phase, and only the locks change besides. -/
theorem Inv.move (h : Inv sha256 calls s) {w : ι} {p : Phase} (locks : UUID × ℕ → Option ι)
    (hw : s.phase w ≠ .committed) (hp : p ≠ .committed) (hok : WriterOk sha256 (calls w) s.rows p) :
    Inv sha256 calls ⟨s.rows, locks, Function.update s.phase w p⟩ := by
  obtain ⟨order, hnodup, horder, hrows⟩ := h.serial
  refine ⟨⟨order, hnodup, fun v => ?_, hrows⟩, h.unique, fun v => ?_⟩
  · rw [horder]
    by_cases hv : v = w
    · subst hv
      simp [hw, hp]
    · simp [Function.update_of_ne hv]
  · by_cases hv : v = w
    · subst hv
      simpa using hok
    · simpa [Function.update_of_ne hv] using h.writers v

theorem Contiguous.of_append {es es' : List Entry} (h : Contiguous (es ++ es')) :
    Contiguous es ∧ ∀ e, es'.head? = some e → e.seq = es.length + 1 := by
  have hseqs := h.seqs
  rw [List.map_append, List.length_append, ← List.range'_append_1] at hseqs
  obtain ⟨hl, hr⟩ := List.append_inj hseqs (by simp)
  refine ⟨⟨hl, ((HashChain.linked_append ..).mp h.links).1⟩, fun e he => ?_⟩
  obtain ⟨rest, rfl⟩ : ∃ rest, es' = e :: rest := List.head?_eq_some_iff.mp he
  rw [List.map_cons, List.length_cons, List.range'_succ] at hr
  have := (List.cons.inj hr).1
  omega

section
variable {w : ι} {found : Option Entry} {pending : List Entry} (h : Inv sha256 calls s)
  (hphase : s.phase w = .writing found pending)
  (hdone : nextRow sha256 (calls w) (tailOf found) pending = none)
include h hphase hdone

omit [DecidableEq ι] in
/-- When the rows of a transaction break no constraint, the row it found is still the newest. -/
theorem Inv.found_newest {rows : List Entry} (hrows : pending.foldlM addRow s.rows = .ok rows) :
    newest s.rows (calls w).companyId = found := by
  have hok := h.writers w
  rw [hphase] at hok
  obtain ⟨⟨es, ⟨rest, hes⟩, hfound⟩, hins⟩ := hok
  have hchain := (h.chain (calls w).companyId).toContiguous
  cases rest with
  | nil => rw [newest_of_contiguous hchain, hfound, ← hes, List.append_nil]
  | cons other rest =>
    -- the committed row after the one found has the seq of the first row inserted
    obtain ⟨hbefore, hnext⟩ := Contiguous.of_append (hes ▸ hchain)
    have hseq := hnext other rfl
    have hother : other ∈ ofCompany s.rows (calls w).companyId := by simp [← hes]
    obtain ⟨hmem, hcompany⟩ := List.mem_filter.mp hother
    obtain ⟨ep, vp, rp, p, e, v, r, hb, hstored⟩ := hins.built hdone
    obtain ⟨p', _, _, _, rfl, hg⟩ := hb.group hstored
    obtain ⟨hpcompany, hpseq, -⟩ := hg.propose.fields
    have hfree := (foldlM_addRow_ok hrows).2.1 p' List.mem_cons_self other hmem
    have hclash : conflicts p' other = true := by
      simp only [conflicts, Bool.or_eq_true, Bool.and_eq_true, decide_eq_true_eq]
      refine .inr ⟨by rw [hpcompany]; exact of_decide_eq_true hcompany, .inl ?_⟩
      rw [hpseq, hseq, hfound, tailOf_getLast? hbefore]
      rfl
    rw [hclash] at hfree
    cases hfree

omit [DecidableEq ι] h hphase in
/-- A transaction that still has the newest row commits as a write on its own would. -/
theorem write_eq_of_newest (hins : Inserted sha256 (calls w) (tailOf found) pending)
    (hnewest : newest s.rows (calls w).companyId = found) :
    ∃ ep vp rp p e v r, Built sha256 (calls w) (tail s.rows (calls w).companyId).1
        (tail s.rows (calls w).companyId).2 ep vp rp p e v r ∧
      StoredAs .postgresql [p, e, v, r] pending ∧
      write sha256 .postgresql s.rows (calls w) = match pending.foldlM addRow s.rows with
        | .ok rows' => (.ok (resultOf p e v r), rows')
        | .error x => (.error x, s.rows) := by
  obtain ⟨ep, vp, rp, p, e, v, r, hb, hstored⟩ := hins.built hdone
  rw [← hnewest, ← tail] at hb
  exact ⟨ep, vp, rp, p, e, v, r, hb, hstored, write_of_stored hb hstored⟩

theorem Inv.commit {rows : List Entry} (hrows : pending.foldlM addRow s.rows = .ok rows) :
    Inv sha256 calls { s.finish w found .committed with rows := rows } := by
  have hnewest := h.found_newest hphase hdone hrows
  have hok := h.writers w
  rw [hphase] at hok
  obtain ⟨ep, vp, rp, p, e, v, r, hb, hstored, hwrite⟩ := write_eq_of_newest hdone hok.2 hnewest
  obtain ⟨p', e', v', r', rfl, hg⟩ := hb.group hstored
  obtain ⟨hrows', -, hunique⟩ := foldlM_addRow_ok hrows
  obtain ⟨order, hnodup, horder, hserial⟩ := h.serial
  have hw : w ∉ order := fun hmem => by
    rw [(horder w).mp hmem] at hphase
    cases hphase
  refine ⟨⟨order ++ [w], ?_, fun v => ?_, ?_⟩, hunique h.unique, fun v => ?_⟩
  · exact List.nodup_append.mpr ⟨hnodup, List.nodup_singleton w, fun a ha b hb => by
      rw [List.mem_singleton.mp hb]
      rintro rfl
      exact hw ha⟩
  · by_cases hv : v = w
    · subst hv
      simp
    · simp [horder, hv]
  · rw [List.map_append, runWrites_append, ← hserial, List.map_singleton, runWrites_cons, hwrite, hrows]
    rfl
  · by_cases hv : v = w
    · subst hv
      have hnew : ofCompany [p', e', v', r'] (calls v).companyId = [p', e', v', r'] :=
        List.filter_eq_self.mpr fun row hrow => decide_eq_true (hg.company row hrow)
      simp only [World.finish_phase, Function.update_self, WriterOk, hrows']
      refine ⟨ofCompany s.rows (calls v).companyId, p', e', v', r', [], ?_, ?_⟩
      · rw [ofCompany_append, hnew, List.append_nil]
      · exact hg.ids
    · simp only [World.finish_phase, Function.update_of_ne hv, hrows']
      exact (h.writers v).mono

end

theorem inv_step {a : Action ι} (h : Inv sha256 calls s) (hstep : step sha256 calls s a = some s') :
    Inv sha256 calls s' := by
  cases step_moves hstep with
  | @select w hphase =>
    refine h.move _ ?_ (by simp) ?_
    · rcases hphase with hphase | ⟨found, hphase⟩ <;> simp [hphase]
    · exact ⟨_, List.prefix_refl _, newest_of_contiguous (h.chain _).toContiguous⟩
  | @readEmpty w hphase =>
    have hok := h.writers w
    rw [hphase] at hok
    exact h.move _ (by simp [hphase]) (by simp) ⟨hok, inserted_nil _ _⟩
  | @lock w row hphase hfree =>
    have hok := h.writers w
    rw [hphase] at hok
    exact h.move _ (by simp [hphase]) (by simp) ⟨hok, inserted_nil _ _⟩
  | @insert w found pending row hphase hrow =>
    have hok := h.writers w
    rw [hphase] at hok
    exact h.move _ (by simp [hphase]) (by simp) ⟨hok.1, hok.2.concat hrow⟩
  | fail hphase hrow => exact h.move _ (by simp [hphase]) (by simp) trivial
  | commit hphase hdone hrows => exact h.commit hphase hdone hrows
  | abort hphase hdone hrows => exact h.move _ (by simp [hphase]) (by simp) trivial

/-! ### One chain -/

/-- `next` names `e` as the entry before it. -/
def Succeeds (next e : Entry) : Prop := next.seq ≠ 1 ∧ next.prevHash = e.hash

/-- A chain in which every entry but the last has exactly one successor. -/
structure Unforked (es : List Entry) : Prop extends IsChain es where
  next : ∀ e ∈ es, (es.getLast? = some e ∧ ∀ other ∈ es, ¬ Succeeds other e) ∨
    ∃! next, next ∈ es ∧ Succeeds next e

theorem Unique.hashes_nodup {rows : List Entry} (h : Unique rows) (companyId : UUID) :
    ((ofCompany rows companyId).map (·.hash)).Nodup := by
  refine List.pairwise_map.mpr ((List.Pairwise.filter _ h).imp_of_mem ?_)
  intro other row hother hrow hfree heq
  have ho := of_decide_eq_true (List.mem_filter.mp hother).2
  have hr := of_decide_eq_true (List.mem_filter.mp hrow).2
  simp [conflicts, ho, hr, heq] at hfree

theorem IsChain.unforked {es : List Entry} (h : IsChain es) (hnodup : (es.map (·.hash)).Nodup) :
    Unforked es := by
  have hnext : ∀ {i j : ℕ} (hi : i < es.length) (hj : j < es.length),
      Succeeds es[j] es[i] ↔ j = i + 1 := by
    intro i j hi hj
    rw [Succeeds, seq_getElem h.seqs hj]
    cases j with
    | zero => simp
    | succ j =>
      have hiff := h.links.follows_iff Entry.hash RowFollows hnodup
        (fun _ _ _ h h' => h.symm.trans h') hi hj
      rw [RowFollows] at hiff
      simp [hiff]
  refine ⟨h, fun e he => ?_⟩
  obtain ⟨i, hi, rfl⟩ := List.getElem_of_mem he
  by_cases hlast : i + 1 = es.length
  · refine .inl ⟨?_, fun other hother => ?_⟩
    · rw [List.getLast?_eq_getElem?, List.getElem?_eq_getElem (by omega)]
      congr
      omega
    · obtain ⟨j, hj, rfl⟩ := List.getElem_of_mem hother
      rw [hnext hi hj]
      omega
  · have hj : i + 1 < es.length := by omega
    refine .inr ⟨es[i + 1], ⟨List.getElem_mem hj, (hnext hi hj).mpr rfl⟩, ?_⟩
    rintro other ⟨hother, hsucc⟩
    obtain ⟨j, hj', rfl⟩ := List.getElem_of_mem hother
    obtain rfl := (hnext hi hj').mp hsucc
    rfl

end

end

/-- Whatever the order of their steps, the committed writers leave the rows of a serial run of their
    writes, every company has one unforked chain of groups of four, and the four rows of every
    committed write stand next to each other in it. -/
theorem exec_serializable {ι : Type} [DecidableEq ι] (sha256 : Bytes → Bytes) (calls : ι → Call) (acts : List (Action ι)) (s : World ι)
    (h : Run.exec (step sha256 calls) World.start acts = some s) :
    (∃ order : List ι, order.Nodup ∧ (∀ w, w ∈ order ↔ s.phase w = .committed) ∧
      s.rows = runWrites sha256 .postgresql [] (order.map calls)) ∧
    (∀ companyId, Unforked (ofCompany s.rows companyId)) ∧
    ∀ w, s.phase w = .committed → HasGroup s.rows (calls w) := by
  have hinv : Inv sha256 calls s := Run.exec_invariant (fun _ _ _ => inv_step) inv_start h
  refine ⟨hinv.serial, fun companyId => ?_, fun w hw => ?_⟩
  · exact (hinv.chain companyId).unforked (hinv.unique.hashes_nodup companyId)
  · have hok := hinv.writers w
    rwa [hw] at hok

/-- Two writers of the sample call, with ids of their own. -/
def twoWriters (w : Fin 2) : Call :=
  { sampleCall midnight [] with
    proposeId := ⟨⟨4 * w + 2, by omega⟩⟩
    executeId := ⟨⟨4 * w + 3, by omega⟩⟩
    verifyId := ⟨⟨4 * w + 4, by omega⟩⟩
    resolveId := ⟨⟨4 * w + 5, by omega⟩⟩ }

theorem twoWriters_built (w : Fin 2) : ∃ ep vp rp p e v r new,
    Built tagHash (twoWriters w) 0 genesisPrevHash ep vp rp p e v r ∧
      StoredAs .postgresql [p, e, v, r] new := by
  obtain ⟨t, ht⟩ := isoText_midnight
  obtain ⟨p, e, v, r, hb⟩ := @built_of_hashable tagHash (twoWriters w) 0 _ _ _
    ⟨t, _, ht, rfl, rfl⟩ rfl ⟨t, _, ht, rfl, rfl⟩ rfl ⟨t, _, ht, rfl, rfl⟩ rfl rfl
    ⟨t, _, ht, rfl, rfl⟩ genesisPrevHash
  obtain ⟨new, hnew⟩ := hb.exists_stored (d := .postgresql) (by
    simp only [Storable, List.forall_mem_cons]
    exact ⟨⟨_, rfl⟩, ⟨_, rfl⟩, ⟨_, rfl⟩, ⟨_, rfl⟩, by simp⟩)
  exact ⟨_, _, _, p, e, v, r, new, hb, hnew⟩

/-- Both writers find the company empty, and both insert their rows. -/
def bothInserted : List (Action (Fin 2)) :=
  [.select 0, .select 1, .lock 0, .lock 1] ++ List.replicate 4 (.insert 0) ++
    List.replicate 4 (.insert 1)

theorem exec_bothInserted : ∃ s new₀ new₁,
    Run.exec (step tagHash twoWriters) World.start bothInserted = some s ∧ s.rows = [] ∧
      s.phase 0 = .writing none new₀ ∧ nextRow tagHash (twoWriters 0) (tailOf none) new₀ = none ∧
      s.phase 1 = .writing none new₁ ∧ nextRow tagHash (twoWriters 1) (tailOf none) new₁ = none := by
  obtain ⟨_, _, _, p, e, v, r, new₀, hb₀, hnew₀⟩ := twoWriters_built 0
  obtain ⟨_, _, _, p', e', v', r', new₁, hb₁, hnew₁⟩ := twoWriters_built 1
  obtain ⟨t, ht, hrows, h₀, h₁⟩ : ∃ t, Run.exec (step tagHash twoWriters) World.start
      [.select 0, .select 1, .lock 0, .lock 1] = some t ∧ t.rows = [] ∧
      t.phase 0 = .writing none [] ∧ t.phase 1 = .writing none [] := ⟨_, rfl, rfl, rfl, rfl⟩
  obtain ⟨hexec₀, hdone₀⟩ := @exec_inserts _ _ tagHash twoWriters t 0 none _ _ _ _ _ _ _ _ h₀ hb₀ hnew₀
  obtain ⟨hexec₁, hdone₁⟩ := @exec_inserts _ _ tagHash twoWriters (t.setPhase 0 (.writing none new₀)) 1
    none _ _ _ _ _ _ _ _ (by simpa using h₁) hb₁ hnew₁
  refine ⟨_, new₀, new₁, Run.exec_append.mpr ⟨_, Run.exec_append.mpr ⟨t, ht, hexec₀⟩, hexec₁⟩, ?_⟩
  simp [hrows, hdone₀, hdone₁]

theorem twoWriters_ids (w : Fin 2) : (twoWriters w).ids.Nodup := by
  simp [Call.ids, twoWriters]

/-- The first of them commits. -/
theorem exec_firstCommitted : ∃ s new₁,
    Run.exec (step tagHash twoWriters) World.start (bothInserted ++ [.commit 0]) = some s ∧
      s.phase 0 = .committed ∧ s.phase 1 = .writing none new₁ ∧
      nextRow tagHash (twoWriters 1) (tailOf none) new₁ = none := by
  obtain ⟨s, new₀, new₁, hexec, hrows, h₀, hdone₀, h₁, hdone₁⟩ := exec_bothInserted
  have hinv : Inv tagHash twoWriters s := Run.exec_invariant (fun _ _ _ => inv_step) inv_start hexec
  have hok := hinv.writers 0
  rw [h₀] at hok
  obtain ⟨_, _, _, p, e, v, r, hb, hnew⟩ := hok.2.built hdone₀
  obtain ⟨rows, hadd⟩ := @addRow_of_built tagHash .postgresql tagHash_injective (twoWriters 0) [] []
    (sealedChain_nil _) .nil ⟨twoWriters_ids 0, by simp⟩ _ _ _ _ _ _ _ _ hb hnew
  have hcommit : step tagHash twoWriters s (.commit 0) =
      some { s.finish 0 none .committed with rows := rows } := by
    simp only [step, h₀, hdone₀, hrows, hadd]
  refine ⟨_, new₁, Run.exec_append.mpr ⟨s, hexec, Run.exec_cons.mpr ⟨_, hcommit, rfl⟩⟩, ?_, ?_, hdone₁⟩
  · simp
  · simp [h₁]

/-- After that the company has one chain, and the four rows of the first writer are in it. -/
theorem exec_firstCommitted_serializable : ∃ s : World (Fin 2),
    Unforked (ofCompany s.rows ⟨1⟩) ∧ HasGroup s.rows (twoWriters 0) := by
  obtain ⟨s, new₁, hexec, h₀, -⟩ := exec_firstCommitted
  obtain ⟨-, hchain, hgroup⟩ := exec_serializable tagHash twoWriters _ s hexec
  exact ⟨s, hchain ⟨1⟩, hgroup 0 h₀⟩

end Ledger
