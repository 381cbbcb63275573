import Wormbase.WormCore.AuditTrail
import Wormbase.Projection.Cycles
import Wormbase.Lib.Passes

/-! When an audit trail shows whole cycles.

    The passes follow references from later rows to earlier ones only, so a cycle that mentions the asset in
    the args of its action alone is shown without its propose row. -/

namespace AuditTrail
open Py Projection

/-! ### What a trail lists -/

/-- How often a trail lists a row. -/
def listed (trail : Option Trail) (r : LedgerRow) : ℕ :=
  match trail with
  | none => 0
  | some t => (t.contributingEntries.map (·.seq)).count r.seq

/-- A trail that lists one row of a cycle lists each of its rows once. -/
def Whole (l : CycleLedger) (trail : Option Trail) : Prop :=
  ∀ b ∈ l.blocks, (∃ r ∈ b.2, 0 < listed trail r) → ∀ r ∈ b.2, listed trail r = 1

/-- The execute payload of an action: a tool that can be looked up, and args that are a mapping or left out. -/
structure Called (payload : Dict) : Prop where
  tool : ∃ key, (payload.get "tool").hash = .ok key
  args : ∃ args, orMapping (payload.get "args") = .ok args

/-- A ledger whose cycles are actions. -/
structure ActionLedger extends CycleLedger where
  called : ∀ c ∈ cycles, Called c.executePayload

section
variable (py : Interp)

/-- The id that a row refers back to. -/
def parentOf (e : LedgerRow) : Option String := (parent py e).toOption.join

/-- The propose row of the cycle is about the asset. -/
def Names (entryId : String) (c : Cycle) : Prop := isId py (c.propose.get "ref_id") entryId = true

/-- The ids of the rows that mention the asset. -/
def mentioning (entryId : String) (rows : List LedgerRow) : List String :=
  (rows.filter fun e => (entryTouchesId py e entryId).toOption.getD false).map (·.entryId.str)

/-- At most `n` references lead from the row to one that mentions the asset. -/
def Near (l : CycleLedger) (entryId : String) (n : ℕ) (r : LedgerRow) : Prop :=
  Passes.Within (·.entryId.str) (parentOf py) l.rows (mentioning py entryId l.rows) n r.entryId.str

/-- A cycle whose propose row is not about the asset does not mention it, nor does it refer to one whose
    propose row is, and the references of that one lead to a row that mentions the asset. -/
structure Rooted (l : CycleLedger) (entryId : String) : Prop where
  mentions : ∀ b ∈ l.blocks, ∀ r ∈ b.2, entryTouchesId py r entryId = .ok true → Names py entryId b.1
  refers : ∀ b ∈ l.blocks, ∀ b' ∈ l.blocks, Names py entryId b'.1 → ∀ r ∈ b.2, ∀ r' ∈ b'.2,
    parentOf py r = some r'.entryId.str → Names py entryId b.1
  near : ∀ b ∈ l.blocks, Names py entryId b.1 → ∀ r ∈ b.2, Near py l entryId 4 r

end

/-! ### Rows that can be read -/

/-- A row with a mapping for its payload, and that of an action where it is an execute row. -/
structure Readable (e : LedgerRow) : Prop where
  payload : ∃ payload, e.payload = .dict payload
  called : ∀ payload, e.payload = .dict payload → e.kind = "execute" → Called payload

theorem readable_row {company : UUID} {n : ℕ} {c : Cycle} (h : Called c.executePayload) :
    ∀ r ∈ c.rows company n, Readable r := by
  have hother : ∀ {id : UUID} {seq : ℕ} {ts : DateTime} {kind : String} {payload : Dict} {hash : Bytes},
      kind ≠ "execute" → Readable ⟨id, company, seq, ts, kind, .dict payload, hash⟩ :=
    fun hkind => ⟨⟨_, rfl⟩, fun _ _ hk => absurd hk hkind⟩
  simp only [Cycle.rows, stampedRows, List.forall_mem_cons]
  refine ⟨hother (by simp), ⟨⟨_, rfl⟩, ?_⟩, hother (by simp), hother (by simp), fun _ hr => nomatch hr⟩
  rintro _ ⟨⟩ -
  exact h

theorem ActionLedger.readable {l : ActionLedger} : ∀ r ∈ l.rows, Readable r := by
  intro r hr
  obtain ⟨b, hb, hr⟩ := CycleLedger.mem_rows.mp hr
  obtain ⟨hmem, k, hrows⟩ := mem_blocks hb
  exact readable_row (l.called _ hmem) r (hrows ▸ hr)

variable {py : Interp} {entryId : String} {e : LedgerRow} {rows : List LedgerRow} {members : List String} {s : Found}

theorem touches_ok (py : Interp) (entryId : String) (h : Readable e) : ∃ t, entryTouchesId py e entryId = .ok t := by
  obtain ⟨payload, hpayload⟩ := h.payload
  unfold entryTouchesId
  split
  · rw [hpayload, orMapping_dict]
    exact ⟨_, rfl⟩
  · rename_i hkind
    obtain ⟨args, hargs⟩ := (h.called payload hpayload hkind).args
    rw [hpayload, orMapping_dict]
    simp only [bind, Except.bind, hargs]
    exact ⟨_, rfl⟩
  · exact ⟨_, rfl⟩

theorem parent_ok (h : Readable e) : parent py e = .ok (parentOf py e) := by
  obtain ⟨payload, hpayload⟩ := h.payload
  have hok : ∃ p, parent py e = .ok p := by
    unfold parent
    split
    · exact ⟨_, rfl⟩
    · rw [hpayload, orMapping_dict]
      exact ⟨_, rfl⟩
  obtain ⟨p, hp⟩ := hok
  rw [parentOf, hp]
  rfl

theorem directEntryIds_ok (h : ∀ e ∈ rows, Readable e) :
    directEntryIds py rows entryId = .ok (mentioning py entryId rows) := by
  induction rows using List.reverseRecOn with
  | nil => rfl
  | append_singleton rows e ih =>
    rw [List.forall_mem_append] at h
    obtain ⟨hrows, he⟩ := h
    obtain ⟨t, ht⟩ := touches_ok py entryId (he e (by simp))
    rw [directEntryIds] at ih ⊢
    rw [List.foldlM_append, ih hrows]
    simp only [bind, Except.bind, List.foldlM_cons, List.foldlM_nil, ht, mentioning, List.filter_append,
      List.map_append, List.filter_cons, List.filter_nil, Except.toOption, Option.getD_some]
    cases t with
    | false => simp [pure, Except.pure]
    | true => rfl

theorem mem_mentioning {i : String} :
    i ∈ mentioning py entryId rows ↔ ∃ r ∈ rows, entryTouchesId py r entryId = .ok true ∧ r.entryId.str = i := by
  have htrue : ∀ r, (entryTouchesId py r entryId).toOption.getD false = true ↔
      entryTouchesId py r entryId = .ok true := by
    intro r
    cases entryTouchesId py r entryId with
    | error x => simp [Except.toOption]
    | ok t => simp [Except.toOption]
  simp only [mentioning, List.mem_map, List.mem_filter, htrue, and_assoc]

theorem grow_ok (h : Readable e) : grow py members e = .ok (Passes.visit (·.entryId.str) (parentOf py) members e) := by
  unfold grow Passes.visit
  split
  · rfl
  · rw [parent_ok h]
    cases parentOf py e with
    | none => rfl
    | some p => rfl

theorem foldlM_grow (h : ∀ e ∈ rows, Readable e) :
    rows.foldlM (grow py) members = .ok (Passes.pass (·.entryId.str) (parentOf py) rows members) := by
  induction rows generalizing members with
  | nil => rfl
  | cons e rows ih =>
    obtain ⟨he, hrows⟩ := List.forall_mem_cons.mp h
    rw [List.foldlM_cons, grow_ok he]
    exact ih hrows

theorem growPasses_ok (h : ∀ e ∈ rows, Readable e) (k : ℕ) :
    growPasses py rows k members = .ok (Passes.passes (·.entryId.str) (parentOf py) rows k members) := by
  induction k generalizing members with
  | zero => rfl
  | succ k ih =>
    rw [growPasses, foldlM_grow h, Passes.passes]
    simp only [bind, Except.bind]
    split
    · rfl
    · exact ih

/-! ### The chain -/

theorem payloadGet_ok (h : Readable e) (kind name : String) : ∃ v, payloadGet e kind name = .ok v := by
  obtain ⟨payload, hpayload⟩ := h.payload
  unfold payloadGet
  split
  · rw [hpayload, orMapping_dict]
    exact ⟨_, rfl⟩
  · exact ⟨_, rfl⟩

theorem readPropose_ok (py : Interp) (s : Found) (h : Readable e) :
    ∃ s', readPropose py s e = .ok s' ∧ s'.contributing = s.contributing := by
  obtain ⟨payload, hpayload⟩ := h.payload
  unfold readPropose
  split
  · rw [hpayload, orMapping_dict]
    exact ⟨_, rfl, rfl⟩
  · exact ⟨_, rfl, rfl⟩

theorem readConfirm_ok (py : Interp) (s : Found) (h : Readable e) {v : Val}
    (hv : e.kind = "execute" → ∃ key, v.hash = .ok key) :
    ∃ s', readConfirm py s e v = .ok s' ∧ s'.contributing = s.contributing := by
  obtain ⟨payload, hpayload⟩ := h.payload
  unfold readConfirm
  split
  · rename_i hkind
    obtain ⟨key, hkey⟩ := hv hkind
    obtain ⟨args, hargs⟩ := (h.called payload hpayload hkind).args
    simp only [hkey, bind, Except.bind]
    split
    · split
      · simp only [hpayload, orMapping_dict, hargs, pure, Except.pure]
        split
        · exact ⟨_, rfl, rfl⟩
        · exact ⟨_, rfl, rfl⟩
        · exact ⟨_, rfl, rfl⟩
      · exact ⟨_, rfl, rfl⟩
    · exact ⟨_, rfl, rfl⟩
  · exact ⟨_, rfl, rfl⟩

theorem project_ok (py : Interp) (members : List String) (s : Found) (h : Readable e) :
    ∃ s', project py members s e = .ok s' ∧ s'.contributing.map (·.seq) =
      s.contributing.map (·.seq) ++ if e.entryId.str ∈ members then [e.seq] else [] := by
  unfold project
  by_cases hmem : e.entryId.str ∈ members
  · rw [if_neg (by simpa using hmem), if_pos hmem]
    obtain ⟨outcome, houtcome⟩ := payloadGet_ok h "resolve" "outcome"
    obtain ⟨payload, hpayload⟩ := h.payload
    have htool : ∃ tool, payloadGet e "execute" "tool" = .ok tool ∧
        (e.kind = "execute" → ∃ key, tool.hash = .ok key) := by
      unfold payloadGet
      split
      · rw [hpayload, orMapping_dict]
        exact ⟨_, rfl, fun hkind => (h.called payload hpayload hkind).tool⟩
      · exact ⟨_, rfl, fun hk => absurd hk ‹_›⟩
    obtain ⟨tool, htool, htext⟩ := htool
    simp only [htool, houtcome, bind, Except.bind]
    obtain ⟨s', hs', hkeep⟩ := readPropose_ok py
      { s with contributing := s.contributing ++ [⟨e.seq, e.ts.isoformat, e.kind, tool, outcome⟩] } h
    obtain ⟨s'', hs'', hkeep'⟩ := readConfirm_ok py s' h htext
    rw [hs']
    exact ⟨s'', hs'', by rw [hkeep', hkeep, List.map_append]; rfl⟩
  · rw [if_pos hmem, if_neg hmem, List.append_nil]
    exact ⟨s, rfl, rfl⟩

theorem foldlM_project (py : Interp) (members : List String) (s : Found) (h : ∀ e ∈ rows, Readable e) :
    ∃ s', rows.foldlM (project py members) s = .ok s' ∧ s'.contributing.map (·.seq) =
      s.contributing.map (·.seq) ++ (rows.filter fun e => e.entryId.str ∈ members).map (·.seq) := by
  induction rows generalizing s with
  | nil => exact ⟨s, rfl, by simp⟩
  | cons e rows ih =>
    obtain ⟨he, hrows⟩ := List.forall_mem_cons.mp h
    obtain ⟨s₁, hs₁, hseqs⟩ := project_ok py members s he
    obtain ⟨s₂, hs₂, hrest⟩ := ih s₁ hrows
    refine ⟨s₂, by rw [List.foldlM_cons, hs₁]; exact hs₂, ?_⟩
    rw [hrest, hseqs, List.filter_cons]
    by_cases hmem : e.entryId.str ∈ members <;> simp [hmem]

/-- The rows that the passes find. -/
def found (py : Interp) (entryId : String) (rows : List LedgerRow) : List String :=
  Passes.passes (·.entryId.str) (parentOf py) rows 4 (mentioning py entryId rows)

/-- The trail lists the rows that the passes find. -/
theorem foldAuditTrail_ok (py : Interp) (entryId : String) (h : ∀ e ∈ rows, Readable e) :
    ∃ trail, foldAuditTrail py rows entryId = .ok trail ∧ ∀ r, listed trail r =
      ((rows.filter fun e => e.entryId.str ∈ found py entryId rows).map (·.seq)).count r.seq := by
  obtain ⟨s, hs, hseqs⟩ := foldlM_project py (found py entryId rows) {} h
  simp only [foldAuditTrail, directEntryIds_ok h, growPasses_ok h, bind, Except.bind]
  rw [found] at hs
  rw [hs]
  simp only [List.map_nil, List.nil_append] at hseqs
  by_cases hnone : s.contributing = []
  · simp only [hnone, if_true]
    rw [hnone, List.map_nil] at hseqs
    exact ⟨none, rfl, fun r => by rw [← hseqs]; rfl⟩
  · simp only [hnone, if_false]
    refine ⟨_, rfl, fun r => ?_⟩
    have hperm := (List.mergeSort_perm s.contributing fun a b => a.seq ≤ b.seq).map (·.seq)
    rw [listed, hperm.count_eq, hseqs]

/-! ### Rows and cycles -/

section
variable {l : CycleLedger} {r r' : LedgerRow} {b b' : Cycle × List LedgerRow} {n : ℕ}

theorem row_eq (hr : r ∈ l.rows) (hr' : r' ∈ l.rows) (h : r.entryId.str = r'.entryId.str) : r = r' :=
  List.inj_on_of_nodup_map CycleLedger.nodup_ids hr hr' (UUID.str_injective h)

theorem block_rows (hb : b ∈ l.blocks) (hr : r ∈ b.2) : r ∈ l.rows := CycleLedger.mem_rows.mpr ⟨b, hb, hr⟩

theorem listed_eq {trail : Option Trail} {ys : List LedgerRow} (hperm : ys.Perm l.rows)
    (hlisted : ∀ r, listed trail r =
      ((ys.filter fun e => e.entryId.str ∈ found py entryId ys).map (·.seq)).count r.seq) (hr : r ∈ l.rows) :
    listed trail r = if r.entryId.str ∈ found py entryId ys then 1 else 0 := by
  have hnodup : (ys.map (·.seq)).Nodup := (hperm.map _).nodup_iff.mpr CycleLedger.nodup_seqs
  have hys : r ∈ ys := hperm.symm.subset hr
  rw [hlisted]
  split
  · rename_i hfound
    refine List.count_eq_one_of_mem (hnodup.sublist (List.filter_sublist.map _)) ?_
    exact List.mem_map_of_mem (List.mem_filter.mpr ⟨hys, decide_eq_true hfound⟩)
  · rename_i hfound
    refine List.count_eq_zero_of_not_mem fun hmem => hfound ?_
    obtain ⟨e, he, hseq⟩ := List.mem_map.mp hmem
    obtain ⟨hein, hefound⟩ := List.mem_filter.mp he
    obtain rfl := List.inj_on_of_nodup_map hnodup hein hys hseq
    exact of_decide_eq_true hefound

/-- A trail shows whole cycles when the passes find whole cycles. -/
theorem whole_iff_found {trail : Option Trail} {ys : List LedgerRow} (hperm : ys.Perm l.rows)
    (hlisted : ∀ r, listed trail r =
      ((ys.filter fun e => e.entryId.str ∈ found py entryId ys).map (·.seq)).count r.seq) :
    Whole l trail ↔ ∀ b ∈ l.blocks, (∃ r ∈ b.2, r.entryId.str ∈ found py entryId ys) →
      ∀ r ∈ b.2, r.entryId.str ∈ found py entryId ys := by
  have hone : ∀ b ∈ l.blocks, ∀ r ∈ b.2, (0 < listed trail r ↔ r.entryId.str ∈ found py entryId ys) ∧
      (listed trail r = 1 ↔ r.entryId.str ∈ found py entryId ys) := by
    intro b hb r hr
    rw [listed_eq hperm hlisted (block_rows hb hr)]
    by_cases h : r.entryId.str ∈ found py entryId ys <;> simp [h]
  constructor
  · rintro h b hb ⟨r, hr, hfound⟩ r' hr'
    exact (hone b hb r' hr').2.mp (h b hb ⟨r, hr, (hone b hb r hr).1.mpr hfound⟩ r' hr')
  · rintro h b hb ⟨r, hr, hlisted⟩ r' hr'
    exact (hone b hb r' hr').2.mpr (h b hb ⟨r, hr, (hone b hb r hr).1.mp hlisted⟩ r' hr')

theorem mentioning_perm {ys : List LedgerRow} (hperm : ys.Perm l.rows) (i : String) :
    i ∈ mentioning py entryId ys ↔ i ∈ mentioning py entryId l.rows := by
  simp only [mem_mentioning, hperm.mem_iff]

theorem near_zero (hr : r ∈ l.rows) : Near py l entryId 0 r ↔ entryTouchesId py r entryId = .ok true := by
  rw [Near, Passes.Within, mem_mentioning]
  constructor
  · rintro ⟨r', hr', htouches, hid⟩
    rwa [← row_eq hr' hr hid]
  · exact fun h => ⟨r, hr, h, rfl⟩

/-- A row is one reference further when it refers to a row. -/
theorem near_succ (hr : r ∈ l.rows) : Near py l entryId (n + 1) r ↔ Near py l entryId n r ∨
    ∃ r' ∈ l.rows, parentOf py r = some r'.entryId.str ∧ Near py l entryId n r' := by
  have hrow : ∀ {n : ℕ} {i : String},
      Passes.Within (·.entryId.str) (parentOf py) l.rows (mentioning py entryId l.rows) n i →
        ∃ r ∈ l.rows, r.entryId.str = i := by
    intro n i h
    induction n generalizing i with
    | zero =>
      obtain ⟨r, hr, -, hid⟩ := mem_mentioning.mp h
      exact ⟨r, hr, hid⟩
    | succ n ih =>
      rcases h with h | ⟨r, hr, hid, -⟩
      · exact ih h
      · exact ⟨r, hr, hid⟩
  rw [Near, Passes.Within]
  constructor
  · rintro (h | ⟨x, hx, hid, p, hparent, hp⟩)
    · exact .inl h
    · obtain rfl := row_eq hx hr hid
      obtain ⟨r', hr', rfl⟩ := hrow hp
      exact .inr ⟨r', hr', hparent, hp⟩
  · rintro (h | ⟨r', hr', hparent, hnear⟩)
    · exact .inl h
    · exact .inr ⟨r, hr, rfl, _, hparent, hnear⟩

/-- The propose row of a cycle refers to no row, and mentions the asset when it is about it. -/
theorem exists_propose (py : Interp) (entryId : String) (hb : b ∈ l.blocks) : ∃ p, b.2.head? = some p ∧
    (∀ n, Near py l entryId n p → Names py entryId b.1) ∧
    (Names py entryId b.1 → entryTouchesId py p entryId = .ok true) := by
  obtain ⟨-, k, hrows⟩ := mem_blocks hb
  obtain ⟨p, hp, hkind, hpayload⟩ : ∃ p, b.2.head? = some p ∧ p.kind = "propose" ∧ p.payload = .dict b.1.propose :=
    ⟨_, congrArg List.head? hrows, rfl, rfl⟩
  have hread : entryTouchesId py p entryId = .ok (isId py (b.1.propose.get "ref_id") entryId) := by
    rw [entryTouchesId, hkind, hpayload]
    simp only [orMapping_dict]
    rfl
  have hparent : parentOf py p = none := by
    rw [parentOf, parent, hkind]
    rfl
  have hin := block_rows hb (List.mem_of_head? hp)
  refine ⟨p, hp, fun n hnear => ?_, fun hnames => by rw [hread, hnames]⟩
  induction n with
  | zero =>
    have h := (near_zero hin).mp hnear
    rw [hread] at h
    exact Except.ok.inj h
  | succ n ih =>
    rcases (near_succ hin).mp hnear with h | ⟨r', -, h, -⟩
    · exact ih h
    · rw [hparent] at h
      cases h

/-! ### Whole cycles -/

/-- Whatever leads to a row that mentions the asset belongs to a cycle that is about it. -/
theorem Rooted.names (h : Rooted py l entryId) (hb : b ∈ l.blocks) (hr : r ∈ b.2) (hnear : Near py l entryId n r) :
    Names py entryId b.1 := by
  induction n generalizing b r with
  | zero => exact h.mentions b hb r hr ((near_zero (block_rows hb hr)).mp hnear)
  | succ n ih =>
    rcases (near_succ (block_rows hb hr)).mp hnear with hnear | ⟨r', hr', hparent, hnear⟩
    · exact ih hb hr hnear
    · obtain ⟨b', hb', hrow⟩ := CycleLedger.mem_rows.mp hr'
      exact h.refers b hb b' hb' (ih hb' hrow hnear) r hr r' hrow hparent

/-- Read in any order, the rows of a ledger give a trail of whole cycles exactly when it is rooted. -/
theorem rooted_iff (hread : ∀ r ∈ l.rows, Readable r) : (∀ ys, ys.Perm l.rows →
    ∃ trail, foldAuditTrail py ys entryId = .ok trail ∧ Whole l trail) ↔ Rooted py l entryId := by
  have hfold : ∀ ys, ys.Perm l.rows → ((∃ trail, foldAuditTrail py ys entryId = .ok trail ∧ Whole l trail) ↔
      ∀ b ∈ l.blocks, (∃ r ∈ b.2, r.entryId.str ∈ found py entryId ys) →
        ∀ r ∈ b.2, r.entryId.str ∈ found py entryId ys) := by
    intro ys hperm
    obtain ⟨trail, htrail, hlisted⟩ :=
      foldAuditTrail_ok py entryId fun e he => hread e (hperm.subset he)
    rw [← whole_iff_found hperm hlisted, htrail]
    constructor
    · rintro ⟨t, ht, hwhole⟩
      rwa [Except.ok.inj ht]
    · exact fun h => ⟨trail, rfl, h⟩
  constructor
  · intro h
    have hstart : ∀ ys : List LedgerRow, ys.Perm l.rows → ∀ i,
        i ∈ mentioning py entryId ys ↔ i ∈ mentioning py entryId l.rows := fun ys hperm => mentioning_perm hperm
    have hnodup : (l.rows.map (·.entryId.str)).Nodup := by
      have hids := (CycleLedger.nodup_ids (l := l)).map UUID.str_injective
      rwa [List.map_map] at hids
    obtain ⟨slow, hslow, hfour⟩ := @Passes.exists_slowest _ _ (·.entryId.str) (parentOf py) l.rows _ _ hstart 4
    obtain ⟨fast, hfast, hall⟩ :=
      @Passes.exists_fastest _ _ (·.entryId.str) (parentOf py) l.rows _ _ hstart hnodup 3
    have hnear : ∀ b ∈ l.blocks, (∃ r ∈ b.2, Near py l entryId 4 r) → ∀ r ∈ b.2, Near py l entryId 4 r := by
      have hwhole := (hfold slow hslow).mp (h slow hslow)
      simp only [found, hfour] at hwhole
      exact hwhole
    have hreach : ∀ b ∈ l.blocks, (∃ r ∈ b.2, ∃ n, Near py l entryId n r) →
        ∀ r ∈ b.2, ∃ n, Near py l entryId n r := by
      have hwhole := (hfold fast hfast).mp (h fast hfast)
      simp only [found, hall] at hwhole
      exact hwhole
    have hnames : ∀ b ∈ l.blocks, ∀ r ∈ b.2, ∀ n, Near py l entryId n r → Names py entryId b.1 := by
      intro b hb r hr n hn
      obtain ⟨p, hp, hback, -⟩ := exists_propose py entryId hb
      obtain ⟨k, hk⟩ := hreach b hb ⟨r, hr, n, hn⟩ p (List.mem_of_head? hp)
      exact hback k hk
    have hclose : ∀ b ∈ l.blocks, Names py entryId b.1 → ∀ r ∈ b.2, Near py l entryId 4 r := by
      intro b hb hname
      obtain ⟨p, hp, -, htouches⟩ := exists_propose py entryId hb
      have hp := List.mem_of_head? hp
      have hzero := (near_zero (block_rows hb hp)).mpr (htouches hname)
      exact hnear b hb ⟨p, hp, hzero.mono (Nat.zero_le 4)⟩
    refine ⟨?_, ?_, hclose⟩
    · intro b hb r hr htouches
      exact hnames b hb r hr 0 ((near_zero (block_rows hb hr)).mpr htouches)
    · intro b hb b' hb' hname r hr r' hr' hparent
      have hfour := hclose b' hb' hname r' hr'
      have hfive := (near_succ (block_rows hb hr)).mpr (.inr ⟨r', block_rows hb' hr', hparent, hfour⟩)
      exact hnames b hb r hr 5 hfive
  · intro h ys hperm
    rw [hfold ys hperm]
    rintro b hb ⟨r, hr, hfound⟩ r' hr'
    obtain ⟨n, hn⟩ := Passes.sound hfound
    have hsame : ∀ i, i ∈ mentioning py entryId ys ↔ i ∈ mentioning py entryId l.rows := mentioning_perm hperm
    have hnear : Near py l entryId n r := (Passes.within_congr (fun x => hperm.mem_iff) hsame).mp hn
    refine Passes.complete ((Passes.within_congr (fun x => hperm.mem_iff) hsame).mpr ?_)
    exact h.near b hb (h.names hb hr hnear) r' hr'

/-! ### Bodies that leave the references alone -/

/-- The bodies do not define the fields that refer back. -/
structure Plain (c : Cycle) : Prop where
  execute : c.execute.get? "propose_entry_id" = none
  verify : c.verify.get? "execute_entry_id" = none
  resolve : c.resolve.get? "verify_entry_id" = none

theorem parentOf_linked {kind name : String} {id id' company : UUID} {seq : ℕ} {ts : DateTime} {body : Dict}
    {hash : Bytes} (hfield : parentField kind = some name) (h : body.get? name = none) :
    parentOf py ⟨id, company, seq, ts, kind, .dict (linked name id' body), hash⟩ = some id'.str := by
  rw [parentOf, parent, hfield]
  simp only [orMapping_dict, bind, Except.bind, get_linked h]
  rfl

/-- Each row of such a cycle refers to the one before it. -/
theorem Plain.block (hplain : Plain b.1) (hb : b ∈ l.blocks) : ∃ p e v x, b.2 = [p, e, v, x] ∧
    parentOf py p = none ∧ parentOf py e = some p.entryId.str ∧ parentOf py v = some e.entryId.str ∧
      parentOf py x = some v.entryId.str := by
  obtain ⟨-, k, hrows⟩ := mem_blocks hb
  rw [Cycle.rows, stampedRows] at hrows
  exact ⟨_, _, _, _, hrows, rfl, parentOf_linked rfl hplain.execute, parentOf_linked rfl hplain.verify,
    parentOf_linked rfl hplain.resolve⟩

/-- Where no body defines a reference, a ledger is rooted when the cycles that mention the asset are about it. -/
theorem rooted_iff_of_plain (hplain : ∀ c ∈ l.cycles, Plain c) : Rooted py l entryId ↔
    ∀ b ∈ l.blocks, ∀ r ∈ b.2, entryTouchesId py r entryId = .ok true → Names py entryId b.1 := by
  constructor
  · exact Rooted.mentions
  · intro h
    refine ⟨h, ?_, ?_⟩
    · intro b hb b' hb' hname r hr r' hr' hparent
      obtain ⟨p, e, v, x, hrows, hp, he, hv, hx⟩ := (hplain _ (mem_blocks hb).1).block hb
      have hown : ∃ q ∈ b.2, q.entryId.str = r'.entryId.str := by
        rw [hrows] at hr ⊢
        simp only [List.mem_cons, List.not_mem_nil, or_false] at hr
        rcases hr with rfl | rfl | rfl | rfl
        · rw [hp] at hparent
          cases hparent
        · exact ⟨p, by simp, Option.some.inj (he.symm.trans hparent)⟩
        · exact ⟨e, by simp, Option.some.inj (hv.symm.trans hparent)⟩
        · exact ⟨v, by simp, Option.some.inj (hx.symm.trans hparent)⟩
      obtain ⟨q, hq, hid⟩ := hown
      obtain rfl := row_eq (block_rows hb hq) (block_rows hb' hr') hid
      rwa [CycleLedger.block_eq hb hb' hq hr']
    · intro b hb hname
      obtain ⟨p', hp', -, htouches⟩ := exists_propose py entryId hb
      obtain ⟨p, e, v, x, hrows, hp, he, hv, hx⟩ := (hplain _ (mem_blocks hb).1).block hb
      obtain rfl : p = p' := by simpa [hrows] using hp'
      have hin : ∀ r ∈ [p, e, v, x], r ∈ l.rows := fun r hr => block_rows hb (hrows ▸ hr)
      have hzero := (near_zero (hin p (by simp))).mpr (htouches hname)
      have hone := (near_succ (hin e (by simp))).mpr (.inr ⟨p, hin p (by simp), he, hzero⟩)
      have htwo := (near_succ (hin v (by simp))).mpr (.inr ⟨e, hin e (by simp), hv, hone⟩)
      have hthree := (near_succ (hin x (by simp))).mpr (.inr ⟨v, hin v (by simp), hx, htwo⟩)
      rw [hrows]
      simp only [List.forall_mem_cons]
      exact ⟨hzero.mono (by omega), hone.mono (by omega), htwo.mono (by omega), hthree.mono (by omega),
        fun _ hr => nomatch hr⟩

/-- The trail of an asset shows whole cycles, in whatever order the rows are read, exactly when the ledger is rooted
    at the asset. -/
theorem trail_whole_iff (py : Interp) (l : ActionLedger) (entryId : String) :
    (∀ ys, ys.Perm l.rows → ∃ trail, foldAuditTrail py ys entryId = .ok trail ∧ Whole l.toCycleLedger trail) ↔
      Rooted py l.toCycleLedger entryId :=
  rooted_iff l.readable

end

/-! ### A cycle that mentions its asset in the args -/

/-- The import of a table of a source: `ref_id` is the composite key, and the args name the source. -/
def tableImported : Cycle where
  stamp := instantStamp
  propose := [(.str "target_kind", .str "catalog_table_imported"), (.str "ref_id", .str "s-1|0f|orders"),
    (.str "proposed_by", .str "worm_core")]
  execute := [(.str "tool", .str "emit_catalog_table_imported"),
    (.str "args", .dict [(.str "source_id", .str "s-1"), (.str "snapshot_hash", .str "0f"),
      (.str "table_id", .str "orders"), (.str "columns", .list [])]),
    (.str "result_ref", .str "s-1|0f|orders")]
  verify := [(.str "passed", .bool true)]
  resolve := [(.str "outcome", .str "keep")]

def importLedger : ActionLedger where
  company := ⟨0⟩
  cycles := [tableImported]
  nodup := by decide
  called := by
    rintro c hc
    obtain rfl := List.mem_singleton.mp hc
    exact ⟨⟨_, rfl⟩, ⟨_, rfl⟩⟩

/-- The trail of the source has the other three rows of the cycle and not its propose row. -/
theorem trail_misses_propose : ¬∀ (py : Interp) (l : ActionLedger) (entryId : String), ∀ ys, ys.Perm l.rows →
    ∃ trail, foldAuditTrail py ys entryId = .ok trail ∧ Whole l.toCycleLedger trail := by
  intro h
  have hroot := (rooted_iff importLedger.readable).mp (h .plain importLedger "s-1")
  have htouches : entryTouchesId .plain (tableImported.rows ⟨0⟩ 0)[1] "s-1" = .ok true := by decide +kernel
  have hnames := hroot.mentions (tableImported, tableImported.rows ⟨0⟩ 0) List.mem_cons_self _
    (List.mem_cons_of_mem _ List.mem_cons_self) htouches
  have hother : isId .plain (tableImported.propose.get "ref_id") "s-1" = false := by decide +kernel
  rw [Names, hother] at hnames
  cases hnames

end AuditTrail
