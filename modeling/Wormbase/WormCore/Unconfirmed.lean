import Wormbase.Lib.Firsts
import Wormbase.WormCore.FirstKnowings
import Mathlib.Order.Bounds.Defs

/-! The unconfirmed discoveries. What is detected is known by its kind of target and its reference.

    A row stream is in seq order, its payloads are mappings, and its gaps have the fields of
    `PhenomenonGapDetectedPayload`. -/

namespace WormCore
open Py
open Projection (LedgerRow)

/-- A kind of target and a reference. -/
abbrev Reference := String × String

def FirstKnowingRow.key (f : FirstKnowingRow) : Reference := (f.targetKind, f.refId)

/-- The action that a row tells of. -/
def told (r : LedgerRow) : Option (String × Dict) := (executeArgs r).toOption.join

def actions (rows : List LedgerRow) : List (String × Dict) := rows.filterMap told

section
variable (py : Interp)

/-- The gap that a row detects. -/
def detectsGap (r : LedgerRow) : Option Reference :=
  match told r with
  | some (tool, args) =>
    if tool = "emit_phenomenon_gap_detected" ∧ gapKindOf args ≠ none then
      some ("phenomenon_gap_detected", gapRef py r.seq args)
    else none
  | none => none

/-- An entry confirms, resolves or archives what a reference stands for. -/
inductive Closes : Reference → String × Dict → Prop
  | gap (args : Dict) (h : (Dict.get args "novelty_key").text py ≠ "") :
    Closes ("phenomenon_gap_detected", "phenomenon_gap:" ++ (Dict.get args "novelty_key").text py)
      ("emit_phenomenon_gap_resolved", args)
  | person (tool : String) (args : Dict) (h : tool ∈ ["emit_person_confirmed", "emit_person_archived"]) :
    Closes ("person_proposed", (Dict.get args "person_id").text py) (tool, args)
  | reactivity (tool : String) (args : Dict) (h : tool ∈ ["emit_reactivity_confirmed", "emit_reactivity_disabled"]) :
    Closes ("reactivity_proposed", (Dict.get args "reactivity_id").text py) (tool, args)

/-- The id that an entry confirms or archives is that of a reference, whatever the entry is about. -/
def Touches (key : Reference) (action : String × Dict) : Prop :=
  confirmedRef py action.1 action.2 = key.2 ∨
    key.1 ≠ "phenomenon_gap_detected" ∧ archivedRef py action.1 action.2 = key.2

/-- The ids of the KPI that a gap suggests: those it names, and those that its label has been proposed under. -/
inductive Suggests (rows : List LedgerRow) (args : Dict) : String → Prop
  | named (name : String) (h : name ∈ ["kpi_id", "ref_id"]) :
    Suggests rows args ((Dict.get (suggestedOf args) name).text py)
  | labelled (proposal : Dict) (h : ("emit_kpi_proposed", proposal) ∈ actions rows)
      (hlabel : (Dict.get proposal "label").text py = (Dict.get (suggestedOf args) "label").text py) :
    Suggests rows args ((Dict.get proposal "kpi_id").text py)

/-- The KPI that a gap suggests has been confirmed. -/
def SuggestedConfirmed (rows : List LedgerRow) (key : Reference) : Prop :=
  ∃ r ∈ rows, detectsGap py r = some key ∧ ∃ args, told r = some ("emit_phenomenon_gap_detected", args) ∧
    gapKindOf args = some "kpi" ∧ ∃ kpi ≠ "", Suggests py rows args kpi ∧
      ∃ confirmation, ("emit_kpi_confirmed", confirmation) ∈ actions rows ∧
        (Dict.get confirmation "kpi_id").text py = kpi

variable (isAlnum : Char → Bool)

/-- The person or the reactivity that a row proposes for the worm. -/
def detectsProposal (r : LedgerRow) : Option Reference :=
  match proposePayload r with
  | some payload =>
    let targetKind := (Dict.get payload "target_kind").text py
    let ref := (Dict.get payload "ref_id").text py
    if ref ≠ "" ∧ isWormProposer isAlnum ((Dict.get payload "proposed_by").text py) = true ∧
        (targetKind = "person_proposed" ∨ targetKind = "reactivity_proposed") then some (targetKind, ref)
    else none
  | none => none

def detects (r : LedgerRow) : Option Reference := (detectsGap py r).or (detectsProposal py isAlnum r)

/-- Every reference that is open is listed once, with the seq of its first detection, the newest first. -/
structure Listing (rows : List LedgerRow) (isOpen : Reference → Prop) (out : List FirstKnowingRow) : Prop where
  listed : ∀ key, key ∈ out.map FirstKnowingRow.key ↔ (∃ r ∈ rows, detects py isAlnum r = some key) ∧ isOpen key
  once : (out.map FirstKnowingRow.key).Nodup
  first : ∀ f ∈ out, IsLeast {s | ∃ r ∈ rows, detects py isAlnum r = some f.key ∧ r.seq = s} f.firstDetectedSeq
  newestFirst : out.Pairwise fun f f' => f'.firstDetectedSeq ≤ f.firstDetectedSeq

/-- No entry closes a reference, and the KPI that it suggests is not confirmed. -/
def Unconfirmed (rows : List LedgerRow) (key : Reference) : Prop :=
  (∀ action ∈ actions rows, ¬Closes py key action) ∧ ¬SuggestedConfirmed py rows key

/-- A gap whose suggested KPI is confirmed has an entry of its own, and an id that an entry confirms or archives is that
    of the reference it closes. -/
structure ClosedByOwn (rows : List LedgerRow) : Prop where
  suggested : ∀ key, SuggestedConfirmed py rows key → ∃ action ∈ actions rows, Touches py key action
  own : ∀ key, (∃ r ∈ rows, detects py isAlnum r = some key) → ∀ action ∈ actions rows, Touches py key action →
    (∃ a ∈ actions rows, Closes py key a) ∨ SuggestedConfirmed py rows key

end

/-- A row has a mapping for payload, and the fields of a gap if it tells of one. -/
structure WellFormed (r : LedgerRow) : Prop where
  payload : ∃ payload, r.payload = .dict payload
  gap : ∀ args, told r = some ("emit_phenomenon_gap_detected", args) →
    (∃ confidence, Dict.get args "confidence" = .float confidence) ∧ (∃ n, Dict.get args "referenced_in_seq" = .int n) ∧
      gapKindOf args ≠ none

structure RowStream (rows : List LedgerRow) : Prop where
  ordered : rows.Pairwise fun r r' => r.seq < r'.seq
  rows : ∀ r ∈ rows, WellFormed r

/-! ### What rows tell -/

theorem executeArgs_told {r : LedgerRow} (h : ∃ payload, r.payload = .dict payload) : executeArgs r = .ok (told r) := by
  obtain ⟨payload, hpayload⟩ := h
  obtain ⟨o, ho⟩ : ∃ o, executeArgs r = .ok o := by
    rw [executeArgs, hpayload, orMapping_dict]
    simp only [bind, Except.bind]
    split
    · exact ⟨_, rfl⟩
    · split <;> exact ⟨_, rfl⟩
  rw [told, ho]
  rfl

theorem told_of_kind {r : LedgerRow} (h : r.kind ≠ "execute") : told r = none := by
  rw [told, executeArgs, if_pos h]
  rfl

theorem mem_actions {rows : List LedgerRow} {action : String × Dict} :
    action ∈ actions rows ↔ ∃ r ∈ rows, told r = some action := List.mem_filterMap

theorem actions_snoc (rows : List LedgerRow) (r : LedgerRow) : actions (rows ++ [r]) = actions rows ++ (told r).toList := by
  rw [actions, List.filterMap_append]
  cases h : told r with
  | none => simp [actions, h]
  | some action => simp [actions, h]

section
variable {py : Interp} {isAlnum : Char → Bool} {r : LedgerRow} {key : Reference}

theorem detectsGap_kind (h : detectsGap py r = some key) : r.kind = "execute" ∧ key.1 = "phenomenon_gap_detected" ∧ key.2 ≠ "" := by
  have hkind : r.kind = "execute" := by
    by_contra hkind
    rw [detectsGap, told_of_kind hkind] at h
    cases h
  refine ⟨hkind, ?_⟩
  rw [detectsGap] at h
  split at h
  · split at h
    · obtain rfl := Option.some.inj h
      refine ⟨rfl, ?_⟩
      simp only [gapRef]
      intro hnil
      have := congrArg String.length hnil
      simp [String.length_append] at this
    · cases h
  · cases h

theorem detectsProposal_kind (h : detectsProposal py isAlnum r = some key) :
    r.kind = "propose" ∧ (key.1 = "person_proposed" ∨ key.1 = "reactivity_proposed") ∧ key.2 ≠ "" := by
  have hkind : r.kind = "propose" := by
    by_contra hkind
    rw [detectsProposal, proposePayload, if_pos hkind] at h
    cases h
  refine ⟨hkind, ?_⟩
  rw [detectsProposal] at h
  split at h
  · simp only at h
    split at h
    · rename_i hproposal
      obtain rfl := Option.some.inj h
      exact ⟨hproposal.2.2, hproposal.1⟩
    · cases h
  · cases h

theorem detects_cases (h : detects py isAlnum r = some key) :
    detectsGap py r = some key ∨ detectsProposal py isAlnum r = some key := by
  rw [detects] at h
  cases hgap : detectsGap py r with
  | none => exact .inr (by rwa [hgap, Option.none_or] at h)
  | some key' => exact .inl (by rwa [hgap, Option.some_or] at h)

theorem detects_ne (h : detects py isAlnum r = some key) : key.2 ≠ "" := by
  rcases detects_cases h with h | h
  · exact (detectsGap_kind h).2.2
  · exact (detectsProposal_kind h).2.2

end

/-! ### The index -/

section
variable (py : Interp)

/-- The index holds the ids that some actions confirm and archive. -/
structure Indexes (done : List (String × Dict)) (index : KnowingsIndex) : Prop where
  confirmed : ∀ ref, ref ∈ index.confirmedRefs ↔ ref ≠ "" ∧ ∃ action ∈ done, confirmedRef py action.1 action.2 = ref
  archived : ∀ ref, ref ∈ index.archivedRefs ↔ ref ≠ "" ∧ ∃ action ∈ done, archivedRef py action.1 action.2 = ref

variable {py}

theorem mem_addRef {ref new : String} {refs : List String} : ref ∈ addRef new refs ↔ ref ∈ refs ∨ ref ≠ "" ∧ new = ref := by
  rw [addRef]
  split
  · rename_i hnew
    constructor
    · exact .inl
    · rintro (h | ⟨hne, rfl⟩)
      · exact h
      · exact absurd hnew hne
  · rename_i hnew
    rw [List.mem_cons]
    constructor
    · rintro (rfl | h)
      · exact .inr ⟨hnew, rfl⟩
      · exact .inl h
    · rintro (h | ⟨-, rfl⟩)
      · exact .inr h
      · exact .inl rfl

/-- A list of ids that grows with the actions. -/
theorem addRef_indexes {refs : List String} {done : List (String × Dict)} {action : String × Dict}
    {refOf : String × Dict → String} (h : ∀ ref, ref ∈ refs ↔ ref ≠ "" ∧ ∃ a ∈ done, refOf a = ref) (ref : String) :
    ref ∈ addRef (refOf action) refs ↔ ref ≠ "" ∧ ∃ a ∈ done ++ [action], refOf a = ref := by
  rw [mem_addRef, h]
  simp only [List.mem_append, List.mem_singleton]
  constructor
  · rintro (⟨hne, a, ha, hr⟩ | ⟨hne, hr⟩)
    · exact ⟨hne, a, .inl ha, hr⟩
    · exact ⟨hne, action, .inr rfl, hr⟩
  · rintro ⟨hne, a, ha | rfl, hr⟩
    · exact .inl ⟨hne, a, ha, hr⟩
    · exact .inr ⟨hne, hr⟩

theorem indexStep_ok {done : List (String × Dict)} {index : KnowingsIndex} {r : LedgerRow}
    (hr : ∃ payload, r.payload = .dict payload) (h : Indexes py done index) :
    ∃ index', indexStep py index r = .ok index' ∧ Indexes py (done ++ (told r).toList) index' := by
  rw [indexStep]
  split
  · rename_i hchat
    refine ⟨_, rfl, ?_⟩
    rw [told_of_kind (by rw [hchat]; decide), Option.toList_none, List.append_nil]
    exact ⟨h.confirmed, h.archived⟩
  · rw [executeArgs_told hr]
    simp only [bind, Except.bind]
    cases told r with
    | none =>
      rw [Option.toList_none, List.append_nil]
      exact ⟨_, rfl, h⟩
    | some action =>
      obtain ⟨tool, args⟩ := action
      have hconfirmed := @addRef_indexes _ _ (tool, args) (fun a => confirmedRef py a.1 a.2) h.confirmed
      have harchived := @addRef_indexes _ _ (tool, args) (fun a => archivedRef py a.1 a.2) h.archived
      simp only
      split
      · rename_i htool
        -- a chat message confirms and archives nothing
        have hnone : confirmedRef py tool args = "" ∧ archivedRef py tool args = "" := by
          rcases htool with rfl | rfl <;> simp [confirmedRef, archivedRef]
        simp only [hnone, addRef, if_true] at hconfirmed harchived
        exact ⟨_, rfl, hconfirmed, harchived⟩
      · exact ⟨_, rfl, hconfirmed, harchived⟩

theorem indexOf_ok {rows : List LedgerRow} (hrows : ∀ r ∈ rows, ∃ payload, r.payload = .dict payload) :
    ∃ index, indexOf py rows = .ok index ∧ Indexes py (actions rows) index := by
  induction rows using List.reverseRecOn with
  | nil => exact ⟨_, rfl, ⟨by simp [actions], by simp [actions]⟩⟩
  | append_singleton rows r ih =>
    obtain ⟨hbefore, hr⟩ := List.forall_mem_append.mp hrows
    obtain ⟨index, hindex, hholds⟩ := ih hbefore
    obtain ⟨index', hstep, hholds'⟩ := indexStep_ok (hr r List.mem_cons_self) hholds
    refine ⟨index', ?_, ?_⟩
    · rw [indexOf] at hindex ⊢
      rw [List.foldlM_append, hindex]
      simp only [bind, Except.bind, List.foldlM_cons, List.foldlM_nil, hstep]
      rfl
    · rwa [actions_snoc]

/-- A reference that is passed over has been touched. -/
theorem Indexes.touched {rows : List LedgerRow} {index : KnowingsIndex} (h : Indexes py (actions rows) index) {key : Reference}
    (hne : key.2 ≠ "") : (∃ action ∈ actions rows, Touches py key action) ↔
      key.2 ∈ index.confirmedRefs ∨ key.1 ≠ "phenomenon_gap_detected" ∧ key.2 ∈ index.archivedRefs := by
  rw [h.confirmed, h.archived]
  constructor
  · rintro ⟨action, ha, hconfirmed | ⟨hkind, harchived⟩⟩
    · exact .inl ⟨hne, action, ha, hconfirmed⟩
    · exact .inr ⟨hkind, hne, action, ha, harchived⟩
  · rintro (⟨-, action, ha, hconfirmed⟩ | ⟨hkind, -, action, ha, harchived⟩)
    · exact ⟨action, ha, .inl hconfirmed⟩
    · exact ⟨action, ha, .inr ⟨hkind, harchived⟩⟩

end

/-! ### The two folds -/

/-- A listed row tells of a detection. -/
structure Describes (r : LedgerRow) (key : Reference) (f : FirstKnowingRow) : Prop where
  reference : f.key = key
  seq : f.firstDetectedSeq = r.seq
  ts : f.firstDetectedTs = (knownTs r).isoformat

section
variable {py : Interp} {isAlnum : Char → Bool} {rows : List LedgerRow} {index : KnowingsIndex}

theorem gapRow_ok {r : LedgerRow} {args : Dict} {gapKind ref : String} (hc : ∃ c, Dict.get args "confidence" = .float c)
    (hn : ∃ n, Dict.get args "referenced_in_seq" = .int n) :
    ∃ f, gapRow py r args gapKind ref = .ok f ∧ Describes r ("phenomenon_gap_detected", ref) f := by
  obtain ⟨c, hc⟩ := hc
  obtain ⟨n, hn⟩ := hn
  obtain ⟨confidence, hconfidence⟩ : ∃ x, ((Val.float c).or (.float .zero)).toFloat = .ok x := by
    rw [Val.or]
    split <;> exact ⟨_, rfl⟩
  obtain ⟨seq, hseq⟩ : ∃ k, ((Val.int n).or (.int 0)).toInt = .ok k := by
    rw [Val.or]
    split <;> exact ⟨_, rfl⟩
  rw [gapRow, hc, hn, hconfidence, hseq]
  exact ⟨_, rfl, ⟨rfl, rfl, rfl⟩⟩

/-- The first fold takes each gap that nothing touches. -/
theorem gapStep_takes (hindex : Indexes py (actions rows) index) :
    Firsts.Takes WellFormed (gapStep py index.confirmedRefs) (detectsGap py)
      (fun key => ∃ action ∈ actions rows, Touches py key action) Describes where
  passes found r hr h := by
    rw [gapStep, executeArgs_told hr.payload]
    simp only [bind, Except.bind]
    cases htold : told r with
    | none => rfl
    | some action =>
      obtain ⟨tool, args⟩ := action
      simp only
      split
      · rename_i htool
        cases hkind : gapKindOf args with
        | none => rfl
        | some gapKind =>
          have hkey : detectsGap py r = some ("phenomenon_gap_detected", gapRef py r.seq args) := by
            simp [detectsGap, htold, htool, hkind]
          have hpass := h _ hkey
          rw [hindex.touched (detectsGap_kind hkey).2.2] at hpass
          simp only [ne_eq, not_true_eq_false, false_and, or_false] at hpass
          simp only [if_pos hpass]
          rfl
      · rfl
  takes found r key hr hkey hnew hskip := by
    have hne := (detectsGap_kind hkey).2.2
    rw [hindex.touched hne, not_or] at hskip
    rw [gapStep, executeArgs_told hr.payload]
    simp only [bind, Except.bind]
    have hgap := hr.gap
    rw [detectsGap] at hkey
    cases htold : told r with
    | none =>
      rw [htold] at hkey
      cases hkey
    | some action =>
      obtain ⟨tool, args⟩ := action
      rw [htold] at hkey
      simp only at hkey ⊢
      split at hkey
      · rename_i htool
        obtain rfl := Option.some.inj hkey
        obtain ⟨hc, hn, -⟩ := hgap args (by rw [htold, htool.1])
        obtain ⟨gapKind, hkind⟩ := Option.ne_none_iff_exists'.mp htool.2
        obtain ⟨f, hf, hdescribes⟩ := @gapRow_ok py r args gapKind (gapRef py r.seq args) hc hn
        refine ⟨f, hdescribes, ?_⟩
        simp only [if_pos htool.1, hkind, if_neg (not_or.mpr ⟨hnew, hskip.1⟩), hf]
        rfl
      · cases hkey

theorem findMatchingExecuteArgs_ok {seq : ℕ} {targetKind : String} (hrows : ∀ r ∈ rows, ∃ payload, r.payload = .dict payload) :
    ∃ args, findMatchingExecuteArgs seq targetKind rows = .ok args := by
  induction rows with
  | nil => exact ⟨_, rfl⟩
  | cons r rows ih =>
    obtain ⟨hr, hrest⟩ := List.forall_mem_cons.mp hrows
    rw [findMatchingExecuteArgs]
    split
    · exact ih hrest
    · split
      · exact ⟨_, rfl⟩
      · rw [executeArgs_told hr]
        simp only [bind, Except.bind]
        split
        · exact ih hrest
        · split
          · exact ⟨_, rfl⟩
          · exact ih hrest

theorem proposalRow_ok {r : LedgerRow} {targetKind ref proposedBy : String}
    (hrows : ∀ r ∈ rows, ∃ payload, r.payload = .dict payload) :
    ∃ f, proposalRow py rows r targetKind ref proposedBy = .ok f ∧ Describes r (targetKind, ref) f := by
  obtain ⟨args, hargs⟩ := @findMatchingExecuteArgs_ok _ r.seq targetKind hrows
  rw [proposalRow, hargs]
  exact ⟨_, rfl, ⟨rfl, rfl, rfl⟩⟩

/-- The second fold takes each proposal that nothing touches. -/
theorem proposalStep_takes (hrows : ∀ r ∈ rows, ∃ payload, r.payload = .dict payload)
    (hindex : Indexes py (actions rows) index) :
    Firsts.Takes WellFormed (proposalStep py isAlnum rows index) (detectsProposal py isAlnum)
      (fun key => ∃ action ∈ actions rows, Touches py key action) Describes where
  passes found r _ h := by
    rw [proposalStep]
    rw [detectsProposal] at h
    split
    · rfl
    · rename_i payload hpayload
      simp only [hpayload] at h ⊢
      split
      · rfl
      · rename_i hnamed
        split
        · rfl
        · rename_i hworm
          split
          · rfl
          · rename_i hkind
            rw [not_or] at hnamed
            simp only [not_and_or, not_not, Bool.not_eq_true', Bool.not_eq_false] at hkind hworm
            rw [if_pos ⟨hnamed.1, by simpa using hworm, hkind⟩] at h
            have hpass := h _ rfl
            rw [hindex.touched hnamed.1] at hpass
            have hother : (Dict.get payload "target_kind").text py ≠ "phenomenon_gap_detected" := by
              rcases hkind with hkind | hkind <;> rw [hkind] <;> decide
            simp only [ne_eq, hother, not_false_eq_true, true_and] at hpass
            by_cases htouched : (Dict.get payload "ref_id").text py ∈ index.confirmedRefs ∨
                (Dict.get payload "ref_id").text py ∈ index.archivedRefs
            · rw [if_pos htouched]
            · rw [if_neg htouched, if_pos (hpass.resolve_right htouched)]
  takes found r key _ hkey hnew hskip := by
    obtain ⟨-, hkind, hne⟩ := detectsProposal_kind hkey
    rw [hindex.touched hne] at hskip
    have hother : key.1 ≠ "phenomenon_gap_detected" := by
      rcases hkind with hkind | hkind <;> rw [hkind] <;> decide
    simp only [ne_eq, hother, not_false_eq_true, true_and] at hskip
    rw [detectsProposal] at hkey
    rw [proposalStep]
    split at hkey
    · rename_i payload hpayload
      simp only at hkey
      split at hkey
      · rename_i hproposal
        obtain rfl := Option.some.inj hkey
        obtain ⟨f, hf, hdescribes⟩ := @proposalRow_ok py rows r ((Dict.get payload "target_kind").text py)
          ((Dict.get payload "ref_id").text py) ((Dict.get payload "proposed_by").text py) hrows
        have hnamed : ¬((Dict.get payload "ref_id").text py = "" ∨ (Dict.get payload "target_kind").text py = "") := by
          rintro (h | h)
          · exact hne h
          · rcases hkind with hkind | hkind <;> exact absurd (h.symm.trans hkind) (by decide)
        have hkinds : ¬((Dict.get payload "target_kind").text py ≠ "person_proposed" ∧
            (Dict.get payload "target_kind").text py ≠ "reactivity_proposed") := fun h => hkind.elim h.1 h.2
        refine ⟨f, hdescribes, ?_⟩
        simp only [hpayload, if_neg hnamed, hproposal.2.1, Bool.not_true, Bool.false_eq_true, if_false, if_neg hkinds,
          if_neg hskip, if_neg hnew, hf]
        rfl
      · cases hkey
    · cases hkey

/-! ### The listing -/

theorem filterSelected_all {keep : FirstKnowingRow → Except Err Bool} {out : List FirstKnowingRow}
    (h : ∀ f ∈ out, keep f = .ok true) : filterSelected keep out = .ok out := by
  induction out with
  | nil => rfl
  | cons f out ih =>
    obtain ⟨hf, hout⟩ := List.forall_mem_cons.mp h
    rw [filterSelected, hf, ih hout]
    rfl

/-- Without filters every row is selected: its time reads back. -/
theorem selected_all {r : LedgerRow} {key : Reference} {f : FirstKnowingRow} {now : Fin maxMicros} (h : Describes r key f) :
    selected PhenomenonKind.all none .all now f = .ok true := by
  have hkind : f.kind ∈ PhenomenonKind.all := by
    cases f.kind <;> decide
  have haware : (knownTs r).utcoffset ≠ none := by
    rw [knownTs]
    split
    · intro hnone
      cases hnone
    · assumption
  rw [selected, if_neg (not_not.mpr hkind), h.ts, fromisoformat_isoformat _ haware]
  rfl

/-- What is computed lists every reference that nothing touches. -/
theorem computeFirstKnowings_lists (h : RowStream rows) (radius : ℕ) (now : Fin maxMicros) :
    ∃ result, computeFirstKnowings py isAlnum rows [] none .all radius now = .ok result ∧
      Listing py isAlnum rows (fun key => ¬∃ action ∈ actions rows, Touches py key action) result.rows := by
  have hrows := fun r hr => (h.rows r hr).payload
  obtain ⟨index, hindex, hholds⟩ := @indexOf_ok py rows hrows
  obtain ⟨gaps, hgaps, htaken⟩ := @Firsts.Takes.run _ _ _ _ _ _ _ _ _ _ rows [] [] (gapStep_takes hholds) h.rows h.ordered
    (fun _ _ _ _ => List.not_mem_nil)
  have hkinds : ∀ r r' key, detectsGap py r = some key → detectsProposal py isAlnum r' ≠ some key := by
    intro r r' key hgap hproposal
    rcases (detectsProposal_kind hproposal).2.1 with hkind | hkind <;>
      exact absurd ((detectsGap_kind hgap).2.1.symm.trans hkind) (by decide)
  have hfresh : ∀ r ∈ rows, ∀ key, detectsProposal py isAlnum r = some key → key ∉ (gaps.map fun t => t.2.1).reverse ++ [] := by
    intro r _ key hproposal hseen
    rw [List.append_nil, List.mem_reverse] at hseen
    obtain ⟨t, ht, rfl⟩ := List.mem_map.mp hseen
    exact hkinds _ _ _ (htaken.sound t ht).2.1 hproposal
  obtain ⟨proposals, hproposals, htaken'⟩ := @Firsts.Takes.run _ _ _ _ _ _ _ _ _ _ rows _ ([] ++ gaps.map fun t => t.2.2)
    (@proposalStep_takes py isAlnum rows index hrows hholds) h.rows h.ordered hfresh
  have hall := htaken.or htaken' (fun r key hgap => by
    cases hproposal : detectsProposal py isAlnum r with
    | none => rfl
    | some key' =>
      exact absurd ((detectsGap_kind hgap).1.symm.trans (detectsProposal_kind hproposal).1) (by decide)) hkinds
  generalize htakenAll : gaps ++ proposals = taken at hall
  have hout : candidates py isAlnum rows index = .ok (taken.map fun t => t.2.2) := by
    rw [candidates, hgaps]
    simp only [bind, Except.bind, hproposals]
    rw [← htakenAll, List.map_append, List.nil_append]
    rfl
  have hselected : ∀ f ∈ taken.map fun t => t.2.2, selected PhenomenonKind.all none .all now f = .ok true := by
    intro f hf
    obtain ⟨t, ht, rfl⟩ := List.mem_map.mp hf
    exact selected_all (hall.sound t ht).2.2.2
  have hkeys : (taken.map fun t => t.2.2).map FirstKnowingRow.key = taken.map fun t => t.2.1 := by
    rw [List.map_map]
    exact List.map_congr_left fun t ht => (hall.sound t ht).2.2.2.reference
  let newest := (taken.map fun t => t.2.2).insertionSort fun f f' => f'.firstDetectedSeq ≤ f.firstDetectedSeq
  refine ⟨⟨newest, chatterContext index.chatRows radius newest⟩, ?_, ?_⟩
  · rw [computeFirstKnowings, hindex]
    simp only [bind, Except.bind, hout, if_true, filterSelected_all hselected]
    rfl
  · have hperm := List.perm_insertionSort (fun f f' : FirstKnowingRow => f'.firstDetectedSeq ≤ f.firstDetectedSeq)
      (taken.map fun t => t.2.2)
    have hkeyPerm := hperm.map FirstKnowingRow.key
    rw [hkeys] at hkeyPerm
    refine ⟨fun key => ?_, ?_, fun f hf => ?_, ?_⟩
    · rw [hkeyPerm.mem_iff]
      constructor
      · intro hkey
        obtain ⟨t, ht, rfl⟩ := List.mem_map.mp hkey
        obtain ⟨hin, hdetects, hskip, -⟩ := hall.sound t ht
        exact ⟨⟨t.1, hin, hdetects⟩, hskip⟩
      · rintro ⟨⟨r, hr, hdetects⟩, hskip⟩
        exact hall.all r hr key hdetects hskip
    · exact hkeyPerm.nodup_iff.mpr hall.nodup
    · obtain ⟨t, ht, rfl⟩ := List.mem_map.mp (hperm.mem_iff.mp hf)
      obtain ⟨hin, hdetects, -, hdescribes⟩ := hall.sound t ht
      rw [hdescribes.reference, hdescribes.seq]
      refine ⟨⟨t.1, hin, hdetects, rfl⟩, ?_⟩
      rintro _ ⟨r, hr, hr', rfl⟩
      rcases hall.first t ht r hr hr' with rfl | hlt
      · exact le_rfl
      · exact Nat.le_of_lt hlt
    · exact List.pairwise_insertionSort _ _

end

/-! ### Unconfirmed discoveries -/

section
variable {py : Interp} {isAlnum : Char → Bool} {rows : List LedgerRow}

theorem Listing.congr {isOpen isOpen' : Reference → Prop} {out : List FirstKnowingRow} (h : Listing py isAlnum rows isOpen out)
    (hsame : ∀ key, (∃ r ∈ rows, detects py isAlnum r = some key) → (isOpen key ↔ isOpen' key)) :
    Listing py isAlnum rows isOpen' out where
  listed key := (h.listed key).trans (and_congr_right (hsame key))
  once := h.once
  first := h.first
  newestFirst := h.newestFirst

theorem Closes.touches {key : Reference} {action : String × Dict} (h : Closes py key action) : Touches py key action := by
  cases h with
  | gap args h => exact .inl (by simp [confirmedRef, h])
  | person tool args h =>
    rcases (by simpa using h : tool = "emit_person_confirmed" ∨ tool = "emit_person_archived") with rfl | rfl
    · exact .inl rfl
    · exact .inr ⟨by simp, rfl⟩
  | reactivity tool args h =>
    rcases (by simpa using h : tool = "emit_reactivity_confirmed" ∨ tool = "emit_reactivity_disabled") with rfl | rfl
    · exact .inl rfl
    · exact .inl rfl

theorem SuggestedConfirmed.detected {key : Reference} (h : SuggestedConfirmed py rows key) :
    ∃ r ∈ rows, detects py isAlnum r = some key := by
  obtain ⟨r, hr, hgap, -⟩ := h
  exact ⟨r, hr, by rw [detects, hgap, Option.some_or]⟩

/-- Where every entry closes its own, a reference is unconfirmed if no entry touches it. -/
theorem unconfirmed_iff (h : ClosedByOwn py isAlnum rows) {key : Reference}
    (hdetected : ∃ r ∈ rows, detects py isAlnum r = some key) :
    (¬∃ action ∈ actions rows, Touches py key action) ↔ Unconfirmed py rows key := by
  constructor
  · intro huntouched
    refine ⟨fun action ha hcloses => huntouched ⟨action, ha, hcloses.touches⟩, fun hsuggested => ?_⟩
    exact huntouched (h.suggested key hsuggested)
  · rintro ⟨hopen, hsuggested⟩ ⟨action, ha, htouches⟩
    rcases h.own key hdetected action ha htouches with ⟨a, ha, hcloses⟩ | hconfirmed
    · exact hopen a ha hcloses
    · exact hsuggested hconfirmed

/-- The first-knowings are the unconfirmed discoveries exactly if every entry closes its own. -/
theorem lists_unconfirmed_iff (h : RowStream rows) (radius : ℕ) (now : Fin maxMicros) :
    (∃ result, computeFirstKnowings py isAlnum rows [] none .all radius now = .ok result ∧
      Listing py isAlnum rows (Unconfirmed py rows) result.rows) ↔ ClosedByOwn py isAlnum rows := by
  obtain ⟨result, hresult, hlists⟩ := @computeFirstKnowings_lists py isAlnum rows h radius now
  constructor
  · rintro ⟨_, hok, hlisting⟩
    obtain rfl := Except.ok.inj (hresult.symm.trans hok)
    have hsame : ∀ key, (∃ r ∈ rows, detects py isAlnum r = some key) →
        ((¬∃ action ∈ actions rows, Touches py key action) ↔ Unconfirmed py rows key) := by
      intro key hdetected
      have hiff := (hlists.listed key).symm.trans (hlisting.listed key)
      simpa only [hdetected, true_and] using hiff
    constructor
    · intro key hsuggested
      by_contra huntouched
      exact ((hsame key hsuggested.detected).mp huntouched).2 hsuggested
    · intro key hdetected action ha htouches
      by_contra hnot
      rw [not_or] at hnot
      exact (hsame key hdetected).mpr ⟨fun a ha hcloses => hnot.1 ⟨a, ha, hcloses⟩, hnot.2⟩ ⟨action, ha, htouches⟩
  · intro hown
    exact ⟨result, hresult, hlists.congr fun key hdetected => unconfirmed_iff hown hdetected⟩

end

/-! ### One gap -/

/-- The args of a gap as the detector of unknown metrics writes them. -/
def npsGap : Dict :=
  [(.str "kind", .str "kpi"), (.str "referenced_in_seq", .int 1),
    (.str "suggested_proposal", .dict [(.str "label", .str "NPS"), (.str "formula", .str "PROPOSED")]),
    (.str "confidence", .float .zero), (.str "novelty_key", .str "kpi:nps")]

def npsReference : Reference := ("phenomenon_gap_detected", "phenomenon_gap:kpi:nps")

/-- A gap of which nothing is told later is listed. -/
theorem npsGap_listed : ∃ result, computeFirstKnowings .plain Char.isAlphanum
      (Projection.cycle 1 "emit_phenomenon_gap_detected" npsGap) [] none .all 3 ⟨0, by decide⟩ = .ok result ∧
    Listing .plain Char.isAlphanum (Projection.cycle 1 "emit_phenomenon_gap_detected" npsGap)
      (Unconfirmed .plain (Projection.cycle 1 "emit_phenomenon_gap_detected" npsGap)) result.rows := by
  have hactions : actions (Projection.cycle 1 "emit_phenomenon_gap_detected" npsGap) =
      [("emit_phenomenon_gap_detected", npsGap)] := rfl
  refine (lists_unconfirmed_iff ⟨by decide, ?_⟩ 3 _).mpr ⟨?_, ?_⟩
  · intro r hr
    refine ⟨?_, fun args htold => ?_⟩
    · simp only [Projection.cycle, List.mem_cons, List.not_mem_nil, or_false] at hr
      rcases hr with rfl | rfl | rfl | rfl <;> exact ⟨_, rfl⟩
    · have hmem := mem_actions.mpr ⟨r, hr, htold⟩
      rw [hactions, List.mem_singleton, Prod.mk.injEq] at hmem
      obtain ⟨-, rfl⟩ := hmem
      refine ⟨⟨_, rfl⟩, ⟨_, rfl⟩, ?_⟩
      intro hnone
      cases hnone
  · rintro key ⟨-, -, -, args, -, -, kpi, -, -, confirmation, hconfirmed, -⟩
    rw [hactions, List.mem_singleton, Prod.mk.injEq] at hconfirmed
    exact absurd hconfirmed.1 (by decide)
  · rintro key ⟨r, -, hdetects⟩ action ha htouches
    rw [hactions, List.mem_singleton] at ha
    subst ha
    rcases htouches with hnil | ⟨-, hnil⟩ <;> exact absurd hnil.symm (detects_ne hdetects)

/-- The KPI that the gap suggests is proposed and confirmed. -/
def confirmedNps : List LedgerRow :=
  Projection.cycle 1 "emit_phenomenon_gap_detected" npsGap ++
    Projection.cycle 5 "emit_kpi_proposed" [(.str "kpi_id", .str "k-nps"), (.str "label", .str "NPS")] ++
    Projection.cycle 9 "emit_kpi_confirmed" [(.str "kpi_id", .str "k-nps")]

/-- A gap whose suggested KPI has been confirmed is still listed. -/
theorem confirmedNps_listed : ¬∃ result, computeFirstKnowings .plain Char.isAlphanum confirmedNps [] none .all 3
      ⟨0, by decide⟩ = .ok result ∧
    Listing .plain Char.isAlphanum confirmedNps (Unconfirmed .plain confirmedNps) result.rows := by
  rintro ⟨result, hresult, hlisting⟩
  have hkeys : (computeFirstKnowings .plain Char.isAlphanum confirmedNps [] none .all 3 ⟨0, by decide⟩).toOption.map
      (fun result => result.rows.map FirstKnowingRow.key) = some [npsReference] := by decide +kernel
  rw [hresult] at hkeys
  have hkeys' : result.rows.map FirstKnowingRow.key = [npsReference] := Option.some.inj hkeys
  have hlisted : npsReference ∈ result.rows.map FirstKnowingRow.key := by
    rw [hkeys']
    exact List.mem_singleton.mpr rfl
  have hactions : actions confirmedNps = [("emit_phenomenon_gap_detected", npsGap),
      ("emit_kpi_proposed", [(.str "kpi_id", .str "k-nps"), (.str "label", .str "NPS")]),
      ("emit_kpi_confirmed", [(.str "kpi_id", .str "k-nps")])] := rfl
  refine ((hlisting.listed npsReference).mp hlisted).2.2 ⟨_, List.mem_cons_of_mem _ List.mem_cons_self, rfl, npsGap, rfl, rfl,
    "k-nps", by decide, .labelled [(.str "kpi_id", .str "k-nps"), (.str "label", .str "NPS")] ?_ rfl,
    [(.str "kpi_id", .str "k-nps")], ?_, rfl⟩
  · rw [hactions]
    exact List.mem_cons_of_mem _ List.mem_cons_self
  · rw [hactions]
    exact List.mem_cons_of_mem _ (List.mem_cons_of_mem _ List.mem_cons_self)

end WormCore
