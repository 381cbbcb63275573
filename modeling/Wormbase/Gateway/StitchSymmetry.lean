import Wormbase.Gateway.EntityStitch
import Wormbase.Lib.Join
import Mathlib.Data.Multiset.Basic
import Mathlib.Data.Sym.Sym2

/-! The strategies do not care which of two columns comes first, and the id of a stitch names the pair as
    far as the joined identifiers do. -/

namespace EntityStitch
open Py SchemaImpacts

/-! ### What is claimed -/

/-- What two orders of a pair have to agree on. -/
def ProposedEntityStitch.told (p : ProposedEntityStitch) : String × PyFloat × EntityKind :=
  (p.stitchId, p.confidence, p.entityKind)

/-- The proposals, when no reader raises and no division fails. -/
def proposals (out : Except Err (List ProposedEntityStitch)) : Option (Multiset (String × PyFloat × EntityKind)) :=
  out.toOption.map fun ps => (ps.map ProposedEntityStitch.told : List _)

/-- The identifiers of a pair, cut at every `|`. -/
def pieces (a b : Column) : List (List Char) := (stitchParts a b).flatMap fun s => s.toList.splitOn '|'

section
variable (py : Interp) (lower : String → String) {α : Type} [DecidableEq α]

/-- The strategies of a bank; a column pair is seen by each. -/
structure Bank (α : Type) where
  nameMatch : NameMatchEntityStrategy
  sampleOverlap : SampleOverlapEntityStrategy α
  schemaShape : SchemaShapeEntityStrategy

/-- The strategies agree on two columns in both orders, and the ids of two pairs agree exactly if the
    pairs do. -/
structure StitchSound (bank : Bank α) (companyId : UUID) (a b c d : Column) : Prop where
  nameMatch : proposals (bank.nameMatch.propose py lower companyId a b) =
    proposals (bank.nameMatch.propose py lower companyId b a)
  sampleOverlap : proposals (bank.sampleOverlap.propose py a b) = proposals (bank.sampleOverlap.propose py b a)
  schemaShape : proposals (bank.schemaShape.propose py a b) = proposals (bank.schemaShape.propose py b a)
  named : makeStitchId py a b = makeStitchId py c d ↔ s(a, b) = s(c, d)

end

/-! ### The id -/

theorem parts_injective {a b : Column} (h : a.parts = b.parts) : a = b := by
  obtain ⟨sourceId, tableId, column⟩ := a
  obtain ⟨sourceId', tableId', column'⟩ := b
  simp only [Column.parts, List.cons.injEq, and_true] at h
  obtain ⟨rfl, rfl, rfl⟩ := h
  rfl

theorem canonical_comm (a b : Column) : canonical a b = canonical b a := by
  rw [canonical, canonical]
  rcases lt_trichotomy a.parts b.parts with hlt | heq | hgt
  · rw [if_neg (lt_asymm hlt), if_pos hlt]
  · rw [parts_injective heq]
  · rw [if_pos hgt, if_neg (lt_asymm hgt)]

theorem canonical_cases (a b : Column) : canonical a b = [a, b] ∨ canonical a b = [b, a] := by
  rw [canonical]
  split
  · exact .inr rfl
  · exact .inl rfl

theorem canonical_eq_iff {a b c d : Column} : canonical a b = canonical c d ↔ s(a, b) = s(c, d) := by
  rw [Sym2.eq_iff]
  constructor
  · intro h
    rcases canonical_cases a b with hab | hab <;> rcases canonical_cases c d with hcd | hcd <;>
      rw [hab, hcd] at h <;> simp only [List.cons.injEq, and_true] at h
    · exact .inl h
    · exact .inr h
    · exact .inr ⟨h.2, h.1⟩
    · exact .inl ⟨h.2, h.1⟩
  · rintro (⟨rfl, rfl⟩ | ⟨rfl, rfl⟩)
    · rfl
    · exact canonical_comm a b

theorem stitchParts_eq_iff {a b c d : Column} : stitchParts a b = stitchParts c d ↔ s(a, b) = s(c, d) := by
  rw [← canonical_eq_iff]
  constructor
  · intro h
    rw [stitchParts, stitchParts] at h
    obtain ⟨x, y, hxy⟩ : ∃ x y, canonical a b = [x, y] := by
      rcases canonical_cases a b with hab | hab
      · exact ⟨a, b, hab⟩
      · exact ⟨b, a, hab⟩
    obtain ⟨z, w, hzw⟩ : ∃ z w, canonical c d = [z, w] := by
      rcases canonical_cases c d with hcd | hcd
      · exact ⟨c, d, hcd⟩
      · exact ⟨d, c, hcd⟩
    rw [hxy, hzw] at h ⊢
    simp only [List.flatMap_cons, List.flatMap_nil, List.append_nil] at h
    obtain ⟨hfirst, hsecond⟩ := List.append_inj h rfl
    rw [parts_injective hfirst, parts_injective hsecond]
  · intro h
    rw [stitchParts, stitchParts, h]

theorem stitchParts_ne_nil (a b : Column) : stitchParts a b ≠ [] := by
  rw [stitchParts]
  rcases canonical_cases a b with hab | hab
  · rw [hab]
    exact List.cons_ne_nil _ _
  · rw [hab]
    exact List.cons_ne_nil _ _

/-- The joined texts agree exactly if the pieces do. -/
theorem stitchText_eq_iff {a b c d : Column} : stitchText a b = stitchText c d ↔ pieces a b = pieces c d := by
  have hne : ∀ a b : Column, (stitchParts a b).map String.toList ≠ [] := fun a b =>
    List.map_eq_nil_iff.not.mpr (stitchParts_ne_nil a b)
  have hjoin := @Join.join_eq_iff _ '|' _ _ _ (hne a b) (hne c d)
  rw [List.flatMap_map, List.flatMap_map] at hjoin
  rw [stitchText, stitchText, ← String.toList_inj, String.toList_intercalate, String.toList_intercalate]
  exact hjoin

theorem makeStitchId_comm (py : Interp) (a b : Column) : makeStitchId py a b = makeStitchId py b a := by
  rw [makeStitchId, makeStitchId, stitchText, stitchText, stitchParts, stitchParts, canonical_comm]

/-! ### Distances and overlaps -/

theorem levenshtein_comm (a b : String) : levenshtein a b = levenshtein b a := by
  rw [levenshtein, levenshtein]
  by_cases hsame : a = b
  · rw [if_pos hsame, if_pos hsame.symm]
  · rw [if_neg hsame, if_neg (Ne.symm hsame)]
    by_cases ha : a = ""
    · have hb : b ≠ "" := fun hb => hsame (ha.trans hb.symm)
      rw [if_pos ha, if_neg hb, if_pos ha]
    · by_cases hb : b = ""
      · rw [if_neg ha, if_pos hb, if_pos hb]
      · rw [if_neg ha, if_neg hb, if_neg hb, if_neg ha, EditTable.distance_comm]

theorem similarity_comm (lower : String → String) (a b : String) : similarity lower a b = similarity lower b a := by
  rw [similarity, similarity]
  simp only [and_comm, max_comm, levenshtein_comm (normalizeName lower b)]

theorem jaccard_comm {α : Type} [DecidableEq α] (a b : Finset α) : jaccard a b = jaccard b a := by
  rw [jaccard, jaccard, Finset.inter_comm, Finset.union_comm]
  simp only [or_comm]

/-! ### Shared types -/

theorem noteType_types (best : List ConfirmedSemanticTypeRecord) (r : ConfirmedSemanticTypeRecord) :
    (noteType best r).map (·.semanticType) =
      if r.semanticType ∈ best.map (·.semanticType) then best.map (·.semanticType)
      else best.map (·.semanticType) ++ [r.semanticType] := by
  rw [noteType]
  cases hfind : best.find? fun e => e.semanticType = r.semanticType with
  | none =>
    have hnew : r.semanticType ∉ best.map (·.semanticType) := by
      intro hmem
      obtain ⟨e, he, hsame⟩ := List.mem_map.mp hmem
      exact List.find?_eq_none.mp hfind e he (decide_eq_true hsame)
    rw [if_neg hnew]
    exact List.map_append
  | some existing =>
    have hsame : existing.semanticType = r.semanticType := by simpa using List.find?_some hfind
    have hold : r.semanticType ∈ best.map (·.semanticType) :=
      List.mem_map.mpr ⟨existing, List.mem_of_find?_eq_some hfind, hsame⟩
    rw [if_pos hold]
    simp only
    split
    · rw [List.map_map]
      refine List.map_congr_left fun e _ => ?_
      simp only [Function.comp_apply]
      split
      · rename_i hsame
        exact hsame.symm
      · rfl
    · rfl

/-- The dict holds every type of the records once. -/
theorem foldl_noteType : ∀ (types best : List ConfirmedSemanticTypeRecord), (best.map (·.semanticType)).Nodup →
    ((types.foldl noteType best).map (·.semanticType)).Nodup ∧
      ∀ t, t ∈ (types.foldl noteType best).map (·.semanticType) ↔
        t ∈ best.map (·.semanticType) ∨ t ∈ types.map (·.semanticType)
  | [], best, hbest => ⟨hbest, fun t => by rw [List.map_nil, List.foldl_nil]; simp⟩
  | r :: types, best, hbest => by
    have hnext : ((noteType best r).map (·.semanticType)).Nodup ∧ ∀ t,
        t ∈ (noteType best r).map (·.semanticType) ↔ t ∈ best.map (·.semanticType) ∨ t = r.semanticType := by
      rw [noteType_types]
      split
      · rename_i hold
        refine ⟨hbest, fun t => ⟨.inl, ?_⟩⟩
        rintro (h | rfl)
        · exact h
        · exact hold
      · rename_i hnew
        refine ⟨?_, fun t => by rw [List.mem_append, List.mem_singleton]⟩
        rw [← List.concat_eq_append]
        exact hbest.concat hnew
    obtain ⟨hnodup, hmem⟩ := foldl_noteType types (noteType best r) hnext.1
    refine ⟨hnodup, fun t => ?_⟩
    rw [List.foldl_cons, hmem, hnext.2, List.map_cons, List.mem_cons, or_assoc]

/-- The shared types are the same from both ends. -/
theorem sharedSemanticTypes_perm (typesA typesB : List ConfirmedSemanticTypeRecord) :
    ((sharedSemanticTypes typesA typesB).map (·.semanticType)).Perm
      ((sharedSemanticTypes typesB typesA).map (·.semanticType)) := by
  have hshared : ∀ A B : List ConfirmedSemanticTypeRecord,
      ((sharedSemanticTypes A B).map (·.semanticType)).Nodup ∧
        ∀ t, t ∈ (sharedSemanticTypes A B).map (·.semanticType) ↔
          t ∈ A.map (·.semanticType) ∧ t ∈ B.map (·.semanticType) := by
    intro A B
    obtain ⟨hnodup, hmem⟩ := foldl_noteType A [] List.nodup_nil
    have hfilter : (sharedSemanticTypes A B).map (·.semanticType) =
        ((A.foldl noteType []).map (·.semanticType)).filter fun t => t ∈ B.map (·.semanticType) := by
      rw [sharedSemanticTypes, List.filter_map]
      rfl
    rw [hfilter]
    refine ⟨hnodup.filter _, fun t => ?_⟩
    rw [List.mem_filter, hmem, List.map_nil, decide_eq_true_iff]
    simp only [List.not_mem_nil, false_or]
  obtain ⟨hnodup, hmem⟩ := hshared typesA typesB
  obtain ⟨hnodup', hmem'⟩ := hshared typesB typesA
  refine (List.perm_ext_iff_of_nodup hnodup hnodup').mpr fun t => ?_
  rw [hmem, hmem', and_comm]

/-! ### The strategies -/

section
variable {py : Interp} {lower : String → String} {a b : Column}

theorem told_comm {f g : Finding} (hconfidence : f.confidence = g.confidence) (hkind : f.entityKind = g.entityKind) :
    (propose py a b f).told = (propose py b a g).told := by
  simp only [ProposedEntityStitch.told, propose, makeStitchId_comm py a b, hconfidence, hkind]

/-- A scored pair in both orders, when the findings differ only in their texts. -/
theorem proposals_scored_comm (score : Except Err PyFloat) {f g : PyFloat → Finding}
    (hconfidence : ∀ x, (f x).confidence = (g x).confidence) (hkind : ∀ x, (f x).entityKind = (g x).entityKind) :
    proposals (do return [propose py a b (f (← score))]) = proposals (do return [propose py b a (g (← score))]) := by
  cases score with
  | error e => simp only [proposals, bind, Except.bind]
  | ok x =>
    have htold := @told_comm py a b (f x) (g x) (hconfidence x) (hkind x)
    simp only [proposals, bind, Except.bind, pure, Except.pure, Except.toOption, Option.map_some, List.map_singleton,
      htold]

/-- The two lists of a strategy that looks twice. -/
theorem proposals_append (first second : Except Err (List ProposedEntityStitch)) :
    proposals (do return (← first) ++ (← second)) =
      (proposals first).bind fun m => (proposals second).map (m + ·) := by
  cases first with
  | error e => rfl
  | ok ps =>
    cases second with
    | error e => rfl
    | ok qs =>
      simp only [proposals, Except.toOption, Option.map_some, Option.bind_some, Multiset.coe_add, ← List.map_append]
      rfl

theorem fuzzy_comm (a b : Column) : proposals (fuzzy py lower a b) = proposals (fuzzy py lower b a) := by
  rw [fuzzy, fuzzy, similarity_comm lower b.column a.column]
  generalize similarity lower a.column b.column = similarity
  by_cases hnear : PyFloat.le fuzzyThreshold similarity = true
  · rw [if_pos hnear, if_pos hnear]
    exact proposals_scored_comm _ (f := fuzzyFinding py a b similarity) (g := fuzzyFinding py b a similarity)
      (fun _ => rfl) (fun _ => rfl)
  · rw [if_neg hnear, if_neg hnear]

theorem anchored_comm (s : NameMatchEntityStrategy) (companyId : UUID) (a b : Column) :
    proposals (s.anchored py companyId a b) = proposals (s.anchored py companyId b a) := by
  obtain ⟨reader, useAnchor⟩ := s
  cases useAnchor with
  | false => cases reader <;> rfl
  | true =>
    cases reader with
    | none => rfl
    | some list =>
      simp only [NameMatchEntityStrategy.anchored]
      cases list a.tableId a.column companyId with
      | error e => cases list b.tableId b.column companyId <;> rfl
      | ok typesA =>
        cases list b.tableId b.column companyId with
        | error e => rfl
        | ok typesB =>
          -- a proposal tells of its anchor no more than the type
          have htold : ∀ (a b : Column) (A B shared : List ConfirmedSemanticTypeRecord),
              (shared.map fun anchor => propose py a b (anchorFinding py A B anchor)).map ProposedEntityStitch.told =
                (shared.map (·.semanticType)).map fun t => (makeStitchId py a b,
                  round4 (PyFloat.max .zero (PyFloat.min .one semanticTypeConfidence)),
                  entityKindForSemanticType t) := by
            intro a b A B shared
            rw [List.map_map, List.map_map]
            rfl
          have hperm := sharedSemanticTypes_perm typesA typesB
          simp only [proposals, bind, Except.bind, pure, Except.pure, Except.toOption, Option.map_some, htold,
            makeStitchId_comm py b a]
          exact congrArg some (Multiset.coe_eq_coe.mpr (hperm.map _))

theorem nameMatch_comm (s : NameMatchEntityStrategy) (companyId : UUID) (a b : Column) :
    proposals (s.propose py lower companyId a b) = proposals (s.propose py lower companyId b a) := by
  rw [NameMatchEntityStrategy.propose, NameMatchEntityStrategy.propose]
  by_cases hempty : a.column = "" ∨ b.column = ""
  · rw [if_pos hempty, if_pos hempty.symm]
  · have hempty' : ¬(b.column = "" ∨ a.column = "") := fun h => hempty h.symm
    rw [if_neg hempty, if_neg hempty']
    by_cases hsame : a = b
    · rw [if_pos hsame, if_pos hsame.symm]
    · rw [if_neg hsame, if_neg (Ne.symm hsame)]
      have hboth := proposals_append (s.anchored py companyId a b) (fuzzy py lower a b)
      rw [anchored_comm, fuzzy_comm, ← proposals_append] at hboth
      exact hboth

theorem sampleOverlap_comm {α : Type} [DecidableEq α] (s : SampleOverlapEntityStrategy α) (a b : Column) :
    proposals (s.propose py a b) = proposals (s.propose py b a) := by
  rw [SampleOverlapEntityStrategy.propose, SampleOverlapEntityStrategy.propose]
  cases s.sampler a.tableId a.column s.sampleSize with
  | error e => cases s.sampler b.tableId b.column s.sampleSize <;> rfl
  | ok sampleA =>
    cases s.sampler b.tableId b.column s.sampleSize with
    | error e => rfl
    | ok sampleB =>
      simp only [bind, Except.bind, jaccard_comm sampleB sampleA, or_comm]
      split
      · rfl
      · split
        · rfl
        · exact proposals_scored_comm _ (f := overlapFinding s.jaccardThreshold sampleA.card sampleB.card _)
            (g := overlapFinding s.jaccardThreshold sampleB.card sampleA.card _) (fun _ => rfl) (fun _ => rfl)

theorem schemaShape_comm (s : SchemaShapeEntityStrategy) (a b : Column) :
    proposals (s.propose py a b) = proposals (s.propose py b a) := by
  rw [SchemaShapeEntityStrategy.propose, SchemaShapeEntityStrategy.propose]
  cases s.parentTableColumnsLookup with
  | none => rfl
  | some lookup =>
    simp only
    cases lookup a.sourceId a.tableId with
    | error e => cases lookup b.sourceId b.tableId <;> rfl
    | ok colsA =>
      cases lookup b.sourceId b.tableId with
      | error e => rfl
      | ok colsB =>
        simp only [bind, Except.bind, jaccard_comm colsB.toFinset, or_comm,
          abs_sub_comm (colsB.length : ℤ) colsA.length, ne_comm]
        split
        · rfl
        · split
          · rfl
          · split
            · rfl
            · generalize interpolate (hundredths 50) (hundredths 75) s.nameOverlapThreshold
                (jaccard colsA.toFinset colsB.toFinset) = score
              cases score with
              | error e => simp only [proposals]
              | ok confidence =>
                simp only
                split
                · rfl
                · exact proposals_scored_comm (.ok confidence)
                    (f := shapeFinding py s.columnCountDeltaMax s.nameOverlapThreshold a colsA colsB _)
                    (g := shapeFinding py s.columnCountDeltaMax s.nameOverlapThreshold b colsB colsA _)
                    (fun _ => rfl) (fun _ => rfl)

end

/-- Identifiers without the separator name their pair whatever the other identifiers are. -/
theorem plain_pair_named {a b c d : Column} (hplain : ∀ part ∈ stitchParts a b, '|' ∉ part.toList)
    (h : pieces a b = pieces c d) : s(a, b) = s(c, d) := by
  have hlength : ∀ a b : Column, (stitchParts a b).length = 6 := by
    intro a b
    rw [stitchParts]
    rcases canonical_cases a b with hab | hab
    · rw [hab]
      rfl
    · rw [hab]
      rfl
  have hjoin := congrArg String.toList (stitchText_eq_iff.mpr h)
  rw [stitchText, stitchText, String.toList_intercalate, String.toList_intercalate] at hjoin
  have hsame : (stitchParts c d).map String.toList = (stitchParts a b).map String.toList := by
    refine Join.eq_of_join_eq ?_ ?_ hjoin.symm
    · rw [List.length_map, List.length_map, hlength, hlength]
    · intro chars hchars
      obtain ⟨part, hpart, rfl⟩ := List.mem_map.mp hchars
      exact hplain part hpart
  have hparts := List.map_injective_iff.mpr (fun _ _ => String.toList_inj.mp) hsame
  exact stitchParts_eq_iff.mp hparts.symm

/-- As far as the truncated digest tells the texts apart that it is given: every strategy treats a pair the
    same in both orders, and the ids of two pairs agree exactly if the pairs do, exactly unless two different
    pairs have the same pieces. -/
theorem stitch_sound_iff (py : Interp) (lower : String → String) {α : Type} [DecidableEq α] (bank : Bank α)
    (companyId : UUID) (given : Set String) (hinj : Set.InjOn (stitchDigest py) given) (a b c d : Column)
    (hab : stitchText a b ∈ given) (hcd : stitchText c d ∈ given) :
    StitchSound py lower bank companyId a b c d ↔ (pieces a b = pieces c d → s(a, b) = s(c, d)) := by
  have hid : makeStitchId py a b = makeStitchId py c d ↔ pieces a b = pieces c d := by
    rw [← stitchText_eq_iff]
    constructor
    · exact fun h => hinj hab hcd h
    · exact fun h => congrArg (stitchDigest py) h
  constructor
  · intro h hpieces
    exact h.named.mp (hid.mpr hpieces)
  · intro h
    refine ⟨nameMatch_comm _ _ a b, sampleOverlap_comm _ a b, schemaShape_comm _ a b, ?_⟩
    rw [hid]
    refine ⟨h, fun hpair => ?_⟩
    rw [← stitchText_eq_iff, stitchText, stitchText, stitchParts_eq_iff.mpr hpair]

/-! ### Identifiers with a separator -/

/-- No reader is wired but an empty sampler. -/
def bareBank : Bank String where
  nameMatch := { confirmedSemanticTypeReader := none }
  sampleOverlap := { sampler := fun _ _ _ => .ok ∅ }
  schemaShape := { parentTableColumnsLookup := none }

def lowerAscii (s : String) : String := String.ofList (s.toList.map Char.toLower)

def crmMail : Column := ⟨"crm", "users", "email"⟩
def erpMail : Column := ⟨"erp", "accounts", "e_mail"⟩

theorem crmMail_sound : StitchSound .plain lowerAscii bareBank ⟨1⟩ crmMail erpMail erpMail crmMail :=
  (stitch_sound_iff .plain lowerAscii bareBank ⟨1⟩ {stitchText crmMail erpMail} (Set.injOn_singleton _ _) crmMail erpMail
    erpMail crmMail rfl (stitchText_eq_iff.mpr (by decide +kernel))).mpr fun _ => Sym2.eq_swap

/-- The source of the one is cut where the table of the other is. -/
def euSource : Column := ⟨"crm|eu", "users", "email"⟩
def euTable : Column := ⟨"crm", "eu|users", "email"⟩

/-- Two different pairs have one id. -/
theorem euSource_confused : Set.InjOn (stitchDigest .plain) {stitchText euSource erpMail} ∧
    stitchText euTable erpMail ∈ ({stitchText euSource erpMail} : Set String) ∧
    ¬StitchSound .plain lowerAscii bareBank ⟨1⟩ euSource erpMail euTable erpMail := by
  have hpieces : pieces euSource erpMail = pieces euTable erpMail := by decide +kernel
  have htext := stitchText_eq_iff.mpr hpieces
  refine ⟨Set.injOn_singleton _ _, htext.symm, fun h => ?_⟩
  have hpair := h.named.mp (congrArg (stitchDigest .plain) htext)
  rw [Sym2.eq_iff] at hpair
  exact absurd hpair (by decide)

end EntityStitch
