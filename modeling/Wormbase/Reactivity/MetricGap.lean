import Wormbase.Gateway.Redaction
import Wormbase.Py.FloatArith
import Mathlib.Data.Finset.Basic
import Mathlib.Data.List.Sort

/-! `MentionsMetricNotInKpiTree`: chat that names a metric which the KPI tree lacks.

    The predicate looks at one metric of a message, the first that the iteration over the vocabulary gives. -/

namespace Reactivity.MetricGap
open Py Gateway Regex

/-! ### The code -/

/-- What `extract_topic` gives. -/
structure Topic where
  kind : String
  label : String
  confidence : PyFloat

/-- An execute row, as the probe of the ledger reads it. -/
structure Executed where
  tool : String
  args : Dict

/-- What is stashed for `fire`. -/
structure Found where
  label : String
  confidence : PyFloat
  deriving DecidableEq

def Found.noveltyKey (f : Found) : String := "kpi:" ++ f.label

def cueWords : List String :=
  ["track", "measure", "monitor", "report on", "kpi", "we should", "we need", "metric"]

/-- `_METRIC_VOCAB`. -/
def metricVocab : List String :=
  ["arr", "mrr", "nps", "csat", "churn", "retention", "ltv", "cac", "dau", "mau", "wau", "gmv", "tpv", "aov",
    "conversion", "conversion rate", "active users", "revenue", "net revenue", "gross revenue", "growth rate",
    "engagement", "uptime"]

/-- `DEFAULT_CONFIDENCE_THRESHOLD`. -/
def defaultConfidenceThreshold : PyFloat := .ofMag false (6 / 10)

section
variable (py : Interp) (chars : CharTable) (lower : String → String)

def normalize (text : String) : String := stripText (lower text)

/-- `\b{label}\b`. -/
def labelPattern (label : String) : Expr Char := Expr.between chars.isWord (label.toList.map literal)

/-- `re.search`, for an empty match too. -/
def searchFrom (r : Expr Char) : Option Char → List Char → Bool
  | before, [] => !(r.ends before []).isEmpty
  | before, c :: s => !(r.ends before (c :: s)).isEmpty || searchFrom r (some c) s

def mentions (label norm : String) : Bool := searchFrom (labelPattern chars label) none norm.toList

/-- The confidence of every metric in a message. -/
def cueConfidence (norm : String) : PyFloat :=
  if cueWords.any fun c => occursIn c norm then .ofMag false (9 / 10) else .ofMag false (6 / 10)

/-- `_extract_metric_candidates`, in the order in which the vocabulary is gone through. -/
def extractMetricCandidates (vocab : List String) (text : String) : List (String × PyFloat) :=
  (vocab.filter fun label => mentions chars label (normalize lower text)).map fun label =>
    (label, cueConfidence (normalize lower text))

/-- `_existing_kpi_labels`; the set is empty when the ledger cannot be read. -/
def existingKpiLabels : Option (List Executed) → List String
  | none => []
  | some rows => rows.filterMap fun r =>
    let label := Dict.get r.args "label"
    if (".emit_kpi_proposed".toList.isSuffixOf r.tool.toList || r.tool = "emit_kpi_proposed") && label.truthy then
      some (normalize lower (label.toStr py))
    else none

/-- The candidate of a topic that is a KPI; `x or 0.0` of the confidence. -/
def topicCandidates (t : Topic) : List (String × PyFloat) :=
  let label := stripText t.label
  if label = "" then [] else [(lower label, if t.confidence.truthy then t.confidence else .zero)]

/-- `candidates.sort(key=lambda x: -x[1])`, which is stable. -/
def byConfidence (candidates : List (String × PyFloat)) : List (String × PyFloat) :=
  candidates.insertionSort fun a b => PyFloat.lt b.2.neg a.2.neg = false

/-- The candidates of a message: those of the vocabulary, unless the extractor names a KPI. -/
def candidatesOf (vocab : List String) (topic : Option Topic) (text : String) : List (String × PyFloat) :=
  match topic with
  | some t => if lower t.kind = "kpi" then topicCandidates lower t else extractMetricCandidates chars lower vocab text
  | none => extractMetricCandidates chars lower vocab text

/-- The first candidate decides, and the others are not looked at. -/
def pick (threshold : PyFloat) (existing : List String) : List (String × PyFloat) → Option Found
  | [] => none
  | (label, confidence) :: _ =>
    if PyFloat.lt confidence threshold then none
    else if label ∈ existing then none
    else some ⟨label, confidence⟩

/-- `MentionsMetricNotInKpiTree.match` of a message with this text, and what it stashes when it matches. -/
def matchText (vocab : List String) (threshold : PyFloat) (topic : Option Topic) (rows : Option (List Executed))
    (text : String) : Option Found :=
  if text = "" then none
  else pick threshold (existingKpiLabels py lower rows) (byConfidence (candidatesOf chars lower vocab topic text))

/-! ### What it is for -/

/-- A metric that the message names, with the confidence not below the threshold. -/
structure Mentioned (threshold : PyFloat) (text label : String) : Prop where
  message : text ≠ ""
  mention : mentions chars label (normalize lower text) = true
  confident : PyFloat.lt (cueConfidence (normalize lower text)) threshold = false

/-- Some metric of the vocabulary is mentioned and not in the KPI tree. -/
def HasGap (vocab : Finset String) (threshold : PyFloat) (rows : Option (List Executed)) (text : String) : Prop :=
  ∃ label ∈ vocab, Mentioned chars lower threshold text label ∧ label ∉ existingKpiLabels py lower rows

/-- The orders in which a set may be gone through. -/
structure Iterates (order : List String) (vocab : Finset String) : Prop where
  nodup : order.Nodup
  mem : ∀ label, label ∈ order ↔ label ∈ vocab

/-- The predicate matches exactly the messages with a gap, whatever the order of the vocabulary. -/
def MatchesGaps (vocab : Finset String) (threshold : PyFloat) (topic : Option Topic) (rows : Option (List Executed))
    (text : String) : Prop :=
  ∀ order, Iterates order vocab →
    ((matchText py chars lower order threshold topic rows text).isSome = true ↔
      HasGap py chars lower vocab threshold rows text)

/-- The label of the extractor is a gap. -/
def TopicGap (threshold : PyFloat) (rows : Option (List Executed)) (text : String) (t : Topic) : Prop :=
  text ≠ "" ∧ ∃ c, topicCandidates lower t = [c] ∧ PyFloat.lt c.2 threshold = false ∧
    c.1 ∉ existingKpiLabels py lower rows

/-- A metric of the tree and one that is not in it stand in one message. -/
def Mixed (vocab : Finset String) (threshold : PyFloat) (rows : Option (List Executed)) (text : String) : Prop :=
  HasGap py chars lower vocab threshold rows text ∧
    ∃ label ∈ vocab, Mentioned chars lower threshold text label ∧ label ∈ existingKpiLabels py lower rows

end

/-! ### The one candidate -/

section
variable {py : Interp} {chars : CharTable} {lower : String → String} {vocab : Finset String} {order : List String}
  {threshold : PyFloat} {topic : Option Topic} {rows : Option (List Executed)} {text : String} {t : Topic}

theorem lt_self (x : PyFloat) : PyFloat.lt x x = false := by
  cases x with
  | finite n q => exact decide_eq_false (lt_irrefl _)
  | inf n => cases n <;> rfl
  | nan => rfl

/-- Candidates of one confidence stay in their order. -/
theorem byConfidence_same {cs : List (String × PyFloat)} {x : PyFloat} (h : ∀ c ∈ cs, c.2 = x) : byConfidence cs = cs := by
  refine List.Pairwise.insertionSort_eq (List.pairwise_of_forall_mem_list ?_)
  intro a ha b hb
  rw [h a ha, h b hb]
  exact lt_self _

/-- The extractor names no KPI. -/
def FromVocab (lower : String → String) (topic : Option Topic) : Prop := ∀ t, topic = some t → lower t.kind ≠ "kpi"

theorem candidatesOf_vocab (h : FromVocab lower topic) :
    candidatesOf chars lower order topic text = extractMetricCandidates chars lower order text := by
  cases topic with
  | none => rfl
  | some t => exact if_neg (h t rfl)

theorem pick_isSome {existing : List String} {cs : List (String × PyFloat)} :
    (pick threshold existing cs).isSome = true ↔
      ∃ c rest, cs = c :: rest ∧ PyFloat.lt c.2 threshold = false ∧ c.1 ∉ existing := by
  cases cs with
  | nil => simp [pick]
  | cons c rest =>
    obtain ⟨label, confidence⟩ := c
    rw [pick]
    constructor
    · intro h
      split at h
      · cases h
      · rename_i hlt
        split at h
        · cases h
        · rename_i hin
          exact ⟨_, rest, rfl, by simpa using hlt, hin⟩
    · rintro ⟨c, rest, hsplit, hlt, hin⟩
      obtain ⟨rfl, -⟩ := List.cons.inj hsplit
      rw [if_neg (by rw [hlt]; decide), if_neg hin]
      rfl

theorem confidence_of_mem {labels : List String} {x : PyFloat} {c : String × PyFloat}
    (hc : c ∈ labels.map fun label => (label, x)) : c.2 = x := by
  obtain ⟨label, -, rfl⟩ := List.mem_map.mp hc
  rfl

/-- On the vocabulary the first metric that is mentioned decides. -/
theorem matchText_vocab (h : FromVocab lower topic) (htext : text ≠ "") :
    (matchText py chars lower order threshold topic rows text).isSome = true ↔
      ∃ label rest, (order.filter fun label => mentions chars label (normalize lower text)) = label :: rest ∧
        PyFloat.lt (cueConfidence (normalize lower text)) threshold = false ∧
          label ∉ existingKpiLabels py lower rows := by
  have hsame : ∀ c ∈ extractMetricCandidates chars lower order text, c.2 = cueConfidence (normalize lower text) :=
    fun _ hc => confidence_of_mem hc
  rw [matchText, if_neg htext, candidatesOf_vocab h, byConfidence_same hsame, pick_isSome, extractMetricCandidates]
  generalize cueConfidence (normalize lower text) = x
  constructor
  · rintro ⟨c, rest, hsplit, hlt, hin⟩
    obtain ⟨label, tail, hfilter, rfl, -⟩ := List.map_eq_cons_iff.mp hsplit
    exact ⟨label, tail, hfilter, hlt, hin⟩
  · rintro ⟨label, rest, hfilter, hlt, hin⟩
    exact ⟨_, _, List.map_eq_cons_iff.mpr ⟨label, rest, hfilter, rfl, rfl⟩, hlt, hin⟩

/-- On a KPI of the extractor its label decides. -/
theorem matchText_topic (h : lower t.kind = "kpi") :
    (matchText py chars lower order threshold (some t) rows text).isSome = true ↔
      TopicGap py lower threshold rows text t := by
  have hcandidates : candidatesOf chars lower order (some t) text = topicCandidates lower t := if_pos h
  have hsorted : byConfidence (topicCandidates lower t) = topicCandidates lower t := by
    rw [topicCandidates]
    split
    · rfl
    · rfl
  rw [matchText]
  split
  · rename_i htext
    exact iff_of_false (by simp) fun hgap => hgap.1 htext
  · rename_i htext
    rw [hcandidates, hsorted, pick_isSome]
    constructor
    · rintro ⟨c, rest, hsplit, hlt, hin⟩
      have hnil : rest = [] := by
        rw [topicCandidates] at hsplit
        split at hsplit
        · cases hsplit
        · exact (List.cons.inj hsplit).2.symm
      exact ⟨htext, c, hnil ▸ hsplit, hlt, hin⟩
    · rintro ⟨-, c, hsplit, hlt, hin⟩
      exact ⟨c, [], hsplit, hlt, hin⟩

/-! ### When it does what it is for -/

/-- Any metric of the vocabulary may come first. -/
theorem iterates_first {label : String} (h : label ∈ vocab) : Iterates (label :: (vocab.erase label).toList) vocab := by
  refine ⟨List.nodup_cons.mpr ⟨by simp, Finset.nodup_toList _⟩, ?_⟩
  intro m
  rw [List.mem_cons, Finset.mem_toList, Finset.mem_erase]
  constructor
  · rintro (rfl | ⟨-, hm⟩)
    · exact h
    · exact hm
  · intro hm
    by_cases heq : m = label
    · exact .inl heq
    · exact .inr ⟨heq, hm⟩

theorem iterates_toList : Iterates vocab.toList vocab := ⟨vocab.nodup_toList, fun _ => Finset.mem_toList⟩

/-- A metric of the tree that comes first hides the gap behind it. -/
theorem hidden (h : FromVocab lower topic) (hmixed : Mixed py chars lower vocab threshold rows text) :
    ¬MatchesGaps py chars lower vocab threshold topic rows text := by
  intro hlaw
  obtain ⟨hgap, label, hlabel, hmention, hcovered⟩ := hmixed
  obtain ⟨first, rest, hfilter, -, hin⟩ :=
    (matchText_vocab h hmention.message).mp ((hlaw _ (iterates_first hlabel)).mpr hgap)
  rw [List.filter_cons_of_pos (p := fun label => mentions chars label (normalize lower text)) hmention.mention] at hfilter
  obtain ⟨rfl, -⟩ := List.cons.inj hfilter
  exact hin hcovered

/-- With no metric of the tree beside it, any gap is found. -/
theorem found (h : FromVocab lower topic) (hmixed : ¬Mixed py chars lower vocab threshold rows text) :
    MatchesGaps py chars lower vocab threshold topic rows text := by
  intro order horder
  by_cases htext : text = ""
  · refine iff_of_false ?_ ?_
    · rw [matchText, if_pos htext]
      simp
    · rintro ⟨label, -, hmention, -⟩
      exact hmention.message htext
  · rw [matchText_vocab h htext]
    constructor
    · rintro ⟨label, rest, hfilter, hlt, hin⟩
      have hmem : label ∈ order.filter fun label => mentions chars label (normalize lower text) :=
        hfilter ▸ List.mem_cons_self
      obtain ⟨horder', hmention⟩ := List.mem_filter.mp hmem
      exact ⟨label, (horder.mem label).mp horder', ⟨htext, hmention, hlt⟩, hin⟩
    · rintro ⟨label, hlabel, hmention, hnot⟩
      have hmem : label ∈ order.filter fun label => mentions chars label (normalize lower text) :=
        List.mem_filter.mpr ⟨(horder.mem label).mpr hlabel, hmention.mention⟩
      cases hfilter : order.filter fun label => mentions chars label (normalize lower text) with
      | nil =>
        rw [hfilter] at hmem
        cases hmem
      | cons first rest =>
        have hfirst : first ∈ order.filter fun label => mentions chars label (normalize lower text) :=
          hfilter ▸ List.mem_cons_self
        obtain ⟨hfirst, hmention'⟩ := List.mem_filter.mp hfirst
        refine ⟨first, rest, rfl, hmention.confident, fun hcovered => hmixed ⟨⟨label, hlabel, hmention, hnot⟩, ?_⟩⟩
        exact ⟨first, (horder.mem first).mp hfirst, ⟨htext, hmention', hmention.confident⟩, hcovered⟩

/-- The condition: no metric of the tree stands beside one that is not in it; where the extractor names a KPI, that one
    is a gap exactly when the vocabulary has one. -/
def Undisturbed (py : Interp) (chars : CharTable) (lower : String → String) (vocab : Finset String)
    (threshold : PyFloat) (topic : Option Topic) (rows : Option (List Executed)) (text : String) : Prop :=
  (FromVocab lower topic → ¬Mixed py chars lower vocab threshold rows text) ∧
    ∀ t, topic = some t → lower t.kind = "kpi" →
      (TopicGap py lower threshold rows text t ↔ HasGap py chars lower vocab threshold rows text)

theorem matchesGaps_iff (py : Interp) (chars : CharTable) (lower : String → String) (vocab : Finset String)
    (threshold : PyFloat) (topic : Option Topic) (rows : Option (List Executed)) (text : String) :
    MatchesGaps py chars lower vocab threshold topic rows text ↔
      Undisturbed py chars lower vocab threshold topic rows text := by
  by_cases h : FromVocab lower topic
  · constructor
    · intro hlaw
      exact ⟨fun _ hmixed => hidden h hmixed hlaw, fun t ht hkpi => absurd hkpi (h t ht)⟩
    · rintro ⟨hmixed, -⟩
      exact found h (hmixed h)
  · obtain ⟨t, rfl, hkpi⟩ : ∃ t, topic = some t ∧ lower t.kind = "kpi" := by
      simpa [FromVocab] using h
    constructor
    · intro hlaw
      refine ⟨fun hvocab => absurd hvocab h, fun t' ht' _ => ?_⟩
      obtain rfl := Option.some.inj ht'
      exact (matchText_topic hkpi).symm.trans (hlaw _ iterates_toList)
    · rintro ⟨-, htopic⟩ order -
      exact (matchText_topic hkpi).trans (htopic t rfl hkpi)

end

/-- A tree with one KPI, and a message that names it beside another one. -/
def arrTree : Option (List Executed) := some [⟨"emit_kpi_proposed", [(.str "label", .str "arr")]⟩]

def arrAndNps : String := "arr is fine but nps is not"

theorem nps_hidden : ¬MatchesGaps .plain .ascii id metricVocab.toFinset defaultConfidenceThreshold none arrTree arrAndNps := by
  have hconfident : PyFloat.lt (cueConfidence (normalize id arrAndNps)) defaultConfidenceThreshold = false := by
    decide +kernel
  have harr : Mentioned .ascii id defaultConfidenceThreshold arrAndNps "arr" :=
    ⟨by decide, by decide +kernel, hconfident⟩
  have hnps : Mentioned .ascii id defaultConfidenceThreshold arrAndNps "nps" :=
    ⟨by decide, by decide +kernel, hconfident⟩
  refine hidden (fun _ ht => nomatch ht) ⟨⟨"nps", ?_, hnps, by decide +kernel⟩, "arr", ?_, harr, by decide +kernel⟩
  · decide +kernel
  · decide +kernel

end Reactivity.MetricGap
