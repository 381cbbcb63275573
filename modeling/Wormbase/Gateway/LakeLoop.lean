import Wormbase.Lib.FirstFit
import Wormbase.Py.Value
import Mathlib.Order.Lattice
import Mathlib.Algebra.Order.Ring.Rat

/-! `LakeLoopComposite`: the proposals of several strategies, merged where they are about the same thing.

    Confidences are of any linear order, as floats other than `nan` are. -/

namespace Gateway.LakeLoop
open Py FirstFit

/-- The fields that every axis has; `extra` are those of its own. -/
structure Proposal (C χ : Type) where
  extra : χ
  confidence : C
  strategy : String
  reasoning : String
  evidence : Dict

/-- The slots in their order, with what the strategy of each gives, if there is one. -/
abbrev Strategies (C χ : Type) := List (String × Option (List (Proposal C χ)))

structure Metrics where
  invocations : ℕ
  slotInvocations : List (String × ℕ)
  proposalsEmitted : ℕ
  noOpInvocations : ℕ
  belowMinConfidenceDropped : ℕ

section
variable {C χ ι : Type} [LinearOrder C] [DecidableEq ι] (identityKey : χ → ι)

/-! ### The code -/

def defaultMergeWinner (a b : Proposal C χ) : Proposal C χ := if b.confidence ≤ a.confidence then a else b

/-- `default_cluster_merge`. Every cluster has a first proposal. -/
def defaultClusterMerge : List (Proposal C χ) → Option (Proposal C χ)
  | [] => none
  | [p] => some p
  | p :: rest => some { rest.foldl defaultMergeWinner p with
      strategy := if rest.all fun q => q.strategy = p.strategy then p.strategy else "composite"
      reasoning := "; ".intercalate ((p :: rest).map Proposal.reasoning)
      evidence := (p :: rest).foldl (fun evidence q => evidence.set q.strategy (.dict q.evidence)) [] }

/-- What the strategies give, in the order of the slots. -/
def produced (strategies : Strategies C χ) : List (Proposal C χ) := strategies.flatMap fun s => s.2.getD []

/-- `by_id`. -/
def byId (strategies : Strategies C χ) : List (ι × List (Proposal C χ)) :=
  group (fun p => identityKey p.extra) (produced strategies)

/-- `not confidence < min_confidence`, where there is a floor. -/
def reaches (floor : Option C) (confidence : C) : Bool := floor.all fun f => f ≤ confidence

/-- `LakeLoopComposite.propose`. -/
def propose (floor : Option C) (strategies : Strategies C χ) : List (Proposal C χ) :=
  ((byId identityKey strategies).filterMap fun cluster => defaultClusterMerge cluster.2).filter fun p =>
    reaches floor p.confidence

/-- The counters after a call. A call is a no-op when no slot has a strategy. -/
def Metrics.after (m : Metrics) (floor : Option C) (strategies : Strategies C χ) : Metrics where
  invocations := m.invocations + 1
  slotInvocations := m.slotInvocations.map fun slot =>
    (slot.1, slot.2 + if strategies.any fun s => s.1 = slot.1 && s.2.isSome then 1 else 0)
  proposalsEmitted := m.proposalsEmitted + (propose identityKey floor strategies).length
  noOpInvocations := m.noOpInvocations + if strategies.all fun s => s.2.isNone then 1 else 0
  belowMinConfidenceDropped := m.belowMinConfidenceDropped +
    (((byId identityKey strategies).filterMap fun cluster => defaultClusterMerge cluster.2).filter fun p =>
      !reaches floor p.confidence).length

/-! ### What is to be kept -/

/-- The proposals about one thing. -/
def clusterOf (strategies : Strategies C χ) (id : ι) : List (Proposal C χ) :=
  (produced strategies).filter fun p => identityKey p.extra = id

/-- The evidence of a proposal of the cluster is in the output: as it is when there is no other, else under its
    strategy. -/
def Carries (cluster : List (Proposal C χ)) (o p : Proposal C χ) : Prop :=
  if cluster.length = 1 then o.evidence = p.evidence
  else Dict.get? o.evidence p.strategy = some (.dict p.evidence)

/-- The best confidence for this id. -/
structure Best (strategies : Strategies C χ) (id : ι) (x : C) : Prop where
  given : ∃ p ∈ produced strategies, identityKey p.extra = id ∧ p.confidence = x
  highest : ∀ p ∈ produced strategies, identityKey p.extra = id → p.confidence ≤ x

/-- One output for each id whose best confidence reaches the floor, with that confidence, whatever the order of the
    strategies, and with the evidence of all its proposals. -/
structure LosesNothing (floor : Option C) (strategies : Strategies C χ) : Prop where
  distinct : ((propose identityKey floor strategies).map fun o => identityKey o.extra).Nodup
  listed : ∀ id, id ∈ (propose identityKey floor strategies).map (fun o => identityKey o.extra) ↔
    ∃ x, Best identityKey strategies id x ∧ reaches floor x = true
  confidence : ∀ o ∈ propose identityKey floor strategies, Best identityKey strategies (identityKey o.extra) o.confidence
  anyOrder : ∀ strategies' : Strategies C χ, strategies'.Perm strategies → ∀ id x,
    (id, x) ∈ (propose identityKey floor strategies').map (fun o => (identityKey o.extra, o.confidence)) ↔
      (id, x) ∈ (propose identityKey floor strategies).map fun o => (identityKey o.extra, o.confidence)
  evidence : ∀ o ∈ propose identityKey floor strategies,
    ∀ p ∈ clusterOf identityKey strategies (identityKey o.extra),
      Carries (clusterOf identityKey strategies (identityKey o.extra)) o p

/-- One strategy does not back one id, if that is put out, with two different pieces of evidence. -/
def OneEvidence (floor : Option C) (strategies : Strategies C χ) : Prop :=
  ∀ p ∈ produced strategies, ∀ q ∈ produced strategies, identityKey p.extra = identityKey q.extra →
    p.strategy = q.strategy → (∃ x, Best identityKey strategies (identityKey p.extra) x ∧ reaches floor x = true) →
      p.evidence = q.evidence

end

/-! ### One cluster -/

section
variable {C χ ι : Type} [LinearOrder C] [DecidableEq ι] {identityKey : χ → ι} {p o : Proposal C χ}
  {cluster rest : List (Proposal C χ)}

/-- The winner is one of the proposals, and none is more confident. -/
theorem winner_spec : ∀ (rest : List (Proposal C χ)) (p : Proposal C χ),
    rest.foldl defaultMergeWinner p ∈ p :: rest ∧
      ∀ q ∈ p :: rest, q.confidence ≤ (rest.foldl defaultMergeWinner p).confidence
  | [], p => by
    refine ⟨List.mem_cons_self, ?_⟩
    intro q hq
    obtain rfl := List.mem_singleton.mp hq
    exact le_refl _
  | r :: rest, p => by
    obtain ⟨hmem, hmax⟩ := winner_spec rest (defaultMergeWinner p r)
    have hwinner : (defaultMergeWinner p r = p ∨ defaultMergeWinner p r = r) ∧
        p.confidence ≤ (defaultMergeWinner p r).confidence ∧ r.confidence ≤ (defaultMergeWinner p r).confidence := by
      rw [defaultMergeWinner]
      split
      · rename_i hle
        exact ⟨.inl rfl, le_refl _, hle⟩
      · rename_i hlt
        exact ⟨.inr rfl, le_of_lt (not_le.mp hlt), le_refl _⟩
    obtain ⟨hor, hp, hr⟩ := hwinner
    rw [List.foldl_cons]
    refine ⟨?_, ?_⟩
    · rcases List.mem_cons.mp hmem with heq | hrest
      · rw [heq]
        rcases hor with hor | hor
        · rw [hor]
          exact List.mem_cons_self
        · rw [hor]
          exact List.mem_cons_of_mem p List.mem_cons_self
      · exact List.mem_cons_of_mem p (List.mem_cons_of_mem r hrest)
    · intro q hq
      have hfirst := hmax _ List.mem_cons_self
      rcases List.mem_cons.mp hq with rfl | hq
      · exact le_trans hp hfirst
      · rcases List.mem_cons.mp hq with rfl | hq
        · exact le_trans hr hfirst
        · exact hmax q (List.mem_cons_of_mem _ hq)

/-- A merged proposal has the extra fields and the confidence of one of its cluster, and none there is more confident. -/
theorem merge_spec (h : defaultClusterMerge cluster = some o) :
    (∃ p ∈ cluster, p.extra = o.extra ∧ p.confidence = o.confidence) ∧ ∀ q ∈ cluster, q.confidence ≤ o.confidence := by
  match cluster, h with
  | [p], h =>
    obtain rfl := Option.some.inj h
    refine ⟨⟨p, List.mem_cons_self, rfl, rfl⟩, ?_⟩
    intro q hq
    obtain rfl := List.mem_singleton.mp hq
    exact le_refl _
  | p :: r :: rest, h =>
    obtain rfl := Option.some.inj h
    obtain ⟨hmem, hmax⟩ := winner_spec (r :: rest) p
    exact ⟨⟨_, hmem, rfl, rfl⟩, hmax⟩

theorem merge_isSome (h : p ∈ cluster) : ∃ o, defaultClusterMerge cluster = some o := by
  match cluster, h with
  | [p], _ => exact ⟨_, rfl⟩
  | p :: r :: rest, _ => exact ⟨_, rfl⟩

theorem get?_set_ne {name other : String} (hne : name ≠ other) (v : Val) : ∀ d : Dict,
    Dict.get? (d.set name v) other = Dict.get? d other
  | [] => by simp [Dict.set, Dict.get?, hne]
  | (k, w) :: d => by
    have ih := get?_set_ne hne v d
    by_cases hk : k = .str name
    · simp [Dict.set, Dict.get?, hk, hne]
    · rw [Dict.set, if_neg hk]
      by_cases hother : k = .str other
      · simp [Dict.get?, hother]
      · simpa [Dict.get?, hother] using ih

omit [LinearOrder C] in
/-- Of several proposals of one strategy the last one's evidence stays. -/
theorem get?_evidence (name : String) : ∀ (cluster : List (Proposal C χ)) (evidence : Dict),
    Dict.get? (cluster.foldl (fun evidence q => evidence.set q.strategy (.dict q.evidence)) evidence) name =
      ((cluster.filter fun q => q.strategy = name).getLast?.map fun q => .dict q.evidence).or (Dict.get? evidence name)
  | [], evidence => by simp
  | q :: cluster, evidence => by
    rw [List.foldl_cons, get?_evidence name cluster]
    by_cases hq : q.strategy = name
    · rw [List.filter_cons_of_pos (by simpa using hq), List.getLast?_cons, ← hq, Dict.get?_set]
      cases (cluster.filter fun r => r.strategy = q.strategy).getLast? <;> rfl
    · rw [List.filter_cons_of_neg (by simpa using hq), get?_set_ne hq]

theorem evidence_merge (h : defaultClusterMerge cluster = some o) (hmany : cluster.length ≠ 1) (name : String) :
    Dict.get? o.evidence name =
      (cluster.filter fun q => q.strategy = name).getLast?.map fun q => .dict q.evidence := by
  match cluster, h with
  | [p], _ => exact absurd rfl hmany
  | p :: r :: rest, h =>
    obtain rfl := Option.some.inj h
    exact (get?_evidence name (p :: r :: rest) []).trans (Option.or_none)

/-! ### All of them -/

section
variable {floor : Option C} {strategies strategies' : Strategies C χ} {id : ι} {x y : C}

omit [LinearOrder C] in
theorem mem_clusterOf :
    p ∈ clusterOf identityKey strategies id ↔ p ∈ produced strategies ∧ identityKey p.extra = id := by
  rw [clusterOf, List.mem_filter, decide_eq_true_eq]

theorem own_id (h : defaultClusterMerge (clusterOf identityKey strategies id) = some o) :
    identityKey o.extra = id := by
  obtain ⟨⟨p, hp, hextra, -⟩, -⟩ := merge_spec h
  rw [← hextra]
  exact (mem_clusterOf.mp hp).2

theorem best_of_merge (h : defaultClusterMerge (clusterOf identityKey strategies id) = some o) :
    Best identityKey strategies id o.confidence := by
  obtain ⟨⟨p, hp, -, hconfidence⟩, hmax⟩ := merge_spec h
  obtain ⟨hgiven, hid⟩ := mem_clusterOf.mp hp
  exact ⟨⟨p, hgiven, hid, hconfidence⟩, fun q hq hq' => hmax q (mem_clusterOf.mpr ⟨hq, hq'⟩)⟩

omit [DecidableEq ι] in
theorem Best.unique (hx : Best identityKey strategies id x) (hy : Best identityKey strategies id y) : x = y := by
  obtain ⟨p, hp, hpid, rfl⟩ := hx.given
  obtain ⟨q, hq, hqid, rfl⟩ := hy.given
  exact le_antisymm (hy.highest p hp hpid) (hx.highest q hq hqid)

theorem mem_propose : o ∈ propose identityKey floor strategies ↔
    ∃ id, defaultClusterMerge (clusterOf identityKey strategies id) = some o ∧ reaches floor o.confidence = true := by
  rw [propose, List.mem_filter, List.mem_filterMap]
  constructor
  · rintro ⟨⟨cluster, hcluster, hmerge⟩, hfloor⟩
    rw [group_bucket hcluster] at hmerge
    exact ⟨cluster.1, hmerge, hfloor⟩
  · rintro ⟨id, hmerge, hfloor⟩
    obtain ⟨⟨p, hp, -⟩, -⟩ := merge_spec hmerge
    obtain ⟨hgiven, hid⟩ := mem_clusterOf.mp hp
    have hkey := @mem_group_keys _ _ _ (fun p : Proposal C χ => identityKey p.extra) _ _ hgiven
    obtain ⟨cluster, hcluster, heq⟩ := List.mem_map.mp hkey
    refine ⟨⟨cluster, hcluster, ?_⟩, hfloor⟩
    rw [group_bucket hcluster, heq, hid]
    exact hmerge

/-- The ids with their confidences are those of the best proposals that reach the floor. -/
theorem mem_confidences :
    (id, x) ∈ (propose identityKey floor strategies).map (fun o => (identityKey o.extra, o.confidence)) ↔
      Best identityKey strategies id x ∧ reaches floor x = true := by
  constructor
  · intro h
    obtain ⟨o, ho, heq⟩ := List.mem_map.mp h
    obtain ⟨rfl, rfl⟩ := Prod.mk.inj heq
    obtain ⟨id, hmerge, hfloor⟩ := mem_propose.mp ho
    rw [own_id hmerge]
    exact ⟨best_of_merge hmerge, hfloor⟩
  · rintro ⟨hbest, hfloor⟩
    obtain ⟨p, hp, hid, -⟩ := hbest.given
    obtain ⟨o, hmerge⟩ := merge_isSome (mem_clusterOf.mpr ⟨hp, hid⟩)
    obtain rfl := hbest.unique (best_of_merge hmerge)
    exact List.mem_map.mpr ⟨o, mem_propose.mpr ⟨id, hmerge, hfloor⟩, by rw [own_id hmerge]⟩

omit [LinearOrder C] in
theorem mem_produced_perm (h : strategies'.Perm strategies) : p ∈ produced strategies' ↔ p ∈ produced strategies := by
  simp only [produced, List.mem_flatMap, h.mem_iff]

omit [DecidableEq ι] in
theorem best_perm (h : strategies'.Perm strategies) (hbest : Best identityKey strategies' id x) :
    Best identityKey strategies id x := by
  obtain ⟨p, hp, hpid⟩ := hbest.given
  exact ⟨⟨p, (mem_produced_perm h).mp hp, hpid⟩, fun q hq => hbest.highest q ((mem_produced_perm h).mpr hq)⟩

omit [DecidableEq ι] in
/-- The outputs have the ids of their clusters, in their order. -/
theorem ids_sublist : ∀ {clusters : List (ι × List (Proposal C χ))},
    (∀ cluster ∈ clusters, ∀ o, defaultClusterMerge cluster.2 = some o → identityKey o.extra = cluster.1) →
      ((clusters.filterMap fun cluster => defaultClusterMerge cluster.2).map fun o => identityKey o.extra).Sublist
        (clusters.map Prod.fst)
  | [], _ => List.Sublist.refl _
  | cluster :: clusters, h => by
    obtain ⟨hfirst, hrest⟩ := List.forall_mem_cons.mp h
    have ih := ids_sublist hrest
    cases hmerge : defaultClusterMerge cluster.2 with
    | none =>
      simp only [List.filterMap_cons, hmerge, List.map_cons]
      exact ih.cons _
    | some o =>
      simp only [List.filterMap_cons, hmerge, List.map_cons, hfirst o hmerge]
      exact ih.cons_cons _

theorem ids_nodup : ((propose identityKey floor strategies).map fun o => identityKey o.extra).Nodup := by
  have hmerged : ∀ cluster ∈ byId identityKey strategies, ∀ o, defaultClusterMerge cluster.2 = some o →
      identityKey o.extra = cluster.1 := by
    intro cluster hcluster o hmerge
    rw [group_bucket hcluster] at hmerge
    exact own_id hmerge
  have hall := (ids_sublist hmerged).nodup (group_keys_nodup (produced strategies))
  exact (List.filter_sublist.map _).nodup hall

/-- Of each cluster that has more than one proposal, the evidence is that of the last proposal of each strategy. -/
theorem carries_iff (h : defaultClusterMerge cluster = some o) :
    (∀ p ∈ cluster, Carries cluster o p) ↔
      ∀ p ∈ cluster, ∀ q ∈ cluster, p.strategy = q.strategy → p.evidence = q.evidence := by
  by_cases hone : cluster.length = 1
  · obtain ⟨p, rfl⟩ := List.length_eq_one_iff.mp hone
    obtain rfl := Option.some.inj h
    simp [Carries]
  · have hheld : ∀ p ∈ cluster, ∃ last ∈ cluster, last.strategy = p.strategy ∧
        Dict.get? o.evidence p.strategy = some (.dict last.evidence) := by
      intro p hp
      have hmem : p ∈ cluster.filter fun q => q.strategy = p.strategy := List.mem_filter.mpr ⟨hp, by simp⟩
      have hlast := List.getLast?_eq_some_getLast (List.ne_nil_of_mem hmem)
      obtain ⟨hin, hstrategy⟩ := List.mem_filter.mp (List.getLast_mem (List.ne_nil_of_mem hmem))
      refine ⟨_, hin, of_decide_eq_true hstrategy, ?_⟩
      rw [evidence_merge h hone, hlast]
      rfl
    constructor
    · intro hcarries p hp q hq hstrategy
      have hfirst := hcarries p hp
      have hsecond := hcarries q hq
      rw [Carries, if_neg hone] at hfirst hsecond
      rw [hstrategy, hsecond] at hfirst
      exact (Val.dict.inj (Option.some.inj hfirst)).symm
    · intro hsame p hp
      obtain ⟨last, hlast, hstrategy, hget⟩ := hheld p hp
      rw [Carries, if_neg hone, hget, hsame last hlast p hp hstrategy]

/-! ### The composite -/

/-- Every id is counted, as emitted or as dropped. -/
theorem Metrics.after_counts (m : Metrics) :
    (m.after identityKey floor strategies).proposalsEmitted +
        (m.after identityKey floor strategies).belowMinConfidenceDropped =
      m.proposalsEmitted + m.belowMinConfidenceDropped + (byId identityKey strategies).length := by
  have hmerged : ∀ cluster ∈ byId identityKey strategies, (defaultClusterMerge cluster.2).isSome = true := by
    intro cluster hcluster
    obtain ⟨p, hp⟩ := List.exists_mem_of_ne_nil _ (group_ne_nil hcluster)
    obtain ⟨o, ho⟩ := merge_isSome hp
    rw [ho]
    rfl
  have hlength := List.filterMap_length_eq_length.mpr hmerged
  have hsplit := List.length_eq_length_filter_add (l :=
    (byId identityKey strategies).filterMap fun cluster => defaultClusterMerge cluster.2) fun p => reaches floor p.confidence
  simp only [Metrics.after, propose]
  omega

/-- The evidence is that of all proposals unless a strategy has given two for one id; the rest is always kept. -/
theorem losesNothing_iff (identityKey : χ → ι) (floor : Option C) (strategies : Strategies C χ) :
    LosesNothing identityKey floor strategies ↔ OneEvidence identityKey floor strategies := by
  constructor
  · intro h p hp q hq hid hstrategy hbest
    obtain ⟨x, hx, hfloor⟩ := hbest
    obtain ⟨o, ho, heq⟩ := List.mem_map.mp (mem_confidences.mpr ⟨hx, hfloor⟩)
    obtain ⟨id, hmerge, -⟩ := mem_propose.mp ho
    have hp' : identityKey p.extra = id := (Prod.mk.inj heq).1.symm.trans (own_id hmerge)
    have hcarries := h.evidence o ho
    rw [own_id hmerge] at hcarries
    exact (carries_iff hmerge).mp hcarries p (mem_clusterOf.mpr ⟨hp, hp'⟩) q
      (mem_clusterOf.mpr ⟨hq, hid ▸ hp'⟩) hstrategy
  · intro h
    refine ⟨ids_nodup, ?_, ?_, ?_, ?_⟩
    · intro id
      constructor
      · intro hmem
        obtain ⟨o, ho, rfl⟩ := List.mem_map.mp hmem
        exact ⟨o.confidence, mem_confidences.mp (List.mem_map_of_mem ho)⟩
      · rintro ⟨x, hbest⟩
        obtain ⟨o, ho, heq⟩ := List.mem_map.mp (mem_confidences.mpr hbest)
        exact List.mem_map.mpr ⟨o, ho, (Prod.mk.inj heq).1⟩
    · intro o ho
      exact (mem_confidences.mp (List.mem_map_of_mem ho)).1
    · intro strategies' hperm id x
      rw [mem_confidences, mem_confidences]
      exact and_congr_left' ⟨best_perm hperm, best_perm hperm.symm⟩
    · intro o ho
      obtain ⟨id, hmerge, hfloor⟩ := mem_propose.mp ho
      rw [own_id hmerge]
      refine (carries_iff hmerge).mpr ?_
      intro p hp q hq hstrategy
      obtain ⟨hpgiven, rfl⟩ := mem_clusterOf.mp hp
      obtain ⟨hqgiven, hqid⟩ := mem_clusterOf.mp hq
      exact h p hpgiven q hqgiven hqid.symm hstrategy ⟨_, best_of_merge hmerge, hfloor⟩

end

end

section
private def naming (column : String) (confidence : ℚ) : Proposal ℚ String where
  extra := "edge"
  confidence
  strategy := "naming_match"
  reasoning := column
  evidence := [(.str "column", .str column)]

private def twice : Strategies ℚ String := [("naming_match", some [naming "user_id" (3 / 4), naming "id" (1 / 2)])]

theorem evidence_lost : ¬ LosesNothing id none twice := by
  intro h
  obtain ⟨o, hmerge⟩ := @merge_isSome _ _ _ _ (clusterOf id twice "edge") (mem_clusterOf.mpr ⟨List.mem_cons_self, rfl⟩)
  have hfirst := h.evidence o (mem_propose.mpr ⟨"edge", hmerge, rfl⟩)
  rw [own_id hmerge] at hfirst
  have hsame := (carries_iff hmerge).mp hfirst _ List.mem_cons_self _ (List.mem_cons_of_mem _ List.mem_cons_self) rfl
  simp [naming] at hsame
end

end Gateway.LakeLoop
