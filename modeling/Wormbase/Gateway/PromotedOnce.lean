import Wormbase.Gateway.PromotedKeys
import Wormbase.Gateway.PromotionSafety
import Wormbase.Lib.Run

/-! Runs of the five promotions over one ledger, among rows that anyone else writes.

    A restart leaves the ledger, which is all that a promotion goes by. Before it writes, it looks for the
    key of its cluster; what it writes has that key, but for a data product whose id the consumers spell
    otherwise than `str` does. A gap counts as resolved only under the text of the id of its propose row. -/

namespace Gateway
open Py FirstFit Projection Keyed Run

/-! ### What a fire adds -/

/-- The execute row of a recorded outcome. -/
def IsOutcome (r : LedgerRow) : Prop :=
  ∃ payload, payloadOf "execute" (entryDict r) = some payload ∧ payload.get "tool" = .str "emit_query_outcome_recorded"

section
variable (py : Interp) (lower : List Char → List Char)

/-- What the rows that a promotion adds are like. -/
structure Added (due : PromotedKey → Prop) (rows new : List LedgerRow) : Prop where
  fresh : Fresh (promotedKeys py lower) rows new
  due : ∀ k ∈ new.flatMap (promotedKeys py lower), due k
  quiet : ∀ r ∈ new, ¬IsOutcome r

end

section
variable {py : Interp} {lower : List Char → List Char} {due : PromotedKey → Prop}

theorem added_nil (rows : List LedgerRow) : Added py lower due rows [] where
  fresh := fresh_nil rows
  due := by
    intro k hk
    exact absurd hk List.not_mem_nil
  quiet := by
    intro r hr
    exact absurd hr List.not_mem_nil

theorem Added.append {rows new more : List LedgerRow} (h : Added py lower due rows new)
    (hmore : Added py lower due (rows ++ new) more) : Added py lower due rows (new ++ more) where
  fresh := h.fresh.append hmore.fresh
  due := by
    intro k hk
    rw [List.flatMap_append, List.mem_append] at hk
    exact hk.elim (h.due k) (hmore.due k)
  quiet := by
    intro r hr
    exact (List.mem_append.mp hr).elim (h.quiet r) (hmore.quiet r)

/-- No row of a cycle with another tool, or none, is an outcome. -/
theorem not_outcome {c : Cycle} (htool : Dict.get (c.execute.map strItem) "tool" ≠ .str "emit_query_outcome_recorded")
    {company : UUID} {n : ℕ} {st : Stamp} : ∀ r ∈ c.rows company n st, ¬IsOutcome r := by
  rintro r hr ⟨payload, hpayload, hget⟩
  rw [payloadOf_row hr hpayload, get_execute c st (by decide)] at hget
  exact htool (backOf_eq_str hget)

/-- A cycle with one key, which the ledger lacks. -/
theorem added_cycle {c : Cycle} {k : PromotedKey} {company : UUID} {n : ℕ} {st : Stamp} {rows : List LedgerRow}
    (hkeys : (c.rows company n st).flatMap (promotedKeys py lower) = [k])
    (hnew : k ∉ rows.flatMap (promotedKeys py lower)) (hdue : due k)
    (htool : Dict.get (c.execute.map strItem) "tool" ≠ .str "emit_query_outcome_recorded") :
    Added py lower due rows (c.rows company n st) where
  fresh := fresh_one hkeys hnew
  due := by
    intro k' hk'
    rw [hkeys, List.mem_singleton] at hk'
    exact hk' ▸ hdue
  quiet := not_outcome htool

/-- What each promotion adds in this way, a fire does. -/
theorem fire_added {C : Compounding} {company : UUID} {entry : Dict} {now : DateTime} {rows : List LedgerRow}
    (hstep : ∀ cs, C.clusters entry now rows = .ok cs → ∀ cluster ∈ cs, ∀ o before c st,
      C.promotionThreshold cluster = .ok true → C.idempotencyFilter cluster (fetch before) = .ok false →
      C.promotionAction o cluster (fetch before) = .ok (some c) →
      Added py lower due before (c.rows company (tailSeq before) st)) (occ : ℕ → Occasion) :
    ∃ new, (C.fire company entry now occ rows).2 = rows ++ new ∧ Added py lower due rows new := by
  rcases fire_rows entry now occ rows with hsame | ⟨cs, hcs, hloop⟩
  · exact ⟨[], hsame.trans (List.append_nil _).symm, added_nil rows⟩
  · rw [hloop]
    refine loop_invariant (I := fun after => ∃ new, after = rows ++ new ∧ Added py lower due rows new) ?_
      ⟨[], (List.append_nil _).symm, added_nil rows⟩
    rintro cluster hcluster o _ fired after ⟨new, rfl, hnew⟩ hpromote
    rcases promote_cases hpromote with rfl | ⟨c, st, hthreshold, hfilter, haction, -, rfl⟩
    · exact ⟨new, rfl, hnew⟩
    · exact ⟨new ++ _, List.append_assoc .., hnew.append (hstep cs hcs cluster hcluster o _ c st hthreshold hfilter
        haction)⟩

end

/-! ### Templates and bad patterns -/

section
variable {py : Interp} {lower : List Char → List Char} {due : PromotedKey → Prop}

/-- The domain of a stored outcome has a text. -/
theorem domain_ne {r : LedgerRow} (h : Stored r.payload) : resolvedDomain py (outcomeArgs (entryDict r)) ≠ "" := by
  have hor : ∀ {v d}, Stored v → v.or (.dict []) = .dict d → Stored (.dict d) := fun hv hd =>
    hd ▸ hv.or stored_dict_nil
  have hargs : Stored (.dict (outcomeArgs (entryDict r))) := by
    rw [outcomeArgs]
    split
    · rename_i payload hpayload
      split
      · rename_i args hargs
        exact hor ((hor h hpayload).get "args") hargs
      · exact stored_dict_nil
    · exact stored_dict_nil
  generalize outcomeArgs (entryDict r) = args at hargs
  unfold resolvedDomain
  extract_lets named
  have hnamed : Stored named := by
    simp only [named]
    split
    · rename_i spec hspec
      exact (hor (hargs.get "final_query_spec") hspec).get "domain_id"
    · exact stored_none
  split
  · rename_i htrue
    exact hnamed.toStr_ne htrue
  · split
    · rename_i htrue
      exact (hargs.get "domain_id").toStr_ne htrue
    · decide

variable {V S : Type} [LE S] [DecidableLE S]
variable {asarray : List (List Val) → Except Err (List (List PyFloat))} {normalize : List PyFloat → V}
  {dot : V → V → S} {cosine : List PyFloat → List PyFloat → S} {threshold : S}

/-- The clusters of an axis on outcomes are of outcomes of the ledger. -/
theorem OutcomeAxis.members (hx : Exact asarray normalize dot cosine) {filter : Dict → Except Err Bool}
    {C : Compounding} {least days : ℕ} {field : String}
    (haxis : OutcomeAxis py lower (clusterV2 py asarray normalize dot threshold) C filter least days field)
    {entry : Dict} {now : DateTime} {rows : List LedgerRow} {cs : List (List Dict)}
    (hcs : C.clusters entry now rows = .ok cs) {cluster : List Dict} (hcluster : cluster ∈ cs) :
    ∀ m ∈ cluster, ∃ r ∈ rows, entryDict r = m ∧ IsOutcome r := by
  rcases clusters_ok hcs with rfl | ⟨found, hfound, hclusters⟩
  · exact nomatch hcluster
  rw [haxis.gather] at hfound
  rw [haxis.cluster] at hclusters
  obtain ⟨cutoff, -, hfound⟩ := bind_eq_ok.mp hfound
  obtain ⟨hsub, houtcomes⟩ := executeEntries_ok hfound
  obtain ⟨hmembers, -, -⟩ := hybridCluster_cluster hx hclusters hcluster
  intro m hm
  have hmem := hmembers.subset hm
  obtain ⟨r, hr, rfl⟩ := List.mem_map.mp (hsub.subset hmem)
  exact ⟨r, hr, rfl, (houtcomes _ hmem).1⟩

/-- The outcomes of a ledger are as their column gave them back. -/
def OutcomesStored (rows : List LedgerRow) : Prop := ∀ r ∈ rows, IsOutcome r → Stored r.payload

variable {company : UUID} {entry : Dict} {now : DateTime} {rows : List LedgerRow}

theorem templates_added (hx : Exact asarray normalize dot cosine) (hl : LowerCase lower)
    (hstored : OutcomesStored rows) (hdue : ∀ d i, due (.template d i)) (occ : ℕ → Occasion) :
    ∃ new, ((outcomeToTemplate py lower (clusterV2 py asarray normalize dot threshold)).fire company entry now occ
      rows).2 = rows ++ new ∧ Added py lower due rows new := by
  refine fire_added (fun cs hcs cluster hcluster o before c st _ _ haction => ?_) occ
  obtain ⟨first, rest, best, quality, rfl, hintent, hkey, -, -, rfl⟩ :=
    @emitQueryTemplatePromoted_ok py lower o cluster (fetch before) c haction
  obtain ⟨r, hr, rfl, houtcome⟩ := (outcomeToTemplate_axis _).members hx hcs hcluster first List.mem_cons_self
  have hkeys := @templateCycle_keys py lower _ _ (@domain_ne py r (hstored r hr houtcome)) hintent
    (canonicalIntent_idem hl _) (specOf (outcomeArgs best)) (memberIds py (entryDict r :: rest)) quality company
    (tailSeq before) st
  exact added_cycle hkeys (fun hmem => hkey (template_mem.mp hmem)) (hdue _ _) nofun

theorem badPatterns_added (hx : Exact asarray normalize dot cosine) (hstored : OutcomesStored rows)
    (hdue : ∀ d i, due (.badPattern d i)) (occ : ℕ → Occasion) :
    ∃ new, ((failureToBadPattern py lower (clusterV2 py asarray normalize dot threshold)).fire company entry now occ
      rows).2 = rows ++ new ∧ Added py lower due rows new := by
  refine fire_added (fun cs hcs cluster hcluster o before c st _ hfilter haction => ?_) occ
  obtain ⟨first, rest, rfl, hintent, rfl⟩ := @emitBadPatternProposed_ok py lower o cluster (fetch before) c haction
  obtain ⟨r, hr, rfl, houtcome⟩ := (failureToBadPattern_axis _).members hx hcs hcluster first List.mem_cons_self
  have hkey : (resolvedDomain py (outcomeArgs (entryDict r)), intentOf py lower (outcomeArgs (entryDict r))) ∉
      existingBadPatternIntents py (fetch before) := by
    simpa [failureToBadPattern, badPatternAlreadyProposed, hintent] using hfilter
  have hkeys := @badPatternCycle_keys py lower _ _ (@domain_ne py r (hstored r hr houtcome)) hintent
    (memberIds py (entryDict r :: rest)) (failedSpecs (entryDict r :: rest)) company (tailSeq before) st
  exact added_cycle hkeys (fun hmem => hkey (badPattern_mem.mp hmem)) (hdue _ _)
    (by simp [badPatternCycle, plainCycle, strItem, Dict.get, Dict.get?])

/-! ### Data products -/

theorem dataProducts_added {valid : List (String × Val) → Bool} (hdue : ∀ id, due (.agentQuery id))
    (occ : ℕ → Occasion) : ∃ new, ((outcomeToDataProduct py valid).fire company entry now occ rows).2 = rows ++ new ∧
      Added py lower due rows new := by
  refine fire_added (fun cs _ cluster _ o before c st _ _ haction => ?_) occ
  obtain ⟨outcome, rest, quality, rfl, halready, rfl⟩ :=
    @emitDataProductProposed_ok py valid o cluster (fetch before) c haction
  have htool : Dict.get ((dataProductCycle py (Dict.get (outcomeArgs outcome) "agent_query_id")
      (dataProductArgs py (outcomeArgs outcome) o.uuid quality) o.uuid quality).execute.map strItem) "tool" ≠
      .str "emit_query_outcome_recorded" := by
    simp [dataProductCycle, strItem, Dict.get, Dict.get?]
  rcases @dataProductCycle_keys py lower (outcomeArgs outcome) o.uuid quality company (tailSeq before) st with
    hnone | ⟨id, hid, hkeys⟩
  · refine ⟨⟨?_, ?_⟩, ?_, not_outcome htool⟩
    · rw [Distinct, hnone]
      exact List.nodup_nil
    · rw [hnone]
      exact fun _ hk => absurd hk List.not_mem_nil
    · rw [hnone]
      exact fun _ hk => absurd hk List.not_mem_nil
  · refine added_cycle hkeys (fun hmem => ?_) (hdue id) htool
    rw [hid, agentQuery_found hmem] at halready
    cases halready

end

/-! ### Gaps -/

/-- The propose row of a semantic gap. -/
def IsGap (g : LedgerRow) : Prop :=
  ∃ payload, payloadOf "propose" (entryDict g) = some payload ∧
    payload.get "target_kind" = .str "semantic_gap_proposed"

/-- The id of a row of a gap's cycle: its propose row, or the execute row that names it. -/
def CycleRow (rows : List LedgerRow) (g : LedgerRow) (u : UUID) : Prop :=
  u = g.entryId ∨ ∃ e ∈ rows, e.entryId = u ∧ ∃ payload, payloadOf "execute" (entryDict e) = some payload ∧
    payload.get "propose_entry_id" = .str g.entryId.str

/-- At least seven days old. -/
def Aged (now : DateTime) (g : LedgerRow) : Prop :=
  ∃ cutoff, cutoffOf now 7 = .ok cutoff ∧ isAfter (entryDict g) cutoff = .ok false

section
variable (py : Interp)

/-- An imported metric was promoted from the gap. -/
def Resolves (rows : List LedgerRow) (g r : LedgerRow) : Prop :=
  ∃ id u, importedGap py (entryDict r) = some id ∧ Val.toUUID (.str id) = .ok u ∧ CycleRow rows g u

/-- A gap that may be escalated: it is old enough, and nothing has resolved it. -/
def Overdue (rows : List LedgerRow) (now : DateTime) (id : String) : Prop :=
  ∃ g ∈ rows, id = g.entryId.str ∧ IsGap g ∧ Aged now g ∧ ∀ r ∈ rows, ¬Resolves py rows g r

/-- What resolves an old gap that is not yet escalated names it by the text of its propose row. -/
def GapsNamed (rows : List LedgerRow) (now : DateTime) : Prop :=
  ∀ g ∈ rows, IsGap g → Aged now g → g.entryId.str ∉ (fetch rows).filterMap (escalatedGap py) →
    ∀ r ∈ rows, ∀ id, importedGap py (entryDict r) = some id → ∀ u, Val.toUUID (.str id) = .ok u →
      CycleRow rows g u → id = g.entryId.str

end

section
variable {py : Interp} {lower : List Char → List Char} {due : PromotedKey → Prop}
variable {company : UUID} {entry : Dict} {now : DateTime} {rows : List LedgerRow}

/-- A row that escalates a gap imports nothing. -/
theorem resolved_of_escalated {id : String} (h : id ∈ (fetch rows).filterMap (escalatedGap py)) :
    id ∈ resolvedGapIds py (fetch rows) := by
  obtain ⟨r, hr, hid⟩ := mem_keys.mp h
  refine mem_keys.mpr ⟨r, hr, ?_⟩
  have hkind : r.kind = "propose" := by
    by_contra hne
    rw [escalatedGap, payloadOf_ne hne] at hid
    cases hid
  have hnone : importedGap py (entryDict r) = none := by
    rw [importedGap, payloadOf_ne (by simp [hkind])]
    rfl
  rw [hnone, Option.none_or, hid]

theorem resolved_of_imported {r : LedgerRow} (hr : r ∈ rows) {id : String}
    (h : importedGap py (entryDict r) = some id) : id ∈ resolvedGapIds py (fetch rows) :=
  mem_keys.mpr ⟨r, hr, by rw [h, Option.some_or]⟩

/-- What the scan for gaps finds is overdue. -/
theorem gathered_overdue (hnamed : GapsNamed py rows now) {found : List Dict}
    (h : gatherUnresolvedGaps py 7 now (fetch rows) entry = .ok found) :
    ∀ e ∈ found, Overdue py rows now (entryIdText py e) := by
  intro e he
  obtain ⟨cutoff, hcutoff, h⟩ := bind_eq_ok.mp h
  obtain ⟨candidates, hcandidates, h⟩ := bind_eq_ok.mp h
  obtain ⟨hsub, hall⟩ := selectM_ok h
  obtain ⟨hrows, hgaps⟩ := selectM_ok hcandidates
  obtain ⟨g, hg, rfl⟩ := List.mem_map.mp (hrows.subset (hsub.subset he))
  have hid : entryIdText py (entryDict g) = g.entryId.str := rfl
  have hgap := hgaps _ (hsub.subset he)
  have hunresolved := hall _ he
  split at hgap
  · cases hgap
  rename_i payload hpayload
  split at hgap
  · cases hgap
  rename_i htarget
  obtain ⟨after, hafter, hgap⟩ := bind_eq_ok.mp hgap
  obtain rfl : after = false := by simpa using Except.ok.inj hgap
  have hout : g.entryId.str ∉ resolvedGapIds py (fetch rows) := by
    obtain ⟨ref, -, hunresolved⟩ := bind_eq_ok.mp hunresolved
    split at hunresolved
    · cases hunresolved
    · exact of_decide_eq_true (Except.ok.inj hunresolved)
  have hisGap : IsGap g := ⟨payload, hpayload, Val.isText_iff.mp (by simpa using htarget)⟩
  have haged : Aged now g := ⟨cutoff, hcutoff, hafter⟩
  refine ⟨g, hg, hid, hisGap, haged, ?_⟩
  rintro r hr ⟨id, u, himported, hu, hcycle⟩
  have hsame := hnamed g hg hisGap haged (fun hmem => hout (resolved_of_escalated hmem)) r hr id himported u hu hcycle
  exact hout (hsame ▸ resolved_of_imported hr himported)

theorem gaps_added (hnamed : GapsNamed py rows now) (hdue : ∀ id, Overdue py rows now id → due (.gap id))
    (occ : ℕ → Occasion) : ∃ new, ((gapToEscalation py).fire company entry now occ rows).2 = rows ++ new ∧
      Added py lower due rows new := by
  refine fire_added (fun cs hcs cluster hcluster o before c st _ hfilter haction => ?_) occ
  obtain ⟨gap, rest, nlQuestion, reason, metricName, rfl, hid, rfl⟩ :=
    @emitSemanticGapEscalated_ok py o cluster (fetch before) c haction
  have hnew : entryIdText py gap ∉ (fetch before).filterMap (escalatedGap py) := by
    simpa [gapToEscalation, gapAlreadyEscalated, hid] using hfilter
  have hoverdue : Overdue py rows now (entryIdText py gap) := by
    rcases clusters_ok hcs with rfl | ⟨found, hfound, hclusters⟩
    · exact nomatch hcluster
    · obtain rfl : found.map (fun e => [e]) = cs := Except.ok.inj hclusters
      obtain ⟨e, he, heq⟩ := List.mem_map.mp hcluster
      obtain ⟨rfl, -⟩ := List.cons.inj heq
      exact @gathered_overdue py entry now rows hnamed found hfound e he
  exact added_cycle (gapCycle_keys hid ..) (fun hmem => hnew (gap_mem.mp hmem)) (hdue _ hoverdue) nofun

/-! ### Recommendations -/

/-- The clusters that three consumers share spell a product as `str` does. -/
def ProductsSpelled (py : Interp) (entry : Dict) (now : DateTime) (rows : List LedgerRow) : Prop :=
  ∀ cs, (consumptionToRecommendation py).clusters entry now rows = .ok cs → ∀ cluster ∈ cs,
    threeConsumers py cluster = .ok true → ∀ text, productText py cluster = .ok (some text) →
      ∀ u, Val.toUUID (.str text) = .ok u → text = u.str

theorem recommendations_added (hspelled : ProductsSpelled py entry now rows) (hdue : ∀ id, due (.product id))
    (occ : ℕ → Occasion) : ∃ new, ((consumptionToRecommendation py).fire company entry now occ rows).2 =
      rows ++ new ∧ Added py lower due rows new := by
  refine fire_added (fun cs hcs cluster hcluster o before c st hthreshold hfilter haction => ?_) occ
  obtain ⟨text, dpId, seen, htext, hdp, -, -, rfl⟩ := @emitDataProductRecommended_ok py o cluster (fetch before) c
    haction
  have hsame := hspelled cs hcs cluster hcluster hthreshold text htext dpId hdp
  have hnew : dpId.str ∉ (fetch before).filterMap (recommendedProduct py) := by
    obtain ⟨found, hfound, hfilter⟩ := bind_eq_ok.mp hfilter
    obtain rfl := Except.ok.inj (htext.symm.trans hfound)
    exact hsame ▸ of_decide_eq_false (Except.ok.inj hfilter)
  exact added_cycle (recommendationCycle_keys ..) (fun hmem => hnew (product_mem.mp hmem)) (hdue _) nofun

end

/-! ### Runs -/

/-- The five promotions. -/
inductive Axis
  | template | badPattern | dataProduct | gap | recommendation

/-- What happens to a company: an entry is dispatched to a promotion, someone else writes, or the process
    starts again. -/
inductive Event
  | fire (axis : Axis) (entry : Dict) (now : DateTime) (occ : ℕ → Occasion)
  | write (new : List LedgerRow) (stored : ∀ r ∈ new, Stored r.payload)
  | restart

/-- The ledger, and the rows of it that the promotions wrote. -/
structure Promotions where
  rows : List LedgerRow
  promoted : List LedgerRow

section
variable (py : Interp) (lower : List Char → List Char) (byEmbedding : List Dict → Except Err (List (List Dict)))
  (valid : List (String × Val) → Bool) (company : UUID)

def Axis.reactivity : Axis → Compounding
  | .template => outcomeToTemplate py lower byEmbedding
  | .badPattern => failureToBadPattern py lower byEmbedding
  | .dataProduct => outcomeToDataProduct py valid
  | .gap => gapToEscalation py
  | .recommendation => consumptionToRecommendation py

def Promotions.step (s : Promotions) : Event → Option Promotions
  | .fire axis entry now occ =>
    let after := ((axis.reactivity py lower byEmbedding valid).fire company entry now occ s.rows).2
    some ⟨after, s.promoted ++ after.drop s.rows.length⟩
  | .write new _ => some { s with rows := s.rows ++ new }
  | .restart => some s

/-- A fire finds the ids that it goes by in the form in which it writes them. -/
def Spelled (s : Promotions) : Event → Prop
  | .fire .gap _ now _ => GapsNamed py s.rows now
  | .fire .recommendation entry now _ => ProductsSpelled py entry now s.rows
  | _ => True

/-- Nothing is promoted twice. -/
def PromotedOnce (s : Promotions) : Prop := Distinct (promotedKeys py lower) s.promoted

/-- Every gap that a fire escalates is overdue. -/
def EscalatesOverdue (s : Promotions) : Event → Promotions → Prop
  | .fire _ _ now _, s' => ∀ r ∈ s'.promoted.drop s.promoted.length,
      ∀ id, escalatedGap py (entryDict r) = some id → Overdue py s.rows now id
  | _, _ => True

end

section
variable {py : Interp} {lower : List Char → List Char} {valid : List (String × Val) → Bool} {company : UUID}
variable {V S : Type} [LE S] [DecidableLE S]
variable {asarray : List (List Val) → Except Err (List (List PyFloat))} {normalize : List PyFloat → V}
  {dot : V → V → S} {cosine : List PyFloat → List PyFloat → S} {threshold : S}

/-- What holds between the promoted rows and the ledger. -/
structure Kept (s : Promotions) : Prop where
  held : ∀ r ∈ s.promoted, r ∈ s.rows
  stored : OutcomesStored s.rows

/-- What a gap needs before it is escalated; the other keys need nothing. -/
def PromotedKey.Due (py : Interp) (rows : List LedgerRow) (now : DateTime) : PromotedKey → Prop
  | .gap id => Overdue py rows now id
  | _ => True

theorem reactivity_added (hx : Exact asarray normalize dot cosine) (hl : LowerCase lower) {s : Promotions}
    (hkept : Kept s) {axis : Axis} {entry : Dict} {now : DateTime} {occ : ℕ → Occasion}
    (hspelled : Spelled py s (.fire axis entry now occ)) :
    ∃ new, ((axis.reactivity py lower (clusterV2 py asarray normalize dot threshold) valid).fire company entry now
      occ s.rows).2 = s.rows ++ new ∧ Added py lower (PromotedKey.Due py s.rows now) s.rows new := by
  cases axis with
  | template => exact templates_added hx hl hkept.stored (fun _ _ => trivial) occ
  | badPattern => exact badPatterns_added hx hkept.stored (fun _ _ => trivial) occ
  | dataProduct => exact dataProducts_added (fun _ => trivial) occ
  | gap => exact gaps_added hspelled (fun _ h => h) occ
  | recommendation => exact recommendations_added hspelled (fun _ => trivial) occ

/-- A step that is spelled well keeps the invariant, promotes nothing twice and escalates only what is
    overdue. -/
theorem step_once (hx : Exact asarray normalize dot cosine) (hl : LowerCase lower) {s s' : Promotions} {e : Event}
    (hkept : Kept s) (honce : PromotedOnce py lower s) (hspelled : Spelled py s e)
    (hstep : s.step py lower (clusterV2 py asarray normalize dot threshold) valid company e = some s') :
    Kept s' ∧ PromotedOnce py lower s' ∧ EscalatesOverdue py s e s' := by
  cases e with
  | fire axis entry now occ =>
    obtain ⟨new, hnew, hadded⟩ := @reactivity_added py lower valid company V S _ _ asarray normalize dot cosine
      threshold hx hl s hkept axis entry now occ hspelled
    obtain rfl := Option.some.inj hstep
    simp only [hnew, List.drop_left]
    refine ⟨⟨?_, ?_⟩, ?_, ?_⟩
    · intro r hr
      exact List.mem_append.mpr ((List.mem_append.mp hr).imp_left (hkept.held r))
    · intro r hr houtcome
      rcases List.mem_append.mp hr with hr | hr
      · exact hkept.stored r hr houtcome
      · exact absurd houtcome (hadded.quiet r hr)
    · exact Distinct.append honce hkept.held hadded.fresh
    · intro r hr id hid
      rw [List.drop_left] at hr
      exact hadded.due (.gap id) (List.mem_flatMap.mpr ⟨r, hr, by simp [promotedKeys, hid]⟩)
  | write new hstored =>
    obtain rfl := Option.some.inj hstep
    refine ⟨⟨?_, ?_⟩, honce, trivial⟩
    · intro r hr
      exact List.mem_append_left new (hkept.held r hr)
    · intro r hr houtcome
      rcases List.mem_append.mp hr with hr | hr
      · exact hkept.stored r hr houtcome
      · exact hstored r hr
  | restart =>
    obtain rfl := Option.some.inj hstep
    exact ⟨hkept, honce, trivial⟩

theorem run_once (hx : Exact asarray normalize dot cosine) (hl : LowerCase lower) : ∀ {es : List Event}
    {s : Promotions}, Kept s → PromotedOnce py lower s →
      Guarded (Promotions.step py lower (clusterV2 py asarray normalize dot threshold) valid company) (Spelled py) s
        es →
      Always (Promotions.step py lower (clusterV2 py asarray normalize dot threshold) valid company)
        (PromotedOnce py lower) s es ∧
      EachStep (Promotions.step py lower (clusterV2 py asarray normalize dot threshold) valid company)
        (EscalatesOverdue py) s es
  | [], s, _, honce, _ => ⟨honce, trivial⟩
  | e :: es, s, hkept, honce, hguard => by
    have hnext : ∀ s', s.step py lower (clusterV2 py asarray normalize dot threshold) valid company e = some s' →
        EscalatesOverdue py s e s' ∧
          (Always (Promotions.step py lower (clusterV2 py asarray normalize dot threshold) valid company)
            (PromotedOnce py lower) s' es ∧
          EachStep (Promotions.step py lower (clusterV2 py asarray normalize dot threshold) valid company)
            (EscalatesOverdue py) s' es) := by
      intro s' hs'
      obtain ⟨hkept', honce', hoverdue⟩ := step_once hx hl hkept honce hguard.1 hs'
      exact ⟨hoverdue, run_once hx hl hkept' honce' (hguard.2 s' hs')⟩
    exact ⟨⟨honce, fun s' hs' => (hnext s' hs').2.1⟩, fun s' hs' => ⟨(hnext s' hs').1, (hnext s' hs').2.2⟩⟩

/-- Before anything is written. -/
def Promotions.start : Promotions := ⟨[], []⟩

theorem kept_start : Kept .start where
  held := by
    intro r hr
    exact absurd hr List.not_mem_nil
  stored := by
    intro r hr
    exact absurd hr List.not_mem_nil

/-- In a run whose fires find their ids spelled as they write them, no entry is promoted twice, and no gap is
    escalated that is young or resolved. -/
theorem promoted_once (hx : Exact asarray normalize dot cosine) (hl : LowerCase lower) {es : List Event}
    (h : Guarded (Promotions.step py lower (clusterV2 py asarray normalize dot threshold) valid company) (Spelled py)
      .start es) :
    Always (Promotions.step py lower (clusterV2 py asarray normalize dot threshold) valid company)
      (PromotedOnce py lower) .start es ∧
    EachStep (Promotions.step py lower (clusterV2 py asarray normalize dot threshold) valid company)
      (EscalatesOverdue py) .start es :=
  run_once hx hl kept_start distinct_nil h

end

/-! ### A product that is spelled in two ways -/

/-- `str.lower` on the letters of ASCII. -/
def asciiLower (s : List Char) : List Char := s.map Char.toLower

theorem toLower_toLower (c : Char) : c.toLower.toLower = c.toLower := by
  by_cases hupper : c.val ≥ 'A'.val ∧ c.val ≤ 'Z'.val
  · have hval : c.toLower.val = c.val + 32 := by
      rw [show c.toLower = _ from dif_pos hupper]
      rfl
    have hlower : ¬(c.toLower.val ≥ 'A'.val ∧ c.toLower.val ≤ 'Z'.val) := by
      have hA : 'A'.val = 65 := rfl
      have hZ : 'Z'.val = 90 := rfl
      rw [hA, hZ] at hupper ⊢
      rw [hval]
      grind
    generalize c.toLower = d at hlower ⊢
    exact dif_neg hlower
  · have hsame : c.toLower = c := dif_neg hupper
    rw [hsame, hsame]

theorem lowerCase_ascii : LowerCase asciiLower where
  fixed := by
    intro s c hc
    obtain ⟨a, -, rfl⟩ := List.mem_map.mp hc
    rw [asciiLower, List.map_singleton, toLower_toLower]
  keeps := by
    intro s hs
    refine (List.map_congr_left fun c hc => ?_).trans (List.map_id s)
    simpa [asciiLower] using hs c hc
  space := rfl

/-- The cycle that `consume_data_product` writes. -/
def consumptionCycle (productId agentId surface auditTrailId consumptionId : String) : Cycle where
  actionKind := "data_product_consumed"
  propose := [("target_kind", .str "data_product_consumed"), ("ref_id", .str productId),
    ("reason", .str s!"agent {agentId} consumed data_product {productId} via {surface}"),
    ("proposed_by", .str agentId), ("caused_by", .str auditTrailId), ("consumption_id", .str consumptionId)]
  execute := [("tool", .str "emit_data_product_consumed"),
    ("args", .dict [(.str "data_product_id", .str productId), (.str "consumed_by_person_id", .str agentId),
      (.str "consumed_by_agent_id", .str agentId), (.str "surface", .str surface), (.str "channel", .none)]),
    ("result_ref", .str productId), ("caused_by", .str auditTrailId), ("consumption_id", .str consumptionId)]
  verify := passedCheck "data_product_consumed"
  resolve := [("outcome", .str "keep"), ("rationale", .str "data_product_consumed"),
    ("consumption_id", .str consumptionId)]

theorem consumption_stored (productId agentId surface auditTrailId consumptionId : String) (company : UUID) (n : ℕ)
    (st : Stamp) : ∀ r ∈ (consumptionCycle productId agentId surface auditTrailId consumptionId).rows company n st,
      Stored r.payload := by
  simp only [Cycle.rows, stampedRows, List.forall_mem_cons, List.not_mem_nil, false_imp_iff, implies_true, and_true]
  have hback : ∀ {D : List (String × Val)}, jsonColumn (.dict (D.map strItem)) = .ok (.dict (backDict D)) →
      Stored (.dict (backDict D)) := fun h => ⟨_, h⟩
  exact ⟨hback rfl, hback rfl, hback rfl, hback rfl⟩

/-- Three agents use a data product under one spelling of its id. -/
def consumptions (productId : String) : List LedgerRow :=
  (consumptionCycle productId "agent-1" "mcp" "trail-1" "use-1").rows ⟨1⟩ 0 (stampAt 0) ++
    (consumptionCycle productId "agent-2" "mcp" "trail-2" "use-2").rows ⟨1⟩ 4 (stampAt 1) ++
    (consumptionCycle productId "agent-3" "mcp" "trail-3" "use-3").rows ⟨1⟩ 8 (stampAt 2)

theorem consumptions_stored (productId : String) : ∀ r ∈ consumptions productId, Stored r.payload := by
  simp only [consumptions, List.forall_mem_append]
  exact ⟨⟨fun _ => consumption_stored _ _ _ _ _ _ _ _ _, fun _ => consumption_stored _ _ _ _ _ _ _ _ _⟩,
    fun _ => consumption_stored _ _ _ _ _ _ _ _ _⟩

/-- The last consumption is dispatched twice, with a restart between. -/
def twiceDispatched (productId : String) : List Event :=
  let last := entryDict ((consumptionCycle productId "agent-3" "mcp" "trail-3" "use-3").executeRow ⟨1⟩ 8 (stampAt 2))
  [.write (consumptions productId) (consumptions_stored productId),
    .fire .recommendation last noon fun n => ⟨noon, ⟨0⟩, .ok (stampAt (n + 3))⟩, .restart,
    .fire .recommendation last noon fun n => ⟨noon, ⟨0⟩, .ok (stampAt (n + 4))⟩]

/-- The steps over a ledger of such outcomes. -/
def loopStep : Promotions → Event → Option Promotions :=
  Promotions.step .plain asciiLower (clusterV2 .plain floatRows id percent 85) (fun _ => true) ⟨1⟩

/-- Clusters that name their product by the text of a UUID are spelled well. -/
theorem productsSpelled_of {entry : Dict} {now : DateTime} {rows : List LedgerRow} {u : UUID}
    (h : ((consumptionToRecommendation .plain).clusters entry now rows).map (fun cs => cs.map (productText .plain)) =
      .ok [.ok (some u.str)]) : ProductsSpelled .plain entry now rows := by
  intro cs hcs cluster hcluster _ text htext v hv
  rw [hcs] at h
  have htexts : cs.map (productText .plain) = [.ok (some u.str)] := Except.ok.inj h
  have hmem : productText .plain cluster ∈ cs.map (productText .plain) := List.mem_map_of_mem hcluster
  rw [htexts, List.mem_singleton, htext] at hmem
  obtain rfl := Option.some.inj (Except.ok.inj hmem)
  rw [u.toUUID_str] at hv
  rw [Except.ok.inj hv]

theorem dispatched_spelled : Guarded loopStep (Spelled .plain) .start (twiceDispatched (UUID.str ⟨10⟩)) := by
  refine ⟨trivial, fun s hs => ?_⟩
  obtain rfl := Option.some.inj hs
  refine ⟨productsSpelled_of (u := ⟨10⟩) (by decide +kernel), fun t ht => ?_⟩
  obtain rfl := Option.some.inj ht
  refine ⟨trivial, fun t ht => ?_⟩
  obtain rfl := Option.some.inj ht
  exact ⟨productsSpelled_of (u := ⟨10⟩) (by decide +kernel), fun _ _ => trivial⟩

theorem promoted_once_dispatched :
    Always loopStep (PromotedOnce .plain asciiLower) .start (twiceDispatched (UUID.str ⟨10⟩)) ∧
    EachStep loopStep (EscalatesOverdue .plain) .start (twiceDispatched (UUID.str ⟨10⟩)) :=
  promoted_once exact_percent lowerCase_ascii dispatched_spelled

/-- Under another spelling of its id the product is recommended at both dispatches. -/
theorem product_recommended_twice : ¬Always loopStep (PromotedOnce .plain asciiLower) .start
    (twiceDispatched "00000000-0000-0000-0000-00000000000A") := by
  intro h
  have hkeys : (exec loopStep .start (twiceDispatched "00000000-0000-0000-0000-00000000000A")).map
      (fun s => s.promoted.flatMap (promotedKeys .plain asciiLower)) =
      some [.product (UUID.str ⟨10⟩), .product (UUID.str ⟨10⟩)] := by
    decide +kernel
  obtain ⟨s, hs, hkeys⟩ := Option.map_eq_some_iff.mp hkeys
  have honce := always_iff_prefix.mp h _ List.prefix_rfl s hs
  rw [PromotedOnce, Distinct, hkeys] at honce
  exact absurd honce (by decide +kernel)

end Gateway
