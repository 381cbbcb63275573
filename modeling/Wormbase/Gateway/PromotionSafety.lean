import Wormbase.Gateway.OutcomePromotions
import Wormbase.Py.UuidText

/-! What a promoted template and a bad pattern cite.

    The clusters by intent take only members that pass the filter. The clusters by embedding take every
    outcome of the window, so a cycle is as good as the members that such a cluster happens to have. -/

namespace Gateway
open Py FirstFit Projection

/-! ### What a cycle has to cite -/

section
variable (py : Interp)

/-- An outcome of one domain in the window that a filter passes. -/
structure Vouches (filter : Dict → Except Err Bool) (cutoff : ℤ) (domain : String) (e : Dict) : Prop where
  outcome : ∃ payload, payloadOf "execute" e = some payload ∧
    payload.get "tool" = .str "emit_query_outcome_recorded"
  quality : filter (outcomeArgs e) = .ok true
  domain : resolvedDomain py (outcomeArgs e) = domain
  window : isBefore e cutoff = .ok false

/-- A field with the ids of at least so many outcomes of the ledger, which all vouch for it. -/
def Cites (filter : Dict → Except Err Bool) (least days : ℕ) (now : DateTime) (rows : List LedgerRow)
    (cited : Val) : Prop :=
  ∃ (ids : List String) (domain : String) (cutoff : ℤ), cited = .list (ids.map .str) ∧ ids.Nodup ∧
    least ≤ ids.length ∧ cutoffOf now days = .ok cutoff ∧
    ∀ id ∈ ids, ∃ e ∈ fetch rows, (e.get "entry_id").toStr py = id ∧ Vouches py filter cutoff domain e

/-- Where a row executes a cycle, its field cites well. -/
def RowCites (field : String) (filter : Dict → Except Err Bool) (least days : ℕ) (now : DateTime)
    (rows : List LedgerRow) (r : LedgerRow) : Prop :=
  ∀ payload, payloadOf "execute" (entryDict r) = some payload →
    Cites py filter least days now rows (payload.get field)

/-- Every member that has an embedding passes the filter. -/
def EmbeddedPass (filter : Dict → Except Err Bool) (cluster : List Dict) : Prop :=
  ∀ m ∈ cluster, (entryEmbeddingRaw m).isSome → filter (outcomeArgs m) = .ok true

end

/-! ### Clusters of outcomes -/

section
variable {py : Interp} {lower : List Char → List Char}
variable {V S : Type} [LE S] [DecidableLE S]
variable {asarray : List (List Val) → Except Err (List (List PyFloat))} {normalize : List PyFloat → V}
  {dot : V → V → S} {cosine : List PyFloat → List PyFloat → S} {threshold : S}
variable {filter : Dict → Except Err Bool}

theorem executeEntries_ok {tool : String} {cutoff : ℤ} {entries out : List Dict}
    (h : executeEntries tool cutoff entries = .ok out) : out.Sublist entries ∧ ∀ e ∈ out,
      (∃ payload, payloadOf "execute" e = some payload ∧ payload.get "tool" = .str tool) ∧
        isBefore e cutoff = .ok false := by
  obtain ⟨hsub, hall⟩ := selectM_ok h
  refine ⟨hsub, fun e he => ?_⟩
  have hcheck := hall e he
  split at hcheck
  · cases hcheck
  · rename_i payload hpayload
    split at hcheck
    · cases hcheck
    · rename_i htool
      obtain ⟨before, hbefore, hcheck⟩ := bind_eq_ok.mp hcheck
      have hfalse : before = false := by simpa using Except.ok.inj hcheck
      exact ⟨⟨payload, hpayload, Val.isText_iff.mp (by simpa using htool)⟩, hfalse ▸ hbefore⟩

/-- A cluster by intent is of entries of one domain that the filter passes. -/
theorem clusterByIntent_cluster {entries : List Dict} {clusters : List (List Dict)}
    (h : clusterByIntent py lower filter entries = .ok clusters) {c : List Dict} (hc : c ∈ clusters) :
    c.Subperm entries ∧ (∀ e ∈ c, filter (outcomeArgs e) = .ok true) ∧
      ∃ domain, ∀ e ∈ c, resolvedDomain py (outcomeArgs e) = domain := by
  obtain ⟨kept, hkept, h⟩ := bind_eq_ok.mp h
  obtain rfl := Except.ok.inj h
  obtain ⟨hsub, hall⟩ := selectM_ok hkept
  obtain ⟨g, hg, rfl⟩ := List.mem_map.mp hc
  have hbucket := group_bucket hg
  refine ⟨?_, fun e he => ?_, g.1.1, fun e he => ?_⟩
  · rw [hbucket]
    exact List.filter_sublist.subperm.trans hsub.subperm
  · rw [hbucket] at he
    obtain ⟨passed, hpassed, hcheck⟩ := bind_eq_ok.mp (hall e (List.mem_filter.mp he).1)
    have hboth : passed = true := by
      have := Except.ok.inj hcheck
      simp only [Bool.and_eq_true] at this
      exact this.1
    exact hboth ▸ hpassed
  · rw [hbucket] at he
    have hkey := (List.mem_filter.mp he).2
    simp only [decide_eq_true_eq] at hkey
    exact congrArg Prod.fst hkey

/-- A cluster of both passes is of entries of one domain; those without an embedding pass the filter. -/
theorem hybridCluster_cluster (hx : Exact asarray normalize dot cosine) {entries : List Dict}
    {clusters : List (List Dict)}
    (h : hybridCluster (clusterV2 py asarray normalize dot threshold) (clusterByIntent py lower filter) entries =
      .ok clusters) {c : List Dict} (hc : c ∈ clusters) : c.Subperm entries ∧
      (EmbeddedPass filter c → ∀ e ∈ c, filter (outcomeArgs e) = .ok true) ∧
      ∃ domain, ∀ e ∈ c, resolvedDomain py (outcomeArgs e) = domain := by
  obtain ⟨halves, hhalves, h⟩ := bind_eq_ok.mp h
  obtain ⟨embedded, hembedded, hhalves⟩ := bind_eq_ok.mp hhalves
  obtain ⟨plain, hplain, hhalves⟩ := bind_eq_ok.mp hhalves
  obtain rfl := Except.ok.inj hhalves
  obtain ⟨byEmbedding, hby, h⟩ := bind_eq_ok.mp h
  obtain ⟨byIntent, hintent, h⟩ := bind_eq_ok.mp h
  obtain rfl := Except.ok.inj h
  rcases List.mem_append.mp hc with hc | hc
  · obtain ⟨hsub, hsome, hdomain⟩ := clusterV2_cluster hx hby hc
    exact ⟨hsub.trans (selectM_ok hembedded).1.subperm, fun hpass e he => hpass e he (hsome e he), hdomain⟩
  · obtain ⟨hsub, hpass, hdomain⟩ := clusterByIntent_cluster hintent hc
    exact ⟨hsub.trans (selectM_ok hplain).1.subperm, fun _ => hpass, hdomain⟩

/-! ### The citations of a fire -/

/-- The ids tell the rows of a ledger apart. -/
theorem fetch_eq_of_id {rows : List LedgerRow} (hids : (rows.map (·.entryId)).Nodup) {e m : Dict}
    (he : e ∈ fetch rows) (hm : m ∈ fetch rows)
    (h : (e.get "entry_id").toStr py = (m.get "entry_id").toStr py) : e = m := by
  obtain ⟨r, hr, rfl⟩ := List.mem_map.mp he
  obtain ⟨r', hr', rfl⟩ := List.mem_map.mp hm
  have hid : r.entryId = r'.entryId := UUID.str_injective h
  rw [List.inj_on_of_nodup_map hids hr hr' hid]

theorem memberIds_nodup {rows : List LedgerRow} (hids : (rows.map (·.entryId)).Nodup) {cluster : List Dict}
    (hsub : cluster.Subperm (fetch rows)) : (memberIds py cluster).Nodup := by
  have hall : (memberIds py (fetch rows)).Nodup := by
    have htexts : memberIds py (fetch rows) = (rows.map (·.entryId)).map UUID.str := by
      simp only [memberIds, fetch, List.map_map]
      rfl
    rw [htexts]
    exact hids.map UUID.str_injective
  obtain ⟨l, hperm, hl⟩ := hsub
  exact (hperm.map _).nodup_iff.mp ((hl.map _).nodup hall)

/-- A reactivity on outcomes whose cycles name their members in a field. -/
structure OutcomeAxis (py : Interp) (lower : List Char → List Char)
    (byEmbedding : List Dict → Except Err (List (List Dict))) (C : Compounding)
    (filter : Dict → Except Err Bool) (least days : ℕ) (field : String) : Prop where
  gather : C.gather = gatherLookbackOutcomes days
  cluster : C.cluster = hybridCluster byEmbedding (clusterByIntent py lower filter)
  threshold : C.promotionThreshold = atLeast least
  field_ne : field ≠ "propose_entry_id"
  cites : ∀ {o cluster rows c}, C.promotionAction o cluster rows = .ok (some c) →
    Dict.get (c.execute.map strItem) field = .list ((memberIds py cluster).map .str)

/-- The fire cites well exactly where each cluster that is due has only members that pass the filter. -/
theorem OutcomeAxis.cites_iff (hx : Exact asarray normalize dot cosine) {C : Compounding} {least days : ℕ}
    {field : String}
    (haxis : OutcomeAxis py lower (clusterV2 py asarray normalize dot threshold) C filter least days field)
    {due : Occasion → List Dict → List LedgerRow → Prop}
    (hdue : ∀ o cluster rows, due o cluster rows ↔ C.promotionThreshold cluster = .ok true ∧
      C.idempotencyFilter cluster (fetch rows) = .ok false ∧
      (∃ c, C.promotionAction o cluster (fetch rows) = .ok (some c)) ∧ ∃ st, o.answer = .ok st)
    {company : UUID} {entry : Dict} {now : DateTime} {rows : List LedgerRow}
    (hids : (rows.map (·.entryId)).Nodup) {cs : List (List Dict)} (hcs : C.clusters entry now rows = .ok cs)
    {occ : ℕ → Occasion} {new : List LedgerRow} (hnew : (C.loop company occ cs rows).2 = rows ++ new) :
    (∀ r ∈ new, RowCites py field filter least days now rows r) ↔
      C.Each company (fun o cluster rows => due o cluster rows → EmbeddedPass filter cluster) occ cs rows := by
  refine loop_iff (fun cluster hcluster o before => ?_) hnew
  rcases clusters_ok hcs with rfl | ⟨found, hfound, hclusters⟩
  · exact nomatch hcluster
  rw [haxis.gather] at hfound
  rw [haxis.cluster] at hclusters
  obtain ⟨cutoff, hcutoff, hfound⟩ := bind_eq_ok.mp hfound
  obtain ⟨hsub, houtcomes⟩ := executeEntries_ok hfound
  obtain ⟨hmembers, hpass, domain, hdomain⟩ := hybridCluster_cluster hx hclusters hcluster
  have hrows : cluster.Subperm (fetch rows) := hmembers.trans hsub.subperm
  constructor
  · intro hguard fired added hpromote r hr payload hpayload
    rcases promote_cases hpromote with hsame | ⟨c, st, hthreshold, hfilter, haction, hst, hadded⟩
    · obtain rfl : added = [] := by simpa using hsame
      exact nomatch hr
    obtain rfl := List.append_cancel_left hadded
    have hgood := hpass (hguard ((hdue o cluster before).mpr ⟨hthreshold, hfilter, ⟨c, haction⟩, st, hst⟩))
    have hleast : least ≤ cluster.length := by
      rw [haxis.threshold] at hthreshold
      exact of_decide_eq_true (Except.ok.inj hthreshold)
    refine ⟨memberIds py cluster, domain, cutoff, ?_, memberIds_nodup hids hrows, ?_, hcutoff, fun id hid => ?_⟩
    · rw [payloadOf_row hr hpayload, get_execute c st haxis.field_ne, haxis.cites haction, backOf_strs]
    · rwa [memberIds, List.length_map]
    · obtain ⟨m, hm, rfl⟩ := List.mem_map.mp hid
      obtain ⟨hkind, hwindow⟩ := houtcomes m (hmembers.subset hm)
      exact ⟨m, hrows.subset hm, rfl, hkind, hgood m hm, hdomain m hm, hwindow⟩
  · intro hall hdueCluster m hm _
    obtain ⟨hthreshold, hfilter, ⟨c, haction⟩, st, hst⟩ := (hdue o cluster before).mp hdueCluster
    have hpromote := @promote_writes C company _ _ _ _ _ hthreshold hfilter haction hst
    obtain ⟨ids, domain', cutoff', hfield, -, -, -, hvouch⟩ :=
      hall _ _ hpromote _ (c.executeRow_mem company (tailSeq before) st) _ (payloadOf_execute rfl rfl)
    have hget := get_execute c st haxis.field_ne
    rw [haxis.cites haction, backOf_strs] at hget
    have hsame : memberIds py cluster = ids :=
      List.map_injective_iff.mpr (fun _ _ h => Val.str.inj h) (Val.list.inj (hget.symm.trans hfield))
    obtain ⟨e, he, hid, hgood⟩ := hvouch ((m.get "entry_id").toStr py) (hsame ▸ List.mem_map_of_mem hm)
    obtain rfl := fetch_eq_of_id hids he (hrows.subset hm) hid
    exact hgood.quality

/-! ### Templates and bad patterns -/

/-- A cluster that the template promotion writes for: three members, a new key, qualities with a mean, and a
    ledger that takes the cycle. -/
structure TemplateDue (py : Interp) (lower : List Char → List Char) (o : Occasion) (cluster : List Dict)
    (rows : List LedgerRow) : Prop where
  many : 3 ≤ cluster.length
  promotable : ∃ first rest best quality, cluster = first :: rest ∧ intentOf py lower (outcomeArgs first) ≠ "" ∧
    (resolvedDomain py (outcomeArgs first), intentOf py lower (outcomeArgs first)) ∉
      existingPromotionKeys py lower (fetch rows) ∧
    bestOf py first rest = .ok best ∧ meanQuality py cluster = .ok quality
  taken : ∃ st, o.answer = .ok st

/-- A cluster that the bad-pattern promotion writes for. -/
structure BadPatternDue (py : Interp) (lower : List Char → List Char) (o : Occasion) (cluster : List Dict)
    (rows : List LedgerRow) : Prop where
  many : 2 ≤ cluster.length
  promotable : ∃ first rest, cluster = first :: rest ∧ intentOf py lower (outcomeArgs first) ≠ "" ∧
    (resolvedDomain py (outcomeArgs first), intentOf py lower (outcomeArgs first)) ∉
      existingBadPatternIntents py (fetch rows)
  taken : ∃ st, o.answer = .ok st

theorem templateDue_iff {byEmbedding : List Dict → Except Err (List (List Dict))} (o : Occasion)
    (cluster : List Dict) (rows : List LedgerRow) : TemplateDue py lower o cluster rows ↔
      (outcomeToTemplate py lower byEmbedding).promotionThreshold cluster = .ok true ∧
      (outcomeToTemplate py lower byEmbedding).idempotencyFilter cluster (fetch rows) = .ok false ∧
      (∃ c, (outcomeToTemplate py lower byEmbedding).promotionAction o cluster (fetch rows) = .ok (some c)) ∧
      ∃ st, o.answer = .ok st := by
  constructor
  · rintro ⟨hmany, ⟨first, rest, best, quality, rfl, hintent, hkey, hbest, hquality⟩, htaken⟩
    refine ⟨congrArg Except.ok (decide_eq_true hmany), rfl,
      ⟨templateCycle (resolvedDomain py (outcomeArgs first)) (intentOf py lower (outcomeArgs first))
        (specOf (outcomeArgs best)) (memberIds py (first :: rest)) quality, ?_⟩, htaken⟩
    simp only [outcomeToTemplate, emitQueryTemplatePromoted, hintent, hkey, hbest, hquality, or_self, if_false]
    rfl
  · rintro ⟨hmany, -, ⟨c, hc⟩, htaken⟩
    obtain ⟨first, rest, best, quality, hcluster, hintent, hkey, hbest, hquality, -⟩ :=
      @emitQueryTemplatePromoted_ok py lower o cluster (fetch rows) c hc
    exact ⟨of_decide_eq_true (Except.ok.inj hmany),
      ⟨first, rest, best, quality, hcluster, hintent, hkey, hbest, hquality⟩, htaken⟩

theorem badPatternDue_iff {byEmbedding : List Dict → Except Err (List (List Dict))} (o : Occasion)
    (cluster : List Dict) (rows : List LedgerRow) : BadPatternDue py lower o cluster rows ↔
      (failureToBadPattern py lower byEmbedding).promotionThreshold cluster = .ok true ∧
      (failureToBadPattern py lower byEmbedding).idempotencyFilter cluster (fetch rows) = .ok false ∧
      (∃ c, (failureToBadPattern py lower byEmbedding).promotionAction o cluster (fetch rows) = .ok (some c)) ∧
      ∃ st, o.answer = .ok st := by
  constructor
  · rintro ⟨hmany, ⟨first, rest, rfl, hintent, hkey⟩, htaken⟩
    refine ⟨congrArg Except.ok (decide_eq_true hmany), ?_,
      ⟨badPatternCycle (resolvedDomain py (outcomeArgs first)) (intentOf py lower (outcomeArgs first))
        (memberIds py (first :: rest)) (failedSpecs (first :: rest)), ?_⟩, htaken⟩
    · simp [failureToBadPattern, badPatternAlreadyProposed, hintent, hkey]
    · simp only [failureToBadPattern, emitBadPatternProposed, hintent, if_false]
  · rintro ⟨hmany, hfilter, ⟨c, hc⟩, htaken⟩
    obtain ⟨first, rest, rfl, hintent, -⟩ := @emitBadPatternProposed_ok py lower o cluster (fetch rows) c hc
    refine ⟨of_decide_eq_true (Except.ok.inj hmany), ⟨first, rest, rfl, hintent, ?_⟩, htaken⟩
    simpa [failureToBadPattern, badPatternAlreadyProposed, hintent] using hfilter

theorem outcomeToTemplate_axis (byEmbedding : List Dict → Except Err (List (List Dict))) :
    OutcomeAxis py lower byEmbedding (outcomeToTemplate py lower byEmbedding) (highQualityOutcomeTemplate py) 3 30
      "promoted_from_outcome_ids" where
  gather := rfl
  cluster := rfl
  threshold := rfl
  field_ne := by decide
  cites := by
    intro o cluster rows c h
    obtain ⟨first, rest, best, quality, -, -, -, -, -, rfl⟩ :=
      @emitQueryTemplatePromoted_ok py lower o cluster rows c h
    rfl

theorem failureToBadPattern_axis (byEmbedding : List Dict → Except Err (List (List Dict))) :
    OutcomeAxis py lower byEmbedding (failureToBadPattern py lower byEmbedding) (badOutcomeFilter py) 2 14
      "failed_outcome_ids" where
  gather := rfl
  cluster := rfl
  threshold := rfl
  field_ne := by decide
  cites := by
    intro o cluster rows c h
    obtain ⟨first, rest, -, -, rfl⟩ := @emitBadPatternProposed_ok py lower o cluster rows c h
    rfl

/-- The same for a fire as a whole. -/
theorem OutcomeAxis.fire_iff (hx : Exact asarray normalize dot cosine) {C : Compounding} {least days : ℕ}
    {field : String}
    (haxis : OutcomeAxis py lower (clusterV2 py asarray normalize dot threshold) C filter least days field)
    {due : Occasion → List Dict → List LedgerRow → Prop}
    (hdue : ∀ o cluster rows, due o cluster rows ↔ C.promotionThreshold cluster = .ok true ∧
      C.idempotencyFilter cluster (fetch rows) = .ok false ∧
      (∃ c, C.promotionAction o cluster (fetch rows) = .ok (some c)) ∧ ∃ st, o.answer = .ok st)
    (company : UUID) (entry : Dict) (now : DateTime) (occ : ℕ → Occasion) {rows : List LedgerRow}
    (hids : (rows.map (·.entryId)).Nodup) :
    (∀ r ∈ (C.fire company entry now occ rows).2.drop rows.length, RowCites py field filter least days now rows r) ↔
      ∀ cs, C.clusters entry now rows = .ok cs →
        C.Each company (fun o cluster rows => due o cluster rows → EmbeddedPass filter cluster) occ cs rows := by
  rw [Compounding.fire]
  split
  · rename_i e herror
    simp [herror]
  · rename_i cs hcs
    obtain ⟨new, hnew⟩ := @loop_grows C company occ cs rows
    simp only [hnew, List.drop_left]
    rw [haxis.cites_iff hx hdue hids hcs hnew]
    exact ⟨fun heach cs' hcs' => Except.ok.inj (hcs.symm.trans hcs') ▸ heach, fun hall => hall cs hcs⟩

/-- Each cycle of a fire cites outcomes that are as good as its filter asks exactly where the clusters that
    are due have no member with an embedding that fails it. -/
theorem promotions_cite_iff (hx : Exact asarray normalize dot cosine) (company : UUID) (entry : Dict)
    (now : DateTime) (occ : ℕ → Occasion) {rows : List LedgerRow} (hids : (rows.map (·.entryId)).Nodup) :
    ((∀ r ∈ ((outcomeToTemplate py lower (clusterV2 py asarray normalize dot threshold)).fire company entry now occ
        rows).2.drop rows.length, RowCites py "promoted_from_outcome_ids" (highQualityOutcomeTemplate py) 3 30 now
        rows r) ↔
      ∀ cs, (outcomeToTemplate py lower (clusterV2 py asarray normalize dot threshold)).clusters entry now rows =
        .ok cs → (outcomeToTemplate py lower (clusterV2 py asarray normalize dot threshold)).Each company
          (fun o cluster rows => TemplateDue py lower o cluster rows →
            EmbeddedPass (highQualityOutcomeTemplate py) cluster) occ cs rows) ∧
    ((∀ r ∈ ((failureToBadPattern py lower (clusterV2 py asarray normalize dot threshold)).fire company entry now occ
        rows).2.drop rows.length, RowCites py "failed_outcome_ids" (badOutcomeFilter py) 2 14 now rows r) ↔
      ∀ cs, (failureToBadPattern py lower (clusterV2 py asarray normalize dot threshold)).clusters entry now rows =
        .ok cs → (failureToBadPattern py lower (clusterV2 py asarray normalize dot threshold)).Each company
          (fun o cluster rows => BadPatternDue py lower o cluster rows →
            EmbeddedPass (badOutcomeFilter py) cluster) occ cs rows) :=
  ⟨(outcomeToTemplate_axis _).fire_iff hx templateDue_iff company entry now occ hids,
    (failureToBadPattern_axis _).fire_iff hx badPatternDue_iff company entry now occ hids⟩

end
/-! ### A cluster of mixed quality -/

def noon : DateTime := ⟨⟨63900000000000000, by decide⟩, some DateTime.utc⟩

/-- The stamp of the cycle after `n` others. -/
def stampAt (n : ℕ) : Stamp where
  proposeId := ⟨Fin.ofNat _ (4 * n + 1)⟩
  executeId := ⟨Fin.ofNat _ (4 * n + 2)⟩
  verifyId := ⟨Fin.ofNat _ (4 * n + 3)⟩
  resolveId := ⟨Fin.ofNat _ (4 * n + 4)⟩
  ts := noon
  hash := fun _ => []

/-- An outcome of the same question in the same domain, with its embedding. -/
def askedAgain (n : ℕ) (useful : Bool) : List LedgerRow :=
  (outcomeCycle .plain "agent-1" "query-1" "Churn by month" [(.str "domain_id", .str "sales")] [] true useful none
    (some [.finite false 1])).rows ⟨1⟩ (4 * n) (stampAt n)

/-- One answer was not useful, two were. -/
def mixedLedger : List LedgerRow := askedAgain 0 false ++ askedAgain 1 true ++ askedAgain 2 true

def mixedOutcomes : List Dict := [entryDict mixedLedger[1], entryDict mixedLedger[5], entryDict mixedLedger[9]]

/-- The similarity of vectors that are the same or not, in hundredths. -/
def percent (a b : List PyFloat) : ℕ := if a = b then 100 else 0

theorem exact_percent : Exact floatRows id percent percent where
  rows _ _ h := mapM_length h
  floats _ _ h _ := h
  same _ _ _ := rfl

def atNoon : ℕ → Occasion := fun n => ⟨noon, ⟨0⟩, .ok (stampAt (n + 3))⟩

def templatesAt85 : Compounding := outcomeToTemplate .plain id (clusterV2 .plain floatRows id percent 85)

theorem mixed_ids : (mixedLedger.map (·.entryId)).Nodup := by decide

theorem promotions_cite_mixed : (∀ r ∈ (templatesAt85.fire ⟨1⟩ (entryDict mixedLedger[9]) noon atNoon
      mixedLedger).2.drop mixedLedger.length,
      RowCites .plain "promoted_from_outcome_ids" (highQualityOutcomeTemplate .plain) 3 30 noon mixedLedger r) ↔
    ∀ cs, templatesAt85.clusters (entryDict mixedLedger[9]) noon mixedLedger = .ok cs →
      templatesAt85.Each ⟨1⟩ (fun o cluster rows => TemplateDue .plain id o cluster rows →
        EmbeddedPass (highQualityOutcomeTemplate .plain) cluster) atNoon cs mixedLedger :=
  (@promotions_cite_iff .plain id (List PyFloat) ℕ _ _ floatRows id percent percent 85 exact_percent ⟨1⟩
    (entryDict mixedLedger[9]) noon atNoon mixedLedger mixed_ids).1

theorem mixed_clusters : templatesAt85.clusters (entryDict mixedLedger[9]) noon mixedLedger =
    .ok [mixedOutcomes] := by
  have hquality : templatesAt85.qualityFilter (outcomeArgs (entryDict mixedLedger[9])) = .ok true := by
    decide +kernel
  rw [Compounding.clusters, hquality]
  rfl

theorem mixed_due : TemplateDue .plain id (atNoon 0) mixedOutcomes mixedLedger := by
  have hbest : (bestOf .plain (entryDict mixedLedger[1]) [entryDict mixedLedger[5], entryDict mixedLedger[9]]).isOk := by
    decide +kernel
  have hmean : meanQuality .plain mixedOutcomes = .ok "0.7333" := by decide +kernel
  refine ⟨by decide, ?_, ⟨stampAt 3, rfl⟩⟩
  cases hb : bestOf .plain (entryDict mixedLedger[1]) [entryDict mixedLedger[5], entryDict mixedLedger[9]] with
  | error e => rw [hb] at hbest; cases hbest
  | ok best => exact ⟨_, _, best, _, rfl, by decide, by decide, hb, hmean⟩

theorem mixedLedger_cites_worse : ¬∀ r ∈ (templatesAt85.fire ⟨1⟩ (entryDict mixedLedger[9]) noon atNoon
    mixedLedger).2.drop mixedLedger.length,
    RowCites .plain "promoted_from_outcome_ids" (highQualityOutcomeTemplate .plain) 3 30 noon mixedLedger r := by
  intro hall
  have heach := ((outcomeToTemplate_axis _).fire_iff exact_percent templateDue_iff ⟨1⟩ (entryDict mixedLedger[9])
    noon atNoon mixed_ids).mp hall _ mixed_clusters
  have hlow : highQualityOutcomeTemplate .plain (outcomeArgs (entryDict mixedLedger[1])) = .ok false := by
    decide +kernel
  cases hlow.symm.trans (heach.1 mixed_due _ List.mem_cons_self rfl)

end Gateway
