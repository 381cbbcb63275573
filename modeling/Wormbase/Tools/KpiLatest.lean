import Wormbase.Tools.Kpis
import Mathlib.Data.Int.Notation
import Mathlib.Order.WithBot

/-! Which artifact gives a KPI its value.

    The fold compares `computed_at` as text. The latest artifact is that of the latest instant, and of those
    as late the one whose entry comes last. The fold shows it exactly when it has the greatest text among the
    artifacts that feed the KPI, with or without a value, and no later place in the dict has the same text. -/

namespace Tools
open Py

namespace KpiFold

/-! ### What a snapshot holds -/

/-- The instant of a text in microseconds; a text that is no aware time is before every instant. -/
def momentOf (text : String) : WithBot ℤ :=
  match fromisoformat text.toList with
  | some t =>
    match t.utcoffset with
    | some o => ((t.wall : ℤ) - o : ℤ)
    | none => ⊥
  | none => ⊥

def Gold.moment (gold : Gold) : WithBot ℤ := momentOf gold.computedAt

def Gold.valued (gold : Gold) : Bool :=
  match gold.value with
  | .none => false
  | _ => true

/-- The artifacts that no later entry overwrites, in the order of their entries. -/
def current : List Gold → List Gold
  | [] => []
  | g :: gs => if g.goldId ∈ gs.map Gold.goldId then current gs else g :: current gs

/-- The artifacts of kind kpi with a value whose source is one of a KPI's sources. -/
def candidates (golds : List Gold) (sources : List Val) : List Gold :=
  (current golds).filter fun g => g.feeds sources && g.valued

/-- Where the id of an artifact comes up first. -/
def place (golds : List Gold) (goldId : String) : ℕ := (golds.map Gold.goldId).idxOf goldId

section
variable (py : Interp)

def goldsOf (rows : List Dict) : List Gold := rows.filterMap (goldOf py)

/-- The id of a KPI that an entry is about, and the sources that it names. -/
def kpiRow (entry : Dict) : Option (Val × Except Err (Option (List Val))) :=
  let args := payloadArgs entry
  if runs entry "emit_kpi_node" then
    if (args.get "id").truthy then some (args.get "id", nodeSources args) else none
  else if runs entry "emit_kpi_proposed" then
    if (args.get "kpi_id").truthy then some (.str (strOf py (args.get "kpi_id")), proposedSources py args) else none
  else none

def kpiKey (entry : Dict) : Option Key := (kpiRow py entry).bind fun row => row.1.hash.toOption

def namedSources (entry : Dict) : Option (List Val) := (kpiRow py entry).bind fun row => row.2.toOption.join

/-- The sources of a KPI are the ones that were named last. -/
def sourcesOf (rows : List Dict) (key : Key) : List Val :=
  ((rows.filter fun e => kpiKey py e = some key).filterMap (namedSources py)).getLastD []

/-- A KPI's id can be a key and its sources can be listed, as for an entry that its payload model admits. -/
def Reads (entry : Dict) : Prop :=
  ∀ row, kpiRow py entry = some row → (∃ key, row.1.hash = .ok key) ∧ ∃ given, row.2 = .ok given

/-- A KPI has the value of the latest artifact that feeds it and names the entry of it, or no value. -/
def KpiNode.Shows (golds : List Gold) (kpi : KpiNode) : Prop :=
  (∀ gold, Recent.Latest Gold.moment (candidates golds kpi.sourceIds) gold →
      normalizeValue py gold.value = .ok kpi.value ∧ gold.entryId ∈ kpi.contributingEntryIds) ∧
    (candidates golds kpi.sourceIds = [] → kpi.value = .none)

end

/-- The latest artifact has the better text of each of the others that feed the KPI: a greater one, or the
    same and an id that came up later. -/
def TextFollows (golds : List Gold) (sources : List Val) : Prop :=
  ∀ gold, Recent.Latest Gold.moment (candidates golds sources) gold →
    ∀ rival ∈ current golds, rival.feeds sources = true → rival ≠ gold → rival.computedAt < gold.computedAt ∨
      rival.computedAt = gold.computedAt ∧ place golds rival.goldId < place golds gold.goldId

/-- What `json.loads` may give. -/
structure IsJson (v : Val) : Prop where
  column : ∃ w, jsonColumn v = .ok w
  encodes : ∃ j, encode v = .ok j

/-- The entries of a ledger as they are read from its snapshot. -/
structure Snapshot (py : Interp) where
  rows : List Dict
  nodup : (rows.map (entryId py)).Nodup
  named : ∀ e ∈ rows, entryId py e ≠ ""
  json : ∀ e ∈ rows, IsJson (e.get "payload")

/-! ### JSON values -/

theorem isJson_none : IsJson .none := ⟨⟨_, rfl⟩, ⟨_, rfl⟩⟩

theorem IsJson.get {d : Dict} (h : IsJson (.dict d)) (name : String) : IsJson (d.get name) := by
  obtain ⟨⟨w, hw⟩, ⟨j, hj⟩⟩ := h
  rw [Dict.get, Dict.get?]
  cases hfind : d.find? fun p => p.1 = .str name with
  | none => exact isJson_none
  | some p =>
    have hp := List.mem_of_find?_eq_some hfind
    simp only [jsonColumn, bind_eq_ok] at hw
    obtain ⟨ps, hps, -⟩ := hw
    exact ⟨⟨_, (columnItems_ok hps).2 p hp⟩, ⟨_, ((encode_dict_iff.mp hj).2.1 p hp).2⟩⟩

theorem IsJson.args {entry : Dict} (h : IsJson (entry.get "payload")) : IsJson (.dict (payloadArgs entry)) := by
  have hempty : IsJson (.dict []) := ⟨⟨_, rfl⟩, ⟨_, rfl⟩⟩
  rw [payloadArgs]
  split
  · rename_i payload hpayload
    rw [hpayload] at h
    have hargs := h.get "args"
    split
    · rename_i args heq
      rwa [heq] at hargs
    · exact hempty
  · exact hempty

variable {py : Interp}

theorem IsJson.sorted {v : Val} (h : IsJson v) : ∃ s, sortedJson v = .ok s := by
  obtain ⟨⟨w, hw⟩, ⟨j, hj⟩⟩ := h
  exact ⟨_, by rw [sortedJson, hw, hj]; rfl⟩

theorem IsJson.normalized {v : Val} (h : IsJson v) : ∃ w, normalizeValue py v = .ok w := by
  obtain ⟨s, hs⟩ := h.sorted
  have htext : (Val.str <$> sortedJson v : Except Err Val) = .ok (.str s) := by rw [hs]; rfl
  cases v with
  | dict fields =>
    simp only [normalizeValue]
    split
    · exact ⟨_, rfl⟩
    · split
      · split
        · exact ⟨_, rfl⟩
        · exact ⟨_, htext⟩
      · exact ⟨_, htext⟩
  | list xs => exact ⟨_, htext⟩
  | _ => simp [normalizeValue, isScalar]

/-! ### Artifacts -/

/-- The dict of artifacts after the entries that wrote `golds`. -/
def shelf (golds : List Gold) : Table Gold.goldId := golds.foldl Table.put .empty

theorem shelf_concat (golds : List Gold) (g : Gold) : shelf (golds ++ [g]) = (shelf golds).put g := by
  rw [shelf, List.foldl_append]; rfl

theorem mem_current_concat {x g : Gold} : ∀ {golds : List Gold},
    x ∈ current (golds ++ [g]) ↔ x = g ∨ x ∈ current golds ∧ x.goldId ≠ g.goldId
  | [] => by simp [current]
  | y :: golds => by
    rw [List.cons_append, current, current]
    by_cases hg : y.goldId = g.goldId
    · by_cases hy : y.goldId ∈ golds.map Gold.goldId
      · rw [if_pos (by simp [hg]), if_pos hy, mem_current_concat]
      · rw [if_pos (by simp [hg]), if_neg hy, mem_current_concat, List.mem_cons]
        refine or_congr_right ⟨fun h => ⟨.inr h.1, h.2⟩, fun h => ⟨h.1.resolve_left fun heq => ?_, h.2⟩⟩
        exact h.2 (heq ▸ hg)
    · by_cases hy : y.goldId ∈ golds.map Gold.goldId
      · rw [if_pos (by simpa [hg] using hy), if_pos hy, mem_current_concat]
      · rw [if_neg (by simpa [hg] using hy), if_neg hy, List.mem_cons, mem_current_concat, List.mem_cons]
        constructor
        · rintro (rfl | rfl | ⟨h, hne⟩)
          · exact .inr ⟨.inl rfl, hg⟩
          · exact .inl rfl
          · exact .inr ⟨.inr h, hne⟩
        · rintro (rfl | ⟨rfl | h, hne⟩)
          · exact .inr (.inl rfl)
          · exact .inl rfl
          · exact .inr (.inr ⟨h, hne⟩)

theorem mem_shelf {golds : List Gold} {x : Gold} : x ∈ (shelf golds).rows ↔ x ∈ current golds := by
  induction golds using List.reverseRecOn with
  | nil => exact Iff.rfl
  | append_singleton golds g ih => rw [shelf_concat, Table.mem_put, mem_current_concat, ih]

theorem mem_of_current {x : Gold} : ∀ {golds : List Gold}, x ∈ current golds → x ∈ golds
  | [], h => h
  | y :: golds, h => by
    rw [current] at h
    split at h
    · exact List.mem_cons_of_mem _ (mem_of_current h)
    · rcases List.mem_cons.mp h with rfl | h
      · exact List.mem_cons_self
      · exact List.mem_cons_of_mem _ (mem_of_current h)

theorem ids_put (t : Table Gold.goldId) (g : Gold) : (t.put g).rows.map Gold.goldId =
    if g.goldId ∈ t.rows.map Gold.goldId then t.rows.map Gold.goldId else t.rows.map Gold.goldId ++ [g.goldId] :=
  Table.keys_putRow g t.rows

theorem mem_shelf_ids {golds : List Gold} {i : String} :
    i ∈ (shelf golds).rows.map Gold.goldId ↔ i ∈ golds.map Gold.goldId := by
  induction golds using List.reverseRecOn with
  | nil => exact Iff.rfl
  | append_singleton golds g ih =>
    rw [shelf_concat, ids_put, List.map_append, List.mem_append, ← ih]
    split
    · rename_i hmem
      exact ⟨.inl, fun h => h.elim id fun h => List.mem_singleton.mp h ▸ hmem⟩
    · exact List.mem_append

/-- The dict keeps the artifacts in the order in which their ids came up. -/
theorem shelf_places (golds : List Gold) :
    (shelf golds).rows.Pairwise fun g h => place golds g.goldId < place golds h.goldId := by
  suffices hkeys : ((shelf golds).rows.map Gold.goldId).Pairwise (fun i j => place golds i < place golds j) by
    exact (List.pairwise_map (R := fun i j => place golds i < place golds j)).mp hkeys
  induction golds using List.reverseRecOn with
  | nil => exact List.Pairwise.nil
  | append_singleton golds g ih =>
    have hsame : ∀ i ∈ (shelf golds).rows.map Gold.goldId, place (golds ++ [g]) i = place golds i := by
      intro i hi
      rw [place, List.map_append, List.idxOf_append_of_mem (mem_shelf_ids.mp hi), place]
    have ih' : ((shelf golds).rows.map Gold.goldId).Pairwise
        (fun i j => place (golds ++ [g]) i < place (golds ++ [g]) j) := by
      refine ih.imp_of_mem fun hi hj h => ?_
      rwa [hsame _ hi, hsame _ hj]
    rw [shelf_concat, ids_put]
    split
    · exact ih'
    · rename_i hnew
      refine List.pairwise_append.mpr ⟨ih', List.pairwise_singleton _ _, fun i hi j hj => ?_⟩
      obtain rfl := List.mem_singleton.mp hj
      rw [hsame i hi, place, place, List.map_append, List.idxOf_append_of_notMem fun h => hnew (mem_shelf_ids.mpr h)]
      exact (List.idxOf_lt_length_of_mem (mem_shelf_ids.mp hi)).trans_le (by simp)

/-! ### One KPI -/

variable {golds : List Gold} {sources : List Val} {kpi : KpiNode} {g gold : Gold}

theorem mem_candidates : g ∈ candidates golds sources ↔ g ∈ current golds ∧ g.feeds sources = true ∧ g.valued = true := by
  rw [candidates, List.mem_filter, Bool.and_eq_true]

theorem mem_feeding : g ∈ (shelf golds).rows.filter (Gold.feeds sources) ↔ g ∈ current golds ∧ g.feeds sources = true := by
  rw [List.mem_filter, mem_shelf]

theorem pick_eq_some_iff : pick (shelf golds).rows sources = some gold ↔
    (gold ∈ current golds ∧ gold.feeds sources = true) ∧ ∀ rival ∈ current golds, rival.feeds sources = true →
      rival ≠ gold → rival.computedAt < gold.computedAt ∨
        rival.computedAt = gold.computedAt ∧ place golds rival.goldId < place golds gold.goldId := by
  have hsorted := (shelf_places golds).filter (Gold.feeds sources)
  rw [pick, Recent.scan_eq_some_iff, Recent.latest_iff_of_pairwise (fun _ _ => lt_asymm) hsorted, mem_feeding]
  refine and_congr_right fun _ => ⟨fun h rival hrival hfeeds => h rival (mem_feeding.mpr ⟨hrival, hfeeds⟩), ?_⟩
  exact fun h rival hrival => h rival (mem_feeding.mp hrival).1 (mem_feeding.mp hrival).2

theorem textFollows_iff : TextFollows golds sources ↔
    ∀ gold, Recent.Latest Gold.moment (candidates golds sources) gold → pick (shelf golds).rows sources = some gold := by
  refine forall₂_congr fun gold hlatest => ?_
  obtain ⟨hmem, hfeeds, -⟩ := mem_candidates.mp hlatest.mem
  rw [pick_eq_some_iff]
  exact ⟨fun h => ⟨⟨hmem, hfeeds⟩, h⟩, fun h => h.2⟩

/-- What the entries guarantee of a KPI before it is resolved. -/
structure Plain (golds : List Gold) (kpi : KpiNode) : Prop where
  novalue : kpi.value = .none
  apart : ∀ g ∈ golds, g.entryId ∉ kpi.contributingEntryIds

variable (hentries : (golds.map Gold.entryId).Nodup) (hnamed : ∀ g ∈ golds, g.entryId ≠ "")
  (hjson : ∀ g ∈ golds, ∃ w, normalizeValue py g.value = .ok w) (hplain : Plain golds kpi)
include hplain in

/-- A KPI that is left as it was shows the latest artifact when there is none. -/
theorem shows_unresolved (hpick : ∀ gold, pick (shelf golds).rows kpi.sourceIds = some gold → gold.valued = false) :
    kpi.Shows py golds ↔ TextFollows golds kpi.sourceIds := by
  rw [textFollows_iff]
  constructor
  · intro h gold hlatest
    exact absurd (h.1 gold hlatest).2 (hplain.apart gold (mem_of_current (mem_candidates.mp hlatest.mem).1))
  · refine fun h => ⟨fun gold hlatest => ?_, fun _ => hplain.novalue⟩
    have hvalued := (mem_candidates.mp hlatest.mem).2.2
    rw [hpick gold (h gold hlatest)] at hvalued
    exact nomatch hvalued

include hentries hnamed hjson hplain in
/-- The second loop gives a KPI the latest artifact exactly when the texts follow the instants. -/
theorem resolve_shows : ∃ kpi', kpi.resolve py (shelf golds).rows = .ok kpi' ∧ kpi'.key = kpi.key ∧
    kpi'.sourceIds = kpi.sourceIds ∧ (kpi'.Shows py golds ↔ TextFollows golds kpi.sourceIds) := by
  cases hpick : pick (shelf golds).rows kpi.sourceIds with
  | none =>
    refine ⟨kpi, by rw [KpiNode.resolve, hpick], rfl, rfl, shows_unresolved hplain fun gold h => ?_⟩
    rw [hpick] at h
    cases h
  | some p =>
    obtain ⟨⟨hp, hfeeds⟩, -⟩ := pick_eq_some_iff.mp hpick
    by_cases hvalue : p.value = .none
    · refine ⟨kpi, by rw [KpiNode.resolve, hpick]; simp only [hvalue], rfl, rfl, shows_unresolved hplain fun gold h => ?_⟩
      obtain rfl := Option.some.inj (hpick.symm.trans h)
      rw [Gold.valued, hvalue]
    · obtain ⟨v, hv⟩ := hjson p (mem_of_current hp)
      have hvalued : p.valued = true := by
        rw [Gold.valued]
        split
        · contradiction
        · rfl
      have hnew : p.entryId ∉ kpi.contributingEntryIds := hplain.apart p (mem_of_current hp)
      refine ⟨{ kpi with
        value := v
        valueSourceEntryId := some p.entryId
        contributingEntryIds := kpi.contributingEntryIds ++ [p.entryId] }, ?_, rfl, rfl, ?_⟩
      · simp only [KpiNode.resolve, hpick, hv, if_pos (And.intro (hnamed p (mem_of_current hp)) hnew)]
        rfl
      · rw [textFollows_iff]
        constructor
        · intro h gold hlatest
          have hmem := (mem_candidates.mp hlatest.mem).1
          rcases List.mem_append.mp (h.1 gold hlatest).2 with hold | hentry
          · exact absurd hold (hplain.apart gold (mem_of_current hmem))
          · rw [hpick, List.inj_on_of_nodup_map hentries (mem_of_current hmem) (mem_of_current hp)
              (List.mem_singleton.mp hentry)]
        · refine fun h => ⟨fun gold hlatest => ?_, fun hempty => ?_⟩
          · obtain rfl := Option.some.inj (hpick.symm.trans (h gold hlatest))
            exact ⟨hv, by simp⟩
          · have hmem := mem_candidates.mpr ⟨hp, hfeeds, hvalued⟩
            rw [hempty] at hmem
            exact absurd hmem List.not_mem_nil

/-! ### The first loop -/

variable {rows : List Dict} {e : Dict} {state state' : ProjectionState} {key : Key}

theorem runs_unique {tool tool' : String} (h : runs e tool = true) (hne : tool ≠ tool') : runs e tool' = false := by
  simp only [runs, Bool.and_eq_true, decide_eq_true_eq] at h
  simp [runs, h.2, hne]

/-- What a change to a KPI keeps and adds. -/
structure Renews (py : Interp) (entry : Dict) (given : Option (List Val)) (kpi kpi' : KpiNode) : Prop where
  id : kpi'.kpiId = kpi.kpiId
  sources : kpi'.sourceIds = given.getD kpi.sourceIds
  value : kpi'.value = kpi.value
  entries : kpi'.contributingEntryIds = kpi.contributingEntryIds ++ [entryId py entry]

/-- A change to a KPI by an entry that names its sources or fails to. -/
structure Changes (py : Interp) (entry : Dict) (given : Except Err (Option (List Val)))
    (change : KpiNode → Except Err KpiNode) : Prop where
  renews : ∀ l, given = .ok l → ∀ kpi, ∃ kpi', change kpi = .ok kpi' ∧ Renews py entry l kpi kpi'
  fails : ∀ x, given = .error x → ∀ kpi, change kpi = .error x

theorem changes_renode : Changes py e (nodeSources (payloadArgs e)) (KpiNode.renode py e) := by
  refine ⟨fun l hl kpi => ?_, fun x hx kpi => ?_⟩
  · rw [KpiNode.renode, hl]
    exact ⟨_, rfl, rfl, rfl, rfl, rfl⟩
  · rw [KpiNode.renode, hx]
    rfl

theorem changes_repropose : Changes py e (proposedSources py (payloadArgs e)) (KpiNode.repropose py e) := by
  refine ⟨fun l hl kpi => ?_, fun x hx kpi => ?_⟩
  · rw [KpiNode.repropose, hl]
    exact ⟨_, rfl, rfl, rfl, rfl, rfl⟩
  · rw [KpiNode.repropose, hx]
    rfl

/-- An entry is about one KPI or about one artifact, or it is passed over. -/
theorem apply_cases (py : Interp) (state : ProjectionState) (e : Dict) :
    (∃ id given change, kpiRow py e = some (id, given) ∧ goldOf py e = none ∧
      state.apply py e = state.changeKpi id change ∧ Changes py e given change) ∨
    (kpiRow py e = none ∧ ∃ gold, goldOf py e = some gold ∧
      state.apply py e = .ok { state with goldArtifacts := state.goldArtifacts.put gold }) ∨
    (kpiRow py e = none ∧ goldOf py e = none ∧ state.apply py e = .ok state) := by
  by_cases hnode : runs e "emit_kpi_node" = true
  · have hgolded : runs e "emit_source_golded" = false := runs_unique hnode (by decide)
    have hgold : goldOf py e = none := by simp [goldOf, hgolded]
    by_cases hid : ((payloadArgs e).get "id").truthy = true
    · exact .inl ⟨(payloadArgs e).get "id", _, _, by simp [kpiRow, hnode, hid], hgold, by simp [ProjectionState.apply, hnode, hid],
        changes_renode⟩
    · exact .inr (.inr ⟨by simp [kpiRow, hnode, hid], hgold, by simp [ProjectionState.apply, hnode, hid]⟩)
  · by_cases hproposed : runs e "emit_kpi_proposed" = true
    · have hgolded : runs e "emit_source_golded" = false := runs_unique hproposed (by decide)
      have hgold : goldOf py e = none := by simp [goldOf, hgolded]
      by_cases hid : ((payloadArgs e).get "kpi_id").truthy = true
      · exact .inl ⟨.str (strOf py ((payloadArgs e).get "kpi_id")), _, _, by simp [kpiRow, hnode, hproposed, hid], hgold,
          by simp [ProjectionState.apply, hnode, hproposed, hid], changes_repropose⟩
      · exact .inr (.inr ⟨by simp [kpiRow, hnode, hproposed, hid], hgold,
          by simp [ProjectionState.apply, hnode, hproposed, hid]⟩)
    · have hrow : kpiRow py e = none := by simp [kpiRow, hnode, hproposed]
      cases hgold : goldOf py e with
      | some gold => exact .inr (.inl ⟨hrow, gold, rfl, by simp [ProjectionState.apply, hnode, hproposed, hgold]⟩)
      | none => exact .inr (.inr ⟨hrow, rfl, by simp [ProjectionState.apply, hnode, hproposed, hgold]⟩)

theorem keyOf_of_hash {v : Val} (h : v.hash = .ok key) : v.keyOf = key := by rw [Val.keyOf, h]; rfl

/-- An entry that the loop takes can be read. -/
theorem reads_of_apply (h : state.apply py e = .ok state') : Reads py e := by
  rintro ⟨id, given⟩ hrow
  rcases apply_cases py state e with ⟨id', given', change, hrow', -, happly, hchange⟩ | ⟨hrow', -⟩ | ⟨hrow', -⟩
  · obtain ⟨rfl, rfl⟩ := Prod.ext_iff.mp (Option.some.inj (hrow.symm.trans hrow'))
    rw [happly, ProjectionState.changeKpi, bind_eq_ok] at h
    obtain ⟨key, hkey, h⟩ := h
    refine ⟨⟨key, hkey⟩, ?_⟩
    cases hgiven : given with
    | ok l => exact ⟨l, rfl⟩
    | error x =>
      rw [hchange.fails x hgiven] at h
      exact nomatch h
  · exact nomatch hrow.symm.trans hrow'
  · exact nomatch hrow.symm.trans hrow'

theorem sourcesOf_concat : sourcesOf py (rows ++ [e]) key =
    if kpiKey py e = some key then (namedSources py e).getD (sourcesOf py rows key) else sourcesOf py rows key := by
  rw [sourcesOf, List.filter_append, List.filterMap_append]
  by_cases hkey : kpiKey py e = some key
  · rw [if_pos hkey]
    cases hgiven : namedSources py e with
    | some l => simp [hkey, hgiven]
    | none => simp [hkey, hgiven, sourcesOf]
  · simp [hkey, sourcesOf]

/-- What the first loop has collected of the entries it has read. -/
structure Collected (py : Interp) (rows : List Dict) (state : ProjectionState) : Prop where
  golds : state.goldArtifacts = shelf (goldsOf py rows)
  asked : ∀ e ∈ rows, ∀ key, kpiKey py e = some key → ∃ kpi ∈ state.kpis.rows, kpi.key = key
  known : ∀ kpi ∈ state.kpis.rows, ∃ e ∈ rows, kpiKey py e = some kpi.key
  sources : ∀ kpi ∈ state.kpis.rows, kpi.sourceIds = sourcesOf py rows kpi.key
  novalue : ∀ kpi ∈ state.kpis.rows, kpi.value = .none
  entries : ∀ kpi ∈ state.kpis.rows, ∀ id ∈ kpi.contributingEntryIds,
    ∃ e ∈ rows, (kpiRow py e).isSome = true ∧ entryId py e = id

theorem collected_nil : Collected py [] emptyState :=
  ⟨rfl, nofun, nofun, nofun, nofun, nofun⟩

theorem key_new (id : Val) : (KpiNode.new id).key = id.keyOf := rfl

/-- The node that a change starts from. -/
theorem existing_key {id : Val} (hkey : id.hash = .ok key) :
    ((state.kpis.get? key).getD (KpiNode.new id)).key = key := by
  cases hget : state.kpis.get? key with
  | none => exact keyOf_of_hash hkey
  | some kpi => exact (Table.get?_eq_some_iff.mp hget).2

theorem existing_sources {id : Val} (h : Collected py rows state) (hkey : id.hash = .ok key) :
    ((state.kpis.get? key).getD (KpiNode.new id)).sourceIds = sourcesOf py rows key := by
  cases hget : state.kpis.get? key with
  | some kpi =>
    obtain ⟨hmem, rfl⟩ := Table.get?_eq_some_iff.mp hget
    exact h.sources kpi hmem
  | none =>
    have hnone : rows.filter (fun e => kpiKey py e = some key) = [] := by
      refine List.filter_eq_nil_iff.mpr fun e he hkeyed => ?_
      obtain ⟨kpi, hkpi, hk⟩ := h.asked e he key (by simpa using hkeyed)
      exact Table.get?_eq_none_iff.mp hget kpi hkpi hk
    rw [sourcesOf, hnone]
    rfl

theorem existing_forall {P : KpiNode → Prop} {id : Val} (hall : ∀ kpi ∈ state.kpis.rows, P kpi)
    (hnew : P (KpiNode.new id)) : P ((state.kpis.get? key).getD (KpiNode.new id)) := by
  cases hget : state.kpis.get? key with
  | none => exact hnew
  | some kpi => exact hall kpi (Table.get?_eq_some_iff.mp hget).1

theorem Collected.about (h : Collected py rows state) (hreads : Reads py e) {id : Val}
    {given : Except Err (Option (List Val))} {change : KpiNode → Except Err KpiNode}
    (hrow : kpiRow py e = some (id, given)) (hgold : goldOf py e = none) (hchange : Changes py e given change) :
    ∃ state', state.changeKpi id change = .ok state' ∧ Collected py (rows ++ [e]) state' := by
  obtain ⟨⟨key, hkey⟩, l, hl⟩ := hreads _ hrow
  have hkeyed : kpiKey py e = some key := by rw [kpiKey, hrow, Option.bind_some, hkey]; rfl
  have hnamed : namedSources py e = l := by
    rw [namedSources, hrow, Option.bind_some, show given = .ok l from hl]
    exact Option.join_some
  obtain ⟨kpi', hkpi', hrenews⟩ := hchange.renews l hl ((state.kpis.get? key).getD (KpiNode.new id))
  have hkey' : kpi'.key = key := by rw [KpiNode.key, hrenews.id]; exact existing_key hkey
  refine ⟨{ state with kpis := state.kpis.put kpi' }, ?_, ?_⟩
  · rw [ProjectionState.changeKpi, show id.hash = .ok key from hkey]
    simp only [bind, Except.bind, hkpi']
    rfl
  · have hput : ∀ {kpi}, kpi ∈ (state.kpis.put kpi').rows ↔ kpi = kpi' ∨ kpi ∈ state.kpis.rows ∧ kpi.key ≠ key :=
      hkey' ▸ Table.mem_put
    constructor
    · rw [h.golds, goldsOf, goldsOf, List.filterMap_append, List.filterMap_cons_none hgold, List.filterMap_nil,
        List.append_nil]
    · intro e' he' key' hkeyed'
      rcases eq_or_ne key' key with rfl | hne
      · exact ⟨kpi', hput.mpr (.inl rfl), hkey'⟩
      · rcases List.mem_append.mp he' with he' | he'
        · obtain ⟨kpi, hkpi, hk⟩ := h.asked e' he' key' hkeyed'
          exact ⟨kpi, hput.mpr (.inr ⟨hkpi, hk ▸ hne⟩), hk⟩
        · rw [List.mem_singleton.mp he', hkeyed] at hkeyed'
          exact absurd (Option.some.inj hkeyed').symm hne
    · intro kpi hkpi
      rcases hput.mp hkpi with rfl | ⟨hkpi, -⟩
      · exact ⟨e, by simp, hkey' ▸ hkeyed⟩
      · obtain ⟨e', he', hk⟩ := h.known kpi hkpi
        exact ⟨e', List.mem_append_left _ he', hk⟩
    · intro kpi hkpi
      rw [sourcesOf_concat]
      rcases hput.mp hkpi with rfl | ⟨hkpi, hne⟩
      · rw [hkey', if_pos hkeyed, hnamed, hrenews.sources, existing_sources h hkey]
      · rw [if_neg fun heq => hne (Option.some.inj (heq.symm.trans hkeyed)), h.sources kpi hkpi]
    · intro kpi hkpi
      rcases hput.mp hkpi with rfl | ⟨hkpi, -⟩
      · rw [hrenews.value]
        exact existing_forall h.novalue rfl
      · exact h.novalue kpi hkpi
    · intro kpi hkpi id hid
      have hold : ∀ kpi : KpiNode, (∀ id ∈ kpi.contributingEntryIds, ∃ e' ∈ rows, (kpiRow py e').isSome = true ∧ entryId py e' = id) →
          id ∈ kpi.contributingEntryIds → ∃ e' ∈ rows ++ [e], (kpiRow py e').isSome = true ∧ entryId py e' = id := by
        intro kpi hall hid
        obtain ⟨e', he', hsome⟩ := hall id hid
        exact ⟨e', List.mem_append_left _ he', hsome⟩
      rcases hput.mp hkpi with rfl | ⟨hkpi, -⟩
      · rw [hrenews.entries] at hid
        rcases List.mem_append.mp hid with hid | hid
        · exact hold _ (existing_forall h.entries fun id hid => absurd hid List.not_mem_nil) hid
        · exact ⟨e, by simp, by rw [hrow]; rfl, (List.mem_singleton.mp hid).symm⟩
      · exact hold kpi (h.entries kpi hkpi) hid

/-- An entry that is not about a KPI. -/
theorem Collected.beside (h : Collected py rows state) (hrow : kpiRow py e = none) {golds : Table Gold.goldId}
    (hgolds : golds = shelf (goldsOf py (rows ++ [e]))) : Collected py (rows ++ [e]) { state with goldArtifacts := golds } := by
  have hkeyed : kpiKey py e = none := by rw [kpiKey, hrow]; rfl
  constructor
  · exact hgolds
  · intro e' he' key' hkeyed'
    rcases List.mem_append.mp he' with he' | he'
    · exact h.asked e' he' key' hkeyed'
    · rw [List.mem_singleton.mp he', hkeyed] at hkeyed'
      exact nomatch hkeyed'
  · intro kpi hkpi
    obtain ⟨e', he', hk⟩ := h.known kpi hkpi
    exact ⟨e', List.mem_append_left _ he', hk⟩
  · intro kpi hkpi
    rw [sourcesOf_concat, hkeyed, if_neg nofun, h.sources kpi hkpi]
  · exact h.novalue
  · intro kpi hkpi id hid
    obtain ⟨e', he', hsome⟩ := h.entries kpi hkpi id hid
    exact ⟨e', List.mem_append_left _ he', hsome⟩

theorem Collected.concat (h : Collected py rows state) (hreads : Reads py e) :
    ∃ state', state.apply py e = .ok state' ∧ Collected py (rows ++ [e]) state' := by
  rcases apply_cases py state e with
    ⟨id, given, change, hrow, hgold, happly, hchange⟩ | ⟨hrow, gold, hgold, happly⟩ | ⟨hrow, hgold, happly⟩
  · rw [happly]
    exact h.about hreads hrow hgold hchange
  · refine ⟨_, happly, h.beside hrow ?_⟩
    rw [h.golds, goldsOf, goldsOf, List.filterMap_append, List.filterMap_cons_some hgold, List.filterMap_nil, shelf_concat]
  · refine ⟨state, happly, h.beside hrow ?_⟩
    rw [h.golds, goldsOf, goldsOf, List.filterMap_append, List.filterMap_cons_none hgold, List.filterMap_nil,
      List.append_nil]

/-- The first loop reads a snapshot to its end when every entry can be read. -/
theorem first_loop (hreads : ∀ e ∈ rows, Reads py e) :
    ∃ state, rows.foldlM (ProjectionState.apply py) emptyState = .ok state ∧ Collected py rows state := by
  induction rows using List.reverseRecOn with
  | nil => exact ⟨emptyState, rfl, collected_nil⟩
  | append_singleton rows e ih =>
    obtain ⟨state, hstate, h⟩ := ih fun e he => hreads e (List.mem_append_left _ he)
    obtain ⟨state', happly, h'⟩ := h.concat (hreads e (by simp))
    refine ⟨state', ?_, h'⟩
    rw [List.foldlM_append, hstate]
    simp only [bind, Except.bind, List.foldlM_cons, List.foldlM_nil, happly]
    rfl

theorem reads_of_first_loop : ∀ {rows : List Dict} {state state' : ProjectionState},
    rows.foldlM (ProjectionState.apply py) state = .ok state' → ∀ e ∈ rows, Reads py e
  | [], _, _, _ => nofun
  | e :: rows, state, state', h => by
    rw [List.foldlM_cons, bind_eq_ok] at h
    obtain ⟨next, hnext, h⟩ := h
    exact List.forall_mem_cons.mpr ⟨reads_of_apply hnext, reads_of_first_loop h⟩

/-! ### The second loop -/

/-- Every row of `kpis` in turn is put back after a change that keeps its key. -/
theorem put_each {f : KpiNode → Except Err KpiNode} : ∀ {kpis : List KpiNode} {t : Table KpiNode.key},
    (kpis.map KpiNode.key).Nodup → (∀ kpi ∈ kpis, ∃ kpi', f kpi = .ok kpi' ∧ kpi'.key = kpi.key) →
      ∃ t', kpis.foldlM (fun t kpi => do return Table.put t (← f kpi)) t = .ok t' ∧
        ∀ kpi', kpi' ∈ t'.rows ↔ (∃ kpi ∈ kpis, f kpi = .ok kpi') ∨ kpi' ∈ t.rows ∧ kpi'.key ∉ kpis.map KpiNode.key
  | [], t, _, _ => ⟨t, rfl, by simp⟩
  | kpi :: kpis, t, hnodup, hf => by
    obtain ⟨hfresh, hnodup⟩ := List.nodup_cons.mp hnodup
    obtain ⟨⟨kpi₁, hkpi₁, hkey⟩, hf⟩ := List.forall_mem_cons.mp hf
    obtain ⟨t', ht', hmem⟩ := put_each (t := t.put kpi₁) hnodup hf
    refine ⟨t', ?_, fun kpi' => ?_⟩
    · rw [List.foldlM_cons, hkpi₁]
      exact ht'
    · rw [hmem, Table.mem_put, List.map_cons, List.mem_cons, not_or, List.exists_mem_cons_iff]
      constructor
      · rintro (h | ⟨rfl | ⟨h, hne⟩, hrest⟩)
        · exact .inl (.inr h)
        · exact .inl (.inl hkpi₁)
        · exact .inr ⟨h, hkey ▸ hne, hrest⟩
      · rintro ((h | h) | ⟨h, hne, hrest⟩)
        · obtain rfl := Except.ok.inj (hkpi₁.symm.trans h)
          exact .inr ⟨.inl rfl, hkey ▸ hfresh⟩
        · exact .inl h
        · exact .inr ⟨.inr ⟨h, hkey ▸ hne⟩, hrest⟩

/-! ### A snapshot -/

theorem goldOf_entry (h : goldOf py e = some gold) : gold.entryId = entryId py e ∧
    gold.value = (payloadArgs e).get "value" ∧ runs e "emit_source_golded" = true := by
  rw [goldOf] at h
  split at h
  · rename_i hruns
    obtain rfl := Option.some.inj h
    exact ⟨rfl, rfl, hruns.1⟩
  · exact nomatch h

theorem mem_goldsOf : g ∈ goldsOf py rows ↔ ∃ e ∈ rows, goldOf py e = some g := List.mem_filterMap

/-- No entry is about a KPI and an artifact. -/
theorem goldOf_of_kpiRow (h : (kpiRow py e).isSome = true) : goldOf py e = none := by
  rcases apply_cases py emptyState e with ⟨_, _, _, -, hgold, -⟩ | ⟨hrow, -⟩ | ⟨hrow, -⟩
  · exact hgold
  · rw [hrow] at h
    exact nomatch h
  · rw [hrow] at h
    exact nomatch h

theorem Snapshot.gold_entries (snap : Snapshot py) : ((goldsOf py snap.rows).map Gold.entryId).Nodup := by
  have hsub : ∀ rows : List Dict, ((goldsOf py rows).map Gold.entryId).Sublist (rows.map (entryId py)) := by
    intro rows
    induction rows with
    | nil => exact List.Sublist.slnil
    | cons e rows ih =>
      rw [goldsOf, List.map_cons]
      cases hgold : goldOf py e with
      | none => rw [List.filterMap_cons_none hgold]; exact ih.cons _
      | some gold =>
        rw [List.filterMap_cons_some hgold, List.map_cons, (goldOf_entry hgold).1]
        exact ih.cons_cons _
  exact (hsub snap.rows).nodup snap.nodup

theorem Snapshot.gold_named (snap : Snapshot py) : ∀ g ∈ goldsOf py snap.rows, g.entryId ≠ "" := by
  intro g hg
  obtain ⟨e, he, hgold⟩ := mem_goldsOf.mp hg
  rw [(goldOf_entry hgold).1]
  exact snap.named e he

theorem Snapshot.gold_json (snap : Snapshot py) : ∀ g ∈ goldsOf py snap.rows, ∃ w, normalizeValue py g.value = .ok w := by
  intro g hg
  obtain ⟨e, he, hgold⟩ := mem_goldsOf.mp hg
  rw [(goldOf_entry hgold).2.1]
  exact ((snap.json e he).args.get "value").normalized

theorem Snapshot.plain (snap : Snapshot py) (h : Collected py snap.rows state) :
    ∀ kpi ∈ state.kpis.rows, Plain (goldsOf py snap.rows) kpi := by
  refine fun kpi hkpi => ⟨h.novalue kpi hkpi, fun g hg hentry => ?_⟩
  obtain ⟨e, he, hsome, hid⟩ := h.entries kpi hkpi _ hentry
  obtain ⟨e', he', hgold⟩ := mem_goldsOf.mp hg
  obtain rfl := List.inj_on_of_nodup_map snap.nodup he he' (hid.trans (goldOf_entry hgold).1)
  rw [goldOf_of_kpiRow hsome] at hgold
  exact nomatch hgold

/-- The fold of a snapshot that it reads: every KPI of it has been resolved. -/
theorem Snapshot.folds (snap : Snapshot py) (hreads : ∀ e ∈ snap.rows, Reads py e) :
    ∃ state, foldKpis py snap.rows = .ok state ∧
      (∀ kpi ∈ state.kpis.rows, ∃ e ∈ snap.rows, kpiKey py e = some kpi.key ∧
        (kpi.Shows py (goldsOf py snap.rows) ↔ TextFollows (goldsOf py snap.rows) (sourcesOf py snap.rows kpi.key))) ∧
      ∀ e ∈ snap.rows, ∀ key, kpiKey py e = some key → ∃ kpi ∈ state.kpis.rows, kpi.key = key := by
  obtain ⟨state, hstate, h⟩ := first_loop hreads
  have hresolve : ∀ kpi ∈ state.kpis.rows, ∃ kpi', kpi.resolve py state.goldArtifacts.rows = .ok kpi' ∧ kpi'.key = kpi.key ∧
      kpi'.sourceIds = kpi.sourceIds ∧
      (kpi'.Shows py (goldsOf py snap.rows) ↔ TextFollows (goldsOf py snap.rows) kpi.sourceIds) := by
    intro kpi hkpi
    rw [h.golds]
    exact resolve_shows snap.gold_entries snap.gold_named snap.gold_json (snap.plain h kpi hkpi)
  obtain ⟨kpis, hkpis, hmem⟩ := put_each (t := state.kpis) state.kpis.nodup fun kpi hkpi =>
    (hresolve kpi hkpi).imp fun _ hkpi' => ⟨hkpi'.1, hkpi'.2.1⟩
  refine ⟨{ state with kpis }, ?_, fun kpi' hkpi' => ?_, fun e he key hkey => ?_⟩
  · rw [foldKpis, hstate]
    simp only [bind, Except.bind] at hkpis ⊢
    rw [hkpis]
    rfl
  · rcases (hmem kpi').mp hkpi' with ⟨kpi, hkpi, hok⟩ | ⟨hold, hfresh⟩
    · obtain ⟨kpi₁, hok₁, hkey, -, hshows⟩ := hresolve kpi hkpi
      obtain rfl := Except.ok.inj (hok₁.symm.trans hok)
      obtain ⟨e, he, hkeyed⟩ := h.known kpi hkpi
      refine ⟨e, he, hkey ▸ hkeyed, ?_⟩
      rw [hshows, h.sources kpi hkpi, hkey]
    · exact absurd (List.mem_map_of_mem hold) hfresh
  · obtain ⟨kpi, hkpi, rfl⟩ := h.asked e he key hkey
    obtain ⟨kpi', hok, hkey', -⟩ := hresolve kpi hkpi
    exact ⟨kpi', (hmem kpi').mpr (.inl ⟨kpi, hkpi, hok⟩), hkey'⟩

theorem reads_of_fold (h : foldKpis py rows = .ok state) : ∀ e ∈ rows, Reads py e := by
  rw [foldKpis, bind_eq_ok] at h
  obtain ⟨_, hloop, -⟩ := h
  exact reads_of_first_loop hloop

/-- The fold shows the latest artifact of every KPI exactly when every entry can be read and the texts of
    each KPI's artifacts follow the instants. -/
theorem kpis_latest_iff (snap : Snapshot py) :
    (∃ state, foldKpis py snap.rows = .ok state ∧ ∀ kpi ∈ state.kpis.rows, kpi.Shows py (goldsOf py snap.rows)) ↔
      ∀ e ∈ snap.rows, Reads py e ∧
        ∀ key, kpiKey py e = some key → TextFollows (goldsOf py snap.rows) (sourcesOf py snap.rows key) := by
  constructor
  · rintro ⟨state, hstate, hall⟩ e he
    have hreads := reads_of_fold hstate
    obtain ⟨state', hstate', hshows, hasked⟩ := snap.folds hreads
    obtain rfl := Except.ok.inj (hstate.symm.trans hstate')
    refine ⟨hreads e he, fun key hkey => ?_⟩
    obtain ⟨kpi, hkpi, rfl⟩ := hasked e he key hkey
    obtain ⟨_, -, -, hiff⟩ := hshows kpi hkpi
    exact hiff.mp (hall kpi hkpi)
  · intro h
    obtain ⟨state, hstate, hshows, -⟩ := snap.folds fun e he => (h e he).1
    refine ⟨state, hstate, fun kpi hkpi => ?_⟩
    obtain ⟨e, he, hkey, hiff⟩ := hshows kpi hkpi
    exact hiff.mpr ((h e he).2 kpi.key hkey)

/-! ### Two renderings -/

def sampleId (last : String) : String := s!"00000000-0000-4000-8000-0000000000{last}"

def sampleEntry (entryId tool : String) (args : Dict) : Dict :=
  [(.str "entry_id", .str entryId), (.str "kind", .str "execute"),
    (.str "payload", .dict [(.str "tool", .str tool), (.str "args", .dict args)])]

def sampleGolded (goldId computedAt : String) (n : ℤ) : Dict :=
  [(.str "gold_artifact_id", .str goldId), (.str "source_id", .str (sampleId "01")), (.str "artifact_kind", .str "kpi"),
    (.str "value", .dict [(.str "value", .int n)]), (.str "computed_at", .str computedAt)]

/-- A KPI and two values for it, the second half a second later. -/
def sampleRows : List Dict :=
  [sampleEntry (sampleId "e1") "emit_kpi_proposed" [(.str "kpi_id", .str (sampleId "02")), (.str "label", .str "Revenue"),
      (.str "formula", .str "sum(revenue)"), (.str "unit", .str "USD"), (.str "source_ids", .list [.str (sampleId "01")]),
      (.str "proposed_at", .str "2026-01-01T09:00:00Z")],
    sampleEntry (sampleId "e2") "emit_source_golded"
      (sampleGolded (sampleId "03") "2026-01-01T10:00:00Z" 1),
    sampleEntry (sampleId "e3") "emit_source_golded"
      (sampleGolded (sampleId "04") "2026-01-01T10:00:00.500000Z" 2)]

def sampleGold (goldId computedAt entryId : String) (n : ℤ) : Gold where
  goldId
  value := .dict [(.str "value", .int n)]
  artifactKind := .str "kpi"
  computedAt
  sourceId := sampleId "01"
  entryId

def earlier : Gold := sampleGold (sampleId "03") "2026-01-01T10:00:00Z" (sampleId "e2") 1
def later : Gold := sampleGold (sampleId "04") "2026-01-01T10:00:00.500000Z" (sampleId "e3") 2

def sampleSnapshot : Snapshot Interp.plain where
  rows := sampleRows
  nodup := by decide +kernel
  named := by decide +kernel
  json := by
    refine List.forall_mem_cons.mpr ⟨⟨⟨_, rfl⟩, ⟨_, rfl⟩⟩, List.forall_mem_cons.mpr ⟨⟨⟨_, rfl⟩, ⟨_, rfl⟩⟩, ?_⟩⟩
    exact List.forall_mem_singleton.mpr ⟨⟨_, rfl⟩, ⟨_, rfl⟩⟩

theorem sample_candidates : candidates [earlier, later] [.str (sampleId "01")] = [earlier, later] := rfl

/-- `.` comes before `Z`, so that half a second more is the smaller text. -/
theorem sample_not_follows : ¬TextFollows [earlier, later] [.str (sampleId "01")] := by
  intro h
  have hlatest : Recent.Latest Gold.moment (candidates [earlier, later] [.str (sampleId "01")]) later := by
    rw [sample_candidates]
    refine ⟨[earlier], [], rfl, ?_, nofun⟩
    rintro y hy
    obtain rfl := List.mem_singleton.mp hy
    exact show momentOf earlier.computedAt ≤ momentOf later.computedAt by decide +kernel
  have hne : earlier.computedAt ≠ later.computedAt := by decide
  rcases h later hlatest earlier List.mem_cons_self rfl (fun heq => hne (heq ▸ rfl)) with hlt | ⟨heq, -⟩
  · exact absurd hlt (by decide +kernel)
  · exact hne heq

/-- The later value is lost for the earlier one. -/
theorem fold_shows_older : ¬∀ snap : Snapshot Interp.plain, ∃ state, foldKpis Interp.plain snap.rows = .ok state ∧
    ∀ kpi ∈ state.kpis.rows, kpi.Shows Interp.plain (goldsOf Interp.plain snap.rows) := by
  intro h
  obtain ⟨state, hstate, hall⟩ := h sampleSnapshot
  obtain ⟨state', hstate', hshows, hasked⟩ := sampleSnapshot.folds (reads_of_fold hstate)
  obtain rfl := Except.ok.inj (hstate.symm.trans hstate')
  obtain ⟨kpi, hkpi, hkey⟩ := hasked _ List.mem_cons_self (.str (sampleId "02")) rfl
  obtain ⟨-, -, -, hiff⟩ := hshows kpi hkpi
  rw [hkey] at hiff
  exact sample_not_follows (hiff.mp (hall kpi hkpi))

end KpiFold

end Tools
