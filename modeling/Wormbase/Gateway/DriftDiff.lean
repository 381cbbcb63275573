import Wormbase.Gateway.CatalogDrift
import Mathlib.Data.List.Dedup
import Mathlib.Data.List.Nodup
import Mathlib.Data.List.Sort
import Mathlib.Logic.Function.Basic

/-! The three strategies together are a diff of two snapshots.

    What they propose is exactly what changed, each change once. So the proposals make the current snapshot
    of the baseline, and the other way round they are the same changes read backwards. -/

namespace CatalogDrift
open Py

/-! ### Patches -/

section
variable {κ β : Type} [DecidableEq κ]

/-- A map with values written over it, one after the other. -/
def patch (f : κ → β) (writes : List (κ × β)) : κ → β :=
  writes.foldl (fun f w => Function.update f w.1 w.2) f

/-- Where all writes at a key agree, the key has their value, or its own when there are none. -/
theorem patch_eq {k : κ} {v : β} : ∀ {writes : List (κ × β)} {f : κ → β}, (∀ w ∈ writes, w.1 = k → w.2 = v) →
    (f k = v ∨ ∃ w ∈ writes, w.1 = k) → patch f writes k = v
  | [], f, _, h => by
    rcases h with h | ⟨w, hw, -⟩
    · exact h
    · exact absurd hw List.not_mem_nil
  | w :: writes, f, hall, h => by
    obtain ⟨hw, hrest⟩ := List.forall_mem_cons.mp hall
    rw [patch, List.foldl_cons]
    refine patch_eq hrest ?_
    by_cases hk : w.1 = k
    · left
      rw [← hk, Function.update_self]
      exact hw hk
    · rw [Function.update_of_ne (Ne.symm hk)]
      refine h.imp_right ?_
      rintro ⟨w', hw', hk'⟩
      rcases List.mem_cons.mp hw' with rfl | hw'
      · exact absurd hk' hk
      · exact ⟨w', hw', hk'⟩

end

/-! ### Catalogs -/

/-- Which tables and columns there are, and the types that are known. -/
structure Catalog where
  table : String → Bool
  column : String × String → Bool
  type : String × String → Option String

def CatalogSnapshot.catalog (s : CatalogSnapshot) : Catalog where
  table := fun id => id ∈ s.ids
  column := fun p => (s.tableOf p.1).any fun t => p.2 ∈ t.names
  type := fun p => (s.tableOf p.1).bind fun t => t.typeOf p.2

/-- What a drift says of the tables, of the columns and of the types. -/
def Change.tableWrite (d : Change) : Option (String × Bool) :=
  match d.driftKind with
  | .tableAdded => some (d.tableId, true)
  | .tableRemoved => some (d.tableId, false)
  | _ => none

def Change.columnWrite (d : Change) : Option ((String × String) × Bool) :=
  match d.driftKind, d.column with
  | .columnAdded, some name => some ((d.tableId, name), true)
  | .columnRemoved, some name => some ((d.tableId, name), false)
  | _, _ => none

def Change.typeWrite (d : Change) : Option ((String × String) × Option String) :=
  match d.driftKind, d.column with
  | .columnTypeChanged, some name => some ((d.tableId, name), d.after.map Prod.snd)
  | _, _ => none

/-- The catalog after drifts. -/
def Catalog.after (c : Catalog) (ds : List Change) : Catalog where
  table := patch c.table (ds.filterMap Change.tableWrite)
  column := patch c.column (ds.filterMap Change.columnWrite)
  type := patch c.type (ds.filterMap Change.typeWrite)

/-- The same change seen from the other side. -/
def DriftKind.swap : DriftKind → DriftKind
  | tableAdded => tableRemoved
  | tableRemoved => tableAdded
  | columnAdded => columnRemoved
  | columnRemoved => columnAdded
  | columnTypeChanged => columnTypeChanged

def Change.swap (d : Change) : Change :=
  { d with driftKind := d.driftKind.swap, before := d.after, after := d.before }

/-- No table id twice, and no column name twice in a table. -/
structure CatalogSnapshot.Keyed (s : CatalogSnapshot) : Prop where
  ids : s.ids.Nodup
  names : ∀ t ∈ s.tables, t.names.Nodup

/-- What there is to propose between two snapshots. -/
inductive Changed (current baseline : CatalogSnapshot) : Change → Prop
  | tableAdded {id : String} : id ∈ current.ids → id ∉ baseline.ids → Changed current baseline (tableAdded id)
  | tableRemoved {id : String} : id ∈ baseline.ids → id ∉ current.ids → Changed current baseline (tableRemoved id)
  | columnAdded {cur base : CatalogTable} {name : String} : cur ∈ current.tables → base ∈ baseline.tables →
      base.tableId = cur.tableId → name ∈ cur.names → name ∉ base.names →
      Changed current baseline (columnAdded cur.tableId name)
  | columnRemoved {cur base : CatalogTable} {name : String} : cur ∈ current.tables → base ∈ baseline.tables →
      base.tableId = cur.tableId → name ∈ base.names → name ∉ cur.names →
      Changed current baseline (columnRemoved cur.tableId name)
  | typeChanged {cur base : CatalogTable} {name old new : String} : cur ∈ current.tables → base ∈ baseline.tables →
      base.tableId = cur.tableId → base.typeOf name = some old → cur.typeOf name = some new → old ≠ new →
      Changed current baseline (typeChanged cur.tableId name old new)

section
variable (py : Interp)

/-- The confidences that the strategies are given. -/
structure Confidences where
  tableSet : PyFloat
  columnSet : PyFloat
  columnType : PyFloat

/-- The three strategies together. -/
def drifts (conf : Confidences) (current baseline : CatalogSnapshot) : List ProposedCatalogDrift :=
  tableSet py conf.tableSet current (some baseline) ++ columnSet py conf.columnSet current (some baseline) ++
    columnType py conf.columnType current (some baseline)

/-- The drifts between two snapshots lead from the one to the other, tell of changes only, and are the
    same changes both ways. -/
structure CorrectDiff (conf : Confidences) (current baseline : CatalogSnapshot) : Prop where
  tables : ∀ id, (baseline.catalog.after ((drifts py conf current baseline).map (·.change))).table id =
    current.catalog.table id
  columns : ∀ id, id ∈ current.ids → id ∈ baseline.ids → ∀ name,
    (baseline.catalog.after ((drifts py conf current baseline).map (·.change))).column (id, name) =
      current.catalog.column (id, name)
  types : ∀ p old new, baseline.catalog.type p = some old → current.catalog.type p = some new →
    (baseline.catalog.after ((drifts py conf current baseline).map (·.change))).type p = some new
  changed : ∀ d ∈ drifts py conf current baseline, d.sourceId = current.sourceId ∧ Changed current baseline d.change
  swapped : ((drifts py conf baseline current).map (·.change)).Perm
    ((drifts py conf current baseline).map fun d => d.change.swap)

end

/-! ### Look-ups -/

theorem mem_sortedDiff {x : String} {xs ys : List String} : x ∈ sortedDiff xs ys ↔ x ∈ xs ∧ x ∉ ys := by
  rw [sortedDiff, List.mem_mergeSort, List.mem_dedup, List.mem_filter, decide_eq_true_iff]

theorem nodup_sortedDiff (xs ys : List String) : (sortedDiff xs ys).Nodup :=
  (List.mergeSort_perm _ _).nodup_iff.mpr (List.nodup_dedup _)

/-- Among items with distinct keys a search from the end finds the one of its key. -/
theorem find_reverse_iff {α : Type} {key : α → String} {xs : List α} (hxs : (xs.map key).Nodup) {k : String} {a : α} :
    (xs.reverse.find? fun x => key x = k) = some a ↔ a ∈ xs ∧ key a = k := by
  constructor
  · intro h
    have hkey : key a = k := by simpa using List.find?_some h
    exact ⟨List.mem_reverse.mp (List.mem_of_find?_eq_some h), hkey⟩
  · rintro ⟨ha, rfl⟩
    have hsome : (xs.reverse.find? fun x => key x = key a).isSome := by
      rw [List.find?_isSome]
      exact ⟨a, List.mem_reverse.mpr ha, decide_eq_true rfl⟩
    obtain ⟨b, hb⟩ := Option.isSome_iff_exists.mp hsome
    have hkey : key b = key a := by simpa using List.find?_some hb
    have hmem : b ∈ xs := List.mem_reverse.mp (List.mem_of_find?_eq_some hb)
    rw [hb, List.inj_on_of_nodup_map hxs hmem ha hkey]

theorem CatalogSnapshot.Keyed.tableOf_iff {s : CatalogSnapshot} (h : s.Keyed) {id : String} {t : CatalogTable} :
    s.tableOf id = some t ↔ t ∈ s.tables ∧ t.tableId = id :=
  find_reverse_iff h.ids

theorem typeOf_iff {t : CatalogTable} (h : t.names.Nodup) {name type : String} :
    t.typeOf name = some type ↔ ∃ c ∈ t.columns, c.name = name ∧ c.type = some type := by
  rw [CatalogTable.typeOf, Option.bind_eq_some_iff]
  constructor
  · rintro ⟨c, hc, htype⟩
    obtain ⟨hmem, hname⟩ := (find_reverse_iff h).mp hc
    exact ⟨c, hmem, hname, htype⟩
  · rintro ⟨c, hmem, hname, htype⟩
    exact ⟨c, (find_reverse_iff h).mpr ⟨hmem, hname⟩, htype⟩

theorem mem_names_of_typeOf {t : CatalogTable} {name type : String} (h : t.typeOf name = some type) :
    name ∈ t.names := by
  rw [CatalogTable.typeOf, Option.bind_eq_some_iff] at h
  obtain ⟨c, hc, -⟩ := h
  have hname : c.name = name := by simpa using List.find?_some hc
  exact List.mem_map.mpr ⟨c, List.mem_reverse.mp (List.mem_of_find?_eq_some hc), hname⟩

theorem mem_ids {s : CatalogSnapshot} {id : String} : id ∈ s.ids ↔ ∃ t ∈ s.tables, t.tableId = id := List.mem_map

/-! ### The changes that are proposed -/

def tableChanges (current baseline : CatalogSnapshot) : List Change :=
  (sortedDiff current.ids baseline.ids).map tableAdded ++ (sortedDiff baseline.ids current.ids).map tableRemoved

def columnChanges (cur base : CatalogTable) : List Change :=
  (sortedDiff cur.names base.names).map (columnAdded cur.tableId) ++
    (sortedDiff base.names cur.names).map (columnRemoved cur.tableId)

def typeChanges (cur base : CatalogTable) : List Change :=
  cur.columns.filterMap fun c =>
    match base.typeOf c.name, c.type with
    | some old, some new => if old = new then none else some (typeChanged cur.tableId c.name old new)
    | _, _ => none

/-- The changes of every table that both snapshots have. -/
def perTable (changes : CatalogTable → CatalogTable → List Change) (current baseline : CatalogSnapshot) :
    List Change :=
  current.tables.flatMap fun cur =>
    match baseline.tableOf cur.tableId with
    | none => []
    | some base => changes cur base

def changes (current baseline : CatalogSnapshot) : List Change :=
  tableChanges current baseline ++ perTable columnChanges current baseline ++ perTable typeChanges current baseline

section
variable {py : Interp} {current baseline : CatalogSnapshot}

theorem perTable_eq_nil {f : CatalogTable → CatalogTable → List Change}
    (hf : ∀ cur ∈ current.tables, ∀ base ∈ baseline.tables, f cur base = []) : perTable f current baseline = [] := by
  refine List.flatMap_eq_nil_iff.mpr fun cur hcur => ?_
  cases hbase : baseline.tableOf cur.tableId with
  | none => rfl
  | some base => exact hf cur hcur base (List.mem_reverse.mp (List.mem_of_find?_eq_some hbase))

theorem columns_eq_nil {s : CatalogSnapshot} (h : s.anyColumns = false) : ∀ t ∈ s.tables, t.columns = [] := by
  intro t ht
  have hempty := List.any_eq_false.mp h t ht
  simpa using hempty

theorem tableSet_changes (confidence : PyFloat) :
    (tableSet py confidence current (some baseline)).map (·.change) = tableChanges current baseline := by
  rw [tableSet, List.map_append, List.map_map, List.map_map]
  rfl

theorem columnSet_changes (confidence : PyFloat) :
    (columnSet py confidence current (some baseline)).map (·.change) = perTable columnChanges current baseline := by
  rw [columnSet]
  simp only
  split
  · -- without columns there is nothing to compare
    rename_i hnone
    obtain ⟨hcurrent, hbaseline⟩ := Bool.and_eq_true_iff.mp hnone
    refine (perTable_eq_nil fun cur hcur base hbase => ?_).symm
    have hcur' : cur.names = [] := by
      rw [CatalogTable.names, columns_eq_nil (Bool.not_eq_true' _ |>.mp hcurrent) cur hcur, List.map_nil]
    have hbase' : base.names = [] := by
      rw [CatalogTable.names, columns_eq_nil (Bool.not_eq_true' _ |>.mp hbaseline) base hbase, List.map_nil]
    have hnothing : sortedDiff [] [] = [] := List.eq_nil_iff_forall_not_mem.mpr fun x hx =>
      absurd (mem_sortedDiff.mp hx).1 List.not_mem_nil
    rw [columnChanges, hcur', hbase', hnothing]
    rfl
  · rw [List.map_flatMap, perTable]
    refine congrArg (fun f => current.tables.flatMap f) (funext fun cur => ?_)
    cases baseline.tableOf cur.tableId with
    | none => rfl
    | some base =>
      simp only [columnChanges, List.map_append, List.map_map]
      rfl

theorem columnType_changes (confidence : PyFloat) :
    (columnType py confidence current (some baseline)).map (·.change) = perTable typeChanges current baseline := by
  rw [columnType]
  split
  · rename_i hnone
    obtain ⟨hcurrent, -⟩ := Bool.and_eq_true_iff.mp hnone
    refine (perTable_eq_nil fun cur hcur base hbase => ?_).symm
    rw [typeChanges, columns_eq_nil (Bool.not_eq_true' _ |>.mp hcurrent) cur hcur]
    rfl
  · rw [List.map_flatMap, perTable]
    refine congrArg (fun f => current.tables.flatMap f) (funext fun cur => ?_)
    cases baseline.tableOf cur.tableId with
    | none => rfl
    | some base =>
      simp only [typeChanges, List.map_filterMap]
      refine congrArg (fun f => cur.columns.filterMap f) (funext fun c => ?_)
      cases base.typeOf c.name with
      | none => rfl
      | some old =>
        cases c.type with
        | none => rfl
        | some new =>
          simp only
          split
          · rfl
          · rfl

theorem drifts_changes (conf : Confidences) :
    (drifts py conf current baseline).map (·.change) = changes current baseline := by
  rw [drifts, List.map_append, List.map_append, tableSet_changes, columnSet_changes, columnType_changes, changes]

/-! ### Exactly the changes -/

theorem mem_perTable (hbaseline : baseline.Keyed) {f : CatalogTable → CatalogTable → List Change} {d : Change} :
    d ∈ perTable f current baseline ↔
      ∃ cur ∈ current.tables, ∃ base ∈ baseline.tables, base.tableId = cur.tableId ∧ d ∈ f cur base := by
  rw [perTable, List.mem_flatMap]
  refine exists_congr fun cur => and_congr_right fun _ => ?_
  constructor
  · intro hd
    cases hbase : baseline.tableOf cur.tableId with
    | none =>
      rw [hbase] at hd
      exact absurd hd List.not_mem_nil
    | some base =>
      rw [hbase] at hd
      obtain ⟨hmem, hid⟩ := hbaseline.tableOf_iff.mp hbase
      exact ⟨base, hmem, hid, hd⟩
  · rintro ⟨base, hmem, hid, hd⟩
    rw [hbaseline.tableOf_iff.mpr ⟨hmem, hid⟩]
    exact hd

theorem mem_typeChanges {cur base : CatalogTable} (hcur : cur.names.Nodup) {d : Change} :
    d ∈ typeChanges cur base ↔ ∃ name old new, base.typeOf name = some old ∧ cur.typeOf name = some new ∧
      old ≠ new ∧ d = typeChanged cur.tableId name old new := by
  rw [typeChanges, List.mem_filterMap]
  constructor
  · rintro ⟨c, hc, hd⟩
    cases hold : base.typeOf c.name with
    | none =>
      rw [hold] at hd
      cases hd
    | some old =>
      cases hnew : c.type with
      | none =>
        rw [hold, hnew] at hd
        cases hd
      | some new =>
        rw [hold, hnew] at hd
        simp only at hd
        split at hd
        · cases hd
        · rename_i hne
          exact ⟨c.name, old, new, hold, (typeOf_iff hcur).mpr ⟨c, hc, rfl, hnew⟩, hne, (Option.some.inj hd).symm⟩
  · rintro ⟨name, old, new, hold, hnew, hne, rfl⟩
    obtain ⟨c, hc, rfl, htype⟩ := (typeOf_iff hcur).mp hnew
    refine ⟨c, hc, ?_⟩
    rw [hold, htype]
    exact if_neg hne

/-- What is proposed is what changed. -/
theorem mem_changes (hcurrent : current.Keyed) (hbaseline : baseline.Keyed) {d : Change} :
    d ∈ changes current baseline ↔ Changed current baseline d := by
  rw [changes, List.mem_append, List.mem_append, mem_perTable hbaseline, mem_perTable hbaseline, tableChanges,
    List.mem_append, List.mem_map, List.mem_map]
  constructor
  · rintro (((⟨id, hid, rfl⟩ | ⟨id, hid, rfl⟩) | ⟨cur, hcur, base, hbase, hsame, hd⟩) |
      ⟨cur, hcur, base, hbase, hsame, hd⟩)
    · obtain ⟨hin, hout⟩ := mem_sortedDiff.mp hid
      exact .tableAdded hin hout
    · obtain ⟨hin, hout⟩ := mem_sortedDiff.mp hid
      exact .tableRemoved hin hout
    · rw [columnChanges, List.mem_append, List.mem_map, List.mem_map] at hd
      rcases hd with ⟨name, hname, rfl⟩ | ⟨name, hname, rfl⟩
      · obtain ⟨hin, hout⟩ := mem_sortedDiff.mp hname
        exact .columnAdded hcur hbase hsame hin hout
      · obtain ⟨hin, hout⟩ := mem_sortedDiff.mp hname
        exact .columnRemoved hcur hbase hsame hin hout
    · obtain ⟨name, old, new, hold, hnew, hne, rfl⟩ := (mem_typeChanges (hcurrent.names cur hcur)).mp hd
      exact .typeChanged hcur hbase hsame hold hnew hne
  · intro h
    cases h with
    | tableAdded hin hout => exact .inl (.inl (.inl ⟨_, mem_sortedDiff.mpr ⟨hin, hout⟩, rfl⟩))
    | tableRemoved hin hout => exact .inl (.inl (.inr ⟨_, mem_sortedDiff.mpr ⟨hin, hout⟩, rfl⟩))
    | columnAdded hcur hbase hsame hin hout =>
      refine .inl (.inr ⟨_, hcur, _, hbase, hsame, List.mem_append_left _ ?_⟩)
      exact List.mem_map_of_mem (mem_sortedDiff.mpr ⟨hin, hout⟩)
    | columnRemoved hcur hbase hsame hin hout =>
      refine .inl (.inr ⟨_, hcur, _, hbase, hsame, List.mem_append_right _ ?_⟩)
      exact List.mem_map_of_mem (mem_sortedDiff.mpr ⟨hin, hout⟩)
    | @typeChanged cur base name old new hcur hbase hsame hold hnew hne =>
      exact .inr ⟨cur, hcur, base, hbase, hsame,
        (mem_typeChanges (hcurrent.names cur hcur)).mpr ⟨name, old, new, hold, hnew, hne, rfl⟩⟩

/-! ### Each change once -/

theorem nodup_perTable (hcurrent : current.Keyed) {f : CatalogTable → CatalogTable → List Change}
    (hnodup : ∀ cur ∈ current.tables, ∀ base, (f cur base).Nodup)
    (hid : ∀ cur base, ∀ d ∈ f cur base, d.tableId = cur.tableId) : (perTable f current baseline).Nodup := by
  rw [perTable, List.nodup_flatMap]
  constructor
  · intro cur hcur
    cases baseline.tableOf cur.tableId with
    | none => exact List.nodup_nil
    | some base => exact hnodup cur hcur base
  · have hids : current.tables.Pairwise fun a b => a.tableId ≠ b.tableId := List.pairwise_map.mp hcurrent.ids
    refine hids.imp fun {a b} hne d hda hdb => hne ?_
    have hof : ∀ cur : CatalogTable, (d ∈ match baseline.tableOf cur.tableId with
        | none => []
        | some base => f cur base) → d.tableId = cur.tableId := by
      intro cur hd
      cases hbase : baseline.tableOf cur.tableId with
      | none =>
        rw [hbase] at hd
        exact absurd hd List.not_mem_nil
      | some base =>
        rw [hbase] at hd
        exact hid cur base d hd
    exact (hof a hda).symm.trans (hof b hdb)

/-- Lists of two kinds of change have none in common. -/
theorem nodup_append_of_kind {xs ys : List Change} (hxs : xs.Nodup) (hys : ys.Nodup)
    (hkind : ∀ x ∈ xs, ∀ y ∈ ys, x.driftKind ≠ y.driftKind) : (xs ++ ys).Nodup :=
  hxs.append hys fun d hx hy => hkind d hx d hy rfl

theorem nodup_columnChanges (cur base : CatalogTable) : (columnChanges cur base).Nodup := by
  refine nodup_append_of_kind ?_ ?_ ?_
  · refine (nodup_sortedDiff _ _).map fun a b h => ?_
    exact Option.some.inj (congrArg Change.column h)
  · refine (nodup_sortedDiff _ _).map fun a b h => ?_
    exact Option.some.inj (congrArg Change.column h)
  · intro x hx y hy
    obtain ⟨a, -, rfl⟩ := List.mem_map.mp hx
    obtain ⟨b, -, rfl⟩ := List.mem_map.mp hy
    exact nofun

theorem nodup_tableChanges : (tableChanges current baseline).Nodup := by
  refine nodup_append_of_kind ?_ ?_ ?_
  · exact (nodup_sortedDiff _ _).map fun a b h => congrArg Change.tableId h
  · exact (nodup_sortedDiff _ _).map fun a b h => congrArg Change.tableId h
  · intro x hx y hy
    obtain ⟨a, -, rfl⟩ := List.mem_map.mp hx
    obtain ⟨b, -, rfl⟩ := List.mem_map.mp hy
    exact nofun

/-- A type change names its column. -/
theorem typeChanges_column {cur base : CatalogTable} {c : CatalogColumn} {d : Change}
    (h : (match base.typeOf c.name, c.type with
      | some old, some new => if old = new then none else some (typeChanged cur.tableId c.name old new)
      | _, _ => none) = some d) : d.column = some c.name ∧ d.tableId = cur.tableId ∧ d.driftKind = .columnTypeChanged := by
  split at h
  · split at h
    · cases h
    · rw [← Option.some.inj h]
      exact ⟨rfl, rfl, rfl⟩
  · cases h

theorem nodup_typeChanges {cur : CatalogTable} (hcur : cur.names.Nodup) (base : CatalogTable) :
    (typeChanges cur base).Nodup := by
  have hpairs : cur.columns.Pairwise fun a b => a.name ≠ b.name := List.pairwise_map.mp hcur
  refine List.pairwise_filterMap.mpr (hpairs.imp fun {a b} hne x hx y hy hxy => hne ?_)
  have ha := (typeChanges_column hx).1
  have hb := (typeChanges_column hy).1
  rw [hxy] at ha
  exact Option.some.inj (ha.symm.trans hb)

theorem nodup_changes (hcurrent : current.Keyed) (hbaseline : baseline.Keyed) : (changes current baseline).Nodup := by
  have hcolumn : ∀ cur base, ∀ d ∈ columnChanges cur base, d.tableId = cur.tableId ∧
      (d.driftKind = .columnAdded ∨ d.driftKind = .columnRemoved) := by
    intro cur base d hd
    rcases List.mem_append.mp hd with hd | hd
    · obtain ⟨name, -, rfl⟩ := List.mem_map.mp hd
      exact ⟨rfl, .inl rfl⟩
    · obtain ⟨name, -, rfl⟩ := List.mem_map.mp hd
      exact ⟨rfl, .inr rfl⟩
  have htype : ∀ cur base, ∀ d ∈ typeChanges cur base, d.tableId = cur.tableId ∧ d.driftKind = .columnTypeChanged := by
    intro cur base d hd
    obtain ⟨c, -, hd⟩ := List.mem_filterMap.mp hd
    exact (typeChanges_column hd).2
  have htable : ∀ d ∈ tableChanges current baseline, d.driftKind = .tableAdded ∨ d.driftKind = .tableRemoved := by
    intro d hd
    rcases List.mem_append.mp hd with hd | hd
    · obtain ⟨id, -, rfl⟩ := List.mem_map.mp hd
      exact .inl rfl
    · obtain ⟨id, -, rfl⟩ := List.mem_map.mp hd
      exact .inr rfl
  have hcolumns : ∀ d ∈ perTable columnChanges current baseline,
      d.driftKind = .columnAdded ∨ d.driftKind = .columnRemoved := by
    intro d hd
    obtain ⟨cur, -, base, -, -, hd⟩ := (mem_perTable hbaseline).mp hd
    exact (hcolumn cur base d hd).2
  have htypes : ∀ d ∈ perTable typeChanges current baseline, d.driftKind = .columnTypeChanged := by
    intro d hd
    obtain ⟨cur, -, base, -, -, hd⟩ := (mem_perTable hbaseline).mp hd
    exact (htype cur base d hd).2
  refine nodup_append_of_kind (nodup_append_of_kind nodup_tableChanges ?_ ?_) ?_ ?_
  · exact nodup_perTable hcurrent (fun cur _ base => nodup_columnChanges cur base)
      fun cur base d hd => (hcolumn cur base d hd).1
  · intro x hx y hy
    rcases htable x hx with hx | hx <;> rcases hcolumns y hy with hy | hy <;> rw [hx, hy] <;> exact nofun
  · exact nodup_perTable hcurrent (fun cur hcur base => nodup_typeChanges (hcurrent.names cur hcur) base)
      fun cur base d hd => (htype cur base d hd).1
  · intro x hx y hy
    rw [htypes y hy]
    rcases List.mem_append.mp hx with hx | hx
    · rcases htable x hx with hx | hx <;> rw [hx] <;> exact nofun
    · rcases hcolumns x hx with hx | hx <;> rw [hx] <;> exact nofun

end

/-! ### The diff -/

section
variable {current baseline : CatalogSnapshot}

theorem Change.swap_swap (d : Change) : d.swap.swap = d := by
  obtain ⟨tableId, column, kind, before, after⟩ := d
  cases kind <;> rfl

theorem Changed.swap {d : Change} (h : Changed current baseline d) : Changed baseline current d.swap := by
  cases h with
  | tableAdded hin hout => exact .tableRemoved hin hout
  | tableRemoved hin hout => exact .tableAdded hin hout
  | @columnAdded cur base name hcur hbase hsame hin hout =>
    have hswap : Change.swap (CatalogDrift.columnAdded cur.tableId name) = CatalogDrift.columnRemoved base.tableId name := by
      rw [hsame]
      rfl
    rw [hswap]
    exact .columnRemoved hbase hcur hsame.symm hin hout
  | @columnRemoved cur base name hcur hbase hsame hin hout =>
    have hswap : Change.swap (CatalogDrift.columnRemoved cur.tableId name) = CatalogDrift.columnAdded base.tableId name := by
      rw [hsame]
      rfl
    rw [hswap]
    exact .columnAdded hbase hcur hsame.symm hin hout
  | @typeChanged cur base name old new hcur hbase hsame hold hnew hne =>
    have hswap : Change.swap (CatalogDrift.typeChanged cur.tableId name old new) =
        CatalogDrift.typeChanged base.tableId name new old := by
      rw [hsame]
      rfl
    rw [hswap]
    exact .typeChanged hbase hcur hsame.symm hnew hold hne.symm

/-- The columns of a table that is there. -/
theorem CatalogSnapshot.Keyed.column_eq {s : CatalogSnapshot} (h : s.Keyed) {t : CatalogTable} (ht : t ∈ s.tables)
    (name : String) : s.catalog.column (t.tableId, name) = decide (name ∈ t.names) := by
  simp only [CatalogSnapshot.catalog, h.tableOf_iff.mpr ⟨ht, rfl⟩, Option.any_some]

variable (hcurrent : current.Keyed) (hbaseline : baseline.Keyed)
include hcurrent hbaseline

theorem changes_swapped : (changes baseline current).Perm ((changes current baseline).map Change.swap) := by
  have hinj : Function.Injective Change.swap := fun a b h => by
    rw [← a.swap_swap, h, b.swap_swap]
  refine (List.perm_ext_iff_of_nodup (nodup_changes hbaseline hcurrent)
    ((nodup_changes hcurrent hbaseline).map hinj)).mpr fun d => ?_
  rw [mem_changes hbaseline hcurrent, List.mem_map]
  constructor
  · intro h
    exact ⟨d.swap, (mem_changes hcurrent hbaseline).mpr h.swap, d.swap_swap⟩
  · rintro ⟨d', hd', rfl⟩
    exact ((mem_changes hcurrent hbaseline).mp hd').swap

theorem after_table (id : String) :
    (baseline.catalog.after (changes current baseline)).table id = current.catalog.table id := by
  refine patch_eq (fun w hw hid => ?_) ?_
  · obtain ⟨d, hd, hw⟩ := List.mem_filterMap.mp hw
    cases (mem_changes hcurrent hbaseline).mp hd with
    | tableAdded hin _ =>
      obtain rfl := Option.some.inj hw
      obtain rfl := hid
      exact (decide_eq_true hin).symm
    | tableRemoved _ hout =>
      obtain rfl := Option.some.inj hw
      obtain rfl := hid
      exact (decide_eq_false hout).symm
    | columnAdded => cases hw
    | columnRemoved => cases hw
    | typeChanged => cases hw
  · by_cases hin : id ∈ current.ids
    · by_cases hold : id ∈ baseline.ids
      · exact .inl ((decide_eq_true hold).trans (decide_eq_true hin).symm)
      · exact .inr ⟨(id, true), List.mem_filterMap.mpr
          ⟨_, (mem_changes hcurrent hbaseline).mpr (.tableAdded hin hold), rfl⟩, rfl⟩
    · by_cases hold : id ∈ baseline.ids
      · exact .inr ⟨(id, false), List.mem_filterMap.mpr
          ⟨_, (mem_changes hcurrent hbaseline).mpr (.tableRemoved hold hin), rfl⟩, rfl⟩
      · exact .inl ((decide_eq_false hold).trans (decide_eq_false hin).symm)

theorem after_column {cur base : CatalogTable} (hcur : cur ∈ current.tables) (hbase : base ∈ baseline.tables)
    (hsame : base.tableId = cur.tableId) (name : String) :
    (baseline.catalog.after (changes current baseline)).column (cur.tableId, name) =
      current.catalog.column (cur.tableId, name) := by
  have hunique : ∀ t ∈ current.tables, t.tableId = cur.tableId → t = cur := fun t ht h =>
    List.inj_on_of_nodup_map hcurrent.ids ht hcur h
  rw [hcurrent.column_eq hcur]
  refine patch_eq (fun w hw hkey => ?_) ?_
  · obtain ⟨d, hd, hw⟩ := List.mem_filterMap.mp hw
    cases (mem_changes hcurrent hbaseline).mp hd with
    | tableAdded => cases hw
    | tableRemoved => cases hw
    | @columnAdded cur' base' name' hcur' _ _ hin _ =>
      obtain rfl := Option.some.inj hw
      obtain ⟨hid, rfl⟩ := Prod.mk.inj hkey
      obtain rfl := hunique cur' hcur' hid
      exact (decide_eq_true hin).symm
    | @columnRemoved cur' base' name' hcur' _ _ _ hout =>
      obtain rfl := Option.some.inj hw
      obtain ⟨hid, rfl⟩ := Prod.mk.inj hkey
      obtain rfl := hunique cur' hcur' hid
      exact (decide_eq_false hout).symm
    | typeChanged => cases hw
  · have hbefore : baseline.catalog.column (cur.tableId, name) = decide (name ∈ base.names) := by
      rw [← hsame, hbaseline.column_eq hbase]
    by_cases hin : name ∈ cur.names
    · by_cases hold : name ∈ base.names
      · exact .inl (hbefore.trans ((decide_eq_true hold).trans (decide_eq_true hin).symm))
      · exact .inr ⟨((cur.tableId, name), true), List.mem_filterMap.mpr
          ⟨_, (mem_changes hcurrent hbaseline).mpr (.columnAdded hcur hbase hsame hin hold), rfl⟩, rfl⟩
    · by_cases hold : name ∈ base.names
      · exact .inr ⟨((cur.tableId, name), false), List.mem_filterMap.mpr
          ⟨_, (mem_changes hcurrent hbaseline).mpr (.columnRemoved hcur hbase hsame hold hin), rfl⟩, rfl⟩
      · exact .inl (hbefore.trans ((decide_eq_false hold).trans (decide_eq_false hin).symm))

theorem after_type {p : String × String} {old new : String} (hold : baseline.catalog.type p = some old)
    (hnew : current.catalog.type p = some new) :
    (baseline.catalog.after (changes current baseline)).type p = some new := by
  obtain ⟨cur, hcurOf, hcurType⟩ := Option.bind_eq_some_iff.mp hnew
  obtain ⟨base, hbaseOf, hbaseType⟩ := Option.bind_eq_some_iff.mp hold
  obtain ⟨hcur, hcurId⟩ := hcurrent.tableOf_iff.mp hcurOf
  obtain ⟨hbase, hbaseId⟩ := hbaseline.tableOf_iff.mp hbaseOf
  refine patch_eq (fun w hw hkey => ?_) ?_
  · obtain ⟨d, hd, hw⟩ := List.mem_filterMap.mp hw
    cases (mem_changes hcurrent hbaseline).mp hd with
    | tableAdded => cases hw
    | tableRemoved => cases hw
    | columnAdded => cases hw
    | columnRemoved => cases hw
    | @typeChanged cur' base' name old' new' hcur' _ _ _ hnew' _ =>
      obtain rfl := Option.some.inj hw
      obtain rfl := hkey
      obtain rfl := List.inj_on_of_nodup_map hcurrent.ids hcur' hcur hcurId.symm
      exact hnew'.symm.trans hcurType
  · by_cases hsame : old = new
    · exact .inl (hold.trans (congrArg some hsame))
    · refine .inr ⟨(p, some new), List.mem_filterMap.mpr ⟨_, (mem_changes hcurrent hbaseline).mpr
        (.typeChanged hcur hbase (hbaseId.trans hcurId.symm) hbaseType hcurType hsame), ?_⟩, rfl⟩
      rw [typeChanged, hcurId]
      rfl

end

/-- Every drift is of the source of the current snapshot. -/
theorem drifts_source (py : Interp) (conf : Confidences) {current baseline : CatalogSnapshot} :
    ∀ d ∈ drifts py conf current baseline, d.sourceId = current.sourceId := by
  intro d hd
  rcases List.mem_append.mp hd with hd | hd
  · rcases List.mem_append.mp hd with hd | hd
    · rcases List.mem_append.mp hd with hd | hd
      · obtain ⟨id, -, rfl⟩ := List.mem_map.mp hd
        rfl
      · obtain ⟨id, -, rfl⟩ := List.mem_map.mp hd
        rfl
    · rw [columnSet] at hd
      split at hd
      · exact absurd hd List.not_mem_nil
      · obtain ⟨cur, -, hd⟩ := List.mem_flatMap.mp hd
        split at hd
        · exact absurd hd List.not_mem_nil
        · rcases List.mem_append.mp hd with hd | hd
          · obtain ⟨name, -, rfl⟩ := List.mem_map.mp hd
            rfl
          · obtain ⟨name, -, rfl⟩ := List.mem_map.mp hd
            rfl
  · rw [columnType] at hd
    split at hd
    · exact absurd hd List.not_mem_nil
    · obtain ⟨cur, -, hd⟩ := List.mem_flatMap.mp hd
      split at hd
      · exact absurd hd List.not_mem_nil
      · obtain ⟨c, -, hd⟩ := List.mem_filterMap.mp hd
        split at hd
        · split at hd
          · cases hd
          · rw [← Option.some.inj hd]
            rfl
        · cases hd

/-- For every two snapshots of keyed tables the three strategies together are a correct diff. -/
theorem drifts_correct (py : Interp) (conf : Confidences) (current baseline : CatalogSnapshot)
    (hcurrent : current.Keyed) (hbaseline : baseline.Keyed) : CorrectDiff py conf current baseline := by
  refine ⟨fun id => ?_, fun id hid hid' name => ?_, fun p old new hold hnew => ?_, fun d hd => ⟨?_, ?_⟩, ?_⟩
  · rw [drifts_changes]
    exact after_table hcurrent hbaseline id
  · obtain ⟨cur, hcur, rfl⟩ := mem_ids.mp hid
    obtain ⟨base, hbase, hsame⟩ := mem_ids.mp hid'
    rw [drifts_changes]
    exact after_column hcurrent hbaseline hcur hbase hsame name
  · rw [drifts_changes]
    exact after_type hcurrent hbaseline hold hnew
  · exact drifts_source py conf d hd
  · have hchange := List.mem_map_of_mem (f := (·.change)) hd
    rw [drifts_changes] at hchange
    exact (mem_changes hcurrent hbaseline).mp hchange
  · have hswap := changes_swapped hcurrent hbaseline
    rw [← @drifts_changes py baseline current conf, ← @drifts_changes py current baseline conf, List.map_map] at hswap
    exact hswap

/-! ### A shop whose orders changed -/

def ordersBefore : CatalogSnapshot where
  sourceId := "shop"
  asOf := ⟨⟨0, maxMicros_pos⟩, some DateTime.utc⟩
  tables := [⟨"shop.orders", [⟨"id", some "int"⟩, ⟨"note", none⟩]⟩, ⟨"shop.carts", []⟩]

def ordersNow : CatalogSnapshot where
  sourceId := "shop"
  asOf := ⟨⟨1, by decide⟩, some DateTime.utc⟩
  tables := [⟨"shop.orders", [⟨"id", some "bigint"⟩, ⟨"paid", some "bool"⟩]⟩, ⟨"shop.refunds", []⟩]

theorem orders_correct : CorrectDiff .plain ⟨SchemaImpacts.hundredths 90, SchemaImpacts.hundredths 85,
    SchemaImpacts.hundredths 80⟩ ordersNow ordersBefore :=
  drifts_correct .plain _ ordersNow ordersBefore ⟨by decide, by decide⟩ ⟨by decide, by decide⟩

example : changes ordersNow ordersBefore = [tableAdded "shop.refunds", tableRemoved "shop.carts",
    columnAdded "shop.orders" "paid", columnRemoved "shop.orders" "note",
    typeChanged "shop.orders" "id" "int" "bigint"] := by decide +kernel

end CatalogDrift
