import Wormbase.CatalogMirror.Reactivities

/-! What the catalog-mirror reactivities leave in the ledger, over every sequence of triggers. -/

namespace CatalogMirror
open Py
open Ledger (Entry actions)

/-! ### What the actions of a ledger tell about a source -/

def catalogTools : List String :=
  ["emit_external_catalog_imported", "emit_external_lineage_imported", "emit_external_policy_imported",
    "emit_external_metric_imported", "emit_external_catalog_drift_detected"]

def ofSource (id : String) (a : String × Dict) : Bool := (Dict.get a.2 "source_id").isText id

def isImport (id : String) (a : String × Dict) : Bool := occursIn "external_catalog_imported" a.1 && ofSource id a

def isDrift (id : String) (a : String × Dict) : Bool :=
  a.1 = "emit_external_catalog_drift_detected" && ofSource id a

/-- An action of the catalog mirror for a source. -/
def mirrors (id : String) (a : String × Dict) : Bool :=
  (occursIn "external_catalog_imported" a.1 || a.1 ∈ catalogTools) && ofSource id a

/-- The hash that an import or a drift tells. -/
def toldHash (id : String) (a : String × Dict) : Option String :=
  if isImport id a then (match Dict.get a.2 "snapshot_hash" with | .str h => some h | _ => none)
  else if isDrift id a then (match Dict.get a.2 "new_hash" with | .str h => some h | _ => none)
  else none

/-- The hash of a source that the ledger has told last. -/
def lastTold (acts : List (String × Dict)) (id : String) : Option String := (acts.filterMap (toldHash id)).getLast?

def driftCount (acts : List (String × Dict)) (id : String) : ℕ := acts.countP (isDrift id)

/-- The tool of a write that is none of the catalog mirror's. -/
def Foreign (tool : String) : Prop := occursIn "external_catalog_imported" tool = false ∧ tool ∉ catalogTools

/-! ### Runs -/

/-- A reactivity is called for a source, or somebody else writes an action. -/
inductive Op where
  | importFire (src : Source) (t : Trigger)
  | driftFire (src : Source) (t : Trigger)
  | other (c : Ledger.Call) (tool : String) (args : List (String × Val)) (hacts : c.Acts tool args)
      (hforeign : Foreign tool)

section
variable (py : Interp) (sha256 : Bytes → Bytes) (d : Ledger.Dialect) (company : UUID)

/-- Whether a reactivity fires, and the state then. -/
def run (s : State) : Op → Except Err Bool × State
  | .importFire src t => importFire sha256 d company src t s
  | .driftFire src t => driftFire py sha256 d company src t s
  | .other c _ _ _ _ => (.ok false, { s with rows := (Ledger.write sha256 d s.rows c).2 })

def step (s : State) (op : Op) : Option State := some (run py sha256 d company s op).2

/-- The call came to its end. -/
def Handled (s : State) (op : Op) : Prop := ∃ fired, (run py sha256 d company s op).1 = .ok fired

def Op.source : Op → Option Source
  | .importFire src _ | .driftFire src _ => some src
  | .other _ _ _ _ _ => none

/-- What a step owes: after a trigger of an imported source, its companion entries are there; a check
    reports a hash that differs from the last one told, once, and no other; nothing else reports. -/
structure Reported (s : State) (op : Op) (s' : State) : Prop where
  complete : ∀ src, op.source = some src → Handled py sha256 d company s op →
    (∃ a ∈ actions company s.rows, isImport src.sourceId a = true) → ∃ i, s'.imports src.sourceId = some i ∧
      ((companions src.sourceId i.snapshot).map Cycle.action).Sublist (actions company s'.rows)
  once : ∀ src t, op = .driftFire src t → Handled py sha256 d company s op → ∀ snap, t.snapshot = .ok snap →
    ∀ known, lastTold (actions company s.rows) src.sourceId = some known →
      driftCount (actions company s'.rows) src.sourceId =
        driftCount (actions company s.rows) src.sourceId + if snap.snapshotHash = known then 0 else 1
  silent : ∀ id, (∀ src t, op = .driftFire src t → src.sourceId ≠ id) →
    driftCount (actions company s'.rows) id = driftCount (actions company s.rows) id

/-- The import of the source was written to its end; and a snapshot that is checked has the imported
    hash exactly if it has the hash told last. -/
def Undisturbed (s : State) (op : Op) : Prop :=
  Handled py sha256 d company s op → ∀ src, op.source = some src → ∀ i, s.imports src.sourceId = some i →
    i.written = (companions src.sourceId i.snapshot).length ∧
      ∀ t, op = .driftFire src t → ∀ snap, t.snapshot = .ok snap →
        ∀ known, lastTold (actions company s.rows) src.sourceId = some known →
          (snap.snapshotHash = i.snapshot.snapshotHash ↔ snap.snapshotHash = known)

end

/-! ### The cycles of a source -/

section
variable {src : Source} {snap : CatalogSnapshot} {id sourceId oldHash newHash : String}

/-- A companion entry is no import and no drift, but the catalog mirror's. -/
structure Companion (sourceId : String) (a : String × Dict) : Prop where
  source : Dict.get a.2 "source_id" = .str sourceId
  listed : a.1 ∈ catalogTools
  no_import : occursIn "external_catalog_imported" a.1 = false
  no_drift : a.1 ≠ "emit_external_catalog_drift_detected"

theorem companion {a : String × Dict} (ha : a ∈ (companions sourceId snap).map Cycle.action) : Companion sourceId a := by
  obtain ⟨c, hc, rfl⟩ := List.mem_map.mp ha
  rcases List.mem_append.mp hc with hc | hc
  · rcases List.mem_append.mp hc with hc | hc
    · split at hc
      · cases hc
      · rw [List.mem_singleton.mp hc]
        exact ⟨rfl, show "emit_external_lineage_imported" ∈ catalogTools by decide +kernel,
          show occursIn _ "emit_external_lineage_imported" = false by decide +kernel,
          show "emit_external_lineage_imported" ≠ _ by decide +kernel⟩
    · obtain ⟨policy, -, rfl⟩ := List.mem_map.mp hc
      exact ⟨rfl, show "emit_external_policy_imported" ∈ catalogTools by decide +kernel,
        show occursIn _ "emit_external_policy_imported" = false by decide +kernel,
        show "emit_external_policy_imported" ≠ _ by decide +kernel⟩
  · obtain ⟨metric, -, rfl⟩ := List.mem_map.mp hc
    exact ⟨rfl, show "emit_external_metric_imported" ∈ catalogTools by decide +kernel,
      show occursIn _ "emit_external_metric_imported" = false by decide +kernel,
      show "emit_external_metric_imported" ≠ _ by decide +kernel⟩

theorem Companion.isImport {a : String × Dict} (h : Companion sourceId a) : isImport id a = false := by
  rw [CatalogMirror.isImport, h.no_import, Bool.false_and]

theorem Companion.isDrift {a : String × Dict} (h : Companion sourceId a) : isDrift id a = false := by
  rw [CatalogMirror.isDrift, decide_eq_false h.no_drift, Bool.false_and]

theorem Companion.mirrors {a : String × Dict} (h : Companion sourceId a) :
    mirrors id a = decide (sourceId = id) := by
  rw [CatalogMirror.mirrors, ofSource, h.source, decide_eq_true h.listed, Bool.or_true, Bool.true_and]
  rfl

theorem Companion.toldHash {a : String × Dict} (h : Companion sourceId a) : toldHash id a = none := by
  rw [CatalogMirror.toldHash, h.isImport, h.isDrift]
  rfl

theorem importTool : occursIn "external_catalog_imported" (importCycle src snap).tool = true ∧
    (importCycle src snap).tool ≠ "emit_external_catalog_drift_detected" :=
  ⟨show occursIn _ "emit_external_catalog_imported" = true by decide +kernel,
    show "emit_external_catalog_imported" ≠ _ by decide +kernel⟩

theorem isImport_import : isImport id (importCycle src snap).action = decide (src.sourceId = id) := by
  rw [isImport, show (importCycle src snap).action.1 = (importCycle src snap).tool from rfl, importTool.1, Bool.true_and]
  rfl

theorem isDrift_import : isDrift id (importCycle src snap).action = false := by
  rw [isDrift, show (importCycle src snap).action.1 = (importCycle src snap).tool from rfl,
    decide_eq_false importTool.2, Bool.false_and]

theorem mirrors_import : mirrors id (importCycle src snap).action = decide (src.sourceId = id) := by
  rw [mirrors, show (importCycle src snap).action.1 = (importCycle src snap).tool from rfl, importTool.1,
    Bool.true_or, Bool.true_and]
  rfl

theorem toldHash_import (hid : src.sourceId = id) : toldHash id (importCycle src snap).action = some snap.snapshotHash := by
  rw [toldHash, isImport_import, decide_eq_true hid]
  rfl

theorem driftTool : occursIn "external_catalog_imported" (driftCycle sourceId oldHash newHash).tool = false ∧
    (driftCycle sourceId oldHash newHash).tool = "emit_external_catalog_drift_detected" ∧
      (driftCycle sourceId oldHash newHash).tool ∈ catalogTools :=
  ⟨show occursIn _ "emit_external_catalog_drift_detected" = false by decide +kernel,
    show "emit_external_catalog_drift_detected" = _ by decide +kernel,
    show "emit_external_catalog_drift_detected" ∈ catalogTools by decide +kernel⟩

theorem isImport_drift : isImport id (driftCycle sourceId oldHash newHash).action = false := by
  rw [isImport, show (driftCycle sourceId oldHash newHash).action.1 = (driftCycle sourceId oldHash newHash).tool from rfl,
    driftTool.1, Bool.false_and]

theorem isDrift_drift : isDrift id (driftCycle sourceId oldHash newHash).action = decide (sourceId = id) := by
  rw [isDrift, show (driftCycle sourceId oldHash newHash).action.1 = (driftCycle sourceId oldHash newHash).tool from rfl,
    decide_eq_true driftTool.2.1, Bool.true_and]
  rfl

theorem mirrors_drift : mirrors id (driftCycle sourceId oldHash newHash).action = decide (sourceId = id) := by
  rw [mirrors, show (driftCycle sourceId oldHash newHash).action.1 = (driftCycle sourceId oldHash newHash).tool from rfl,
    decide_eq_true driftTool.2.2, Bool.or_true, Bool.true_and]
  rfl

theorem toldHash_drift : toldHash sourceId (driftCycle sourceId oldHash newHash).action = some newHash := by
  rw [toldHash, isImport_drift, isDrift_drift, decide_eq_true rfl]
  rfl

theorem mirrors_foreign {tool : String} (h : Foreign tool) (args : Dict) : mirrors id (tool, args) = false := by
  rw [mirrors, h.1, decide_eq_false h.2, Bool.false_or, Bool.false_and]

/-- Only the catalog mirror's actions tell anything. -/
theorem of_not_mirrors {a : String × Dict} (h : mirrors id a = false) :
    isImport id a = false ∧ isDrift id a = false ∧ toldHash id a = none := by
  have himport : isImport id a = false := by
    rw [mirrors, Bool.and_eq_false_iff, Bool.or_eq_false_iff] at h
    rw [isImport, Bool.and_eq_false_iff]
    exact h.imp_left And.left
  have hdrift : isDrift id a = false := by
    rw [mirrors, Bool.and_eq_false_iff, Bool.or_eq_false_iff] at h
    rw [isDrift, Bool.and_eq_false_iff]
    refine h.imp_left fun ⟨_, hlisted⟩ => decide_eq_false fun htool => ?_
    rw [htool] at hlisted
    exact absurd hlisted (by decide +kernel)
  refine ⟨himport, hdrift, ?_⟩
  rw [toldHash, himport, hdrift]
  rfl

end

/-! ### Writes -/

section
variable {py : Interp} {sha256 : Bytes → Bytes} {d : Ledger.Dialect} {company : UUID} {src : Source}
  {rows rows' rows'' : List Entry} {new new' : List (String × Dict)}

/-- A ledger that has grown by some actions. -/
structure Grown (sha256 : Bytes → Bytes) (d : Ledger.Dialect) (company : UUID) (rows : List Entry)
    (new : List (String × Dict)) (rows' : List Entry) : Prop where
  acts : actions company rows' = actions company rows ++ new
  sound : Ledger.Sound sha256 d rows → Ledger.Sound sha256 d rows'
  acting : Ledger.Acting company rows → Ledger.Acting company rows'

theorem Grown.refl : Grown sha256 d company rows [] rows := ⟨(List.append_nil _).symm, id, id⟩

theorem Grown.trans (h : Grown sha256 d company rows new rows') (h' : Grown sha256 d company rows' new' rows'') :
    Grown sha256 d company rows (new ++ new') rows'' :=
  ⟨by rw [h'.acts, h.acts, List.append_assoc], h'.sound ∘ h.sound, h'.acting ∘ h.acting⟩

/-- A cycle is written or not. -/
theorem emitPevr_grown (c : Cycle) (a : Attempt) :
    (∃ rows', emitPevr sha256 d company rows src c a = (.ok (), rows') ∧
      Grown sha256 d company rows [c.action] rows') ∨
    ∃ x, emitPevr sha256 d company rows src c a = (.error x, rows) := by
  unfold emitPevr
  cases a.outage with
  | some x => exact .inr ⟨x, rfl⟩
  | none =>
    simp only
    rcases @Ledger.actions_emit sha256 d rows company a.mint _ c.args c.tool _ _ _ _ c.names with
      ⟨res, rows', hw, hacts, -⟩ | ⟨x, hw⟩
    · left
      have hw' : Ledger.write sha256 d rows (c.call company src a.mint) = (.ok res, rows') := hw
      have hsound := @Ledger.sound_write sha256 d rows
      have hacting := @Ledger.acting_write sha256 d rows (c.call company src a.mint) c.tool c.args company
      refine ⟨rows', by rw [hw']; rfl, hacts, fun h => ?_, fun h => ?_⟩
      · have := hsound h (c.call company src a.mint)
        rwa [hw'] at this
      · have := hacting h (Ledger.emit_acts c.names)
        rwa [hw'] at this
    · right
      have hw' : Ledger.write sha256 d rows (c.call company src a.mint) = (.error x, rows) := hw
      exact ⟨x, by rw [hw']; rfl⟩

/-- Of some cycles a prefix is written, and all of them when none fails. -/
theorem emitAll_grown (attempts : ℕ → Attempt) : ∀ (cs : List Cycle) (k : ℕ) (rows : List Entry),
    Grown sha256 d company rows
        ((cs.take (emitAll sha256 d company src attempts k rows cs).1).map Cycle.action)
        (emitAll sha256 d company src attempts k rows cs).2.2 ∧
      (emitAll sha256 d company src attempts k rows cs).1 ≤ cs.length ∧
      ((emitAll sha256 d company src attempts k rows cs).2.1 = .ok () ↔
        (emitAll sha256 d company src attempts k rows cs).1 = cs.length)
  | [], _, _ => ⟨.refl, le_rfl, iff_of_true rfl rfl⟩
  | c :: cs, k, rows => by
    rcases @emitPevr_grown sha256 d company src rows c (attempts k) with ⟨rows', hok, hgrown⟩ | ⟨x, herror⟩
    · obtain ⟨hrest, hle, hiff⟩ := emitAll_grown attempts cs (k + 1) rows'
      have hstep : emitAll sha256 d company src attempts k rows (c :: cs) =
          ((emitAll sha256 d company src attempts (k + 1) rows' cs).1 + 1,
            (emitAll sha256 d company src attempts (k + 1) rows' cs).2) := by
        rw [emitAll, hok]
      rw [hstep]
      refine ⟨?_, ?_, ?_⟩
      · rw [List.take_succ_cons, List.map_cons]
        exact hgrown.trans hrest
      · rw [List.length_cons]
        exact Nat.succ_le_succ hle
      · rw [hiff, List.length_cons]
        exact (Nat.add_right_cancel_iff).symm
    · have hstep : emitAll sha256 d company src attempts k rows (c :: cs) = (0, .error x, rows) := by
        rw [emitAll, herror]
      rw [hstep]
      exact ⟨.refl, Nat.zero_le _, iff_of_false nofun nofun⟩

/-! ### What is read -/

/-- A row with an action tells of an import by its tool. -/
theorem importArgs_eq {row : Entry} (h : row.kind = .execute → (Ledger.action row).isSome) :
    importArgs row = .ok ((Ledger.action row).bind fun a =>
      if occursIn "external_catalog_imported" a.1 then some a.2 else none) := by
  unfold importArgs
  by_cases hkind : row.kind = .execute
  · rw [if_neg (not_not.mpr hkind)]
    obtain ⟨⟨tool, args⟩, haction⟩ := Option.isSome_iff_exists.mp (h hkind)
    obtain ⟨-, payload, hpayload, htool, hargs⟩ := Ledger.action_eq_some.mp haction
    have hor : (Val.str tool).or (.str "") = .str tool := by
      by_cases hempty : tool = "" <;> simp [Val.or, Val.truthy, hempty]
    have hargsOr : (Val.dict args).or (.dict []) = .dict args := by
      by_cases hempty : args = [] <;> simp [Val.or, Val.truthy, hempty]
    rw [haction, hpayload, Ledger.payload_or htool]
    simp only [htool, hargs, hor, hargsOr, textIn, bind, Except.bind, Option.bind_some]
    cases occursIn "external_catalog_imported" tool <;> rfl
  · rw [if_pos hkind, Ledger.action_none hkind]
    rfl

/-- What a row leaves as the latest hash of a source. -/
def noteHash (py : Interp) (id : String) (latest : Option String) (a : String × Dict) : Option String :=
  if isImport id a && (Dict.get a.2 "snapshot_hash").truthy then some ((Dict.get a.2 "snapshot_hash").toStr py)
  else latest

theorem hasPriorImport_eq (id : String) : ∀ {rows : List Entry},
    (∀ row ∈ rows, row.kind = .execute → (Ledger.action row).isSome) →
      hasPriorImport id rows = .ok ((rows.filterMap Ledger.action).any (isImport id))
  | [], _ => rfl
  | row :: rows, h => by
    obtain ⟨hrow, hrows⟩ := List.forall_mem_cons.mp h
    have ih := hasPriorImport_eq id hrows
    rw [hasPriorImport, importArgs_eq hrow, List.filterMap_cons]
    cases Ledger.action row with
    | none => exact ih
    | some a =>
      simp only [bind, Except.bind, Option.bind_some, List.any_cons, isImport, ofSource]
      cases occursIn "external_catalog_imported" a.1 with
      | false => exact ih
      | true =>
        simp only [if_true, Bool.true_and]
        cases (Dict.get a.2 "source_id").isText id with
        | true => rfl
        | false => exact ih

theorem latestSnapshotHash_eq (id : String) : ∀ {rows : List Entry} {latest : Option String},
    (∀ row ∈ rows, row.kind = .execute → (Ledger.action row).isSome) →
      latestSnapshotHash py id latest rows = .ok ((rows.filterMap Ledger.action).foldl (noteHash py id) latest)
  | [], _, _ => rfl
  | row :: rows, latest, h => by
    obtain ⟨hrow, hrows⟩ := List.forall_mem_cons.mp h
    have ih := fun latest => @latestSnapshotHash_eq id rows latest hrows
    rw [latestSnapshotHash, importArgs_eq hrow, List.filterMap_cons]
    cases Ledger.action row with
    | none => exact ih latest
    | some a =>
      simp only [bind, Except.bind, Option.bind_some, List.foldl_cons, noteHash, isImport, ofSource]
      rcases Bool.eq_false_or_eq_true (occursIn "external_catalog_imported" a.1) with htool | htool
      · simp only [htool, if_true, Bool.true_and]
        split <;> exact ih _
      · simp only [htool, Bool.false_eq_true, if_false, Bool.false_and]
        exact ih latest

/-! ### What the catalog mirror's actions decide -/

section
variable {id : String} {acts : List (String × Dict)}

theorem any_isImport (acts : List (String × Dict)) (id : String) :
    acts.any (isImport id) = (acts.filter (mirrors id)).any (isImport id) := by
  rw [List.any_filter]
  congr 1
  funext a
  cases h : mirrors id a with
  | false => rw [(of_not_mirrors h).1, Bool.false_and]
  | true => rw [Bool.true_and]

theorem foldl_noteHash (py : Interp) (acts : List (String × Dict)) (id : String) (latest : Option String) :
    acts.foldl (noteHash py id) latest = (acts.filter (mirrors id)).foldl (noteHash py id) latest := by
  rw [List.foldl_filter]
  congr 1
  funext latest a
  cases h : mirrors id a with
  | false =>
    rw [noteHash, (of_not_mirrors h).1]
    rfl
  | true => rfl

theorem driftCount_eq (acts : List (String × Dict)) (id : String) :
    driftCount acts id = (acts.filter (mirrors id)).countP (isDrift id) := by
  rw [driftCount, List.countP_filter]
  congr 1
  funext a
  cases h : mirrors id a with
  | false => rw [(of_not_mirrors h).2.1, Bool.false_and]
  | true => rw [Bool.and_true]

theorem lastTold_none (h : acts.filter (mirrors id) = []) : lastTold acts id = none := by
  have hnone : acts.filterMap (toldHash id) = [] := by
    refine List.filterMap_eq_nil_iff.mpr fun a ha => (of_not_mirrors ?_).2.2
    exact Bool.eq_false_of_not_eq_true (List.filter_eq_nil_iff.mp h a ha)
  rw [lastTold, hnone]
  rfl

/-- The actions of a source whose import was begun: the import, a prefix of its companions, and what was
    reported since. -/
structure Logged (acts : List (String × Dict)) (id : String) (i : Import) : Prop where
  source : i.source.sourceId = id
  le : i.written ≤ (companions id i.snapshot).length
  log : ∃ reports : List (String × String), acts.filter (mirrors id) =
    (importCycle i.source i.snapshot).action :: (((companions id i.snapshot).take i.written).map Cycle.action ++
      reports.map fun p => (driftCycle id p.1 p.2).action)

variable {i : Import}

theorem take_companion {n : ℕ} {snap : CatalogSnapshot} {a : String × Dict}
    (ha : a ∈ ((companions id snap).take n).map Cycle.action) : Companion id a :=
  companion (List.map_subset _ (List.take_subset n _) ha)

theorem Logged.imported (h : Logged acts id i) : acts.any (isImport id) = true := by
  obtain ⟨reports, hlog⟩ := h.log
  rw [any_isImport, hlog, List.any_cons, isImport_import, decide_eq_true h.source, Bool.true_or]

/-- The baseline is the imported hash. -/
theorem Logged.baseline (py : Interp) (h : Logged acts id i) :
    acts.foldl (noteHash py id) none = some i.snapshot.snapshotHash := by
  obtain ⟨reports, hlog⟩ := h.log
  have hkeep : ∀ {as : List (String × Dict)} {latest : Option String},
      (∀ a ∈ as, isImport id a = false) → as.foldl (noteHash py id) latest = latest := by
    intro as
    induction as with
    | nil => exact fun _ => rfl
    | cons a as ih =>
      intro latest has
      obtain ⟨ha, has⟩ := List.forall_mem_cons.mp has
      rw [List.foldl_cons, noteHash, ha]
      exact ih has
  have hfirst : noteHash py id none (importCycle i.source i.snapshot).action = some i.snapshot.snapshotHash := by
    have hhash : Dict.get (importCycle i.source i.snapshot).action.2 "snapshot_hash" = .str i.snapshot.snapshotHash := rfl
    rw [noteHash, isImport_import, decide_eq_true h.source, hhash]
    simp [Val.truthy, i.snapshot.hash_ne, Val.toStr]
  rw [foldl_noteHash, hlog, List.foldl_cons, hfirst]
  refine hkeep fun a ha => ?_
  rcases List.mem_append.mp ha with ha | ha
  · exact (take_companion ha).isImport
  · obtain ⟨p, -, rfl⟩ := List.mem_map.mp ha
    exact isImport_drift

/-- Neither an import nor a drift. -/
def isOther (id : String) (a : String × Dict) : Bool := !isImport id a && !isDrift id a

/-- All companion entries are there exactly if all were written. -/
theorem Logged.complete_iff (h : Logged acts id i) :
    ((companions id i.snapshot).map Cycle.action).Sublist acts ↔ i.written = (companions id i.snapshot).length := by
  obtain ⟨reports, hlog⟩ := h.log
  constructor
  · intro hsub
    -- what is left of the log when imports and drifts are taken out is the prefix that was written
    have hfilter := (hsub.filter (mirrors id)).filter (isOther id)
    have hall : ((companions id i.snapshot).map Cycle.action).filter (mirrors id) =
        (companions id i.snapshot).map Cycle.action :=
      List.filter_eq_self.mpr fun a ha => by rw [(companion ha).mirrors, decide_eq_true rfl]
    have hplain : ∀ {n : ℕ}, (((companions id i.snapshot).take n).map Cycle.action).filter
        (isOther id) = ((companions id i.snapshot).take n).map Cycle.action :=
      fun {n} => List.filter_eq_self.mpr fun a ha => by
        rw [isOther, (take_companion ha).isImport, (take_companion ha).isDrift]
        rfl
    have hdrifts : (reports.map fun p => (driftCycle id p.1 p.2).action).filter
        (isOther id) = [] := by
      refine List.filter_eq_nil_iff.mpr fun a ha => ?_
      obtain ⟨p, -, rfl⟩ := List.mem_map.mp ha
      rw [isOther, isDrift_drift, decide_eq_true rfl]
      simp
    have himport : ¬isOther id (importCycle i.source i.snapshot).action = true := by
      rw [isOther, isImport_import, decide_eq_true h.source]
      simp
    have hwhole := @hplain (companions id i.snapshot).length
    rw [List.take_length] at hwhole
    rw [hall, hwhole, hlog, List.filter_cons_of_neg himport, List.filter_append, hplain, hdrifts,
      List.append_nil] at hfilter
    have hlen := hfilter.length_le
    rw [List.length_map, List.length_map, List.length_take] at hlen
    exact le_antisymm h.le (hlen.trans (min_le_left _ _))
  · intro hall
    have hsub : ((companions id i.snapshot).map Cycle.action).Sublist (acts.filter (mirrors id)) := by
      rw [hlog, hall, List.take_length]
      exact (List.sublist_append_left _ _).cons _
    exact hsub.trans List.filter_sublist

end

/-! ### One step -/

/-- The state of a run: the ledger is sound, and for each source it has what the import left. -/
structure Mirrored (sha256 : Bytes → Bytes) (d : Ledger.Dialect) (company : UUID) (s : State) : Prop where
  sound : Ledger.Sound sha256 d s.rows
  acting : Ledger.Acting company s.rows
  fresh : ∀ id, s.imports id = none → (actions company s.rows).filter (mirrors id) = []
  logged : ∀ id i, s.imports id = some i → Logged (actions company s.rows) id i

end

section
variable {py : Interp} {sha256 : Bytes → Bytes} {d : Ledger.Dialect} {company : UUID} {src : Source} {t : Trigger}
  {s s' : State}

/-- What a step of a mirrored state does. -/
inductive Stepped (sha256 : Bytes → Bytes) (d : Ledger.Dialect) (company : UUID) (s : State) :
    Op → Except Err Bool → State → Prop
  | failed (op : Op) (x : Err) : Stepped sha256 d company s op (.error x) s
  | known (src : Source) (t : Trigger) (i : Import) (hi : s.imports src.sourceId = some i) :
      Stepped sha256 d company s (.importFire src t) (.ok false) s
  | imported (src : Source) (t : Trigger) (snap : CatalogSnapshot) (n : ℕ) (rows : List Entry)
      (result : Except Err Bool) (hnone : s.imports src.sourceId = none)
      (hn : n ≤ (companions src.sourceId snap).length)
      (hgrown : Grown sha256 d company s.rows ((importCycle src snap).action ::
        ((companions src.sourceId snap).take n).map Cycle.action) rows) :
      Stepped sha256 d company s (.importFire src t) result
        ⟨rows, Function.update s.imports src.sourceId (some ⟨src, snap, n⟩)⟩
  | unknown (src : Source) (t : Trigger) (hnone : s.imports src.sourceId = none) :
      Stepped sha256 d company s (.driftFire src t) (.ok false) s
  | same (src : Source) (t : Trigger) (i : Import) (snap : CatalogSnapshot)
      (hi : s.imports src.sourceId = some i) (hsnap : t.snapshot = .ok snap)
      (hsame : snap.snapshotHash = i.snapshot.snapshotHash) :
      Stepped sha256 d company s (.driftFire src t) (.ok false) s
  | drifted (src : Source) (t : Trigger) (i : Import) (snap : CatalogSnapshot) (rows : List Entry)
      (hi : s.imports src.sourceId = some i) (hsnap : t.snapshot = .ok snap)
      (hchanged : snap.snapshotHash ≠ i.snapshot.snapshotHash)
      (hgrown : Grown sha256 d company s.rows
        [(driftCycle src.sourceId i.snapshot.snapshotHash snap.snapshotHash).action] rows) :
      Stepped sha256 d company s (.driftFire src t) (.ok true) { s with rows }
  | other (op : Op) (new : List (String × Dict)) (rows : List Entry) (hop : op.source = none)
      (hforeign : ∀ a ∈ new, Foreign a.1) (hgrown : Grown sha256 d company s.rows new rows) :
      Stepped sha256 d company s op (.ok false) { s with rows }

theorem stepped_import (h : Mirrored sha256 d company s) : Stepped sha256 d company s (.importFire src t)
    (run py sha256 d company s (.importFire src t)).1 (run py sha256 d company s (.importFire src t)).2 := by
  obtain ⟨hacts, hrows⟩ := Ledger.fetch_acting h.sound h.acting
  have hprior : hasPriorImport src.sourceId (fetch d company s.rows) =
      .ok ((actions company s.rows).any (isImport src.sourceId)) := hacts ▸ hasPriorImport_eq src.sourceId hrows
  rw [run, importFire, hprior]
  cases t.read with
  | error x => exact .failed _ x
  | ok u =>
    simp only [Except.bind]
    cases hi : s.imports src.sourceId with
    | some i =>
      rw [(h.logged _ i hi).imported]
      exact .known src t i hi
    | none =>
      have hno : (actions company s.rows).any (isImport src.sourceId) = false := by
        rw [any_isImport, h.fresh _ hi]
        rfl
      rw [hno]
      cases t.snapshot with
      | error x => exact .failed _ x
      | ok snap =>
        simp only
        rcases @emitPevr_grown sha256 d company src s.rows (importCycle src snap) (t.attempts 0) with
          ⟨rows, hok, hfirst⟩ | ⟨x, herror⟩
        · rw [hok]
          obtain ⟨hrest, hn, -⟩ := @emitAll_grown sha256 d company src t.attempts (companions src.sourceId snap) 1 rows
          exact .imported src t snap _ _ _ hi hn (hfirst.trans hrest)
        · rw [herror]
          exact .failed _ x

theorem stepped_drift (h : Mirrored sha256 d company s) : Stepped sha256 d company s (.driftFire src t)
    (run py sha256 d company s (.driftFire src t)).1 (run py sha256 d company s (.driftFire src t)).2 := by
  obtain ⟨hacts, hrows⟩ := Ledger.fetch_acting h.sound h.acting
  have hlatest : latestSnapshotHash py src.sourceId none (fetch d company s.rows) =
      .ok ((actions company s.rows).foldl (noteHash py src.sourceId) none) :=
    hacts ▸ latestSnapshotHash_eq src.sourceId hrows
  rw [run, driftFire, hlatest]
  cases t.read with
  | error x => exact .failed _ x
  | ok u =>
    simp only [Except.bind]
    cases hi : s.imports src.sourceId with
    | none =>
      rw [foldl_noteHash, h.fresh _ hi]
      exact .unknown src t hi
    | some i =>
      rw [(h.logged _ i hi).baseline py]
      cases hsnap : t.snapshot with
      | error x => exact .failed _ x
      | ok snap =>
        simp only
        by_cases hsame : snap.snapshotHash = i.snapshot.snapshotHash
        · rw [if_pos hsame]
          exact .same src t i snap hi hsnap hsame
        · rw [if_neg hsame]
          rcases @emitPevr_grown sha256 d company src s.rows
            (driftCycle src.sourceId i.snapshot.snapshotHash snap.snapshotHash) (t.attempts 0) with
            ⟨rows, hok, hgrown⟩ | ⟨x, herror⟩
          · rw [hok]
            exact .drifted src t i snap rows hi hsnap hsame hgrown
          · rw [herror]
            exact .failed _ x

theorem stepped (h : Mirrored sha256 d company s) (op : Op) :
    Stepped sha256 d company s op (run py sha256 d company s op).1 (run py sha256 d company s op).2 := by
  cases op with
  | importFire src t => exact stepped_import h
  | driftFire src t => exact stepped_drift h
  | other c tool args hacts hforeign =>
    have hsound := fun hs => @Ledger.sound_write sha256 d s.rows hs c
    have hacting := fun ha => @Ledger.acting_write sha256 d s.rows c tool args company ha hacts
    rcases @Ledger.actions_write sha256 d s.rows c tool args hacts with ⟨res, rows, hw, hown, hothers⟩ | ⟨x, hw⟩
    · rw [run, hw]
      rw [hw] at hsound hacting
      by_cases hcompany : company = c.companyId
      · subst hcompany
        exact .other _ [(tool, backDict args)] rows rfl (by simpa using hforeign) ⟨hown, hsound, hacting⟩
      · exact .other _ [] rows rfl (by simp) ⟨by rw [hothers _ hcompany, List.append_nil], hsound, hacting⟩
    · rw [run, hw]
      exact .other _ [] s.rows rfl (by simp) .refl

theorem filter_grown {rows rows' : List Entry} {new : List (String × Dict)}
    (h : Grown sha256 d company rows new rows') (p : String × Dict → Bool) :
    (actions company rows').filter p = (actions company rows).filter p ++ new.filter p := by
  rw [h.acts, List.filter_append]

theorem filter_unmirrored {rows rows' : List Entry} {new : List (String × Dict)}
    (h : Grown sha256 d company rows new rows') {id : String} (hnew : ∀ a ∈ new, mirrors id a = false) :
    (actions company rows').filter (mirrors id) = (actions company rows).filter (mirrors id) := by
  have hnone : new.filter (mirrors id) = [] :=
    List.filter_eq_nil_iff.mpr fun a ha => by
      rw [hnew a ha]
      exact Bool.false_ne_true
  rw [filter_grown h, hnone, List.append_nil]

theorem Logged.congr {acts acts' : List (String × Dict)} {id : String} {i : Import} (h : Logged acts id i)
    (hsame : acts'.filter (mirrors id) = acts.filter (mirrors id)) : Logged acts' id i :=
  ⟨h.source, h.le, h.log.imp fun _ hlog => hsame.trans hlog⟩

/-- The cycles of an import are the catalog mirror's for its source, and for no other. -/
theorem mirrors_cycles {snap : CatalogSnapshot} {n : ℕ} {id : String} {a : String × Dict}
    (ha : a ∈ (importCycle src snap).action :: ((companions src.sourceId snap).take n).map Cycle.action) :
    mirrors id a = decide (src.sourceId = id) ∧ isDrift id a = false := by
  rcases List.mem_cons.mp ha with rfl | ha
  · exact ⟨mirrors_import, isDrift_import⟩
  · exact ⟨(take_companion ha).mirrors, (take_companion ha).isDrift⟩

theorem mirrored_step (h : Mirrored sha256 d company s) {op : Op} {r : Except Err Bool}
    (hstep : Stepped sha256 d company s op r s') : Mirrored sha256 d company s' := by
  cases hstep with
  | failed op x => exact h
  | known src t i hi => exact h
  | unknown src t hnone => exact h
  | same src t i snap hi hsnap hsame => exact h
  | imported src t snap n rows r hnone hn hgrown =>
    have hothers : ∀ id, id ≠ src.sourceId →
        (actions company rows).filter (mirrors id) = (actions company s.rows).filter (mirrors id) := by
      intro id hid
      refine filter_unmirrored hgrown fun a ha => ?_
      rw [(mirrors_cycles ha).1, decide_eq_false (Ne.symm hid)]
    refine ⟨hgrown.sound h.sound, hgrown.acting h.acting, fun id hid => ?_, fun id i hi => ?_⟩
    · have hne : id ≠ src.sourceId := by
        rintro rfl
        simp at hid
      rw [hothers id hne]
      exact h.fresh id (by simpa [Function.update_of_ne hne] using hid)
    · by_cases hid : id = src.sourceId
      · subst hid
        obtain rfl : ⟨src, snap, n⟩ = i := by simpa using hi
        refine ⟨rfl, hn, [], ?_⟩
        rw [filter_grown hgrown, h.fresh _ hnone, List.nil_append, List.map_nil, List.append_nil]
        exact List.filter_eq_self.mpr fun a ha => by rw [(mirrors_cycles ha).1, decide_eq_true rfl]
      · exact (h.logged id i (by simpa [Function.update_of_ne hid] using hi)).congr (hothers id hid)
  | drifted src t i snap rows hi hsnap hchanged hgrown =>
    have hnew : ∀ id, [(driftCycle src.sourceId i.snapshot.snapshotHash snap.snapshotHash).action].filter (mirrors id) =
        if src.sourceId = id then [(driftCycle src.sourceId i.snapshot.snapshotHash snap.snapshotHash).action]
        else [] := by
      intro id
      by_cases hid : src.sourceId = id <;> simp [mirrors_drift, hid]
    refine ⟨hgrown.sound h.sound, hgrown.acting h.acting, fun id hid => ?_, fun id j hj => ?_⟩
    · have hne : src.sourceId ≠ id := by
        rintro rfl
        cases hi.symm.trans hid
      rw [filter_grown hgrown, hnew, if_neg hne, List.append_nil]
      exact h.fresh id hid
    · by_cases hid : src.sourceId = id
      · subst hid
        obtain rfl := Option.some.inj (hi.symm.trans hj)
        obtain ⟨hsource, hle, reports, hlog⟩ := h.logged _ i hi
        refine ⟨hsource, hle, reports ++ [(i.snapshot.snapshotHash, snap.snapshotHash)], ?_⟩
        rw [filter_grown hgrown, hnew, if_pos rfl, hlog]
        simp
      · refine (h.logged id j hj).congr ?_
        rw [filter_grown hgrown, hnew, if_neg hid, List.append_nil]
  | other op new rows hop hforeign hgrown =>
    have hsame : ∀ id, (actions company rows).filter (mirrors id) = (actions company s.rows).filter (mirrors id) := by
      intro id
      exact filter_unmirrored hgrown fun a ha => mirrors_foreign (hforeign a ha) a.2
    exact ⟨hgrown.sound h.sound, hgrown.acting h.acting, fun id hid => (hsame id).trans (h.fresh id hid),
      fun id i hi => (h.logged id i hi).congr (hsame id)⟩

theorem driftCount_grown {rows rows' : List Entry} {new : List (String × Dict)}
    (h : Grown sha256 d company rows new rows') (id : String) : driftCount (actions company rows') id =
      driftCount (actions company rows) id + new.countP (isDrift id) := by
  rw [driftCount, h.acts, List.countP_append]
  rfl

/-- No import of a source stands in the ledger before the first write of one. -/
theorem Mirrored.not_imported (h : Mirrored sha256 d company s) {id : String} (hnone : s.imports id = none) :
    ¬∃ a ∈ actions company s.rows, isImport id a = true := by
  rw [← List.any_eq_true, any_isImport, h.fresh id hnone]
  exact Bool.false_ne_true

theorem Mirrored.imported (h : Mirrored sha256 d company s) {id : String} {i : Import} (hi : s.imports id = some i) :
    ∃ a ∈ actions company s.rows, isImport id a = true :=
  List.any_eq_true.mp (h.logged id i hi).imported

/-- A step reports as it should exactly if the import was written to its end and the baseline has not
    been left behind. -/
theorem reported_iff (h : Mirrored sha256 d company s) (op : Op) :
    Reported py sha256 d company s op (run py sha256 d company s op).2 ↔ Undisturbed py sha256 d company s op := by
  have hstep := @stepped py sha256 d company s h op
  have hnext := mirrored_step h hstep
  generalize hr : (run py sha256 d company s op).1 = r at hstep
  generalize (run py sha256 d company s op).2 = s' at hstep hnext ⊢
  cases hstep with
  | failed op x =>
    have hfailed : ¬Handled py sha256 d company s op := by
      rintro ⟨fired, hfired⟩
      cases hr.symm.trans hfired
    exact iff_of_true ⟨fun _ _ hh => absurd hh hfailed, fun _ _ _ hh => absurd hh hfailed, fun _ _ => rfl⟩
      fun hh => absurd hh hfailed
  | known src t i hi =>
    constructor
    · intro hreported _ src' hsrc j hj
      obtain rfl := Option.some.inj hsrc
      obtain ⟨i', hi', hsub⟩ := hreported.complete src rfl ⟨_, hr⟩ (h.imported hi)
      obtain rfl := Option.some.inj (hj.symm.trans hi')
      exact ⟨(h.logged _ j hj).complete_iff.mp hsub, fun _ => nofun⟩
    · intro hdone
      refine ⟨fun src' hsrc hh _ => ?_, fun _ _ => nofun, fun _ _ => rfl⟩
      obtain rfl := Option.some.inj hsrc
      exact ⟨i, hi, (h.logged _ i hi).complete_iff.mpr (hdone hh src rfl i hi).1⟩
  | imported src t snap n rows r hnone hn hgrown =>
    refine iff_of_true ⟨fun src' hsrc _ himported => ?_, fun _ _ => nofun, fun id _ => ?_⟩ fun _ src' hsrc i hi => ?_
    · obtain rfl := Option.some.inj hsrc
      exact absurd himported (h.not_imported hnone)
    · have hnone' : List.countP (isDrift id) ((importCycle src snap).action ::
          ((companions src.sourceId snap).take n).map Cycle.action) = 0 :=
        List.countP_eq_zero.mpr fun a ha => by
          rw [(mirrors_cycles ha).2]
          exact Bool.false_ne_true
      rw [driftCount_grown hgrown, hnone', Nat.add_zero]
    · obtain rfl := Option.some.inj hsrc
      cases hnone.symm.trans hi
  | unknown src t hnone =>
    refine iff_of_true ⟨fun src' hsrc _ himported => ?_, fun src' t' hop _ snap _ known hknown => ?_, fun _ _ => rfl⟩
      fun _ src' hsrc i hi => ?_
    · obtain rfl := Option.some.inj hsrc
      exact absurd himported (h.not_imported hnone)
    · obtain ⟨rfl, rfl⟩ := Op.driftFire.inj hop
      cases (lastTold_none (h.fresh _ hnone)).symm.trans hknown
    · obtain rfl := Option.some.inj hsrc
      cases hnone.symm.trans hi
  | same src t i snap hi hsnap hsame =>
    constructor
    · intro hreported _ src' hsrc j hj
      obtain rfl := Option.some.inj hsrc
      obtain rfl := Option.some.inj (hi.symm.trans hj)
      obtain ⟨i', hi', hsub⟩ := hreported.complete src rfl ⟨_, hr⟩ (h.imported hi)
      obtain rfl := Option.some.inj (hi.symm.trans hi')
      refine ⟨(h.logged _ i hi).complete_iff.mp hsub, fun t' hop snap' hsnap' known hknown => ?_⟩
      obtain ⟨-, rfl⟩ := Op.driftFire.inj hop
      obtain rfl := Except.ok.inj (hsnap.symm.trans hsnap')
      have honce := hreported.once src t rfl ⟨_, hr⟩ snap hsnap known hknown
      refine iff_of_true hsame ?_
      by_contra hne
      rw [if_neg hne] at honce
      omega
    · intro hdone
      refine ⟨fun src' hsrc hh _ => ?_, fun src' t' hop hh snap' hsnap' known hknown => ?_, fun _ _ => rfl⟩
      · obtain rfl := Option.some.inj hsrc
        exact ⟨i, hi, (h.logged _ i hi).complete_iff.mpr (hdone hh src rfl i hi).1⟩
      · obtain ⟨rfl, rfl⟩ := Op.driftFire.inj hop
        obtain rfl := Except.ok.inj (hsnap.symm.trans hsnap')
        rw [if_pos (((hdone hh src rfl i hi).2 t rfl snap hsnap known hknown).mp hsame), Nat.add_zero]
  | drifted src t i snap rows hi hsnap hchanged hgrown =>
    have hcount : ∀ id, driftCount (actions company rows) id =
        driftCount (actions company s.rows) id + if src.sourceId = id then 1 else 0 := by
      intro id
      rw [driftCount_grown hgrown]
      by_cases hid : src.sourceId = id <;> simp [isDrift_drift, hid]
    constructor
    · intro hreported _ src' hsrc j hj
      obtain rfl := Option.some.inj hsrc
      obtain rfl := Option.some.inj (hi.symm.trans hj)
      obtain ⟨i', hi', hsub⟩ := hreported.complete src rfl ⟨_, hr⟩ (h.imported hi)
      obtain rfl := Option.some.inj (hi.symm.trans hi')
      refine ⟨(hnext.logged _ i hi).complete_iff.mp hsub, fun t' hop snap' hsnap' known hknown => ?_⟩
      obtain ⟨-, rfl⟩ := Op.driftFire.inj hop
      obtain rfl := Except.ok.inj (hsnap.symm.trans hsnap')
      have honce := hreported.once src t rfl ⟨_, hr⟩ snap hsnap known hknown
      have hone := hcount src.sourceId
      rw [if_pos rfl] at hone
      refine iff_of_false hchanged fun hsame => ?_
      rw [if_pos hsame, Nat.add_zero] at honce
      exact Nat.succ_ne_self _ (hone.symm.trans honce)
    · intro hdone
      refine ⟨fun src' hsrc hh _ => ?_, fun src' t' hop hh snap' hsnap' known hknown => ?_, fun id hid => ?_⟩
      · obtain rfl := Option.some.inj hsrc
        exact ⟨i, hi, (hnext.logged _ i hi).complete_iff.mpr (hdone hh src rfl i hi).1⟩
      · obtain ⟨rfl, rfl⟩ := Op.driftFire.inj hop
        obtain rfl := Except.ok.inj (hsnap.symm.trans hsnap')
        have hnew : snap.snapshotHash ≠ known := fun hsame =>
          hchanged (((hdone hh src rfl i hi).2 t rfl snap hsnap known hknown).mpr hsame)
        rw [if_neg hnew]
        have hone := hcount src.sourceId
        rw [if_pos rfl] at hone
        exact hone
      · have hzero := hcount id
        rw [if_neg (hid src t rfl), Nat.add_zero] at hzero
        exact hzero
  | other op new rows hop hforeign hgrown =>
    refine iff_of_true ⟨fun src hsrc => ?_, fun src t hdrift => ?_, fun id _ => ?_⟩ fun _ src hsrc => ?_
    · cases hop.symm.trans hsrc
    · subst hdrift
      cases hop
    · have hnone : new.countP (isDrift id) = 0 := List.countP_eq_zero.mpr fun a ha => by
        rw [(of_not_mirrors (mirrors_foreign (hforeign a ha) a.2)).2.1]
        exact Bool.false_ne_true
      rw [driftCount_grown hgrown, hnone, Nat.add_zero]
    · cases hop.symm.trans hsrc

end

/-- Over every sequence of calls of the two reactivities, for any sources, and of other writes: each
    step reports as it should exactly if each import that a handled trigger finds was written to its end,
    and no check after a drift finds the imported hash or the one reported last. -/
theorem reports_iff (py : Interp) (sha256 : Bytes → Bytes) (d : Ledger.Dialect) (company : UUID) (ops : List Op) :
    Run.EachStep (step py sha256 d company) (Reported py sha256 d company) .start ops ↔
      Run.Guarded (step py sha256 d company) (Undisturbed py sha256 d company) .start ops := by
  have hstart : Mirrored sha256 d company .start :=
    ⟨Ledger.sound_nil, Ledger.acting_nil, fun _ _ => rfl, fun _ _ => nofun⟩
  refine Run.eachStep_iff_guarded (I := Mirrored sha256 d company) (J := fun _ => True) ?_ (fun _ _ _ _ => trivial)
    (fun _ _ => ⟨_, rfl⟩) ?_ hstart trivial
  · intro s op s' hs hstep
    obtain rfl := Option.some.inj hstep
    exact mirrored_step hs (stepped hs op)
  · intro s op s' hs _ hstep
    obtain rfl := Option.some.inj hstep
    exact reported_iff hs op

/-! ### An import that is cut short -/

/-- A catalog with one edge. -/
def oneEdge : CatalogSnapshot := ⟨2, [⟨"model.orders", "model.revenue"⟩], [], [], "h1", by decide⟩

def dbt : Source := ⟨"s1", "finance", "dbt"⟩

/-- The database fails after the first write. -/
def cutShort : Trigger where
  read := .ok ()
  snapshot := .ok oneEdge
  attempts := fun k => ⟨Ledger.sampleMint, if k = 0 then none else some ⟨"OperationalError", "connection lost"⟩⟩

section
variable {py : Interp} {sha256 : Bytes → Bytes} {d : Ledger.Dialect} {company : UUID} {src : Source} {t : Trigger}
  {s : State}

theorem run_known (h : Mirrored sha256 d company s) {i : Import} (hi : s.imports src.sourceId = some i)
    (hread : t.read = .ok ()) : (run py sha256 d company s (.importFire src t)).1 = .ok false := by
  obtain ⟨hacts, hrows⟩ := Ledger.fetch_acting h.sound h.acting
  have hprior : hasPriorImport src.sourceId (fetch d company s.rows) = .ok true := by
    rw [fetch, hasPriorImport_eq src.sourceId hrows, hacts, (h.logged _ i hi).imported]
  rw [run, importFire, hread, hprior]
  rfl

theorem imports_cut {snap : CatalogSnapshot} {c : Cycle} {cs : List Cycle} {rows : List Entry} {x : Err}
    (hread : t.read = .ok ()) (hsnap : t.snapshot = .ok snap) (hcompanions : companions src.sourceId snap = c :: cs)
    (hfirst : emitPevr sha256 d company [] src (importCycle src snap) (t.attempts 0) = (.ok (), rows))
    (hout : (t.attempts 1).outage = some x) :
    (run py sha256 d company .start (.importFire src t)).2.imports src.sourceId = some ⟨src, snap, 0⟩ := by
  have hsecond : emitPevr sha256 d company rows src c (t.attempts 1) = (.error x, rows) := by
    rw [emitPevr, hout]
  have hnothing : hasPriorImport src.sourceId (fetch d company State.start.rows) = .ok false := rfl
  rw [run, importFire, hread, hnothing]
  simp only [Except.bind, hsnap]
  rw [show State.start.rows = [] from rfl, hfirst, hcompanions, emitAll, hsecond]
  exact Function.update_self ..

end

theorem first_import (company : UUID) : ∃ rows,
    emitPevr Ledger.tagHash .sqlite company [] dbt (importCycle dbt oneEdge) ⟨Ledger.sampleMint, none⟩ = (.ok (), rows) := by
  have hpropose : Ledger.Settled (.dict ([("target_kind", .str "external_catalog_imported"), ("ref_id", .str "s1"),
      ("reason", .str "catalog-mirror: external_catalog_imported"), ("proposed_by", .str "catalog_mirror")].map strItem)) := by
    refine Ledger.settled_dict (by simp) ?_
    simp only [List.forall_mem_cons]
    exact ⟨Ledger.settled_str _, Ledger.settled_str _, Ledger.settled_str _, Ledger.settled_str _, by simp⟩
  have hargs : ∀ p ∈ (importCycle dbt oneEdge).args, Ledger.Settled p.2 := by
    simp only [importCycle, List.forall_mem_cons]
    exact ⟨Ledger.settled_str _, Ledger.settled_str _, Ledger.settled_str _, Ledger.settled_str _,
      Ledger.settled_int rfl, Ledger.settled_int rfl, Ledger.settled_int rfl, Ledger.settled_str _, by simp⟩
  have hchecks : Ledger.Settled (.list [.dict ([("name", .str "catalog_recorded"), ("ok", .bool true)].map strItem)]) := by
    refine Ledger.settled_list fun v hv => ?_
    obtain rfl := List.mem_singleton.mp hv
    refine Ledger.settled_dict (by simp) ?_
    simp only [List.forall_mem_cons]
    exact ⟨Ledger.settled_str _, Ledger.settled_bool _, by simp⟩
  obtain ⟨res, rows, hw, -⟩ := @Ledger.first_emit company _ (importCycle dbt oneEdge).args
    (importCycle dbt oneEdge).tool "external_catalog_imported observed" (.str "s1") _ .activeDeterministic hpropose
    (importCycle dbt oneEdge).names hargs (Ledger.settled_str _) hchecks
  have hcall : Ledger.write Ledger.tagHash .sqlite [] ((importCycle dbt oneEdge).call company dbt Ledger.sampleMint) =
      (.ok res, rows) := hw
  exact ⟨rows, by rw [emitPevr, hcall]; rfl⟩

/-- The lineage of a catalog is never written when the database fails after the first entry of its import. -/
theorem cut_import_incomplete : ¬Run.EachStep (step .plain Ledger.tagHash .sqlite ⟨1⟩)
    (Reported .plain Ledger.tagHash .sqlite ⟨1⟩) .start [.importFire dbt cutShort, .importFire dbt cutShort] := by
  intro hall
  obtain ⟨-, hrest⟩ := hall _ rfl
  obtain ⟨hreported, -⟩ := hrest _ rfl
  have hstart : Mirrored Ledger.tagHash .sqlite ⟨1⟩ .start :=
    ⟨Ledger.sound_nil, Ledger.acting_nil, fun _ _ => rfl, fun _ _ => nofun⟩
  obtain ⟨rows, hfirst⟩ := first_import ⟨1⟩
  have hcut : (run .plain Ledger.tagHash .sqlite ⟨1⟩ .start (.importFire dbt cutShort)).2.imports dbt.sourceId =
      some ⟨dbt, oneEdge, 0⟩ := imports_cut rfl rfl rfl hfirst rfl
  have hmirrored := mirrored_step hstart (@stepped .plain _ _ _ _ hstart (.importFire dbt cutShort))
  have hhandled := @run_known .plain _ _ _ dbt cutShort _ hmirrored _ hcut rfl
  obtain ⟨hlen, -⟩ := (reported_iff hmirrored _).mp hreported ⟨_, hhandled⟩ dbt rfl _ hcut
  cases hlen

end CatalogMirror
