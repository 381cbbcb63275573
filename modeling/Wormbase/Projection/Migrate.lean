import Mathlib.Data.Int.Order.Basic
import Mathlib.Data.List.Sort
import Mathlib.Data.List.Dedup
import Wormbase.Py.Coerce

/-! `migrate`: the runner of the versioned schema migrations.

    A migration and its row in `_schema_migrations` are one transaction of the database, which
    keeps all of it or nothing. -/

namespace Projection.Migrate
open Py

/-- A migration: `up` changes what is in the database, or raises. -/
structure Migration (δ : Type) where
  version : ℤ
  description : String
  up : δ → Except Err δ

/-- What is in the database, and the rows of `_schema_migrations` in the order of their inserts. -/
structure Database (δ : Type) where
  contents : δ
  schemaMigrations : List ℤ

/-- What can end a call from outside. -/
inductive Halt where
  | fails (x : Err)
  | stops

/-- A call: its migrations, and what comes in its way: before the first migration, at each version
    and after the last. -/
structure Call (δ : Type) where
  migrations : List (Migration δ)
  prepare : Option Halt
  world : ℤ → Option Halt
  stopsAtEnd : Bool

/-- How a call ends. One that raises at a migration names its version in the log. -/
inductive Outcome where
  | returned (newlyApplied : List ℤ)
  | raised (version : Option ℤ) (x : Err)
  | stopped

variable {δ : Type}

abbrev versions (ms : List (Migration δ)) : List ℤ := ms.map (·.version)

/-- `f"{versions}"`. -/
def versionsText (vs : List ℤ) : String :=
  "[" ++ ", ".intercalate (vs.map fun v => String.ofList (intText v)) ++ "]"

/-- The guard against a list out of order or with a version twice. -/
def checkVersions (vs : List ℤ) : Except Err Unit :=
  if vs ≠ vs.insertionSort (· ≤ ·) then
    .error ⟨"RuntimeError", "migrations must be ordered by version; got " ++ versionsText vs⟩
  else if vs.length ≠ vs.dedup.length then
    .error ⟨"RuntimeError", "duplicate migration versions: " ++ versionsText vs⟩
  else .ok ()

/-- `max(applied) if applied else 0`. -/
def cursor (db : Database δ) : ℤ :=
  db.schemaMigrations.max?.getD 0

def pending (db : Database δ) (ms : List (Migration δ)) : List (Migration δ) :=
  ms.filter fun m => cursor db < m.version

/-- One transaction: the migration, then its row, whose version is the primary key. -/
def apply (db : Database δ) (m : Migration δ) : Option Halt → Except Halt (Database δ)
  | some h => .error h
  | none =>
    match m.up db.contents with
    | .error x => .error (.fails x)
    | .ok contents =>
      if m.version ∈ db.schemaMigrations then
        .error (.fails ⟨"IntegrityError", "_schema_migrations.version"⟩)
      else .ok ⟨contents, db.schemaMigrations ++ [m.version]⟩

def Halt.outcome (version : Option ℤ) : Halt → Outcome
  | .fails x => .raised version x
  | .stops => .stopped

/-- The loop over the pending migrations. -/
def applyAll (world : ℤ → Option Halt) (stopsAtEnd : Bool) :
    List (Migration δ) → List ℤ → Database δ → Database δ × Outcome
  | [], newlyApplied, db => (db, if stopsAtEnd then .stopped else .returned newlyApplied)
  | m :: ms, newlyApplied, db =>
    match apply db m (world m.version) with
    | .error h => (db, h.outcome (some m.version))
    | .ok db => applyAll world stopsAtEnd ms (newlyApplied ++ [m.version]) db

/-- `migrate`. -/
def migrate (db : Database δ) (c : Call δ) : Database δ × Outcome :=
  match checkVersions (versions c.migrations) with
  | .error x => (db, .raised none x)
  | .ok () =>
    match c.prepare with
    | some h => (db, h.outcome none)
    | none => applyAll c.world c.stopsAtEnd (pending db c.migrations) [] db

/-- What calls one after the other make of a database that no migration was applied to. -/
def run (contents : δ) (calls : List (Call δ)) : Database δ :=
  calls.foldl (fun db c => (migrate db c).1) ⟨contents, []⟩

/-! ### The guard -/

theorem checkVersions_ok {vs : List ℤ} (h : checkVersions vs = .ok ()) : vs.Pairwise (· < ·) := by
  unfold checkVersions at h
  split at h
  · cases h
  rename_i hsorted
  split at h
  · cases h
  rename_i hlen
  have hle : vs.Pairwise (· ≤ ·) := by
    rw [not_not.mp hsorted]
    exact vs.pairwise_insertionSort (· ≤ ·)
  have hnodup : vs.Nodup :=
    List.dedup_eq_self.mp ((List.dedup_sublist vs).eq_of_length (not_not.mp hlen).symm)
  exact hle.imp₂ (fun _ _ hab hne => lt_of_le_of_ne hab hne) hnodup

theorem checkVersions_of_pairwise {vs : List ℤ} (h : vs.Pairwise (· < ·)) :
    checkVersions vs = .ok () := by
  have hsorted : vs.insertionSort (· ≤ ·) = vs := (h.imp fun h => le_of_lt h).insertionSort_eq
  have hnodup : vs.dedup = vs := List.dedup_eq_self.mpr (h.imp fun h => ne_of_lt h)
  simp [checkVersions, hsorted, hnodup]

/-! ### The cursor -/

theorem le_cursor {db : Database δ} {v : ℤ} (hv : v ∈ db.schemaMigrations) : v ≤ cursor db := by
  cases hmax : db.schemaMigrations.max? with
  | none => simp [List.max?_eq_none_iff.mp hmax] at hv
  | some m =>
    rw [cursor, hmax]
    exact (List.max?_eq_some_iff.mp hmax).2 v hv

/-- The cursor is zero or the version of a row. -/
theorem cursor_mem (db : Database δ) :
    (db.schemaMigrations = [] ∧ cursor db = 0) ∨ cursor db ∈ db.schemaMigrations := by
  cases hmax : db.schemaMigrations.max? with
  | none => exact Or.inl ⟨List.max?_eq_none_iff.mp hmax, by simp [cursor, hmax]⟩
  | some m =>
    rw [cursor, hmax]
    exact Or.inr (List.max?_mem hmax)

/-! ### One call -/

/-- What migrations make of the contents one after the other. -/
def ups (ms : List (Migration δ)) (contents : δ) : Except Err δ :=
  ms.foldlM (fun contents m => m.up contents) contents

theorem ups_append {as bs : List (Migration δ)} {d d' d'' : δ} (ha : ups as d = .ok d')
    (hb : ups bs d' = .ok d'') : ups (as ++ bs) d = .ok d'' := by
  rw [ups] at ha
  rw [ups, List.foldlM_append, ha]
  exact hb

theorem ups_cons {m : Migration δ} {ms : List (Migration δ)} {d d' d'' : δ}
    (hm : m.up d = .ok d') (hms : ups ms d' = .ok d'') : ups (m :: ms) d = .ok d'' := by
  rw [ups, List.foldlM_cons, hm]
  exact hms

/-- How a call ends that committed the versions `done` and had `rest` before it. -/
def Outcome.Fits (done rest : List ℤ) : Outcome → Prop
  | .returned newlyApplied => rest = [] ∧ newlyApplied = done
  | .raised (some v) _ => rest.head? = some v
  | .raised none _ => done = []
  | .stopped => True

/-- A transaction that commits leaves the migration and its row. -/
theorem apply_ok {db db' : Database δ} {m : Migration δ} {w : Option Halt}
    (h : apply db m w = .ok db') : m.up db.contents = .ok db'.contents ∧
    db'.schemaMigrations = db.schemaMigrations ++ [m.version] := by
  cases w with
  | some h' => cases h
  | none =>
    simp only [apply] at h
    cases hup : m.up db.contents with
    | error x =>
      rw [hup] at h
      cases h
    | ok contents =>
      rw [hup] at h
      dsimp only at h
      split at h
      · cases h
      · cases h
        exact ⟨rfl, rfl⟩

theorem Halt.outcome_fits (h : Halt) (v : ℤ) (done rest : List ℤ) :
    (h.outcome (some v)).Fits done (v :: rest) := by
  cases h with
  | fails x => exact rfl
  | stops => trivial

/-- The loop commits a prefix of what is pending. -/
theorem applyAll_spec (world : ℤ → Option Halt) (stopsAtEnd : Bool) :
    ∀ (ms : List (Migration δ)) (newlyApplied : List ℤ) (db : Database δ),
    ∃ done rest, ms = done ++ rest ∧
      let r := applyAll world stopsAtEnd ms newlyApplied db
      r.1.schemaMigrations = db.schemaMigrations ++ versions done ∧
      ups done db.contents = .ok r.1.contents ∧
      r.2.Fits (newlyApplied ++ versions done) (versions rest)
  | [], newlyApplied, db => by
    refine ⟨[], [], rfl, (List.append_nil _).symm, rfl, ?_⟩
    cases stopsAtEnd with
    | true => trivial
    | false => exact ⟨rfl, (List.append_nil _).symm⟩
  | m :: ms, newlyApplied, db => by
    cases happly : apply db m (world m.version) with
    | error h =>
      refine ⟨[], m :: ms, rfl, ?_⟩
      simp only [applyAll, happly]
      exact ⟨(List.append_nil _).symm, rfl, h.outcome_fits m.version _ (versions ms)⟩
    | ok db' =>
      obtain ⟨hup, hrow⟩ := apply_ok happly
      obtain ⟨done, rest, hsplit, hrows, hups, hfits⟩ :=
        applyAll_spec world stopsAtEnd ms (newlyApplied ++ [m.version]) db'
      refine ⟨m :: done, rest, by rw [hsplit, List.cons_append], ?_⟩
      simp only [applyAll, happly]
      refine ⟨?_, ups_cons hup hups, ?_⟩
      · rw [hrows, hrow, List.append_assoc]
        rfl
      · rw [List.append_assoc] at hfits
        exact hfits

/-- A call commits a prefix of what is pending; all of it when it returns. -/
theorem migrate_spec (db : Database δ) (c : Call δ) :
    ∃ done rest, pending db c.migrations = done ++ rest ∧
      (migrate db c).1.schemaMigrations = db.schemaMigrations ++ versions done ∧
      ups done db.contents = .ok (migrate db c).1.contents ∧
      (migrate db c).2.Fits (versions done) (versions rest) := by
  cases hcheck : checkVersions (versions c.migrations) with
  | error x =>
    refine ⟨[], pending db c.migrations, rfl, ?_⟩
    simp only [migrate, hcheck]
    exact ⟨(List.append_nil _).symm, rfl, rfl⟩
  | ok _ =>
    cases hprep : c.prepare with
    | some h =>
      refine ⟨[], pending db c.migrations, rfl, ?_⟩
      simp only [migrate, hcheck, hprep]
      refine ⟨(List.append_nil _).symm, rfl, ?_⟩
      cases h with
      | fails x => exact rfl
      | stops => trivial
    | none =>
      obtain ⟨done, rest, h⟩ := applyAll_spec c.world c.stopsAtEnd (pending db c.migrations) [] db
      refine ⟨done, rest, h.1, ?_⟩
      simp only [migrate, hcheck, hprep]
      exact h.2

theorem migrate_unchecked {db : Database δ} {c : Call δ} {x : Err}
    (h : checkVersions (versions c.migrations) = .error x) : migrate db c = (db, .raised none x) := by
  simp only [migrate, h]

theorem versions_append (as bs : List (Migration δ)) :
    versions (as ++ bs) = versions as ++ versions bs :=
  List.map_append

theorem versions_filter (p : ℤ → Bool) (ms : List (Migration δ)) :
    versions (ms.filter fun m => p m.version) = (versions ms).filter p :=
  (List.filter_map (p := p)).symm

theorem pending_above {db : Database δ} {ms : List (Migration δ)} {v : ℤ}
    (h : v ∈ versions (pending db ms)) : cursor db < v := by
  rw [pending, versions_filter fun v => cursor db < v] at h
  simpa using (List.mem_filter.mp h).2

theorem pending_increasing {db : Database δ} {ms : List (Migration δ)}
    (h : (versions ms).Pairwise (· < ·)) : (versions (pending db ms)).Pairwise (· < ·) := by
  rw [pending, versions_filter fun v => cursor db < v]
  exact h.sublist List.filter_sublist

/-- In an increasing list, what stands before a version is what is below it. -/
theorem before_eq_filter {as bs : List (Migration δ)} {v : ℤ}
    (h : (versions (as ++ bs)).Pairwise (· < ·)) (hv : (versions bs).head? = some v) :
    as = (as ++ bs).filter (·.version < v) := by
  obtain ⟨t, ht⟩ := List.head?_eq_some_iff.mp hv
  rw [versions_append, List.pairwise_append] at h
  obtain ⟨-, hbs, hacross⟩ := h
  have hvbs : v ∈ versions bs := by
    rw [ht]
    exact List.mem_cons_self
  have has : as.filter (·.version < v) = as := by
    refine List.filter_eq_self.mpr fun m hm => ?_
    exact decide_eq_true (hacross m.version (List.mem_map_of_mem hm) v hvbs)
  have hrest : bs.filter (·.version < v) = [] := by
    refine List.filter_eq_nil_iff.mpr fun m hm => ?_
    have hmem : m.version ∈ v :: t := ht ▸ List.mem_map_of_mem hm
    rw [ht, List.pairwise_cons] at hbs
    rcases List.mem_cons.mp hmem with heq | htail
    · simp [heq]
    · have := hbs.1 _ htail
      simp only [decide_eq_true_eq]
      omega
  rw [List.filter_append, has, hrest, List.append_nil]

/-- The rows stay in increasing order. -/
theorem migrate_increasing {db : Database δ} (c : Call δ)
    (h : db.schemaMigrations.Pairwise (· < ·)) :
    (migrate db c).1.schemaMigrations.Pairwise (· < ·) := by
  cases hcheck : checkVersions (versions c.migrations) with
  | error x =>
    rw [migrate_unchecked hcheck]
    exact h
  | ok _ =>
    obtain ⟨done, rest, hsplit, hrows, -, -⟩ := migrate_spec db c
    have hpending := @pending_increasing δ db _ (checkVersions_ok hcheck)
    have hdone : versions done <+: versions (pending db c.migrations) := by
      rw [hsplit, versions_append]
      exact List.prefix_append _ _
    rw [hrows, List.pairwise_append]
    refine ⟨h, hpending.sublist hdone.sublist, fun v hv w hw => ?_⟩
    have hw := pending_above (hdone.subset hw)
    have hv := le_cursor hv
    omega

/-- A call that returns has applied each version above the highest one that was applied. -/
theorem migrate_returned {db : Database δ} {c : Call δ} {newly : List ℤ}
    (h : (migrate db c).2 = .returned newly) : (migrate db c).1.schemaMigrations =
      db.schemaMigrations ++ (versions c.migrations).filter (cursor db < ·) := by
  obtain ⟨done, rest, hsplit, hrows, -, hfits⟩ := migrate_spec db c
  rw [h] at hfits
  obtain rfl : rest = [] := List.map_eq_nil_iff.mp hfits.1
  rw [hrows, ← versions_filter fun v => cursor db < v, ← pending, hsplit, List.append_nil]

/-- A call that raises at a version has applied those above the highest one that are before it. -/
theorem migrate_raised {db : Database δ} {c : Call δ} {v : ℤ} {x : Err}
    (h : (migrate db c).2 = .raised (some v) x) : v ∈ versions c.migrations ∧ cursor db < v ∧
    (migrate db c).1.schemaMigrations = db.schemaMigrations ++
      (versions c.migrations).filter fun w => cursor db < w ∧ w < v := by
  cases hcheck : checkVersions (versions c.migrations) with
  | error y =>
    rw [migrate_unchecked hcheck] at h
    cases h
  | ok _ =>
    obtain ⟨done, rest, hsplit, hrows, -, hfits⟩ := migrate_spec db c
    rw [h] at hfits
    have hpending := @pending_increasing δ db _ (checkVersions_ok hcheck)
    rw [hsplit] at hpending
    have hdone := before_eq_filter hpending hfits
    have hv : v ∈ versions (pending db c.migrations) := by
      rw [hsplit, versions_append]
      exact List.mem_append_right _ (List.mem_of_mem_head? hfits)
    have hmem := hv
    rw [pending, versions_filter fun v => cursor db < v] at hmem
    refine ⟨(List.mem_filter.mp hmem).1, pending_above hv, ?_⟩
    rw [hrows, hdone, ← hsplit, versions_filter fun w => w < v, pending,
      versions_filter fun w => cursor db < w, List.filter_filter]
    congr 1
    refine List.filter_congr fun w _ => ?_
    simp [and_comm]

/-! ### Runs -/

theorem run_concat (contents : δ) (calls : List (Call δ)) (c : Call δ) :
    run contents (calls ++ [c]) = (migrate (run contents calls) c).1 :=
  List.foldl_concat ..

/-- What is in a database is what the applied migrations made of it, each once and in order. -/
theorem run_applied (contents : δ) (calls : List (Call δ)) : ∃ log : List (Migration δ),
    versions log = (run contents calls).schemaMigrations ∧
    (versions log).Pairwise (· < ·) ∧ ups log contents = .ok (run contents calls).contents := by
  induction calls using List.reverseRecOn with
  | nil => exact ⟨[], rfl, List.Pairwise.nil, rfl⟩
  | append_singleton calls c ih =>
    obtain ⟨log, hrows, hinc, hups⟩ := ih
    obtain ⟨done, rest, -, hrows', hups', -⟩ := migrate_spec (run contents calls) c
    rw [run_concat]
    have hversions : versions (log ++ done) =
        (migrate (run contents calls) c).1.schemaMigrations := by
      rw [versions_append, hrows', ← hrows]
    refine ⟨log ++ done, hversions, ?_, ups_append hups hups'⟩
    rw [hversions]
    exact migrate_increasing c (hrows ▸ hinc)

/-- The lists of the calls have positive versions in order, and grow by higher versions. -/
def GrowAtEnd (calls : List (Call δ)) : Prop :=
  (∀ c ∈ calls, (versions c.migrations).Pairwise (· < ·) ∧ ∀ v ∈ versions c.migrations, 0 < v) ∧
  calls.Pairwise fun c c' => versions c.migrations <+: versions c'.migrations

theorem GrowAtEnd.sublist {calls calls' : List (Call δ)} (h : GrowAtEnd calls)
    (hsub : calls'.Sublist calls) : GrowAtEnd calls' :=
  ⟨fun c hc => h.1 c (hsub.subset hc), h.2.sublist hsub⟩

/-- Where the rows are the start of a list, what is pending is the rest of it. -/
theorem pending_of_prefix {db : Database δ} {ms : List (Migration δ)}
    (hinc : (versions ms).Pairwise (· < ·)) (hpos : ∀ v ∈ versions ms, 0 < v)
    (hpre : db.schemaMigrations <+: versions ms) :
    db.schemaMigrations ++ versions (pending db ms) = versions ms := by
  obtain ⟨t, ht⟩ := hpre
  have hrows : db.schemaMigrations.filter (cursor db < ·) = [] := by
    refine List.filter_eq_nil_iff.mpr fun v hv => ?_
    have := le_cursor hv
    simp only [decide_eq_true_eq]
    omega
  have hrest : t.filter (cursor db < ·) = t := by
    refine List.filter_eq_self.mpr fun v hv => decide_eq_true ?_
    rcases cursor_mem db with ⟨-, hzero⟩ | hmem
    · rw [hzero]
      exact hpos v (ht ▸ List.mem_append_right _ hv)
    · rw [← ht, List.pairwise_append] at hinc
      exact hinc.2.2 _ hmem v hv
  rw [pending, versions_filter fun v => cursor db < v, ← ht, List.filter_append, hrows, hrest,
    List.nil_append]

/-- A call leaves a start of its list, if there was one before. -/
theorem migrate_start {db : Database δ} {c : Call δ}
    (hinc : (versions c.migrations).Pairwise (· < ·)) (hpos : ∀ v ∈ versions c.migrations, 0 < v)
    (hpre : db.schemaMigrations <+: versions c.migrations) :
    (migrate db c).1.schemaMigrations <+: versions c.migrations := by
  obtain ⟨done, rest, hsplit, hrows, -, -⟩ := migrate_spec db c
  refine ⟨versions rest, ?_⟩
  rw [hrows, List.append_assoc, ← versions_append, ← hsplit]
  exact pending_of_prefix hinc hpos hpre

theorem run_start {contents : δ} {calls : List (Call δ)} {c : Call δ}
    (h : GrowAtEnd (calls ++ [c])) :
    (run contents calls).schemaMigrations <+: versions c.migrations := by
  induction calls using List.reverseRecOn generalizing c with
  | nil => exact List.nil_prefix
  | append_singleton calls last ih =>
    have hlast := h.1 last (by simp)
    have hstart := ih (h.sublist (List.sublist_append_left _ _))
    rw [run_concat]
    refine (migrate_start hlast.1 hlast.2 hstart).trans ?_
    exact (List.pairwise_append.mp h.2).2.2 last (by simp) c (by simp)

/-- In every run, each migration is applied at most once and in increasing order: a call that
    returns applies those above the highest applied version, one that raises those of them before
    the failing version. Where lists grow at their end only, that is the whole list, or its start. -/
theorem migrate_in_order (contents : δ) (calls : List (Call δ)) (c : Call δ) :
    let db := run contents calls
    let r := migrate db c
    (∃ log : List (Migration δ), versions log = r.1.schemaMigrations ∧
      (versions log).Pairwise (· < ·) ∧ ups log contents = .ok r.1.contents) ∧
    (∀ newly, r.2 = .returned newly → r.1.schemaMigrations =
      db.schemaMigrations ++ (versions c.migrations).filter (cursor db < ·)) ∧
    (∀ v x, r.2 = .raised (some v) x → v ∈ versions c.migrations ∧ cursor db < v ∧
      r.1.schemaMigrations = db.schemaMigrations ++
        (versions c.migrations).filter fun w => cursor db < w ∧ w < v) ∧
    (GrowAtEnd (calls ++ [c]) →
      (∀ newly, r.2 = .returned newly → r.1.schemaMigrations = versions c.migrations) ∧
      ∀ v x, r.2 = .raised (some v) x →
        r.1.schemaMigrations ++ [v] <+: versions c.migrations) := by
  refine ⟨run_concat contents calls c ▸ run_applied contents (calls ++ [c]),
    fun newly h => migrate_returned h, fun v x h => migrate_raised h, fun hgrow => ?_⟩
  have hc := hgrow.1 c (by simp)
  have hall := pending_of_prefix hc.1 hc.2 (@run_start δ contents calls c hgrow)
  obtain ⟨done, rest, hsplit, hrows, -, hfits⟩ := migrate_spec (run contents calls) c
  constructor
  · intro newly hret
    rw [hret] at hfits
    obtain rfl : rest = [] := List.map_eq_nil_iff.mp hfits.1
    rw [List.append_nil] at hsplit
    rw [hrows, ← hsplit, hall]
  · intro v x hraised
    rw [hraised] at hfits
    obtain ⟨t, ht⟩ := List.head?_eq_some_iff.mp hfits
    refine ⟨t, ?_⟩
    rw [← hall, hsplit, hrows, versions_append, ht, List.append_assoc, List.append_assoc,
      List.singleton_append]

/-! ### A version that comes late -/

/-- A migration that counts the migrations. -/
def counting (v : ℤ) : Migration ℕ := ⟨v, "", fun n => .ok (n + 1)⟩

/-- A call that nothing comes in the way of. -/
def calling (vs : List ℤ) : Call ℕ := ⟨vs.map counting, none, fun _ => none, false⟩

theorem growing_applies : (migrate (run 0 [calling [1]]) (calling [1, 2])).1.schemaMigrations =
    [1, 2] := by
  have hgrow : GrowAtEnd ([calling [1]] ++ [calling [1, 2]]) := by
    simp [GrowAtEnd, calling, counting]
  exact ((migrate_in_order 0 [calling [1]] (calling [1, 2])).2.2.2 hgrow).1 [2] rfl

/-- A version that joins the list below the highest applied one is skipped by a call that returns. -/
theorem late_version_skipped :
    let db := run 0 [calling [1, 3]]
    (migrate db (calling [1, 2, 3])).2 = .returned [] ∧
    (2 : ℤ) ∈ versions (calling [1, 2, 3]).migrations ∧
    2 ∉ (migrate db (calling [1, 2, 3])).1.schemaMigrations :=
  ⟨rfl, by decide, by decide⟩

end Projection.Migrate
