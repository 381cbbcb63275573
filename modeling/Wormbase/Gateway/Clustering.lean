import Wormbase.Lib.FirstFit
import Wormbase.Projection.Agents
import Mathlib.Analysis.Real.Sqrt

/-! Clusters of query outcomes by the similarity of their embeddings: the plain pass over all entries, and
    the pass on arrays within each domain and dimension.

    Parameters are the cosine, what numpy makes of rows of values, and its cosine as a product of
    normalised rows; a threshold is of whatever type similarities are. -/

namespace Gateway
open Py FirstFit

/-! ### Entries -/

/-- `_outcome_args`. -/
def outcomeArgs (entry : Dict) : Dict :=
  match (entry.get "payload").or (.dict []) with
  | .dict payload =>
    match (Dict.get payload "args").or (.dict []) with
    | .dict args => args
    | _ => []
  | _ => []

/-- `_resolved_domain`. -/
def resolvedDomain (py : Interp) (payload : Dict) : String :=
  let named := match (payload.get "final_query_spec").or (.dict []) with
    | .dict spec => Dict.get spec "domain_id"
    | _ => .none
  if named.truthy then named.toStr py
  else if (payload.get "domain_id").truthy then (payload.get "domain_id").toStr py
  else "_no_domain"

/-- `_entry_embedding`. -/
def entryEmbedding (entry : Dict) : Except Err (Option (List PyFloat)) :=
  Projection.readEmbedding ((outcomeArgs entry).get "embedding")

/-- `_entry_embedding_raw`. -/
def entryEmbeddingRaw (entry : Dict) : Option (List Val) :=
  match (outcomeArgs entry).get "embedding" with
  | .list (v :: vs) => some (v :: vs)
  | _ => none

/-- The entries that have an embedding, with it. -/
def embedded (entries : List Dict) : List (Dict × List Val) :=
  entries.filterMap fun e => (entryEmbeddingRaw e).map fun raw => (e, raw)

/-! ### The two passes -/

section
variable {V S : Type} [LE S] [DecidableLE S] (py : Interp)
variable (asarray : List (List Val) → Except Err (List (List PyFloat)))
variable (normalize : List PyFloat → V) (dot : V → V → S) (cosine : List PyFloat → List PyFloat → S)
variable (threshold : S)

/-- A vector joins a representative of its own dimension. -/
def joins (rep vec : List PyFloat) : Bool := rep.length = vec.length ∧ threshold ≤ cosine rep vec

/-- One entry of the plain pass. -/
def legacyStep (clusters : List (List PyFloat × List Dict)) (e : Dict) :
    Except Err (List (List PyFloat × List Dict)) := do
  match ← entryEmbedding e with
  | none => return clusters
  | some vec => return place (joins cosine threshold) clusters (vec, e)

/-- `_cluster_by_embedding_similarity_legacy`. -/
def clusterLegacy (entries : List Dict) : Except Err (List (List Dict)) := do
  let clusters ← entries.foldlM (legacyStep cosine threshold) []
  return clusters.map Prod.snd

/-- The filled rows of `rep_matrix`, and `cluster_members`. -/
structure Members (V : Type) where
  reps : List V
  members : List (List ℕ)

/-- One row: the first representative that is above the threshold takes it. -/
def Members.place (c : Members V) (row : V) (i : ℕ) : Members V :=
  match (c.reps.map fun rep => dot rep row).findIdx? fun sim => threshold ≤ sim with
  | some j => { c with members := c.members.modify j (· ++ [i]) }
  | none => ⟨c.reps ++ [row], c.members ++ [[i]]⟩

/-- `_cluster_one_bucket_vectorized`. A member is an index into the bucket. -/
def clusterOneBucket (bucket : List (Dict × List Val)) : Except Err (List (List Dict)) :=
  if bucket = [] then .ok []
  else do
    let matrix ← asarray (bucket.map Prod.snd)
    let clusters := (matrix.map normalize).zipIdx.foldl
      (fun c p => c.place dot threshold p.1 p.2) (⟨[], []⟩ : Members V)
    return clusters.members.map fun members => members.map fun i => (bucket.map Prod.fst).getD i []

/-- The entries of a domain, by dimension. -/
def clusterDomain (bucket : List (Dict × List Val)) : Except Err (List (List Dict)) := do
  let clusters ← (group (fun p => p.2.length) bucket).mapM fun sub =>
    clusterOneBucket asarray normalize dot threshold sub.2
  return clusters.flatten

/-- `_cluster_by_embedding_similarity_v2`. -/
def clusterV2 (entries : List Dict) : Except Err (List (List Dict)) := do
  let clusters ← (group (fun p => resolvedDomain py (outcomeArgs p.1)) (embedded entries)).mapM fun bucket =>
    clusterDomain asarray normalize dot threshold bucket.2
  return clusters.flatten

/-- The plain pass on the entries of each domain. -/
def clusterByDomain (entries : List Dict) : Except Err (List (List Dict)) := do
  let clusters ← (group (fun e => resolvedDomain py (outcomeArgs e)) entries).mapM fun bucket =>
    clusterLegacy cosine threshold bucket.2
  return clusters.flatten

/-! ### What numpy is relied on for -/

/-- `np.asarray` has a row for each row, and of rows of numbers of one length it makes the floats. The
    similarity of two vectors is the same by either computation. -/
structure Exact : Prop where
  rows : ∀ rows matrix, asarray rows = .ok matrix → matrix.length = rows.length
  floats : ∀ rows matrix, rows.mapM (fun row => row.mapM Val.toFloat) = .ok matrix →
    (∀ row ∈ rows, ∀ row' ∈ rows, row.length = row'.length) → asarray rows = .ok matrix
  same : ∀ a b, a.length = b.length → dot (normalize a) (normalize b) = cosine a b

/-! ### Embeddings -/

/-- Each element of the embedding, where there is one, is a number. -/
def Readable (e : Dict) : Prop :=
  ∀ raw, entryEmbeddingRaw e = some raw → ∃ vec, raw.mapM Val.toFloat = .ok vec

/-- An entry with its vector. -/
def vectorItem (e : Dict) : Option (List PyFloat × Dict) :=
  match entryEmbedding e with
  | .ok (some vec) => some (vec, e)
  | _ => none

theorem entryEmbedding_of_raw {e : Dict} {raw : List Val} {vec : List PyFloat}
    (hraw : entryEmbeddingRaw e = some raw) (hvec : raw.mapM Val.toFloat = .ok vec) :
    entryEmbedding e = .ok (some vec) := by
  rw [entryEmbeddingRaw] at hraw
  split at hraw
  · rename_i v vs hlist
    obtain rfl := Option.some.inj hraw
    simp only [entryEmbedding, hlist, Projection.readEmbedding, hvec]
  · cases hraw

theorem entryEmbedding_of_none {e : Dict} (hraw : entryEmbeddingRaw e = none) :
    entryEmbedding e = .ok none := by
  rw [entryEmbeddingRaw] at hraw
  split at hraw
  · cases hraw
  · rename_i hlist
    rw [entryEmbedding, Projection.readEmbedding]
    exact hlist

theorem raw_of_entryEmbedding {e : Dict} {vec : List PyFloat} (h : entryEmbedding e = .ok (some vec)) :
    ∃ raw, entryEmbeddingRaw e = some raw ∧ raw.mapM Val.toFloat = .ok vec := by
  cases hraw : entryEmbeddingRaw e with
  | none => cases (entryEmbedding_of_none hraw).symm.trans h
  | some raw =>
    refine ⟨raw, rfl, ?_⟩
    cases hvec : raw.mapM Val.toFloat with
    | ok vec' => cases (entryEmbedding_of_raw hraw hvec).symm.trans h; rfl
    | error x =>
      rw [entryEmbeddingRaw] at hraw
      split at hraw
      · rename_i v vs hlist
        obtain rfl := Option.some.inj hraw
        rw [entryEmbedding, hlist, Projection.readEmbedding, hvec] at h
        simp only at h
        split at h <;> cases h
      · cases hraw

theorem Readable.embedding {e : Dict} (h : Readable e) : ∃ o, entryEmbedding e = .ok o := by
  cases hraw : entryEmbeddingRaw e with
  | none => exact ⟨none, entryEmbedding_of_none hraw⟩
  | some raw =>
    obtain ⟨vec, hvec⟩ := h raw hraw
    exact ⟨some vec, entryEmbedding_of_raw hraw hvec⟩

theorem vectorItem_eq_some {e : Dict} {item : List PyFloat × Dict} (h : vectorItem e = some item) :
    item.2 = e ∧ ∃ raw, entryEmbeddingRaw e = some raw ∧ raw.mapM Val.toFloat = .ok item.1 := by
  rw [vectorItem] at h
  split at h
  · rename_i vec hvec
    obtain rfl := Option.some.inj h
    exact ⟨rfl, raw_of_entryEmbedding hvec⟩
  · exact nomatch h

/-! ### The plain pass -/

variable {asarray normalize dot cosine threshold py}

theorem foldlM_legacy_iff : ∀ {entries : List Dict} {clusters out : List (List PyFloat × List Dict)},
    entries.foldlM (legacyStep cosine threshold) clusters = .ok out ↔
      (∀ e ∈ entries, ∃ o, entryEmbedding e = .ok o) ∧
        out = (entries.filterMap vectorItem).foldl (place (joins cosine threshold)) clusters
  | [], clusters, out => by simp [pure, Except.pure, eq_comm]
  | e :: entries, clusters, out => by
    rw [List.foldlM_cons, bind_eq_ok, List.forall_mem_cons]
    cases he : entryEmbedding e with
    | error x => simp [legacyStep, he, bind, Except.bind]
    | ok o =>
      cases o with
      | none =>
        have hitem : vectorItem e = none := by rw [vectorItem, he]
        simp [legacyStep, he, bind, Except.bind, pure, Except.pure, hitem, foldlM_legacy_iff]
      | some vec =>
        have hitem : vectorItem e = some (vec, e) := by rw [vectorItem, he]
        simp [legacyStep, he, bind, Except.bind, pure, Except.pure, hitem, foldlM_legacy_iff]

/-- The plain pass is first fit on the vectors. -/
theorem clusterLegacy_iff {entries : List Dict} {clusters : List (List Dict)} :
    clusterLegacy cosine threshold entries = .ok clusters ↔
      (∀ e ∈ entries, ∃ o, entryEmbedding e = .ok o) ∧
        clusters = (run (joins cosine threshold) (entries.filterMap vectorItem)).map Prod.snd := by
  rw [clusterLegacy, bind_eq_ok]
  constructor
  · rintro ⟨out, hout, hclusters⟩
    obtain ⟨hall, rfl⟩ := foldlM_legacy_iff.mp hout
    exact ⟨hall, (Except.ok.inj hclusters).symm⟩
  · rintro ⟨hall, rfl⟩
    exact ⟨_, foldlM_legacy_iff.mpr ⟨hall, rfl⟩, rfl⟩

/-! ### One bucket of the pass on arrays -/

/-- The arrays of a list of clusters. -/
def Members.ofClusters (clusters : List (V × List ℕ)) : Members V :=
  ⟨clusters.map Prod.fst, clusters.map Prod.snd⟩

theorem Members.ofClusters_place (row : V) (i : ℕ) : ∀ clusters : List (V × List ℕ),
    (Members.ofClusters clusters).place dot threshold row i =
      Members.ofClusters (FirstFit.place (fun rep row => decide (threshold ≤ dot rep row)) clusters (row, i))
  | [] => rfl
  | c :: clusters => by
    have ih := ofClusters_place row i clusters
    simp only [Members.place, Members.ofClusters, List.map_cons, FirstFit.place, List.findIdx?_cons]
    simp only [Members.place, Members.ofClusters] at ih
    by_cases hnear : threshold ≤ dot c.1 row
    · simp [hnear]
    · simp only [hnear, decide_false, Bool.false_eq_true, if_false, List.map_cons]
      cases hidx : (List.map (fun rep => dot rep row) (List.map Prod.fst clusters)).findIdx?
          fun sim => decide (threshold ≤ sim) with
      | none =>
        rw [hidx] at ih
        simp only [Members.mk.injEq] at ih
        simp [ih.1.symm, ih.2.symm]
      | some j =>
        rw [hidx] at ih
        simp only [Members.mk.injEq] at ih
        simp [ih.1.symm, ih.2.symm]

/-- The loop over the rows is first fit. -/
theorem Members.foldl_place (rows : List (V × ℕ)) :
    rows.foldl (fun c p => c.place dot threshold p.1 p.2) (⟨[], []⟩ : Members V) =
      Members.ofClusters (run (fun rep row => decide (threshold ≤ dot rep row)) rows) := by
  induction rows using List.reverseRecOn with
  | nil => rfl
  | append_singleton rows row ih =>
    rw [List.foldl_append, ih, List.foldl_cons, List.foldl_nil, ofClusters_place, run_append]

/-- The floats of an embedding. -/
def vectorOf (raw : List Val) : List PyFloat :=
  match raw.mapM Val.toFloat with
  | .ok vec => vec
  | .error _ => []

/-- A row and the entry at its index. -/
theorem zipIdx_entries (vecs : Dict × List Val → List PyFloat) (bucket : List (Dict × List Val)) :
    ((bucket.map vecs).zipIdx.map fun q => (q.1, (bucket.map Prod.fst).getD q.2 [])) =
      bucket.map fun p => (vecs p, p.1) := by
  refine List.ext_getElem (by simp) fun i _ hi => ?_
  have hlt : i < bucket.length := by simpa using hi
  simp [hlt]

theorem clusterOneBucket_eq (hx : Exact asarray normalize dot cosine) {bucket : List (Dict × List Val)} {d : ℕ}
    (hdim : ∀ p ∈ bucket, p.2.length = d)
    (hvec : ∀ p ∈ bucket, p.2.mapM Val.toFloat = .ok (vectorOf p.2)) :
    clusterOneBucket asarray normalize dot threshold bucket =
      .ok ((run (joins cosine threshold) (bucket.map fun p => (vectorOf p.2, p.1))).map Prod.snd) := by
  rw [clusterOneBucket]
  split
  · rename_i hnil
    rw [hnil]
    rfl
  have hmatrix : asarray (bucket.map Prod.snd) = .ok ((bucket.map Prod.snd).map vectorOf) := by
    refine hx.floats _ _ (mapM_of_forall fun row hrow => ?_) fun row hrow row' hrow' => ?_
    · obtain ⟨p, hp, rfl⟩ := List.mem_map.mp hrow
      exact hvec p hp
    · obtain ⟨p, hp, rfl⟩ := List.mem_map.mp hrow
      obtain ⟨p', hp', rfl⟩ := List.mem_map.mp hrow'
      rw [hdim p hp, hdim p' hp']
  rw [hmatrix]
  simp only [bind, Except.bind, pure, Except.pure, Members.foldl_place, Members.ofClusters, List.map_map,
    Except.ok.injEq]
  -- the rows carry their indices; normalising them does not change which are near
  have hlength : ∀ q ∈ (bucket.map (vectorOf ∘ Prod.snd)).zipIdx, q.1.length = d := fun q hq => by
    obtain ⟨p, hp, hq⟩ := List.mem_map.mp (List.fst_mem_of_mem_zipIdx hq)
    rw [← hq, ← hdim p hp]
    exact mapM_length (hvec p hp)
  have hnear : ∀ a b : List PyFloat, a.length = d → b.length = d →
      decide (threshold ≤ dot (normalize a) (normalize b)) = joins cosine threshold a b := fun a b ha hb => by
    simp [joins, ha, hb, hx.same a b (ha.trans hb.symm)]
  have hrows := @run_map _ _ (joins cosine threshold) _ _ (fun rep row => decide (threshold ≤ dot rep row))
    normalize id (fun vec => vec.length = d) _ hlength hnear
  have hentries := @run_map _ _ (joins cosine threshold) _ _ (joins cosine threshold) id
    (fun i => (bucket.map Prod.fst).getD i []) (fun _ => True)
    (bucket.map (vectorOf ∘ Prod.snd)).zipIdx (fun _ _ => trivial) fun _ _ _ _ => rfl
  have hzip : (bucket.map (normalize ∘ vectorOf ∘ Prod.snd)).zipIdx =
      (bucket.map (vectorOf ∘ Prod.snd)).zipIdx.map fun q => (normalize q.1, id q.2) := by
    rw [← List.map_map, List.zipIdx_map]
    rfl
  have hitems : (bucket.map fun p => (vectorOf p.2, p.1)) = _ := (zipIdx_entries (vectorOf ∘ Prod.snd) bucket).symm
  rw [hzip, hrows, hitems]
  refine Eq.trans ?_ (congrArg (List.map Prod.snd) hentries.symm)
  rw [List.map_map, List.map_map]
  simp [Function.comp_def]

/-- Whatever numpy makes of the values, each entry of the bucket is in one cluster. -/
theorem clusterOneBucket_flatten (hx : Exact asarray normalize dot cosine) {bucket : List (Dict × List Val)}
    {clusters : List (List Dict)} (h : clusterOneBucket asarray normalize dot threshold bucket = .ok clusters) :
    clusters.flatten.Perm (bucket.map Prod.fst) := by
  rw [clusterOneBucket] at h
  split at h
  · rename_i hnil
    obtain rfl := Except.ok.inj h
    rw [hnil]
    rfl
  obtain ⟨matrix, hmatrix, h⟩ := bind_eq_ok.mp h
  obtain rfl := Except.ok.inj h
  have hlength : matrix.length = bucket.length := by rw [hx.rows _ _ hmatrix, List.length_map]
  have hindices : (List.range' 0 matrix.length).map (fun i => (bucket.map Prod.fst).getD i []) =
      bucket.map Prod.fst := by
    refine List.ext_getElem (by simp [hlength]) fun i _ hi => ?_
    have hlt : i < bucket.length := by simpa using hi
    simp [hlt]
  have hmembers := @run_flatten _ _ (fun rep row => decide (threshold ≤ dot rep row))
    (matrix.map normalize).zipIdx
  rw [List.zipIdx_map_snd, List.length_map] at hmembers
  have hall := hmembers.map fun i => (bucket.map Prod.fst).getD i []
  rw [hindices, List.map_flatMap] at hall
  rw [Members.foldl_place]
  simpa [Members.ofClusters, List.flatMap_def, Function.comp_def] using hall

/-! ### The pass on arrays -/

/-- An entry with the floats of its embedding. -/
def vectorPair (p : Dict × List Val) : List PyFloat × Dict := (vectorOf p.2, p.1)

theorem mem_embedded {entries : List Dict} {p : Dict × List Val} (h : p ∈ embedded entries) :
    p.1 ∈ entries ∧ entryEmbeddingRaw p.1 = some p.2 := by
  obtain ⟨e, he, hp⟩ := List.mem_filterMap.mp h
  obtain ⟨raw, hraw, rfl⟩ := Option.map_eq_some_iff.mp hp
  exact ⟨he, hraw⟩

theorem embedded_vector {entries : List Dict} (h : ∀ e ∈ entries, Readable e) :
    ∀ p ∈ embedded entries, p.2.mapM Val.toFloat = .ok (vectorOf p.2) := by
  intro p hp
  obtain ⟨he, hraw⟩ := mem_embedded hp
  obtain ⟨vec, hvec⟩ := h p.1 he p.2 hraw
  rw [hvec, vectorOf, hvec]

/-- The plain pass goes over the same vectors. -/
theorem embedded_vectorPair : ∀ {entries : List Dict}, (∀ e ∈ entries, Readable e) →
    (embedded entries).map vectorPair = entries.filterMap vectorItem
  | [], _ => rfl
  | e :: entries, h => by
    obtain ⟨he, hentries⟩ := List.forall_mem_cons.mp h
    have ih := embedded_vectorPair hentries
    rw [embedded] at ih ⊢
    cases hraw : entryEmbeddingRaw e with
    | none =>
      have hitem : vectorItem e = none := by rw [vectorItem, entryEmbedding_of_none hraw]
      simp only [List.filterMap_cons, hraw, hitem, Option.map_none, ih]
    | some raw =>
      obtain ⟨vec, hvec⟩ := he raw hraw
      have hitem : vectorItem e = some (vec, e) := by rw [vectorItem, entryEmbedding_of_raw hraw hvec]
      simp only [List.filterMap_cons, hraw, hitem, Option.map_some, List.map_cons, ih, vectorPair, vectorOf, hvec]

theorem clusterDomain_eq (hx : Exact asarray normalize dot cosine) {bucket : List (Dict × List Val)}
    (hvec : ∀ p ∈ bucket, p.2.mapM Val.toFloat = .ok (vectorOf p.2)) :
    clusterDomain asarray normalize dot threshold bucket =
      .ok ((bucketed (joins cosine threshold) List.length (bucket.map vectorPair)).map Prod.snd) := by
  have hsubs : (group (fun p => p.2.length) bucket).mapM (fun sub =>
      clusterOneBucket asarray normalize dot threshold sub.2) =
      .ok ((group (fun p => p.2.length) bucket).map fun sub =>
        (run (joins cosine threshold) (sub.2.map vectorPair)).map Prod.snd) := by
    refine mapM_of_forall fun sub hsub => ?_
    have hbucket := group_bucket hsub
    refine clusterOneBucket_eq (d := sub.1) hx (fun p hp => ?_) fun p hp => ?_
    · rw [hbucket] at hp
      simpa using (List.mem_filter.mp hp).2
    · rw [hbucket] at hp
      exact hvec p (List.mem_filter.mp hp).1
  have hgroups : group (fun p : List PyFloat × Dict => p.1.length) (bucket.map vectorPair) =
      (group (fun p => p.2.length) bucket).map fun b => (b.1, b.2.map vectorPair) :=
    group_map fun p hp => mapM_length (hvec p hp)
  rw [clusterDomain, hsubs, bucketed, hgroups, List.flatMap_map]
  simp [bind, Except.bind, pure, Except.pure, List.flatMap_def, List.map_flatten, Function.comp_def]

/-- The vectors of a domain. -/
def domainItems (py : Interp) (entries : List Dict) (k : String) : List (List PyFloat × Dict) :=
  (entries.filterMap vectorItem).filter fun p => resolvedDomain py (outcomeArgs p.2) = k

theorem clusterV2_eq (hx : Exact asarray normalize dot cosine) {entries : List Dict}
    (h : ∀ e ∈ entries, Readable e) : clusterV2 py asarray normalize dot threshold entries =
      .ok (((group (fun p => resolvedDomain py (outcomeArgs p.1)) (embedded entries)).map Prod.fst).flatMap
        fun k => (bucketed (joins cosine threshold) List.length (domainItems py entries k)).map Prod.snd) := by
  have hbuckets : (group (fun p => resolvedDomain py (outcomeArgs p.1)) (embedded entries)).mapM (fun bucket =>
      clusterDomain asarray normalize dot threshold bucket.2) =
      .ok ((group (fun p => resolvedDomain py (outcomeArgs p.1)) (embedded entries)).map fun bucket =>
        (bucketed (joins cosine threshold) List.length (domainItems py entries bucket.1)).map Prod.snd) := by
    refine mapM_of_forall fun bucket hbucket => ?_
    have hentries := group_bucket hbucket
    rw [clusterDomain_eq hx fun p hp => embedded_vector h p (by
      rw [hentries] at hp
      exact (List.mem_filter.mp hp).1)]
    rw [hentries, domainItems, ← embedded_vectorPair h, List.filter_map]
    rfl
  rw [clusterV2, hbuckets, List.flatMap_map]
  simp only [bind, Except.bind, pure, Except.pure, List.flatMap_def]

theorem clusterByDomain_eq {entries : List Dict} (h : ∀ e ∈ entries, Readable e) :
    clusterByDomain py cosine threshold entries =
      .ok (((group (fun e => resolvedDomain py (outcomeArgs e)) entries).map Prod.fst).flatMap
        fun k => (run (joins cosine threshold) (domainItems py entries k)).map Prod.snd) := by
  have hbuckets : (group (fun e => resolvedDomain py (outcomeArgs e)) entries).mapM (fun bucket =>
      clusterLegacy cosine threshold bucket.2) =
      .ok ((group (fun e => resolvedDomain py (outcomeArgs e)) entries).map fun bucket =>
        (run (joins cosine threshold) (domainItems py entries bucket.1)).map Prod.snd) := by
    refine mapM_of_forall fun bucket hbucket => clusterLegacy_iff.mpr ⟨fun e he => ?_, ?_⟩
    · rw [group_bucket hbucket] at he
      exact (h e (List.mem_filter.mp he).1).embedding
    · rw [group_bucket hbucket, domainItems, List.filterMap_filter, List.filter_filterMap]
      congr 2
      refine List.filterMap_congr fun e _ => ?_
      cases hitem : vectorItem e with
      | none => simp
      | some item =>
        obtain ⟨hentry, -⟩ := vectorItem_eq_some hitem
        simp [hentry, Option.filter]
  rw [clusterByDomain, hbuckets, List.flatMap_map]
  simp only [bind, Except.bind, pure, Except.pure, List.flatMap_def]

/-! ### The same clusters -/

/-- The entries with an embedding are of one domain and one dimension. -/
def OneBucket (py : Interp) (entries : List Dict) : Prop :=
  ∃ domain dim, ∀ p ∈ embedded entries, resolvedDomain py (outcomeArgs p.1) = domain ∧ p.2.length = dim

/-- Both passes return, with the same clusters: as lists where there is one bucket. -/
def SameClusters (py : Interp) (asarray : List (List Val) → Except Err (List (List PyFloat)))
    (normalize : List PyFloat → V) (dot : V → V → S) (cosine : List PyFloat → List PyFloat → S)
    (threshold : S) (entries : List Dict) : Prop :=
  ∃ clusters expected, clusterV2 py asarray normalize dot threshold entries = .ok clusters ∧
    clusterByDomain py cosine threshold entries = .ok expected ∧ clusters.Perm expected ∧
    (OneBucket py entries → clusterLegacy cosine threshold entries = .ok clusters)

theorem mem_domainItems {entries : List Dict} {k : String} (h : domainItems py entries k ≠ []) :
    ∃ p ∈ embedded entries, resolvedDomain py (outcomeArgs p.1) = k := by
  obtain ⟨item, hitem⟩ := List.exists_mem_of_ne_nil _ h
  obtain ⟨hmem, hk⟩ := List.mem_filter.mp hitem
  obtain ⟨e, he, hvec⟩ := List.mem_filterMap.mp hmem
  obtain ⟨rfl, raw, hraw, -⟩ := vectorItem_eq_some hvec
  exact ⟨(item.2, raw), List.mem_filterMap.mpr ⟨item.2, he, by rw [hraw]; rfl⟩, by simpa using hk⟩

theorem sameClusters_of_readable (hx : Exact asarray normalize dot cosine) {entries : List Dict}
    (h : ∀ e ∈ entries, Readable e) : SameClusters py asarray normalize dot cosine threshold entries := by
  refine ⟨_, _, clusterV2_eq hx h, clusterByDomain_eq h, ?_, ?_⟩
  · have hlength : ∀ a b, joins cosine threshold a b = true → a.length = b.length := by
      intro a b hjoins
      exact (of_decide_eq_true hjoins).1
    refine (List.Perm.flatMap_left _ fun k _ => (bucketed_perm hlength (domainItems py entries k)).map _).trans ?_
    refine flatMap_perm (group_keys_nodup _) (group_keys_nodup _) fun k hk => ?_
    have hitems : domainItems py entries k ≠ [] := by
      intro hnil
      exact hk (by rw [hnil]; rfl)
    obtain ⟨p, hp, rfl⟩ := mem_domainItems hitems
    exact ⟨mem_group_keys hp, mem_group_keys (mem_embedded hp).1⟩
  · rintro ⟨domain, dim, hone⟩
    refine clusterLegacy_iff.mpr ⟨fun e he => (h e he).embedding, ?_⟩
    rw [group_same (k := domain) fun p hp => (hone p hp).1]
    have hitems := embedded_vectorPair h
    split
    · rename_i hnil
      rw [← hitems, hnil]
      rfl
    · have hdomain : domainItems py entries domain = entries.filterMap vectorItem := by
        rw [domainItems, ← hitems]
        refine List.filter_eq_self.mpr fun item hitem => ?_
        obtain ⟨p, hp, rfl⟩ := List.mem_map.mp hitem
        exact decide_eq_true (hone p hp).1
      have hdim : ∀ item ∈ entries.filterMap vectorItem, item.1.length = dim := fun item hitem => by
        rw [← hitems] at hitem
        obtain ⟨p, hp, rfl⟩ := List.mem_map.mp hitem
        rw [← (hone p hp).2]
        exact mapM_length (embedded_vector h p hp)
      simp only [List.map_cons, List.map_nil, List.flatMap_cons, List.flatMap_nil, List.append_nil, hdomain,
        bucketed_same hdim]

/-! ### An embedding that is not all numbers -/

theorem mapM_flatten {α β : Type} {f : α → Except Err (List (List β))} {g : α → List β} {xs : List α}
    {out : List (List (List β))} (h : xs.mapM f = .ok out)
    (hf : ∀ x ∈ xs, ∀ ys, f x = .ok ys → ys.flatten.Perm (g x)) : out.flatten.flatten.Perm (xs.flatMap g) := by
  have hall := mapM_ok h
  clear h
  induction hall with
  | nil => rfl
  | cons hfirst _ ih =>
    obtain ⟨hx, hxs⟩ := List.forall_mem_cons.mp hf
    rw [List.flatten_cons, List.flatten_append, List.flatMap_cons]
    exact (hx _ hfirst).append (ih hxs)

theorem clusterDomain_flatten (hx : Exact asarray normalize dot cosine) {bucket : List (Dict × List Val)}
    {clusters : List (List Dict)} (h : clusterDomain asarray normalize dot threshold bucket = .ok clusters) :
    clusters.flatten.Perm (bucket.map Prod.fst) := by
  obtain ⟨out, hout, h⟩ := bind_eq_ok.mp h
  obtain rfl := Except.ok.inj h
  refine (mapM_flatten hout fun sub _ ys hys => clusterOneBucket_flatten hx hys).trans ?_
  rw [← List.map_flatMap]
  exact (group_flatten bucket).map Prod.fst

/-- The pass on arrays keeps every entry with an embedding. -/
theorem clusterV2_flatten (hx : Exact asarray normalize dot cosine) {entries : List Dict}
    {clusters : List (List Dict)} (h : clusterV2 py asarray normalize dot threshold entries = .ok clusters) :
    clusters.flatten.Perm ((embedded entries).map Prod.fst) := by
  obtain ⟨out, hout, h⟩ := bind_eq_ok.mp h
  obtain rfl := Except.ok.inj h
  refine (mapM_flatten hout fun bucket _ ys hys => clusterDomain_flatten hx hys).trans ?_
  rw [← List.map_flatMap]
  exact (group_flatten (embedded entries)).map Prod.fst

/-- The plain pass keeps those with a vector. -/
theorem clusterByDomain_flatten {entries : List Dict} {clusters : List (List Dict)}
    (h : clusterByDomain py cosine threshold entries = .ok clusters) :
    clusters.flatten.Perm ((entries.filterMap vectorItem).map Prod.snd) := by
  obtain ⟨out, hout, h⟩ := bind_eq_ok.mp h
  obtain rfl := Except.ok.inj h
  refine (mapM_flatten (g := fun bucket => (bucket.2.filterMap vectorItem).map Prod.snd) hout
    fun bucket _ ys hys => ?_).trans ?_
  · obtain ⟨-, rfl⟩ := clusterLegacy_iff.mp hys
    simpa [List.flatMap_def] using @run_flatten _ _ (joins cosine threshold) (bucket.2.filterMap vectorItem)
  · rw [← List.map_flatMap, ← List.filterMap_flatMap]
    exact ((group_flatten entries).filterMap vectorItem).map Prod.snd

theorem embedded_entries (entries : List Dict) :
    (embedded entries).map Prod.fst = entries.filter fun e => (entryEmbeddingRaw e).isSome := by
  induction entries with
  | nil => rfl
  | cons e entries ih =>
    rw [embedded] at ih ⊢
    cases hraw : entryEmbeddingRaw e with
    | none => simp [hraw, ih]
    | some raw => simp [hraw, ih]

theorem vectorItem_entries (entries : List Dict) :
    (entries.filterMap vectorItem).map Prod.snd = entries.filter fun e => (vectorItem e).isSome := by
  induction entries with
  | nil => rfl
  | cons e entries ih =>
    cases hitem : vectorItem e with
    | none => simp [hitem, ih]
    | some item => simp [hitem, ih, (vectorItem_eq_some hitem).1]

/-- A cluster of the pass on arrays is of entries of one domain that have an embedding. -/
theorem clusterV2_cluster (hx : Exact asarray normalize dot cosine) {entries : List Dict}
    {clusters : List (List Dict)} (h : clusterV2 py asarray normalize dot threshold entries = .ok clusters)
    {c : List Dict} (hc : c ∈ clusters) : c.Subperm entries ∧ (∀ e ∈ c, (entryEmbeddingRaw e).isSome) ∧
      ∃ domain, ∀ e ∈ c, resolvedDomain py (outcomeArgs e) = domain := by
  have hall : c.Subperm ((embedded entries).map Prod.fst) :=
    (List.sublist_flatten_of_mem hc).subperm.trans (clusterV2_flatten hx h).subperm
  rw [embedded_entries] at hall
  refine ⟨hall.trans List.filter_sublist.subperm, fun e he => ?_, ?_⟩
  · simpa using (List.mem_filter.mp (hall.subset he)).2
  · obtain ⟨out, hout, h⟩ := bind_eq_ok.mp h
    obtain rfl := Except.ok.inj h
    obtain ⟨cs, hcs, hmem⟩ := List.mem_flatten.mp hc
    obtain ⟨bucket, hbucket, hdomain⟩ := mapM_mem_out hout hcs
    refine ⟨bucket.1, fun e he => ?_⟩
    have hin := (clusterDomain_flatten hx hdomain).subset (List.mem_flatten.mpr ⟨c, hmem, he⟩)
    obtain ⟨p, hp, rfl⟩ := List.mem_map.mp hin
    rw [group_bucket hbucket] at hp
    simpa using (List.mem_filter.mp hp).2

/-- The one keeps as many as the other, so every embedding has a vector. -/
theorem readable_of_sameClusters (hx : Exact asarray normalize dot cosine) {entries : List Dict}
    (h : SameClusters py asarray normalize dot cosine threshold entries) : ∀ e ∈ entries, Readable e := by
  obtain ⟨clusters, expected, hv2, hlegacy, hperm, -⟩ := h
  have hkept : ((embedded entries).map Prod.fst).Perm ((entries.filterMap vectorItem).map Prod.snd) :=
    (clusterV2_flatten hx hv2).symm.trans (hperm.flatten.trans (clusterByDomain_flatten hlegacy))
  rw [embedded_entries, vectorItem_entries] at hkept
  have hsub : (entries.filter fun e => (vectorItem e).isSome).Sublist
      (entries.filter fun e => (entryEmbeddingRaw e).isSome) := by
    refine List.monotone_filter_right entries fun e hsome => ?_
    obtain ⟨item, hitem⟩ := Option.isSome_iff_exists.mp hsome
    obtain ⟨-, raw, hraw, -⟩ := vectorItem_eq_some hitem
    rw [hraw]
    rfl
  have heq := hsub.eq_of_length hkept.length_eq.symm
  intro e he raw hraw
  have hmem : e ∈ entries.filter fun e => (vectorItem e).isSome := by
    rw [heq]
    exact List.mem_filter.mpr ⟨he, by rw [hraw]; rfl⟩
  obtain ⟨item, hitem⟩ := Option.isSome_iff_exists.mp (List.mem_filter.mp hmem).2
  obtain ⟨-, raw', hraw', hvec⟩ := vectorItem_eq_some hitem
  obtain rfl := Option.some.inj (hraw.symm.trans hraw')
  exact ⟨item.1, hvec⟩

/-- The passes agree as long as every embedding is a list of numbers. -/
theorem sameClusters_iff (hx : Exact asarray normalize dot cosine) (entries : List Dict) :
    SameClusters py asarray normalize dot cosine threshold entries ↔ ∀ e ∈ entries, Readable e :=
  ⟨readable_of_sameClusters hx, sameClusters_of_readable hx⟩

end

/-! ### Real vectors -/

section

/-- The real number of a finite float. -/
noncomputable def realOf : PyFloat → ℝ
  | .finite neg mag => PyFloat.signed neg mag
  | _ => 0

noncomputable def dotReal (a b : List ℝ) : ℝ := (List.zipWith (· * ·) a b).sum

/-- `_cosine_similarity`, without rounding. -/
noncomputable def cosineReal (a b : List PyFloat) : ℝ :=
  let x := a.map realOf
  let y := b.map realOf
  if dotReal x x ≤ 0 ∨ dotReal y y ≤ 0 then 0 else dotReal x y / (√(dotReal x x) * √(dotReal y y))

/-- A row by its norm, and a row of zeros where the norm is zero. -/
noncomputable def unitRow (a : List PyFloat) : List ℝ :=
  let x := a.map realOf
  if √(dotReal x x) = 0 then x.map fun _ => 0 else x.map (· / √(dotReal x x))

theorem dotReal_map_mul (c d : ℝ) : ∀ x y : List ℝ,
    dotReal (x.map (c * ·)) (y.map (d * ·)) = c * d * dotReal x y
  | [], _ => by simp [dotReal]
  | _ :: _, [] => by simp [dotReal]
  | a :: x, b :: y => by
    have ih := dotReal_map_mul c d x y
    simp only [dotReal] at ih
    simp only [dotReal, List.map_cons, List.zipWith_cons_cons, List.sum_cons, ih]
    ring

theorem unitRow_eq (a : List PyFloat) :
    unitRow a = (a.map realOf).map ((√(dotReal (a.map realOf) (a.map realOf)))⁻¹ * ·) := by
  simp only [unitRow]
  split
  · rename_i hzero
    simp [hzero]
  · simp only [div_eq_inv_mul]

/-- The two computations of the cosine agree over the reals. -/
theorem dotReal_unitRow (a b : List PyFloat) : dotReal (unitRow a) (unitRow b) = cosineReal a b := by
  rw [unitRow_eq, unitRow_eq, dotReal_map_mul]
  simp only [cosineReal]
  split
  · rename_i hzero
    rcases hzero with hzero | hzero
    · simp [Real.sqrt_eq_zero_of_nonpos hzero]
    · simp [Real.sqrt_eq_zero_of_nonpos hzero]
  · rw [div_eq_inv_mul, mul_inv]

end

/-- The floats of rows of numbers. -/
def floatRows (rows : List (List Val)) : Except Err (List (List PyFloat)) :=
  rows.mapM fun row => row.mapM Val.toFloat

theorem exact_real : Exact floatRows unitRow dotReal cosineReal where
  rows _ _ h := mapM_length h
  floats _ _ h _ := h
  same a b _ := dotReal_unitRow a b

/-- An outcome with an embedding. -/
def outcome (embedding : List Val) : Dict :=
  [(.str "payload", .dict [(.str "args", .dict [(.str "domain_id", .str "sales"),
    (.str "embedding", .list embedding)])])]

def oneFloat : Val := .float (.finite false 1)

def zeroFloat : Val := .float (.finite false 0)

theorem sales_sameClusters : SameClusters .plain floatRows unitRow dotReal cosineReal (17 / 20)
    [outcome [oneFloat, zeroFloat], outcome [zeroFloat, zeroFloat], outcome [], outcome [oneFloat]] := by
  refine (sameClusters_iff exact_real _).mpr ?_
  simp only [List.forall_mem_cons]
  refine ⟨?_, ?_, ?_, ?_, by simp⟩ <;> intro raw hraw
  · obtain rfl := Option.some.inj hraw
    exact ⟨_, rfl⟩
  · obtain rfl := Option.some.inj hraw
    exact ⟨_, rfl⟩
  · exact nomatch hraw
  · obtain rfl := Option.some.inj hraw
    exact ⟨_, rfl⟩

theorem textEmbedding_differs : ¬∀ (py : Interp) (threshold : ℝ) (entries : List Dict),
    SameClusters py floatRows unitRow dotReal cosineReal threshold entries := by
  intro h
  have hreadable := readable_of_sameClusters exact_real (h .plain (17 / 20) [outcome [.str "n/a"]])
  obtain ⟨vec, hvec⟩ := hreadable _ List.mem_cons_self [.str "n/a"] rfl
  exact nomatch hvec

end Gateway
