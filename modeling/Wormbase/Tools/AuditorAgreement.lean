import Wormbase.Tools.Exported
import Wormbase.Ledger.Commit

/-! The auditor's verifier and the ledger's, on one list of entries.

    What is read of an exported entry has the canonical JSON of the entry, so both walks meet the same hashes.
    They part on the empty list only, which the loader refuses. -/

namespace Tools
open Py
open Ledger (Entry)

/-! ### Canonical JSON -/

/-- The hashed fields of an entry. -/
def bodyFields (e : Entry) : List (String × Val) :=
  [("entry_id", .uuid e.entryId), ("company_id", .uuid e.companyId), ("seq", .int e.seq), ("ts", .datetime e.ts),
    ("kind", .str e.kind.text), ("quadrant", .str e.quadrant.text), ("payload", e.payload), ("prev_hash", .bytes e.prevHash)]

def NotHash (p : String × Val) : Bool := p.1 ≠ "hash"

theorem view_strItems (D : List (String × Val)) :
    ((D.map strItem).filter fun p => p.1 ≠ .str "hash") = (D.filter NotHash).map strItem := by
  rw [List.filter_map]
  refine congrArg _ (List.filter_congr fun p _ => ?_)
  simp [strItem, NotHash]

theorem sameText_instant {t : DateTime} {o : Offset} {u : Fin maxMicros} (ho : t.utcoffset = some o)
    (hu : t.instant o = some u) : SameText (.datetime t) (.datetime ⟨u, some DateTime.utc⟩) := by
  have htext : ∀ {t : DateTime} {o : Offset} {u : Fin maxMicros}, t.utcoffset = some o → t.instant o = some u →
      isoText t = .ok (String.ofList (isoZ u)) := by
    intro t o u ho hu
    rw [isoText, ho]
    dsimp only
    rw [hu]
  have hback : isoText ⟨u, some DateTime.utc⟩ = .ok (String.ofList (isoZ u)) := htext rfl (DateTime.instant_utc _)
  rw [SameText, encode, encode, htext ho hu, hback]

theorem sameText_reads {e : Entry} {found : Dict} (h : Reads e found) :
    SameText (.dict (e.dict.filter fun p => p.1 ≠ .str "hash")) (.dict (found.filter fun p => p.1 ≠ .str "hash")) := by
  obtain ⟨F, u, w, rfl, hperm, ⟨o, ho, hu⟩, hw⟩ := h
  have hview : (e.dict.filter fun p => p.1 ≠ .str "hash") = (bodyFields e).map strItem := rfl
  rw [hview, view_strItems]
  refine @sameText_dict (bodyFields e) ((readFields e u w).filter NotHash) _ ?_ rfl ?_ (hperm.filter _).symm
  · simp [bodyFields]
  · exact .cons rfl (.cons rfl (.cons rfl (.cons (sameText_instant ho hu) (.cons rfl (.cons rfl
      (.cons (JsonOf.sameText _ _ hw) (.cons rfl .nil)))))))

section
variable {sha256 : Bytes → Bytes}

theorem computeEntryHash_reads {e : Entry} {found : Dict} (h : Reads e found) {x : Bytes} :
    computeEntryHash sha256 found = .ok x ↔ Ledger.computeEntryHash sha256 e.dict = .ok x := by
  have hjson : ∀ s, canonicalJson found = .ok s ↔ Ledger.canonicalJson e.dict = .ok s := by
    intro s
    rw [canonicalJson, Ledger.canonicalJson, bind_eq_ok, bind_eq_ok]
    exact exists_congr fun j => and_congr_left' (sameText_reads h).encode_iff.symm
  rw [computeEntryHash, Ledger.computeEntryHash, bind_eq_ok, bind_eq_ok]
  exact exists_congr fun s => and_congr_left' (hjson s)

/-! ### The two walks -/

theorem Reads.fields {e : Entry} {found : Dict} (h : Reads e found) : found.get "prev_hash" = .bytes e.prevHash ∧
    found.get "hash" = .bytes e.hash ∧ found.get "company_id" = .str e.companyId.str ∧ seqOf found = .ok (e.seq : ℤ) := by
  obtain ⟨F, u, w, rfl, hperm, -, -⟩ := h
  have hnodup : (F.map Prod.fst).Nodup := (hperm.map Prod.fst).nodup_iff.mpr (by simp [readFields])
  have hmem : ∀ {p}, p ∈ readFields e u w → p ∈ F := hperm.mem_iff.mpr
  refine ⟨get_strItems hnodup (hmem (by simp [readFields])), get_strItems hnodup (hmem (by simp [readFields])),
    get_strItems hnodup (hmem (by simp [readFields])), ?_⟩
  have hseq : Dict.get? (F.map strItem) "seq" = some (.int e.seq) := get?_strItems hnodup (hmem (by simp [readFields]))
  rw [seqOf, Dict.item, hseq]
  rfl

/-- One accepted step of the auditor's walk. -/
theorem verifyFrom_cons_iff {prev h : Bytes} {seen : List ℤ} {i : ℕ} {e : Dict} {es : List Dict} :
    verifyFrom sha256 prev seen i (e :: es) = .ok h ↔ ∃ seq, seqOf e = .ok seq ∧ seq ∉ seen ∧
      e.get "prev_hash" = .bytes prev ∧ ∃ x, computeEntryHash sha256 e = .ok x ∧ e.get "hash" = .bytes x ∧
        verifyFrom sha256 x (seq :: seen) (i + 1) es = .ok h := by
  rw [verifyFrom, bind_eq_ok]
  refine exists_congr fun seq => and_congr_right fun _ => ?_
  by_cases hseen : seq ∈ seen
  · simp [hseen, throw, throwThe, MonadExceptOf.throw, bind, Except.bind]
  · by_cases hlink : e.get "prev_hash" = .bytes prev
    · rw [if_neg hseen]
      simp only [Ledger.sameBytes_iff.mpr hlink]
      cases hx : computeEntryHash sha256 e with
      | error y => simp [bind, Except.bind]
      | ok x =>
        by_cases hseal : e.get "hash" = .bytes x
        · have hseal' : Ledger.sameBytes (.bytes x) x = true := Ledger.sameBytes_iff.mpr rfl
          simp [hseen, hlink, hseal, hseal', bind, Except.bind]
        · have hseal' : Ledger.sameBytes (e.get "hash") x = false := by simpa using mt Ledger.sameBytes_iff.mp hseal
          cases e.item "hash" with
          | error y => simp [hseal', hseal, bind, Except.bind]
          | ok v => cases hhex : hexOf v <;>
              simp [hseal', hseal, hhex, throw, throwThe, MonadExceptOf.throw, bind, Except.bind]
    · have hlink' : Ledger.sameBytes (e.get "prev_hash") prev = false := by simpa using mt Ledger.sameBytes_iff.mp hlink
      simp [hseen, hlink, hlink', throw, throwThe, MonadExceptOf.throw, bind, Except.bind]

end

section
variable {sha256 : Bytes → Bytes}

/-- The auditor's walk ends with the tip of the chain exactly where the ledger's accepts. -/
theorem verifyFrom_iff {entries : List Entry} {found : List Dict} (hreads : List.Forall₂ Reads entries found) :
    ∀ {prev h : Bytes} {seen : List ℤ} {i j : ℕ}, entries.Pairwise (·.seq < ·.seq) →
      (∀ e ∈ entries, ∀ s ∈ seen, s < (e.seq : ℤ)) → (verifyFrom sha256 prev seen i found = .ok h ↔
        Ledger.verifyFrom sha256 prev j (entries.map Entry.dict) = .ok (true, none) ∧
          h = HashChain.tip Entry.hash prev entries) := by
  induction hreads with
  | nil =>
    intro prev h seen i j _ _
    simp [verifyFrom, Ledger.verifyFrom, eq_comm]
  | @cons e f es fs hread _ ih =>
    intro prev h seen i j hseqs hseen
    obtain ⟨hprev, hhash, -, hseq⟩ := hread.fields
    obtain ⟨hfirst, hseqs⟩ := List.pairwise_cons.mp hseqs
    obtain ⟨hnew, hseen⟩ := List.forall_mem_cons.mp hseen
    have hfresh : (e.seq : ℤ) ∉ seen := fun h => absurd (hnew _ h) (lt_irrefl _)
    have hlater : ∀ e' ∈ es, ∀ s ∈ (e.seq : ℤ) :: seen, s < (e'.seq : ℤ) := by
      intro e' he'
      rw [List.forall_mem_cons]
      exact ⟨by exact_mod_cast hfirst e' he', hseen e' he'⟩
    have hget : Dict.get e.dict "prev_hash" = .bytes e.prevHash ∧ Dict.get e.dict "hash" = .bytes e.hash := ⟨rfl, rfl⟩
    rw [verifyFrom_cons_iff, List.map_cons, Ledger.verifyFrom_cons_iff, hget.1, hget.2, HashChain.tip_cons]
    simp only [hseq, Except.ok.injEq, exists_eq_left', hfresh, not_false_eq_true, true_and, hprev, hhash,
      computeEntryHash_reads hread]
    constructor
    · rintro ⟨hlink, x, hx, hseal, hrest⟩
      obtain rfl := Val.bytes.inj hseal
      obtain ⟨haccept, htip⟩ := (@ih e.hash h ((e.seq : ℤ) :: seen) (i + 1) (j + 1) hseqs hlater).mp hrest
      exact ⟨⟨hlink, _, hx, hseal, haccept⟩, htip⟩
    · rintro ⟨⟨hlink, x, hx, hseal, haccept⟩, htip⟩
      obtain rfl := Val.bytes.inj hseal
      exact ⟨hlink, _, hx, hseal, (@ih e.hash h ((e.seq : ℤ) :: seen) (i + 1) (j + 1) hseqs hlater).mpr ⟨haccept, htip⟩⟩

/-- What the ledger accepts has hashes of the length that the hash function gives. -/
theorem length_of_accepted (hsha : ∀ b, (sha256 b).length = 32) : ∀ {entries : List Entry} {prev : Bytes} {j : ℕ},
    prev.length = 32 → Ledger.verifyFrom sha256 prev j (entries.map Entry.dict) = .ok (true, none) →
      ∀ e ∈ entries, e.prevHash.length = 32 ∧ e.hash.length = 32
  | [], _, _, _, _ => by simp
  | e :: es, prev, j, hprev, h => by
    rw [List.map_cons, Ledger.verifyFrom_cons_iff] at h
    obtain ⟨hlink, x, hx, hseal, h⟩ := h
    obtain ⟨s, -, hs⟩ := bind_eq_ok.mp hx
    have hlen : x.length = 32 := by rw [← Except.ok.inj hs, hsha]
    obtain rfl : e.prevHash = prev := Val.bytes.inj hlink
    obtain rfl : e.hash = x := Val.bytes.inj hseal
    rw [List.forall_mem_cons]
    exact ⟨⟨hprev, hlen⟩, length_of_accepted hsha hlen h⟩

/-! ### The loader -/

variable {py : Interp} {depth : ℕ} {path : String}

theorem parseLines {entries : List Entry} {lines : List (List Char)} (hlines : List.Forall₂ (Exported depth) entries lines)
    (hlen : ∀ e ∈ entries, e.prevHash.length = 32 ∧ e.hash.length = 32) : ∀ n, ∃ found,
      ((lines.zipIdx n).mapM fun raw => parseLine py depth raw.2 (stripped raw.1)) = .ok found ∧
        List.Forall₂ Reads entries found := by
  induction hlines with
  | nil => exact fun _ => ⟨[], rfl, .nil⟩
  | cons hline _ ih =>
    intro n
    obtain ⟨⟨hprev, hhash⟩, hlen⟩ := List.forall_mem_cons.mp hlen
    obtain ⟨f, hf, hread⟩ := @parseLine_exported py depth n _ _ hline hprev hhash
    obtain ⟨fs, hfs, hreads⟩ := ih hlen (n + 1)
    refine ⟨f :: fs, ?_, .cons hread hreads⟩
    rw [List.zipIdx_cons, List.mapM_cons, stripped_object hline.object, hf, hfs]
    rfl

theorem parseLines_short {entries : List Entry} {lines : List (List Char)}
    (hlines : List.Forall₂ (Exported depth) entries lines) {found : List Dict} : ∀ {n},
      ((lines.zipIdx n).mapM fun raw => parseLine py depth raw.2 (stripped raw.1)) = .ok found →
        ∀ e ∈ entries, e.prevHash.length = 32 ∧ e.hash.length = 32 := by
  induction hlines generalizing found with
  | nil => simp
  | @cons e line _ _ hline _ ih =>
    intro n h
    rw [List.zipIdx_cons, List.mapM_cons, stripped_object hline.object] at h
    obtain ⟨f, hf, h⟩ := bind_eq_ok.mp h
    obtain ⟨fs, hfs, -⟩ := bind_eq_ok.mp h
    refine List.forall_mem_cons.mpr ⟨?_, ih hfs⟩
    by_contra hshort
    obtain ⟨x, hx⟩ := @parseLine_short py depth n e line hline hshort
    rw [hx] at hf
    cases hf

theorem exported_of_mem {entries : List Entry} {lines : List (List Char)}
    (hlines : List.Forall₂ (Exported depth) entries lines) : ∀ line ∈ lines, ∃ e, Exported depth e line := by
  induction hlines with
  | nil => simp
  | cons h _ ih => exact List.forall_mem_cons.mpr ⟨⟨_, h⟩, ih⟩

/-- The lines of an exported file are the lines it was written of, and none of them is blank. -/
theorem iterSnapshot_fileOf {entries : List Entry} {lines : List (List Char)}
    (hlines : List.Forall₂ (Exported depth) entries lines) : iterSnapshot py depth path (some (fileOf lines)) =
      (lines.zipIdx).mapM fun raw => parseLine py depth raw.2 (stripped raw.1) := by
  have honeLine : ∀ line ∈ lines, ∀ c ∈ line, c ≠ '\n' ∧ c ≠ '\r' := by
    intro line hline
    obtain ⟨e, h⟩ := exported_of_mem hlines line hline
    exact h.oneLine
  rw [iterSnapshot, fileLines_fileOf honeLine]
  refine congrArg _ (List.filter_eq_self.mpr fun raw hraw => ?_)
  have hmem : raw.1 ∈ lines := List.mem_of_getElem? (List.mem_zipIdx_iff_getElem?.mp hraw)
  obtain ⟨e, h⟩ := exported_of_mem hlines raw.1 hmem
  obtain ⟨body, hbody⟩ := h.object
  rw [stripped_object h.object, hbody]
  rfl

/-- The seqs of loaded records. -/
theorem keyed_reads {entries : List Entry} {found : List Dict} (hreads : List.Forall₂ Reads entries found) :
    ∃ keyed, (found.mapM fun e => do return (← seqOf e, e)) = .ok keyed ∧ keyed.map Prod.snd = found ∧
      keyed.map Prod.fst = entries.map fun e => (e.seq : ℤ) := by
  induction hreads with
  | nil => exact ⟨[], rfl, rfl, rfl⟩
  | cons hread _ ih =>
    obtain ⟨keyed, hkeyed, hsnd, hfst⟩ := ih
    refine ⟨(_, _) :: keyed, ?_, congrArg₂ _ rfl hsnd, congrArg₂ _ rfl hfst⟩
    rw [List.mapM_cons, hread.fields.2.2.2, hkeyed]
    rfl

section
variable {entries : List Entry} {lines : List (List Char)} (hne : entries ≠ []) (hseqs : entries.Pairwise (·.seq < ·.seq))
  (hlines : List.Forall₂ (Exported depth) entries lines)
include hne hseqs hlines

/-- A snapshot in seq order is loaded in this order. -/
theorem loadSnapshot_exported (hlen : ∀ e ∈ entries, e.prevHash.length = 32 ∧ e.hash.length = 32) :
    ∃ found, loadSnapshot py depth path (some (fileOf lines)) = .ok found ∧ List.Forall₂ Reads entries found := by
  obtain ⟨found, hfound, hreads⟩ := @parseLines py depth entries lines hlines hlen 0
  obtain ⟨keyed, hkeyed, hsnd, hfst⟩ := keyed_reads hreads
  have hsorted : keyed.Pairwise fun p q => p.1 ≤ q.1 := by
    have hmap : (keyed.map Prod.fst).Pairwise (· ≤ ·) := by
      rw [hfst, List.pairwise_map]
      exact hseqs.imp fun h => by exact_mod_cast le_of_lt h
    exact List.pairwise_map.mp hmap
  have hempty : found.isEmpty = false := by
    cases hreads with
    | nil => exact absurd rfl hne
    | cons => rfl
  refine ⟨found, ?_, hreads⟩
  rw [loadSnapshot, iterSnapshot_fileOf hlines, hfound]
  simp only [bind, Except.bind, hempty]
  change (do
    let keyed ← found.mapM fun e => do return (← seqOf e, e)
    return (keyed.insertionSort fun p q => p.1 ≤ q.1).map Prod.snd : Except Err (List Dict)) = _
  rw [hkeyed]
  change Except.ok ((keyed.insertionSort fun p q => p.1 ≤ q.1).map Prod.snd) = _
  rw [hsorted.insertionSort_eq, hsnd]

/-- What is loaded reads the entries, and their hashes have 32 bytes. -/
theorem loadSnapshot_reads {found : List Dict} (h : loadSnapshot py depth path (some (fileOf lines)) = .ok found) :
    (∀ e ∈ entries, e.prevHash.length = 32 ∧ e.hash.length = 32) ∧ List.Forall₂ Reads entries found := by
  have hlen : ∀ e ∈ entries, e.prevHash.length = 32 ∧ e.hash.length = 32 := by
    rw [loadSnapshot, iterSnapshot_fileOf hlines] at h
    obtain ⟨fs, hfs, -⟩ := bind_eq_ok.mp h
    exact parseLines_short hlines hfs
  obtain ⟨found', hfound', hreads⟩ := @loadSnapshot_exported py depth path entries lines hne hseqs hlines hlen
  obtain rfl : found' = found := Except.ok.inj (hfound'.symm.trans h)
  exact ⟨hlen, hreads⟩

end

theorem verifyChain_iff {entries : List Entry} {found : List Dict} (hne : entries ≠ [])
    (hseqs : entries.Pairwise (·.seq < ·.seq)) (hreads : List.Forall₂ Reads entries found) {h : Bytes} {n : ℕ} :
    verifyChain sha256 found = .ok (h, n) ↔ Ledger.verifyChain sha256 (entries.map Entry.dict) = .ok (true, none) ∧
      h = Ledger.tipHash entries ∧ n = entries.length := by
  have hempty : found.isEmpty = false := by
    cases hreads with
    | nil => exact absurd rfl hne
    | cons => rfl
  have hwalk := @verifyFrom_iff sha256 entries found hreads genesisPrevHash h [] 0 0 hseqs (by simp)
  rw [Ledger.verifyChain, ← and_assoc]
  refine Iff.trans ?_ (and_congr_left' hwalk)
  rw [verifyChain, hempty, hreads.length_eq]
  cases verifyFrom sha256 genesisPrevHash [] 0 found <;> simp [bind, Except.bind, pure, Except.pure, eq_comm]

/-! ### The agreement -/

/-- Loading a snapshot and walking its chain. -/
def loadAndVerify (py : Interp) (sha256 : Bytes → Bytes) (depth : ℕ) (path : String) (file : Option (List Char)) :
    Except Err (Bytes × ℕ) := do
  verifyChain sha256 (← loadSnapshot py depth path file)

/-- The filter of a replay keeps the records of one company, or none of them. -/
theorem filterByTenant_reads {entries : List Entry} {found : List Dict} (hreads : List.Forall₂ Reads entries found)
    {companyId : UUID} (hcompany : ∀ e ∈ entries, e.companyId = companyId) (tenant : String) :
    filterByTenant py found (some tenant) = found ∨ filterByTenant py found (some tenant) = [] := by
  have hall : ∀ f ∈ found, (f.get "company_id").toStr py = companyId.str := by
    induction hreads with
    | nil => simp
    | cons hread _ ih =>
      obtain ⟨hfirst, hcompany⟩ := List.forall_mem_cons.mp hcompany
      refine List.forall_mem_cons.mpr ⟨?_, ih hcompany⟩
      rw [hread.fields.2.2.1, hfirst]
      rfl
  by_cases htenant : companyId.str = tenant
  · exact .inl (List.filter_eq_self.mpr fun f hf => by simp [hall f hf, htenant])
  · exact .inr (List.filter_eq_nil_iff.mpr fun f hf => by simp [hall f hf, htenant])

/-- What a replay returns was verified. -/
theorem replaySnapshot_verified {S : Type} {kpis : Kpis S} {file : Option (List Char)} {tenantId : Option String}
    {kpiId : String} {r : ReplayResult S} (h : replaySnapshot py sha256 depth kpis path file tenantId kpiId = .ok r) :
    ∃ found tenant, loadSnapshot py depth path file = .ok found ∧ filterByTenant py found (some tenant) ≠ [] ∧
      verifyChain sha256 (filterByTenant py found (some tenant)) = .ok (r.terminalHash, r.entryCount) := by
  rw [replaySnapshot] at h
  obtain ⟨found, hfound, h⟩ := bind_eq_ok.mp h
  obtain ⟨tenant, -, h⟩ := bind_eq_ok.mp h
  cases hpinned : (filterByTenant py found (some tenant)).isEmpty with
  | true => simp [hpinned, throw, throwThe, MonadExceptOf.throw, bind, Except.bind] at h
  | false =>
    simp only [hpinned, Bool.false_eq_true, if_false] at h
    obtain ⟨-, -, h⟩ := bind_eq_ok.mp h
    obtain ⟨verified, hverified, h⟩ := bind_eq_ok.mp h
    obtain ⟨state, -, h⟩ := bind_eq_ok.mp h
    obtain ⟨value, -, h⟩ := bind_eq_ok.mp h
    refine ⟨found, tenant, hfound, by simpa using hpinned, hverified.trans ?_⟩
    split at h
    · cases h
    · rw [← Except.ok.inj h]

/-- The SHA-256 of the canonical text of `sampleEntry`. -/
def sampleDigest : Bytes :=
  [236, 134, 82, 110, 91, 205, 13, 108, 197, 140, 221, 37, 118, 20, 50, 63, 110, 30, 25, 85, 33, 186, 22, 242, 185, 214,
    173, 30, 84, 101, 140, 217]

def samplePayload : Val := .dict [(.str "n", .int 1)]

def sampleEntry : Entry where
  entryId := ⟨1⟩
  companyId := ⟨2⟩
  seq := 1
  ts := Ledger.midnight
  kind := .propose
  quadrant := .activeDeterministic
  payload := samplePayload
  prevHash := genesisPrevHash
  hash := sampleDigest

def sampleFields : List (String × Val) :=
  [("entry_id", .str "00000000-0000-0000-0000-000000000001"), ("company_id", .str "00000000-0000-0000-0000-000000000002"),
    ("seq", .int 1), ("ts", .str "0001-01-01T00:00:00Z"), ("kind", .str "propose"), ("quadrant", .str "active_deterministic"),
    ("payload", samplePayload), ("prev_hash", .str "0000000000000000000000000000000000000000000000000000000000000000"),
    ("hash", .str "ec86526e5bcd0d6cc58cdd257614323f6e1e195521ba16f2b9d6ad1e54658cd9")]

def sampleTree : List (String × Json) := sampleFields.map fun p => (p.1, treeOf p.2)

def sampleLine : List Char := render (.obj sampleTree)

theorem renderFields_close : ∀ fs, ∃ s, renderFields fs = s ++ ['\x7d']
  | [] => ⟨[], rfl⟩
  | (k, x) :: fs => by
    obtain ⟨s, hs⟩ := renderFields_close fs
    exact ⟨',' :: quote k ++ ':' :: render x ++ s, by simp [renderFields, hs]⟩

theorem render_object (k : String) (x : Json) (fs : List (String × Json)) :
    ∃ body, render (.obj ((k, x) :: fs)) = '\x7b' :: body ++ ['\x7d'] := by
  obtain ⟨s, hs⟩ := renderFields_close fs
  exact ⟨quote k ++ ':' :: render x ++ s, by simp [render, hs]⟩

theorem exportedFields_sample : exportedFields sampleEntry "0001-01-01T00:00:00Z" samplePayload = sampleFields := by
  have hcompany : sampleEntry.companyId.str = "00000000-0000-0000-0000-000000000002" := by decide +kernel
  have hentry : sampleEntry.entryId.str = "00000000-0000-0000-0000-000000000001" := by decide +kernel
  have hhash : String.ofList (hex sampleEntry.hash) =
      "ec86526e5bcd0d6cc58cdd257614323f6e1e195521ba16f2b9d6ad1e54658cd9" := by decide +kernel
  have hprev : String.ofList (hex sampleEntry.prevHash) =
      "0000000000000000000000000000000000000000000000000000000000000000" := by decide +kernel
  rw [exportedFields, hcompany, hentry, hhash, hprev]
  rfl

theorem sample_exported : Exported 10 sampleEntry sampleLine where
  object := render_object _ _ _
  oneLine := by
    have hall : sampleLine.all (fun c => c ≠ '\n' ∧ c ≠ '\r') = true := by decide +kernel
    simpa using hall
  fields := by
    refine ⟨sampleFields, "0001-01-01T00:00:00Z", Ledger.midnight.wall, samplePayload, ?_, ?_, ?_, ?_⟩
    · have hload : ((loads 10 sampleLine).toOption.any fun v => v.identical (.dict (sampleFields.map strItem))) = true := by
        decide +kernel
      exact ok_of_identical hload
    · rw [exportedFields_sample]
    · exact ⟨⟨_, rfl, DateTime.instant_utc _⟩, [], .whole rfl, .inl (by decide +kernel)⟩
    · exact @JsonOf.dict [("n", .int 1)] [("n", .int 1)] [("n", .int 1)] (by simp) rfl (.cons (.int 1) .nil) (.refl _)

theorem sample_accepted : Ledger.verifyChain (fun _ => sampleDigest) [sampleEntry.dict] = .ok (true, none) := by
  obtain ⟨t, ht⟩ := Ledger.isoText_midnight
  have hjson : ∃ s, Ledger.canonicalJson sampleEntry.dict = .ok s := by
    rw [Ledger.canonicalJson_entry]
    exact ⟨_, Ledger.canonicalJson_body_iff.mpr ⟨t, _, ht, rfl, rfl, rfl⟩⟩
  obtain ⟨s, hs⟩ := hjson
  rw [Ledger.verifyChain, Ledger.verifyFrom_cons_iff]
  refine ⟨rfl, sampleDigest, ?_, rfl, rfl⟩
  rw [Ledger.computeEntryHash, hs]
  rfl

end

end Tools
