import Wormbase.Py.Column
import Wormbase.Lib.HashChain

/-! Ledger entries, their canonical JSON, their hashes and the chain walk of `hash_chain.py`.

    The hash function is a parameter. `verifyChain` runs over any dicts, since an auditor is handed
    rows that somebody may have edited; `Entry` is the row that the write path builds. -/

namespace Ledger
open Py

def genesisPrevHash : Bytes := List.replicate 32 0

/-! ### Canonical JSON -/

/-- `canonical_json`: every field but `hash`, keys sorted. -/
def canonicalJson (entry : Dict) : Except Err (List Char) := do
  let view := entry.filter fun p => p.1 ≠ .str "hash"
  return render (← encode (.dict view))

section
variable (sha256 : Bytes → Bytes)

/-- `compute_entry_hash`. -/
def computeEntryHash (entry : Dict) : Except Err Bytes := do
  return sha256 (encodeUtf8 (← canonicalJson entry))

/-- `v == b` of any value with a byte string. -/
def sameBytes : Val → Bytes → Bool
  | .bytes a, b => a = b
  | _, _ => false

/-- The walk of `verify_chain` from running head `prev` and index `i`. -/
def verifyFrom : Bytes → ℕ → List Dict → Except Err (Bool × Option ℕ)
  | _, _, [] => .ok (true, none)
  | prev, i, e :: es => do
    if !sameBytes (e.get "prev_hash") prev then return (false, some i)
    let expected ← computeEntryHash sha256 e
    if !sameBytes (e.get "hash") expected then return (false, some i)
    verifyFrom expected (i + 1) es

/-- `verify_chain`. -/
def verifyChain (entries : List Dict) : Except Err (Bool × Option ℕ) :=
  verifyFrom sha256 genesisPrevHash 0 entries

end

/-! ### Entries -/

inductive Kind where | propose | execute | verify | resolve
  deriving DecidableEq

def Kind.text : Kind → String
  | propose => "propose" | execute => "execute" | verify => "verify" | resolve => "resolve"

inductive Quadrant where
  | passiveDeterministic | passiveProbabilistic | activeDeterministic | activeProbabilistic
  deriving DecidableEq

def Quadrant.text : Quadrant → String
  | passiveDeterministic => "passive_deterministic"
  | passiveProbabilistic => "passive_probabilistic"
  | activeDeterministic => "active_deterministic"
  | activeProbabilistic => "active_probabilistic"

/-- A ledger entry before its hash is known: the hashed fields. -/
structure Body where
  entryId : UUID
  companyId : UUID
  seq : ℕ
  ts : DateTime
  kind : Kind
  quadrant : Quadrant
  payload : Val
  prevHash : Bytes

structure Entry extends Body where
  hash : Bytes

/-- The dict that `_append` builds. -/
def Body.dict (b : Body) : Dict :=
  [(.str "entry_id", .uuid b.entryId), (.str "company_id", .uuid b.companyId),
    (.str "seq", .int b.seq), (.str "ts", .datetime b.ts), (.str "kind", .str b.kind.text),
    (.str "quadrant", .str b.quadrant.text), (.str "payload", b.payload),
    (.str "prev_hash", .bytes b.prevHash)]

def Entry.dict (e : Entry) : Dict := e.toBody.dict ++ [(.str "hash", .bytes e.hash)]

/-! ### Lemmas -/

theorem sameBytes_iff {v : Val} {b : Bytes} : sameBytes v b = true ↔ v = .bytes b := by
  cases v <;> simp [sameBytes]

theorem canonicalJson_ok {e : Dict} {s : List Char} (h : canonicalJson e = .ok s) :
    ∃ j, encode (.dict (e.filter fun p => p.1 ≠ .str "hash")) = .ok j ∧ s = render j := by
  obtain ⟨j, hj, hs⟩ := bind_eq_ok.mp h
  exact ⟨j, hj, (Except.ok.inj hs).symm⟩

theorem get?_filter {e : Dict} {name : String} (hname : name ≠ "hash") :
    Dict.get? (e.filter fun p => p.1 ≠ .str "hash") name = e.get? name := by
  rw [Dict.get?, Dict.get?, List.find?_filter]
  congr 2
  funext p
  by_cases hp : p.1 = .str name
  · simp [hp, hname]
  · simp [hp]

/-- A field that is there under a text key other than `hash` makes all hashed keys text. -/
theorem strKeys_view {e : Dict} {s : List Char} (h : canonicalJson e = .ok s) {name : String}
    (hname : name ≠ "hash") {v : Val} (hv : e.get? name = some v) :
    StrKeys (e.filter fun p => p.1 ≠ .str "hash") := by
  obtain ⟨j, hj, -⟩ := canonicalJson_ok h
  rw [← get?_filter hname] at hv
  obtain ⟨p, hp, rfl⟩ := Option.map_eq_some_iff.mp hv
  have hkey := List.find?_some hp
  simp only [decide_eq_true_eq] at hkey
  refine strKeys_of_mem (encode_dict_iff.mp hj).1 (s := name) (v := p.2) ?_
  rw [← hkey]
  exact List.mem_of_find?_eq_some hp

/-- Dicts with the same canonical JSON have the same JSON in every hashed field. -/
theorem canonicalJson_field {e e' : Dict} {s : List Char} (h : canonicalJson e = .ok s)
    (h' : canonicalJson e' = .ok s) {v v' : Val} {name name' : String} (hname : name ≠ "hash")
    (hname' : name' ≠ "hash") (hv : e.get? name = some v) (hv' : e'.get? name' = some v')
    {field : String} (hfield : field ≠ "hash") :
    (e.get? field).map treeOf = (e'.get? field).map treeOf := by
  obtain ⟨j, hj, rfl⟩ := canonicalJson_ok h
  obtain ⟨j', hj', heq⟩ := canonicalJson_ok h'
  obtain rfl := render_injective heq
  rw [← @get?_filter e field hfield, ← @get?_filter e' field hfield]
  exact encode_get? hj hj' (strKeys_view h hname hv) (strKeys_view h' hname' hv') field

/-- A hashed field of an entry with canonical JSON has a JSON text of its own. -/
theorem encode_field {e : Dict} {s : List Char} (h : canonicalJson e = .ok s) {name : String}
    (hname : name ≠ "hash") {v : Val} (hv : e.get? name = some v) : encode v = .ok (treeOf v) := by
  obtain ⟨j, hj, -⟩ := canonicalJson_ok h
  rw [← get?_filter hname] at hv
  obtain ⟨p, hp, rfl⟩ := Option.map_eq_some_iff.mp hv
  exact ((encode_dict_iff.mp hj).2.1 p (List.mem_of_find?_eq_some hp)).2

theorem get?_of_get {e : Dict} {name : String} {b : Bytes} (h : e.get name = .bytes b) :
    e.get? name = some (.bytes b) := by
  rw [Dict.get] at h
  cases hget : e.get? name with
  | none => rw [hget] at h; cases h
  | some v => rw [hget] at h; rw [← h]; rfl

/-- Canonical JSON names one previous hash. -/
theorem prevHash_of_canonicalJson {e e' : Dict} {s : List Char} (h : canonicalJson e = .ok s)
    (h' : canonicalJson e' = .ok s) {b b' : Bytes} (hb : e.get "prev_hash" = .bytes b)
    (hb' : e'.get "prev_hash" = .bytes b') : b = b' := by
  have hget := get?_of_get hb
  have hget' := get?_of_get hb'
  have hfield := canonicalJson_field h h' (by decide) (by decide) hget hget'
    (show "prev_hash" ≠ "hash" by decide)
  rw [hget, hget'] at hfield
  have htree : String.ofList (hex b) = String.ofList (hex b') :=
    Json.str.inj (Option.some.inj hfield)
  exact hex_injective (String.ofList_injective htree)

/-! ### One step of the walk -/

section
variable {sha256 : Bytes → Bytes}

theorem verifyFrom_link {prev : Bytes} {i : ℕ} {e : Dict} {es : List Dict}
    (hlink : e.get "prev_hash" ≠ .bytes prev) :
    verifyFrom sha256 prev i (e :: es) = .ok (false, some i) := by
  have hlink : sameBytes (e.get "prev_hash") prev = false := by
    simpa using mt sameBytes_iff.mp hlink
  simp [verifyFrom, hlink, pure, Except.pure]

theorem verifyFrom_error {prev : Bytes} {i : ℕ} {e : Dict} {es : List Dict} {x : Err}
    (hlink : e.get "prev_hash" = .bytes prev) (hh : computeEntryHash sha256 e = .error x) :
    verifyFrom sha256 prev i (e :: es) = .error x := by
  simp [verifyFrom, sameBytes_iff.mpr hlink, hh, bind, Except.bind]

theorem verifyFrom_seal {prev h : Bytes} {i : ℕ} {e : Dict} {es : List Dict}
    (hlink : e.get "prev_hash" = .bytes prev) (hh : computeEntryHash sha256 e = .ok h)
    (hseal : sameBytes (e.get "hash") h = false) :
    verifyFrom sha256 prev i (e :: es) = .ok (false, some i) := by
  simp [verifyFrom, sameBytes_iff.mpr hlink, hh, hseal, bind, Except.bind, pure, Except.pure]

theorem verifyFrom_step {prev h : Bytes} {i : ℕ} {e : Dict} {es : List Dict}
    (hlink : e.get "prev_hash" = .bytes prev) (hh : computeEntryHash sha256 e = .ok h)
    (hseal : sameBytes (e.get "hash") h = true) :
    verifyFrom sha256 prev i (e :: es) = verifyFrom sha256 h (i + 1) es := by
  simp [verifyFrom, sameBytes_iff.mpr hlink, hh, hseal, bind, Except.bind]

/-- One accepted step of the ledger's walk. -/
theorem verifyFrom_cons_iff {prev : Bytes} {i : ℕ} {e : Dict} {es : List Dict} :
    verifyFrom sha256 prev i (e :: es) = .ok (true, none) ↔ e.get "prev_hash" = .bytes prev ∧
      ∃ x, computeEntryHash sha256 e = .ok x ∧ e.get "hash" = .bytes x ∧ verifyFrom sha256 x (i + 1) es = .ok (true, none) := by
  by_cases hlink : e.get "prev_hash" = .bytes prev
  · cases hx : computeEntryHash sha256 e with
    | error y => simp [verifyFrom_error hlink hx]
    | ok x =>
      by_cases hseal : e.get "hash" = .bytes x
      · rw [verifyFrom_step hlink hx (sameBytes_iff.mpr hseal)]
        simp [hlink, hseal]
      · rw [verifyFrom_seal hlink hx (by simpa using mt sameBytes_iff.mp hseal)]
        simp [hseal]
  · simp [verifyFrom_link hlink, hlink]

end

/-- A stand-in for the hash: no two inputs collide and no output is the genesis value. -/
def tagHash (b : Bytes) : Bytes := 1 :: b

theorem tagHash_injective : Function.Injective tagHash := fun _ _ h => (List.cons.inj h).2

theorem tagHash_ne_genesis (b : Bytes) : tagHash b ≠ genesisPrevHash := fun h =>
  absurd (List.cons.inj h).1 (by decide)

end Ledger
