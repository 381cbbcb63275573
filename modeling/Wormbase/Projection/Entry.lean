import Wormbase.Ledger.Store
import Wormbase.Lib.Table
import Wormbase.Py.IsoFormat

/-! What the projection builder reads: ledger rows, the args of an action and the row ids that it
    derives from them.

    Each table of the projection is folded by functions that take the row, the args and the table.
    Reading `args[name]` where the name is missing raises, and so does the whole fold. -/

namespace Projection
open Py

/-- A ledger row as `fetch_entries` gives it. -/
structure LedgerRow where
  entryId : UUID
  companyId : UUID
  seq : ℕ
  ts : DateTime
  kind : String
  payload : Val
  hash : Bytes

def LedgerRow.ofEntry (e : Ledger.Entry) : LedgerRow :=
  ⟨e.entryId, e.companyId, e.seq, e.ts, e.kind.text, e.payload, e.hash⟩

/-- `str(entry["company_id"])`. -/
def LedgerRow.company (e : LedgerRow) : String := e.companyId.str

/-- What one action does to one part of the state. -/
abbrev Fold (σ : Type) := LedgerRow → Dict → σ → Except Err σ

/-- An execute row of one company at one instant, to compute with. -/
def executed (seq : ℕ) (tool : String) (args : Dict) : LedgerRow where
  entryId := ⟨Fin.ofNat (2 ^ 128) seq⟩
  companyId := ⟨0⟩
  seq
  ts := ⟨⟨0, maxMicros_pos⟩, some DateTime.utc⟩
  kind := "execute"
  payload := .dict [(.str "tool", .str tool), (.str "args", .dict args)]
  hash := []

/-- The four rows that one write of an action leaves, from `seq` on. -/
def cycle (seq : ℕ) (tool : String) (args : Dict) : List LedgerRow :=
  let phase := fun (n : ℕ) (kind : String) (payload : Dict) =>
    { executed n tool args with kind, payload := .dict payload }
  [phase seq "propose" [], executed (seq + 1) tool args,
    phase (seq + 2) "verify" [(.str "passed", .bool true)], phase (seq + 3) "resolve" []]

/-! ### Derived row ids -/

/-- The first 16 bytes of `sha256("|".join(parts).encode())` as a UUID. -/
def digestUuid (py : Interp) (parts : List Val) : Except Err UUID := do
  let texts ← joinParts parts 0
  return UUID.ofBytes (py.sha256 (encodeUtf8 ("|".intercalate texts).toList))

def identityUuid := digestUuid
def roleGrantUuid := digestUuid
def dataProductUuid := digestUuid
def notebookRunUuid := digestUuid
def externalCatalogUuid := digestUuid
def externalLineageUuid := digestUuid
def externalPolicyUuid := digestUuid
def externalMetricUuid := digestUuid

/-- The same id as 32 hex digits. -/
def digestHex (py : Interp) (parts : List Val) : Except Err String :=
  UUID.hex <$> digestUuid py parts

def agentGrantUuid := digestHex
def queryOutcomeUuid := digestHex
def queryTemplateUuid := digestHex
def credentialUuid := digestHex

/-! ### Reading args -/

/-- `UUID(v)` of a value that then serves as a dict key: its text and the UUID. -/
def uuidText (v : Val) : Except Err (String × UUID) :=
  match v with
  | .str s => do return (s, ← v.toUUID)
  | _ => do return ("", ← v.toUUID)

/-- `"|".join` takes the value, so it is a text. -/
def joined (v : Val) : Except Err String :=
  match v with
  | .str s => .ok s
  | _ => .error (typeError s!"sequence item: expected str instance, {v.typeName} found")

/-- `v if isinstance(v, dict) else {}`, after `v or {}`. -/
def dictOrEmpty (v : Val) : Dict :=
  match v with
  | .dict d => d
  | _ => []

/-- `if k in d: d[k] = f(d[k])`. -/
def updateAt {ρ : Type} (t : Dictionary String ρ) (k : Val) (f : ρ → Except Err ρ) :
    Except Err (Dictionary String ρ) := do
  match ← k.hash with
  | .str s =>
    match t.get? s with
    | some (_, r) => return t.put (s, ← f r)
    | none => return t
  | _ => return t

/-! ### Lemmas -/

theorem item_get {d : Dict} {name : String} {v : Val} (h : d.item name = .ok v) :
    d.get name = v := by
  unfold Dict.item at h
  cases hget : d.get? name with
  | none => rw [hget] at h; cases h
  | some w =>
    rw [hget] at h
    rw [Dict.get, hget, ← Except.ok.inj h]
    rfl

theorem uuidText_ok {v : Val} {s : String} {u : UUID} (h : uuidText v = .ok (s, u)) :
    v = .str s ∧ v.toUUID = .ok u := by
  cases v with
  | str t =>
    obtain ⟨w, hw, heq⟩ := bind_eq_ok.mp h
    obtain ⟨rfl, rfl⟩ := Prod.mk.inj (Except.ok.inj heq)
    exact ⟨rfl, hw⟩
  | _ => simp [uuidText, Val.toUUID, bind, Except.bind] at h

theorem joined_ok {v : Val} {s : String} (h : joined v = .ok s) : v = .str s := by
  cases v with
  | str t => rw [Except.ok.inj h]
  | _ => cases h

/-- A change at a key leaves the table as it is or puts a new value for a row that is there. -/
theorem updateAt_ok {ρ : Type} {t t' : Dictionary String ρ} {k : Val} {f : ρ → Except Err ρ}
    (h : updateAt t k f = .ok t') :
    t' = t ∨ ∃ s r r', k = .str s ∧ t.get? s = some (s, r) ∧ f r = .ok r' ∧ t' = t.put (s, r') := by
  obtain ⟨key, hkey, h⟩ := bind_eq_ok.mp h
  cases key with
  | str s =>
    simp only at h
    cases hget : t.get? s with
    | none =>
      rw [hget] at h
      exact .inl (Except.ok.inj h).symm
    | some p =>
      obtain ⟨s', r⟩ := p
      rw [hget] at h
      obtain ⟨r', hr', h⟩ := bind_eq_ok.mp h
      obtain rfl : s' = s := (Table.get?_eq_some_iff.mp hget).2
      exact .inr ⟨s', r, r', Val.hash_eq_str hkey, hget, hr', (Except.ok.inj h).symm⟩
  | _ => exact .inl (Except.ok.inj h).symm

/-- The table as it was, or with a new value for one row that stands in `Keeps` to the old one. -/
def Updates {ρ : Type} (Keeps : ρ → ρ → Prop) (t t' : Dictionary String ρ) : Prop :=
  t' = t ∨ ∃ s r r', t.get? s = some (s, r) ∧ Keeps r r' ∧ t' = t.put (s, r')

theorem updateAt_updates {ρ : Type} {t t' : Dictionary String ρ} {k : Val} {f : ρ → Except Err ρ}
    {Keeps : ρ → ρ → Prop} (h : updateAt t k f = .ok t') (hf : ∀ r r', f r = .ok r' → Keeps r r') :
    Updates Keeps t t' := by
  rcases updateAt_ok h with rfl | ⟨s, r, r', -, hget, hr', rfl⟩
  · exact .inl rfl
  · exact .inr ⟨s, r, r', hget, hf r r' hr', rfl⟩

theorem forall_mem_updates {ρ : Type} {t t' : Dictionary String ρ} {Keeps : ρ → ρ → Prop}
    {P : ρ → Prop} (h : Updates Keeps t t') (hP : ∀ r r', Keeps r r' → P r → P r')
    (ht : ∀ p ∈ t.rows, P p.2) : ∀ p ∈ t'.rows, P p.2 := by
  rcases h with rfl | ⟨s, r, r', hget, hr, rfl⟩
  · exact ht
  · exact Table.forall_mem_put ht (hP r r' hr (ht _ (Table.get?_eq_some_iff.mp hget).1))

end Projection
