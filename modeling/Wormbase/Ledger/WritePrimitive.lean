import Wormbase.Ledger.Store

/-! `write_primitive`: four entries in one session.

    The three callbacks are pure functions that return any value or raise; the ids of the entries
    and the clock are part of the call. -/

namespace Ledger
open Py

def verifyFailed : Err := ⟨"VerifyFailed", "verify step failed; rolling back"⟩

/-- One call of the write API. -/
structure Call where
  companyId : UUID
  propose : Dict
  executeFn : Except Err Val
  verifyFn : Dict → Except Err Val
  resolveFn : Dict → Except Err Val
  timestamp : Option DateTime
  quadrant : Quadrant
  now : DateTime
  proposeId : UUID
  executeId : UUID
  verifyId : UUID
  resolveId : UUID

/-- The four ids and the four hashes. -/
structure WriteResult where
  entryIds : UUID × UUID × UUID × UUID
  hashes : Bytes × Bytes × Bytes × Bytes

/-- `{name: str(id), **v}`. -/
def spread (name : String) (id : UUID) (v : Val) : Except Err Dict :=
  match v with
  | .dict m => .ok (Dict.update [(.str name, .str id.str)] m)
  | v => .error (typeError s!"'{v.typeName}' object is not a mapping")

theorem spread_strItems {name : String} {id : UUID} {D : List (String × Val)} (h : (name :: D.map Prod.fst).Nodup) :
    spread name id (.dict (D.map strItem)) = .ok (((name, .str id.str) :: D).map strItem) :=
  congrArg Except.ok (@update_strItems D [(name, .str id.str)] (by simpa using h))

namespace Call

/-- The ids of the four entries. -/
def ids (c : Call) : List UUID := [c.proposeId, c.executeId, c.verifyId, c.resolveId]

/-- The timestamp of all four entries. -/
def ts (c : Call) : DateTime := c.timestamp.getD c.now

def execPayload (c : Call) : Except Err Dict := do
  spread "propose_entry_id" c.proposeId (← c.executeFn)

def verifyPayload (c : Call) (execPayload : Dict) : Except Err Dict := do
  spread "execute_entry_id" c.executeId (← c.verifyFn execPayload)

def resolvePayload (c : Call) (verifyPayload : Dict) : Except Err Dict := do
  spread "verify_entry_id" c.verifyId (← c.resolveFn verifyPayload)

/-- `verify_payload.get("passed")` as a condition. -/
def passed (verifyPayload : Dict) : Bool := (verifyPayload.get "passed").truthy

/-- The payloads of a call whose callbacks all return mappings. -/
def payloads (c : Call) : Except Err (List Dict) := do
  let execPayload ← c.execPayload
  let verifyPayload ← c.verifyPayload execPayload
  let resolvePayload ← c.resolvePayload verifyPayload
  return [c.propose, execPayload, verifyPayload, resolvePayload]

end Call

section
variable (sha256 : Bytes → Bytes)

/-- A body and the hash of its dict. -/
def sealEntry (b : Body) : Except Err Entry := do
  return { b with hash := ← computeEntryHash sha256 b.dict }

/-- The body of one entry of a call. -/
def Call.body (c : Call) (id : UUID) (seq : ℕ) (prevHash : Bytes) (kind : Kind) (payload : Dict) :
    Body where
  entryId := id
  companyId := c.companyId
  seq := seq
  ts := c.ts
  kind := kind
  quadrant := c.quadrant
  payload := .dict payload
  prevHash := prevHash

/-- `_append`. -/
def append (d : Dialect) (rows : List Entry) (b : Body) : Except Err (Entry × List Entry) := do
  let e ← sealEntry sha256 b
  return (e, ← insertRow d rows e)

/-- `write_primitive`. -/
def writePrimitive (d : Dialect) (c : Call) (rows : List Entry) :
    Except Err (WriteResult × List Entry) := do
  let (seq, prevHash) := tail rows c.companyId
  let (p, rows) ← append sha256 d rows (c.body c.proposeId (seq + 1) prevHash .propose c.propose)
  let execPayload ← c.execPayload
  let (e, rows) ← append sha256 d rows (c.body c.executeId (seq + 2) p.hash .execute execPayload)
  let verifyPayload ← c.verifyPayload execPayload
  let (v, rows) ← append sha256 d rows (c.body c.verifyId (seq + 3) e.hash .verify verifyPayload)
  if !Call.passed verifyPayload then throw verifyFailed
  let resolvePayload ← c.resolvePayload verifyPayload
  let (r, rows) ← append sha256 d rows (c.body c.resolveId (seq + 4) v.hash .resolve resolvePayload)
  return (⟨(p.entryId, e.entryId, v.entryId, r.entryId), (p.hash, e.hash, v.hash, r.hash)⟩, rows)

/-- `Ledger.write`: the result, and the committed rows after it. -/
def write (d : Dialect) (rows : List Entry) (c : Call) : Except Err WriteResult × List Entry :=
  sessionScope rows (writePrimitive sha256 d c)

end

/-! ### One write -/

section
variable {sha256 : Bytes → Bytes} {d : Dialect}

theorem sealEntry_ok {b : Body} {e : Entry} (h : sealEntry sha256 b = .ok e) :
    e.toBody = b ∧ ∃ s, canonicalJson b.dict = .ok s ∧ e.hash = sha256 (encodeUtf8 s) := by
  obtain ⟨hash, hh, h⟩ := bind_eq_ok.mp h
  obtain ⟨s, hs, hh⟩ := bind_eq_ok.mp hh
  cases h
  exact ⟨rfl, s, hs, (Except.ok.inj hh).symm⟩

theorem append_ok {d : Dialect} {rows rows' : List Entry} {b : Body} {e : Entry}
    (h : append sha256 d rows b = .ok (e, rows')) : sealEntry sha256 b = .ok e ∧
      ∃ row, storeRow d e = .ok row ∧ (∀ other ∈ rows, conflicts row other = false) ∧
        rows' = rows ++ [row] := by
  obtain ⟨e', he, h⟩ := bind_eq_ok.mp h
  obtain ⟨rows'', hrows, h⟩ := bind_eq_ok.mp h
  cases h
  exact ⟨he, insertRow_ok hrows⟩

/-- The four sealed entries that a call builds on a chain of length `n` with tip `prevHash`. -/
structure Built (sha256 : Bytes → Bytes) (c : Call) (n : ℕ) (prevHash : Bytes)
    (ep vp rp : Dict) (p e v r : Entry) : Prop where
  propose : sealEntry sha256 (c.body c.proposeId (n + 1) prevHash .propose c.propose) = .ok p
  execPayload : c.execPayload = .ok ep
  execute : sealEntry sha256 (c.body c.executeId (n + 2) p.hash .execute ep) = .ok e
  verifyPayload : c.verifyPayload ep = .ok vp
  verify : sealEntry sha256 (c.body c.verifyId (n + 3) e.hash .verify vp) = .ok v
  passed : Call.passed vp = true
  resolvePayload : c.resolvePayload vp = .ok rp
  resolve : sealEntry sha256 (c.body c.resolveId (n + 4) v.hash .resolve rp) = .ok r

/-- The kinds of the four entries. -/
def groupKinds : List Kind := [.propose, .execute, .verify, .resolve]

/-- What a write returns for its four entries. -/
def resultOf (p e v r : Entry) : WriteResult :=
  ⟨(p.entryId, e.entryId, v.entryId, r.entryId), (p.hash, e.hash, v.hash, r.hash)⟩

/-- The rows of a list of entries. -/
def StoredAs (d : Dialect) : List Entry → List Entry → Prop :=
  List.Forall₂ fun e row => storeRow d e = .ok row

/-- A write that returns has built four entries and inserted their rows. -/
theorem writePrimitive_ok {c : Call} {rows rows' : List Entry} {res : WriteResult}
    (h : writePrimitive sha256 d c rows = .ok (res, rows')) : ∃ ep vp rp p e v r new,
      Built sha256 c (tail rows c.companyId).1 (tail rows c.companyId).2 ep vp rp p e v r ∧
      StoredAs d [p, e, v, r] new ∧ res = resultOf p e v r ∧ rows' = rows ++ new := by
  simp only [writePrimitive, bind_eq_ok] at h
  obtain ⟨⟨p, rows₁⟩, hp, ep, hep, ⟨e, rows₂⟩, he, vp, hvp, ⟨v, rows₃⟩, hv, h⟩ := h
  split at h
  · obtain ⟨_, h, -⟩ := bind_eq_ok.mp h
    cases h
  · rename_i hpass
    obtain ⟨rp, hrp, h⟩ := bind_eq_ok.mp h
    obtain ⟨⟨r, rows₄⟩, hr, h⟩ := bind_eq_ok.mp h
    cases h
    obtain ⟨sp, p', hp', -, rfl⟩ := append_ok hp
    obtain ⟨se, e', he', -, rfl⟩ := append_ok he
    obtain ⟨sv, v', hv', -, rfl⟩ := append_ok hv
    obtain ⟨sr, r', hr', -, rfl⟩ := append_ok hr
    refine ⟨ep, vp, rp, p, e, v, r, [p', e', v', r'],
      ⟨sp, hep, se, hvp, sv, by simpa using hpass, hrp, sr⟩, ?_, rfl, by simp⟩
    exact .cons hp' (.cons he' (.cons hv' (.cons hr' .nil)))

/-- A write commits the rows of four entries, or it raises and commits nothing. -/
theorem write_outcome (rows : List Entry) (c : Call) :
    (∃ ep vp rp p e v r new,
      Built sha256 c (tail rows c.companyId).1 (tail rows c.companyId).2 ep vp rp p e v r ∧
      StoredAs d [p, e, v, r] new ∧
      write sha256 d rows c = (.ok (resultOf p e v r), rows ++ new)) ∨
    ∃ x, write sha256 d rows c = (.error x, rows) := by
  unfold write sessionScope
  cases h : writePrimitive sha256 d c rows with
  | error x => exact .inr ⟨x, rfl⟩
  | ok q =>
    obtain ⟨res, rows'⟩ := q
    obtain ⟨ep, vp, rp, p, e, v, r, new, hbuilt, hnew, rfl, rfl⟩ := writePrimitive_ok h
    exact .inl ⟨ep, vp, rp, p, e, v, r, new, hbuilt, hnew, rfl⟩

theorem append_of_sealed {rows : List Entry} {b : Body} {e row : Entry}
    (he : sealEntry sha256 b = .ok e) (hrow : storeRow d e = .ok row) :
    append sha256 d rows b = (addRow rows row).map fun rows' => (e, rows') := by
  rw [append, he]
  simp only [insertRow, hrow, bind, Except.bind]
  cases addRow rows row <;> rfl

/-- Four entries built on the tail of a company are committed as soon as their rows break no
    constraint of the table. -/
theorem write_of_stored {c : Call} {rows new : List Entry} {ep vp rp : Dict} {p e v r : Entry}
    (h : Built sha256 c (tail rows c.companyId).1 (tail rows c.companyId).2 ep vp rp p e v r)
    (hnew : StoredAs d [p, e, v, r] new) :
    write sha256 d rows c = match new.foldlM addRow rows with
      | .ok rows' => (.ok (resultOf p e v r), rows')
      | .error x => (.error x, rows) := by
  rcases hnew with _ | ⟨hp, _ | ⟨he, _ | ⟨hv, _ | ⟨hr, ⟨⟩⟩⟩⟩⟩
  rename_i p' e' v' r'
  simp only [write, sessionScope, writePrimitive, append_of_sealed h.propose hp, h.execPayload,
    List.foldlM_cons, List.foldlM_nil]
  -- a constraint that breaks at any of the four rows ends both sides
  cases addRow rows p' with
  | error x => rfl
  | ok rows₁ =>
  simp only [Except.map, bind, Except.bind, append_of_sealed h.execute he, h.verifyPayload]
  cases addRow rows₁ e' with
  | error x => rfl
  | ok rows₂ =>
  simp only [Except.map, append_of_sealed h.verify hv, h.passed, h.resolvePayload]
  cases addRow rows₂ v' with
  | error x => rfl
  | ok rows₃ =>
  simp only [Except.map, append_of_sealed h.resolve hr]
  cases addRow rows₃ r' with
  | error x => rfl
  | ok rows₄ => rfl

/-! ### The rows of one write -/

/-- The row that an append of body `b` leaves. -/
def Stored (sha256 : Bytes → Bytes) (d : Dialect) (b : Body) (row : Entry) : Prop :=
  ∃ e, sealEntry sha256 b = .ok e ∧ storeRow d e = .ok row

theorem Stored.fields {b : Body} {row : Entry} (h : Stored sha256 d b row) :
    row.companyId = b.companyId ∧ row.seq = b.seq ∧ row.kind = b.kind ∧
      row.prevHash = b.prevHash := by
  obtain ⟨e, he, hrow⟩ := h
  obtain ⟨rfl, -⟩ := sealEntry_ok he
  obtain ⟨-, hcompany, hseq, hkind, hprev, -⟩ := storeRow_fields hrow
  exact ⟨hcompany, hseq, hkind, hprev⟩

theorem Stored.entryId {b : Body} {row : Entry} (h : Stored sha256 d b row) :
    row.entryId = b.entryId := by
  obtain ⟨e, he, hrow⟩ := h
  rw [(storeRow_fields hrow).1, (sealEntry_ok he).1]

theorem Stored.payload {b : Body} {row : Entry} (h : Stored sha256 d b row) :
    jsonColumn b.payload = .ok row.payload := by
  obtain ⟨e, he, hrow⟩ := h
  obtain ⟨hbody, -⟩ := sealEntry_ok he
  obtain ⟨w, hw, rfl⟩ := storeRow_ok hrow
  rw [← hbody]
  exact hw

/-- Four rows, each built on the hash of the one before. -/
structure Group (sha256 : Bytes → Bytes) (d : Dialect) (c : Call) (n : ℕ) (prevHash : Bytes)
    (ep vp rp : Dict) (p e v r : Entry) : Prop where
  payloads : c.payloads = .ok [c.propose, ep, vp, rp]
  propose : Stored sha256 d (c.body c.proposeId (n + 1) prevHash .propose c.propose) p
  execute : Stored sha256 d (c.body c.executeId (n + 2) p.hash .execute ep) e
  verify : Stored sha256 d (c.body c.verifyId (n + 3) e.hash .verify vp) v
  resolve : Stored sha256 d (c.body c.resolveId (n + 4) v.hash .resolve rp) r

theorem Group.company {c : Call} {n : ℕ} {prevHash : Bytes} {ep vp rp : Dict} {p e v r : Entry}
    (h : Group sha256 d c n prevHash ep vp rp p e v r) :
    ∀ row ∈ [p, e, v, r], row.companyId = c.companyId := by
  simp only [List.forall_mem_cons]
  exact ⟨h.propose.fields.1, h.execute.fields.1, h.verify.fields.1, h.resolve.fields.1, by simp⟩

theorem Group.ids {c : Call} {n : ℕ} {prevHash : Bytes} {ep vp rp : Dict} {p e v r : Entry}
    (h : Group sha256 d c n prevHash ep vp rp p e v r) : [p, e, v, r].map (·.entryId) = c.ids := by
  simp only [List.map_cons, List.map_nil, h.propose.entryId, h.execute.entryId, h.verify.entryId,
    h.resolve.entryId]
  rfl

theorem Group.execPayload {c : Call} {n : ℕ} {prevHash : Bytes} {ep vp rp : Dict} {p e v r : Entry}
    (h : Group sha256 d c n prevHash ep vp rp p e v r) : c.execPayload = .ok ep := by
  obtain ⟨ep', hep, hrest⟩ := bind_eq_ok.mp h.payloads
  obtain ⟨vp', -, hrest⟩ := bind_eq_ok.mp hrest
  obtain ⟨rp', -, hrest⟩ := bind_eq_ok.mp hrest
  have hlist := Except.ok.inj hrest
  simp only [List.cons.injEq, true_and] at hlist
  rw [hep, hlist.1]

theorem Built.payloads {c : Call} {n : ℕ} {prevHash : Bytes} {ep vp rp : Dict} {p e v r : Entry}
    (h : Built sha256 c n prevHash ep vp rp p e v r) :
    c.payloads = .ok [c.propose, ep, vp, rp] :=
  bind_eq_ok.mpr ⟨ep, h.execPayload, bind_eq_ok.mpr ⟨vp, h.verifyPayload,
    bind_eq_ok.mpr ⟨rp, h.resolvePayload, rfl⟩⟩⟩

/-- A stored row carries the hash of its entry, so rows are built on rows. -/
theorem Built.group {c : Call} {n : ℕ} {prevHash : Bytes} {ep vp rp : Dict} {p e v r : Entry}
    {new : List Entry} (h : Built sha256 c n prevHash ep vp rp p e v r)
    (hnew : StoredAs d [p, e, v, r] new) :
    ∃ p' e' v' r', new = [p', e', v', r'] ∧ Group sha256 d c n prevHash ep vp rp p' e' v' r' := by
  rcases hnew with _ | ⟨hp, _ | ⟨he, _ | ⟨hv, _ | ⟨hr, ⟨⟩⟩⟩⟩⟩
  have hash : ∀ {a b : Entry}, storeRow d a = .ok b → b.hash = a.hash := fun h =>
    (storeRow_fields h).2.2.2.2.2
  refine ⟨_, _, _, _, rfl, h.payloads, ⟨p, h.propose, hp⟩, ⟨e, ?_, he⟩, ⟨v, ?_, hv⟩, ⟨r, ?_, hr⟩⟩
  · rw [hash hp]; exact h.execute
  · rw [hash he]; exact h.verify
  · rw [hash hv]; exact h.resolve

theorem write_cases (rows : List Entry) (c : Call) :
    (∃ res ep vp rp p e v r,
      Group sha256 d c (tail rows c.companyId).1 (tail rows c.companyId).2 ep vp rp p e v r ∧
      write sha256 d rows c = (.ok res, rows ++ [p, e, v, r])) ∨
    ∃ x, write sha256 d rows c = (.error x, rows) := by
  rcases @write_outcome sha256 d rows c with ⟨ep, vp, rp, p, e, v, r, new, hb, hnew, hw⟩ | h
  · obtain ⟨p', e', v', r', rfl, hg⟩ := hb.group hnew
    exact .inl ⟨_, ep, vp, rp, p', e', v', r', hg, hw⟩
  · exact .inr h

end

end Ledger
