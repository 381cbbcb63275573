import Wormbase.Tools.Snapshot
import Wormbase.Py.IsoRoundTrip
import Wormbase.Py.SameText

/-! Exported entries, and what is read of their lines. -/

namespace Tools
open Py
open Ledger (Entry)

/-- The text of an instant in UTC, with at least the digits of the second that it needs. -/
structure UtcText (t : DateTime) (u : Fin maxMicros) (s : String) : Prop where
  instant : ∃ o, t.utcoffset = some o ∧ t.instant o = some u
  text : ∃ f, FractionText (u % 1000000) f ∧
    (s.toList = secondsText u ++ f ++ ['Z'] ∨ s.toList = secondsText u ++ f ++ "+00:00".toList)

/-- The fields of an exported entry whose timestamp has text `t` and whose payload reads as `w`. -/
def exportedFields (e : Entry) (t : String) (w : Val) : List (String × Val) :=
  [("entry_id", .str e.entryId.str), ("company_id", .str e.companyId.str), ("seq", .int e.seq), ("ts", .str t),
    ("kind", .str e.kind.text), ("quadrant", .str e.quadrant.text), ("payload", w),
    ("prev_hash", .str (String.ofList (hex e.prevHash))), ("hash", .str (String.ofList (hex e.hash)))]

/-- A line is the JSON text of an entry: one object, whose fields may stand in any order. -/
structure Exported (depth : ℕ) (e : Entry) (line : List Char) : Prop where
  object : ∃ body, line = '\x7b' :: body ++ ['\x7d']
  oneLine : ∀ c ∈ line, c ≠ '\n' ∧ c ≠ '\r'
  fields : ∃ (D : List (String × Val)) (t : String) (u : Fin maxMicros) (w : Val), loads depth line = .ok (.dict (D.map strItem)) ∧ D.Perm (exportedFields e t w) ∧ UtcText e.ts u t ∧
    JsonOf e.payload w

/-- The fields as the loader leaves them. -/
def readFields (e : Entry) (u : Fin maxMicros) (w : Val) : List (String × Val) :=
  [("entry_id", .str e.entryId.str), ("company_id", .str e.companyId.str), ("seq", .int e.seq),
    ("ts", .datetime ⟨u, some DateTime.utc⟩), ("kind", .str e.kind.text), ("quadrant", .str e.quadrant.text), ("payload", w),
    ("prev_hash", .bytes e.prevHash), ("hash", .bytes e.hash)]

/-- A loaded record is that of an entry. -/
def Reads (e : Entry) (found : Dict) : Prop :=
  ∃ (F : List (String × Val)) (u : Fin maxMicros) (w : Val), found = F.map strItem ∧ F.Perm (readFields e u w) ∧ (∃ o, e.ts.utcoffset = some o ∧ e.ts.instant o = some u) ∧
    JsonOf e.payload w

/-! ### Hashes and times -/

theorem fromHex_hex (b : Bytes) : fromHex (hex b) = some b := by
  have hdigit : ∀ k < 16, isSpace (Nat.digitChar k) = false ∧ Loads.hexDigit (Nat.digitChar k) = some k := by decide
  induction b with
  | nil => rfl
  | cons x b ih =>
    have hx := x.toNat_lt
    obtain ⟨hspace, hhi⟩ := hdigit (x.toNat / 16) (by omega)
    obtain ⟨-, hlo⟩ := hdigit (x.toNat % 16) (by omega)
    have hback : UInt8.ofNat (x.toNat / 16 * 16 + x.toNat % 16) = x := by
      rw [Nat.div_add_mod' x.toNat 16, UInt8.ofNat_toNat]
    change fromHex (Nat.digitChar (x.toNat / 16) :: Nat.digitChar (x.toNat % 16) :: hex b) = _
    rw [fromHex, hspace, hhi, hlo, ih]
    exact congrArg (fun y => some (y :: b)) hback

variable {py : Interp}

theorem hexToBytes_hex {b : Bytes} (h : b.length = 32) : hexToBytes py (.str (String.ofList (hex b))) = .ok b := by
  rw [hexToBytes, String.toList_ofList, fromHex_hex]
  exact if_neg (not_not.mpr h)

theorem hexToBytes_short {b : Bytes} (h : b.length ≠ 32) : ∃ x, hexToBytes py (.str (String.ofList (hex b))) = .error x := by
  rw [hexToBytes, String.toList_ofList, fromHex_hex]
  exact ⟨_, if_pos h⟩

theorem tsFromStr_of {s : String} {cs : List Char} {out : DateTime} {o : Offset} {u : Fin maxMicros}
    (hcs : (if s.toList.getLast? = some 'Z' then zuluToOffset s.toList else s.toList) = cs)
    (hout : fromisoformat cs = some out) (ho : out.utcoffset = some o) (hu : out.instant o = some u) :
    tsFromStr py (.str s) = .ok ⟨u, some DateTime.utc⟩ := by
  simp only [tsFromStr, hcs, hout, ho, hu]

theorem tsFromStr_utc {t : DateTime} {u : Fin maxMicros} {s : String} (h : UtcText t u s) :
    tsFromStr py (.str s) = .ok ⟨u, some DateTime.utc⟩ := by
  obtain ⟨f, hf, hs⟩ := h.text
  have hfrac : ∀ c ∈ f, c ≠ 'Z' := by
    intro c hc
    cases hf with
    | whole h => exact absurd hc List.not_mem_nil
    | digits hd h =>
      rcases List.mem_cons.mp hc with rfl | hc
      · decide
      · rintro rfl
        exact absurd (List.all_eq_true.mp hd _ hc) (by decide)
  have hplain : ∀ c ∈ secondsText u ++ f, c ≠ 'Z' := by
    intro c hc
    rcases List.mem_append.mp hc with hc | hc
    · exact secondsText_ne_zulu u c hc
    · exact hfrac c hc
  have hnormal : (if s.toList.getLast? = some 'Z' then zuluToOffset s.toList else s.toList) =
      secondsText u ++ f ++ "+00:00".toList := by
    rcases hs with hs | hs
    · rw [hs, List.getLast?_concat, if_pos rfl, zuluToOffset_append, zuluToOffset_of_digits hplain]
      rfl
    · have hlast : s.toList.getLast? = some '0' := by
        rw [hs, List.getLast?_append]
        rfl
      rw [hlast, if_neg (by decide), hs]
  exact tsFromStr_of hnormal (fromisoformat_text u.2 hf) rfl (DateTime.instant_utc _)

/-! ### Lines -/

theorem nodup_exportedFields (e : Entry) (t : String) (w : Val) : ((exportedFields e t w).map Prod.fst).Nodup := by
  simp [exportedFields]

/-- The value that is put at a name. -/
def putField (name : String) (v : Val) (p : String × Val) : String × Val := if p.1 = name then (name, v) else p

theorem set_putField {name : String} {v : Val} : ∀ {D : List (String × Val)}, (D.map Prod.fst).Nodup →
    name ∈ D.map Prod.fst → Dict.set (D.map strItem) name v = (D.map (putField name v)).map strItem
  | [], _, h => absurd h List.not_mem_nil
  | (k, w) :: D, hnodup, h => by
    obtain ⟨hk, hnodup⟩ := List.nodup_cons.mp hnodup
    by_cases heq : k = name
    · subst heq
      have hrest : D.map (putField k v) = D := by
        refine (List.map_congr_left fun p hp => ?_).trans (List.map_id D)
        exact if_neg fun heq => hk (List.mem_map.mpr ⟨p, hp, heq⟩)
      rw [List.map_cons, List.map_cons, hrest]
      simp [Dict.set, strItem, putField]
    · have hmem : name ∈ D.map Prod.fst := by
        rcases List.mem_cons.mp h with h | h
        · exact absurd h.symm heq
        · exact h
      rw [List.map_cons, List.map_cons, List.map_cons, ← set_putField hnodup hmem]
      simp [Dict.set, strItem, putField, heq]

theorem map_fst_putField (name : String) (v : Val) (D : List (String × Val)) :
    (D.map (putField name v)).map Prod.fst = D.map Prod.fst := by
  rw [List.map_map]
  refine List.map_congr_left fun p _ => ?_
  simp only [Function.comp, putField]
  split
  · rename_i h
    exact h.symm
  · rfl

section
variable {e : Entry} {D : List (String × Val)} {t : String} {u : Fin maxMicros} {w : Val}

theorem nodup_of_perm (hperm : D.Perm (exportedFields e t w)) : (D.map Prod.fst).Nodup :=
  (hperm.map Prod.fst).nodup_iff.mpr (nodup_exportedFields e t w)

theorem get_exported (hperm : D.Perm (exportedFields e t w)) {name : String} {v : Val}
    (h : (name, v) ∈ exportedFields e t w) : Dict.get (D.map strItem) name = v :=
  get_strItems (nodup_of_perm hperm) (hperm.mem_iff.mpr h)

theorem get_hashes (hperm : D.Perm (exportedFields e t w)) :
    Dict.get (D.map strItem) "prev_hash" = .str (String.ofList (hex e.prevHash)) ∧
      Dict.get (D.map strItem) "hash" = .str (String.ofList (hex e.hash)) :=
  ⟨get_exported hperm (by simp [exportedFields]), get_exported hperm (by simp [exportedFields])⟩

/-- The conversions of the loader, when both hashes have 32 bytes. -/
theorem convertFields_exported (hperm : D.Perm (exportedFields e t w)) (hts : UtcText e.ts u t)
    (hprev : e.prevHash.length = 32) (hhash : e.hash.length = 32) :
    ∃ F : List (String × Val), convertFields py (D.map strItem) = .ok (F.map strItem) ∧ F.Perm (readFields e u w) := by
  have hnodup := nodup_of_perm hperm
  have hname : ∀ name ∈ (exportedFields e t w).map Prod.fst, name ∈ D.map Prod.fst :=
    fun name => (hperm.map Prod.fst).mem_iff.mpr
  obtain ⟨hgetPrev, hgetHash⟩ := get_hashes hperm
  have hgetTs : Dict.get (D.map strItem) "ts" = .str t := get_exported hperm (by simp [exportedFields])
  refine ⟨((D.map (putField "prev_hash" (.bytes e.prevHash))).map (putField "hash" (.bytes e.hash))).map
    (putField "ts" (.datetime ⟨u, some DateTime.utc⟩)), ?_, ?_⟩
  · have hprevIn := hname "prev_hash" (by simp [exportedFields])
    have hhashIn := hname "hash" (by simp [exportedFields])
    have htsIn := hname "ts" (by simp [exportedFields])
    simp only [convertFields, hgetPrev, hgetHash, hgetTs, hexToBytes_hex hprev, hexToBytes_hex hhash, tsFromStr_utc hts]
    have hfst := map_fst_putField
    rw [← set_putField (by rwa [hfst, hfst]) (by rwa [hfst, hfst]), ← set_putField (by rwa [hfst]) (by rwa [hfst]),
      ← set_putField hnodup hprevIn]
    rfl
  · exact ((hperm.map _).map _).map _

/-- The loader refuses a hash of another length. -/
theorem convertFields_short (hperm : D.Perm (exportedFields e t w))
    (hshort : ¬ (e.prevHash.length = 32 ∧ e.hash.length = 32)) : ∃ x, convertFields py (D.map strItem) = .error x := by
  obtain ⟨hgetPrev, hgetHash⟩ := get_hashes hperm
  by_cases hprev : e.prevHash.length = 32
  · obtain ⟨x, hx⟩ := @hexToBytes_short py e.hash fun hhash => hshort ⟨hprev, hhash⟩
    exact ⟨x, by simp only [convertFields, hgetPrev, hgetHash, hexToBytes_hex hprev, hx]; rfl⟩
  · obtain ⟨x, hx⟩ := @hexToBytes_short py e.prevHash hprev
    exact ⟨x, by simp only [convertFields, hgetPrev, hx]; rfl⟩

theorem parseLine_fields {depth idx : ℕ} {line : List Char} (hload : loads depth line = .ok (.dict (D.map strItem)))
    (hperm : D.Perm (exportedFields e t w)) : parseLine py depth idx line = convertFields py (D.map strItem) := by
  have hall : ∀ f ∈ requiredEntryFields, Dict.has (D.map strItem) f = true := by
    intro f hf
    have hf : f ∈ (exportedFields e t w).map Prod.fst := hf
    rw [← (hperm.map Prod.fst).mem_iff] at hf
    obtain ⟨p, hp, rfl⟩ := List.mem_map.mp hf
    rw [Dict.has, get?_strItems (nodup_of_perm hperm) hp]
    rfl
  have hmissing : (requiredEntryFields.filter fun f => !Dict.has (D.map strItem) f) = [] := by
    rw [List.filter_eq_nil_iff]
    intro f hf
    simp [hall f hf]
  rw [parseLine, hload]
  simp only [hmissing]
  exact if_neg (not_not.mpr rfl)

end

theorem parseLine_exported {depth idx : ℕ} {e : Entry} {line : List Char} (h : Exported depth e line)
    (hprev : e.prevHash.length = 32) (hhash : e.hash.length = 32) :
    ∃ found, parseLine py depth idx line = .ok found ∧ Reads e found := by
  obtain ⟨D, t, u, w, hload, hperm, hts, hw⟩ := h.fields
  obtain ⟨F, hF, hread⟩ := @convertFields_exported py e D t u w hperm hts hprev hhash
  exact ⟨_, (parseLine_fields hload hperm).trans hF, F, u, w, rfl, hread, hts.instant, hw⟩

theorem parseLine_short {depth idx : ℕ} {e : Entry} {line : List Char} (h : Exported depth e line)
    (hshort : ¬ (e.prevHash.length = 32 ∧ e.hash.length = 32)) : ∃ x, parseLine py depth idx line = .error x := by
  obtain ⟨D, t, u, w, hload, hperm, -, -⟩ := h.fields
  obtain ⟨x, hx⟩ := @convertFields_short py e D t w hperm hshort
  exact ⟨x, (parseLine_fields hload hperm).trans hx⟩

/-! ### Files -/

/-- The file of a list of lines. -/
def fileOf (lines : List (List Char)) : List Char := lines.flatMap (· ++ ['\n'])

theorem linesFrom_line {line : List Char} (h : ∀ c ∈ line, c ≠ '\n' ∧ c ≠ '\r') (s : List Char) :
    ∀ acc, linesFrom acc (line ++ '\n' :: s) = (acc ++ line) :: linesFrom [] s := by
  induction line with
  | nil =>
    intro acc
    rw [List.nil_append, List.append_nil, linesFrom]
    · exact if_pos (.inl rfl)
    · simp
  | cons c line ih =>
    intro acc
    obtain ⟨⟨hn, hr⟩, hline⟩ := List.forall_mem_cons.mp h
    rw [List.cons_append, linesFrom, if_neg (by simp [hn, hr]), ih hline, List.append_assoc]
    · rfl
    · intro s' hc
      exact absurd hc hr

theorem fileLines_fileOf {lines : List (List Char)} (h : ∀ line ∈ lines, ∀ c ∈ line, c ≠ '\n' ∧ c ≠ '\r') :
    fileLines (fileOf lines) = lines := by
  induction lines with
  | nil => rfl
  | cons line lines ih =>
    obtain ⟨hline, hlines⟩ := List.forall_mem_cons.mp h
    rw [fileOf, List.flatMap_cons, List.append_assoc, fileLines, List.singleton_append, linesFrom_line hline,
      List.nil_append]
    exact congrArg _ (ih hlines)

/-- An object is not stripped of anything. -/
theorem stripped_object {line : List Char} (h : ∃ body, line = '\x7b' :: body ++ ['\x7d']) : stripped line = line := by
  obtain ⟨body, rfl⟩ := h
  have hopen : whitespace '\x7b' = false := by decide
  have hclose : whitespace '\x7d' = false := by decide
  simp [stripped, stripText, hopen, hclose]

end Tools
