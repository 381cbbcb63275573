import Wormbase.Ledger.WritePrimitive

/-! Contiguous chains of entries: seq values 1 to n, each entry linked to the one before. -/

namespace Ledger
open Py

/-- A row follows a hash when it names it as its previous hash. -/
def RowFollows (e : Entry) (h : Bytes) : Prop := e.prevHash = h

structure Contiguous (es : List Entry) : Prop where
  seqs : es.map (·.seq) = List.range' 1 es.length
  links : HashChain.Linked Entry.hash RowFollows genesisPrevHash es

/-- The hash that the next entry of a chain has to name. -/
def tipHash (es : List Entry) : Bytes := HashChain.tip Entry.hash genesisPrevHash es

@[simp] theorem tipHash_concat (es : List Entry) (e : Entry) : tipHash (es ++ [e]) = e.hash := by
  simp [tipHash]

theorem contiguous_nil : Contiguous [] := ⟨rfl, trivial⟩

theorem Contiguous.concat {es : List Entry} (h : Contiguous es) {e : Entry}
    (hseq : e.seq = es.length + 1) (hprev : e.prevHash = tipHash es) : Contiguous (es ++ [e]) := by
  refine ⟨?_, (HashChain.linked_concat ..).mpr ⟨h.links, hprev⟩⟩
  rw [List.map_append, h.seqs, List.length_append, List.length_singleton, List.range'_concat]
  simp [hseq, Nat.add_comm]

section
variable {es : List Entry} (h : es.map (·.seq) = List.range' 1 es.length)
include h

theorem seq_getElem {i : ℕ} (hi : i < es.length) : es[i].seq = i + 1 := by
  have hi' : i < (es.map (·.seq)).length := by rwa [List.length_map]
  have hmap : (es.map (·.seq))[i] = i + 1 := by
    simp only [h, List.getElem_range']
    omega
  simpa using hmap

theorem pairwise_seq : es.Pairwise fun a b => a.seq < b.seq := by
  have hrange := List.pairwise_lt_range' (s := 1) (n := es.length)
  rw [← h] at hrange
  exact List.pairwise_map.mp hrange

theorem seq_mem_range : ∀ e ∈ es, 0 < e.seq ∧ e.seq ≤ es.length := by
  intro e he
  have hmem : e.seq ∈ List.range' 1 es.length := h ▸ List.mem_map_of_mem he
  have := List.mem_range'_1.mp hmem
  omega

theorem eq_of_seq {a b : Entry} (ha : a ∈ es) (hb : b ∈ es) (heq : a.seq = b.seq) : a = b :=
  List.inj_on_of_nodup_map (h ▸ List.nodup_range') ha hb heq

theorem getLast?_seq : es.getLast?.elim 0 (·.seq) = es.length := by
  rcases List.eq_nil_or_concat es with rfl | ⟨es, e, rfl⟩
  · rfl
  · rw [List.concat_eq_append] at h ⊢
    have hseqs := congrArg List.getLast? h
    simp only [List.map_append, List.map_cons, List.map_nil, List.getLast?_concat,
      List.getLast?_range', List.length_append, List.length_singleton] at hseqs
    simpa using hseqs

end

/-- The last entry of a chain carries its length and its tip. -/
theorem Contiguous.last {es : List Entry} (h : Contiguous es) :
    es.getLast?.elim 0 (·.seq) = es.length ∧
      es.getLast?.elim genesisPrevHash (·.hash) = tipHash es := by
  refine ⟨getLast?_seq h.seqs, ?_⟩
  rcases List.eq_nil_or_concat es with rfl | ⟨es, e, rfl⟩
  · rfl
  · simp

/-- What a chain is read off: the seq and the two hashes of each entry. -/
def Entry.link (e : Entry) : ℕ × Bytes × Bytes := (e.seq, e.prevHash, e.hash)

theorem contiguous_iff_link {es : List Entry} : Contiguous es ↔
    (es.map Entry.link).map Prod.fst = List.range' 1 (es.map Entry.link).length ∧
      HashChain.Linked (fun l : ℕ × Bytes × Bytes => l.2.2) (fun l h => l.2.1 = h) genesisPrevHash
        (es.map Entry.link) := by
  rw [HashChain.linked_map, List.map_map, List.length_map]
  exact ⟨fun h => ⟨h.seqs, h.links⟩, fun h => ⟨h.1, h.2⟩⟩

theorem Contiguous.congr {es es' : List Entry} (heq : es'.map Entry.link = es.map Entry.link)
    (h : Contiguous es) : Contiguous es' := by
  rw [contiguous_iff_link] at h ⊢
  rwa [heq]

theorem tipHash_congr {es es' : List Entry} (heq : es'.map Entry.link = es.map Entry.link) :
    tipHash es' = tipHash es := by
  have htip : ∀ es, tipHash es = HashChain.tip (fun l : ℕ × Bytes × Bytes => l.2.2)
      genesisPrevHash (es.map Entry.link) := fun es =>
    (HashChain.tip_map (fun l : ℕ × Bytes × Bytes => l.2.2) Entry.link _ es).symm
  rw [htip, htip, heq]

theorem ofCompany_append (rows new : List Entry) (companyId : UUID) :
    ofCompany (rows ++ new) companyId = ofCompany rows companyId ++ ofCompany new companyId :=
  List.filter_append ..

/-- The newest row of a chain is its last. -/
theorem newest_of_contiguous {rows : List Entry} {companyId : UUID}
    (h : Contiguous (ofCompany rows companyId)) :
    newest rows companyId = (ofCompany rows companyId).getLast? := by
  have hdesc : (ofCompany rows companyId).insertionSort SeqAfter =
      (ofCompany rows companyId).reverse := by
    refine List.Perm.eq_of_pairwise (fun a b ha hb hab hba => ?_)
      (List.pairwise_insertionSort SeqAfter _) (List.pairwise_reverse.mpr ((pairwise_seq h.seqs).imp le_of_lt))
      ((List.perm_insertionSort ..).trans (List.reverse_perm _).symm)
    exact eq_of_seq h.seqs ((List.mem_insertionSort _).mp ha) (List.mem_reverse.mp hb)
      (le_antisymm hba hab)
  rw [newest, hdesc, List.head?_reverse]

theorem tailOf_getLast? {es : List Entry} (h : Contiguous es) :
    tailOf es.getLast? = (es.length, tipHash es) := by
  obtain ⟨hseq, hhash⟩ := h.last
  rw [← hseq, ← hhash]
  cases es.getLast? <;> rfl

/-- On a chain `_tail` finds the last row. -/
theorem tail_of_contiguous {rows : List Entry} {companyId : UUID}
    (h : Contiguous (ofCompany rows companyId)) : tail rows companyId =
      ((ofCompany rows companyId).length, tipHash (ofCompany rows companyId)) := by
  rw [tail, newest_of_contiguous h, tailOf_getLast? h]

/-- Reading a chain back keeps its order. -/
theorem fetchEntries_of_contiguous {d : Dialect} {rows : List Entry} {companyId : UUID}
    (h : Contiguous (ofCompany rows companyId)) :
    fetchEntries d rows companyId none = (ofCompany rows companyId).map normalizeRow := by
  have hsorted : (ofCompany rows companyId).Pairwise SeqBefore := (pairwise_seq h.seqs).imp le_of_lt
  simp only [fetchEntries, List.filter_true, hsorted.insertionSort_eq]

theorem link_normalizeRow (es : List Entry) :
    (es.map normalizeRow).map Entry.link = es.map Entry.link := by
  rw [List.map_map, List.map_inj_left]
  intro e _
  obtain ⟨-, -, hseq, -, hprev, hhash⟩ := normalizeRow_fields e
  simp only [Function.comp, Entry.link, hseq, hprev, hhash]

end Ledger
