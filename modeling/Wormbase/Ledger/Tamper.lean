import Wormbase.Ledger.Entry

/-! What `verify_chain` accepts, where it stops, and what an edit of an accepted chain does to it.

    An accepted list is a hash chain of canonical texts, so with a collision-free hash its last hash
    fixes every text in it. An edit that keeps the last hash and changes a text is therefore rejected,
    at the first place where a link or a recomputed hash fails. -/

namespace Ledger
open Py

section
variable (sha256 : Bytes → Bytes)

/-! ### The first break -/

/-- The running head in front of entry `i`. -/
def headAt (prev : Bytes) (es : List Dict) : ℕ → Except Err Bytes
  | 0 => .ok prev
  | i + 1 => match es[i]? with
    | some e => computeEntryHash sha256 e
    | none => .ok prev

/-- Entry `i` names the head in front of it. -/
def LinkAt (prev : Bytes) (es : List Dict) (i : ℕ) : Prop :=
  ∃ e p, es[i]? = some e ∧ headAt sha256 prev es i = .ok p ∧ e.get "prev_hash" = .bytes p

/-- Entry `i` has a recomputed hash, and `same` says whether it carries it. -/
def SealAt (same : Bool) (es : List Dict) (i : ℕ) : Prop :=
  ∃ e h, es[i]? = some e ∧ computeEntryHash sha256 e = .ok h ∧ sameBytes (e.get "hash") h = same

/-- `i` is the first place at which the link or the recomputed hash fails. -/
structure FirstBreak (prev : Bytes) (es : List Dict) (i : ℕ) : Prop where
  inside : i < es.length
  before : ∀ j < i, LinkAt sha256 prev es j ∧ SealAt sha256 true es j
  breaks : ¬ LinkAt sha256 prev es i ∨ SealAt sha256 false es i

variable {sha256}

theorem linkAt_zero {prev : Bytes} {e : Dict} {es : List Dict} :
    LinkAt sha256 prev (e :: es) 0 ↔ e.get "prev_hash" = .bytes prev := by
  constructor
  · rintro ⟨e', p, he, hp, h⟩
    cases he; cases hp
    exact h
  · exact fun h => ⟨e, prev, rfl, rfl, h⟩

theorem sealAt_zero {same : Bool} {e : Dict} {es : List Dict} {h : Bytes}
    (hh : computeEntryHash sha256 e = .ok h) :
    SealAt sha256 same (e :: es) 0 ↔ sameBytes (e.get "hash") h = same := by
  constructor
  · rintro ⟨e', h', he, hh', hs⟩
    cases he
    rw [hh] at hh'
    cases hh'
    exact hs
  · exact fun hs => ⟨e, h, rfl, hh, hs⟩

theorem headAt_succ {prev h : Bytes} {e : Dict} {es : List Dict}
    (hh : computeEntryHash sha256 e = .ok h) {i : ℕ} (hi : i ≤ es.length) :
    headAt sha256 prev (e :: es) (i + 1) = headAt sha256 h es i := by
  cases i with
  | zero => exact hh
  | succ i => simp [headAt, List.getElem?_eq_getElem (show i < es.length by omega)]

theorem linkAt_succ {prev h : Bytes} {e : Dict} {es : List Dict}
    (hh : computeEntryHash sha256 e = .ok h) {i : ℕ} (hi : i < es.length) :
    LinkAt sha256 prev (e :: es) (i + 1) ↔ LinkAt sha256 h es i := by
  simp only [LinkAt, List.getElem?_cons_succ, headAt_succ hh hi.le]

theorem firstBreak_succ {prev h : Bytes} {e : Dict} {es : List Dict}
    (hlink : e.get "prev_hash" = .bytes prev) (hh : computeEntryHash sha256 e = .ok h)
    (hseal : sameBytes (e.get "hash") h = true) {i : ℕ} :
    FirstBreak sha256 prev (e :: es) (i + 1) ↔ FirstBreak sha256 h es i := by
  constructor
  · rintro ⟨hin, hbefore, hbreaks⟩
    have hin : i < es.length := by simpa using hin
    refine ⟨hin, fun j hj => ?_, ?_⟩
    · have := hbefore (j + 1) (by omega)
      rwa [linkAt_succ hh (by omega)] at this
    · rwa [linkAt_succ hh hin] at hbreaks
  · rintro ⟨hin, hbefore, hbreaks⟩
    refine ⟨by simpa using hin, fun j hj => ?_, ?_⟩
    · cases j with
      | zero => exact ⟨linkAt_zero.mpr hlink, (sealAt_zero hh).mpr hseal⟩
      | succ j => rw [linkAt_succ hh (by omega)]; exact hbefore j (by omega)
    · rwa [linkAt_succ hh hin]

/-- A break at the head is the only one. -/
theorem firstBreak_head {prev : Bytes} {e : Dict} {es : List Dict}
    (h : ¬ (LinkAt sha256 prev (e :: es) 0 ∧ SealAt sha256 true (e :: es) 0)) {n : ℕ}
    (hn : FirstBreak sha256 prev (e :: es) n) : n = 0 := by
  by_contra hne
  exact h (hn.before 0 (Nat.pos_of_ne_zero hne))

/-- The reported index is the first break, counted from the start of the walk. -/
theorem verifyFrom_break_iff : ∀ {es : List Dict} {prev : Bytes} {i k : ℕ},
    verifyFrom sha256 prev i es = .ok (false, some k) ↔
      ∃ n, k = i + n ∧ FirstBreak sha256 prev es n
  | [], prev, i, k => by
    simp only [verifyFrom, Except.ok.injEq, Prod.mk.injEq, Bool.true_eq_false, false_and, false_iff]
    rintro ⟨n, -, h⟩
    exact absurd h.inside (Nat.not_lt_zero n)
  | e :: es, prev, i, k => by
    -- the walk stops at the head, or the rest of the list decides
    have stop (hbad : ¬ (LinkAt sha256 prev (e :: es) 0 ∧ SealAt sha256 true (e :: es) 0))
        (hbreaks : ¬ LinkAt sha256 prev (e :: es) 0 ∨ SealAt sha256 false (e :: es) 0) :
        (Except.ok (false, some i) : Except Err (Bool × Option ℕ)) = .ok (false, some k) ↔
          ∃ n, k = i + n ∧ FirstBreak sha256 prev (e :: es) n := by
      constructor
      · intro h
        cases h
        exact ⟨0, rfl, Nat.succ_pos _, fun j hj => absurd hj (Nat.not_lt_zero j), hbreaks⟩
      · rintro ⟨n, rfl, hn⟩
        obtain rfl := firstBreak_head hbad hn
        rfl
    by_cases hlink : e.get "prev_hash" = .bytes prev
    · cases hh : computeEntryHash sha256 e with
      | error x =>
        rw [verifyFrom_error hlink hh]
        have hseal : ∀ same, ¬ SealAt sha256 same (e :: es) 0 := by
          rintro same ⟨e', h, he, hh', -⟩
          cases he
          rw [hh] at hh'
          cases hh'
        refine ⟨(fun h => by cases h), ?_⟩
        rintro ⟨n, -, hn⟩
        obtain rfl := firstBreak_head (fun h => hseal _ h.2) hn
        exact hn.breaks.elim (fun h => absurd (linkAt_zero.mpr hlink) h) fun h => absurd h (hseal _)
      | ok h =>
        cases hseal : sameBytes (e.get "hash") h with
        | false =>
          rw [verifyFrom_seal hlink hh hseal]
          refine stop (fun hgood => ?_) (.inr ((sealAt_zero hh).mpr hseal))
          have := (sealAt_zero hh).mp hgood.2
          rw [hseal] at this
          cases this
        | true =>
          rw [verifyFrom_step hlink hh hseal, verifyFrom_break_iff]
          constructor
          · rintro ⟨n, rfl, hn⟩
            exact ⟨n + 1, by omega, (firstBreak_succ hlink hh hseal).mpr hn⟩
          · rintro ⟨n, rfl, hn⟩
            cases n with
            | zero =>
              rcases hn.breaks with h0 | h0
              · exact absurd (linkAt_zero.mpr hlink) h0
              · rw [sealAt_zero hh, hseal] at h0
                cases h0
            | succ n => exact ⟨n, by omega, (firstBreak_succ hlink hh hseal).mp hn⟩
    · rw [verifyFrom_link hlink]
      exact stop (fun h => hlink (linkAt_zero.mp h.1)) (.inl fun h => hlink (linkAt_zero.mp h))

/-- Where every entry has canonical JSON the walk gives a verdict. -/
theorem verifyFrom_verdict : ∀ {es : List Dict} {prev : Bytes} {i : ℕ},
    (∀ e ∈ es, ∃ s, canonicalJson e = .ok s) →
      verifyFrom sha256 prev i es = .ok (true, none) ∨
      ∃ k, verifyFrom sha256 prev i es = .ok (false, some k)
  | [], _, _, _ => .inl rfl
  | e :: es, prev, i, hall => by
    obtain ⟨⟨s, hs⟩, hall⟩ := List.forall_mem_cons.mp hall
    have hh : computeEntryHash sha256 e = .ok (sha256 (encodeUtf8 s)) := by
      rw [computeEntryHash, hs]; rfl
    by_cases hlink : e.get "prev_hash" = .bytes prev
    · cases hseal : sameBytes (e.get "hash") (sha256 (encodeUtf8 s)) with
      | false => exact .inr ⟨i, verifyFrom_seal hlink hh hseal⟩
      | true =>
        rw [verifyFrom_step hlink hh hseal]
        exact verifyFrom_verdict hall
    · exact .inr ⟨i, verifyFrom_link hlink⟩

theorem verifyChain_verdict {es : List Dict} (hall : ∀ e ∈ es, ∃ s, canonicalJson e = .ok s) :
    verifyChain sha256 es = .ok (true, none) ∨ ∃ k, verifyChain sha256 es = .ok (false, some k) :=
  verifyFrom_verdict hall

/-! ### Accepted lists are hash chains -/

variable (sha256) in
/-- The hash of a canonical text. -/
def digest (s : List Char) : Bytes := sha256 (encodeUtf8 s)

/-- A canonical text names a previous hash. -/
def Follows (s : List Char) (d : Bytes) : Prop :=
  ∃ e : Dict, canonicalJson e = .ok s ∧ e.get "prev_hash" = .bytes d

/-- The canonical text of an entry that has one. -/
def canonText (e : Dict) : List Char := (canonicalJson e).toOption.getD []

theorem canonText_eq {e : Dict} {s : List Char} (h : canonicalJson e = .ok s) :
    canonText e = s := by
  rw [canonText, h]; rfl

theorem follows_unique (s : List Char) (d d' : Bytes) : Follows s d → Follows s d' → d = d' := by
  rintro ⟨e, he, hd⟩ ⟨e', he', hd'⟩
  exact prevHash_of_canonicalJson he he' hd hd'

theorem computeEntryHash_ok {e : Dict} {h : Bytes} (hh : computeEntryHash sha256 e = .ok h) :
    canonicalJson e = .ok (canonText e) ∧ h = digest sha256 (canonText e) := by
  obtain ⟨s, hs, h'⟩ := bind_eq_ok.mp hh
  rw [canonText_eq hs]
  exact ⟨hs, (Except.ok.inj h').symm⟩

theorem verifyFrom_ok : ∀ {es : List Dict} {prev : Bytes} {i : ℕ},
    verifyFrom sha256 prev i es = .ok (true, none) →
      HashChain.Linked (digest sha256) Follows prev (es.map canonText) ∧
      ∀ e ∈ es, canonicalJson e = .ok (canonText e) ∧
        e.get "hash" = .bytes (digest sha256 (canonText e))
  | [], _, _, _ => ⟨trivial, by simp⟩
  | e :: es, prev, i, h => by
    by_cases hlink : e.get "prev_hash" = .bytes prev
    · cases hh : computeEntryHash sha256 e with
      | error x => rw [verifyFrom_error hlink hh] at h; cases h
      | ok d =>
        cases hseal : sameBytes (e.get "hash") d with
        | false => rw [verifyFrom_seal hlink hh hseal] at h; cases h
        | true =>
          rw [verifyFrom_step hlink hh hseal] at h
          obtain ⟨hs, rfl⟩ := computeEntryHash_ok hh
          obtain ⟨hlinked, hall⟩ := verifyFrom_ok h
          exact ⟨⟨⟨e, hs, hlink⟩, hlinked⟩,
            List.forall_mem_cons.mpr ⟨⟨hs, sameBytes_iff.mp hseal⟩, hall⟩⟩
    · rw [verifyFrom_link hlink] at h
      cases h

/-! ### Edits -/

variable (sha256) in
def Accepted (es : List Dict) : Prop := verifyChain sha256 es = .ok (true, none)

/-- The stored hash of the last entry. -/
def lastHash (es : List Dict) : Option Val := es.getLast?.map (·.get "hash")

/-- Entries with one canonical JSON. -/
def SameCanonical (e e' : Dict) : Prop := ∃ s, canonicalJson e = .ok s ∧ canonicalJson e' = .ok s

/-- An edit of a list of entries. A duplicate is an insertion of an entry that is there already. -/
inductive Edit (es : List Dict) : List Dict → Prop
  | field {i : ℕ} {e : Dict} {name : String} {v w : Val} (he : es[i]? = some e)
      (hname : name ≠ "hash") (hv : e.get? name = some v) (hw : encode w ≠ encode v) :
      Edit es (es.set i (e.set name w))
  | replace {i : ℕ} {e e' : Dict} (he : es[i]? = some e) (hne : canonicalJson e' ≠ canonicalJson e) :
      Edit es (es.set i e')
  | drop {i : ℕ} (hi : i < es.length) : Edit es (es.eraseIdx i)
  | insert {i : ℕ} (e : Dict) (hi : i ≤ es.length) : Edit es (es.insertIdx i e)
  | swap {i j : ℕ} {e e' : Dict} (hij : i < j) (hi : es[i]? = some e) (hj : es[j]? = some e') :
      Edit es ((es.set i e').set j e)

/-- The last digest of an accepted list is its last stored hash. -/
theorem tip_of_accepted {es : List Dict} (h : Accepted sha256 es) :
    lastHash es = none ∧ es = [] ∨
      lastHash es = some (.bytes (HashChain.tip (digest sha256) genesisPrevHash (es.map canonText))) := by
  obtain ⟨-, hall⟩ := verifyFrom_ok h
  rcases List.eq_nil_or_concat es with rfl | ⟨es, e, rfl⟩
  · exact .inl ⟨rfl, rfl⟩
  · right
    have := (hall e (by simp)).2
    simp [lastHash, this]

section
variable (hinj : Function.Injective sha256) (hgen : ∀ b, sha256 b ≠ genesisPrevHash)
include hinj hgen

omit hgen in
theorem digest_injective : Function.Injective (digest sha256) :=
  fun _ _ h => encodeUtf8_injective (hinj h)

/-- Accepted lists that end in the same hash have the same canonical texts. -/
theorem accepted_unique {es es' : List Dict} (h : Accepted sha256 es) (h' : Accepted sha256 es')
    (hlast : lastHash es' = lastHash es) : es'.map canonText = es.map canonText := by
  obtain ⟨hlinked, -⟩ := verifyFrom_ok h
  obtain ⟨hlinked', -⟩ := verifyFrom_ok h'
  refine HashChain.linked_unique (digest_injective hinj) (fun s => hgen _) follows_unique
    hlinked' hlinked ?_
  rcases tip_of_accepted h with ⟨hn, rfl⟩ | ht
  · rw [hn] at hlast
    rcases tip_of_accepted h' with ⟨-, rfl⟩ | ht'
    · rfl
    · rw [hlast] at ht'; cases ht'
  · rw [ht] at hlast
    rcases tip_of_accepted h' with ⟨hn', -⟩ | ht'
    · rw [hn'] at hlast; cases hlast
    · rw [ht'] at hlast
      exact Val.bytes.inj (Option.some.inj hlast)

/-- No canonical text comes twice in an accepted list. -/
theorem accepted_nodup {es : List Dict} (h : Accepted sha256 es) : (es.map canonText).Nodup :=
  HashChain.linked_nodup (digest_injective hinj) (fun _ => hgen _) follows_unique
    (verifyFrom_ok h).1

/-- The same length and, place by place, the same canonical JSON. -/
theorem accepted_sameCanonical {es es' : List Dict} (h : Accepted sha256 es)
    (h' : Accepted sha256 es') (hlast : lastHash es' = lastHash es) :
    List.Forall₂ SameCanonical es es' := by
  have hmap := accepted_unique hinj hgen h h' hlast
  obtain ⟨-, hall⟩ := verifyFrom_ok h
  obtain ⟨-, hall'⟩ := verifyFrom_ok h'
  have hlen : es'.length = es.length := by simpa using congrArg List.length hmap
  refine List.forall₂_iff_get.mpr ⟨hlen.symm, fun i hi hi' => ?_⟩
  have htext : canonText es'[i] = canonText es[i] := by
    have := congrArg (·[i]?) hmap
    simpa [hi, hi'] using this
  exact ⟨canonText es[i], (hall _ (List.getElem_mem hi)).1,
    htext ▸ (hall' _ (List.getElem_mem hi')).1⟩

/-- An edit of an accepted list changes the canonical JSON of some place, or the length. -/
theorem Edit.not_sameCanonical {es es' : List Dict} (hes : Accepted sha256 es)
    (hedit : Edit es es') : ¬ List.Forall₂ SameCanonical es es' := by
  intro hsame
  have hat : ∀ {i : ℕ} {e e' : Dict}, es[i]? = some e → es'[i]? = some e' → SameCanonical e e' := by
    intro i e e' he he'
    obtain ⟨hi, rfl⟩ := List.getElem?_eq_some_iff.mp he
    obtain ⟨hi', rfl⟩ := List.getElem?_eq_some_iff.mp he'
    exact (List.forall₂_iff_get.mp hsame).2 i hi hi'
  have hset : ∀ {i : ℕ} {e : Dict} (e' : Dict), es[i]? = some e → (es.set i e')[i]? = some e' := by
    intro i e e' he
    obtain ⟨hi, -⟩ := List.getElem?_eq_some_iff.mp he
    rw [List.getElem?_set_self hi]
  have hlen := hsame.length_eq
  cases hedit with
  | @field i e name v w he hname hv hw =>
    obtain ⟨s, hs, hs'⟩ := hat he (hset _ he)
    have hget := Dict.get?_set name w e
    have htree := canonicalJson_field hs hs' hname hname hv hget hname
    rw [hv, hget] at htree
    refine hw ?_
    rw [encode_field hs' hname hget, encode_field hs hname hv]
    exact congrArg Except.ok (Option.some.inj htree).symm
  | replace he hne =>
    obtain ⟨s, hs, hs'⟩ := hat he (hset _ he)
    exact hne (hs'.trans hs.symm)
  | drop hi =>
    rw [List.length_eraseIdx_of_lt hi] at hlen
    omega
  | insert e hi =>
    rw [List.length_insertIdx_of_le_length hi] at hlen
    omega
  | @swap i j e e' hij hi hj =>
    have hi' : ((es.set i e').set j e)[i]? = some e' := by
      rw [List.getElem?_set_ne (by omega)]
      exact hset _ hi
    obtain ⟨s, hs, hs'⟩ := hat hi hi'
    have hnodup := accepted_nodup hinj hgen hes
    obtain ⟨hilt, rfl⟩ := List.getElem?_eq_some_iff.mp hi
    obtain ⟨hjlt, rfl⟩ := List.getElem?_eq_some_iff.mp hj
    have hi : i < (es.map canonText).length := by simpa using hilt
    have hj : j < (es.map canonText).length := by simpa using hjlt
    have heq : (es.map canonText)[i] = (es.map canonText)[j] := by
      simp [canonText_eq hs, canonText_eq hs']
    have := (hnodup.getElem_inj_iff).mp heq
    omega

/-- With a collision-free hash that never gives the genesis value, two accepted lists with one last
    hash agree place by place in canonical JSON; every edit of an accepted list that keeps the last
    hash is rejected; and the index reported is the first break. -/
theorem verifyChain_tamper_evident {es es' : List Dict} (hes : Accepted sha256 es)
    (hlast : lastHash es' = lastHash es) :
    (Accepted sha256 es' → es'.length = es.length ∧ List.Forall₂ SameCanonical es es') ∧
    (Edit es es' → ¬ Accepted sha256 es' ∧
      ((∀ e ∈ es', ∃ s, canonicalJson e = .ok s) →
        ∃ i, verifyChain sha256 es' = .ok (false, some i))) ∧
    ∀ i, verifyChain sha256 es' = .ok (false, some i) ↔ FirstBreak sha256 genesisPrevHash es' i := by
  refine ⟨fun h => ?_, fun hedit => ?_, fun i => ?_⟩
  · have hsame := accepted_sameCanonical hinj hgen hes h hlast
    exact ⟨hsame.length_eq.symm, hsame⟩
  · have hrej : ¬ Accepted sha256 es' := fun h =>
      hedit.not_sameCanonical hinj hgen hes (accepted_sameCanonical hinj hgen hes h hlast)
    exact ⟨hrej, fun hall => (verifyChain_verdict hall).resolve_left hrej⟩
  · rw [verifyChain, verifyFrom_break_iff]
    simp

end

end

/-- A chain of one entry, with `seq` as given and the hash of `seq` 1. -/
def sampleEntry (seq : ℕ) : Dict :=
  [(.str "seq", .int seq), (.str "prev_hash", .bytes genesisPrevHash),
    (.str "hash", .bytes (tagHash (encodeUtf8 (canonText
      [(.str "seq", .int 1), (.str "prev_hash", .bytes genesisPrevHash)]))))]

theorem sampleEntry_accepted : Accepted tagHash [sampleEntry 1] := rfl

theorem sampleEntry_changed_rejected : ¬ Accepted tagHash [sampleEntry 2] ∧
    ∃ i, verifyChain tagHash [sampleEntry 2] = .ok (false, some i) := by
  have hne : canonicalJson (sampleEntry 2) ≠ canonicalJson (sampleEntry 1) := fun h =>
    absurd (congrArg (fun r => r.toOption.getD []) h) (by decide)
  have hedit : Edit [sampleEntry 1] [sampleEntry 2] :=
    @Edit.replace [sampleEntry 1] 0 (sampleEntry 1) (sampleEntry 2) rfl hne
  have hrejected := (verifyChain_tamper_evident tagHash_injective tagHash_ne_genesis
    sampleEntry_accepted (show lastHash [sampleEntry 2] = lastHash [sampleEntry 1] from rfl)).2.1
    hedit
  refine ⟨hrejected.1, hrejected.2 fun e he => ?_⟩
  obtain rfl := List.mem_singleton.mp he
  exact ⟨_, rfl⟩

end Ledger
