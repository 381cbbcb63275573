import Mathlib.Logic.Function.Basic
import Mathlib.Data.List.Induction
import Mathlib.Data.List.Nodup

/-! Hash chains over any kind of block.

    `digest b` is the hash of a block and `follows b d` says that `b` names `d` as the hash before it.
    A chain from `d` is a list whose first block follows `d` and whose every later block follows the
    digest of the one before. When digests do not collide, the last digest fixes the whole chain. -/

namespace HashChain
variable {B D : Type} (digest : B → D) (follows : B → D → Prop)

def Linked : D → List B → Prop
  | _, [] => True
  | d, b :: bs => follows b d ∧ Linked (digest b) bs

/-- The digest that the next block has to follow. -/
def tip (d : D) (bs : List B) : D := (bs.getLast?.map digest).getD d

@[simp] theorem tip_nil (d : D) : tip digest d [] = d := rfl

@[simp] theorem tip_cons (d : D) (b : B) (bs : List B) :
    tip digest d (b :: bs) = tip digest (digest b) bs := by
  cases bs with
  | nil => rfl
  | cons c cs => simp [tip, List.getLast?_cons]

@[simp] theorem tip_append : ∀ (d : D) (bs cs : List B),
    tip digest d (bs ++ cs) = tip digest (tip digest d bs) cs
  | _, [], _ => rfl
  | d, b :: bs, cs => by rw [List.cons_append, tip_cons, tip_append, tip_cons]

theorem linked_append : ∀ (d : D) (bs cs : List B),
    Linked digest follows d (bs ++ cs) ↔
      Linked digest follows d bs ∧ Linked digest follows (tip digest d bs) cs
  | _, [], _ => by simp [Linked]
  | d, b :: bs, cs => by
    rw [List.cons_append, Linked, Linked, linked_append, tip_cons, and_assoc]

theorem linked_concat (d : D) (bs : List B) (b : B) :
    Linked digest follows d (bs ++ [b]) ↔
      Linked digest follows d bs ∧ follows b (tip digest d bs) := by
  rw [linked_append, Linked, Linked, and_true]

/-- A chain of images is a chain for the digests and the links of the images. -/
theorem linked_map {C : Type} (f : C → B) : ∀ (d : D) (cs : List C),
    Linked digest follows d (cs.map f) ↔ Linked (digest ∘ f) (fun c => follows (f c)) d cs
  | _, [] => Iff.rfl
  | d, c :: cs => by
    rw [List.map_cons, Linked, Linked, linked_map]
    rfl

theorem tip_map {C : Type} (f : C → B) (d : D) (cs : List C) :
    tip digest d (cs.map f) = tip (digest ∘ f) d cs := by
  rw [tip, tip, List.getLast?_map, Option.map_map]

/-- In a chain the block at place `i` follows the digest of the block at place `i - 1`. -/
theorem Linked.follows_getElem {d : D} {bs : List B} (h : Linked digest follows d bs) {i : ℕ}
    (hi : i < bs.length) : follows bs[i] (tip digest d (bs.take i)) := by
  rw [← List.take_append_drop i bs, linked_append, List.drop_eq_getElem_cons hi] at h
  exact h.2.1

/-- When no two blocks of a chain share a digest, a block other than the first follows the digest of
    exactly the block before it. -/
theorem Linked.follows_iff {d : D} {bs : List B} (h : Linked digest follows d bs)
    (hnodup : (bs.map digest).Nodup) (hfun : ∀ b d d', follows b d → follows b d' → d = d')
    {i j : ℕ} (hi : i < bs.length) (hj : j + 1 < bs.length) :
    follows bs[j + 1] (digest bs[i]) ↔ j = i := by
  have hlink : follows bs[j + 1] (digest bs[j]) := by
    have hfollows := h.follows_getElem digest follows hj
    rwa [List.take_succ_eq_append_getElem (by omega), tip_append, tip_cons, tip_nil] at hfollows
  constructor
  · intro hnames
    have heq := hfun _ _ _ hlink hnames
    have hj' : j < (bs.map digest).length := by rw [List.length_map]; omega
    have hi' : i < (bs.map digest).length := by rw [List.length_map]; exact hi
    have hsame : (bs.map digest)[j] = (bs.map digest)[i] := by simpa using heq
    exact hnodup.getElem_inj_iff.mp hsame
  · rintro rfl
    exact hlink

section
variable {digest follows} {genesis : D} (hinj : Function.Injective digest)
  (hgen : ∀ b, digest b ≠ genesis) (hfun : ∀ b d d', follows b d → follows b d' → d = d')
include hinj hgen hfun

/-- Two chains from the genesis value with the same last digest are the same chain. -/
theorem linked_unique {bs bs' : List B} (h : Linked digest follows genesis bs)
    (h' : Linked digest follows genesis bs')
    (htip : tip digest genesis bs = tip digest genesis bs') : bs = bs' := by
  induction bs using List.reverseRecOn generalizing bs' with
  | nil =>
    rcases List.eq_nil_or_concat bs' with rfl | ⟨cs, c, rfl⟩
    · rfl
    · simp only [List.concat_eq_append, tip_append, tip_nil, tip_cons] at htip
      exact absurd htip.symm (hgen c)
  | append_singleton bs b ih =>
    rcases List.eq_nil_or_concat bs' with rfl | ⟨cs, c, rfl⟩
    · simp only [tip_append, tip_nil, tip_cons] at htip
      exact absurd htip (hgen b)
    · simp only [List.concat_eq_append, tip_append, tip_nil, tip_cons] at h' htip ⊢
      obtain rfl := hinj htip
      rw [linked_concat] at h h'
      -- the last block names the digest before it, in both chains
      rw [ih h.1 h'.1 (hfun _ _ _ h.2 h'.2)]

/-- No block comes twice in a chain from the genesis value. -/
theorem linked_nodup {bs : List B} (h : Linked digest follows genesis bs) : bs.Nodup := by
  refine List.nodup_iff_injective_getElem.mpr fun i j hij => ?_
  have htake : ∀ k : Fin bs.length, Linked digest follows genesis (bs.take (k + 1)) ∧
      tip digest genesis (bs.take (k + 1)) = digest bs[k] := by
    intro k
    rw [← List.take_append_drop (k + 1) bs, linked_append] at h
    refine ⟨h.1, ?_⟩
    rw [List.take_succ_eq_append_getElem k.2, tip_append, tip_cons, tip_nil]
    rfl
  have heq := linked_unique hinj hgen hfun (htake i).1 (htake j).1
    (by rw [(htake i).2, (htake j).2]; exact congrArg digest hij)
  have hlen := congrArg List.length heq
  simp only [List.length_take] at hlen
  exact Fin.ext (by omega)

end

end HashChain
