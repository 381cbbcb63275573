import Mathlib.Data.List.Basic
import Mathlib.Data.List.Pairwise
import Mathlib.Data.List.Sort
import Mathlib.Data.Set.Defs

/-! A sweep over spans, by their starts and the longer first: a span is taken unless it starts inside the last one
    taken.

    What the taken spans cover is all that the spans cover exactly if some disjoint ones, each the longest at its
    start, cover it. -/

namespace Sweep
variable {β : Type*}

structure Span (β : Type*) where
  lo : ℕ
  hi : ℕ
  tag : β

def Span.ends (m : Span β) : ℕ × ℕ := (m.lo, m.hi)

/-- The order of the sweep. -/
def Span.before (a b : Span β) : Bool := a.lo < b.lo || (a.lo = b.lo && b.hi ≤ a.hi)

def Span.Has (m : Span β) (x : ℕ) : Prop := m.lo ≤ x ∧ x < m.hi

def Covered (spans : List (Span β)) (x : ℕ) : Prop := ∃ m ∈ spans, m.Has x

instance (m : Span β) (x : ℕ) : Decidable (m.Has x) := inferInstanceAs (Decidable (_ ∧ _))

instance (spans : List (Span β)) : DecidablePred (Covered spans) :=
  fun x => inferInstanceAs (Decidable (∃ m ∈ spans, m.Has x))

def sweep : ℕ → List (Span β) → List (Span β)
  | _, [] => []
  | last, m :: spans => if m.lo < last then sweep last spans else m :: sweep m.hi spans

/-- Sorted for the sweep. -/
abbrev Sorted (spans : List (Span β)) : Prop := spans.Pairwise fun a b => a.before b = true

abbrev Proper (spans : List (Span β)) : Prop := ∀ m ∈ spans, m.lo ≤ m.hi

theorem before_iff {a b : Span β} : a.before b = true ↔ a.lo < b.lo ∨ a.lo = b.lo ∧ b.hi ≤ a.hi := by
  simp [Span.before]

theorem before_lo {a b : Span β} (h : a.before b = true) : a.lo ≤ b.lo := by
  rcases before_iff.mp h with h | ⟨h, -⟩
  · exact h.le
  · exact h.le

theorem before_trans {a b c : Span β} (hab : a.before b = true) (hbc : b.before c = true) : a.before c = true := by
  rw [before_iff] at *
  omega

theorem before_total (a b : Span β) : (a.before b || b.before a) = true := by
  rw [Bool.or_eq_true, before_iff, before_iff]
  omega

variable {spans front back : List (Span β)} {m b : Span β} {last x : ℕ}

/-! ### What is taken -/

theorem sweep_sublist : ∀ (last : ℕ) (spans : List (Span β)), (sweep last spans).Sublist spans
  | _, [] => .slnil
  | last, m :: spans => by
    rw [sweep]
    split
    · exact (sweep_sublist last spans).cons m
    · exact (sweep_sublist m.hi spans).cons_cons m

theorem sweep_lower : ∀ {last : ℕ} {spans : List (Span β)}, Proper spans → ∀ m ∈ sweep last spans, last ≤ m.lo
  | _, [], _, _, hm => absurd hm List.not_mem_nil
  | last, a :: spans, hproper, m, hm => by
    obtain ⟨ha, hrest⟩ := List.forall_mem_cons.mp hproper
    rw [sweep] at hm
    split at hm
    · exact sweep_lower hrest m hm
    · rename_i hlast
      rcases List.mem_cons.mp hm with rfl | hm
      · omega
      · have hlow := sweep_lower hrest m hm
        omega

/-- The taken spans come one behind the other. -/
theorem sweep_disjoint : ∀ {last : ℕ} {spans : List (Span β)}, Proper spans →
    (sweep last spans).Pairwise fun a b => a.hi ≤ b.lo
  | _, [], _ => .nil
  | last, a :: spans, hproper => by
    obtain ⟨-, hrest⟩ := List.forall_mem_cons.mp hproper
    rw [sweep]
    split
    · exact sweep_disjoint hrest
    · exact List.pairwise_cons.mpr ⟨sweep_lower hrest, sweep_disjoint hrest⟩

/-- A taken span that is not empty is the first one at its start. -/
theorem sweep_first : ∀ {last : ℕ} {spans : List (Span β)}, Proper spans → Sorted spans → ∀ m ∈ sweep last spans,
    m.lo < m.hi → ∃ front back, spans = front ++ m :: back ∧ ∀ p ∈ front, p.lo < m.lo
  | _, [], _, _, _, hm, _ => absurd hm List.not_mem_nil
  | last, a :: spans, hproper, hsorted, m, hm, hne => by
    obtain ⟨ha, hrest⟩ := List.forall_mem_cons.mp hproper
    obtain ⟨hbefore, hsorted⟩ := List.pairwise_cons.mp hsorted
    have hin : ∀ r, m ∈ sweep r spans → m ∈ spans := fun r h => (sweep_sublist r spans).subset h
    rw [sweep] at hm
    split at hm
    · rename_i hlast
      obtain ⟨front, back, rfl, hfront⟩ := sweep_first hrest hsorted m hm hne
      have hlow := sweep_lower hrest m hm
      refine ⟨a :: front, back, rfl, List.forall_mem_cons.mpr ⟨by omega, hfront⟩⟩
    · rcases List.mem_cons.mp hm with rfl | hm
      · exact ⟨[], spans, rfl, nofun⟩
      · obtain ⟨front, back, hspans, hfront⟩ := sweep_first hrest hsorted m hm hne
        have hlow := sweep_lower hrest m hm
        have hafter := before_iff.mp (hbefore m (hin _ hm))
        refine ⟨a :: front, back, by rw [hspans, List.cons_append], List.forall_mem_cons.mpr ⟨by omega, hfront⟩⟩

theorem sweep_append : ∀ {last : ℕ} {front back : List (Span β)}, ∀ b ∈ sweep last front, b ∈ sweep last (front ++ back)
  | _, [], _, _, hb => absurd hb List.not_mem_nil
  | last, a :: front, back, b, hb => by
    rw [List.cons_append, sweep]
    rw [sweep] at hb
    split
    · rename_i hlast
      rw [if_pos hlast] at hb
      exact sweep_append b hb
    · rename_i hlast
      rw [if_neg hlast] at hb
      rcases List.mem_cons.mp hb with rfl | hb
      · exact List.mem_cons_self
      · exact List.mem_cons_of_mem a (sweep_append b hb)

/-- A span is taken when those taken before it end before it starts. -/
theorem sweep_takes : ∀ {last : ℕ} {front back : List (Span β)}, last ≤ m.lo → (∀ b ∈ sweep last front, b.hi ≤ m.lo) →
    m ∈ sweep last (front ++ m :: back)
  | last, [], back, hlast, _ => by
    rw [List.nil_append, sweep, if_neg (by omega)]
    exact List.mem_cons_self
  | last, a :: front, back, hlast, htaken => by
    rw [List.cons_append, sweep]
    rw [sweep] at htaken
    split
    · rename_i hskip
      rw [if_pos hskip] at htaken
      exact sweep_takes hlast htaken
    · rename_i hskip
      rw [if_neg hskip] at htaken
      obtain ⟨ha, hrest⟩ := List.forall_mem_cons.mp htaken
      exact List.mem_cons_of_mem a (sweep_takes ha hrest)

/-- Two taken spans are the same or disjoint. -/
theorem sweep_apart (hproper : Proper spans) {a b : Span β} (ha : a ∈ sweep last spans) (hb : b ∈ sweep last spans) :
    a = b ∨ a.hi ≤ b.lo ∨ b.hi ≤ a.lo := by
  by_cases hab : a = b
  · exact .inl hab
  · right
    have : Std.Symm fun a b : Span β => a.hi ≤ b.lo ∨ b.hi ≤ a.lo := ⟨fun _ _ h => h.symm⟩
    have hpair : (sweep last spans).Pairwise fun a b => a.hi ≤ b.lo ∨ b.hi ≤ a.lo :=
      (sweep_disjoint hproper).imp .inl
    exact hpair.forall ha hb hab

/-- An empty span that is taken lies in no other. -/
theorem sweep_empty : ∀ {last : ℕ} {spans : List (Span β)}, Proper spans → Sorted spans → m ∈ sweep last spans →
    m.lo = m.hi → b ∈ sweep last spans → ¬ b.Has m.lo
  | _, [], _, _, hm, _, _ => absurd hm List.not_mem_nil
  | last, a :: spans, hproper, hsorted, hm, hempty, hb => by
    obtain ⟨ha, hrest⟩ := List.forall_mem_cons.mp hproper
    obtain ⟨hbefore, hsorted⟩ := List.pairwise_cons.mp hsorted
    rw [sweep] at hm hb
    split at hm
    · rename_i hskip
      rw [if_pos hskip] at hb
      exact sweep_empty hrest hsorted hm hempty hb
    · rename_i hskip
      rw [if_neg hskip] at hb
      rintro ⟨hlow, hhigh⟩
      rcases List.mem_cons.mp hm with rfl | hm
      · rcases List.mem_cons.mp hb with rfl | hb
        · omega
        · have hafter := before_iff.mp (hbefore b ((sweep_sublist _ _).subset hb))
          omega
      · rcases List.mem_cons.mp hb with rfl | hb
        · have hbehind := sweep_lower hrest m hm
          omega
        · exact sweep_empty hrest hsorted hm hempty hb ⟨hlow, hhigh⟩

/-- An empty span is taken when no taken span covers its place. -/
theorem sweep_takes_empty (hsorted : Sorted spans) (hm : m ∈ spans) (hfree : ¬ Covered (sweep 0 spans) m.lo) :
    m ∈ sweep 0 spans := by
  obtain ⟨front, back, rfl⟩ := List.append_of_mem hm
  refine sweep_takes m.lo.zero_le fun b hb => ?_
  by_contra hlong
  have hbm : b.before m = true :=
    (List.pairwise_append.mp hsorted).2.2 b ((sweep_sublist _ _).subset hb) m List.mem_cons_self
  exact hfree ⟨b, sweep_append b hb, before_lo hbm, by omega⟩

/-! ### Tilings -/

/-- Spans that are disjoint and each the longest at its start, and together cover all that is covered. -/
structure Tiles (spans : List (Span β)) (tiles : Set (ℕ × ℕ)) : Prop where
  mem : ∀ a ∈ tiles, ∃ m ∈ spans, m.ends = a
  proper : ∀ a ∈ tiles, a.1 < a.2
  longest : ∀ a ∈ tiles, ∀ m ∈ spans, m.lo = a.1 → m.hi ≤ a.2
  disjoint : ∀ a ∈ tiles, ∀ b ∈ tiles, a = b ∨ a.2 ≤ b.1 ∨ b.2 ≤ a.1
  cover : ∀ x, Covered spans x → ∃ a ∈ tiles, a.1 ≤ x ∧ x < a.2

theorem Covered.congr {spans' : List (Span β)} (h : ∀ m, m ∈ spans ↔ m ∈ spans') (x : ℕ) :
    Covered spans x ↔ Covered spans' x := by
  simp only [Covered, h]

/-- A tiling does not depend on the order of the spans. -/
theorem Tiles.congr {spans' : List (Span β)} {tiles : Set (ℕ × ℕ)} (h : ∀ m, m ∈ spans ↔ m ∈ spans') :
    Tiles spans tiles ↔ Tiles spans' tiles := by
  constructor
  · rintro ⟨hmem, hproper, hlongest, hdisjoint, hcover⟩
    simp only [h, Covered.congr h] at hmem hlongest hcover
    exact ⟨hmem, hproper, hlongest, hdisjoint, hcover⟩
  · rintro ⟨hmem, hproper, hlongest, hdisjoint, hcover⟩
    simp only [← h, ← Covered.congr h] at hmem hlongest hcover
    exact ⟨hmem, hproper, hlongest, hdisjoint, hcover⟩

/-- The first span at a start is a longest one. -/
theorem exists_first : ∀ {spans : List (Span β)}, Sorted spans → ∀ m ∈ spans, ∃ first front back,
    spans = front ++ first :: back ∧ first.lo = m.lo ∧ m.hi ≤ first.hi ∧ ∀ p ∈ front, p.lo < m.lo
  | [], _, _, hm => absurd hm List.not_mem_nil
  | a :: spans, hsorted, m, hm => by
    obtain ⟨hbefore, hsorted⟩ := List.pairwise_cons.mp hsorted
    rcases List.mem_cons.mp hm with rfl | hm
    · exact ⟨m, [], spans, rfl, rfl, le_rfl, nofun⟩
    · have hafter := before_iff.mp (hbefore m hm)
      by_cases hlo : a.lo = m.lo
      · exact ⟨a, [], spans, rfl, hlo, by omega, nofun⟩
      · obtain ⟨first, front, back, rfl, heq, hhi, hfront⟩ := exists_first hsorted m hm
        exact ⟨first, a :: front, back, rfl, heq, hhi, List.forall_mem_cons.mpr ⟨by omega, hfront⟩⟩

theorem Tiles.taken {tiles : Set (ℕ × ℕ)} (h : Tiles spans tiles) (hproper : Proper spans) (hsorted : Sorted spans) :
    ∀ (lo : ℕ) (a : ℕ × ℕ), a.1 = lo → a ∈ tiles → ∃ m ∈ sweep 0 spans, m.ends = a := by
  intro lo
  induction lo using Nat.strong_induction_on with
  | _ lo ih =>
    rintro a rfl ha
    obtain ⟨m, hm, rfl⟩ := h.mem a ha
    obtain ⟨first, front, back, hspans, hlo, hhi, hfront⟩ := exists_first hsorted m hm
    have hfirst : first ∈ spans := by simp [hspans]
    have hends : first.ends = m.ends := by
      have hlong := h.longest _ ha first hfirst hlo
      exact Prod.ext hlo (le_antisymm hlong hhi)
    refine ⟨first, ?_, hends⟩
    -- a taken span that reaches over the start would be a tile before this one, and overlap it
    have htaken : ∀ b ∈ sweep 0 front, b.hi ≤ first.lo := by
      intro b hb
      by_contra hlong
      have hblo : b.lo < m.lo := hfront b ((sweep_sublist _ _).subset hb)
      have hbin : b ∈ sweep 0 spans := hspans ▸ sweep_append b hb
      have hcovered : Covered spans b.lo := ⟨b, (sweep_sublist _ _).subset hbin, le_rfl, by omega⟩
      obtain ⟨c, hc, hclo, hchi⟩ := h.cover _ hcovered
      have hbefore : c.1 < m.ends.1 := lt_of_le_of_lt hclo hblo
      obtain ⟨m', hm', rfl⟩ := ih c.1 hbefore c rfl hc
      simp only [Span.ends] at *
      obtain rfl : m' = b := by
        rcases sweep_apart hproper hm' hbin with heq | hle | hle
        · exact heq
        · omega
        · omega
      have hown := h.proper _ ha
      rcases h.disjoint _ hc _ ha with heq | hle | hle
      · simp only [Prod.mk.injEq] at heq
        omega
      · simp only at hle
        omega
      · simp only at hle hown
        omega
    rw [hspans]
    exact sweep_takes (Nat.zero_le _) htaken

/-- The taken spans that are not empty. -/
def takenEnds (spans : List (Span β)) : Set (ℕ × ℕ) := fun a => ∃ m ∈ sweep 0 spans, m.lo < m.hi ∧ m.ends = a

theorem longest_taken (hproper : Proper spans) (hsorted : Sorted spans) {m p : Span β} (hm : m ∈ sweep 0 spans)
    (hne : m.lo < m.hi) (hp : p ∈ spans) (hlo : p.lo = m.lo) : p.hi ≤ m.hi := by
  obtain ⟨front, back, rfl, hfront⟩ := sweep_first hproper hsorted m hm hne
  rcases List.mem_append.mp hp with hp | hp
  · have hbefore := hfront p hp
    omega
  · rcases List.mem_cons.mp hp with rfl | hp
    · exact le_rfl
    · have hafter := (List.pairwise_cons.mp (List.pairwise_append.mp hsorted).2.1).1 p hp
      rw [before_iff] at hafter
      omega

/-- Where a tiling exists, the taken spans are it. -/
theorem Tiles.eq_taken {tiles : Set (ℕ × ℕ)} (h : Tiles spans tiles) (hproper : Proper spans) (hsorted : Sorted spans)
    (a : ℕ × ℕ) : a ∈ tiles ↔ a ∈ takenEnds spans := by
  constructor
  · intro ha
    obtain ⟨m, hm, rfl⟩ := h.taken hproper hsorted a.1 a rfl ha
    exact ⟨m, hm, h.proper _ ha, rfl⟩
  · rintro ⟨m, hm, hne, rfl⟩
    obtain ⟨c, hc, hlow, hhigh⟩ := h.cover m.lo ⟨m, (sweep_sublist _ _).subset hm, le_rfl, hne⟩
    obtain ⟨m', hm', rfl⟩ := h.taken hproper hsorted c.1 c rfl hc
    simp only [Span.ends] at hlow hhigh
    obtain rfl : m' = m := by
      rcases sweep_apart hproper hm' hm with heq | hle | hle
      · exact heq
      · omega
      · omega
    exact hc

/-- The taken spans cover all that is covered exactly if they tile it, and then nothing else does. -/
theorem covered_iff (hproper : Proper spans) (hsorted : Sorted spans) :
    (∀ x, Covered spans x → Covered (sweep 0 spans) x) ↔ ∃ tiles, Tiles spans tiles := by
  constructor
  · intro hall
    refine ⟨takenEnds spans, ?_, ?_, ?_, ?_, ?_⟩
    · rintro a ⟨m, hm, -, rfl⟩
      exact ⟨m, (sweep_sublist _ _).subset hm, rfl⟩
    · rintro a ⟨m, -, hne, rfl⟩
      exact hne
    · rintro a ⟨m, hm, hne, rfl⟩ p hp hlo
      exact longest_taken hproper hsorted hm hne hp hlo
    · rintro a ⟨m, hm, -, rfl⟩ b ⟨n, hn, -, rfl⟩
      rcases sweep_apart hproper hm hn with rfl | hle | hle
      · exact .inl rfl
      · exact .inr (.inl hle)
      · exact .inr (.inr hle)
    · intro x hx
      obtain ⟨m, hm, hlow, hhigh⟩ := hall x hx
      exact ⟨m.ends, ⟨m, hm, by omega, rfl⟩, hlow, hhigh⟩
  · rintro ⟨tiles, htiles⟩ x hx
    obtain ⟨a, ha, hlow, hhigh⟩ := htiles.cover x hx
    obtain ⟨m, hm, rfl⟩ := htiles.taken hproper hsorted a.1 a rfl ha
    exact ⟨m, hm, hlow, hhigh⟩

theorem sorted_mergeSort (spans : List (Span β)) : Sorted (spans.mergeSort Span.before) :=
  @List.pairwise_mergeSort (Span β) Span.before (fun _ _ _ => before_trans) before_total spans

/-- Sorting keeps the order of the spans with the same ends. -/
theorem filter_mergeSort (spans : List (Span β)) (a : ℕ × ℕ) :
    (spans.mergeSort Span.before).filter (·.ends = a) = spans.filter (·.ends = a) := by
  have hsame : (spans.filter (·.ends = a)).Pairwise fun m n => m.before n = true := by
    rw [List.pairwise_filter]
    refine List.pairwise_of_forall fun m n hm hn => before_iff.mpr (.inr ?_)
    obtain ⟨hlo, hhi⟩ := Prod.mk.inj ((of_decide_eq_true hm).trans (of_decide_eq_true hn).symm)
    exact ⟨hlo, hhi.ge⟩
  have hsub := @List.sublist_mergeSort (Span β) Span.before spans (fun _ _ _ => before_trans) before_total _ hsame
    List.filter_sublist
  have hperm := (List.mergeSort_perm spans Span.before).filter (·.ends = a)
  have hfilter := hsub.filter (·.ends = a)
  rw [List.filter_filter] at hfilter
  simp only [Bool.and_self] at hfilter
  exact (hfilter.eq_of_length hperm.length_eq.symm).symm

theorem find_mergeSort (spans : List (Span β)) (a : ℕ × ℕ) :
    (spans.mergeSort Span.before).find? (·.ends = a) = spans.find? (·.ends = a) := by
  rw [← List.head?_filter, ← List.head?_filter, filter_mergeSort]

/-- A taken span that is not empty is the first one with its ends. -/
theorem find_taken (hproper : Proper spans) (hsorted : Sorted spans) (hm : m ∈ sweep 0 spans) (hne : m.lo < m.hi) :
    spans.find? (·.ends = m.ends) = some m := by
  obtain ⟨front, back, rfl, hfront⟩ := sweep_first hproper hsorted m hm hne
  have hnone : front.find? (·.ends = m.ends) = none := by
    rw [List.find?_eq_none]
    intro p hp hends
    have hbefore := hfront p hp
    have hlo : p.lo = m.lo := congrArg Prod.fst (of_decide_eq_true hends)
    omega
  rw [List.find?_append, hnone, Option.none_or]
  simp

end Sweep
