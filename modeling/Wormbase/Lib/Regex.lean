import Mathlib.Data.List.Basic

/-! A backtracking matcher: the ends of the matches of an expression from one place, the preferred first.

    A place is the character before it, if there is one, and the text after it. Repetition is greedy,
    and its body is meant to consume, so that the length of the text bounds it. -/

namespace Regex

inductive Expr (α : Type) where
  | empty
  | one (p : α → Bool)
  | seq (r t : Expr α)
  | rep (r : Expr α) (least : ℕ) (most : Option ℕ)
  | edge (word : α → Bool)

section
variable {α : Type}

/-- Up to `most` matches of `f` one after the other, `least` at least, as many as possible first. -/
def repEnds (f : Option α → List α → List (Option α × List α)) :
    ℕ → ℕ → Option α → List α → List (Option α × List α)
  | 0, 0, before, s => [(before, s)]
  | _ + 1, 0, _, _ => []
  | least, most + 1, before, s =>
    ((f before s).flatMap fun p => repEnds f (least - 1) most p.1 p.2) ++
      if least = 0 then [(before, s)] else []

namespace Expr

/-- The places where a match may end. An edge lies between a word character and none. -/
def ends : Expr α → Option α → List α → List (Option α × List α)
  | empty, before, s => [(before, s)]
  | one _, _, [] => []
  | one p, _, c :: s => if p c then [(some c, s)] else []
  | seq r t, before, s => (r.ends before s).flatMap fun p => t.ends p.1 p.2
  | rep r least most, before, s => repEnds r.ends least (most.getD s.length) before s
  | edge word, before, s => if before.any word = s.head?.any word then [] else [(before, s)]

def all (rs : List (Expr α)) : Expr α := rs.foldr seq empty

def times (r : Expr α) (n : ℕ) : Expr α := rep r n (some n)
def opt (r : Expr α) : Expr α := rep r 0 (some 1)

/-- The preferred match from a place that consumes, as the place after it. -/
def matchAt (r : Expr α) (before : Option α) (s : List α) : Option (Option α × List α) :=
  (r.ends before s).head?.filter fun p => p.2.length < s.length

def searchFrom (r : Expr α) : Option α → List α → Bool
  | _, [] => false
  | before, c :: s => (r.matchAt before (c :: s)).isSome || r.searchFrom (some c) s

/-- `re.search` for an expression that consumes. -/
def search (r : Expr α) (s : List α) : Bool := r.searchFrom none s

/-- The matches from left to right, each in place of what it covers. -/
def subFrom (r : Expr α) (text : List α) : ℕ → Option α → List α → List α
  | 0, _, s => s
  | _ + 1, _, [] => []
  | fuel + 1, before, c :: s =>
    match r.matchAt before (c :: s) with
    | some p => text ++ r.subFrom text fuel p.1 p.2
    | none => c :: r.subFrom text fuel (some c) s

/-- `re.sub` for an expression that consumes. -/
def sub (r : Expr α) (text s : List α) : List α := r.subFrom text s.length none s

/-- The matches from left to right. -/
def findAllFrom (r : Expr α) : ℕ → Option α → List α → List (List α)
  | 0, _, _ => []
  | _ + 1, _, [] => []
  | fuel + 1, before, c :: s =>
    match r.matchAt before (c :: s) with
    | some p => (c :: s).take ((c :: s).length - p.2.length) :: r.findAllFrom fuel p.1 p.2
    | none => r.findAllFrom fuel (some c) s

/-- `re.findall` for an expression that consumes and has no groups. -/
def findAll (r : Expr α) (s : List α) : List (List α) := r.findAllFrom s.length none s

/-- A substitution by a text leaves nothing of nothing alone. -/
theorem sub_eq_nil_iff {r : Expr α} {text s : List α} (htext : text ≠ []) : r.sub text s = [] ↔ s = [] := by
  cases s with
  | nil => exact iff_of_true rfl rfl
  | cons c s =>
    refine iff_of_false ?_ (List.cons_ne_nil c s)
    simp only [sub, List.length_cons, subFrom]
    split
    · exact fun h => htext (List.append_eq_nil_iff.mp h).1
    · exact List.cons_ne_nil _ _

/-! ### What an expression matches -/

/-- The character before the place behind a text. -/
def lastOr (before : Option α) (x : List α) : Option α := x.getLast?.or before

theorem lastOr_append (before : Option α) (x y : List α) : lastOr before (x ++ y) = lastOr (lastOr before x) y := by
  rw [lastOr, lastOr, lastOr, List.getLast?_append, Option.or_assoc]

theorem lastOr_cons (before : Option α) (c : α) (x : List α) : lastOr before (c :: x) = lastOr (some c) x := by
  rw [← List.singleton_append, lastOr_append]
  rfl

theorem lastOr_of_ne {x : List α} (hx : x ≠ []) (before : Option α) : lastOr before x = x.getLast? := by
  rw [lastOr, List.getLast?_eq_some_getLast hx, Option.some_or]

/-- A number of matches one after the other. -/
def Reps (f : Option α → List α → Option α → Prop) : ℕ → Option α → List α → Option α → Prop
  | 0, _, x, _ => x = []
  | k + 1, before, x, after => ∃ y z, x = y ++ z ∧ f before y (z.head?.or after) ∧ Reps f k (lastOr before y) z after

/-- The texts that an expression matches between two characters. -/
def Lang : Expr α → Option α → List α → Option α → Prop
  | empty, _, x, _ => x = []
  | one p, _, x, _ => ∃ c, x = [c] ∧ p c = true
  | seq r t, before, x, after =>
    ∃ y z, x = y ++ z ∧ Lang r before y (z.head?.or after) ∧ Lang t (lastOr before y) z after
  | rep r least most, before, x, after =>
    ∃ k, least ≤ k ∧ (∀ m, most = some m → k ≤ m) ∧ Reps (Lang r) k before x after
  | edge word, before, x, after => x = [] ∧ before.any word ≠ after.any word

/-- What is repeated without a bound consumes. -/
def Solid : Expr α → Prop
  | seq r t => r.Solid ∧ t.Solid
  | rep r _ most => r.Solid ∧ (most = none → ∀ before x after, r.Lang before x after → x ≠ [])
  | _ => True

section
variable {r t : Expr α} {before before' after : Option α} {s x rest : List α}
  {f : Option α → List α → List (Option α × List α)} {F : Option α → List α → Option α → Prop}

theorem Reps.length (hF : ∀ before x after, F before x after → x ≠ []) : ∀ {k before x}, Reps F k before x after →
    k ≤ x.length
  | 0, _, _, _ => Nat.zero_le _
  | k + 1, before, x, h => by
    obtain ⟨y, z, rfl, hy, hz⟩ := h
    have hpos := List.length_pos_iff.mpr (hF _ _ _ hy)
    have hrest := Reps.length hF hz
    rw [List.length_append]
    omega

theorem mem_repEnds (hf : ∀ before s before' rest, (before', rest) ∈ f before s ↔
    ∃ x, s = x ++ rest ∧ F before x rest.head? ∧ before' = lastOr before x) : ∀ (most least : ℕ) before s before' rest,
    (before', rest) ∈ repEnds f least most before s ↔
      ∃ k x, least ≤ k ∧ k ≤ most ∧ s = x ++ rest ∧ Reps F k before x rest.head? ∧ before' = lastOr before x
  | 0, 0, before, s, before', rest => by
    rw [repEnds, List.mem_singleton, Prod.mk.injEq]
    constructor
    · rintro ⟨rfl, rfl⟩
      exact ⟨0, [], Nat.le_refl 0, Nat.le_refl 0, rfl, rfl, rfl⟩
    · rintro ⟨k, x, -, hk, rfl, hreps, rfl⟩
      obtain rfl : k = 0 := by omega
      obtain rfl : x = [] := hreps
      exact ⟨rfl, rfl⟩
  | 0, least + 1, before, s, before', rest => by
    rw [repEnds]
    constructor
    · intro h
      cases h
    · rintro ⟨k, x, hleast, hk, -⟩
      omega
  | most + 1, least, before, s, before', rest => by
    rw [repEnds, List.mem_append, List.mem_flatMap]
    constructor
    · rintro (⟨⟨middle, u⟩, hy, hz⟩ | hstop)
      · obtain ⟨y, rfl, hF, rfl⟩ := (hf before s middle u).mp hy
        obtain ⟨k, z, hleast, hk, rfl, hreps, rfl⟩ := (mem_repEnds hf most (least - 1) _ _ _ _).mp hz
        refine ⟨k + 1, y ++ z, by omega, by omega, (List.append_assoc ..).symm, ⟨y, z, rfl, ?_, hreps⟩, ?_⟩
        · rwa [List.head?_append] at hF
        · exact (lastOr_append before y z).symm
      · split at hstop
        · obtain ⟨rfl, rfl⟩ := Prod.mk.inj (List.mem_singleton.mp hstop)
          exact ⟨0, [], by omega, by omega, rfl, rfl, rfl⟩
        · cases hstop
    · rintro ⟨k, x, hleast, hk, rfl, hreps, rfl⟩
      cases k with
      | zero =>
        obtain rfl : x = [] := hreps
        refine .inr ?_
        rw [if_pos (by omega)]
        exact List.mem_singleton.mpr rfl
      | succ k =>
        obtain ⟨y, z, rfl, hF, hreps⟩ := hreps
        refine .inl ⟨(lastOr before y, z ++ rest), (hf _ _ _ _).mpr ⟨y, List.append_assoc .., ?_, rfl⟩,
          (mem_repEnds hf most (least - 1) _ _ _ _).mpr ⟨k, z, by omega, by omega, rfl, hreps, lastOr_append before y z⟩⟩
        rwa [List.head?_append]

/-- The matcher finds the matches. -/
theorem mem_ends : ∀ {r : Expr α}, r.Solid → ∀ (before : Option α) s before' rest, (before', rest) ∈ r.ends before s ↔
    ∃ x, s = x ++ rest ∧ r.Lang before x rest.head? ∧ before' = lastOr before x
  | empty, _, before, s, before', rest => by
    rw [ends, List.mem_singleton, Prod.mk.injEq]
    constructor
    · rintro ⟨rfl, rfl⟩
      exact ⟨[], rfl, rfl, rfl⟩
    · rintro ⟨x, rfl, hx, rfl⟩
      obtain rfl : x = [] := hx
      exact ⟨rfl, rfl⟩
  | one p, _, before, [], before', rest => by
    rw [ends]
    constructor
    · intro h
      cases h
    · rintro ⟨x, hx, ⟨c, rfl, -⟩, -⟩
      cases hx
  | one p, _, before, c :: s, before', rest => by
    rw [ends]
    constructor
    · intro h
      split at h
      · rename_i hc
        obtain ⟨rfl, rfl⟩ := Prod.mk.inj (List.mem_singleton.mp h)
        exact ⟨[c], rfl, ⟨c, rfl, hc⟩, rfl⟩
      · cases h
    · rintro ⟨x, hx, ⟨d, rfl, hd⟩, rfl⟩
      obtain ⟨rfl, rfl⟩ := List.cons.inj hx
      rw [if_pos hd]
      exact List.mem_singleton.mpr rfl
  | seq r t, hsolid, before, s, before', rest => by
    rw [ends, List.mem_flatMap]
    constructor
    · rintro ⟨⟨middle, u⟩, hy, hz⟩
      obtain ⟨y, rfl, hr, rfl⟩ := (mem_ends hsolid.1 _ _ _ _).mp hy
      obtain ⟨z, rfl, ht, rfl⟩ := (mem_ends hsolid.2 _ _ _ _).mp hz
      rw [List.head?_append] at hr
      exact ⟨y ++ z, (List.append_assoc ..).symm, ⟨y, z, rfl, hr, ht⟩, (lastOr_append ..).symm⟩
    · rintro ⟨x, rfl, ⟨y, z, rfl, hr, ht⟩, rfl⟩
      refine ⟨(lastOr before y, z ++ rest), (mem_ends hsolid.1 _ _ _ _).mpr ⟨y, List.append_assoc .., ?_, rfl⟩,
        (mem_ends hsolid.2 _ _ _ _).mpr ⟨z, rfl, ht, lastOr_append ..⟩⟩
      rwa [List.head?_append]
  | rep r least most, hsolid, before, s, before', rest => by
    rw [ends, mem_repEnds (mem_ends hsolid.1)]
    constructor
    · rintro ⟨k, x, hleast, hk, rfl, hreps, rfl⟩
      refine ⟨x, rfl, ⟨k, hleast, ?_, hreps⟩, rfl⟩
      rintro m rfl
      exact hk
    · rintro ⟨x, rfl, ⟨k, hleast, hk, hreps⟩, rfl⟩
      refine ⟨k, x, hleast, ?_, rfl, hreps, rfl⟩
      cases most with
      | some m => exact hk m rfl
      | none =>
        have hlength := hreps.length (hsolid.2 rfl)
        rw [Option.getD_none, List.length_append]
        omega
  | edge word, _, before, s, before', rest => by
    rw [ends]
    constructor
    · intro h
      split at h
      · cases h
      · rename_i hne
        obtain ⟨rfl, rfl⟩ := Prod.mk.inj (List.mem_singleton.mp h)
        exact ⟨[], rfl, ⟨rfl, hne⟩, rfl⟩
    · rintro ⟨x, rfl, ⟨rfl, hne⟩, rfl⟩
      rw [List.nil_append, if_neg hne]
      exact List.mem_singleton.mpr rfl

end

/-! ### Where it matches in a text -/

/-- No match is empty. -/
def Consumes (r : Expr α) : Prop := ∀ before x after, r.Lang before x after → x ≠ []

/-- There is a match from this place. -/
def Begins (r : Expr α) (before : Option α) (s : List α) : Prop := ∃ x rest, s = x ++ rest ∧ r.Lang before x rest.head?

/-- There is a match in the text behind this place. -/
def Occurs (r : Expr α) (before : Option α) (s : List α) : Prop :=
  ∃ start x rest, s = start ++ (x ++ rest) ∧ r.Lang (lastOr before start) x rest.head?

section
variable {r : Expr α} {before before' : Option α} {c : α} {s rest : List α}

theorem matchAt_some (hsolid : r.Solid) (h : r.matchAt before s = some (before', rest)) :
    ∃ y, y ≠ [] ∧ s = y ++ rest ∧ r.Lang before y rest.head? ∧ before' = lastOr before y := by
  obtain ⟨hhead, hlt⟩ := Option.filter_eq_some_iff.mp h
  obtain ⟨y, rfl, hy, rfl⟩ := (mem_ends hsolid _ _ _ _).mp (List.mem_of_head? hhead)
  refine ⟨y, ?_, rfl, hy, rfl⟩
  rintro rfl
  simp at hlt

theorem matchAt_none (hsolid : r.Solid) (hr : r.Consumes) (h : r.matchAt before s = none) : ¬r.Begins before s := by
  rintro ⟨x, rest, rfl, hx⟩
  have hmem : (lastOr before x, rest) ∈ r.ends before (x ++ rest) := (mem_ends hsolid _ _ _ _).mpr ⟨x, rfl, hx, rfl⟩
  cases hends : r.ends before (x ++ rest) with
  | nil =>
    rw [hends] at hmem
    cases hmem
  | cons p ps =>
    obtain ⟨y, hsplit, hy, -⟩ := (mem_ends hsolid before (x ++ rest) p.1 p.2).mp (hends ▸ List.mem_cons_self)
    have hpos := List.length_pos_iff.mpr (hr _ _ _ hy)
    have hlt : p.2.length < (x ++ rest).length := by
      rw [hsplit, List.length_append]
      omega
    have hkeeps : (some p).filter (fun p => decide (p.2.length < (x ++ rest).length)) = some p :=
      Option.filter_eq_some_iff.mpr ⟨rfl, decide_eq_true hlt⟩
    rw [matchAt, hends, List.head?_cons, hkeeps] at h
    cases h

theorem occurs_cons : r.Occurs before (c :: s) ↔ r.Begins before (c :: s) ∨ r.Occurs (some c) s := by
  constructor
  · rintro ⟨start, x, rest, hsplit, hx⟩
    cases start with
    | nil => exact .inl ⟨x, rest, hsplit, hx⟩
    | cons d start =>
      obtain ⟨rfl, rfl⟩ := List.cons.inj hsplit
      rw [lastOr_cons] at hx
      exact .inr ⟨start, x, rest, rfl, hx⟩
  · rintro (⟨x, rest, hsplit, hx⟩ | ⟨start, x, rest, rfl, hx⟩)
    · exact ⟨[], x, rest, hsplit, hx⟩
    · refine ⟨c :: start, x, rest, rfl, ?_⟩
      rwa [lastOr_cons]

theorem not_occurs_nil (hr : r.Consumes) : ¬r.Occurs before [] := by
  rintro ⟨start, x, rest, hsplit, hx⟩
  exact hr _ _ _ hx (List.append_eq_nil_iff.mp (List.append_eq_nil_iff.mp hsplit.symm).2).1

theorem Occurs.append (h : r.Occurs (lastOr before s) rest) : r.Occurs before (s ++ rest) := by
  obtain ⟨start, x, u, rfl, hx⟩ := h
  refine ⟨s ++ start, x, u, (List.append_assoc ..).symm, ?_⟩
  rwa [lastOr_append]

theorem searchFrom_iff (hsolid : r.Solid) (hr : r.Consumes) : ∀ {s : List α} {before : Option α},
    r.searchFrom before s = true ↔ r.Occurs before s
  | [], before => by
    rw [searchFrom]
    exact iff_of_false Bool.false_ne_true (not_occurs_nil hr)
  | c :: s, before => by
    rw [searchFrom, Bool.or_eq_true, searchFrom_iff hsolid hr, occurs_cons]
    refine or_congr_left ⟨?_, ?_⟩
    · intro h
      obtain ⟨p, hp⟩ := Option.isSome_iff_exists.mp h
      obtain ⟨y, -, hsplit, hy, -⟩ := matchAt_some hsolid hp
      exact ⟨y, p.2, hsplit, hy⟩
    · intro hbegins
      cases hmatch : r.matchAt before (c :: s) with
      | none => exact absurd hbegins (matchAt_none hsolid hr hmatch)
      | some p => rfl

theorem search_iff (hsolid : r.Solid) (hr : r.Consumes) : r.search s = true ↔ r.Occurs none s :=
  searchFrom_iff hsolid hr

theorem mem_findAllFrom {x : List α} (hsolid : r.Solid) : ∀ {fuel : ℕ} {before : Option α} {s : List α}, x ∈ r.findAllFrom fuel before s →
    ∃ before after, r.Lang before x after
  | 0, _, _, h => by cases h
  | _ + 1, _, [], h => by cases h
  | fuel + 1, before, c :: s, h => by
    rw [findAllFrom] at h
    cases hmatch : r.matchAt before (c :: s) with
    | none =>
      rw [hmatch] at h
      exact mem_findAllFrom hsolid h
    | some place =>
      rw [hmatch] at h
      rcases List.mem_cons.mp h with rfl | h
      · obtain ⟨y, -, hsplit, hy, -⟩ := matchAt_some hsolid hmatch
        refine ⟨before, place.2.head?, ?_⟩
        rw [hsplit, List.length_append, Nat.add_sub_cancel, List.take_left]
        exact hy
      · exact mem_findAllFrom hsolid h

/-- What is found is matched where it stands. -/
theorem mem_findAll {x : List α} (hsolid : r.Solid) (h : x ∈ r.findAll s) : ∃ before after, r.Lang before x after :=
  mem_findAllFrom hsolid h

end

/-! ### What a substitution leaves -/

/-- A match of `p` does not take part of the text that is put in for a match of `q`, and it stays one when a character
    beside it, which that text has put there, is put back. `near inner outer c` says that `inner` stands beside `c` in
    the old text where `outer` does in the new one. -/
structure Clear (p q : Expr α) (text : List α) (near : Option α → Option α → Option α → Prop) : Prop where
  consumes : p.Consumes
  solid : q.Solid
  nonempty : text ≠ []
  apart : ∀ before x after, p.Lang before x after → ∀ c ∈ x, some c ≠ text.head? ∧ some c ≠ text.getLast?
  outside : ∀ before x after, p.Lang before x after → ¬x <:+: text
  same : ∀ b c, near b b c
  behind : ∀ before y after, q.Lang before y after → near y.getLast? text.getLast? after
  front : ∀ before y after, q.Lang before y after → near y.head? text.head? before
  back : ∀ b x a b' a', p.Lang b' x a' → near b b' x.head? → near a a' x.getLast? → p.Lang b x a

section
variable {p q : Expr α} {text s x rest out : List α} {near : Option α → Option α → Option α → Prop}
  {before before' : Option α}

/-- A match behind the text that is put in is one of what follows. -/
theorem Clear.occurs_rest (h : Clear p q text near) (hocc : p.Occurs before (text ++ out)) :
    p.Occurs (lastOr before text) out := by
  obtain ⟨start, x, rest, hsplit, hx⟩ := hocc
  rcases List.append_eq_append_iff.mp hsplit with ⟨more, rfl, rfl⟩ | ⟨more, htext, hmore⟩
  · rw [lastOr_append] at hx
    exact ⟨more, x, rest, rfl, hx⟩
  · rcases List.eq_nil_or_concat more with rfl | ⟨front, d, rfl⟩
    · rw [List.append_nil] at htext
      rw [htext]
      exact ⟨[], x, rest, hmore.symm, hx⟩
    · have hlast : text.getLast? = some d := by rw [htext, List.concat_eq_append, ← List.append_assoc, List.getLast?_concat]
      rcases List.append_eq_append_iff.mp hmore with ⟨u, hu, -⟩ | ⟨u, rfl, -⟩
      · exact absurd ⟨start, u, by rw [htext, hu, List.append_assoc]⟩ (h.outside _ _ _ hx)
      · have hmem : d ∈ front.concat d ++ u := by simp
        exact absurd hlast.symm (h.apart _ _ _ hx d hmem).2

/-- A part of the new text that holds no text put in is a part of the old one. -/
theorem Clear.through (h : Clear p q text near) : ∀ {x : List α} {fuel : ℕ} {before : Option α} {s : List α},
    s.length ≤ fuel → (∀ c ∈ x, some c ≠ text.head?) → q.subFrom text fuel before s = x ++ out →
      ∃ rest, s = x ++ rest ∧ near rest.head? out.head? (lastOr before x)
  | [], fuel, before, s, hfuel, _, hout => by
    refine ⟨s, rfl, ?_⟩
    rw [← (show _ = out from hout)]
    cases fuel with
    | zero => exact h.same _ _
    | succ fuel =>
      cases s with
      | nil => exact h.same _ _
      | cons c s =>
        rw [subFrom]
        cases hmatch : q.matchAt before (c :: s) with
        | none => exact h.same _ _
        | some p =>
          obtain ⟨y, hne, hsplit, hy, -⟩ := matchAt_some h.solid hmatch
          have hhead : (c :: s).head? = y.head? := by
            rw [hsplit, List.head?_append, List.head?_eq_some_head hne, Option.some_or]
          have htext : (text ++ q.subFrom text fuel p.1 p.2).head? = text.head? := by
            rw [List.head?_append, List.head?_eq_some_head h.nonempty, Option.some_or]
          rw [hhead]
          exact htext.symm ▸ h.front _ _ _ hy
  | c :: x, fuel, before, s, hfuel, hx, hout => by
    obtain ⟨hc, hxs⟩ := List.forall_mem_cons.mp hx
    cases s with
    | nil =>
      cases fuel with
      | zero => cases hout
      | succ fuel => cases hout
    | cons d s =>
      cases fuel with
      | zero => cases hfuel
      | succ fuel =>
        rw [subFrom] at hout
        cases hmatch : q.matchAt before (d :: s) with
        | some p =>
          rw [hmatch] at hout
          have hhead := congrArg List.head? hout
          rw [List.head?_append, List.head?_eq_some_head h.nonempty, Option.some_or, List.cons_append, List.head?_cons] at hhead
          exact absurd (hhead.symm.trans (List.head?_eq_some_head h.nonempty).symm) hc
        | none =>
          rw [hmatch] at hout
          obtain ⟨rfl, htail⟩ := List.cons.inj hout
          obtain ⟨rest, rfl, hnear⟩ := Clear.through h (Nat.le_of_succ_le_succ hfuel) hxs htail
          refine ⟨rest, rfl, ?_⟩
          rwa [lastOr_cons]

/-- Where `p` had no match, or none but where `q` had one that goes, none is left. -/
theorem Clear.subFrom (h : Clear p q text near) : ∀ {fuel : ℕ} {before before' : Option α} {s : List α},
    s.length ≤ fuel → near before before' s.head? →
      ((∀ before s, q.matchAt before s = none → ¬p.Begins before s) ∨ ¬p.Occurs before s) →
        ¬p.Occurs before' (q.subFrom text fuel before s)
  | fuel, before, before', [], _, _, _ => by
    have hnil : q.subFrom text fuel before [] = [] := by cases fuel <;> rfl
    rw [hnil]
    exact not_occurs_nil h.consumes
  | 0, _, _, _ :: _, hfuel, _, _ => nomatch hfuel
  | fuel + 1, before, before', c :: s, hfuel, hnear, hno => by
    intro hocc
    rw [Expr.subFrom] at hocc
    cases hmatch : q.matchAt before (c :: s) with
    | none =>
      rw [hmatch] at hocc
      have hrest : (∀ before s, q.matchAt before s = none → ¬p.Begins before s) ∨ ¬p.Occurs (some c) s :=
        hno.imp_right fun hnot hin => hnot (occurs_cons.mpr (.inr hin))
      rcases occurs_cons.mp hocc with ⟨x, out, hsplit, hx⟩ | hlater
      · -- a match from here on is one of the old text
        cases x with
        | nil => exact h.consumes _ _ _ hx rfl
        | cons d x =>
          obtain ⟨rfl, htail⟩ := List.cons.inj hsplit
          have hapart : ∀ e ∈ x, some e ≠ text.head? := fun e he =>
            (h.apart _ _ _ hx e (List.mem_cons_of_mem c he)).1
          obtain ⟨rest, rfl, hend⟩ := h.through (Nat.le_of_succ_le_succ hfuel) hapart htail
          have hlast : lastOr (some c) x = (c :: x).getLast? := by
            rw [← lastOr_cons none, lastOr_of_ne (List.cons_ne_nil c x)]
          rw [hlast] at hend
          have hbegins : p.Begins before (c :: (x ++ rest)) := ⟨c :: x, rest, rfl, h.back _ _ _ _ _ hx hnear hend⟩
          rcases hno with hnone | hnot
          · exact hnone _ _ hmatch hbegins
          · exact hnot (occurs_cons.mpr (.inl hbegins))
      · exact h.subFrom (Nat.le_of_succ_le_succ hfuel) (h.same _ _) hrest hlater
    | some e =>
      rw [hmatch] at hocc
      obtain ⟨y, hne, hsplit, hy, hbefore⟩ := matchAt_some h.solid hmatch
      have hlater := h.occurs_rest hocc
      rw [lastOr_of_ne h.nonempty] at hlater
      have hlength : e.2.length ≤ fuel := by
        have hpos := List.length_pos_iff.mpr hne
        have hall := congrArg List.length hsplit
        rw [List.length_cons, List.length_append] at hall
        rw [List.length_cons] at hfuel
        omega
      have hnext : near e.1 text.getLast? e.2.head? := by
        rw [hbefore, lastOr_of_ne hne]
        exact h.behind _ _ _ hy
      refine h.subFrom hlength hnext (hno.imp_right fun hnot hin => hnot ?_) hlater
      rw [hsplit]
      rw [hbefore] at hin
      exact hin.append

/-- A substitution for `q` makes no match of `p`. -/
theorem Clear.sub (h : Clear p q text near) (hno : ¬p.Occurs none s) : ¬p.Occurs none (q.sub text s) :=
  h.subFrom (Nat.le_refl _) (h.same _ _) (.inr hno)

/-- A substitution leaves no match of its own expression. -/
theorem Clear.sub_self (h : Clear q q text near) : ¬q.Occurs none (q.sub text s) :=
  h.subFrom (Nat.le_refl _) (h.same _ _) (.inl fun _ _ => matchAt_none h.solid h.consumes)

end

/-! ### What the parts of an expression say of its matches -/

/-- No edge is in it. -/
def Plain : Expr α → Prop
  | edge _ => False
  | seq r t => r.Plain ∧ t.Plain
  | rep r _ _ => r.Plain
  | _ => True

/-- Its characters all have the property. -/
def Over (P : α → Prop) : Expr α → Prop
  | one p => ∀ c, p c = true → P c
  | seq r t => r.Over P ∧ t.Over P
  | rep r _ _ => r.Over P
  | _ => True

/-- It does not match without a character that has the property. -/
def Needs (P : α → Prop) : Expr α → Prop
  | one p => ∀ c, p c = true → P c
  | seq r t => r.Needs P ∨ t.Needs P
  | rep r least _ => 0 < least ∧ r.Needs P
  | _ => False

/-- One edge before a list of expressions and one behind it. -/
def between (word : α → Bool) (rs : List (Expr α)) : Expr α := all (edge word :: (rs ++ [edge word]))

section
variable {P : α → Prop} {word : α → Bool} {rs ts : List (Expr α)} {r t : Expr α} {x text : List α}
  {before after : Option α}

/-- What stands beside a match matters to edges only. -/
theorem Plain.lang : ∀ {r : Expr α} {before before' after after' : Option α} {x : List α}, r.Plain →
    r.Lang before x after → r.Lang before' x after'
  | empty, _, _, _, _, _, _, h => h
  | one _, _, _, _, _, _, _, h => h
  | seq r t, _, _, _, _, _, hplain, h => by
    obtain ⟨y, z, hsplit, hy, hz⟩ := h
    exact ⟨y, z, hsplit, Plain.lang hplain.1 hy, Plain.lang hplain.2 hz⟩
  | rep r least most, before, before', after, after', x, hplain, h => by
    obtain ⟨k, hleast, hmost, hreps⟩ := h
    refine ⟨k, hleast, hmost, ?_⟩
    clear hleast hmost
    induction k generalizing before before' x with
    | zero => exact hreps
    | succ k ih =>
      obtain ⟨y, z, hsplit, hy, hz⟩ := hreps
      exact ⟨y, z, hsplit, Plain.lang hplain hy, ih _ _ _ hz⟩

theorem Over.lang : ∀ {r : Expr α} {before after : Option α} {x : List α}, r.Over P → r.Lang before x after →
    ∀ c ∈ x, P c
  | empty, _, _, _, _, h => by
    obtain rfl := h
    intro c hc
    cases hc
  | one p, _, _, _, hover, h => by
    obtain ⟨d, rfl, hd⟩ := h
    intro c hc
    exact List.mem_singleton.mp hc ▸ hover d hd
  | seq r t, _, _, _, hover, h => by
    obtain ⟨y, z, rfl, hy, hz⟩ := h
    intro c hc
    rcases List.mem_append.mp hc with hc | hc
    · exact Over.lang hover.1 hy c hc
    · exact Over.lang hover.2 hz c hc
  | rep r _ _, before, _, x, hover, h => by
    obtain ⟨k, -, -, hreps⟩ := h
    have hbody : r.Over P := hover
    induction k generalizing before x with
    | zero =>
      obtain rfl : x = [] := hreps
      intro c hc
      cases hc
    | succ k ih =>
      obtain ⟨y, z, rfl, hy, hz⟩ := hreps
      intro c hc
      rcases List.mem_append.mp hc with hc | hc
      · exact Over.lang hbody hy c hc
      · exact ih _ _ hz c hc
  | edge _, _, _, _, _, h => by
    obtain ⟨rfl, -⟩ := h
    intro c hc
    cases hc

theorem Needs.lang : ∀ {r : Expr α} {before after : Option α} {x : List α}, r.Needs P → r.Lang before x after →
    ∃ c ∈ x, P c
  | one p, _, _, _, hneeds, h => by
    obtain ⟨d, rfl, hd⟩ := h
    exact ⟨d, List.mem_singleton_self d, hneeds d hd⟩
  | seq r t, _, _, _, hneeds, h => by
    obtain ⟨y, z, rfl, hy, hz⟩ := h
    rcases hneeds with hneeds | hneeds
    · obtain ⟨c, hc, hP⟩ := Needs.lang hneeds hy
      exact ⟨c, List.mem_append_left z hc, hP⟩
    · obtain ⟨c, hc, hP⟩ := Needs.lang hneeds hz
      exact ⟨c, List.mem_append_right y hc, hP⟩
  | rep r least _, _, _, _, hneeds, h => by
    obtain ⟨k, hleast, -, hreps⟩ := h
    obtain ⟨hpos, hneeds⟩ := hneeds
    cases k with
    | zero => omega
    | succ k =>
      obtain ⟨y, z, rfl, hy, -⟩ := hreps
      obtain ⟨c, hc, hP⟩ := Needs.lang hneeds hy
      exact ⟨c, List.mem_append_left z hc, hP⟩

theorem Needs.consumes (h : r.Needs P) : r.Consumes := by
  intro before x after hx
  obtain ⟨c, hc, -⟩ := h.lang hx
  exact List.ne_nil_of_mem hc

theorem Reps.length_one {p : α → Bool} : ∀ {k : ℕ} {before : Option α} {x : List α}, Reps (one p).Lang k before x after → x.length = k
  | 0, _, _, h => List.length_eq_zero_iff.mpr h
  | k + 1, _, _, h => by
    obtain ⟨y, z, rfl, ⟨c, rfl, -⟩, hz⟩ := h
    rw [List.length_append, Reps.length_one hz, List.length_singleton, Nat.add_comm]

/-- A number of characters of a class. -/
theorem lang_times_one {p : α → Bool} {n : ℕ} (h : ((one p).times n).Lang before x after) : x.length = n ∧ ∀ c ∈ x, p c = true := by
  have hover : ((one p).times n).Over fun c => p c = true := fun _ hc => hc
  refine ⟨?_, hover.lang h⟩
  obtain ⟨k, hleast, hmost, hreps⟩ := h
  rw [hreps.length_one]
  exact Nat.le_antisymm (hmost n rfl) hleast

theorem lang_all_concat : ∀ {rs : List (Expr α)} {before : Option α} {x : List α},
    (all (rs ++ [t])).Lang before x after ↔
      ∃ y z, x = y ++ z ∧ (all rs).Lang before y (z.head?.or after) ∧ t.Lang (lastOr before y) z after
  | [], before, x => by
    constructor
    · rintro ⟨y, z, rfl, hy, hz⟩
      obtain rfl : z = [] := hz
      exact ⟨[], y, by simp, rfl, hy⟩
    · rintro ⟨y, z, rfl, hy, hz⟩
      obtain rfl : y = [] := hy
      exact ⟨z, [], by simp, hz, rfl⟩
  | r :: rs, before, x => by
    constructor
    · rintro ⟨y, u, rfl, hy, hu⟩
      obtain ⟨v, z, rfl, hv, hz⟩ := lang_all_concat.mp hu
      rw [List.head?_append, Option.or_assoc] at hy
      refine ⟨y ++ v, z, (List.append_assoc ..).symm, ⟨y, v, rfl, hy, hv⟩, ?_⟩
      rwa [lastOr_append]
    · rintro ⟨_, z, rfl, ⟨y, v, rfl, hy, hv⟩, hz⟩
      rw [lastOr_append] at hz
      refine ⟨y, v ++ z, List.append_assoc .., ?_, lang_all_concat.mpr ⟨v, z, rfl, hv, hz⟩⟩
      rwa [List.head?_append, Option.or_assoc]

/-- A match between edges is a match that has an edge at either end. -/
theorem lang_between : (between word rs).Lang before x after ↔
    before.any word ≠ (x.head?.or after).any word ∧ (all rs).Lang before x after ∧
      (lastOr before x).any word ≠ after.any word := by
  constructor
  · rintro ⟨y, z, rfl, ⟨rfl, hfront⟩, hrest⟩
    obtain ⟨z, u, rfl, hz, rfl, hlast⟩ := lang_all_concat.mp hrest
    rw [List.append_nil, List.nil_append]
    rw [List.append_nil] at hfront
    exact ⟨hfront, hz, hlast⟩
  · rintro ⟨hfront, hx, hlast⟩
    exact ⟨[], x, rfl, ⟨rfl, hfront⟩, lang_all_concat.mpr ⟨x, [], (List.append_nil x).symm, hx, rfl, hlast⟩⟩

/-- The other text beside a character has an edge there as well. -/
def EdgeNear (word : α → Bool) (inner outer c : Option α) : Prop := inner = outer ∨ inner.any word ≠ c.any word

/-- The text that is put in holds nothing of a match: not the characters at its ends, and not all that it needs. -/
structure Foreign (p : Expr α) (P : α → Prop) (text : List α) : Prop where
  nonempty : text ≠ []
  needs : p.Needs P
  none : ∀ c ∈ text, ¬P c
  avoids : p.Over fun c => some c ≠ text.head? ∧ some c ≠ text.getLast?

theorem Foreign.outside {p : Expr α} (h : Foreign p P text) (hx : p.Lang before x after) : ¬x <:+: text := by
  intro hpart
  obtain ⟨c, hc, hP⟩ := h.needs.lang hx
  exact h.none c (hpart.subset hc) hP

theorem Foreign.clear_plain {p q : Expr α} (h : Foreign p P text) (hp : p.Plain) (hq : q.Solid) :
    Clear p q text fun _ _ _ => True where
  consumes := h.needs.consumes
  solid := hq
  nonempty := h.nonempty
  apart _ _ _ := h.avoids.lang
  outside _ _ _ := h.outside
  same _ _ := trivial
  behind _ _ _ _ := trivial
  front _ _ _ _ := trivial
  back _ _ _ _ _ hx _ _ := hp.lang hx

/-- Where edges surround what goes, and what is sought, nothing is sought that was not there before. -/
theorem Foreign.clear_between (h : Foreign (between word rs) P text) (hrs : (all rs).Plain)
    (hts : (between word ts).Solid) (hne : (between word ts).Consumes) :
    Clear (between word rs) (between word ts) text (EdgeNear word) where
  consumes := h.needs.consumes
  solid := hts
  nonempty := h.nonempty
  apart _ _ _ := h.avoids.lang
  outside _ _ _ := h.outside
  same _ _ := .inl rfl
  behind before y after hy := by
    have hlast := (lang_between.mp hy).2.2
    rw [lastOr_of_ne (hne _ _ _ hy)] at hlast
    exact .inr hlast
  front before y after hy := by
    have hfront := (lang_between.mp hy).1
    rw [List.head?_eq_some_head (hne _ _ _ hy), Option.some_or] at hfront
    rw [List.head?_eq_some_head (hne _ _ _ hy)]
    exact .inr hfront.symm
  back b x a b' a' hx hb ha := by
    obtain ⟨hfront, hall, hlast⟩ := lang_between.mp hx
    have hx := h.needs.consumes _ _ _ hx
    rw [lastOr_of_ne hx] at hlast
    rw [List.head?_eq_some_head hx, Option.some_or] at hfront
    rw [List.head?_eq_some_head hx] at hb
    refine lang_between.mpr ⟨?_, hrs.lang hall, ?_⟩
    · rw [List.head?_eq_some_head hx, Option.some_or]
      rcases hb with rfl | hb
      · exact hfront
      · exact hb
    · rw [lastOr_of_ne hx]
      rcases ha with rfl | ha
      · exact hlast
      · exact ha.symm

end

end Expr

end

end Regex
