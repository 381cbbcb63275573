import Mathlib.Data.List.Basic

/-! Complete lines of a text that only grows: a line is known by the place after its stop. -/

namespace Lines
variable {α : Type} (stop : α → Bool)

/-- The complete lines of a text that starts at a place, each with the place after it; `acc` is what the first
    line has already. -/
def linesFrom : ℕ → List α → List α → List (List α × ℕ)
  | _, _, [] => []
  | pos, acc, c :: s =>
    if stop c then (acc ++ [c], pos + 1) :: linesFrom (pos + 1) [] s else linesFrom (pos + 1) (acc ++ [c]) s

/-- What stands behind the last stop of a text, or from `acc` on where there is none. -/
def unended : List α → List α → List α
  | acc, [] => acc
  | acc, c :: s => if stop c then unended [] s else unended (acc ++ [c]) s

/-- The line after a place, if it is complete. -/
def nextLine (s : List α) (pos : ℕ) : Option (List α × ℕ) := (linesFrom stop pos [] (s.drop pos)).head?

/-- A place right after a stop. -/
def IsEnd (s : List α) (p : ℕ) : Prop := ∃ q c, p = q + 1 ∧ s[q]? = some c ∧ stop c = true

variable {stop}

theorem IsEnd.append {s : List α} {p : ℕ} (h : IsEnd stop s p) (t : List α) : IsEnd stop (s ++ t) p := by
  obtain ⟨q, c, rfl, hc, hstop⟩ := h
  have hq : q < s.length := (List.getElem?_eq_some_iff.mp hc).1
  exact ⟨q, c, rfl, by rw [List.getElem?_append_left hq, hc], hstop⟩

theorem IsEnd.le_length {s : List α} {p : ℕ} (h : IsEnd stop s p) : p ≤ s.length := by
  obtain ⟨q, c, rfl, hc, -⟩ := h
  exact (List.getElem?_eq_some_iff.mp hc).1

/-- What is appended has no ends in the text that was there. -/
theorem IsEnd.of_append {s t : List α} {p : ℕ} (h : IsEnd stop (s ++ t) p) (hp : p ≤ s.length) :
    IsEnd stop s p := by
  obtain ⟨q, c, rfl, hc, hstop⟩ := h
  rw [List.getElem?_append_left (by omega)] at hc
  exact ⟨q, c, rfl, hc, hstop⟩

/-- The first line ends at the first stop. -/
theorem head_linesFrom : ∀ {s acc : List α} {pos : ℕ} {line : List α} {p : ℕ},
    (linesFrom stop pos acc s).head? = some (line, p) → ∃ k c, p = pos + (k + 1) ∧ s[k]? = some c ∧
      stop c = true ∧ ∀ j < k, ∀ d, s[j]? = some d → stop d = false
  | [], _, _, _, _, h => nomatch h
  | c :: s, acc, pos, line, p, h => by
    rw [linesFrom] at h
    split at h
    · rename_i hc
      obtain ⟨-, rfl⟩ := Prod.mk.inj (Option.some.inj h)
      refine ⟨0, c, rfl, rfl, hc, ?_⟩
      intro j hj
      omega
    · rename_i hc
      obtain ⟨k, d, rfl, hd, hstop, hbefore⟩ := head_linesFrom h
      refine ⟨k + 1, d, by omega, hd, hstop, ?_⟩
      intro j hj e he
      cases j with
      | zero =>
        obtain rfl : c = e := by simpa using he
        simpa using hc
      | succ j => exact hbefore j (by omega) e (by simpa using he)

/-- After a place the next line ends at the next end, and no other end lies between. -/
theorem nextLine_end {s : List α} {pos : ℕ} {line : List α} {p : ℕ} (h : nextLine stop s pos = some (line, p)) :
    pos < p ∧ IsEnd stop s p ∧ ∀ q, IsEnd stop s q → pos < q → q ≤ p → q = p := by
  obtain ⟨k, c, rfl, hc, hstop, hbefore⟩ := head_linesFrom h
  rw [List.getElem?_drop] at hc
  refine ⟨by omega, ⟨pos + k, c, rfl, hc, hstop⟩, ?_⟩
  rintro _ ⟨q, d, rfl, hd, hstop'⟩ hlow hhigh
  by_contra hne
  have hq : q = pos + (q - pos) := by omega
  have hfalse := hbefore (q - pos) (by omega) d (by rw [List.getElem?_drop, ← hq, hd])
  rw [hstop'] at hfalse
  cases hfalse

theorem nextLine_none {s : List α} {pos : ℕ} (h : nextLine stop s pos = none) :
    linesFrom stop pos [] (s.drop pos) = [] := List.head?_eq_none_iff.mp h

/-- Behind the first line the lines are those from its end on. -/
theorem nextLine_some {s : List α} {pos : ℕ} {line : List α} {p : ℕ} (h : nextLine stop s pos = some (line, p)) :
    linesFrom stop pos [] (s.drop pos) = (line, p) :: linesFrom stop p [] (s.drop p) := by
  have hrest : ∀ (s acc : List α) pos, (linesFrom stop pos acc s).head? = some (line, p) →
      linesFrom stop pos acc s = (line, p) :: linesFrom stop p [] (s.drop (p - pos)) := by
    intro s
    induction s with
    | nil => intro acc pos h; cases h
    | cons c s ih =>
      intro acc pos h
      rw [linesFrom] at h ⊢
      split at h
      · rename_i hc
        obtain ⟨rfl, rfl⟩ := Prod.mk.inj (Option.some.inj h)
        simp [hc]
      · rename_i hc
        obtain ⟨k, -, rfl, -⟩ := head_linesFrom h
        rw [if_neg hc, ih _ _ h]
        congr 2
        rw [show pos + 1 + (k + 1) - pos = (pos + 1 + (k + 1) - (pos + 1)) + 1 by omega, List.drop_succ_cons]
  have hlt := (nextLine_end h).1
  have hcons := hrest _ _ _ h
  rwa [List.drop_drop, show pos + (p - pos) = p by omega] at hcons

/-- A line is what stands before the stop, with it. -/
theorem nextLine_line {pre body rest : List α} {c : α} (hbody : ∀ d ∈ body, stop d = false) (hc : stop c = true) :
    nextLine stop (pre ++ (body ++ c :: rest)) pre.length = some (body ++ [c], pre.length + (body.length + 1)) := by
  have hlines : ∀ (body acc : List α) pos, (∀ d ∈ body, stop d = false) →
      (linesFrom stop pos acc (body ++ c :: rest)).head? = some (acc ++ (body ++ [c]), pos + (body.length + 1)) := by
    intro body
    induction body with
    | nil =>
      intro acc pos _
      simp [linesFrom, hc]
    | cons d body ih =>
      intro acc pos hall
      have hd : stop d = false := hall d List.mem_cons_self
      have hrest := ih (acc ++ [d]) (pos + 1) fun e he => hall e (List.mem_cons_of_mem d he)
      simp only [List.cons_append, linesFrom, hd, hrest, Bool.false_eq_true, if_false, List.length_cons,
        List.append_assoc, List.nil_append]
      congr 2
      omega
  rw [nextLine, List.drop_left]
  exact hlines body [] pre.length hbody

/-- The lines of a text end where its ends are. -/
theorem mem_linesFrom_iff : ∀ {s acc : List α} {pos p : ℕ},
    (∃ line, (line, p) ∈ linesFrom stop pos acc s) ↔ ∃ k c, p = pos + (k + 1) ∧ s[k]? = some c ∧ stop c = true
  | [], acc, pos, p => by simp [linesFrom]
  | c :: s, acc, pos, p => by
    have hrest : ∀ acc, (∃ line, (line, p) ∈ linesFrom stop (pos + 1) acc s) ↔
        ∃ k d, p = pos + (k + 1 + 1) ∧ (c :: s)[k + 1]? = some d ∧ stop d = true := by
      intro acc
      rw [mem_linesFrom_iff]
      refine exists_congr fun k => exists_congr fun d => and_congr ?_ Iff.rfl
      omega
    have hsplit : (∃ k d, p = pos + (k + 1) ∧ (c :: s)[k]? = some d ∧ stop d = true) ↔
        (p = pos + 1 ∧ stop c = true) ∨ ∃ k d, p = pos + (k + 1 + 1) ∧ (c :: s)[k + 1]? = some d ∧ stop d = true := by
      constructor
      · rintro ⟨k, d, hp, hd, hstop⟩
        cases k with
        | zero =>
          obtain rfl : c = d := by simpa using hd
          exact .inl ⟨hp, hstop⟩
        | succ k => exact .inr ⟨k, d, hp, hd, hstop⟩
      · rintro (⟨hp, hstop⟩ | ⟨k, d, hp, hd, hstop⟩)
        · exact ⟨0, c, hp, rfl, hstop⟩
        · exact ⟨k + 1, d, hp, hd, hstop⟩
    rw [hsplit, linesFrom]
    split
    · rename_i hc
      rw [← hrest []]
      simp only [List.mem_cons, Prod.mk.injEq, hc, and_true]
      constructor
      · rintro ⟨line, ⟨-, hp⟩ | hmem⟩
        · exact .inl hp
        · exact .inr ⟨line, hmem⟩
      · rintro (hp | ⟨line, hmem⟩)
        · exact ⟨_, .inl ⟨rfl, hp⟩⟩
        · exact ⟨line, .inr hmem⟩
    · rename_i hc
      rw [hrest, or_iff_right (fun h => hc h.2)]

/-- The lines after a place end at the ends after it. -/
theorem mem_lines_iff {s : List α} {pos p : ℕ} :
    (∃ line, (line, p) ∈ linesFrom stop pos [] (s.drop pos)) ↔ pos < p ∧ IsEnd stop s p := by
  rw [mem_linesFrom_iff]
  constructor
  · rintro ⟨k, c, rfl, hc, hstop⟩
    rw [List.getElem?_drop] at hc
    exact ⟨by omega, pos + k, c, rfl, hc, hstop⟩
  · rintro ⟨hlow, q, c, rfl, hc, hstop⟩
    have hq : q = pos + (q - pos) := by omega
    exact ⟨q - pos, c, by omega, by rw [List.getElem?_drop, ← hq, hc], hstop⟩

/-! ### Text that is appended -/

theorem unended_append : ∀ (s acc t : List α), unended stop acc (s ++ t) = unended stop (unended stop acc s) t
  | [], _, _ => rfl
  | c :: s, acc, t => by
    rw [List.cons_append, unended, unended]
    split
    · exact unended_append s [] t
    · exact unended_append s (acc ++ [c]) t

/-- The lines of a longer text are those of the text that was there, and those that end in what is appended. -/
theorem linesFrom_append : ∀ (s acc t : List α) (pos : ℕ), linesFrom stop pos acc (s ++ t) =
    linesFrom stop pos acc s ++ linesFrom stop (pos + s.length) (unended stop acc s) t
  | [], _, _, _ => rfl
  | c :: s, acc, t, pos => by
    have hplace : pos + (c :: s).length = pos + 1 + s.length := by
      rw [List.length_cons]
      omega
    rw [List.cons_append, linesFrom, linesFrom, unended, hplace]
    split
    · rw [linesFrom_append s [] t, List.cons_append]
    · exact linesFrom_append s (acc ++ [c]) t (pos + 1)

/-- Nothing is open behind a stop. -/
theorem unended_stop (s acc : List α) {c : α} (hc : stop c = true) : unended stop acc (s ++ [c]) = [] := by
  rw [unended_append, unended, if_pos hc, unended]

/-- The open line does not depend on how many whole lines stand before it. -/
theorem unended_drop {s : List α} {base pos : ℕ} (hle : base ≤ pos) (h : IsEnd stop s pos) :
    unended stop [] (s.drop pos) = unended stop [] (s.drop base) := by
  obtain ⟨q, c, rfl, hc, hstop⟩ := h
  rcases Nat.lt_or_ge q base with hlt | hge
  · obtain rfl : base = q + 1 := by omega
    rfl
  · have hq : q < s.length := (List.getElem?_eq_some_iff.mp hc).1
    have hsplit : s.drop base = ((s.drop base).take (q - base) ++ [c]) ++ s.drop (q + 1) := by
      have hdrop : (s.drop base).drop (q - base) = c :: s.drop (q + 1) := by
        rw [List.drop_drop, show base + (q - base) = q by omega, List.drop_eq_getElem_cons hq]
        rw [List.getElem?_eq_getElem hq] at hc
        rw [Option.some.inj hc]
      rw [List.append_assoc, List.singleton_append, ← hdrop, List.take_append_drop]
    rw [hsplit, unended_append, unended_stop _ _ hstop]

/-- Where no line is open the text ends at a stop, or there is none. -/
theorem unended_eq_nil {s : List α} : ∀ {acc : List α}, unended stop acc s = [] →
    s = [] ∨ ∃ t c, s = t ++ [c] ∧ stop c = true := by
  induction s with
  | nil =>
    intro acc _
    exact .inl rfl
  | cons c s ih =>
    intro acc h
    rw [unended] at h
    split at h
    · rename_i hc
      rcases ih h with rfl | ⟨t, d, rfl, hd⟩
      · exact .inr ⟨[], c, rfl, hc⟩
      · exact .inr ⟨c :: t, d, rfl, hd⟩
    · rename_i hc
      rcases ih h with rfl | ⟨t, d, rfl, hd⟩
      · rw [unended] at h
        exact absurd h (by simp)
      · exact .inr ⟨c :: t, d, rfl, hd⟩

theorem lt_of_mem_linesFrom {s acc : List α} {pos : ℕ} {x : List α × ℕ} (hx : x ∈ linesFrom stop pos acc s) :
    pos < x.2 := by
  obtain ⟨k, -, hp, -⟩ := mem_linesFrom_iff.mp ⟨x.1, hx⟩
  omega

/-- Behind some of the lines come the others. -/
theorem lines_after {s : List α} {rest : List (List α × ℕ)} : ∀ {taken : List (List α × ℕ)} {pos : ℕ},
    linesFrom stop pos [] (s.drop pos) = taken ++ rest →
      linesFrom stop (taken.getLast?.elim pos Prod.snd) [] (s.drop (taken.getLast?.elim pos Prod.snd)) = rest
  | [], _, h => h
  | (line, p) :: taken, pos, h => by
    have hnext : nextLine stop s pos = some (line, p) := by
      rw [nextLine, h]
      rfl
    rw [nextLine_some hnext, List.cons_append] at h
    have hrest := lines_after (List.cons.inj h).2
    rw [List.getLast?_cons]
    cases hlast : taken.getLast? with
    | none => rwa [hlast] at hrest
    | some l => rwa [hlast] at hrest

end Lines
