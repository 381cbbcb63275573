import Wormbase.Py.IsoFormat

/-! `fromisoformat` reads back what `isoZ` prints of an instant in UTC, and what `isoformat` prints of an aware time. -/

namespace Py

/-! ### Digits -/

theorem isDigit_digit (n : ℕ) : (digit n).isDigit = true := by
  have all : ∀ k < 10, (Nat.digitChar k).isDigit = true := by decide
  exact all _ (Nat.mod_lt n (by decide))

theorem val_digit (n : ℕ) : (digit n).toNat - '0'.toNat = n % 10 := by
  have all : ∀ k < 10, (Nat.digitChar k).toNat - '0'.toNat = k := by decide
  exact all _ (Nat.mod_lt n (by decide))

/-- The number that digits stand for. -/
def digitsVal (s : List Char) : ℕ := s.foldl (fun n c => n * 10 + (c.toNat - '0'.toNat)) 0

theorem takeDigits_append {n : ℕ} {ds : List Char} (hlen : ds.length = n) (hne : ds ≠ []) (hd : ds.all Char.isDigit = true)
    (s : List Char) : takeDigits n (ds ++ s) = some (digitsVal ds, s) := by
  subst hlen
  rw [takeDigits, List.take_left, if_pos rfl, List.drop_left, digitsOf, if_pos ⟨hne, hd⟩]
  rfl

theorem all_pad2 (n : ℕ) : (pad2 n).all Char.isDigit = true := by simp [pad2, isDigit_digit]
theorem all_pad4 (n : ℕ) : (pad4 n).all Char.isDigit = true := by simp [pad4, all_pad2]
theorem all_pad6 (n : ℕ) : (pad6 n).all Char.isDigit = true := by simp [pad6, all_pad4, all_pad2]

theorem digitsVal_append (s t : List Char) : digitsVal (s ++ t) = digitsVal s * 10 ^ t.length + digitsVal t := by
  have hfold : ∀ (t : List Char) (a : ℕ), t.foldl (fun n c => n * 10 + (c.toNat - '0'.toNat)) a =
      a * 10 ^ t.length + digitsVal t := by
    intro t
    induction t with
    | nil => intro a; simp [digitsVal]
    | cons c t ih =>
      intro a
      rw [digitsVal, List.foldl_cons, List.foldl_cons, ih, ih (0 * 10 + _), List.length_cons, pow_succ]
      ring
  rw [digitsVal, List.foldl_append, hfold]
  rfl

theorem val_pad2 (n : ℕ) : digitsVal (pad2 n) = n % 100 := by
  simp only [digitsVal, pad2, List.foldl_cons, List.foldl_nil, val_digit]
  omega

theorem val_pad4 (n : ℕ) : digitsVal (pad4 n) = n % 10000 := by
  rw [pad4, digitsVal_append, val_pad2, val_pad2]
  simp only [pad2, List.length_cons, List.length_nil]
  omega

theorem val_pad6 (n : ℕ) : digitsVal (pad6 n) = n % 1000000 := by
  rw [pad6, digitsVal_append, val_pad2, val_pad4]
  simp only [pad4, pad2, List.length_append, List.length_cons, List.length_nil]
  omega

theorem takeDigits_pad2 (n : ℕ) (s : List Char) : takeDigits 2 (pad2 n ++ s) = some (n % 100, s) := by
  rw [@takeDigits_append 2 (pad2 n) rfl (List.cons_ne_nil _ _) (all_pad2 n), val_pad2]

theorem takeDigits_pad4 (n : ℕ) (s : List Char) : takeDigits 4 (pad4 n ++ s) = some (n % 10000, s) := by
  rw [@takeDigits_append 4 (pad4 n) rfl (List.cons_ne_nil _ _) (all_pad4 n), val_pad4]

/-! ### Fractions -/

/-- The fraction of a second that a text has: none for a whole second, or digits behind a point. -/
inductive FractionText (micros : ℕ) : List Char → Prop where
  | whole (h : micros = 0) : FractionText micros []
  | digits {ds : List Char} (hd : ds.all Char.isDigit = true) (h : parseFraction ds = some micros) :
    FractionText micros ('.' :: ds)

theorem parseFraction_digits {ds : List Char} (hne : ds ≠ []) (hlen : ds.length ≤ 6) (hd : ds.all Char.isDigit = true) :
    parseFraction ds = some (digitsVal ds * 10 ^ (6 - ds.length)) := by
  have hrest : ([] : List Char).all Char.isDigit = true := rfl
  rw [parseFraction, List.drop_eq_nil_of_le hlen, List.take_of_length_le hlen, if_pos hrest, digitsOf, if_pos ⟨hne, hd⟩]
  rfl

theorem fractionText_microsText {n : ℕ} : FractionText (n % 1000000) (DateTime.microsText n) := by
  rw [DateTime.microsText]
  split
  · rename_i h
    exact .whole h
  · refine .digits (all_pad6 _) ?_
    have hlen : (pad6 (n % 1000000)).length = 6 := rfl
    rw [@parseFraction_digits (pad6 (n % 1000000)) (List.cons_ne_nil _ _) hlen.le (all_pad6 _), val_pad6, Nat.mod_mod, hlen]
    exact congrArg some (Nat.mul_one _)

theorem fractionText_fracText {n : ℕ} (hn : n < 1000000) : FractionText n (fracText n) := by
  rw [fracText]
  split
  · rename_i h
    exact .whole h
  · rename_i hne
    -- the zeros that are dropped stand behind the digits that stay
    obtain ⟨k, hk⟩ : ∃ k, pad6 n = (pad6 n).rdropWhile (· = '0') ++ List.replicate k '0' := by
      refine ⟨((pad6 n).rtakeWhile (· = '0')).length, ?_⟩
      have hzeros : (pad6 n).rtakeWhile (· = '0') = List.replicate ((pad6 n).rtakeWhile (· = '0')).length '0' :=
        List.eq_replicate_of_mem fun c hc => by simpa using List.mem_rtakeWhile_imp hc
      rw [← hzeros, List.rdropWhile_append_rtakeWhile]
    generalize (pad6 n).rdropWhile (· = '0') = ds at hk ⊢
    have hlen : ds.length + k = 6 := by
      have := congrArg List.length hk
      rw [List.length_append, List.length_replicate] at this
      exact this.symm
    have hall : ds.all Char.isDigit = true := by
      have := all_pad6 n
      rw [hk, List.all_append, Bool.and_eq_true] at this
      exact this.1
    have hzeros : ∀ k, digitsVal (List.replicate k '0') = 0 := by
      intro k
      induction k with
      | zero => rfl
      | succ k ih => rw [List.replicate_succ, ← List.singleton_append, digitsVal_append, ih]; simp [digitsVal]
    have hval : digitsVal ds * 10 ^ k = n := by
      have hsix := val_pad6 n
      rw [hk, digitsVal_append, hzeros, List.length_replicate, Nat.mod_eq_of_lt hn, Nat.add_zero] at hsix
      exact hsix
    have hnil : ds ≠ [] := by
      rintro rfl
      rw [← hval] at hne
      exact hne (Nat.zero_mul _)
    refine .digits hall ?_
    rw [parseFraction_digits hnil (by omega) hall, show 6 - ds.length = k by omega, hval]

/-! ### Whole texts -/

theorem monthOf_range {leap : Bool} {d : ℕ} (hd : d < if leap = true then 366 else 365) :
    1 ≤ (monthOf leap d).1 ∧ (monthOf leap d).1 ≤ 12 ∧ 1 ≤ (monthOf leap d).2 ∧
      (monthOf leap d).2 ≤ daysInMonth leap (monthOf leap d).1 := by
  have all : ∀ leap : Bool, ∀ d < 366, d < (if leap = true then 366 else 365) →
      1 ≤ (monthOf leap d).1 ∧ (monthOf leap d).1 ≤ 12 ∧ 1 ≤ (monthOf leap d).2 ∧
        (monthOf leap d).2 ≤ daysInMonth leap (monthOf leap d).1 := by decide +kernel
  refine all leap d ?_ hd
  split at hd <;> omega

/-- Only leap years have a day 366. -/
theorem yearOf_day_le (n : ℕ) : (yearOf n).2 < if isLeap (yearOf n).1 = true then 366 else 365 := by
  by_cases hlast : n % 146097 % 36524 % 1461 / 365 = 4 ∨ n % 146097 / 36524 = 4
  · -- day 366 is the last of four years, and of a century only when it is the fourth
    have hyear : yearOf n = (n / 146097 * 400 + n % 146097 / 36524 * 100 + n % 146097 % 36524 / 1461 * 4 +
        n % 146097 % 36524 % 1461 / 365 - 1, 365) := if_pos hlast
    have hleap : isLeap (yearOf n).1 = true := by
      rw [hyear]
      simp only [isLeap, Bool.decide_and, Bool.decide_or, Bool.and_eq_true, Bool.or_eq_true, decide_eq_true_eq]
      omega
    rw [if_pos hleap, hyear]
    exact (by decide : 365 < 366)
  · have hyear : (yearOf n).2 = n % 146097 % 36524 % 1461 % 365 := congrArg Prod.snd (if_neg hlast)
    have : n % 146097 % 36524 % 1461 % 365 < 365 := Nat.mod_lt _ (by decide)
    rw [hyear]
    split <;> omega

theorem ordinal_dateOf {t : ℕ} (h : t < maxMicros) :
    ordinal ((dateOf t).1 + 1) (dateOf t).2.1 (dateOf t).2.2 = some (t / dayMicros) := by
  obtain ⟨hy, -, -⟩ := dateOf_bounds h
  obtain ⟨hm, hm', hd, hd'⟩ := monthOf_range (yearOf_day_le (t / dayMicros))
  have hyear := daysBeforeYear_yearOf (t / dayMicros)
  have hmonth := daysBeforeMonth_monthOf (isLeap (yearOf (t / dayMicros)).1) (yearOf_day_lt (t / dayMicros))
  simp only [dateOf] at hy ⊢
  rw [ordinal, Nat.add_sub_cancel, if_pos ⟨Nat.succ_pos _, by omega, hm, hm', hd, hd'⟩]
  exact congrArg some (by omega)

/-- The text of a date is read back. -/
theorem parseDate_text {t : ℕ} (h : t < maxMicros) :
    parseDate (pad4 ((dateOf t).1 + 1) ++ '-' :: (pad2 (dateOf t).2.1 ++ '-' :: pad2 (dateOf t).2.2)) =
      some (t / dayMicros) := by
  obtain ⟨hy, hm, hd⟩ := dateOf_bounds h
  have hday : takeDigits 2 (pad2 (dateOf t).2.2) = some ((dateOf t).2.2 % 100, []) := by
    have := takeDigits_pad2 (dateOf t).2.2 []
    rwa [List.append_nil] at this
  have hword : (pad2 (dateOf t).2.1 ++ '-' :: pad2 (dateOf t).2.2).head? ≠ some 'W' := by
    intro h
    have hdigit := isDigit_digit ((dateOf t).2.1 / 10)
    rw [Option.some.inj h] at hdigit
    exact absurd hdigit (by decide)
  simp only [parseDate, takeDigits_pad4, Option.bind_eq_bind, Option.bind_some, List.head?_cons, if_true, List.tail_cons,
    if_neg hword, takeDigits_pad2, hday]
  rw [Nat.mod_eq_of_lt hy, Nat.mod_eq_of_lt hm, Nat.mod_eq_of_lt hd, ← ordinal_dateOf h]
  simp

theorem zoneAt_plus {clock : List Char} (h : ∀ c ∈ clock, c ≠ '-' ∧ c ≠ '+') (zone : List Char) :
    (∀ c ∈ zone, c ≠ '-') → zoneAt (clock ++ '+' :: zone) = some clock.length := by
  intro hzone
  have hminus : (clock ++ '+' :: zone).findIdx? (· = '-') = none := by
    rw [List.findIdx?_eq_none_iff]
    intro c hc
    rcases List.mem_append.mp hc with hc | hc
    · exact decide_eq_false (h c hc).1
    · rcases List.mem_cons.mp hc with rfl | hc
      · rfl
      · exact decide_eq_false (hzone c hc)
  have hplus : (clock ++ '+' :: zone).findIdx? (· = '+') = some clock.length := by
    have hnone : clock.findIdx? (· = '+') = none := by
      rw [List.findIdx?_eq_none_iff]
      exact fun c hc => decide_eq_false (h c hc).2
    rw [List.findIdx?_append, hnone, List.findIdx?_cons]
    simp
  simp only [zoneAt, List.findSome?_cons, hminus, hplus]

/-- The clock of a text. -/
def clockText (s : ℕ) : List Char := pad2 (s / 3600) ++ ':' :: (pad2 (s / 60 % 60) ++ ':' :: pad2 (s % 60))

theorem parseClock_text {s micros : ℕ} {f : List Char} (hs : s < 86400) (hf : FractionText micros f) :
    parseClock (clockText s ++ f) = some (s / 3600, s / 60 % 60, s % 60, micros) := by
  have h1 : s / 3600 % 100 = s / 3600 := Nat.mod_eq_of_lt (by omega)
  have h2 : s / 60 % 60 % 100 = s / 60 % 60 := Nat.mod_eq_of_lt (by omega)
  have h3 : s % 60 % 100 = s % 60 := Nat.mod_eq_of_lt (by omega)
  simp only [parseClock, clockText, List.append_assoc, List.cons_append, takeDigits_pad2, Option.bind_eq_bind,
    Option.bind_some, reduceCtorEq, if_false, List.head?_cons, if_true, List.tail_cons, h1, h2, h3, ne_eq,
    not_true_eq_false, and_false]
  cases hf with
  | whole h => subst h; rfl
  | digits hd h => simp [h]

theorem clock_chars {s micros : ℕ} {f : List Char} (hf : FractionText micros f) :
    ∀ c ∈ clockText s ++ f, c.isDigit = true ∨ c = ':' ∨ c = '.' := by
  have hpad : ∀ n, ∀ c ∈ pad2 n, c.isDigit = true := fun n => List.all_eq_true.mp (all_pad2 n)
  intro c hc
  rcases List.mem_append.mp hc with hc | hc
  · simp only [clockText, List.mem_append, List.mem_cons] at hc
    rcases hc with hc | rfl | hc | rfl | hc
    · exact .inl (hpad _ c hc)
    · exact .inr (.inl rfl)
    · exact .inl (hpad _ c hc)
    · exact .inr (.inl rfl)
    · exact .inl (hpad _ c hc)
  · cases hf with
    | whole h => exact absurd hc List.not_mem_nil
    | digits hd h =>
      rcases List.mem_cons.mp hc with rfl | hc
      · exact .inr (.inr rfl)
      · exact .inl (List.all_eq_true.mp hd c hc)

theorem clock_char_ne {c d : Char} (hc : c.isDigit = true ∨ c = ':' ∨ c = '.') (hd : d.isDigit = false) (h1 : d ≠ ':')
    (h2 : d ≠ '.') : c ≠ d := by
  rintro rfl
  rcases hc with hc | hc | hc
  · rw [hc] at hd
    cases hd
  · exact h1 hc
  · exact h2 hc

/-- What is read of the time of a text in UTC. -/
theorem parseTime_text {s micros : ℕ} {f : List Char} (hs : s < 86400) (hf : FractionText micros f) :
    parseTime (clockText s ++ f ++ "+00:00".toList) = some (s * 1000000 + micros, some DateTime.utc) := by
  have hchars := @clock_chars s micros f hf
  have hzone : zoneAt (clockText s ++ f ++ "+00:00".toList) = some (clockText s ++ f).length :=
    zoneAt_plus (fun c hc => ⟨clock_char_ne (hchars c hc) (by decide) (by decide) (by decide),
      clock_char_ne (hchars c hc) (by decide) (by decide) (by decide)⟩) "00:00".toList
        (List.all_iff_forall_prop.mp (by decide))
  have hget : (clockText s ++ f ++ "+00:00".toList)[(clockText s ++ f).length]? = some '+' := by
    rw [List.getElem?_append_right le_rfl, Nat.sub_self]
    rfl
  have hdrop : (clockText s ++ f ++ "+00:00".toList).drop ((clockText s ++ f).length + 1) = "00:00".toList := by
    rw [← List.drop_drop, List.drop_left]
    rfl
  have hlong : ¬ (clockText s ++ f ++ "+00:00".toList).length < 2 := by
    simp only [List.length_append, clockText, pad2, List.length_cons]
    omega
  have hclock : s / 3600 < 24 ∧ s / 60 % 60 < 60 ∧ s % 60 < 60 := by omega
  have hshift : parseClock "00:00".toList = some (0, 0, 0, 0) := by decide +kernel
  have hmicros : clockMicros (s / 3600, s / 60 % 60, s % 60, micros) = s * 1000000 + micros := by
    simp only [clockMicros]
    omega
  rw [parseTime, if_neg hlong, hzone]
  simp only [List.take_left, parseClock_text hs hf, Option.bind_eq_bind, Option.bind_some, hclock, and_self,
    not_true_eq_false, if_false, hget, hdrop, hshift, hmicros]
  rfl

/-- The text of the date of an instant. -/
def dateText (t : ℕ) : List Char :=
  pad4 ((dateOf t).1 + 1) ++ '-' :: (pad2 (dateOf t).2.1 ++ '-' :: pad2 (dateOf t).2.2)

theorem secondsText_eq (t : ℕ) : secondsText t = dateText t ++ 'T' :: clockText (t % dayMicros / 1000000) := by
  simp only [secondsText, dateText, clockText, List.append_assoc, List.cons_append]

theorem dateLength_text (t : ℕ) (s : List Char) : dateLength (dateText t ++ 'T' :: s) = some 10 := by
  have hlen : (dateText t ++ 'T' :: s).length ≠ 7 := by
    rw [List.length_append, show (dateText t).length = 10 from rfl]
    omega
  have hdash : (dateText t ++ 'T' :: s)[4]? = some '-' := rfl
  have hweek : (dateText t ++ 'T' :: s)[5]? ≠ some 'W' := by
    intro h
    have hdigit := isDigit_digit ((dateOf t).2.1 / 10)
    rw [Option.some.inj h] at hdigit
    exact absurd hdigit (by decide)
  simp only [dateLength, if_neg hlen, if_pos hdash, if_neg hweek]

theorem wallOf_eq {day micros u : ℕ} (h : day * dayMicros + micros = u) (hu : u < maxMicros) :
    wallOf day micros = some ⟨u, hu⟩ := by
  subst h
  exact dif_pos hu

/-- A text of a date and a time is read part by part. -/
theorem fromisoformat_parts {date rest : List Char} {day micros : ℕ} {zone : Option Offset} {w : Fin maxMicros}
    (hlen : 7 ≤ date.length) (hn : dateLength (date ++ 'T' :: rest) = some date.length) (hday : parseDate date = some day)
    (hrest : rest ≠ []) (htime : parseTime rest = some (micros, zone)) (hw : wallOf day micros = some w) :
    fromisoformat (date ++ 'T' :: rest) = some ⟨w, zone⟩ := by
  have hlong : ¬ (date ++ 'T' :: rest).length < 7 := by
    rw [List.length_append]
    omega
  have hdrop : (date ++ 'T' :: rest).drop (date.length + 1) = rest := by
    rw [← List.drop_drop, List.drop_left]
    rfl
  rw [fromisoformat, if_neg hlong]
  refine Option.bind_eq_some_iff.mpr ⟨date.length, hn, Option.bind_eq_some_iff.mpr ⟨day, ?_, ?_⟩⟩
  · rw [List.take_left]
    exact hday
  · rw [hdrop]
    refine (if_neg hrest).trans (Option.bind_eq_some_iff.mpr ⟨(micros, zone), htime, ?_⟩)
    exact Option.bind_eq_some_iff.mpr ⟨w, hw, rfl⟩

/-- The text of an instant in UTC is read back. -/
theorem fromisoformat_text {u : ℕ} (hu : u < maxMicros) {f : List Char} (hf : FractionText (u % 1000000) f) :
    fromisoformat (secondsText u ++ f ++ "+00:00".toList) = some ⟨⟨u, hu⟩, some DateTime.utc⟩ := by
  have hsecond : u % dayMicros / 1000000 < 86400 := Nat.div_lt_of_lt_mul (Nat.mod_lt u (by decide))
  have hten : (dateText u).length = 10 := rfl
  have hwall : wallOf (u / dayMicros) (u % dayMicros / 1000000 * 1000000 + u % 1000000) = some ⟨u, hu⟩ :=
    wallOf_eq (by simp only [dayMicros]; omega) hu
  have htext : secondsText u ++ f ++ "+00:00".toList =
      dateText u ++ 'T' :: (clockText (u % dayMicros / 1000000) ++ f ++ "+00:00".toList) := by
    rw [secondsText_eq]
    simp only [List.append_assoc, List.cons_append]
  rw [htext]
  exact fromisoformat_parts (by omega) (by rw [dateLength_text, hten]) (parseDate_text hu) (List.cons_ne_nil _ _)
    (parseTime_text hsecond hf) hwall

/-! ### Any offset -/

theorem zoneAt_minus {clock : List Char} (h : ∀ c ∈ clock, c ≠ '-') (zone : List Char) :
    zoneAt (clock ++ '-' :: zone) = some clock.length := by
  have hnone : clock.findIdx? (· = '-') = none := by
    rw [List.findIdx?_eq_none_iff]
    exact fun c hc => decide_eq_false (h c hc)
  have hminus : (clock ++ '-' :: zone).findIdx? (· = '-') = some clock.length := by
    rw [List.findIdx?_append, hnone, List.findIdx?_cons]
    simp
  simp only [zoneAt, List.findSome?_cons, hminus]

/-- An offset without its sign. -/
def shiftText (micros : ℕ) : List Char :=
  pad2 (micros / 1000000 / 3600) ++ ':' :: pad2 (micros / 1000000 / 60 % 60) ++
    if micros % 60000000 = 0 then [] else ':' :: pad2 (micros / 1000000 % 60) ++ DateTime.microsText micros

theorem shiftText_chars (micros : ℕ) : ∀ c ∈ shiftText micros, c.isDigit = true ∨ c = ':' ∨ c = '.' := by
  have hpad : ∀ n, ∀ c ∈ pad2 n, c.isDigit = true := fun n => List.all_eq_true.mp (all_pad2 n)
  intro c hc
  simp only [shiftText, List.mem_append, List.mem_cons] at hc
  rcases hc with (hc | rfl | hc) | hc
  · exact .inl (hpad _ c hc)
  · exact .inr (.inl rfl)
  · exact .inl (hpad _ c hc)
  · split at hc
    · cases hc
    · simp only [List.mem_append, List.mem_cons] at hc
      rcases hc with (rfl | hc) | hc
      · exact .inr (.inl rfl)
      · exact .inl (hpad _ c hc)
      · rw [DateTime.microsText] at hc
        split at hc
        · cases hc
        · rcases List.mem_cons.mp hc with rfl | hc
          · exact .inr (.inr rfl)
          · exact .inl (List.all_eq_true.mp (all_pad6 _) c hc)

theorem parseClock_shift {micros : ℕ} (h : micros < dayMicros) : ∃ clock, parseClock (shiftText micros) = some clock ∧
    clockMicros clock = micros := by
  have hsec : micros / 1000000 < 86400 := Nat.div_lt_of_lt_mul h
  rw [shiftText]
  split
  · rename_i hwhole
    have h1 : micros / 1000000 / 3600 % 100 = micros / 1000000 / 3600 := Nat.mod_eq_of_lt (by omega)
    have h2 : micros / 1000000 / 60 % 60 % 100 = micros / 1000000 / 60 % 60 := Nat.mod_eq_of_lt (by omega)
    have hminutes : takeDigits 2 (pad2 (micros / 1000000 / 60 % 60)) = some (micros / 1000000 / 60 % 60, []) := by
      have := takeDigits_pad2 (micros / 1000000 / 60 % 60) []
      rwa [List.append_nil, h2] at this
    refine ⟨(micros / 1000000 / 3600, micros / 1000000 / 60 % 60, 0, 0), ?_, ?_⟩
    · simp only [parseClock, List.append_nil, takeDigits_pad2, Option.bind_eq_bind, Option.bind_some, reduceCtorEq, if_false,
        List.head?_cons, if_true, List.tail_cons, hminutes, h1]
      rfl
    · simp only [clockMicros]
      omega
  · have hclock := @parseClock_text (micros / 1000000) (micros % 1000000) _ hsec (@fractionText_microsText micros)
    rw [clockText] at hclock
    simp only [List.append_assoc, List.cons_append] at hclock ⊢
    refine ⟨_, hclock, ?_⟩
    simp only [clockMicros]
    omega

theorem offsetText_eq (o : Offset) :
    DateTime.offsetText o = (if o.val < 0 then '-' else '+') :: shiftText o.val.natAbs := by
  simp only [DateTime.offsetText, shiftText, List.cons_append]

/-- A clock, a sign and an offset are read one after the other. -/
theorem parseTime_zone {s : List Char} {i : ℕ} {clock shift : ℕ × ℕ × ℕ × ℕ} {o : Offset} (hlong : ¬s.length < 2)
    (hzone : zoneAt s = some i) (hclock : parseClock (s.take i) = some clock)
    (hbounds : clock.1 < 24 ∧ clock.2.1 < 60 ∧ clock.2.2.1 < 60) (hrest : 5 ≤ (s.drop (i + 1)).length)
    (hshift : parseClock (s.drop (i + 1)) = some shift)
    (ho : offsetOf (s[i]? = some '-') (clockMicros shift) = some o) :
    parseTime s = some (clockMicros clock, some o) := by
  have hzulu : ¬(s.drop (i + 1) = [] ∧ s[i]? = some 'Z') := by
    rintro ⟨hnil, -⟩
    rw [hnil] at hrest
    simp at hrest
  have hshort : ¬((s.drop (i + 1)).length = 0 ∨ (s.drop (i + 1)).length = 1 ∨ (s.drop (i + 1)).length = 3) := by omega
  have hbind : ∀ {α β} (x : α) (f : α → Option β), (some x >>= f) = f x := fun _ _ => rfl
  rw [parseTime, if_neg hlong, hzone]
  dsimp only
  rw [hclock, hbind, if_neg (not_not.mpr hbounds), if_neg hzulu, if_neg hshort, hshift, hbind, ho, hbind]
  exact (rfl : pure _ = some _)

/-- What is read of the time of a text with an offset. -/
theorem parseTime_offset {s micros : ℕ} {f : List Char} (hs : s < 86400) (hf : FractionText micros f) (o : Offset) :
    parseTime (clockText s ++ f ++ DateTime.offsetText o) = some (s * 1000000 + micros, some o) := by
  have hchars := @clock_chars s micros f hf
  have hno : ∀ c ∈ clockText s ++ f, c ≠ '-' ∧ c ≠ '+' := fun c hc =>
    ⟨clock_char_ne (hchars c hc) (by decide) (by decide) (by decide),
      clock_char_ne (hchars c hc) (by decide) (by decide) (by decide)⟩
  have habs : o.val.natAbs < dayMicros := by
    have := o.2
    omega
  have hshift : ∀ c ∈ shiftText o.val.natAbs, c ≠ '-' := fun c hc =>
    clock_char_ne (shiftText_chars _ c hc) (by decide) (by decide) (by decide)
  obtain ⟨clock, hclock, hmicros⟩ := parseClock_shift habs
  have hlength : 5 ≤ (shiftText o.val.natAbs).length := by
    simp only [shiftText, List.length_append, List.length_cons, pad2]
    omega
  rw [offsetText_eq]
  generalize hsign : (if o.val < 0 then '-' else '+') = sign
  have hzone : zoneAt (clockText s ++ f ++ sign :: shiftText o.val.natAbs) = some (clockText s ++ f).length := by
    rw [← hsign]
    split
    · exact zoneAt_minus (fun c hc => (hno c hc).1) _
    · exact zoneAt_plus hno _ hshift
  have hget : (clockText s ++ f ++ sign :: shiftText o.val.natAbs)[(clockText s ++ f).length]? = some sign := by
    rw [List.getElem?_append_right le_rfl, Nat.sub_self]
    rfl
  have hdrop : (clockText s ++ f ++ sign :: shiftText o.val.natAbs).drop ((clockText s ++ f).length + 1) =
      shiftText o.val.natAbs := by
    rw [← List.drop_drop, List.drop_left]
    rfl
  have hlong : ¬ (clockText s ++ f ++ sign :: shiftText o.val.natAbs).length < 2 := by
    simp only [List.length_append, List.length_cons]
    omega
  have hbounds : s / 3600 < 24 ∧ s / 60 % 60 < 60 ∧ s % 60 < 60 := by omega
  have htotal : clockMicros (s / 3600, s / 60 % 60, s % 60, micros) = s * 1000000 + micros := by
    simp only [clockMicros]
    omega
  have hoffset : offsetOf (decide (some sign = some '-')) (clockMicros clock) = some o := by
    rw [hmicros, offsetOf, dif_pos habs, ← hsign]
    by_cases hneg : o.val < 0
    · rw [if_pos hneg]
      refine congrArg some (Subtype.ext ?_)
      simp only [decide_true, if_true]
      omega
    · rw [if_neg hneg]
      refine congrArg some (Subtype.ext ?_)
      simp only [Option.some.injEq, Char.reduceEq, decide_false, Bool.false_eq_true, if_false]
      omega
  rw [← htotal]
  refine @parseTime_zone _ _ _ clock o hlong hzone ?_ hbounds ?_ ?_ ?_
  · rw [List.take_left]
    exact parseClock_text hs hf
  · rw [hdrop]
    exact hlength
  · rw [hdrop]
    exact hclock
  · rw [hget]
    exact hoffset

/-- `fromisoformat` reads an aware time back from its text. -/
theorem fromisoformat_isoformat (t : DateTime) (h : t.utcoffset ≠ none) : fromisoformat t.isoformat.toList = some t := by
  obtain ⟨⟨u, hu⟩, utcoffset⟩ := t
  obtain ⟨o, rfl⟩ := Option.ne_none_iff_exists'.mp h
  have hsecond : u % dayMicros / 1000000 < 86400 := Nat.div_lt_of_lt_mul (Nat.mod_lt u (by decide))
  have hten : (dateText u).length = 10 := rfl
  have hwall : wallOf (u / dayMicros) (u % dayMicros / 1000000 * 1000000 + u % 1000000) = some ⟨u, hu⟩ :=
    wallOf_eq (by simp only [dayMicros]; omega) hu
  have htext : (DateTime.isoformat ⟨⟨u, hu⟩, some o⟩).toList =
      dateText u ++ 'T' :: (clockText (u % dayMicros / 1000000) ++ DateTime.microsText u ++ DateTime.offsetText o) := by
    rw [DateTime.isoformat, String.toList_ofList, secondsText_eq]
    simp only [List.append_assoc, List.cons_append, Option.map_some, Option.getD_some]
  rw [htext]
  exact fromisoformat_parts (by omega) (by rw [dateLength_text, hten]) (parseDate_text hu)
    (by simp [clockText, pad2]) (parseTime_offset hsecond fractionText_microsText o) hwall

/-! ### Zulu -/

theorem zuluToOffset_append (s t : List Char) : zuluToOffset (s ++ t) = zuluToOffset s ++ zuluToOffset t :=
  List.flatMap_append

theorem zuluToOffset_of_digits {s : List Char} (h : ∀ c ∈ s, c ≠ 'Z') : zuluToOffset s = s := by
  rw [zuluToOffset]
  induction s with
  | nil => rfl
  | cons c s ih =>
    obtain ⟨hc, hs⟩ := List.forall_mem_cons.mp h
    rw [List.flatMap_cons, if_neg hc, ih hs]
    rfl

theorem secondsText_ne_zulu (u : ℕ) : ∀ c ∈ secondsText u, c ≠ 'Z' := by
  have hpad : ∀ n, ∀ c ∈ pad2 n, c ≠ 'Z' := by
    intro n c hc
    have := List.all_eq_true.mp (all_pad2 n) c hc
    rintro rfl
    exact absurd this (by decide)
  intro c hc
  simp only [secondsText, pad4, List.mem_append, List.mem_cons] at hc
  rcases hc with ((((((hc | hc) | (rfl | hc)) | (rfl | hc)) | (rfl | hc)) | (rfl | hc)) | (rfl | hc)) <;>
    first | exact hpad _ c hc | decide

end Py
