import Mathlib.Data.List.DropRight

/-! Python's `datetime` on the proleptic Gregorian calendar, to the microsecond.

    A value is a wall clock reading and the offset of its time zone; a naive value has no offset.
    `isoZ` is the RFC 3339 text of an instant, and it determines the instant (`isoZ_injective`). -/

namespace Py

/-! ### Padded decimal fields -/

def digit (n : ℕ) : Char := Nat.digitChar (n % 10)

/-- A field of two, four or six digits with leading zeros. -/
def pad2 (n : ℕ) : List Char := [digit (n / 10), digit n]
def pad4 (n : ℕ) : List Char := pad2 (n / 100) ++ pad2 n
def pad6 (n : ℕ) : List Char := pad2 (n / 10000) ++ pad4 n

theorem digit_inj {m n : ℕ} (h : digit m = digit n) : m % 10 = n % 10 := by
  have all : ∀ a b : Fin 10, Nat.digitChar a = Nat.digitChar b → a = b := by decide
  have := all ⟨m % 10, by omega⟩ ⟨n % 10, by omega⟩ h
  simpa using this

theorem digit_ne_zero_of {n : ℕ} (h : n % 10 ≠ 0) : digit n ≠ '0' :=
  fun h0 => h (digit_inj (n := 0) h0)

theorem pad2_inj {m n : ℕ} (h : pad2 m = pad2 n) : m % 100 = n % 100 := by
  simp only [pad2, List.cons.injEq, and_true] at h
  have h1 := digit_inj h.1
  have h2 := digit_inj h.2
  omega

theorem pad4_inj {m n : ℕ} (h : pad4 m = pad4 n) : m % 10000 = n % 10000 := by
  obtain ⟨h1, h2⟩ := List.append_inj h rfl
  have := pad2_inj h1
  have := pad2_inj h2
  omega

theorem pad6_inj {m n : ℕ} (h : pad6 m = pad6 n) : m % 1000000 = n % 1000000 := by
  obtain ⟨h1, h2⟩ := List.append_inj h rfl
  have := pad2_inj h1
  have := pad4_inj h2
  omega

/-! ### The calendar -/

/-- `n` days after 0001-01-01: the year, counted from 0, and the day of that year. -/
def yearOf (n : ℕ) : ℕ × ℕ :=
  let (n400, n) := (n / 146097, n % 146097)
  let (n100, n) := (n / 36524, n % 36524)
  let (n4, n) := (n / 1461, n % 1461)
  let (n1, n) := (n / 365, n % 365)
  let y := n400 * 400 + n100 * 100 + n4 * 4 + n1
  -- the last day of a leap year overshoots into year 4 of its block
  if n1 = 4 ∨ n100 = 4 then (y - 1, 365) else (y, n)

/-- `y` counts years from 0, so year 1 of the calendar is `0`. -/
def isLeap (y : ℕ) : Bool := (y + 1) % 4 = 0 ∧ ((y + 1) % 100 ≠ 0 ∨ (y + 1) % 400 = 0)

def daysBeforeYear (y : ℕ) : ℕ := y * 365 + y / 4 - y / 100 + y / 400

/-- Days before month `m` (1 to 12) of a year. -/
def daysBeforeMonth (leap : Bool) (m : ℕ) : ℕ :=
  [0, 31, 59, 90, 120, 151, 181, 212, 243, 273, 304, 334].getD (m - 1) 0 +
    (if leap ∧ 2 < m then 1 else 0)

/-- Month and day of the month of a day of the year. -/
def monthOf (leap : Bool) (d : ℕ) : ℕ × ℕ :=
  -- the estimate is the month or the one after it
  let m := (d + 50) / 32
  let m := if d < daysBeforeMonth leap m then m - 1 else m
  (m, d - daysBeforeMonth leap m + 1)

/-- Days before a year given by its blocks of 400, 100, 4 and 1 years. -/
theorem daysBeforeYear_blocks (a : ℕ) {b c d : ℕ} (hb : b < 4) (hc : c < 25) (hd : d < 4) :
    daysBeforeYear (a * 400 + b * 100 + c * 4 + d) =
      a * 146097 + b * 36524 + c * 1461 + d * 365 := by
  have h4 : (a * 400 + b * 100 + c * 4 + d) / 4 = a * 100 + b * 25 + c := by omega
  have h100 : (a * 400 + b * 100 + c * 4 + d) / 100 = a * 4 + b := by omega
  have h400 : (a * 400 + b * 100 + c * 4 + d) / 400 = a := by omega
  rw [daysBeforeYear, h4, h100, h400]
  omega

theorem daysBeforeYear_yearOf (n : ℕ) : daysBeforeYear (yearOf n).1 + (yearOf n).2 = n := by
  simp only [yearOf]
  generalize hr : n % 146097 = r
  generalize hs : r % 36524 = s
  generalize ht : s % 1461 = t
  by_cases h100 : r / 36524 = 4
  · rw [if_pos (.inr h100)]
    have hy : n / 146097 * 400 + r / 36524 * 100 + s / 1461 * 4 + t / 365 - 1 =
        n / 146097 * 400 + 3 * 100 + 24 * 4 + 3 := by omega
    simp only [hy]
    rw [daysBeforeYear_blocks _ (by decide) (by decide) (by decide)]
    omega
  · by_cases h1 : t / 365 = 4
    · rw [if_pos (.inl h1)]
      have hy : n / 146097 * 400 + r / 36524 * 100 + s / 1461 * 4 + t / 365 - 1 =
          n / 146097 * 400 + r / 36524 * 100 + s / 1461 * 4 + 3 := by omega
      simp only [hy]
      rw [daysBeforeYear_blocks _ (by omega) (by omega) (by decide)]
      omega
    · rw [if_neg (by omega), daysBeforeYear_blocks _ (by omega) (by omega) (by omega)]
      omega

theorem yearOf_day_lt (n : ℕ) : (yearOf n).2 < 366 := by
  simp only [yearOf]
  split
  · exact (by decide : 365 < 366)
  · exact (Nat.mod_lt _ (by decide)).trans (by decide)

/-- Month and day give the day of the year back. -/
theorem daysBeforeMonth_monthOf (leap : Bool) {d : ℕ} (hd : d < 366) :
    daysBeforeMonth leap (monthOf leap d).1 + ((monthOf leap d).2 - 1) = d := by
  have all : ∀ leap : Bool, ∀ d < 366,
      daysBeforeMonth leap (monthOf leap d).1 + ((monthOf leap d).2 - 1) = d := by decide +kernel
  exact all leap d hd

/-! ### Instants -/

/-- Microseconds of a day, and of the years 1 to 9999. -/
def dayMicros : ℕ := 86400000000
def maxMicros : ℕ := 3652059 * dayMicros

theorem maxMicros_pos : 0 < maxMicros := by decide

/-- Year (from 0), month and day of a microsecond count. -/
def dateOf (t : ℕ) : ℕ × ℕ × ℕ :=
  let (y, d) := yearOf (t / dayMicros)
  (y, monthOf (isLeap y) d)

/-- `%Y-%m-%dT%H:%M:%S` of a microsecond count. -/
def secondsText (t : ℕ) : List Char :=
  let (y, m, d) := dateOf t
  let s := t % dayMicros / 1000000
  pad4 (y + 1) ++ '-' :: pad2 m ++ '-' :: pad2 d ++
    'T' :: pad2 (s / 3600) ++ ':' :: pad2 (s / 60 % 60) ++ ':' :: pad2 (s % 60)

/-- `.` and the microseconds without trailing zeros; nothing on a whole second. -/
def fracText (micros : ℕ) : List Char :=
  if micros = 0 then [] else '.' :: (pad6 micros).rdropWhile (· = '0')

/-- The RFC 3339 text of a UTC microsecond count. -/
def isoZ (t : ℕ) : List Char := secondsText t ++ (fracText (t % 1000000) ++ ['Z'])

theorem dateOf_inj {s t : ℕ} (h : dateOf s = dateOf t) : s / dayMicros = t / dayMicros := by
  simp only [dateOf, Prod.mk.injEq] at h
  obtain ⟨hy, hm⟩ := h
  have hd : (yearOf (s / dayMicros)).2 = (yearOf (t / dayMicros)).2 := by
    rw [← daysBeforeMonth_monthOf (isLeap (yearOf (s / dayMicros)).1) (yearOf_day_lt _),
      ← daysBeforeMonth_monthOf (isLeap (yearOf (t / dayMicros)).1) (yearOf_day_lt (t / _)),
      hm, hy]
  rw [← daysBeforeYear_yearOf (s / dayMicros), ← daysBeforeYear_yearOf (t / dayMicros), hy, hd]

theorem dateOf_bounds {t : ℕ} (h : t < maxMicros) :
    (dateOf t).1 + 1 < 10000 ∧ (dateOf t).2.1 < 100 ∧ (dateOf t).2.2 < 100 := by
  have hday : t / dayMicros < 3652059 := Nat.div_lt_of_lt_mul (by rw [Nat.mul_comm]; exact h)
  have hmonth : ∀ leap : Bool, ∀ d < 366, (monthOf leap d).1 < 100 ∧ (monthOf leap d).2 < 100 := by
    decide +kernel
  refine ⟨?_, hmonth _ _ (yearOf_day_lt _)⟩
  have := daysBeforeYear_yearOf (t / dayMicros)
  simp only [daysBeforeYear, dateOf] at this ⊢
  omega

theorem field_inj {m n : ℕ} {c : Char} {r r' : List Char} (hm : m < 100) (hn : n < 100)
    (h : pad2 m ++ c :: r = pad2 n ++ c :: r') : m = n ∧ r = r' := by
  obtain ⟨h1, h2⟩ := List.append_inj h rfl
  have := pad2_inj h1
  exact ⟨by omega, (List.cons.inj h2).2⟩

/-- Hours, minutes and seconds determine the second of the day. -/
theorem clock_inj {s t : ℕ} (hH : s / 3600 = t / 3600) (hM : s / 60 % 60 = t / 60 % 60)
    (hS : s % 60 = t % 60) : s = t := by
  omega

theorem secondsText_length (t : ℕ) : (secondsText t).length = 19 := rfl

theorem secondsText_inj {s t : ℕ} (hs : s < maxMicros) (ht : t < maxMicros)
    (h : secondsText s = secondsText t) : s / 1000000 = t / 1000000 := by
  obtain ⟨hys, hms, hds⟩ := dateOf_bounds hs
  obtain ⟨hyt, hmt, hdt⟩ := dateOf_bounds ht
  simp only [secondsText, List.append_assoc, List.cons_append] at h
  obtain ⟨hy, h⟩ := List.append_inj h rfl
  obtain ⟨hm, h⟩ := field_inj hms hmt (List.cons.inj h).2
  obtain ⟨hd, h⟩ := field_inj hds hdt h
  have hday : ∀ t, t % dayMicros / 1000000 < 86400 := fun t =>
    Nat.div_lt_of_lt_mul (Nat.mod_lt t (by decide))
  have := hday s
  have := hday t
  obtain ⟨hH, h⟩ := field_inj (by omega) (by omega) h
  obtain ⟨hM, h⟩ := field_inj (by omega) (by omega) h
  have hclock := clock_inj hH hM (by have := pad2_inj h; omega)
  have hdate : dateOf s = dateOf t := by
    have := pad4_inj hy
    exact Prod.ext (by omega) (Prod.ext hm hd)
  have := dateOf_inj hdate
  simp only [dayMicros] at this hclock
  omega

/-- Six digits are determined by what is left of them once the trailing zeros are gone. -/
theorem rdropWhile_zero_inj {l l' : List Char} (hlen : l.length = l'.length)
    (h : l.rdropWhile (· = '0') = l'.rdropWhile (· = '0')) : l = l' := by
  have zeros : ∀ l : List Char, l = l.rdropWhile (· = '0') ++
      List.replicate (l.length - (l.rdropWhile (· = '0')).length) '0' := by
    intro l
    have hsplit : l.rdropWhile (· = '0') ++ l.rtakeWhile (· = '0') = l :=
      List.rdropWhile_append_rtakeWhile
    have htail : l.rtakeWhile (· = '0') = List.replicate (l.rtakeWhile (· = '0')).length '0' :=
      List.eq_replicate_of_mem fun c hc => by simpa using List.mem_rtakeWhile_imp hc
    have hlen := congrArg List.length hsplit
    rw [List.length_append] at hlen
    rw [← hlen, Nat.add_sub_cancel_left, ← htail, hsplit]
  rw [zeros l, zeros l', h, hlen]

theorem fracText_inj {s t : ℕ} (hs : s < 1000000) (ht : t < 1000000)
    (h : fracText s = fracText t) : s = t := by
  unfold fracText at h
  split at h <;> split at h <;> rename_i h1 h2
  · rw [h1, h2]
  · cases h
  · cases h
  · have hpad : pad6 s = pad6 t := rdropWhile_zero_inj rfl (List.cons.inj h).2
    have := pad6_inj hpad
    omega

/-- The text determines the instant. -/
theorem isoZ_injective {s t : ℕ} (hs : s < maxMicros) (ht : t < maxMicros)
    (h : isoZ s = isoZ t) : s = t := by
  obtain ⟨h1, h2⟩ := List.append_inj h (by rw [secondsText_length, secondsText_length])
  have hsec := secondsText_inj hs ht h1
  have hfrac := fracText_inj (Nat.mod_lt _ (by decide)) (Nat.mod_lt _ (by decide))
    (List.append_cancel_right h2)
  omega

/-! ### Wall clocks -/

/-- A UTC offset in microseconds, strictly between a day behind and a day ahead. -/
abbrev Offset := {o : ℤ // -(dayMicros : ℤ) < o ∧ o < dayMicros}

/-- A `datetime`: the wall clock since 0001-01-01, and the offset unless it is naive. -/
structure DateTime where
  wall : Fin maxMicros
  utcoffset : Option Offset
  deriving DecidableEq

namespace DateTime

def utc : Offset := ⟨0, by decide⟩

/-- `replace(tzinfo=UTC)`. -/
def replaceUtc (t : DateTime) : DateTime := { t with utcoffset := some utc }

/-- The instant in UTC microseconds; `none` when it leaves the years 1 to 9999. -/
def instant (t : DateTime) (o : Offset) : Option (Fin maxMicros) :=
  let u : ℤ := t.wall - o
  if h : 0 ≤ u ∧ u < maxMicros then some ⟨u.toNat, by omega⟩ else none

theorem instant_eq_some {t : DateTime} {o : Offset} {u : Fin maxMicros} :
    t.instant o = some u ↔ (u : ℤ) = t.wall - o := by
  have hu := u.2
  simp only [instant]
  constructor
  · intro h
    split at h
    · cases h; simp; omega
    · cases h
  · intro h
    rw [dif_pos (by omega)]
    exact congrArg some (Fin.ext (by simp; omega))

theorem instant_utc (t : DateTime) : t.instant utc = some t.wall :=
  instant_eq_some.mpr (by simp [utc])

/-- `.` and six digits, unless the second is whole. -/
def microsText (micros : ℕ) : List Char := if micros % 1000000 = 0 then [] else '.' :: pad6 (micros % 1000000)

/-- An offset to the minute, or as far as it goes. -/
def offsetText (o : Offset) : List Char :=
  let micros := o.val.natAbs
  let s := micros / 1000000
  (if o.val < 0 then '-' else '+') :: pad2 (s / 3600) ++ ':' :: pad2 (s / 60 % 60) ++
    if micros % 60000000 = 0 then [] else ':' :: pad2 (s % 60) ++ microsText micros

/-- `isoformat()`. -/
def isoformat (t : DateTime) : String :=
  String.ofList (secondsText t.wall ++ microsText t.wall ++ (t.utcoffset.map offsetText).getD [])

example : isoformat ⟨⟨120000, by decide⟩, some utc⟩ = "0001-01-01T00:00:00.120000+00:00" := by decide +kernel

end DateTime

end Py
