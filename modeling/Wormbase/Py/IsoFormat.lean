import Wormbase.Py.Coerce

/-! `datetime.fromisoformat`: dates by month or by ISO week, basic or extended, with an optional time
    and an optional offset. -/

namespace Py

/-- A run of ASCII digits as a number. -/
def digitsOf (s : List Char) : Option ℕ :=
  if s ≠ [] ∧ s.all Char.isDigit then
    some (s.foldl (fun n c => n * 10 + (c.toNat - '0'.toNat)) 0)
  else none

/-- Exactly `n` digits at the head of a text, and what follows. -/
def takeDigits (n : ℕ) (s : List Char) : Option (ℕ × List Char) :=
  if (s.take n).length = n then (digitsOf (s.take n)).map fun x => (x, s.drop n) else none

def daysInMonth (leap : Bool) (m : ℕ) : ℕ :=
  if m = 12 then 31 else daysBeforeMonth leap (m + 1) - daysBeforeMonth leap m

/-- Days since 0001-01-01 of a calendar date. -/
def ordinal (y m d : ℕ) : Option ℕ :=
  if 1 ≤ y ∧ y ≤ 9999 ∧ 1 ≤ m ∧ m ≤ 12 ∧ 1 ≤ d ∧ d ≤ daysInMonth (isLeap (y - 1)) m then
    some (daysBeforeYear (y - 1) + daysBeforeMonth (isLeap (y - 1)) m + (d - 1))
  else none

/-- The Monday of ISO week 1 of a year, which may lie in the year before. -/
def isoWeekOne (y : ℕ) : ℤ :=
  let first : ℤ := daysBeforeYear (y - 1)
  let weekday := first % 7
  if 3 < weekday then first - weekday + 7 else first - weekday

/-- Days since 0001-01-01 of an ISO week date. Week 53 needs a year that has one. -/
def isoWeekOrdinal (y w d : ℕ) : Option ℕ :=
  let longYear := isoWeekOne (y + 1) - isoWeekOne y = 371
  if 1 ≤ y ∧ y ≤ 9999 ∧ 1 ≤ w ∧ (w ≤ 52 ∨ (w = 53 ∧ longYear)) ∧ 1 ≤ d ∧ d ≤ 7 then
    let n := isoWeekOne y + ((w - 1) * 7 + (d - 1) : ℕ)
    if 0 ≤ n ∧ n < 3652059 then some n.toNat else none
  else none

/-- `_parse_isoformat_date` of a text of 7, 8 or 10 characters. -/
def parseDate (s : List Char) : Option ℕ := do
  let (y, s) ← takeDigits 4 s
  let sep := s.head? = some '-'
  let s := if sep then s.tail else s
  if s.head? = some 'W' then
    let (w, s) ← takeDigits 2 s.tail
    if s = [] then isoWeekOrdinal y w 1
    else
      if (s.head? = some '-') ≠ sep then none
      let (d, s) ← takeDigits 1 (if sep then s.tail else s)
      if s ≠ [] then none
      isoWeekOrdinal y w d
  else
    let (m, s) ← takeDigits 2 s
    if (s.head? = some '-') ≠ sep then none
    let (d, s) ← takeDigits 2 (if sep then s.tail else s)
    if s ≠ [] then none
    ordinal y m d

/-- `_find_isoformat_datetime_separator`: how many characters the date takes. -/
def dateLength (s : List Char) : Option ℕ :=
  let at? := fun i => s[i]?
  let isDigitAt := fun i => (at? i).any Char.isDigit
  if s.length = 7 then some 7
  else if at? 4 = some '-' then
    if at? 5 = some 'W' then
      if s.length > 8 ∧ at? 8 = some '-' then
        if s.length = 9 then none else if isDigitAt 10 then some 8 else some 10
      else some 8
    else some 10
  else if at? 4 = some 'W' then
    let idx := 7 + ((s.drop 7).takeWhile Char.isDigit).length
    if idx < 9 then some idx else if idx % 2 = 0 then some 7 else some 8
  else some 8

/-- The fraction of a second in microseconds; digits past the sixth are only checked. -/
def parseFraction (s : List Char) : Option ℕ :=
  if (s.drop 6).all Char.isDigit then
    (digitsOf (s.take 6)).map fun n => n * 10 ^ (6 - (s.take 6).length)
  else none

/-- `_parse_hh_mm_ss_ff`: hours, minutes, seconds and microseconds. -/
def parseClock (s : List Char) : Option (ℕ × ℕ × ℕ × ℕ) := do
  let (h, s) ← takeDigits 2 s
  if s = [] then return (h, 0, 0, 0)
  let sep := s.head? = some ':'
  let (m, s) ← takeDigits 2 (if sep then s.tail else s)
  if s = [] then return (h, m, 0, 0)
  if sep ∧ s.head? ≠ some ':' then none
  let (x, s) ← takeDigits 2 (if sep then s.tail else s)
  match s with
  | [] => return (h, m, x, 0)
  | c :: s =>
    if c = '.' ∨ c = ',' then return (h, m, x, ← parseFraction s) else none

def clockMicros (t : ℕ × ℕ × ℕ × ℕ) : ℕ :=
  ((t.1 * 60 + t.2.1) * 60 + t.2.2.1) * 1000000 + t.2.2.2

theorem offset_bounds {micros : ℕ} (h : micros < dayMicros) :
    (-(dayMicros : ℤ) < -(micros : ℤ) ∧ -(micros : ℤ) < dayMicros) ∧ -(dayMicros : ℤ) < micros ∧ (micros : ℤ) < dayMicros := by
  simp only [dayMicros] at *
  omega

/-- `timezone(±timedelta)`, which must be shorter than a day. -/
def offsetOf (neg : Bool) (micros : ℕ) : Option Offset :=
  if h : micros < dayMicros then
    some (if neg then ⟨-(micros : ℤ), (offset_bounds h).1⟩ else ⟨micros, (offset_bounds h).2⟩)
  else none

/-- The first of `-`, `+` and `Z`, tried in this order, that the text has. -/
def zoneAt (s : List Char) : Option ℕ :=
  (['-', '+', 'Z'].findSome? fun c => s.findIdx? (· = c))

/-- `_parse_isoformat_time`: microseconds of the day and the offset. -/
def parseTime (s : List Char) : Option (ℕ × Option Offset) := do
  if s.length < 2 then none
  let zone := zoneAt s
  let clock ← parseClock (match zone with | some i => s.take i | none => s)
  if ¬(clock.1 < 24 ∧ clock.2.1 < 60 ∧ clock.2.2.1 < 60) then none
  match zone with
  | none => return (clockMicros clock, none)
  | some i =>
    let rest := s.drop (i + 1)
    if rest = [] ∧ s[i]? = some 'Z' then return (clockMicros clock, some DateTime.utc)
    if rest.length = 0 ∨ rest.length = 1 ∨ rest.length = 3 then none
    let shift ← parseClock rest
    return (clockMicros clock, some (← offsetOf (s[i]? = some '-') (clockMicros shift)))

def wallOf (day micros : ℕ) : Option (Fin maxMicros) :=
  let n := day * dayMicros + micros
  if h : n < maxMicros then some ⟨n, h⟩ else none

/-- `datetime.fromisoformat(s)`; `none` for a `ValueError`. -/
def fromisoformat (s : List Char) : Option DateTime := do
  if s.length < 7 then none
  let n ← dateLength s
  let day ← parseDate (s.take n)
  let rest := s.drop (n + 1)
  let (micros, zone) ← if rest = [] then some (0, none) else parseTime rest
  return ⟨← wallOf day micros, zone⟩

/-- `s.replace("Z", "+00:00")`. -/
def zuluToOffset (s : List Char) : List Char :=
  s.flatMap fun c => if c = 'Z' then "+00:00".toList else [c]

end Py
