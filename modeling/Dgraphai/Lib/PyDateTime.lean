import Mathlib.Algebra.Order.Ring.Int
import Mathlib.Data.List.Basic
import Mathlib.Tactic.SplitIfs

/-!
# Python's `datetime`

The fields of a `datetime` and its offset from UTC, the instant it denotes, and its ISO 8601 text. An aware or naive
datetime is read back from its text (`fromisoformat_isoformat`).
-/

def isLeapYear (y : ℕ) : Bool := decide (y % 4 = 0 ∧ (y % 100 ≠ 0 ∨ y % 400 = 0))

def daysInMonth (y m : ℕ) : ℕ :=
  if m = 2 then if isLeapYear y then 29 else 28
  else if m = 4 ∨ m = 6 ∨ m = 9 ∨ m = 11 then 30
  else 31

/-- The offset of an aware datetime is less than a day. -/
structure PyDateTime where
  year : ℕ
  month : ℕ
  day : ℕ
  hour : ℕ
  minute : ℕ
  second : ℕ
  microsecond : ℕ
  /-- In microseconds; `none` for a naive datetime. -/
  offset : Option ℤ
  date_valid : 1 ≤ year ∧ year ≤ 9999 ∧ 1 ≤ month ∧ month ≤ 12 ∧ 1 ≤ day ∧ day ≤ daysInMonth year month
  time_valid : hour < 24 ∧ minute < 60 ∧ second < 60 ∧ microsecond < 1000000
  offset_valid : ∀ o ∈ offset, o.natAbs < 86400000000
  deriving DecidableEq

namespace PyDateTime

/-! ### Instants -/

def dayMicros : ℤ := 86400000000

/-- `_MAXORDINAL`. -/
def maxOrdinal : ℤ := 3652059

def daysBeforeYear (y : ℕ) : ℤ := (y - 1) * 365 + (y - 1) / 4 - (y - 1) / 100 + (y - 1) / 400

def daysBeforeMonth (y m : ℕ) : ℤ := ((List.range (m - 1)).map fun i => (daysInMonth y (i + 1) : ℤ)).sum

variable (t : PyDateTime)

def toordinal : ℤ := daysBeforeYear t.year + daysBeforeMonth t.year t.month + t.day

/-- The microseconds from the first of January of the year 1 to the fields, whatever the offset. -/
def localMicros : ℤ :=
  (t.toordinal - 1) * dayMicros + ((t.hour * 60 + t.minute) * 60 + t.second) * 1000000 + t.microsecond

/-- The instant in UTC; a naive datetime is taken as UTC. -/
def instant : ℤ := t.localMicros - t.offset.getD 0

/-- The instant of `t + timedelta`; `none` where the fields leave the calendar. -/
def instantAfter (micros : ℤ) : Option ℤ :=
  if 0 ≤ t.localMicros + micros ∧ t.localMicros + micros < maxOrdinal * dayMicros then some (t.instant + micros)
  else none

/-! ### Texts -/

/-- `{n:0kd}`, for a number of at most `k` digits. -/
def pad : ℕ → ℕ → List Char
  | 0, _ => []
  | k + 1, n => pad k (n / 10) ++ [Nat.digitChar (n % 10)]

/-- `(k : ℕ)` digits, and what follows. -/
def num (k : ℕ) (s : List Char) : Option (ℕ × List Char) :=
  if (s.take k).length = k ∧ (s.take k).all Char.isDigit then some (Nat.ofDigitChars 10 (s.take k) 0, s.drop k)
  else none

def expect (c : Char) : List Char → Option (List Char)
  | [] => none
  | d :: s => if d = c then some s else none

/-- `HH:MM[:SS[.ffffff]]` of an offset. -/
def offsetText : Option ℤ → List Char
  | none => []
  | some o =>
    let n := o.natAbs
    let us := n % 1000000
    let s := n / 1000000 % 60
    (if o < 0 then '-' else '+') :: (pad 2 (n / 3600000000) ++ ':' :: (pad 2 (n / 60000000 % 60) ++
      (if s = 0 ∧ us = 0 then [] else ':' :: (pad 2 s ++ (if us = 0 then [] else '.' :: pad 6 us)))))

def dateText : List Char := pad 4 t.year ++ '-' :: (pad 2 t.month ++ '-' :: pad 2 t.day)

def timeText : List Char :=
  pad 2 t.hour ++ ':' :: (pad 2 t.minute ++ ':' :: (pad 2 t.second ++
    (if t.microsecond = 0 then [] else '.' :: pad 6 t.microsecond)))

def isoformat : List Char := t.dateText ++ 'T' :: (t.timeText ++ offsetText t.offset)

/-- `[.ffffff]`. -/
def fraction : List Char → Option (ℕ × List Char)
  | [] => some (0, [])
  | c :: s => if c = '.' then num 6 s else some (0, c :: s)

/-- `[:SS[.ffffff]]`, in microseconds. -/
def offsetSeconds : List Char → Option (ℕ × List Char)
  | [] => some (0, [])
  | c :: s =>
    if c = ':' then (num 2 s).bind fun p => (fraction p.2).map fun q => (p.1 * 1000000 + q.1, q.2)
    else none

def readOffset : List Char → Option (Option ℤ)
  | [] => some none
  | c :: s =>
    if c = '+' ∨ c = '-' then do
      let (h, s) ← num 2 s
      let s ← expect ':' s
      let (m, s) ← num 2 s
      let (us, s) ← offsetSeconds s
      let n : ℤ := (h * 60 + m) * 60000000 + us
      if s = [] then some (some (if c = '-' then -n else n)) else none
    else none

/-- The datetime of these fields, if it is one. -/
def build (y mo d h mi s us : ℕ) (o : Option ℤ) : Option PyDateTime :=
  if hdate : 1 ≤ y ∧ y ≤ 9999 ∧ 1 ≤ mo ∧ mo ≤ 12 ∧ 1 ≤ d ∧ d ≤ daysInMonth y mo then
    if htime : h < 24 ∧ mi < 60 ∧ s < 60 ∧ us < 1000000 then
      if hoffset : ∀ o' ∈ o, o'.natAbs < 86400000000 then some ⟨y, mo, d, h, mi, s, us, o, hdate, htime, hoffset⟩
      else none
    else none
  else none

/-- `fromisoformat`, of the texts that `isoformat` writes. -/
def fromisoformat (s : List Char) : Option PyDateTime := do
  let (y, s) ← num 4 s
  let s ← expect '-' s
  let (mo, s) ← num 2 s
  let s ← expect '-' s
  let (d, s) ← num 2 s
  let s ← expect 'T' s
  let (h, s) ← num 2 s
  let s ← expect ':' s
  let (mi, s) ← num 2 s
  let s ← expect ':' s
  let (sec, s) ← num 2 s
  let (us, s) ← fraction s
  let o ← readOffset s
  build y mo d h mi sec us o

variable {t} {k n : ℕ}

theorem length_pad : ∀ k n, (pad k n).length = k
  | 0, _ => rfl
  | k + 1, n => by rw [pad, List.length_append, length_pad k]; rfl

theorem isDigit_digitChar (n : ℕ) : (Nat.digitChar (n % 10)).isDigit = true := by
  have hall : ∀ d < 10, (Nat.digitChar d).isDigit = true := by decide
  exact hall _ (Nat.mod_lt n (by decide))

theorem all_pad : ∀ k n, (pad k n).all Char.isDigit = true
  | 0, _ => rfl
  | k + 1, n => by
    rw [pad, List.all_append, all_pad k, Bool.true_and, List.all_cons, isDigit_digitChar]
    rfl

theorem ofDigitChars_pad : ∀ k n, n < 10 ^ k → Nat.ofDigitChars 10 (pad k n) 0 = n
  | 0, n, h => by
    obtain rfl : n = 0 := by omega
    rfl
  | k + 1, n, h => by
    have hdigit : ∀ d < 10, (Nat.digitChar d).toNat - '0'.toNat = d := by decide
    have hdiv : n / 10 < 10 ^ k := by
      rw [Nat.pow_succ] at h
      omega
    rw [pad, Nat.ofDigitChars_append, ofDigitChars_pad k _ hdiv, Nat.ofDigitChars_cons, Nat.ofDigitChars_nil,
      hdigit _ (Nat.mod_lt n (by decide))]
    omega

theorem num_pad (h : n < 10 ^ k) (s : List Char) : num k (pad k n ++ s) = some (n, s) := by
  have htake : (pad k n ++ s).take k = pad k n := List.take_left' (length_pad k n)
  have hdrop : (pad k n ++ s).drop k = s := List.drop_left' (length_pad k n)
  rw [num, htake, hdrop, if_pos ⟨length_pad k n, all_pad k n⟩, ofDigitChars_pad k n h]

theorem expect_cons (c : Char) (s : List Char) : expect c (c :: s) = some s := by
  rw [expect, if_pos rfl]

/-- The fraction of a time or an offset; what follows does not begin with a point. -/
theorem fraction_text {us : ℕ} (h : us < 1000000) {s : List Char} (hs : s.head? ≠ some '.') :
    fraction ((if us = 0 then [] else '.' :: pad 6 us) ++ s) = some (us, s) := by
  split_ifs with hzero
  · rw [hzero, List.nil_append]
    cases s with
    | nil => rfl
    | cons c s =>
      have hc : c ≠ '.' := fun hc => hs (congrArg some hc)
      rw [fraction, if_neg hc]
  · rw [List.cons_append, fraction, if_pos rfl, num_pad (by simpa using h)]

theorem head_offsetText (o : Option ℤ) : (offsetText o).head? ≠ some '.' := by
  cases o with
  | none => exact fun h => by cases h
  | some o =>
    rw [offsetText]
    split_ifs <;> exact fun h => absurd (Option.some.inj h) (by decide)

theorem offsetSeconds_text {sec us : ℕ} (hs : sec < 60) (hus : us < 1000000) :
    offsetSeconds (if sec = 0 ∧ us = 0 then [] else ':' :: (pad 2 sec ++ (if us = 0 then [] else '.' :: pad 6 us))) =
      some (sec * 1000000 + us, []) := by
  split_ifs with hzero hus'
  · rw [hzero.1, hzero.2]
    rfl
  · rw [offsetSeconds, if_pos rfl, num_pad (by omega), hus']
    rfl
  · have hfrac := fraction_text hus (s := []) (fun h => by cases h)
    rw [if_neg hus', List.append_nil] at hfrac
    rw [offsetSeconds, if_pos rfl, num_pad (by omega), Option.bind_some, hfrac]
    rfl

theorem readOffset_offsetText {o : Option ℤ} (h : ∀ o' ∈ o, o'.natAbs < 86400000000) :
    readOffset (offsetText o) = some o := by
  cases o with
  | none => rfl
  | some o =>
    have ho := h o rfl
    have hsign : (if o < 0 then '-' else '+') = '+' ∨ (if o < 0 then '-' else '+') = '-' := by
      split_ifs
      · exact .inr rfl
      · exact .inl rfl
    have hminute : o.natAbs / 60000000 % 60 < 10 ^ 2 := by omega
    have hsecond : o.natAbs / 1000000 % 60 < 60 := Nat.mod_lt _ (by decide)
    have hmicro : o.natAbs % 1000000 < 1000000 := Nat.mod_lt _ (by decide)
    rw [offsetText, readOffset, if_pos hsign, num_pad (by omega), Option.bind_eq_bind, Option.bind_some]
    simp only [expect_cons, Option.bind_eq_bind, Option.bind_some, num_pad hminute, offsetSeconds_text hsecond hmicro,
      if_true]
    refine congrArg some (congrArg some ?_)
    by_cases ho' : o < 0
    · simp only [if_pos ho', if_true]
      omega
    · simp only [if_neg ho', if_neg (show ¬ '+' = '-' by decide)]
      omega

theorem build_fields (t : PyDateTime) :
    build t.year t.month t.day t.hour t.minute t.second t.microsecond t.offset = some t := by
  rw [build, dif_pos t.date_valid, dif_pos t.time_valid, dif_pos t.offset_valid]

/-- A datetime is read back from its text. -/
theorem fromisoformat_isoformat (t : PyDateTime) : fromisoformat t.isoformat = some t := by
  obtain ⟨-, hy, -, hmo, -, hd⟩ := t.date_valid
  obtain ⟨hh, hmi, hs, hus⟩ := t.time_valid
  have hday : daysInMonth t.year t.month ≤ 31 := by
    rw [daysInMonth]
    split_ifs <;> decide
  rw [fromisoformat, isoformat, dateText, timeText]
  simp only [List.append_assoc, List.cons_append, Option.bind_eq_bind, num_pad (k := 4) (n := t.year) (by omega),
    num_pad (k := 2) (n := t.month) (by omega), num_pad (k := 2) (n := t.day) (by omega),
    num_pad (k := 2) (n := t.hour) (by omega), num_pad (k := 2) (n := t.minute) (by omega),
    num_pad (k := 2) (n := t.second) (by omega), expect_cons, Option.bind_some,
    fraction_text hus (head_offsetText t.offset), readOffset_offsetText t.offset_valid, build_fields]

end PyDateTime
