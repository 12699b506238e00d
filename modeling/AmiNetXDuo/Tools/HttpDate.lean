import AmiNetXDuo.Config.Text
import AmiNetXDuo.Lib.Gregorian

/-!
# HTTP dates

The date functions of the web server (`httpdate.c`). AmigaOS keeps local time as days, minutes and
ticks since 1978; HTTP dates are texts in GMT. `httpd_civil` takes seconds to a date by subtracting
years and months, `httpd_days_from_civil` takes a date to a day with a table, and the text is parsed
with the same offset from GMT it was written with.

## Main definitions

* `httpdStampSecs`, `httpdCivil`, `httpdRfc1123` : from a date stamp to the text.
* `httpdDaysFromCivil`, `httpdParseRfc1123` : from the text to a date stamp.

## Main results

* `httpdCivil_spec` : the date of a second is the one of the Gregorian calendar, and the other
  conversion takes it back to the day.
* `httpdParseRfc1123_rfc1123` : a text that was written is read back.
-/

namespace AmiNetXDuo.Tools

open AmiNetXDuo.Config (bytes)
open AmiNetXDuo.Lib

/-- `HTTPD_AMIGA_EPOCH`: 1978, in seconds since 1970. -/
def httpdAmigaEpoch : ℕ := 252460800

/-- `TICKS_PER_SECOND`. -/
def ticksPerSecond : ℕ := 50

/-- `struct DateStamp`. -/
structure DateStamp where
  days : ℤ
  minute : ℤ
  tick : ℤ
  deriving DecidableEq, Repr

/-- The sum of the fields, taken in 64 bits. -/
def stampSum (ds : DateStamp) : ℕ :=
  ds.days.toNat * 86400 + ds.minute.toNat * 60 + ds.tick.toNat / ticksPerSecond + httpdAmigaEpoch

/-- `httpd_stamp_secs`, with `httpd_gmt_west` for `west`. -/
def httpdStampSecs (west : ℤ) (ds : DateStamp) : ℕ :=
  if ds.days < 0 ∨ ds.minute < 0 ∨ ds.tick < 0 then httpdAmigaEpoch
  else
    let secs := stampSum ds
    let secs :=
      if 0 < west then secs + west.toNat * 60
      else if west < 0 then
        let east := (-west).toNat * 60
        if east < secs then secs - east else 0
      else secs
    if 0xffffffff < secs then 0xffffffff else secs

/-! ### The two conversions -/

/-- `httpd_leap`, and the condition that `httpd_civil` writes out. -/
def httpdLeap (year : ℕ) : Bool := (year % 4 = 0 && year % 100 ≠ 0) || year % 400 = 0

/-- `mdays`. -/
def mdays : List ℕ := [31, 28, 31, 30, 31, 30, 31, 31, 30, 31, 30, 31]

/-- The days of a year, as both conversions count them. -/
def yearDays (year : ℕ) : ℕ := if httpdLeap year then 366 else 365

theorem yearDays_pos (year : ℕ) : 0 < yearDays year := by
  unfold yearDays
  split <;> decide

/-- The loop over the years: the year, and the days left. -/
def civilYear (days year : ℕ) : ℕ × ℕ :=
  if days < yearDays year then (year, days) else civilYear (days - yearDays year) (year + 1)
termination_by days
decreasing_by
  have hpos := yearDays_pos year
  omega

/-- The loop over the months, from the month `month` on: the month, and the days left. -/
def civilMonth (leap : Bool) : ℕ → ℕ → List ℕ → ℕ × ℕ
  | month, days, [] => (month, days)
  | month, days, len :: rest =>
    let len := if month = 1 ∧ leap then 29 else len
    if days < len then (month, days) else civilMonth leap (month + 1) (days - len) rest

/-- What `httpd_civil` gives. -/
structure CivilDate where
  y : ℕ
  mo : ℕ
  d : ℕ
  h : ℕ
  mi : ℕ
  s : ℕ
  dow : ℕ
  deriving DecidableEq, Repr

/-- `httpd_civil`. -/
def httpdCivil (secs : ℕ) : CivilDate :=
  let days := secs / 86400
  let rem := secs % 86400
  let year := civilYear days 1970
  let month := civilMonth (httpdLeap year.1) 0 year.2 mdays
  { y := year.1
    mo := month.1 + 1
    d := month.2 + 1
    h := rem / 3600
    mi := rem % 3600 / 60
    s := rem % 60
    dow := (days + 4) % 7 }

/-- `httpd_days_in_month`. -/
def httpdDaysInMonth (month year : ℕ) : ℕ :=
  if month = 2 ∧ httpdLeap year then 29 else mdays.getD (month - 1) 0

/-- `cum`. -/
def cumDays : List ℕ := [0, 31, 59, 90, 120, 151, 181, 212, 243, 273, 304, 334]

/-- The loop over the years of `httpd_days_from_civil`, from 1970 on. -/
def daysOfYears (y : ℕ) : ℕ :=
  ((List.range (y - 1970)).map fun k ↦ yearDays (1970 + k)).sum

/-- `httpd_days_from_civil`, before the `ULONG` it is kept in overflows. -/
def httpdDaysFromCivil (y mo d : ℕ) : ℕ :=
  let days := daysOfYears y + cumDays.getD (mo - 1) 0
  let days := if 2 < mo ∧ httpdLeap y then days + 1 else days
  days + (d - 1)

/-! ### The text -/

/-- `httpd_two`. -/
def httpdTwo (value : ℕ) : List UInt8 :=
  [UInt8.ofNat (48 + value / 10 % 10), UInt8.ofNat (48 + value % 10)]

/-- `dows`. -/
def dows : List String := ["Sun", "Mon", "Tue", "Wed", "Thu", "Fri", "Sat"]

/-- `months`. -/
def months : List String :=
  ["Jan", "Feb", "Mar", "Apr", "May", "Jun", "Jul", "Aug", "Sep", "Oct", "Nov", "Dec"]

/-- `httpd_rfc1123`, in front of the terminating zero. -/
def httpdRfc1123 (secs : ℕ) : List UInt8 :=
  let c := httpdCivil secs
  bytes (dows.getD c.dow "") ++ bytes ", " ++ httpdTwo c.d ++ bytes " " ++
    bytes (months.getD (c.mo - 1) "") ++ bytes " " ++ httpdTwo (c.y / 100) ++
    httpdTwo (c.y % 100) ++ bytes " " ++ httpdTwo c.h ++ bytes ":" ++ httpdTwo c.mi ++ bytes ":" ++
    httpdTwo c.s ++ bytes " GMT"

/-! ### The parser -/

/-- `httpd_fold`. -/
def httpdFold (c : UInt8) : UInt8 := if 0x41 ≤ c ∧ c ≤ 0x5A then c + 0x20 else c

/-- `httpd_month_equal`, with a text that ends for one that has a zero there. -/
def httpdMonthEqual (a b : List UInt8) : Bool :=
  3 ≤ a.length && (a.take 3).map httpdFold = (b.take 3).map httpdFold

/-- `httpd_month`; zero when it is none. -/
def httpdMonth (name : List UInt8) : ℕ :=
  match months.findIdx? fun month ↦ httpdMonthEqual name (bytes month) with
  | none => 0
  | some i => i + 1

/-- `httpd_digits`, from the value so far on: the value and the text behind the digits. -/
def httpdDigits (value : ℕ) : ℕ → List UInt8 → ℕ × List UInt8
  | count + 1, c :: s =>
    if 0x30 ≤ c ∧ c ≤ 0x39 then httpdDigits (value * 10 + (c.toNat - 48)) count s
    else (value, c :: s)
  | _, s => (value, s)

/-- The last lines of `httpd_parse_rfc1123`: the stamp of the second `secs` of its own zone. -/
def httpdLocalStamp (secs : ℕ) : Option DateStamp :=
  if secs < httpdAmigaEpoch then none
  else
    let secs := secs - httpdAmigaEpoch
    some ⟨secs / 86400, secs % 86400 / 60, secs % 60 * ticksPerSecond⟩

/-- The end of `httpd_parse_rfc1123`: the stamp of the second `secs` in GMT. -/
def httpdSecsStamp (west : ℤ) (secs : ℕ) : Option DateStamp :=
  if 0 < west then
    let west := west.toNat * 60 % 2 ^ 32
    if secs < west then none else httpdLocalStamp (secs - west)
  else if west < 0 then httpdLocalStamp ((secs + (-west).toNat * 60) % 2 ^ 32)
  else httpdLocalStamp secs

/-- `httpd_parse_rfc1123`; `none` is the source's FALSE. -/
def httpdParseRfc1123 (west : ℤ) (text : List UInt8) : Option DateStamp :=
  let text := text.dropWhile (· = 0x20)
  let text := if text[3]? = some 0x2C then text.drop 4 else text
  let text := text.dropWhile (· = 0x20)
  let day := httpdDigits 0 2 text
  let text := day.2.dropWhile fun c ↦ c = 0x20 || c = 0x2D
  let month := httpdMonth text
  if month = 0 ∨ day.1 < 1 ∨ 31 < day.1 then none
  else
    let text := (text.drop 3).dropWhile fun c ↦ c = 0x20 || c = 0x2D
    let year := httpdDigits 0 4 text
    if year.1 < 1978 ∨ 2100 < year.1 then none
    else if httpdDaysInMonth month year.1 < day.1 then none
    else
      let text := year.2.dropWhile (· = 0x20)
      let h := httpdDigits 0 2 text
      let text := if h.2.head? = some 0x3A then h.2.tail else h.2
      let mi := httpdDigits 0 2 text
      let text := if mi.2.head? = some 0x3A then mi.2.tail else mi.2
      let s := httpdDigits 0 2 text
      if 23 < h.1 ∨ 59 < mi.1 ∨ 60 < s.1 then none
      else
        httpdSecsStamp west ((httpdDaysFromCivil year.1 month day.1 * 86400 +
          (h.1 * 3600 + mi.1 * 60 + s.1)) % 2 ^ 32)

/-! ### The date of a second -/

theorem httpdLeap_eq (year : ℕ) : httpdLeap year = Gregorian.isLeap year := rfl

theorem yearDays_eq (year : ℕ) : yearDays year = Gregorian.yearLength year := rfl

/-- The loop over the years keeps the day. -/
theorem civilYear_spec (days : ℕ) {year : ℕ} (hyear : 1 ≤ year) :
    Gregorian.yearStart (civilYear days year).1 + (civilYear days year).2 =
        Gregorian.yearStart year + days ∧
      (civilYear days year).2 < Gregorian.yearLength (civilYear days year).1 ∧
      year ≤ (civilYear days year).1 := by
  induction days, year using civilYear.induct with
  | case1 days year hlt =>
    rw [civilYear, if_pos hlt]
    exact ⟨rfl, hlt, Nat.le_refl _⟩
  | case2 days year hge ih =>
    rw [civilYear, if_neg hge]
    obtain ⟨hsum, hlt, hle⟩ := ih (by omega)
    have hstart : Gregorian.yearStart (year + 1) = Gregorian.yearStart year + yearDays year :=
      Gregorian.yearStart_succ hyear
    exact ⟨by omega, hlt, by omega⟩

/-- The loop over the months finds the month, for every day of a year. -/
theorem civilMonth_spec : ∀ leap : Bool, ∀ days < (if leap then 366 else 365),
    (civilMonth leap 0 days mdays).1 < 12 ∧
      Gregorian.monthStart leap ((civilMonth leap 0 days mdays).1 + 1) +
        (civilMonth leap 0 days mdays).2 = days ∧
      (civilMonth leap 0 days mdays).2 <
        Gregorian.monthLength leap ((civilMonth leap 0 days mdays).1 + 1) := by
  decide +kernel

/-- The table of the other conversion. -/
theorem cumDays_spec : ∀ leap : Bool, ∀ mo < 12,
    cumDays.getD mo 0 + (if 2 < mo + 1 ∧ leap then 1 else 0) =
      Gregorian.monthStart leap (mo + 1) := by
  decide +kernel

theorem daysOfYears_eq {y : ℕ} (hy : 1970 ≤ y) :
    daysOfYears y + Gregorian.yearStart 1970 = Gregorian.yearStart y := by
  obtain ⟨n, rfl⟩ := Nat.exists_eq_add_of_le hy
  rw [daysOfYears, Nat.add_sub_cancel_left]
  induction n with
  | zero => simp
  | succ n ih =>
    have hstart := Gregorian.yearStart_succ (show 1 ≤ 1970 + n by omega)
    rw [← Nat.add_assoc, hstart, ← ih (by omega), List.range_succ, List.map_append, List.sum_append]
    simp only [List.map_singleton, List.sum_singleton, yearDays_eq]
    omega

/-- The other conversion, on a date. -/
theorem httpdDaysFromCivil_eq {y mo d : ℕ} (hy : 1970 ≤ y) (hmo : 1 ≤ mo) (hmo' : mo ≤ 12)
    (hd : 1 ≤ d) :
    httpdDaysFromCivil y mo d + Gregorian.yearStart 1970 + 1 = Gregorian.dayNumber y mo d := by
  have hyears := daysOfYears_eq hy
  have hmonths := cumDays_spec (httpdLeap y) (mo - 1) (by omega)
  rw [Nat.sub_add_cancel hmo] at hmonths
  simp only [httpdDaysFromCivil, Gregorian.dayNumber, ← httpdLeap_eq]
  by_cases hlate : 2 < mo ∧ httpdLeap y
  · rw [if_pos hlate] at hmonths ⊢
    omega
  · rw [if_neg hlate] at hmonths ⊢
    omega

/-- **The date of a second.** It is a date, its number is that of the day, the weekday is right, and
the other conversion takes it back to the day. -/
theorem httpdCivil_spec (secs : ℕ) :
    Gregorian.IsDate (httpdCivil secs).y (httpdCivil secs).mo (httpdCivil secs).d ∧
      Gregorian.dayNumber (httpdCivil secs).y (httpdCivil secs).mo (httpdCivil secs).d =
        secs / 86400 + Gregorian.dayNumber 1970 1 1 ∧
      (httpdCivil secs).dow =
        Gregorian.weekday (httpdCivil secs).y (httpdCivil secs).mo (httpdCivil secs).d ∧
      httpdDaysFromCivil (httpdCivil secs).y (httpdCivil secs).mo (httpdCivil secs).d =
        secs / 86400 := by
  have hepoch : Gregorian.dayNumber 1970 1 1 = 719163 := by decide +kernel
  have hstart : Gregorian.yearStart 1970 = 719162 := by decide +kernel
  obtain ⟨hyear, hlt, hle⟩ := civilYear_spec (secs / 86400) (show 1 ≤ 1970 by decide)
  obtain ⟨hmo, hmonth, hday⟩ := civilMonth_spec
    (httpdLeap (civilYear (secs / 86400) 1970).1) (civilYear (secs / 86400) 1970).2 hlt
  have hnumber : Gregorian.dayNumber (httpdCivil secs).y (httpdCivil secs).mo (httpdCivil secs).d =
      secs / 86400 + 719163 := by
    simp only [httpdCivil, Gregorian.dayNumber, ← httpdLeap_eq]
    omega
  have hback : httpdDaysFromCivil (httpdCivil secs).y (httpdCivil secs).mo (httpdCivil secs).d +
      Gregorian.yearStart 1970 + 1 =
        Gregorian.dayNumber (httpdCivil secs).y (httpdCivil secs).mo (httpdCivil secs).d :=
    httpdDaysFromCivil_eq hle (Nat.succ_pos _) hmo (Nat.succ_pos _)
  refine ⟨⟨?_, Nat.succ_pos _, hmo, Nat.succ_pos _, hday⟩, ?_, ?_, by omega⟩
  · exact Nat.le_trans (by decide) hle
  · rw [hnumber, hepoch]
  · rw [Gregorian.weekday, hnumber]
    simp only [httpdCivil]
    omega

/-! ### Reading a text that was written -/

theorem httpdDigits_zero (value : ℕ) (s : List UInt8) : httpdDigits value 0 s = (value, s) := by
  cases s <;> rfl

theorem httpdDigits_digit (value count : ℕ) {k : ℕ} (hk : k < 10) (s : List UInt8) :
    httpdDigits value (count + 1) (UInt8.ofNat (48 + k) :: s) =
      httpdDigits (value * 10 + k) count s := by
  have hdigit : ∀ k < 10, 0x30 ≤ UInt8.ofNat (48 + k) ∧ UInt8.ofNat (48 + k) ≤ 0x39 ∧
      (UInt8.ofNat (48 + k)).toNat - 48 = k := by decide
  obtain ⟨hlo, hhi, hval⟩ := hdigit k hk
  rw [httpdDigits, if_pos ⟨hlo, hhi⟩, hval]

/-- Two digits are read as the number that was written. -/
theorem httpdDigits_httpdTwo {v : ℕ} (hv : v < 100) (value count : ℕ) (s : List UInt8) :
    httpdDigits value (count + 2) (httpdTwo v ++ s) = httpdDigits (value * 100 + v) count s := by
  have htens : v / 10 % 10 < 10 := Nat.mod_lt _ (by decide)
  have hones : v % 10 < 10 := Nat.mod_lt _ (by decide)
  rw [httpdTwo, List.cons_append, List.cons_append, List.nil_append, httpdDigits_digit _ _ htens,
    httpdDigits_digit _ _ hones]
  congr 1
  omega

/-- A digit is not skipped as a separator. -/
theorem dropWhile_httpdTwo (p : UInt8 → Bool) (hp : ∀ k < 10, p (UInt8.ofNat (48 + k)) = false)
    (v : ℕ) (s : List UInt8) : (httpdTwo v ++ s).dropWhile p = httpdTwo v ++ s := by
  have hhead := hp (v / 10 % 10) (Nat.mod_lt _ (by decide))
  rw [httpdTwo, List.cons_append, List.dropWhile_cons_of_neg (by rw [hhead]; decide)]

/-- A weekday has three letters. -/
theorem dows_getD : ∀ dow < 7, (bytes (dows.getD dow "")).length = 3 ∧
    (bytes (dows.getD dow "")).head? ≠ some 0x20 := by
  decide +kernel

/-- A month has three letters, and its name is read as the month. -/
theorem months_getD : ∀ mo < 12, (bytes (months.getD mo "")).length = 3 ∧
    (bytes (months.getD mo "")).head? ≠ some 0x20 ∧
    (bytes (months.getD mo "")).head? ≠ some 0x2D ∧
    httpdMonth (bytes (months.getD mo "")) = mo + 1 := by
  decide +kernel

/-- Only three letters are read. -/
theorem httpdMonth_append {name : List UInt8} (hname : name.length = 3) (s : List UInt8) :
    httpdMonth (name ++ s) = httpdMonth name := by
  have hequal (b : List UInt8) : httpdMonthEqual (name ++ s) b = httpdMonthEqual name b := by
    have hlong : 3 ≤ (name ++ s).length := by
      rw [List.length_append]
      omega
    have htake : (name ++ s).take 3 = name.take 3 := by
      rw [← hname, List.take_left, List.take_length]
    rw [httpdMonthEqual, httpdMonthEqual, htake, decide_eq_true hlong, decide_eq_true hname.ge]
  simp only [httpdMonth, hequal]

/-- The days of a month, in the two tables. -/
theorem httpdDaysInMonth_eq (y : ℕ) : ∀ mo < 12,
    httpdDaysInMonth (mo + 1) y = Gregorian.monthLength (Gregorian.isLeap y) (mo + 1) := by
  have htable : ∀ leap : Bool, ∀ mo < 12, (if mo + 1 = 2 ∧ leap then 29 else mdays.getD mo 0) =
      Gregorian.monthLength leap (mo + 1) := by decide
  intro mo hmo
  exact htable (Gregorian.isLeap y) mo hmo

/-- **A text that was written is read back**, when the year is one of those the parser takes. -/
theorem httpdParseRfc1123_rfc1123 (west : ℤ) {secs : ℕ} (hsecs : secs < 2 ^ 32)
    (hlo : 1978 ≤ (httpdCivil secs).y) (hhi : (httpdCivil secs).y ≤ 2100) :
    httpdParseRfc1123 west (httpdRfc1123 secs) = httpdSecsStamp west secs := by
  obtain ⟨⟨-, hmo, hmo', hd, hd'⟩, -, -, hback⟩ := httpdCivil_spec secs
  have hdow : (httpdCivil secs).dow < 7 := Nat.mod_lt _ (by decide)
  have htime : (httpdCivil secs).h ≤ 23 ∧ (httpdCivil secs).mi ≤ 59 ∧ (httpdCivil secs).s ≤ 59 ∧
      (httpdCivil secs).h * 3600 + (httpdCivil secs).mi * 60 + (httpdCivil secs).s =
        secs % 86400 := by
    simp only [httpdCivil]
    omega
  have hd31 : Gregorian.monthLength (Gregorian.isLeap (httpdCivil secs).y) (httpdCivil secs).mo ≤
      31 := by
    unfold Gregorian.monthLength
    split_ifs <;> decide
  obtain ⟨hdowLen, hdowHead⟩ := dows_getD _ hdow
  obtain ⟨hmoLen, hmoHead, hmoHead', hmoRead⟩ := months_getD ((httpdCivil secs).mo - 1) (by omega)
  have hdays := httpdDaysInMonth_eq (httpdCivil secs).y ((httpdCivil secs).mo - 1) (by omega)
  rw [Nat.sub_add_cancel hmo] at hmoRead hdays
  have hcomma : bytes ", " = [0x2C, 0x20] := by decide +kernel
  have hspace : bytes " " = [0x20] := by decide +kernel
  have hcolon : bytes ":" = [0x3A] := by decide +kernel
  unfold httpdRfc1123
  generalize httpdCivil secs = c at *
  obtain ⟨w₁, w₂, w₃, hw⟩ := List.length_eq_three.mp hdowLen
  obtain ⟨m₁, m₂, m₃, hm⟩ := List.length_eq_three.mp hmoLen
  have hmonth (s : List UInt8) : httpdMonth (m₁ :: m₂ :: m₃ :: s) = c.mo := by
    rw [← hmoRead, hm]
    exact httpdMonth_append (show [m₁, m₂, m₃].length = 3 from rfl) s
  rw [hw] at hdowHead
  rw [hm] at hmoHead hmoHead'
  simp only [List.head?_cons, ne_eq, Option.some.injEq] at hdowHead hmoHead hmoHead'
  have hsp : ∀ k < 10, decide (UInt8.ofNat (48 + k) = 0x20) = false := by decide
  have hsd : ∀ k < 10, (decide (UInt8.ofNat (48 + k) = 0x20) ||
    decide (UInt8.ofNat (48 + k) = 0x2D)) = false := by decide
  simp only [httpdParseRfc1123, hw, hm, hcomma, hspace, hcolon, List.append_assoc,
    List.cons_append, List.nil_append]
  -- the weekday
  rw [List.dropWhile_cons_of_neg (by simpa using hdowHead)]
  simp only [List.getElem?_cons_succ, List.getElem?_cons_zero, if_true, List.drop_succ_cons,
    List.drop_zero]
  -- the day
  rw [List.dropWhile_cons_of_pos (by decide), dropWhile_httpdTwo _ hsp,
    httpdDigits_httpdTwo (show c.d < 100 by omega), httpdDigits_zero]
  -- the month
  rw [List.dropWhile_cons_of_pos (by decide),
    List.dropWhile_cons_of_neg (by simp [hmoHead, hmoHead']), hmonth]
  simp only [Nat.zero_mul, Nat.zero_add, List.drop_succ_cons, List.drop_zero]
  rw [if_neg (by omega)]
  -- the year
  rw [List.dropWhile_cons_of_pos (by decide), dropWhile_httpdTwo _ hsd,
    httpdDigits_httpdTwo (show c.y / 100 < 100 by omega) _ 2,
    httpdDigits_httpdTwo (show c.y % 100 < 100 by omega), httpdDigits_zero]
  simp only [Nat.zero_mul, Nat.zero_add, Nat.div_add_mod']
  rw [if_neg (by omega), if_neg (by omega)]
  -- the time
  rw [List.dropWhile_cons_of_pos (by decide), dropWhile_httpdTwo _ hsp,
    httpdDigits_httpdTwo (show c.h < 100 by omega), httpdDigits_zero]
  simp only [List.head?_cons, if_true, List.tail_cons, Nat.zero_mul, Nat.zero_add]
  rw [httpdDigits_httpdTwo (show c.mi < 100 by omega), httpdDigits_zero]
  simp only [List.head?_cons, if_true, List.tail_cons, Nat.zero_mul, Nat.zero_add]
  rw [httpdDigits_httpdTwo (show c.s < 100 by omega), httpdDigits_zero]
  simp only [Nat.zero_mul, Nat.zero_add]
  rw [if_neg (by omega), hback, htime.2.2.2, Nat.div_add_mod', Nat.mod_eq_of_lt hsecs]

/-! ### The round trip -/

/-- A stamp of a time of a day. -/
def DateStamp.Normalised (ds : DateStamp) : Prop :=
  0 ≤ ds.days ∧ 0 ≤ ds.minute ∧ ds.minute < 1440 ∧ 0 ≤ ds.tick ∧ ds.tick < 60 * ticksPerSecond

instance (ds : DateStamp) : Decidable ds.Normalised :=
  inferInstanceAs (Decidable (_ ∧ _))

/-- The second of a stamp since 1970, in its own zone. -/
def DateStamp.localSecs (ds : DateStamp) : ℤ :=
  httpdAmigaEpoch + ds.days * 86400 + ds.minute * 60 + ds.tick / ticksPerSecond

/-- The second of a stamp since 1970, in GMT, for a zone `west` minutes west of it. -/
def DateStamp.gmtSecs (west : ℤ) (ds : DateStamp) : ℤ := ds.localSecs + west * 60

/-- A stamp, down to the whole second. -/
def DateStamp.truncated (ds : DateStamp) : DateStamp :=
  { ds with tick := ds.tick / ticksPerSecond * ticksPerSecond }

/-- The first second of a year since 1970. -/
def yearSecs (y : ℕ) : ℕ := (Gregorian.yearStart y - Gregorian.yearStart 1970) * 86400

theorem yearSecs_1978 : yearSecs 1978 = 252460800 := by decide +kernel

theorem yearSecs_2101 : yearSecs 2101 = 4133980800 := by decide +kernel

/-- The year of a second, by the first seconds of the years. -/
theorem httpdCivil_y {secs a b : ℕ} (ha : 1970 ≤ a) (hlo : yearSecs a ≤ secs)
    (hhi : secs < yearSecs (b + 1)) : a ≤ (httpdCivil secs).y ∧ (httpdCivil secs).y ≤ b := by
  obtain ⟨hyear, hlt, hle⟩ := civilYear_spec (secs / 86400) (show 1 ≤ 1970 by decide)
  have hnext := Gregorian.yearStart_succ (show 1 ≤ (httpdCivil secs).y from
    Nat.le_trans (by decide) hle)
  have hlo' := Gregorian.yearStart_mono (by decide) ha
  unfold yearSecs at hlo hhi
  simp only [httpdCivil] at hnext ⊢
  constructor
  · by_contra hbefore
    have hmono := Gregorian.yearStart_mono (show 1 ≤ (civilYear (secs / 86400) 1970).1 + 1 by omega)
      (show (civilYear (secs / 86400) 1970).1 + 1 ≤ a by omega)
    omega
  · by_contra hbehind
    have hmono := Gregorian.yearStart_mono (show 1 ≤ b + 1 by omega)
      (show b + 1 ≤ (civilYear (secs / 86400) 1970).1 by omega)
    omega

theorem stampSum_eq {ds : DateStamp} (hds : ds.Normalised) : (stampSum ds : ℤ) = ds.localSecs := by
  obtain ⟨hdays, hminute, -, htick, -⟩ := hds
  simp only [stampSum, DateStamp.localSecs, ticksPerSecond]
  omega

/-- The seconds of a stamp, when they can be kept. -/
theorem httpdStampSecs_eq {west : ℤ} {ds : DateStamp} (hds : ds.Normalised)
    (hlo : 0 < ds.gmtSecs west) (hhi : ds.gmtSecs west < 2 ^ 32) :
    (httpdStampSecs west ds : ℤ) = ds.gmtSecs west := by
  have hsum := stampSum_eq hds
  obtain ⟨hdays, hminute, -, htick, -⟩ := hds
  unfold DateStamp.gmtSecs at *
  simp only [httpdStampSecs]
  rw [if_neg (by omega)]
  rcases lt_trichotomy west 0 with hwest | rfl | hwest
  · simp only [if_neg (show ¬0 < west by omega), if_pos hwest,
      if_pos (show (-west).toNat * 60 < stampSum ds by omega)]
    rw [if_neg (by omega)]
    omega
  · simp only [lt_irrefl, if_false]
    rw [if_neg (by omega)]
    omega
  · simp only [if_pos hwest]
    rw [if_neg (by omega)]
    omega

theorem httpdLocalStamp_eq {ds : DateStamp} (hds : ds.Normalised) {secs : ℕ}
    (hsecs : (secs : ℤ) = ds.localSecs) : httpdLocalStamp secs = some ds.truncated := by
  obtain ⟨days, minute, tick⟩ := ds
  obtain ⟨hdays, hminute, hminute', htick, htick'⟩ := hds
  simp only [DateStamp.localSecs, DateStamp.truncated, httpdLocalStamp, ticksPerSecond,
    Nat.cast_ofNat] at *
  rw [if_neg (by omega)]
  simp only [Option.some.injEq, DateStamp.mk.injEq]
  omega

/-- The stamp of a second in GMT, when the time in the zone can be kept. -/
theorem httpdSecsStamp_eq {west : ℤ} {ds : DateStamp} (hds : ds.Normalised) {secs : ℕ}
    (hsecs : (secs : ℤ) = ds.gmtSecs west) (hlt : secs < 2 ^ 32) (hlocal : ds.localSecs < 2 ^ 32) :
    httpdSecsStamp west secs = some ds.truncated := by
  have hpos : 0 ≤ ds.localSecs := by
    obtain ⟨hdays, hminute, -, htick, -⟩ := hds
    simp only [DateStamp.localSecs, ticksPerSecond]
    omega
  unfold DateStamp.gmtSecs at hsecs
  simp only [httpdSecsStamp]
  rcases lt_trichotomy west 0 with hwest | rfl | hwest
  · have hsum : secs + (-west).toNat * 60 < 2 ^ 32 := by omega
    rw [if_neg (by omega), if_pos hwest, Nat.mod_eq_of_lt hsum]
    exact httpdLocalStamp_eq hds (by omega)
  · rw [if_neg (by decide), if_neg (by decide)]
    exact httpdLocalStamp_eq hds (by omega)
  · have hshift : west.toNat * 60 < 2 ^ 32 := by omega
    rw [if_pos hwest, Nat.mod_eq_of_lt hshift, if_neg (by omega)]
    exact httpdLocalStamp_eq hds (by omega)

/-- **HTTP dates round-trip.** A normalised stamp whose date in GMT lies in the years 1978 to 2100,
and whose own second fits in 32 bits, is written as a text that is read back as the stamp, down to
the whole second. For every second, the date of `httpd_civil` is a date of the calendar with its
weekday, and `httpd_days_from_civil` takes it back to the day. -/
theorem httpDate_roundTrip :
    (∀ (west : ℤ) (ds : DateStamp), ds.Normalised → yearSecs 1978 ≤ ds.gmtSecs west →
      ds.gmtSecs west < yearSecs 2101 → ds.localSecs < 2 ^ 32 →
      httpdParseRfc1123 west (httpdRfc1123 (httpdStampSecs west ds)) = some ds.truncated) ∧
    ∀ secs < 2 ^ 32,
      httpdDaysFromCivil (httpdCivil secs).y (httpdCivil secs).mo (httpdCivil secs).d =
        secs / 86400 ∧
      Gregorian.IsDate (httpdCivil secs).y (httpdCivil secs).mo (httpdCivil secs).d ∧
      Gregorian.dayNumber (httpdCivil secs).y (httpdCivil secs).mo (httpdCivil secs).d =
        secs / 86400 + Gregorian.dayNumber 1970 1 1 ∧
      (httpdCivil secs).dow =
        Gregorian.weekday (httpdCivil secs).y (httpdCivil secs).mo (httpdCivil secs).d := by
  constructor
  · intro west ds hds hlo hhi hlocal
    have hlo' := yearSecs_1978
    have hhi' := yearSecs_2101
    have hsecs : (httpdStampSecs west ds : ℤ) = ds.gmtSecs west :=
      httpdStampSecs_eq hds (by omega) (by omega)
    have hfirst : yearSecs 1978 ≤ httpdStampSecs west ds := by omega
    have hlast : httpdStampSecs west ds < yearSecs 2101 := by omega
    obtain ⟨hyear, hyear'⟩ := httpdCivil_y (by decide) hfirst hlast
    rw [httpdParseRfc1123_rfc1123 west (by omega) hyear hyear']
    exact httpdSecsStamp_eq hds hsecs (by omega) hlocal
  · intro secs _
    obtain ⟨hdate, hnumber, hdow, hback⟩ := httpdCivil_spec secs
    exact ⟨hback, hdate, hnumber, hdow⟩

/-- The last day of February in the year 2000, an hour east of GMT: the 45 ticks are lost. -/
theorem httpDate_roundTrip_leapDay :
    httpdParseRfc1123 (-60) (httpdRfc1123 (httpdStampSecs (-60) ⟨8094, 30, 95⟩)) =
      some ⟨8094, 30, 50⟩ :=
  httpDate_roundTrip.1 (-60) ⟨8094, 30, 95⟩ (by decide) (by decide +kernel) (by decide +kernel)
    (by decide)

/-- **A zone far enough east.** The last day of the year 2100 in GMT, in a zone for which it is
behind the last second of 32 bits: the parser's sum wraps around and the date is refused. -/
theorem httpDate_local_wraps :
    DateStamp.Normalised ⟨46799, 0, 0⟩ ∧
      yearSecs 1978 ≤ DateStamp.gmtSecs (-2700000) ⟨46799, 0, 0⟩ ∧
      DateStamp.gmtSecs (-2700000) ⟨46799, 0, 0⟩ < yearSecs 2101 ∧
      httpdParseRfc1123 (-2700000) (httpdRfc1123 (httpdStampSecs (-2700000) ⟨46799, 0, 0⟩)) =
        none := by
  have hlo := yearSecs_1978
  have hhi := yearSecs_2101
  have hsecs : httpdStampSecs (-2700000) ⟨46799, 0, 0⟩ = 4133894400 := by decide
  have hfirst : yearSecs 1978 ≤ 4133894400 := by omega
  have hlast : 4133894400 < yearSecs 2101 := by omega
  obtain ⟨hyear, hyear'⟩ := httpdCivil_y (by decide) hfirst hlast
  refine ⟨by decide, by decide +kernel, by decide +kernel, ?_⟩
  rw [hsecs, httpdParseRfc1123_rfc1123 _ (by decide) hyear hyear']
  decide

end AmiNetXDuo.Tools
