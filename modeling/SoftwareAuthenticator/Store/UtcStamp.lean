import Mathlib.Data.Nat.Digits.Defs
import Mathlib.Tactic.IntervalCases
import SoftwareAuthenticator.Store.Cleanup

/-!
# The stamp of a quarantine directory

The date is computed from the number of days since 1970 in eras of 400 years that begin in March,
so that the leap day is the last day of its year. Every step is one of 64-bit arithmetic.
-/

namespace SoftwareAuthenticator.Store

/-- `civil_from_days`: the year, the month and the day; `none` if a step overflows. -/
def civilFromDays (days : ℕ) : Option (ℕ × ℕ × ℕ) := do
  let days ← checkedAdd days 719468
  let era := days / 146097
  let dayOfEra := days % 146097
  let corrected ← checkedSub dayOfEra (dayOfEra / 1460)
  let corrected ← checkedAdd corrected (dayOfEra / 36524)
  let corrected ← checkedSub corrected (dayOfEra / 146096)
  let yearOfEra := corrected / 365
  let yearStart ← checkedAdd (← checkedMul 365 yearOfEra) (yearOfEra / 4)
  let dayOfYear ← checkedSub dayOfEra (← checkedSub yearStart (yearOfEra / 100))
  let shiftedMonth := (← checkedAdd (← checkedMul 5 dayOfYear) 2) / 153
  let monthStart := (← checkedAdd (← checkedMul 153 shiftedMonth) 2) / 5
  let day ← checkedAdd (← checkedSub dayOfYear monthStart) 1
  let month ← (if shiftedMonth < 10 then checkedAdd shiftedMonth 3 else checkedSub shiftedMonth 9)
  let year ← checkedAdd yearOfEra (← checkedMul era 400)
  let year ← checkedAdd year (if month ≤ 2 then 1 else 0)
  return (year, month, day)

def decimal (width n : ℕ) : Bytes :=
  let digits := (Nat.digits 10 n).reverse.map fun digit => UInt8.ofNat (48 + digit)
  List.replicate (width - digits.length) 48 ++ digits

/-- The bytes of `utc_stamp`'s text, `20261104T221507Z`. -/
def utcStamp (seconds : ℕ) : Option Bytes := do
  let (year, month, day) ← civilFromDays (seconds / 86400)
  let second := seconds % 86400
  return decimal 4 year ++ decimal 2 month ++ decimal 2 day ++ [84] ++
    decimal 2 (second / 3600) ++ decimal 2 (second % 3600 / 60) ++ decimal 2 (second % 60) ++ [90]

def IsLeap (year : ℕ) : Prop := year % 4 = 0 ∧ (year % 100 ≠ 0 ∨ year % 400 = 0)

instance (year : ℕ) : Decidable (IsLeap year) := inferInstanceAs (Decidable (_ ∧ _))

def daysInMonth (year : ℕ) : ℕ → ℕ
  | 2 => if IsLeap year then 29 else 28
  | 4 | 6 | 9 | 11 => 30
  | _ => 31

def daysInYear (year : ℕ) : ℕ := if IsLeap year then 366 else 365

structure ValidDate (year month day : ℕ) : Prop where
  not_before : 1970 ≤ year
  month_pos : 1 ≤ month
  month_le : month ≤ 12
  day_pos : 1 ≤ day
  day_le : day ≤ daysInMonth year month

/-- The days of the first `n` years from 1970 on. -/
def daysOfYears : ℕ → ℕ
  | 0 => 0
  | n + 1 => daysOfYears n + daysInYear (1970 + n)

def daysOfMonths (year : ℕ) : ℕ → ℕ
  | 0 => 0
  | n + 1 => daysOfMonths year n + daysInMonth year (n + 1)

def daysSinceEpoch (year month day : ℕ) : ℕ :=
  daysOfYears (year - 1970) + daysOfMonths year (month - 1) + (day - 1)

/-- The leap years up to and including `year`, in closed form. -/
def leapYears (year : ℕ) : ℕ := year / 4 + year / 400 - year / 100

theorem leapYears_succ (year : ℕ) :
    leapYears (year + 1) = leapYears year + if IsLeap (year + 1) then 1 else 0 := by
  unfold leapYears
  split_ifs with h <;> unfold IsLeap at h <;> omega

theorem daysOfYears_eq (n : ℕ) :
    daysOfYears n + leapYears 1969 = 365 * n + leapYears (1969 + n) := by
  induction n with
  | zero => simp [daysOfYears]
  | succ n ih =>
    have hstep := leapYears_succ (1969 + n)
    rw [show 1969 + n + 1 = 1970 + n by omega] at hstep
    rw [daysOfYears, daysInYear, ← Nat.add_assoc, show 1969 + n + 1 = 1970 + n by omega, hstep]
    split_ifs <;> omega

/-- The day of the era on which its year begins. -/
def eraYearStart (year : ℕ) : ℕ := 365 * year + year / 4 - year / 100

/-- The source's estimate of the year, before the division. -/
def correctedDay (day : ℕ) : ℕ := day - day / 1460 + day / 36524 - day / 146096

theorem correctedDay_le_succ {day : ℕ} (h : day + 1 < 146097) :
    correctedDay day ≤ correctedDay (day + 1) := by
  unfold correctedDay
  omega

theorem correctedDay_mono {a b : ℕ} (hab : a ≤ b) (hb : b < 146097) :
    correctedDay a ≤ correctedDay b := by
  induction b, hab using Nat.le_induction with
  | base => exact le_rfl
  | succ b _ ih => exact (ih (by omega)).trans (correctedDay_le_succ hb)

/-- The estimate is exact on the first and the last day of every year of the era. -/
theorem correctedDay_ends : ∀ year < 400, correctedDay (eraYearStart year) / 365 = year ∧
    correctedDay (eraYearStart (year + 1) - 1) / 365 = year := by
  decide +kernel

/-- A day of the era lies in the year the estimate gives. -/
theorem year_of_correctedDay {day year : ℕ} (hday : day < 146097)
    (hyear : correctedDay day / 365 = year) :
    year < 400 ∧ eraYearStart year ≤ day ∧ (day < eraYearStart (year + 1) ∨ year = 399) := by
  have hmono {a b : ℕ} (hab : a ≤ b) (hb : b < 146097) :
      correctedDay a / 365 ≤ correctedDay b / 365 :=
    Nat.div_le_div_right (correctedDay_mono hab hb)
  have hlast : year < 400 := by
    have := hmono (show day ≤ 146096 by omega) (by decide)
    have hend : correctedDay 146096 / 365 = 399 := by decide
    omega
  refine ⟨hlast, ?_, ?_⟩
  · by_contra hbefore
    obtain ⟨previous, rfl⟩ : ∃ previous, year = previous + 1 := by
      refine Nat.exists_eq_succ_of_ne_zero fun hzero => hbefore ?_
      rw [hzero]
      exact Nat.zero_le day
    have hend := (correctedDay_ends previous (by omega)).2
    have hbound : eraYearStart (previous + 1) - 1 < 146097 := by
      unfold eraYearStart
      omega
    have := hmono (show day ≤ eraYearStart (previous + 1) - 1 by omega) hbound
    omega
  · by_contra hafter
    have hnext : year + 1 < 400 := by omega
    have hstart := (correctedDay_ends (year + 1) hnext).1
    have := hmono (show eraYearStart (year + 1) ≤ day by omega) hday
    omega

theorem then_some {α β : Type} {x : Option α} {f : α → Option β} {a : α} {b : Option β}
    (hx : x = some a) (hf : f a = b) : x >>= f = b := by
  rw [hx]
  exact hf

/-- The month that begins in March, and the day of it. -/
def shiftedMonth (dayOfYear : ℕ) : ℕ := (5 * dayOfYear + 2) / 153

def dayOfMonth (dayOfYear : ℕ) : ℕ := dayOfYear - (153 * shiftedMonth dayOfYear + 2) / 5 + 1

/-- The months of the calendar and the year they belong to. -/
def calendarMonth (shifted : ℕ) : ℕ := if shifted < 10 then shifted + 3 else shifted - 9

def calendarYear (marchYear shifted : ℕ) : ℕ := if shifted < 10 then marchYear else marchYear + 1

/-- The computation, with the era's year and the day in it. -/
theorem civilFromDays_eq {days era dayOfEra year dayOfYear : ℕ} (hdays : days < 2 ^ 63)
    (hsplit : days + 719468 = 146097 * era + dayOfEra) (hera : dayOfEra < 146097)
    (hyear : correctedDay dayOfEra / 365 = year) (hlt : year < 400)
    (hday : dayOfEra = eraYearStart year + dayOfYear) (hle : dayOfYear ≤ 365) :
    civilFromDays days = some (calendarYear (year + 400 * era) (shiftedMonth dayOfYear),
      calendarMonth (shiftedMonth dayOfYear), dayOfMonth dayOfYear) := by
  have hdiv : (days + 719468) / 146097 = era := by omega
  have hmod : (days + 719468) % 146097 = dayOfEra := by omega
  have hfour : dayOfEra / 1460 ≤ dayOfEra := by omega
  have hcentury : dayOfEra / 146096 ≤ dayOfEra - dayOfEra / 1460 + dayOfEra / 36524 := by omega
  have hstart : 365 * year + year / 4 - year / 100 = eraYearStart year := rfl
  have hpast : dayOfEra - eraYearStart year = dayOfYear := by omega
  unfold correctedDay at hyear
  refine then_some (checkedAdd_eq (by omega)) ?_
  rw [hdiv, hmod]
  refine then_some (checkedSub_eq hfour) (then_some (checkedAdd_eq (by omega))
    (then_some (checkedSub_eq hcentury) ?_))
  rw [hyear]
  refine then_some (checkedMul_eq (by omega)) (then_some (checkedAdd_eq (by omega))
    (then_some (checkedSub_eq (by omega)) ?_))
  rw [hstart]
  refine then_some (checkedSub_eq (by omega)) ?_
  rw [hpast]
  refine then_some (checkedMul_eq (by omega)) (then_some (checkedAdd_eq (by omega)) ?_)
  have hmonth : shiftedMonth dayOfYear ≤ 11 := by
    unfold shiftedMonth
    omega
  have hfirst : (153 * shiftedMonth dayOfYear + 2) / 5 ≤ dayOfYear := by
    unfold shiftedMonth
    omega
  change ((checkedMul 153 (shiftedMonth dayOfYear)) >>= _) = _
  refine then_some (checkedMul_eq (by omega)) (then_some (checkedAdd_eq (by omega))
    (then_some (checkedSub_eq hfirst) (then_some (checkedAdd_eq (by omega)) ?_)))
  refine then_some (a := calendarMonth (shiftedMonth dayOfYear)) ?_
    (then_some (checkedMul_eq (by omega)) (then_some (checkedAdd_eq (by omega))
      (then_some (checkedAdd_eq ?_) ?_)))
  · unfold calendarMonth
    change (if shiftedMonth dayOfYear < 10 then _ else _) = _
    split_ifs
    · exact checkedAdd_eq (by omega)
    · exact checkedSub_eq (by omega)
  · split_ifs <;> omega
  · have hcalendar : year + era * 400 + (if calendarMonth (shiftedMonth dayOfYear) ≤ 2 then 1 else 0) =
        calendarYear (year + 400 * era) (shiftedMonth dayOfYear) := by
      unfold calendarMonth calendarYear
      split_ifs <;> omega
    rw [hcalendar]
    rfl

/-- The days up to a date, counted from January and from March: the months before March
have 59 days, and a leap day comes before March. -/
theorem march_date {marchYear dayOfYear year month day : ℕ} (hpos : 0 < marchYear)
    (hle : dayOfYear ≤ 365) (hleap : dayOfYear = 365 → IsLeap (marchYear + 1))
    (hyear : calendarYear marchYear (shiftedMonth dayOfYear) = year)
    (hmonth : calendarMonth (shiftedMonth dayOfYear) = month) (hday : dayOfMonth dayOfYear = day) :
    1 ≤ month ∧ month ≤ 12 ∧ 1 ≤ day ∧ day ≤ daysInMonth year month ∧
      365 * year + leapYears (year - 1) + daysOfMonths year (month - 1) + (day - 1) =
        365 * marchYear + leapYears marchYear + 59 + dayOfYear := by
  have hstep := leapYears_succ (marchYear - 1)
  rw [Nat.sub_add_cancel hpos] at hstep
  have hbound : shiftedMonth dayOfYear ≤ 11 := by
    unfold shiftedMonth
    omega
  unfold dayOfMonth at hday
  generalize hshifted : shiftedMonth dayOfYear = shifted at hyear hmonth hday hbound
  unfold shiftedMonth at hshifted
  subst hyear hmonth hday
  -- In the last month the day is the leap day only in a leap year.
  have hlast : shifted = 11 → dayOfYear - 337 + 1 ≤ if IsLeap (marchYear + 1) then 29 else 28 := by
    intro _
    split_ifs with h
    · omega
    · have : dayOfYear ≠ 365 := fun h365 => h (hleap h365)
      omega
  interval_cases shifted <;>
    simp only [calendarYear, calendarMonth, daysInMonth, daysOfMonths, Nat.reduceLT, if_true, if_false,
      Nat.reduceAdd, Nat.reduceSub, Nat.reduceMul, Nat.reduceDiv, Nat.add_sub_cancel] <;>
    first | omega | (split_ifs at hstep ⊢ <;> omega)

theorem civilFromDays_spec {days : ℕ} (hdays : days < 2 ^ 63) :
    ∃ year month day, civilFromDays days = some (year, month, day) ∧ ValidDate year month day ∧
      daysSinceEpoch year month day = days := by
  generalize hera : (days + 719468) / 146097 = era
  generalize hdayOfEra : (days + 719468) % 146097 = dayOfEra
  generalize hyear : correctedDay dayOfEra / 365 = year
  have hlt : dayOfEra < 146097 := by omega
  obtain ⟨hyearLt, hstart, hend⟩ := year_of_correctedDay hlt hyear
  obtain ⟨dayOfYear, hday⟩ := Nat.exists_eq_add_of_le hstart
  have hlength : dayOfYear ≤ 365 := by
    unfold eraYearStart at hday hend
    omega
  have hleap : dayOfYear = 365 → IsLeap (year + 400 * era + 1) := by
    intro hlast
    have hfour : (year + 1) / 4 = year / 4 + 1 ∧ (year + 1) / 100 = year / 100 ∨ year = 399 := by
      unfold eraYearStart at hday hend
      omega
    unfold IsLeap
    omega
  have hsplit : days + 719468 = 146097 * era + dayOfEra := by omega
  -- The same count, in years that begin in March.
  have hcount : 365 * (year + 400 * era) + leapYears (year + 400 * era) + dayOfYear =
      days + 719468 := by
    have h4 : (year + 400 * era) / 4 = year / 4 + 100 * era := by omega
    have h100 : (year + 400 * era) / 100 = year / 100 + 4 * era := by omega
    have h400 : (year + 400 * era) / 400 = era := by omega
    have hcentury : year / 100 ≤ year / 4 := by omega
    unfold eraYearStart at hday
    rw [leapYears, h4, h100, h400]
    omega
  have hpos : 1969 ≤ year + 400 * era := by
    unfold leapYears at hcount
    omega
  obtain ⟨hmonth, hmonthLe, hdayPos, hdayLe, hdate⟩ :=
    march_date (by omega) hlength hleap rfl rfl rfl
  have hepoch : 1970 ≤ calendarYear (year + 400 * era) (shiftedMonth dayOfYear) := by
    unfold leapYears at hcount
    unfold calendarYear shiftedMonth
    split_ifs <;> omega
  refine ⟨_, _, _, civilFromDays_eq hdays hsplit hlt hyear hyearLt hday hlength,
    ⟨hepoch, hmonth, hmonthLe, hdayPos, hdayLe⟩, ?_⟩
  have hyears := daysOfYears_eq (calendarYear (year + 400 * era) (shiftedMonth dayOfYear) - 1970)
  have h1969 : leapYears 1969 = 477 := rfl
  rw [show 1969 + (calendarYear (year + 400 * era) (shiftedMonth dayOfYear) - 1970) =
    calendarYear (year + 400 * era) (shiftedMonth dayOfYear) - 1 by omega] at hyears
  unfold daysSinceEpoch
  omega

theorem daysOfYears_mono {m n : ℕ} (h : m ≤ n) : daysOfYears m ≤ daysOfYears n := by
  induction n, h using Nat.le_induction with
  | base => exact le_rfl
  | succ n _ ih => exact ih.trans (Nat.le_add_right _ _)

theorem daysOfMonths_mono {year m n : ℕ} (h : m ≤ n) : daysOfMonths year m ≤ daysOfMonths year n := by
  induction n, h using Nat.le_induction with
  | base => exact le_rfl
  | succ n _ ih => exact ih.trans (Nat.le_add_right _ _)

theorem daysOfMonths_year (year : ℕ) : daysOfMonths year 12 = daysInYear year := by
  simp only [daysOfMonths, daysInMonth, daysInYear, Nat.reduceAdd]
  split_ifs <;> rfl

variable {year month day year' month' day' : ℕ}

/-- A valid date lies before the end of its month. -/
theorem daysSinceEpoch_lt_month (h : ValidDate year month day) :
    daysSinceEpoch year month day < daysOfYears (year - 1970) + daysOfMonths year month := by
  have hmonths : daysOfMonths year month =
      daysOfMonths year (month - 1) + daysInMonth year month := by
    obtain ⟨n, rfl⟩ : ∃ n, month = n + 1 := ⟨month - 1, by have := h.month_pos; omega⟩
    rfl
  have := h.day_pos
  have := h.day_le
  unfold daysSinceEpoch
  omega

theorem daysSinceEpoch_lt_year (h : ValidDate year month day) :
    daysSinceEpoch year month day < daysOfYears (year - 1970 + 1) := by
  have hmonth := daysSinceEpoch_lt_month h
  have hmonths : daysOfMonths year month ≤ daysOfMonths year 12 := daysOfMonths_mono h.month_le
  rw [daysOfMonths_year] at hmonths
  have hnot := h.not_before
  rw [daysOfYears, show 1970 + (year - 1970) = year by omega]
  omega

/-- Of two dates, the one with fewer days is the earlier by year, month and day. -/
theorem lex_of_daysSinceEpoch_lt (h : ValidDate year month day) (h' : ValidDate year' month' day')
    (hlt : daysSinceEpoch year month day < daysSinceEpoch year' month' day') :
    year < year' ∨ year = year' ∧ (month < month' ∨ month = month' ∧ day < day') := by
  rcases Nat.lt_trichotomy year year' with hyear | rfl | hyear
  · exact .inl hyear
  · refine .inr ⟨rfl, ?_⟩
    rcases Nat.lt_trichotomy month month' with hmonth | rfl | hmonth
    · exact .inl hmonth
    · refine .inr ⟨rfl, ?_⟩
      have := h.day_pos
      unfold daysSinceEpoch at hlt
      omega
    · have hend := daysSinceEpoch_lt_month h'
      have hmonths : daysOfMonths year month' ≤ daysOfMonths year (month - 1) :=
        daysOfMonths_mono (by omega)
      unfold daysSinceEpoch at hlt hend
      omega
  · have hend := daysSinceEpoch_lt_year h'
    have hnot := h'.not_before
    have := daysOfYears_mono (show year' - 1970 + 1 ≤ year - 1970 by omega)
    unfold daysSinceEpoch at hlt hend
    omega

theorem append_lt_append {x y a b : Bytes} (hlen : x.length = y.length)
    (h : x < y ∨ x = y ∧ a < b) : x ++ a < y ++ b := by
  induction x generalizing y with
  | nil =>
    cases List.length_eq_zero_iff.mp hlen.symm
    exact h.elim (fun hlt => absurd hlt (List.not_lt_nil _)) And.right
  | cons c x ih =>
    cases y with
    | nil => cases hlen
    | cons d y =>
      simp only [List.cons_lt_cons_iff, List.cons.injEq, List.cons_append] at h ⊢
      rcases h with (hlt | ⟨rfl, hlt⟩) | ⟨⟨rfl, rfl⟩, hlt⟩
      · exact .inl hlt
      · exact .inr ⟨rfl, ih (Nat.succ.inj hlen) (.inl hlt)⟩
      · exact .inr ⟨rfl, ih rfl (.inr ⟨rfl, hlt⟩)⟩

theorem decimal_succ (width n : ℕ) :
    decimal (width + 1) n = decimal width (n / 10) ++ [UInt8.ofNat (48 + n % 10)] := by
  rcases Nat.eq_zero_or_pos n with rfl | hpos
  · simp [decimal, List.replicate_succ']
  · simp [decimal, Nat.digits_def' (show 1 < 10 by decide) hpos]

theorem length_decimal {width n : ℕ} (h : n < 10 ^ width) : (decimal width n).length = width := by
  induction width generalizing n with
  | zero =>
    rw [Nat.pow_zero, Nat.lt_one_iff] at h
    simp [decimal, h]
  | succ width ih =>
    have hrest : n / 10 < 10 ^ width := by
      rw [Nat.pow_succ] at h
      omega
    rw [decimal_succ, List.length_append, ih hrest, List.length_singleton]

theorem decimal_lt {width m n : ℕ} (hlt : m < n) (hn : n < 10 ^ width) :
    decimal width m < decimal width n := by
  induction width generalizing m n with
  | zero =>
    rw [Nat.pow_zero] at hn
    omega
  | succ width ih =>
    rw [Nat.pow_succ] at hn
    have hrest : n / 10 < 10 ^ width := by omega
    have hrest' : m / 10 < 10 ^ width := by omega
    rw [decimal_succ, decimal_succ]
    refine append_lt_append (by rw [length_decimal hrest, length_decimal hrest']) ?_
    rcases Nat.lt_or_ge (m / 10) (n / 10) with hhigh | hhigh
    · exact .inl (ih hhigh hrest)
    · have hsame : m / 10 = n / 10 := by omega
      refine .inr ⟨by rw [hsame], List.cons_lt_cons_iff.mpr (.inl ?_)⟩
      rw [UInt8.lt_iff_toNat_lt, UInt8.toNat_ofNat', UInt8.toNat_ofNat']
      omega

theorem decimal_append_lt {width m n : ℕ} {a b : Bytes} (hm : m < 10 ^ width) (hn : n < 10 ^ width)
    (h : m < n ∨ m = n ∧ a < b) : decimal width m ++ a < decimal width n ++ b := by
  refine append_lt_append (by rw [length_decimal hm, length_decimal hn]) ?_
  exact h.imp (fun hlt => decimal_lt hlt hn) fun ⟨heq, hlt⟩ => ⟨by rw [heq], hlt⟩

theorem daysInMonth_le (year month : ℕ) : daysInMonth year month ≤ 31 := by
  unfold daysInMonth
  split <;> first | omega | (split_ifs <;> omega)

theorem stamp_lt {second second' : ℕ} (hsecond : second < 86400) (hsecond' : second' < 86400)
    (h : ValidDate year month day) (h' : ValidDate year' month' day') (hyear : year' ≤ 9999)
    (hlt : (year < year' ∨ year = year' ∧ (month < month' ∨ month = month' ∧ day < day')) ∨
      (year = year' ∧ month = month' ∧ day = day' ∧ second < second')) :
    decimal 4 year ++ decimal 2 month ++ decimal 2 day ++ [84] ++ decimal 2 (second / 3600) ++
        decimal 2 (second % 3600 / 60) ++ decimal 2 (second % 60) ++ [90] <
      decimal 4 year' ++ decimal 2 month' ++ decimal 2 day' ++ [84] ++ decimal 2 (second' / 3600) ++
        decimal 2 (second' % 3600 / 60) ++ decimal 2 (second' % 60) ++ [90] := by
  have hday := h.day_le.trans (daysInMonth_le year month)
  have hday' := h'.day_le.trans (daysInMonth_le year' month')
  have hmonth := h.month_le
  have hmonth' := h'.month_le
  have htime : second < second' → decimal 2 (second / 3600) ++ (decimal 2 (second % 3600 / 60) ++
        (decimal 2 (second % 60) ++ [90])) <
      decimal 2 (second' / 3600) ++ (decimal 2 (second' % 3600 / 60) ++
        (decimal 2 (second' % 60) ++ [90])) := by
    intro hlt
    apply decimal_append_lt (by omega) (by omega)
    rcases Nat.lt_or_ge (second / 3600) (second' / 3600) with hhour | hhour
    · exact .inl hhour
    refine .inr ⟨by omega, decimal_append_lt (by omega) (by omega) ?_⟩
    rcases Nat.lt_or_ge (second % 3600 / 60) (second' % 3600 / 60) with hminute | hminute
    · exact .inl hminute
    exact .inr ⟨by omega, decimal_append_lt (by omega) (by omega) (.inl (by omega))⟩
  simp only [List.append_assoc]
  apply decimal_append_lt (by omega) (by omega)
  rcases hlt with (hlt | ⟨rfl, hlt⟩) | ⟨rfl, rfl, rfl, hlt⟩
  · exact .inl hlt
  · refine .inr ⟨rfl, decimal_append_lt (by omega) (by omega) ?_⟩
    rcases hlt with hlt | ⟨rfl, hlt⟩
    · exact .inl hlt
    · exact .inr ⟨rfl, decimal_append_lt (by omega) (by omega) (.inl hlt)⟩
  · refine .inr ⟨rfl, decimal_append_lt (by omega) (by omega) (.inr ⟨rfl, ?_⟩)⟩
    refine decimal_append_lt (by omega) (by omega) (.inr ⟨rfl, ?_⟩)
    exact append_lt_append rfl (.inr ⟨rfl, htime hlt⟩)

/-- The date of every 64-bit number of seconds is valid and right, and up to the year 9999 the
text grows with the seconds. -/
theorem utcStamp_correct {seconds : ℕ} (hseconds : seconds < 2 ^ 64) :
    (∃ year month day, civilFromDays (seconds / 86400) = some (year, month, day) ∧
      ValidDate year month day ∧ daysSinceEpoch year month day = seconds / 86400) ∧
    ∀ later < 2 ^ 64, seconds < later →
      (∀ date, civilFromDays (later / 86400) = some date → date.1 ≤ 9999) →
      ∃ stamp stamp', utcStamp seconds = some stamp ∧ utcStamp later = some stamp' ∧
        stamp < stamp' := by
  obtain ⟨year, month, day, hcivil, hvalid, hdays⟩ :=
    civilFromDays_spec (show seconds / 86400 < 2 ^ 63 by omega)
  refine ⟨⟨year, month, day, hcivil, hvalid, hdays⟩, fun later hlater hlt hyear => ?_⟩
  obtain ⟨year', month', day', hcivil', hvalid', hdays'⟩ :=
    civilFromDays_spec (show later / 86400 < 2 ^ 63 by omega)
  refine ⟨_, _, then_some hcivil rfl, then_some hcivil' rfl,
    stamp_lt (Nat.mod_lt _ (by decide)) (Nat.mod_lt _ (by decide)) hvalid hvalid' (hyear _ hcivil') ?_⟩
  rcases Nat.lt_or_ge (seconds / 86400) (later / 86400) with hday | hday
  · rw [← hdays, ← hdays'] at hday
    exact .inl (lex_of_daysSinceEpoch_lt hvalid hvalid' hday)
  · have hsame : seconds / 86400 = later / 86400 := by omega
    rw [hsame, hcivil'] at hcivil
    cases hcivil
    exact .inr ⟨rfl, rfl, rfl, by omega⟩

theorem utcStamp_correct_leapDay :
    civilFromDays (951782400 / 86400) = some (2000, 2, 29) ∧
      ∃ stamp stamp', utcStamp 951782399 = some stamp ∧ utcStamp 951782400 = some stamp' ∧
        stamp < stamp' := by
  have hdate : civilFromDays (951782400 / 86400) = some (2000, 2, 29) := by decide
  refine ⟨hdate, (utcStamp_correct (show 951782399 < 2 ^ 64 by decide)).2 951782400 (by decide)
    (by decide) fun date h => ?_⟩
  cases hdate.symm.trans h
  decide

end SoftwareAuthenticator.Store
