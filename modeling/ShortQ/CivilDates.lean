import Mathlib.Data.Int.ConditionallyCompleteOrder
import Mathlib.Tactic.IntervalCases
import ShortQ.GoTime

/-! # Days and dates of the proleptic Gregorian calendar

A count of days and a valid date determine each other from year 0 on. -/
namespace CivilDates

open GoText (Str lit)
open GoTime

structure ValidDate (year month d : ℕ) : Prop where
  month_pos : 1 ≤ month
  month_le : month ≤ 12
  day_pos : 1 ≤ d
  day_le : d ≤ daysIn month year

theorem leap_iff {year : ℕ} :
    leap year = true ↔ year % 4 = 0 ∧ (year % 100 ≠ 0 ∨ year % 400 = 0) := by
  simp [leap]

theorem daysBeforeMonth_eq {month : ℕ} (year : ℕ) (h : 1 ≤ month) (h' : month ≤ 12) :
    (daysBeforeMonth month year : ℤ) =
      if month = 1 then 0 else if month = 2 then 31
      else (153 * (month - 3) + 2) / 5 + 59 + (if leap year then 1 else 0) := by
  interval_cases month <;> cases hleap : leap year <;>
    simp [daysBeforeMonth, daysIn, List.range_succ, hleap]

/-! ## Days to dates -/

/-- The year within an era of 400 years that begin in March. -/
def yearOfEra (doe : ℤ) : ℤ := (doe - doe / 1460 + doe / 36524 - doe / 146096) / 365

def dayOfYear (doe : ℤ) : ℤ :=
  doe - (365 * yearOfEra doe + yearOfEra doe / 4 - yearOfEra doe / 100)

/-- The month of a day of the year, counted from March. -/
def marchMonth (doy : ℤ) : ℤ := (5 * doy + 2) / 153

def monthOf (mp : ℤ) : ℤ := if mp < 10 then mp + 3 else mp - 9

theorem civil_eq (days : ℤ) :
    let doe := (days + 719468) % 146097
    let mp := marchMonth (dayOfYear doe)
    civil days = (yearOfEra doe + (days + 719468) / 146097 * 400 +
      (if monthOf mp ≤ 2 then 1 else 0), monthOf mp, dayOfYear doe - (153 * mp + 2) / 5 + 1) := rfl

section Era

variable {doe : ℤ} (h₀ : 0 ≤ doe) (h₁ : doe ≤ 146096)

include h₀ h₁

theorem yearOfEra_bounds : 0 ≤ yearOfEra doe ∧ yearOfEra doe ≤ 399 := by
  unfold yearOfEra
  constructor
  · omega
  · omega

theorem dayOfYear_bounds : 0 ≤ dayOfYear doe ∧ dayOfYear doe ≤ 365 := by
  obtain ⟨hy₀, hy₁⟩ := yearOfEra_bounds h₀ h₁
  unfold dayOfYear
  generalize hy : yearOfEra doe = y at *
  unfold yearOfEra at hy
  have hcentury : 25 * (y / 100) ≤ y / 4 := by omega
  have hquarter : y / 4 ≤ 99 := by omega
  have hlow : 365 * y ≤ doe - doe / 1460 + doe / 36524 - doe / 146096 := by omega
  have hhigh : doe - doe / 1460 + doe / 36524 - doe / 146096 ≤ 365 * y + 364 := by omega
  clear hy
  constructor
  · by_contra hneg
    have hfour : doe / 1460 ≤ y / 4 := by omega
    have hhundred : doe / 36524 ≤ y / 100 := by omega
    omega
  · by_contra hlong
    have hfour : y / 4 ≤ doe / 1460 := by omega
    have hhundred : y / 100 ≤ doe / 36524 := by omega
    omega

/-- Only a leap year has a day 365, the last of February. -/
theorem leap_of_dayOfYear (h : dayOfYear doe = 365) :
    (yearOfEra doe + 1) % 4 = 0 ∧ ((yearOfEra doe + 1) % 100 ≠ 0 ∨ yearOfEra doe = 399) := by
  obtain ⟨hy₀, hy₁⟩ := yearOfEra_bounds h₀ h₁
  unfold dayOfYear at h
  generalize hy : yearOfEra doe = y at *
  unfold yearOfEra at hy
  by_contra hno
  have hcase : (y + 1) % 4 ≠ 0 ∨ (y + 1) % 100 = 0 ∧ y ≠ 399 := by omega
  rcases hcase with hr | ⟨hs, hne⟩
  · have hr' : y % 4 ≤ 2 := by omega
    have hs' : y % 100 ≤ 98 := by omega
    have hquarter : doe / 1460 = y / 4 := by
      clear hy hno hr
      omega
    have hcentury : doe / 36524 = y / 100 := by
      clear hy hno hr
      omega
    have hera : doe / 146096 = 0 := by
      clear hy hno hr
      omega
    omega
  · have hs' : y % 100 = 99 := by omega
    have hquarter : doe / 1460 = y / 4 + 1 := by
      clear hy hno hs
      omega
    have hcentury : doe / 36524 = y / 100 + 1 := by
      clear hy hno hs
      omega
    have hera : doe / 146096 = 0 := by
      clear hy hno hs
      omega
    omega

end Era

/-- The day of a date, with its months counted from March as `mp` is. -/
theorem daysFromEpoch_march {y m n : ℕ} {mp : ℤ} (hm : 1 ≤ m) (hm' : m ≤ 12)
    (hmp : mp = if m ≤ 2 then (m : ℤ) + 9 else m - 3) :
    daysFromEpoch y m n = (if m ≤ 2 then (y : ℤ) - 1 else y) * 365 +
      (if m ≤ 2 then (y : ℤ) - 1 else y) / 4 - (if m ≤ 2 then (y : ℤ) - 1 else y) / 100 +
        (if m ≤ 2 then (y : ℤ) - 1 else y) / 400 + (153 * mp + 2) / 5 + n - 719469 := by
  unfold daysFromEpoch
  rw [daysBeforeMonth_eq y hm hm']
  have hleap := @leap_iff y
  by_cases hearly : m ≤ 2
  · simp only [hearly, if_true] at hmp ⊢
    have hcases : m = 1 ∨ m = 2 := by omega
    rcases hcases with rfl | rfl
    · rw [if_pos rfl]
      omega
    · rw [if_neg (by decide), if_pos rfl]
      omega
  · simp only [hearly, if_false] at hmp ⊢
    rw [if_neg (by omega), if_neg (by omega)]
    by_cases hl : leap y = true
    · rw [if_pos hl]
      have := hleap.mp hl
      omega
    · rw [if_neg hl]
      have : ¬ (y % 4 = 0 ∧ (y % 100 ≠ 0 ∨ y % 400 = 0)) := fun h => hl (hleap.mpr h)
      omega

/-- The last day of each month as it is counted from March. -/
theorem day_le_daysIn {y m : ℕ} {mp doy : ℤ} (hm : 1 ≤ m) (hm' : m ≤ 12)
    (hmp : mp = if m ≤ 2 then (m : ℤ) + 9 else m - 3) (hmonth : mp = (5 * doy + 2) / 153)
    (hdoy : doy ≤ 365) (hlast : doy = 365 → leap y = true) :
    doy - (153 * mp + 2) / 5 + 1 ≤ daysIn m y := by
  interval_cases m
  case «2» =>
    have hbound : doy ≤ 364 ∨ leap y = true := by
      by_cases h : doy = 365
      · exact Or.inr (hlast h)
      · exact Or.inl (by omega)
    have hmp' : mp = 11 := by simpa using hmp
    unfold daysIn
    rw [if_pos rfl]
    split
    · push_cast
      omega
    · rename_i hleap
      have := hbound.resolve_right hleap
      push_cast
      omega
  all_goals
    norm_num at hmp
    norm_num [daysIn]
    omega

/-- From year 0 on the date of a day is valid and denotes that day. -/
theorem civil_spec {days year month d : ℤ} (h : civil days = (year, month, d)) (hyear : 0 ≤ year) :
    ∃ y m n : ℕ, year = y ∧ month = m ∧ d = n ∧ ValidDate y m n ∧ daysFromEpoch y m n = days := by
  have h₀ : 0 ≤ (days + 719468) % 146097 := by omega
  have h₁ : (days + 719468) % 146097 ≤ 146096 := by omega
  obtain ⟨hy₀, hy₁⟩ := yearOfEra_bounds h₀ h₁
  obtain ⟨hd₀, hd₁⟩ := dayOfYear_bounds h₀ h₁
  have hlast := leap_of_dayOfYear h₀ h₁
  have hdoe := Int.mul_ediv_add_emod (days + 719468) 146097
  have hdoy : dayOfYear ((days + 719468) % 146097) = (days + 719468) % 146097 -
      (365 * yearOfEra ((days + 719468) % 146097) + yearOfEra ((days + 719468) % 146097) / 4 -
        yearOfEra ((days + 719468) % 146097) / 100) := rfl
  have hcivil := (civil_eq days).symm.trans h
  simp only [Prod.mk.injEq] at hcivil
  generalize yearOfEra ((days + 719468) % 146097) = yoe at *
  generalize dayOfYear ((days + 719468) % 146097) = doy at *
  generalize hmp : marchMonth doy = mp at *
  generalize (days + 719468) % 146097 = doe at *
  generalize (days + 719468) / 146097 = era at *
  obtain ⟨hyr, hmonth, hd⟩ := hcivil
  have hmp₀ : 0 ≤ mp ∧ mp ≤ 11 := by
    unfold marchMonth at hmp
    omega
  have hm : 1 ≤ month ∧ month ≤ 12 := by
    unfold monthOf at hmonth
    split at hmonth <;> omega
  obtain ⟨y, rfl⟩ := Int.eq_ofNat_of_zero_le hyear
  obtain ⟨m, rfl⟩ := Int.eq_ofNat_of_zero_le (show 0 ≤ month by omega)
  have hmpm : mp = if m ≤ 2 then (m : ℤ) + 9 else m - 3 := by
    unfold monthOf at hmonth
    split at hmonth <;> split <;> omega
  have hd₂ : 1 ≤ d := by
    unfold marchMonth at hmp
    omega
  obtain ⟨n, rfl⟩ := Int.eq_ofNat_of_zero_le (show 0 ≤ d by omega)
  have hleap : doy = 365 → leap y = true := by
    intro hlastday
    obtain ⟨hfour, hcentury⟩ := hlast hlastday
    have hearly : monthOf mp ≤ 2 := by
      unfold marchMonth at hmp
      unfold monthOf
      split <;> omega
    rw [if_pos hearly] at hyr
    rw [leap_iff]
    clear hdoe hdoy hlast hmpm hmonth hd hmp
    omega
  have hm₁ : 1 ≤ m := by omega
  have hm₂ : m ≤ 12 := by omega
  have hday := day_le_daysIn hm₁ hm₂ hmpm hmp.symm hd₁ hleap
  refine ⟨y, m, n, rfl, rfl, rfl, ⟨hm₁, hm₂, by omega, by omega⟩, ?_⟩
  have hbase : (if m ≤ 2 then (y : ℤ) - 1 else y) = yoe + era * 400 := by
    rw [hmonth] at hyr
    by_cases hearly : m ≤ 2
    · rw [if_pos (by omega)] at hyr
      rw [if_pos hearly]
      omega
    · rw [if_neg (by omega)] at hyr
      rw [if_neg hearly]
      omega
  have hfour : (yoe + era * 400) / 4 = yoe / 4 + 100 * era := by omega
  have hhundred : (yoe + era * 400) / 100 = yoe / 100 + 4 * era := by omega
  have hera : (yoe + era * 400) / 400 = era := by omega
  rw [daysFromEpoch_march hm₁ hm₂ hmpm, hbase, hfour, hhundred, hera]
  clear hmpm hyr hbase hmonth hlast hleap hfour hhundred hera hmp
  omega

/-! ## Dates to days -/

/-- The days before a year that begins in March. -/
def marchStart (year : ℤ) : ℤ := year * 365 + year / 4 - year / 100 + year / 400

def marchYear (y m : ℕ) : ℤ := if m ≤ 2 then (y : ℤ) - 1 else y

def fromMarch (m : ℕ) : ℤ := if m ≤ 2 then (m : ℤ) + 9 else m - 3

theorem marchStart_mono : Monotone marchStart := by
  refine monotone_int_of_le_succ fun year => ?_
  unfold marchStart
  omega

section Valid

variable {y m n : ℕ} (h : ValidDate y m n)

include h

theorem ValidDate.days_eq : daysFromEpoch y m n =
    marchStart (marchYear y m) + (153 * fromMarch m + 2) / 5 + n - 719469 := by
  rw [daysFromEpoch_march h.month_pos h.month_le rfl]
  rfl

/-- The month a day counts to. -/
theorem ValidDate.in_month : fromMarch m ≤ 10 ∧
      (153 * fromMarch m + 2) / 5 + n ≤ (153 * (fromMarch m + 1) + 2) / 5 ∨
    fromMarch m = 11 ∧ m = 2 ∧ (n ≤ 28 ∨ n = 29 ∧ leap y = true) := by
  obtain ⟨hm₁, hm₂, hn₁, hn₂⟩ := h
  unfold fromMarch
  interval_cases m
  case «2» =>
    right
    simp only [daysIn, if_true] at hn₂
    split at hn₂
    · rename_i hleap
      refine ⟨rfl, rfl, ?_⟩
      have hcase : n ≤ 28 ∨ n = 29 := by omega
      exact hcase.imp_right fun hn => ⟨hn, hleap⟩
    · exact ⟨rfl, rfl, Or.inl hn₂⟩
  all_goals
    left
    norm_num [daysIn] at hn₂ ⊢
    omega

theorem ValidDate.in_year :
    marchStart (marchYear y m) + (153 * fromMarch m + 2) / 5 + n ≤
      marchStart (marchYear y m + 1) := by
  rcases h.in_month with ⟨hmonth, hday⟩ | ⟨hmonth, rfl, hday⟩
  · unfold marchStart
    omega
  · have hyear : marchYear y 2 = (y : ℤ) - 1 := rfl
    rw [hmonth, hyear]
    unfold marchStart
    rcases hday with hn | ⟨rfl, hleap⟩
    · omega
    · have := leap_iff.mp hleap
      omega

end Valid

theorem fromMarch_nonneg {m : ℕ} (h : 1 ≤ m) : 0 ≤ fromMarch m := by
  unfold fromMarch
  split <;> omega

/-- A later March year has later days. -/
theorem days_lt {y m n y' m' n' : ℕ} (h : ValidDate y m n) (h' : ValidDate y' m' n')
    (hyear : marchYear y m < marchYear y' m') : daysFromEpoch y m n < daysFromEpoch y' m' n' := by
  rw [h.days_eq, h'.days_eq]
  have hle := h.in_year
  have hstart : marchStart (marchYear y m + 1) ≤ marchStart (marchYear y' m') :=
    marchStart_mono hyear
  have hmonth := fromMarch_nonneg h'.month_pos
  have hday := h'.day_pos
  omega

theorem daysFromEpoch_inj {y m n y' m' n' : ℕ} (h : ValidDate y m n) (h' : ValidDate y' m' n')
    (heq : daysFromEpoch y m n = daysFromEpoch y' m' n') : y = y' ∧ m = m' ∧ n = n' := by
  have hyear : marchYear y m = marchYear y' m' := by
    rcases lt_trichotomy (marchYear y m) (marchYear y' m') with hlt | hsame | hlt
    · exact absurd heq (days_lt h h' hlt).ne
    · exact hsame
    · exact absurd heq (days_lt h' h hlt).ne'
  rw [h.days_eq, h'.days_eq, hyear] at heq
  have hn := h.day_pos
  have hn' := h'.day_pos
  have hm₁ := h.month_pos
  have hm₂ := h.month_le
  have hm₁' := h'.month_pos
  have hm₂' := h'.month_le
  have hmonth : fromMarch m = fromMarch m' := by
    rcases h.in_month with ⟨hmonth, hday⟩ | ⟨hmonth, -, hday⟩ <;>
      rcases h'.in_month with ⟨hmonth', hday'⟩ | ⟨hmonth', -, hday'⟩ <;> omega
  have hm : m = m' := by
    unfold fromMarch at hmonth
    split at hmonth <;> split at hmonth <;> omega
  subst hm
  unfold marchYear at hyear
  refine ⟨?_, rfl, by omega⟩
  split at hyear <;> omega

/-- Days from the start of year 0 are dates of year 0 and later. -/
theorem civil_year_nonneg {days year month d : ℤ} (h : civil days = (year, month, d))
    (hdays : -719528 ≤ days) : 0 ≤ year := by
  have h₀ : 0 ≤ (days + 719468) % 146097 := by omega
  have h₁ : (days + 719468) % 146097 ≤ 146096 := by omega
  obtain ⟨hy₀, hy₁⟩ := yearOfEra_bounds h₀ h₁
  obtain ⟨hd₀, hd₁⟩ := dayOfYear_bounds h₀ h₁
  have hdoy : dayOfYear ((days + 719468) % 146097) = (days + 719468) % 146097 -
      (365 * yearOfEra ((days + 719468) % 146097) + yearOfEra ((days + 719468) % 146097) / 4 -
        yearOfEra ((days + 719468) % 146097) / 100) := rfl
  have hdoe := Int.mul_ediv_add_emod (days + 719468) 146097
  have hcivil := (civil_eq days).symm.trans h
  simp only [Prod.mk.injEq] at hcivil
  obtain ⟨hyear, -, -⟩ := hcivil
  generalize yearOfEra ((days + 719468) % 146097) = yoe at *
  generalize dayOfYear ((days + 719468) % 146097) = doy at *
  by_cases hera : 0 ≤ (days + 719468) / 146097
  · split at hyear <;> omega
  · have hlate : yoe = 399 ∧ 306 ≤ doy := by omega
    have hearly : monthOf (marchMonth doy) ≤ 2 := by
      unfold marchMonth monthOf
      split <;> omega
    rw [if_pos hearly] at hyear
    omega

theorem daysFromEpoch_ge {y m n : ℕ} (h : ValidDate y m n) : -719528 ≤ daysFromEpoch y m n := by
  rw [h.days_eq]
  have hday := h.day_pos
  have hmonth := fromMarch_nonneg h.month_pos
  by_cases hyear : 0 ≤ marchYear y m
  · have hstart : marchStart 0 ≤ marchStart (marchYear y m) := marchStart_mono hyear
    have hzero : marchStart 0 = 0 := rfl
    omega
  · have hearly : m ≤ 2 ∧ marchYear y m = -1 := by
      unfold marchYear at hyear ⊢
      split at hyear
      · omega
      · omega
    have hfrom : 10 ≤ fromMarch m := by
      have := h.month_pos
      unfold fromMarch
      split <;> omega
    have hstart : marchStart (-1) = -366 := rfl
    rw [hearly.2, hstart]
    omega

/-- A valid date is the date of its day. -/
theorem civil_daysFromEpoch {y m n : ℕ} (h : ValidDate y m n) :
    civil (daysFromEpoch y m n) = ((y : ℤ), (m : ℤ), (n : ℤ)) := by
  cases hcivil : civil (daysFromEpoch y m n) with
  | mk year rest =>
    obtain ⟨month, d⟩ := rest
    have hyear := civil_year_nonneg hcivil (daysFromEpoch_ge h)
    obtain ⟨y', m', n', rfl, rfl, rfl, hvalid, hdays⟩ := civil_spec hcivil hyear
    obtain ⟨rfl, rfl, rfl⟩ := daysFromEpoch_inj hvalid h hdays
    rfl

end CivilDates
