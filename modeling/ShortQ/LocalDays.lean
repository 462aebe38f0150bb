import Mathlib.Data.List.Induction
import ShortQ.CivilDates
import ShortQ.DecimalText
import ShortQ.Runes

/-! # Local days of a time zone

The wall clock of a location, the dates that Go prints and parses, and `time.Date`, which
answers a local time that does not exist with one of the two offsets around it. -/
namespace LocalDays

open GoText (Str lit isDigit)
open GoTime (Time civil daysFromEpoch digits fixed expect daysIn)
open CivilDates
open DecimalText

/-- A `time.Location`. Instants and local times are counted in seconds from 1970-01-01; the
offset holds at an instant, changes only from one second to the next and stays below a day. A
zone that crosses the date line may change by a whole day. -/
structure Location where
  name : Str
  offset : ℤ → ℤ
  /-- `time.Date` of a local time. -/
  Date : ℤ → ℤ
  bounded : ∀ t, |offset t| < 86400
  existing : ∀ t, Date (t + offset t) + offset (Date (t + offset t)) = t + offset t
  missing : ∀ l, (∀ t, t + offset t ≠ l) → ∃ t, t + 1 + offset t ≤ l ∧
    l < t + 1 + offset (t + 1) ∧ (Date l = l - offset t ∨ Date l = l - offset (t + 1))

variable (loc : Location)

/-- The wall clock at an instant. -/
def Location.clock (t : ℤ) : ℤ := t + loc.offset t

/-- The local date of an instant, as a count of days. -/
def Location.dayOf (t : ℤ) : ℤ := loc.clock t / 86400

def Location.midnight (day : ℤ) : ℤ := loc.Date (day * 86400)

/-- `AddDate(0, 0, days)`. -/
def Location.AddDate (t days : ℤ) : ℤ := loc.Date (loc.clock t + days * 86400)

def unixSecond (t : Time) : ℤ := t.nanos / GoTime.second

/-- `Format("2006-01-02")` of a local date. -/
def formatDate (day : ℤ) : Str :=
  let (year, month, d) := civil day
  (if year < 0 then 45 :: digits 4 (-year) else digits 4 year) ++ lit "-" ++ digits 2 month ++
    lit "-" ++ digits 2 d

/-- `ParseInLocation("2006-01-02", s, loc)` up to its call of `time.Date`. -/
def parseDate (s : Str) : Option ℤ := do
  let (year, s) ← fixed 4 s
  let s ← expect 45 s
  let (month, s) ← fixed 2 s
  let s ← expect 45 s
  let (d, s) ← fixed 2 s
  if s.isEmpty && 1 ≤ month && month ≤ 12 && 1 ≤ d && d ≤ daysIn month year then
    some (daysFromEpoch year month d)
  else none

example : parseDate (lit "2024-02-29") = some 19782 := by decide

example : formatDate 19782 = lit "2024-02-29" := by decide

/-! ## A zone with one change

Around a single change of the offset `time.Date` looks up the offset at the local time as if it
were UTC, and once more when that leads across the change. -/

def changing (change before after : ℤ) (t : ℤ) : ℤ := if t < change then before else after

def lookupDate (change before after l : ℤ) : ℤ :=
  let utc := l - changing change before after l
  if utc < change ↔ l < change then utc else l - changing change before after utc

/-- The offset changes once; a zone without a change has the same one twice. -/
def oneChange (name : Str) (change before after : ℤ) (h : |before| < 86400 ∧ |after| < 86400) :
    Location where
  name := name
  offset := changing change before after
  Date := lookupDate change before after
  bounded t := by
    unfold changing
    split
    · exact h.1
    · exact h.2
  existing t := by
    unfold lookupDate changing
    dsimp only
    split_ifs <;> omega
  missing l hl := by
    have hearly : ¬ l - before < change :=
      fun h => hl (l - before) (by rw [changing, if_pos h]; omega)
    have hlate : l - after < change := by
      by_contra h
      exact hl (l - after) (by rw [changing, if_neg h]; omega)
    refine ⟨change - 1, ?_⟩
    unfold lookupDate changing
    dsimp only
    split_ifs <;> omega

/-! ## Dates in text -/

theorem expect_eq_some {b : UInt8} {s rest : Str} : expect b s = some rest ↔ s = b :: rest := by
  cases s with
  | nil => simp [expect]
  | cons a s =>
    rw [expect]
    split
    · rename_i h
      simp [h]
    · rename_i h
      simp [h]

theorem lit_hyphen : lit "-" = [45] := by decide

theorem formatDate_of_civil {day : ℤ} {y m n : ℕ}
    (h : civil day = ((y : ℤ), (m : ℤ), (n : ℤ))) :
    formatDate day = digits 4 (y : ℤ) ++
      (45 :: (digits 2 (m : ℤ) ++ (45 :: digits 2 (n : ℤ)))) := by
  simp only [formatDate, h, lit_hyphen]
  rw [if_neg (by omega)]
  simp

/-- What a parsed text says. -/
theorem parseDate_spec {s : Str} {day : ℤ} (h : parseDate s = some day) :
    ∃ y m n, y < 10000 ∧ ValidDate y m n ∧ daysFromEpoch y m n = day ∧
      s = digits 4 (y : ℤ) ++ (45 :: (digits 2 (m : ℤ) ++ (45 :: digits 2 (n : ℤ)))) := by
  simp only [parseDate, Option.bind_eq_bind, Option.bind_eq_some_iff] at h
  obtain ⟨⟨y, s₁⟩, hy, s₂, hs₂, ⟨m, s₃⟩, hm, s₄, hs₄, ⟨n, s₅⟩, hn, h⟩ := h
  split at h
  · rename_i hvalid
    simp only [Bool.and_eq_true, List.isEmpty_iff, decide_eq_true_eq] at hvalid
    obtain ⟨⟨⟨⟨hend, hm₁⟩, hm₂⟩, hn₁⟩, hn₂⟩ := hvalid
    dsimp only at hs₂ hs₄
    obtain ⟨hyear, hylt⟩ := fixed_eq_some (by decide) hy
    obtain ⟨hmonth, -⟩ := fixed_eq_some (by decide) hm
    obtain ⟨hdate, -⟩ := fixed_eq_some (by decide) hn
    refine ⟨y, m, n, hylt, ⟨hm₁, hm₂, hn₁, hn₂⟩, Option.some.inj h, ?_⟩
    rw [hyear, expect_eq_some.mp hs₂, hmonth, expect_eq_some.mp hs₄, hdate, hend, List.append_nil]
  · cases h

/-- A parsed date is printed as it was written. -/
theorem formatDate_of_parse {s : Str} {day : ℤ} (h : parseDate s = some day) :
    formatDate day = s := by
  obtain ⟨y, m, n, -, hvalid, rfl, rfl⟩ := parseDate_spec h
  exact formatDate_of_civil (civil_daysFromEpoch hvalid)

theorem daysIn_le (m y : ℕ) : daysIn m y ≤ 31 := by
  unfold daysIn
  split
  · split <;> omega
  · split <;> omega

/-- A printed date of at most four digits is read back. -/
theorem parseDate_format {day : ℤ} {y m n : ℕ} (h : civil day = ((y : ℤ), (m : ℤ), (n : ℤ)))
    (hy : y < 10000) (hvalid : ValidDate y m n) (hday : daysFromEpoch y m n = day) :
    parseDate (formatDate day) = some day := by
  have hm : m < 10 ^ 2 := lt_of_le_of_lt hvalid.month_le (by decide)
  have hn : n < 10 ^ 2 := lt_of_le_of_lt (hvalid.day_le.trans (daysIn_le m y)) (by decide)
  have hlast : fixed 2 (digits 2 (n : ℤ)) = some (n, []) := by
    have hfield := fixed_digits (by decide) hn []
    rwa [List.append_nil] at hfield
  rw [formatDate_of_civil h, parseDate]
  simp only [Option.bind_eq_bind, fixed_digits (k := 4) (by decide) hy, Option.bind_some, expect,
    if_true, fixed_digits (k := 2) (by decide) hm, hlast]
  rw [if_pos]
  · rw [hday]
  · simp [hvalid.month_pos, hvalid.month_le, hvalid.day_pos, hvalid.day_le]

/-- The days whose dates have a year of four digits. -/
def FourDigits (day : ℤ) : Prop := -719528 ≤ day ∧ day ≤ 2932896

theorem fourDigits_of_valid {y m n : ℕ} (h : ValidDate y m n) (hy : y < 10000) :
    FourDigits (daysFromEpoch y m n) := by
  refine ⟨daysFromEpoch_ge h, ?_⟩
  have hmarch : marchYear y m ≤ 9999 := by
    unfold marchYear
    split <;> omega
  rw [h.days_eq]
  have hyear := h.in_year
  by_cases hlast : marchYear y m = 9999
  · have hmonth : fromMarch m ≤ 9 ∧ marchStart 9999 = 3652059 := by
      refine ⟨?_, rfl⟩
      have := h.month_le
      unfold marchYear at hlast
      unfold fromMarch
      split at hlast <;> split <;> omega
    rw [hlast, hmonth.2]
    rcases h.in_month with ⟨-, hday⟩ | ⟨heq, -⟩
    · omega
    · omega
  · have hstart : marchStart (marchYear y m + 1) ≤ marchStart 9999 := marchStart_mono (by omega)
    have hvalue : marchStart 9999 = 3652059 := rfl
    omega

theorem fourDigits_of_parse {s : Str} {day : ℤ} (h : parseDate s = some day) : FourDigits day := by
  obtain ⟨y, m, n, hy, hvalid, rfl, -⟩ := parseDate_spec h
  exact fourDigits_of_valid hvalid hy

theorem fourDigits_civil {day : ℤ} (h : FourDigits day) : ∃ y m n : ℕ, y < 10000 ∧
    civil day = ((y : ℤ), (m : ℤ), (n : ℤ)) ∧ ValidDate y m n ∧ daysFromEpoch y m n = day := by
  cases hcivil : civil day with
  | mk year rest =>
    obtain ⟨month, d⟩ := rest
    have hyear := civil_year_nonneg hcivil h.1
    obtain ⟨y, m, n, rfl, rfl, rfl, hvalid, hday⟩ := civil_spec hcivil hyear
    refine ⟨y, m, n, ?_, rfl, hvalid, hday⟩
    by_contra hlarge
    have hmarch : 9999 ≤ marchYear y m := by
      unfold marchYear
      split <;> omega
    have hstart : marchStart 9999 ≤ marchStart (marchYear y m) := marchStart_mono hmarch
    have hvalue : marchStart 9999 = 3652059 := rfl
    have hmonth := fromMarch_nonneg hvalid.month_pos
    have hpos := hvalid.day_pos
    have hlast := h.2
    rw [← hday, hvalid.days_eq] at hlast
    have hearly : marchYear y m = 9999 := by
      by_contra hne
      have hnext : marchStart 10000 ≤ marchStart (marchYear y m) := marchStart_mono (by omega)
      have hvalue' : marchStart 10000 = 3652425 := rfl
      omega
    have hfrom : 10 ≤ fromMarch m := by
      have := hvalid.month_pos
      unfold marchYear at hearly
      unfold fromMarch
      split at hearly
      · split <;> omega
      · omega
    omega

theorem hyphen_notMem {k n : ℕ} : (45 : UInt8) ∉ digits k (n : ℤ) := by
  intro hmem
  have hdigit := digit_of_mem_digits hmem
  revert hdigit
  decide

theorem digits_inj {k a b : ℕ} (h : digits k (a : ℤ) = digits k (b : ℤ)) : a = b := by
  rw [← value_digits k a, h, value_digits]

theorem cut_at_hyphen {k a b : ℕ} {s t : Str}
    (h : digits k (a : ℤ) ++ 45 :: s = digits k (b : ℤ) ++ 45 :: t) :
    a = b ∧ s = t := by
  have hcut := congrArg (GoText.cut 45) h
  rw [Runes.cut_append hyphen_notMem, Runes.cut_append hyphen_notMem, Prod.mk.injEq,
    Option.some.injEq] at hcut
  exact ⟨digits_inj hcut.1, hcut.2⟩

/-- No other day is printed as a date of four digits. -/
theorem formatDate_inj {x day : ℤ} (hday : FourDigits day) (h : formatDate x = formatDate day) :
    x = day := by
  obtain ⟨y, m, n, hy, hcivil, hvalid, heq⟩ := fourDigits_civil hday
  rw [formatDate_of_civil hcivil] at h
  cases hx : civil x with
  | mk year rest =>
    obtain ⟨month, d⟩ := rest
    by_cases hyear : 0 ≤ year
    · obtain ⟨y', m', n', rfl, rfl, rfl, hvalid', heq'⟩ := civil_spec hx hyear
      rw [formatDate_of_civil hx] at h
      obtain ⟨hyears, h⟩ := cut_at_hyphen h
      obtain ⟨hmonths, hdates⟩ := cut_at_hyphen h
      rw [← heq, ← heq', hyears, hmonths, digits_inj hdates]
    · have hne : digits 4 (y : ℤ) ≠ [] := fun hnil => by
        have hlength := @length_digits 4 y (by decide) hy
        rw [hnil] at hlength
        cases hlength
      obtain ⟨b, rest', hb⟩ := List.exists_cons_of_ne_nil hne
      have hmem : b ∈ digits 4 (y : ℤ) := by
        rw [hb]
        exact List.mem_cons_self
      simp only [formatDate, hx, hb, if_pos (show year < 0 by omega), List.cons_append,
        List.cons.injEq] at h
      rw [← h.1] at hmem
      exact absurd hmem hyphen_notMem

theorem parseDate_formatDate {day : ℤ} (h : FourDigits day) :
    parseDate (formatDate day) = some day := by
  obtain ⟨y, m, n, hy, hcivil, hvalid, hday⟩ := fourDigits_civil h
  exact parseDate_format hcivil hy hvalid hday

end LocalDays
