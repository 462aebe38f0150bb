import Mathlib.Data.List.TakeWhile
import ShortQ.CivilDates
import ShortQ.DecimalText

/-! # Instants as text

Reading RFC 3339 text inverts writing it, down to the nanosecond. -/
namespace TimeText

open CivilDates
open DecimalText
open GoText
open GoTime

/-- The text of a UTC date and clock; the fraction is text of its own. -/
def clockText (year month d hour minute sec : ℕ) (fraction : Str) : Str :=
  digits 4 year ++ lit "-" ++ digits 2 month ++ lit "-" ++ digits 2 d ++ lit "T" ++
    digits 2 hour ++ lit ":" ++ digits 2 minute ++ lit ":" ++ digits 2 sec ++ fraction ++ lit "Z"

/-! The fraction. -/

/-- Trailing zeros can be put back. -/
theorem digits_dropZeros (ds : Str) :
    ∃ k, ds = (ds.reverse.dropWhile (· = 48)).reverse ++ List.replicate k 48 := by
  refine ⟨(ds.reverse.takeWhile (· = 48)).length, ?_⟩
  have hsplit := congrArg List.reverse
    (List.takeWhile_append_dropWhile (p := fun b : UInt8 => decide (b = 48)) (l := ds.reverse))
  rw [List.reverse_append, List.reverse_reverse] at hsplit
  have hzeros : (ds.reverse.takeWhile (· = 48)).reverse =
      List.replicate (ds.reverse.takeWhile (· = 48)).length 48 := by
    rw [List.eq_replicate_iff]
    constructor
    · rw [List.length_reverse]
    · intro b hb
      have hzero := List.mem_takeWhile_imp (List.mem_reverse.mp hb)
      simpa using hzero
  rw [hzeros] at hsplit
  exact hsplit.symm

theorem fraction_fractionText {nanos : ℕ} (h : nanos < 10 ^ 9) :
    fraction (fractionText nanos ++ lit "Z") = (nanos, lit "Z") := by
  by_cases hzero : nanos = 0
  · rw [hzero]
    rfl
  · rw [fractionText, if_neg (by omega)]
    obtain ⟨k, hk⟩ := digits_dropZeros (digits 9 (nanos : ℤ))
    generalize hkept : ((digits 9 (nanos : ℤ)).reverse.dropWhile (· = 48)).reverse = kept at hk ⊢
    have hlength : kept.length + k = 9 := by
      have hlen := congrArg List.length hk
      rw [length_digits (by decide) h, List.length_append, List.length_replicate] at hlen
      omega
    have hdigit : ∀ b ∈ kept, isDigit b = true := by
      intro b hb
      refine digit_of_mem_digits (k := 9) (n := nanos) ?_
      rw [hk]
      exact List.mem_append_left _ hb
    have hne : kept ≠ [] := by
      intro hnil
      rw [hnil, List.nil_append] at hk
      have hvalue := congrArg value hk
      rw [value_digits, ← List.append_nil (List.replicate k 48), value_zeros] at hvalue
      exact hzero hvalue
    have htake : (kept ++ lit "Z").takeWhile isDigit = kept := by
      rw [List.takeWhile_append_of_pos hdigit]
      exact List.append_nil kept
    have hdrop : (kept ++ lit "Z").dropWhile isDigit = lit "Z" := by
      rw [List.dropWhile_append_of_pos hdigit]
      rfl
    have hnine : (kept ++ List.replicate 9 48).take 9 = digits 9 (nanos : ℤ) := by
      have hcount : min (9 - kept.length) 9 = k := by omega
      rw [List.take_append, List.take_of_length_le (by omega), List.take_replicate, hcount, ← hk]
    have hsome : kept.isEmpty = false := List.isEmpty_eq_false_iff.mpr hne
    rw [List.cons_append, GoTime.fraction]
    dsimp only
    rw [htake, hdrop, hnine, decimal_digits, hsome, if_pos (by decide)]
    rfl

/-! The whole text. -/

theorem day_two_digits {year month d : ℕ} (h : ValidDate year month d) : d < 10 ^ 2 := by
  have hle := h.day_le
  have hmax : daysIn month year ≤ 31 := by
    unfold daysIn
    split
    · split <;> omega
    · split <;> omega
  omega

/-- A date and a clock with any text for the fraction. -/
theorem parse_clock {year month d hour minute sec nanos : ℕ} {text : Str}
    (hdate : ValidDate year month d) (hyear : year < 10000) (hhour : hour < 24)
    (hminute : minute < 60) (hsec : sec < 60)
    (hfraction : fraction (text ++ lit "Z") = (nanos, lit "Z")) :
    parseRFC3339 (clockText year month d hour minute sec text) =
      some ⟨(daysFromEpoch year month d * 86400 + (hour * 3600 + minute * 60 + sec : ℕ)) * second +
        nanos⟩ := by
  have hmonth := hdate.month_le
  have hd := day_two_digits hdate
  have hhourField (rest : Str) : hourField (digits 2 (hour : ℤ) ++ rest) = some (hour, rest) := by
    rw [hourField, fixed_digits (by decide) (by omega)]
    rfl
  have hdash (rest : Str) : expect 45 (lit "-" ++ rest) = some rest := rfl
  have hT (rest : Str) : expect 84 (lit "T" ++ rest) = some rest := rfl
  have hcolon (rest : Str) : expect 58 (lit ":" ++ rest) = some rest := rfl
  have hzone : zone (lit "Z") = some (0, []) := rfl
  have hvalid : (([] : Str).isEmpty && decide (1 ≤ month) && decide (month ≤ 12) &&
      decide (1 ≤ d) &&
      decide (d ≤ daysIn month year) && decide (hour < 24) && decide (minute < 60) &&
      decide (sec < 60)) = true := by
    have := hdate.month_pos
    have := hdate.day_pos
    have := hdate.day_le
    simp
    omega
  simp only [clockText, List.append_assoc]
  unfold parseRFC3339
  rw [fixed_digits (by decide) hyear]
  dsimp only [Option.bind_eq_bind, Option.bind_some]
  rw [hdash]
  dsimp only [Option.bind_some]
  rw [fixed_digits (by decide) (by omega)]
  dsimp only [Option.bind_some]
  rw [hdash]
  dsimp only [Option.bind_some]
  rw [fixed_digits (by decide) hd]
  dsimp only [Option.bind_some]
  rw [hT]
  dsimp only [Option.bind_some]
  rw [hhourField]
  dsimp only [Option.bind_some]
  rw [hcolon]
  dsimp only [Option.bind_some]
  rw [fixed_digits (by decide) (by omega)]
  dsimp only [Option.bind_some]
  rw [hcolon]
  dsimp only [Option.bind_some]
  rw [fixed_digits (by decide) (by omega)]
  dsimp only [Option.bind_some]
  rw [hfraction]
  dsimp only
  rw [hzone]
  dsimp only [Option.bind_some]
  rw [if_pos hvalid, Int.sub_zero]

theorem parse_clockText {year month d hour minute sec nanos : ℕ} (hdate : ValidDate year month d)
    (hyear : year < 10000) (hhour : hour < 24) (hminute : minute < 60) (hsec : sec < 60)
    (hnanos : nanos < 10 ^ 9) :
    parseRFC3339 (clockText year month d hour minute sec (fractionText nanos)) =
      some ⟨(daysFromEpoch year month d * 86400 + (hour * 3600 + minute * 60 + sec : ℕ)) * second +
        nanos⟩ :=
  parse_clock hdate hyear hhour hminute hsec (fraction_fractionText hnanos)

/-- The date and the clock of an instant. -/
theorem time_eq {t : Time} {year month d : ℤ} (h : civil (t.nanos / day) = (year, month, d))
    (hyear : 0 ≤ year) : ∃ y m n hour minute sec nanos : ℕ, year = y ∧ month = m ∧ d = n ∧
      t.nanos % day / second / 3600 = hour ∧ t.nanos % day / second / 60 % 60 = minute ∧
      t.nanos % day / second % 60 = sec ∧ t.nanos % day % second = nanos ∧ ValidDate y m n ∧
      hour < 24 ∧ minute < 60 ∧ sec < 60 ∧ nanos < 10 ^ 9 ∧
      t.nanos = (daysFromEpoch y m n * 86400 + (hour * 3600 + minute * 60 + sec : ℕ)) * second +
        nanos := by
  obtain ⟨y, m, n, hy, hm, hn, hdate, hdays⟩ := civil_spec h hyear
  have hday : day = 86400000000000 := rfl
  have hsecond : second = 1000000000 := rfl
  simp only [hday, hsecond] at hdays ⊢
  refine ⟨y, m, n, (t.nanos % 86400000000000 / 1000000000 / 3600).toNat,
    (t.nanos % 86400000000000 / 1000000000 / 60 % 60).toNat,
    (t.nanos % 86400000000000 / 1000000000 % 60).toNat,
    (t.nanos % 86400000000000 % 1000000000).toNat, hy, hm, hn, ?_, ?_, ?_, ?_, hdate, ?_, ?_, ?_,
    ?_, ?_⟩ <;> omega

theorem formatRFC3339_eq {t : Time} {year month d : ℤ}
    (h : civil (t.nanos / day) = (year, month, d)) :
    formatRFC3339 t = if 0 ≤ year && year ≤ 9999 then
      some (digits 4 year ++ lit "-" ++ digits 2 month ++ lit "-" ++ digits 2 d ++ lit "T" ++
        digits 2 (t.nanos % day / second / 3600) ++ lit ":" ++
        digits 2 (t.nanos % day / second / 60 % 60) ++ lit ":" ++
        digits 2 (t.nanos % day / second % 60) ++ fractionText (t.nanos % day % second) ++ lit "Z")
      else none := by
  rw [formatRFC3339, h]

/-- What is written is the text of a date and a clock. -/
theorem formatRFC3339_some {t : Time} {s : Str} (h : formatRFC3339 t = some s) :
    ∃ y m n hour minute sec nanos : ℕ, s = clockText y m n hour minute sec (fractionText nanos) ∧
      ValidDate y m n ∧ y < 10000 ∧ hour < 24 ∧ minute < 60 ∧ sec < 60 ∧ nanos < 10 ^ 9 ∧
      t.nanos = (daysFromEpoch y m n * 86400 + (hour * 3600 + minute * 60 + sec : ℕ)) * second +
        nanos := by
  obtain ⟨year, month, d, hcivil⟩ : ∃ year month d, civil (t.nanos / day) = (year, month, d) :=
    ⟨_, _, _, rfl⟩
  rw [formatRFC3339_eq hcivil] at h
  by_cases hyear : 0 ≤ year ∧ year ≤ 9999
  · rw [if_pos (by simpa using hyear)] at h
    obtain ⟨y, m, n, hour, minute, sec, nanos, rfl, rfl, rfl, hh, hmin, hs, hfrac, hdate, hhour,
      hminute, hsec, hnanos, htime⟩ := time_eq hcivil hyear.1
    rw [hh, hmin, hs, hfrac] at h
    exact ⟨y, m, n, hour, minute, sec, nanos, (Option.some.inj h).symm, hdate, by omega, hhour,
      hminute, hsec, hnanos, htime⟩
  · rw [if_neg (by simpa using hyear)] at h
    cases h

/-- An instant is read back from the text it is written as. -/
theorem parse_formatRFC3339 {t : Time} {s : Str} (h : formatRFC3339 t = some s) :
    parseRFC3339 s = some t := by
  obtain ⟨y, m, n, hour, minute, sec, nanos, htext, hdate, hyear, hhour, hminute, hsec, hnanos,
    htime⟩ := formatRFC3339_some h
  rw [htext, parse_clockText hdate hyear hhour hminute hsec hnanos, ← htime]

/-- A byte of a written instant. -/
def stampByte (b : UInt8) : Bool := isDigit b || (lit "-T:.Z").contains b

theorem stampByte_digits {k n : ℕ} {b : UInt8} (h : b ∈ digits k (n : ℤ)) : stampByte b = true := by
  rw [stampByte, digit_of_mem_digits h, Bool.true_or]

theorem stampByte_fraction {nanos : ℕ} {b : UInt8} (h : b ∈ fractionText (nanos : ℤ)) :
    stampByte b = true := by
  unfold fractionText at h
  split at h
  · cases h
  · rcases List.mem_cons.mp h with rfl | h
    · decide
    · apply stampByte_digits (k := 9) (n := nanos)
      rw [List.mem_reverse] at h
      exact List.mem_reverse.mp ((List.dropWhile_sublist _).subset h)

theorem stampByte_of_mem {t : Time} {s : Str} (h : formatRFC3339 t = some s) {b : UInt8}
    (hb : b ∈ s) : stampByte b = true := by
  obtain ⟨y, m, n, hour, minute, sec, nanos, htext, -⟩ := formatRFC3339_some h
  rw [htext] at hb
  have hdash : ∀ c ∈ lit "-", stampByte c = true := by decide
  have hT : ∀ c ∈ lit "T", stampByte c = true := by decide
  have hcolon : ∀ c ∈ lit ":", stampByte c = true := by decide
  have hZ : ∀ c ∈ lit "Z", stampByte c = true := by decide
  simp only [clockText, List.mem_append] at hb
  rcases hb with ((((((((((((hb | hb) | hb) | hb) | hb) | hb) | hb) | hb) | hb) | hb) | hb) | hb) |
    hb)
  · exact stampByte_digits hb
  · exact hdash b hb
  · exact stampByte_digits hb
  · exact hdash b hb
  · exact stampByte_digits hb
  · exact hT b hb
  · exact stampByte_digits hb
  · exact hcolon b hb
  · exact stampByte_digits hb
  · exact hcolon b hb
  · exact stampByte_digits hb
  · exact stampByte_fraction hb
  · exact hZ b hb

end TimeText
