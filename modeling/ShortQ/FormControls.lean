import Mathlib.Data.List.Flatten
import ShortQ.CsvTags

/-! # Controls of an HTML form

What a browser keeps of a value that a script sets, and what is found there when the form is read:
text on one line, URLs, and dates, which a `datetime-local` control holds without a time zone. -/
namespace FormControls

open CivilDates
open CsvCells
open CsvTags
open DecimalText
open GoText
open GoTime
open Runes
open TimeText

/-! ## Text -/

/-- The value of a control of one line. -/
def stripNewlines (s : Str) : Str := s.filter fun b => b ≠ 10 && b ≠ 13

def asciiSpace (b : UInt8) : Bool := b = 9 || b = 10 || b = 12 || b = 13 || b = 32

/-- The value of an `input` of type `url`. -/
def urlControl (s : Str) : Str := ((stripNewlines s).dropWhile asciiSpace).rdropWhile asciiSpace

/-- The value of a `select`: without a matching option none is selected. -/
def select (options : List Str) (s : Str) : Str := if s ∈ options then s else []

/-- The value of a `textarea`, with its line ends made uniform. -/
def textarea (s : Str) : Str := (CsvText.crlf s).map fun b => if b = 13 then 10 else b

/-- White space of JavaScript: it has U+FEFF and lacks U+0085. -/
def isBlank (r : Rune) : Bool :=
  match r.value with
  | none => false
  | some v => v = 0xFEFF || v ≠ 0x85 && isSpace r

/-- `String.prototype.trim`. -/
def jsTrim (s : Str) : Str := bytesOf (((runes s).dropWhile isBlank).rdropWhile isBlank)

theorem stripNewlines_sublist (s : Str) : (stripNewlines s).Sublist s := List.filter_sublist

theorem stripNewlines_eq_self {s : Str} :
    stripNewlines s = s ↔ (10 : UInt8) ∉ s ∧ (13 : UInt8) ∉ s := by
  rw [stripNewlines, List.filter_eq_self]
  constructor
  · intro h
    constructor
    · intro hmem
      exact absurd (h 10 hmem) (by decide)
    · intro hmem
      exact absurd (h 13 hmem) (by decide)
  · rintro ⟨hline, hreturn⟩ b hb
    have hne : b ≠ 10 ∧ b ≠ 13 := by
      constructor
      · rintro rfl
        exact hline hb
      · rintro rfl
        exact hreturn hb
    simp [hne]

theorem jsTrim_sublist (s : Str) : (jsTrim s).Sublist s := by
  conv_rhs => rw [← bytesOf_runes s]
  exact bytesOf_sublist ((List.rdropWhile_prefix _ _).sublist.trans (List.dropWhile_sublist _))

theorem urlControl_sublist (s : Str) : (urlControl s).Sublist s :=
  ((List.rdropWhile_prefix _ _).sublist.trans (List.dropWhile_sublist _)).trans
    (stripNewlines_sublist s)

/-- One line of text without white space around it. -/
structure Line (s : Str) : Prop where
  trimmed : trimSpace s = s
  newline : (10 : UInt8) ∉ s ∧ (13 : UInt8) ∉ s

/-- The server trims what the control holds. -/
theorem line_iff {s : Str} : trimSpace (stripNewlines s) = s ↔ Line s := by
  rw [comp_fixed trimSpace_sublist stripNewlines_sublist, stripNewlines_eq_self]
  constructor
  · rintro ⟨hnewline, htrim⟩
    exact ⟨htrim, hnewline⟩
  · rintro ⟨htrim, hnewline⟩
    exact ⟨hnewline, htrim⟩

theorem asciiSpace_space : ∀ b : UInt8, asciiSpace b = true →
    b < 0x80 ∧ isSpace (single b) = true :=
  forall_byte (by decide +kernel)

/-- A trimmed text neither begins nor ends with ASCII white space. -/
theorem trimSpace_ends {s : Str} (h : trimSpace s = s) :
    (s.dropWhile asciiSpace).rdropWhile asciiSpace = s := by
  obtain ⟨hhead, hlast⟩ := trimSpace_eq_self.mp h
  have hfront : s.dropWhile asciiSpace = s := by
    cases s with
    | nil => rfl
    | cons b rest =>
      apply List.dropWhile_cons_of_neg
      intro hb
      obtain ⟨hascii, hspace⟩ := asciiSpace_space b hb
      have hrune : (runes (b :: rest)).head? = some (single b) :=
        congrArg List.head? (runes_append_ascii hascii [] rest)
      rw [hhead _ hrune] at hspace
      cases hspace
  have hback : s.rdropWhile asciiSpace = s := by
    rw [List.rdropWhile_eq_self_iff]
    intro hne hb
    obtain ⟨hascii, hspace⟩ := asciiSpace_space _ hb
    have hrune : (runes s).getLast? = some (single (s.getLast hne)) := by
      conv_lhs => rw [← List.dropLast_append_getLast hne]
      rw [runes_append_ascii hascii, List.getLast?_append]
      rfl
    rw [hlast _ hrune] at hspace
    cases hspace
  rw [hfront, hback]

theorem urlLine_iff {s : Str} : trimSpace (urlControl s) = s ↔ Line s := by
  rw [← line_iff, comp_fixed trimSpace_sublist urlControl_sublist,
    comp_fixed trimSpace_sublist stripNewlines_sublist]
  constructor
  · rintro ⟨hurl, htrim⟩
    refine ⟨(stripNewlines_sublist s).eq_of_length_le ?_, htrim⟩
    have hle := ((List.rdropWhile_prefix asciiSpace _).sublist.trans
      (List.dropWhile_sublist asciiSpace (l := stripNewlines s))).length_le
    change (urlControl s).length ≤ _ at hle
    rw [hurl] at hle
    exact hle
  · rintro ⟨hstrip, htrim⟩
    refine ⟨?_, htrim⟩
    rw [urlControl, hstrip]
    exact trimSpace_ends htrim

theorem textarea_of_notMem {s : Str} (h : (13 : UInt8) ∉ s) : textarea s = s := by
  rw [textarea, CsvText.crlf_of_notMem h]
  conv_rhs => rw [← List.map_id s]
  apply List.map_congr_left
  intro b hb
  apply if_neg
  rintro rfl
  exact h hb

theorem jsTrim_space (s : Str) : jsTrim (32 :: s) = jsTrim s := by
  have hrunes : runes (32 :: s) = single 32 :: runes s := runes_append_ascii (by decide) [] s
  rw [jsTrim, hrunes, List.dropWhile_cons_of_pos (by decide)]
  rfl

theorem valid_sublist {s : Str} {rs : List Rune} (h : validUtf8 s = true)
    (hrs : rs.Sublist (runes s)) : validUtf8 (bytesOf rs) = true :=
  valid_bytesOf fun r hr => whole_of_valid h r (hrs.subset hr)

theorem valid_jsTrim {s : Str} (h : validUtf8 s = true) : validUtf8 (jsTrim s) = true :=
  valid_sublist h ((List.rdropWhile_prefix _ _).sublist.trans (List.dropWhile_sublist _))

/-- Valid text stays so without its line ends. -/
theorem valid_stripNewlines {s : Str} (h : validUtf8 s = true) :
    validUtf8 (stripNewlines s) = true := by
  obtain ⟨rs, hrs, rfl⟩ := valid_iff.mp h
  clear h
  induction rs with
  | nil => rfl
  | cons r rest ih =>
    rw [List.forall_mem_cons] at hrs
    have hsplit : stripNewlines (bytesOf (r :: rest)) =
        stripNewlines r.bytes ++ stripNewlines (bytesOf rest) := by
      rw [bytesOf, List.flatMap_cons]
      exact List.filter_append ..
    rw [hsplit]
    apply valid_append _ (ih hrs.2)
    have hsingle {b : UInt8} (hb : b < 0x80) (hmem : b ∈ r.bytes) : r.bytes = [b] := by
      obtain ⟨a, bs, hbytes, -, hdecode⟩ := hrs.1
      have hr : decodeRune a bs = r := by
        rw [← List.append_nil bs]
        exact hdecode []
      rw [← hr] at hmem ⊢
      rw [eq_single_of_mem hb hmem]
      rfl
    by_cases hline : (10 : UInt8) ∈ r.bytes
    · rw [hsingle (by decide) hline]
      rfl
    by_cases hreturn : (13 : UInt8) ∈ r.bytes
    · rw [hsingle (by decide) hreturn]
      rfl
    rw [stripNewlines_eq_self.mpr ⟨hline, hreturn⟩]
    have hone : bytesOf [r] = r.bytes := List.append_nil r.bytes
    rw [← hone]
    exact valid_bytesOf (by simpa using hrs.1)

/-! ## Dates -/

/-- Minutes that local time is ahead of UTC. -/
structure Offset where
  minutes : ℤ
  bounded : -1440 < minutes ∧ minutes < 1440

/-- A year outside 0..9999 has a sign and six digits. -/
def yearText (year : ℤ) : Str :=
  if 0 ≤ year && year ≤ 9999 then digits 4 year
  else (if year < 0 then 45 else 43) :: digits 6 year.natAbs

/-- `Date.prototype.toISOString`. -/
def toISOString (t : Time) : Str :=
  let (year, month, d) := civil (t.nanos / day)
  let clock := t.nanos % day / second
  yearText year ++ lit "-" ++ digits 2 month ++ lit "-" ++ digits 2 d ++ lit "T" ++
    digits 2 (clock / 3600) ++ lit ":" ++ digits 2 (clock / 60 % 60) ++ lit ":" ++
    digits 2 (clock % 60) ++ (46 :: digits 3 (t.nanos % day % second / 1000000)) ++ lit "Z"

/-- The local date and time of a text like 2027-01-01T00:00, as if it were in UTC. The year 0 is
no year of a control. -/
def datetimeLocal (raw : Str) : Option Time := do
  let (year, s) ← fixed 4 raw
  let s ← expect 45 s
  let (month, s) ← fixed 2 s
  let s ← expect 45 s
  let (d, s) ← fixed 2 s
  let s ← expect 84 s
  let (hour, s) ← fixed 2 s
  let s ← expect 58 s
  let (minute, s) ← fixed 2 s
  if s.isEmpty && 1 ≤ year && 1 ≤ month && month ≤ 12 && 1 ≤ d && d ≤ daysIn month year &&
      hour < 24 && minute < 60 then
    some ⟨(daysFromEpoch year month d * 86400 + (hour * 3600 + minute * 60 : ℕ)) * second⟩
  else none

/-- The value of an `input` of type `datetime-local`. -/
def dateControl (s : Str) : Str := if (datetimeLocal s).isSome then s else []

/-- The instant that a browser takes a local time for. -/
def Offset.instant (offset : Offset) (t : Time) : Time :=
  ⟨t.nanos - offset.minutes * (60 * second)⟩

def wholeMinute (t : Time) : Time := ⟨t.nanos / (60 * second) * (60 * second)⟩

example : toISOString ⟨1798761600 * second⟩ = lit "2027-01-01T00:00:00.000Z" := by decide

example : datetimeLocal (lit "2027-01-01T00:00") = some ⟨1798761600 * second⟩ := by decide

theorem toISOString_eq {t : Time} {year month d : ℤ}
    (h : civil (t.nanos / day) = (year, month, d)) :
    toISOString t = yearText year ++ lit "-" ++ digits 2 month ++ lit "-" ++ digits 2 d ++
      lit "T" ++ digits 2 (t.nanos % day / second / 3600) ++ lit ":" ++
      digits 2 (t.nanos % day / second / 60 % 60) ++ lit ":" ++
      digits 2 (t.nanos % day / second % 60) ++
      (46 :: digits 3 (t.nanos % day % second / 1000000)) ++ lit "Z" := by
  rw [toISOString, h]

/-- A four-digit year is written in full. -/
theorem toISOString_clock {t : Time} (h : 0 ≤ utcYear t ∧ utcYear t ≤ 9999) :
    ∃ y m n hour minute sec nanos : ℕ,
      toISOString t = clockText y m n hour minute sec (46 :: digits 3 (nanos / 1000000 : ℕ)) ∧
      utcYear t = y ∧ ValidDate y m n ∧ hour < 24 ∧ minute < 60 ∧ sec < 60 ∧ nanos < 10 ^ 9 ∧
      t.nanos = (daysFromEpoch y m n * 86400 + (hour * 3600 + minute * 60 + sec : ℕ)) * second +
        nanos := by
  obtain ⟨year, month, d, hcivil⟩ : ∃ year month d, civil (t.nanos / day) = (year, month, d) :=
    ⟨_, _, _, rfl⟩
  have hutc : utcYear t = year := by rw [utcYear, hcivil]
  rw [hutc] at h ⊢
  obtain ⟨y, m, n, hour, minute, sec, nanos, rfl, rfl, rfl, hh, hmin, hs, hfrac, hdate, hhour,
    hminute, hsec, hnanos, htime⟩ := time_eq hcivil h.1
  refine ⟨y, m, n, hour, minute, sec, nanos, ?_, rfl, hdate, hhour, hminute, hsec, hnanos, htime⟩
  rw [toISOString_eq hcivil, hh, hmin, hs, hfrac, yearText, if_pos (by simpa using h)]
  rfl

theorem toISOString_far {t : Time} (h : ¬ (0 ≤ utcYear t ∧ utcYear t ≤ 9999)) :
    ∃ b rest, toISOString t = b :: rest ∧ isDigit b = false := by
  obtain ⟨year, month, d, hcivil⟩ : ∃ year month d, civil (t.nanos / day) = (year, month, d) :=
    ⟨_, _, _, rfl⟩
  have hutc : utcYear t = year := by rw [utcYear, hcivil]
  rw [hutc] at h
  rw [toISOString_eq hcivil, yearText, if_neg (by simpa using h)]
  refine ⟨_, _, rfl, ?_⟩
  split <;> decide

theorem fraction_zero : fraction ((46 :: digits 3 (0 : ℕ)) ++ lit "Z") = (0, lit "Z") := by
  decide

/-- A whole second is read back by the server, unless its year has a sign. -/
theorem parse_toISOString {t : Time} (hsecond : t.nanos % second = 0) :
    parseRFC3339 (toISOString t) = if 0 ≤ utcYear t ∧ utcYear t ≤ 9999 then some t else none := by
  split
  · rename_i hyear
    obtain ⟨y, m, n, hour, minute, sec, nanos, htext, hutc, hdate, hhour, hminute, hsec, hnanos,
      htime⟩ := toISOString_clock hyear
    obtain rfl : nanos = 0 := by
      have hunit : second = 1000000000 := rfl
      rw [hunit] at htime hsecond
      omega
    rw [htext, Nat.zero_div,
      parse_clock hdate (by omega) hhour hminute hsec fraction_zero, ← htime]
  · rename_i hyear
    obtain ⟨b, rest, htext, hb⟩ := toISOString_far hyear
    rw [htext]
    exact parse_sign hb rest

/-- The text of a four-digit year is not blank. -/
theorem trimSpace_toISOString {t : Time} (h : 0 ≤ utcYear t ∧ utcYear t ≤ 9999) :
    trimSpace (toISOString t) = toISOString t := by
  obtain ⟨y, m, n, hour, minute, sec, nanos, htext, -⟩ := toISOString_clock h
  rw [htext]
  refine (survives_clockText ?_).trimmed
  rw [List.all_cons, all_token_digits]
  decide

/-- The minutes of a text that is read as it was written. -/
def minuteText (year month d hour minute : ℕ) : Str :=
  digits 4 year ++ lit "-" ++ digits 2 month ++ lit "-" ++ digits 2 d ++ lit "T" ++
    digits 2 hour ++ lit ":" ++ digits 2 minute

theorem datetimeLocal_minuteText {year month d hour minute : ℕ} (hdate : ValidDate year month d)
    (hyear : year < 10000) (hhour : hour < 24) (hminute : minute < 60) :
    datetimeLocal (minuteText year month d hour minute) =
      if 1 ≤ year then
        some ⟨(daysFromEpoch year month d * 86400 + (hour * 3600 + minute * 60 : ℕ)) * second⟩
      else none := by
  have hmonth := hdate.month_le
  have hdash (rest : Str) : expect 45 (lit "-" ++ rest) = some rest := rfl
  have hT (rest : Str) : expect 84 (lit "T" ++ rest) = some rest := rfl
  have hcolon (rest : Str) : expect 58 (lit ":" ++ rest) = some rest := rfl
  have hlast : fixed 2 (digits 2 (minute : ℤ)) = some (minute, []) := by
    rw [← List.append_nil (digits 2 (minute : ℤ))]
    exact fixed_digits (by decide) (by omega) []
  simp only [minuteText, List.append_assoc]
  unfold datetimeLocal
  rw [fixed_digits (by decide) hyear]
  dsimp only [Option.bind_eq_bind, Option.bind_some]
  rw [hdash]
  dsimp only [Option.bind_some]
  rw [fixed_digits (by decide) (by omega)]
  dsimp only [Option.bind_some]
  rw [hdash]
  dsimp only [Option.bind_some]
  rw [fixed_digits (by decide) (day_two_digits hdate)]
  dsimp only [Option.bind_some]
  rw [hT]
  dsimp only [Option.bind_some]
  rw [fixed_digits (by decide) (by omega)]
  dsimp only [Option.bind_some]
  rw [hcolon]
  dsimp only [Option.bind_some]
  rw [hlast]
  dsimp only [Option.bind_some]
  by_cases hfirst : 1 ≤ year
  · have := hdate.month_pos
    have := hdate.day_pos
    have := hdate.day_le
    rw [if_pos hfirst, if_pos (by simp; omega)]
  · rw [if_neg hfirst, if_neg (by simp; omega)]

/-- The sixteen characters that a control is given. -/
theorem take_clockText {year month d hour minute sec : ℕ} (text : Str)
    (hdate : ValidDate year month d) (hyear : year < 10000) (hhour : hour < 24)
    (hminute : minute < 60) :
    (clockText year month d hour minute sec text).take 16 =
      minuteText year month d hour minute := by
  have hmonth := hdate.month_le
  have hlength : (minuteText year month d hour minute).length = 16 := by
    simp only [minuteText, List.length_append]
    rw [length_digits (by decide) (by omega : year < 10 ^ 4),
      length_digits (by decide) (by omega : month < 10 ^ 2),
      length_digits (by decide) (day_two_digits hdate),
      length_digits (by decide) (by omega : hour < 10 ^ 2),
      length_digits (by decide) (by omega : minute < 10 ^ 2)]
    rfl
  have hsplit : clockText year month d hour minute sec text =
      minuteText year month d hour minute ++ (lit ":" ++ digits 2 sec ++ text ++ lit "Z") := by
    simp only [clockText, minuteText, List.append_assoc]
  rw [hsplit, ← hlength, List.take_left]

/-- A control given the first sixteen characters of an instant holds its minute. -/
theorem datetimeLocal_take (t : Time) :
    datetimeLocal ((toISOString t).take 16) =
      if 1 ≤ utcYear t ∧ utcYear t ≤ 9999 then some (wholeMinute t) else none := by
  by_cases hyear : 0 ≤ utcYear t ∧ utcYear t ≤ 9999
  · obtain ⟨y, m, n, hour, minute, sec, nanos, htext, hutc, hdate, hhour, hminute, hsec, hnanos,
      htime⟩ := toISOString_clock hyear
    rw [htext, take_clockText _ hdate (by omega) hhour hminute,
      datetimeLocal_minuteText hdate (by omega) hhour hminute]
    have hwhole : wholeMinute t =
        ⟨(daysFromEpoch y m n * 86400 + (hour * 3600 + minute * 60 : ℕ)) * second⟩ := by
      have hunit : second = 1000000000 := rfl
      unfold wholeMinute
      rw [htime, hunit]
      congr 1
      omega
    rw [hwhole]
    by_cases hfirst : 1 ≤ y
    · rw [if_pos hfirst, if_pos (by omega)]
    · rw [if_neg hfirst, if_neg (by omega)]
  · obtain ⟨b, rest, htext, hb⟩ := toISOString_far hyear
    rw [if_neg (by omega), htext, List.take_succ_cons]
    unfold datetimeLocal
    rw [fixed_sign hb (by decide)]
    rfl

end FormControls
