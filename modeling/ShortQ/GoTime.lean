import Mathlib.Data.Int.Notation
import ShortQ.GoText

/-! # Go instants

A `time.Time` is kept as the instant it denotes, in nanoseconds from 1970-01-01 UTC. No
modelled function reads its location. -/
namespace GoTime

open GoText (Str lit isDigit)

structure Time where
  nanos : ℤ
  deriving DecidableEq, Repr

def second : ℤ := 1000000000
def day : ℤ := 86400 * second

/-- The zero `time.Time`: 1 January of year 1. -/
def zero : Time := ⟨-62135596800 * second⟩

def Time.isZero (t : Time) : Bool := t = zero

def Time.before (t u : Time) : Bool := t.nanos < u.nanos

/-- The UTC calendar day, counted from 1970-01-01. -/
def Time.utcDay (t : Time) : ℤ := t.nanos / day

def leap (y : ℕ) : Bool := y % 4 = 0 && (y % 100 != 0 || y % 400 = 0)

def daysIn (month year : ℕ) : ℕ :=
  if month = 2 then (if leap year then 29 else 28)
  else if month = 4 || month = 6 || month = 9 || month = 11 then 30 else 31

def daysBeforeMonth (month year : ℕ) : ℕ :=
  ((List.range (month - 1)).map fun i => daysIn (i + 1) year).sum

/-- Days from 1970-01-01 to a date of the proleptic Gregorian calendar. The year before
year 1 counts as year 0, a leap year. -/
def daysFromEpoch (year month d : ℕ) : ℤ :=
  let y : ℤ := (year : ℤ) - 1
  y * 365 + y / 4 - y / 100 + y / 400 + daysBeforeMonth month year + d - 1 - 719162

/-- A field of exactly `n` digits and what follows it. -/
def fixed (n : ℕ) (s : Str) : Option (ℕ × Str) :=
  if (s.take n).length = n then (GoText.decimal (s.take n)).map fun v => (v, s.drop n) else none

/-- Two digits, or one where the layout says `15` (`getnum` with `fixed` false). -/
def hourField (s : Str) : Option (ℕ × Str) :=
  (fixed 2 s).orElse fun _ => fixed 1 s

def expect (b : UInt8) : Str → Option Str
  | [] => none
  | a :: rest => if a = b then some rest else none

/-- A fraction of a second, cut to nine digits. -/
def fraction (s : Str) : ℕ × Str :=
  match s with
  | a :: rest =>
    let digits := rest.takeWhile isDigit
    if (a = 46 || a = 44) && !digits.isEmpty then
      let nine := (digits ++ List.replicate 9 48).take 9
      ((GoText.decimal nine).getD 0, rest.dropWhile isDigit)
    else (0, s)
  | [] => (0, s)

/-- The zone: `Z`, or a signed `hh:mm` in seconds. Go lets hour 24 and minute 60 pass. -/
def zone (s : Str) : Option (ℤ × Str) :=
  match s with
  | 90 :: rest => some (0, rest)
  | sign :: rest => do
    let (h, rest) ← fixed 2 rest
    let rest ← expect 58 rest
    let (m, rest) ← fixed 2 rest
    if h > 24 || m > 60 then none
    else if sign = 43 then some (((h * 60 + m) * 60 : ℕ), rest)
    else if sign = 45 then some (-((h * 60 + m) * 60 : ℕ), rest)
    else none
  | [] => none

/-- `time.Parse(time.RFC3339, s)`. -/
def parseRFC3339 (s : Str) : Option Time := do
  let (year, s) ← fixed 4 s
  let s ← expect 45 s
  let (month, s) ← fixed 2 s
  let s ← expect 45 s
  let (d, s) ← fixed 2 s
  let s ← expect 84 s
  let (hour, s) ← hourField s
  let s ← expect 58 s
  let (minute, s) ← fixed 2 s
  let s ← expect 58 s
  let (sec, s) ← fixed 2 s
  let (frac, s) := fraction s
  let (offset, s) ← zone s
  if s.isEmpty && 1 ≤ month && month ≤ 12 && 1 ≤ d && d ≤ daysIn month year &&
      hour < 24 && minute < 60 && sec < 60 then
    let seconds := daysFromEpoch year month d * 86400 + (hour * 3600 + minute * 60 + sec : ℕ)
    some ⟨(seconds - offset) * second + frac⟩
  else none

/-- Year, month and day of a count of days from 1970-01-01; years begin in March inside. -/
def civil (days : ℤ) : ℤ × ℤ × ℤ :=
  let z := days + 719468
  let era := z / 146097
  let doe := z % 146097
  let yoe := (doe - doe / 1460 + doe / 36524 - doe / 146096) / 365
  let doy := doe - (365 * yoe + yoe / 4 - yoe / 100)
  let mp := (5 * doy + 2) / 153
  let month := if mp < 10 then mp + 3 else mp - 9
  (yoe + era * 400 + (if month ≤ 2 then 1 else 0), month, doy - (153 * mp + 2) / 5 + 1)

/-- A number in at least `n` decimal digits. -/
def digits (n : ℕ) (v : ℤ) : Str :=
  let text := lit (toString v)
  List.replicate (n - text.length) 48 ++ text

/-- The fraction of a second without its trailing zeros. -/
def fractionText (nanos : ℤ) : Str :=
  if nanos = 0 then [] else 46 :: ((digits 9 nanos).reverse.dropWhile (· = 48)).reverse

/-- `Time.MarshalJSON` of an instant in UTC: none for a year of more than four digits. -/
def formatRFC3339 (t : Time) : Option Str :=
  let (year, month, d) := civil (t.nanos / day)
  let rest := t.nanos % day
  let clock := rest / second
  if 0 ≤ year && year ≤ 9999 then
    some (digits 4 year ++ lit "-" ++ digits 2 month ++ lit "-" ++ digits 2 d ++ lit "T" ++
      digits 2 (clock / 3600) ++ lit ":" ++ digits 2 (clock / 60 % 60) ++ lit ":" ++
      digits 2 (clock % 60) ++ fractionText (rest % second) ++ lit "Z")
  else none

example : formatRFC3339 ⟨1709208000 * second + 120000000⟩ =
    some (lit "2024-02-29T12:00:00.12Z") := by decide

example : parseRFC3339 (lit "0001-01-01T00:00:00Z") = some zero := by decide

example : parseRFC3339 (lit "2026-09-18T23:59:00.5-07:00") =
    some ⟨1789801140 * second + 500000000⟩ := by decide

end GoTime
