import Mathlib.Algebra.Ring.Int.Defs
import Mathlib.Algebra.Ring.Nat
import Mathlib.Data.List.Basic
import ShortQ.ListDecisions

/-! # Go strings

A Go string is a sequence of bytes that need not be valid UTF-8. The functions here are
those of `strings`, `unicode/utf8` and `unicode` that the program calls. -/
namespace GoText

abbrev Str := List UInt8

instance lawfulBEqStr : LawfulBEq Str := inferInstance

/-- The bytes of a literal. -/
def lit (s : String) : Str := s.toList.flatMap String.utf8EncodeChar

/-- One step of `range` over a string: the rune, or none for a byte that starts no
valid encoding (Go yields U+FFFD and moves on by one byte), with the bytes it took. -/
structure Rune where
  value : Option ℕ
  bytes : Str
  deriving DecidableEq, Repr

def continues (b : UInt8) : Bool := 0x80 ≤ b && b ≤ 0xBF

/-- The second byte a lead byte of three or four allows (no overlong form, no surrogate,
nothing past U+10FFFF). -/
def secondOk (a b : UInt8) : Bool :=
  if a = 0xE0 then 0xA0 ≤ b && b ≤ 0xBF
  else if a = 0xED then 0x80 ≤ b && b ≤ 0x9F
  else if a = 0xF0 then 0x90 ≤ b && b ≤ 0xBF
  else if a = 0xF4 then 0x80 ≤ b && b ≤ 0x8F
  else continues b

def low (b : UInt8) : ℕ := b.toNat % 64

def decodeRune (a : UInt8) (rest : Str) : Rune :=
  if a < 0x80 then ⟨some a.toNat, [a]⟩
  else if 0xC2 ≤ a && a ≤ 0xDF then
    match rest with
    | b :: _ =>
      if continues b then ⟨some (a.toNat % 32 * 64 + low b), [a, b]⟩ else ⟨none, [a]⟩
    | _ => ⟨none, [a]⟩
  else if 0xE0 ≤ a && a ≤ 0xEF then
    match rest with
    | b :: c :: _ =>
      if secondOk a b && continues c then
        ⟨some ((a.toNat % 16 * 64 + low b) * 64 + low c), [a, b, c]⟩
      else ⟨none, [a]⟩
    | _ => ⟨none, [a]⟩
  else if 0xF0 ≤ a && a ≤ 0xF4 then
    match rest with
    | b :: c :: d :: _ =>
      if secondOk a b && continues c && continues d then
        ⟨some (((a.toNat % 8 * 64 + low b) * 64 + low c) * 64 + low d), [a, b, c, d]⟩
      else ⟨none, [a]⟩
    | _ => ⟨none, [a]⟩
  else ⟨none, [a]⟩

def runesFuel : ℕ → Str → List Rune
  | 0, _ => []
  | _, [] => []
  | n + 1, a :: rest =>
    let r := decodeRune a rest
    r :: runesFuel n (rest.drop (r.bytes.length - 1))

def runes (s : Str) : List Rune := runesFuel s.length s

def bytesOf (rs : List Rune) : Str := rs.flatMap Rune.bytes

def validUtf8 (s : Str) : Bool := (runes s).all fun r => r.value.isSome

def runeCount (s : Str) : ℕ := (runes s).length

/-- `unicode.IsSpace`. -/
def isSpace (r : Rune) : Bool :=
  match r.value with
  | none => false
  | some v =>
    (9 ≤ v && v ≤ 13) || v = 32 || v = 0x85 || v = 0xA0 || v = 0x1680 ||
      (0x2000 ≤ v && v ≤ 0x200A) || v = 0x2028 || v = 0x2029 || v = 0x202F || v = 0x205F ||
      v = 0x3000

def trimSpace (s : Str) : Str :=
  bytesOf (((runes s).dropWhile isSpace).reverse.dropWhile isSpace).reverse

/-- `strings.ToUpper`, as far as a result made of ASCII letters can tell: U+0131 and
U+017F are the only other runes whose upper case is one. -/
def upperRune (r : Rune) : Str :=
  match r.value with
  | none => [0xEF, 0xBF, 0xBD]
  | some v =>
    if 97 ≤ v && v ≤ 122 then [UInt8.ofNat (v - 32)]
    else if v = 0x131 then lit "I"
    else if v = 0x17F then lit "S"
    else r.bytes

def toUpper (s : Str) : Str := (runes s).flatMap upperRune

/-- The text with each byte of an invalid encoding replaced by U+FFFD, as `json.Marshal`
writes it. -/
def toValid (s : Str) : Str :=
  (runes s).flatMap fun r => if r.value = none then [0xEF, 0xBF, 0xBD] else r.bytes

def lowerByte (b : UInt8) : UInt8 := if 65 ≤ b && b ≤ 90 then b + 32 else b

/-- `strings.ToLower` on ASCII text. -/
def toLowerAscii (s : Str) : Str := s.map lowerByte

def isDigit (b : UInt8) : Bool := 48 ≤ b && b ≤ 57

def isLetter (b : UInt8) : Bool := (65 ≤ b && b ≤ 90) || (97 ≤ b && b ≤ 122)

def isHex (b : UInt8) : Bool := isDigit b || (97 ≤ b && b ≤ 102) || (65 ≤ b && b ≤ 70)

def unhex (b : UInt8) : UInt8 :=
  if isDigit b then b - 48 else if 97 ≤ b then b - 87 else b - 55

/-- `strings.Cut` at the first occurrence of one byte. -/
def cut (sep : UInt8) (s : Str) : Str × Option Str :=
  match s.dropWhile (· != sep) with
  | [] => (s, none)
  | _ :: after => (s.takeWhile (· != sep), some after)

/-- Splits at the last occurrence of one byte. -/
def cutLast (sep : UInt8) (s : Str) : Option (Str × Str) :=
  match (cut sep s.reverse) with
  | (_, none) => none
  | (after, some before) => some (before.reverse, after.reverse)

def decimal (s : Str) : Option ℕ :=
  if s.all isDigit && !s.isEmpty then
    some (s.foldl (fun n b => n * 10 + (b.toNat - 48)) 0)
  else none

/-- `strings.Fields` on ASCII text. -/
def fields (s : Str) : List Str := (s.splitOn 32).filter (· ≠ [])

example : trimSpace (lit " \t\u00a0ID \u2003\n") = lit "ID" := by decide

example : toUpper (lit "ıd") = lit "ID" := by decide

end GoText
