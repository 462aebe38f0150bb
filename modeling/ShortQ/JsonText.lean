import ShortQ.DecimalText
import ShortQ.JsonValues
import ShortQ.Runes

/-! # JSON texts

What `json.Marshal` writes and what the scanner of `json.Unmarshal` reads, byte by byte, and that
the second finds what the first was given. -/
namespace JsonText

open GoText
open JsonValues
open Runes

/-! ## Writing -/

def hexDigit (v : ℕ) : UInt8 := if v < 10 then UInt8.ofNat (48 + v) else UInt8.ofNat (87 + v)

/-- `\u` and four digits. -/
def unicodeEscape (v : ℕ) : Str :=
  [92, 117, hexDigit (v / 4096), hexDigit (v / 256 % 16), hexDigit (v / 16 % 16), hexDigit (v % 16)]

def quoteRune (r : Rune) : Str :=
  match r.value with
  | none => unicodeEscape 0xFFFD
  | some v =>
    if v = 34 || v = 92 then [92, UInt8.ofNat v]
    else if v = 8 then lit "\\b"
    else if v = 12 then lit "\\f"
    else if v = 10 then lit "\\n"
    else if v = 13 then lit "\\r"
    else if v = 9 then lit "\\t"
    else if v < 32 || v = 38 || v = 60 || v = 62 || v = 0x2028 || v = 0x2029 then unicodeEscape v
    else r.bytes

def quoted (s : Str) : Str := [34] ++ (runes s).flatMap quoteRune ++ [34]

def integerText (v : ℤ) : Str :=
  (if v < 0 then [45] else []) ++ lit (Nat.repr v.natAbs)

mutual

/-- `json.Marshal`. A number that is no integer has lost its literal: one stands for all. -/
def render : Json → Str
  | .null => lit "null"
  | .bool true => lit "true"
  | .bool false => lit "false"
  | .number (some v) => integerText v
  | .number none => lit "0.5"
  | .string text _ => quoted text
  | .array items => [91] ++ renderItems items ++ [93]
  | .object members => [123] ++ renderMembers members ++ [125]

def renderItems : List Json → Str
  | [] => []
  | [v] => render v
  | v :: w :: rest => render v ++ [44] ++ renderItems (w :: rest)

def renderMembers : List (Str × Json) → Str
  | [] => []
  | [m] => quoted m.1 ++ [58] ++ render m.2
  | m :: n :: rest => quoted m.1 ++ [58] ++ render m.2 ++ [44] ++ renderMembers (n :: rest)

end

/-! ## Reading -/

def isBlank (b : UInt8) : Bool := b = 32 || b = 9 || b = 10 || b = 13

def skip (s : Str) : Str := s.dropWhile isBlank

/-- `utf8.EncodeRune` of a code point that is no surrogate. -/
def encodeRune (v : ℕ) : Str :=
  if v < 0x80 then [UInt8.ofNat v]
  else if v < 0x800 then [UInt8.ofNat (0xC0 + v / 64), UInt8.ofNat (0x80 + v % 64)]
  else if v < 0x10000 then
    [UInt8.ofNat (0xE0 + v / 4096), UInt8.ofNat (0x80 + v / 64 % 64), UInt8.ofNat (0x80 + v % 64)]
  else
    [UInt8.ofNat (0xF0 + v / 262144), UInt8.ofNat (0x80 + v / 4096 % 64),
      UInt8.ofNat (0x80 + v / 64 % 64), UInt8.ofNat (0x80 + v % 64)]

def hexFour : Str → Option (ℕ × Str)
  | a :: b :: c :: d :: rest =>
    if isHex a && isHex b && isHex c && isHex d then
      some ((((unhex a).toNat * 16 + (unhex b).toNat) * 16 + (unhex c).toNat) * 16 +
        (unhex d).toNat, rest)
    else none
  | _ => none

/-- The second half of a surrogate pair. -/
def lowSurrogate : Str → Option (ℕ × Str)
  | 92 :: 117 :: rest => (hexFour rest).filter fun p => 0xDC00 ≤ p.1 && p.1 < 0xE000
  | _ => none

/-- What follows `\u`. A surrogate without its other half reads as U+FFFD. -/
def unicodeText (s : Str) : Option (Str × Str) :=
  (hexFour s).map fun (v, rest) =>
    if 0xD800 ≤ v && v < 0xE000 then
      match (lowSurrogate rest).filter fun _ => v < 0xDC00 with
      | some (w, rest) => (encodeRune (0x10000 + (v - 0xD800) * 1024 + (w - 0xDC00)), rest)
      | none => (replacement.bytes, rest)
    else (encodeRune v, rest)

/-- What follows a backslash. -/
def escapeText : Str → Option (Str × Str)
  | 34 :: rest => some ([34], rest)
  | 92 :: rest => some ([92], rest)
  | 47 :: rest => some ([47], rest)
  | 98 :: rest => some ([8], rest)
  | 102 :: rest => some ([12], rest)
  | 110 :: rest => some ([10], rest)
  | 114 :: rest => some ([13], rest)
  | 116 :: rest => some ([9], rest)
  | 117 :: rest => unicodeText rest
  | _ => none

/-- The text of a string up to its closing quote, whether an escape occurs in it, and what follows.
A byte that starts no valid encoding reads as U+FFFD. -/
def scanText : ℕ → Str → Option (Str × Bool × Str)
  | 0, _ => none
  | _, [] => none
  | n + 1, b :: rest =>
    if b = 34 then some ([], false, rest)
    else if b = 92 then
      (escapeText rest).bind fun (text, rest) =>
        (scanText n rest).map fun (more, _, rest) => (text ++ more, true, rest)
    else if b < 32 then none
    else
      let r := decodeRune b rest
      (scanText n (rest.drop (r.bytes.length - 1))).map fun (more, escaped, rest) =>
        ((if r.value = none then replacement.bytes else r.bytes) ++ more, escaped, rest)

/-- The digits of a number before its fraction. Behind a leading zero no digit is taken. -/
def integerPart (s : Str) : Option (ℕ × Str) :=
  match s.takeWhile isDigit with
  | [] => none
  | [b] => some (b.toNat - 48, s.dropWhile isDigit)
  | 48 :: _ => some (0, s.drop 1)
  | ds => some (DecimalText.value ds, s.dropWhile isDigit)

/-- A fraction: none where a point has no digit behind it. -/
def fractionPart : Str → Option (Bool × Str)
  | 46 :: rest =>
    if (rest.takeWhile isDigit).isEmpty then none else some (true, rest.dropWhile isDigit)
  | s => some (false, s)

def exponentPart : Str → Option (Bool × Str)
  | b :: rest =>
    if b = 101 || b = 69 then
      let digits := match rest with
        | c :: after => if c = 43 || c = 45 then after else rest
        | [] => []
      if (digits.takeWhile isDigit).isEmpty then none else some (true, digits.dropWhile isDigit)
    else some (false, b :: rest)
  | [] => some (false, [])

def scanNumber (s : Str) : Option (Json × Str) :=
  let (negative, unsigned) := match s with
    | 45 :: rest => (true, rest)
    | _ => (false, s)
  (integerPart unsigned).bind fun (v, rest) =>
    (fractionPart rest).bind fun (fraction, rest) =>
      (exponentPart rest).map fun (exponent, rest) =>
        (.number (if fraction || exponent then none
          else some (if negative then -(v : ℤ) else v)), rest)

def after (word : String) (s : Str) : Option Str :=
  if (lit word).isPrefixOf s then some (s.drop (lit word).length) else none

mutual

/-- One value with white space before it. The first argument bounds the calls, the second is
how much deeper arrays and objects may nest. -/
def scanValue : ℕ → ℕ → Str → Option (Json × Str)
  | 0, _, _ => none
  | n + 1, depth, s =>
    match skip s with
    | [] => none
    | b :: rest =>
      if b = 34 then (scanText (rest.length + 1) rest).map fun (text, escaped, rest) =>
        (.string text escaped, rest)
      else if b = 91 then
        match depth with
        | 0 => none
        | depth + 1 =>
          match skip rest with
          | 93 :: rest => some (.array [], rest)
          | _ => (scanItems n depth rest).map fun (items, rest) => (.array items, rest)
      else if b = 123 then
        match depth with
        | 0 => none
        | depth + 1 =>
          match skip rest with
          | 125 :: rest => some (.object [], rest)
          | _ => (scanMembers n depth rest).map fun (members, rest) => (.object members, rest)
      else if b = 110 then (after "null" (b :: rest)).map fun rest => (.null, rest)
      else if b = 116 then (after "true" (b :: rest)).map fun rest => (.bool true, rest)
      else if b = 102 then (after "false" (b :: rest)).map fun rest => (.bool false, rest)
      else scanNumber (b :: rest)

def scanItems : ℕ → ℕ → Str → Option (List Json × Str)
  | 0, _, _ => none
  | n + 1, depth, s =>
    (scanValue n depth s).bind fun (v, rest) =>
      match skip rest with
      | 44 :: rest => (scanItems n depth rest).map fun (items, rest) => (v :: items, rest)
      | 93 :: rest => some ([v], rest)
      | _ => none

def scanMembers : ℕ → ℕ → Str → Option (List (Str × Json) × Str)
  | 0, _, _ => none
  | n + 1, depth, s =>
    match skip s with
    | 34 :: rest => (scanText (rest.length + 1) rest).bind fun (key, _, rest) =>
      match skip rest with
      | 58 :: rest => (scanValue n depth rest).bind fun (v, rest) =>
        match skip rest with
        | 44 :: rest => (scanMembers n depth rest).map fun (members, rest) =>
          ((key, v) :: members, rest)
        | 125 :: rest => some ([(key, v)], rest)
        | _ => none
      | _ => none
    | _ => none

end

def maxNestingDepth : ℕ := 10000

/-- The one value of a text, with white space around it. -/
def scan (s : Str) : Option Json :=
  (scanValue (s.length + 1) maxNestingDepth s).bind fun (v, rest) =>
    if (skip rest).isEmpty then some v else none

/-! ## Runes and escapes -/

theorem continues_iff {b : UInt8} : continues b = true ↔ 128 ≤ b.toNat ∧ b.toNat ≤ 191 := by
  simp [continues, UInt8.le_iff_toNat_le]

/-- The second byte of a rune of three or four bytes. -/
theorem bounds_of_secondOk {a b : UInt8} (h : secondOk a b = true) :
    128 ≤ b.toNat ∧ b.toNat ≤ 191 ∧ (a = 0xE0 → 160 ≤ b.toNat) ∧ (a = 0xF0 → 144 ≤ b.toNat) ∧
      (a = 0xF4 → b.toNat ≤ 143) := by
  unfold secondOk at h
  split at h
  · rename_i ha
    subst ha
    simp [UInt8.le_iff_toNat_le] at h ⊢
    omega
  split at h
  · rename_i ha
    subst ha
    simp [UInt8.le_iff_toNat_le] at h ⊢
    omega
  split at h
  · rename_i ha
    subst ha
    simp [UInt8.le_iff_toNat_le] at h ⊢
    omega
  split at h
  · rename_i ha
    subst ha
    simp [UInt8.le_iff_toNat_le] at h ⊢
    omega
  · rename_i h1 h2 h3 h4
    obtain ⟨hlow, hhigh⟩ := continues_iff.mp h
    exact ⟨hlow, hhigh, fun h => absurd h h1, fun h => absurd h h3, fun h => absurd h h4⟩

theorem encode_two {a b : UInt8} (ha : (0xC2 ≤ a && a ≤ 0xDF) = true) (hb : continues b = true) :
    encodeRune (a.toNat % 32 * 64 + low b) = [a, b] := by
  obtain ⟨hlow, hhigh⟩ := continues_iff.mp hb
  have hlead : 194 ≤ a.toNat ∧ a.toNat ≤ 223 := by simpa [UInt8.le_iff_toNat_le] using ha
  unfold encodeRune low
  rw [if_neg (by omega), if_pos (by omega), @ofNat_eq a _ (by omega),
    @ofNat_eq b _ (by omega)]

theorem encode_three {a b c : UInt8} (ha : (0xE0 ≤ a && a ≤ 0xEF) = true)
    (hb : secondOk a b = true) (hc : continues c = true) :
    encodeRune ((a.toNat % 16 * 64 + low b) * 64 + low c) = [a, b, c] := by
  obtain ⟨hlow, hhigh, hshort, -, -⟩ := bounds_of_secondOk hb
  obtain ⟨hlow', hhigh'⟩ := continues_iff.mp hc
  have hlead : 224 ≤ a.toNat ∧ a.toNat ≤ 239 := by simpa [UInt8.le_iff_toNat_le] using ha
  have hmin : a.toNat = 224 → 160 ≤ b.toNat := fun h => hshort (UInt8.toNat_inj.mp h)
  unfold encodeRune low
  rw [if_neg (by omega), if_neg (by omega), if_pos (by omega), @ofNat_eq a _ (by omega),
    @ofNat_eq b _ (by omega), @ofNat_eq c _ (by omega)]

theorem encode_four {a b c d : UInt8} (ha : (0xF0 ≤ a && a ≤ 0xF4) = true)
    (hb : secondOk a b = true) (hc : continues c = true) (hd : continues d = true) :
    encodeRune (((a.toNat % 8 * 64 + low b) * 64 + low c) * 64 + low d) = [a, b, c, d] := by
  obtain ⟨hlow, hhigh, -, hshort, -⟩ := bounds_of_secondOk hb
  obtain ⟨hlow', hhigh'⟩ := continues_iff.mp hc
  obtain ⟨hlow'', hhigh''⟩ := continues_iff.mp hd
  have hlead : 240 ≤ a.toNat ∧ a.toNat ≤ 244 := by simpa [UInt8.le_iff_toNat_le] using ha
  have hmin : a.toNat = 240 → 144 ≤ b.toNat := fun h => hshort (UInt8.toNat_inj.mp h)
  unfold encodeRune low
  rw [if_neg (by omega), if_neg (by omega), if_neg (by omega), @ofNat_eq a _ (by omega),
    @ofNat_eq b _ (by omega), @ofNat_eq c _ (by omega),
    @ofNat_eq d _ (by omega)]

/-- Encoding a decoded rune yields its bytes. -/
theorem encodeRune_decodeRune {a : UInt8} {rest : Str} {v : ℕ}
    (h : (decodeRune a rest).value = some v) : encodeRune v = (decodeRune a rest).bytes := by
  unfold decodeRune at h ⊢
  by_cases h1 : a < 0x80
  · rw [if_pos h1] at h ⊢
    cases h
    have hlt : a.toNat < 128 := by simpa [UInt8.lt_iff_toNat_lt] using h1
    simp [encodeRune, hlt]
  rw [if_neg h1] at h ⊢
  by_cases h2 : (0xC2 ≤ a && a ≤ 0xDF) = true
  · rw [if_pos h2] at h ⊢
    rcases rest with _ | ⟨b, t⟩
    · cases h
    dsimp only at h ⊢
    split at h
    · rename_i hb
      rw [if_pos hb]
      cases h
      exact encode_two h2 hb
    · cases h
  rw [if_neg h2] at h ⊢
  by_cases h3 : (0xE0 ≤ a && a ≤ 0xEF) = true
  · rw [if_pos h3] at h ⊢
    rcases rest with _ | ⟨b, _ | ⟨c, t⟩⟩
    · cases h
    · cases h
    dsimp only at h ⊢
    split at h
    · rename_i hb
      rw [if_pos hb]
      cases h
      rw [Bool.and_eq_true] at hb
      exact encode_three h3 hb.1 hb.2
    · cases h
  rw [if_neg h3] at h ⊢
  by_cases h4 : (0xF0 ≤ a && a ≤ 0xF4) = true
  · rw [if_pos h4] at h ⊢
    rcases rest with _ | ⟨b, _ | ⟨c, _ | ⟨d, t⟩⟩⟩
    · cases h
    · cases h
    · cases h
    dsimp only at h ⊢
    split at h
    · rename_i hb
      rw [if_pos hb]
      cases h
      rw [Bool.and_eq_true, Bool.and_eq_true] at hb
      exact encode_four h4 hb.1.1 hb.1.2 hb.2
    · cases h
  · rw [if_neg h4] at h
    cases h

/-! ## Quoted texts -/

/-- A rune as it stands in a text. -/
def Decoded (r : Rune) : Prop := ∃ a rest, r = decodeRune a rest

theorem decoded_of_mem {s : Str} {r : Rune} (h : r ∈ runes s) : Decoded r := by
  induction s using rune_induction with
  | nil => cases h
  | cons a rest ih =>
    rw [runes_cons] at h
    rcases List.mem_cons.mp h with rfl | h
    · exact ⟨a, rest, rfl⟩
    · exact ih h

/-- What a rune reads as. -/
def settled (r : Rune) : Str := if r.value = none then replacement.bytes else r.bytes

theorem hexFour_escape {v : ℕ} (h : v < 65536) (rest : Str) :
    hexFour (hexDigit (v / 4096) :: hexDigit (v / 256 % 16) :: hexDigit (v / 16 % 16) ::
      hexDigit (v % 16) :: rest) = some (v, rest) := by
  have hdigit : ∀ d < 16, isHex (hexDigit d) = true ∧ (unhex (hexDigit d)).toNat = d := by decide
  obtain ⟨h1, v1⟩ := hdigit (v / 4096) (by omega)
  obtain ⟨h2, v2⟩ := hdigit (v / 256 % 16) (by omega)
  obtain ⟨h3, v3⟩ := hdigit (v / 16 % 16) (by omega)
  obtain ⟨h4, v4⟩ := hdigit (v % 16) (by omega)
  simp only [hexFour, h1, h2, h3, h4, v1, v2, v3, v4, Bool.and_self, if_true]
  congr 2
  omega

theorem unicodeText_escape {v : ℕ} (h : v < 65536) (hrange : v < 0xD800 ∨ 0xE000 ≤ v) (rest : Str) :
    escapeText ((unicodeEscape v).tail ++ rest) = some (encodeRune v, rest) := by
  have hno : (decide (0xD800 ≤ v) && decide (v < 0xE000)) = false := by
    rw [Bool.and_eq_false_iff, decide_eq_false_iff_not, decide_eq_false_iff_not]
    omega
  simp only [unicodeEscape, List.tail_cons, List.cons_append, List.nil_append, escapeText,
    unicodeText, hexFour_escape h, Option.map_some, hno, Bool.false_eq_true, if_false]

/-- A backslash and what it stands for. -/
theorem scanText_escape {text rest after : Str} (h : escapeText rest = some (text, after)) (n : ℕ) :
    scanText (n + 1) (92 :: rest) =
      (scanText n after).map fun (more, _, rest) => (text ++ more, true, rest) := by
  simp [scanText, h]

/-- A rune that stands for itself. -/
theorem scanText_rune {r : Rune} (hr : Decoded r) {v : ℕ} (hv : r.value = some v)
    (hplain : ¬ (v < 32 ∨ v = 34 ∨ v = 92)) (n : ℕ) (t : Str) :
    scanText (n + 1) (r.bytes ++ t) =
      (scanText n t).map fun (more, escaped, rest) => (r.bytes ++ more, escaped, rest) := by
  obtain ⟨a, rest, rfl⟩ := hr
  obtain ⟨⟨c, bs, hbytes, -, hdecode⟩, -⟩ := @decodeRune_whole a rest (by simp [hv])
  -- A lead byte past ASCII is no quote, and an ASCII byte is its own value.
  have hfirst : ¬ (c = 34 ∨ c = 92 ∨ c < 32) := by
    intro hc
    apply hplain
    have hascii : c < 0x80 := by
      rcases hc with rfl | rfl | hc
      · decide
      · decide
      · exact UInt8.lt_trans hc (by decide)
    have hvalue := congrArg Rune.value (hdecode t)
    rw [hv] at hvalue
    unfold decodeRune at hvalue
    rw [if_pos hascii] at hvalue
    rw [← Option.some.inj hvalue]
    rcases hc with rfl | rfl | hc
    · exact Or.inr (Or.inl rfl)
    · exact Or.inr (Or.inr rfl)
    · exact Or.inl (UInt8.lt_iff_toNat_lt.mp hc)
  rw [not_or, not_or] at hfirst
  rw [hbytes, List.cons_append, scanText, if_neg hfirst.1, if_neg hfirst.2.1, if_neg hfirst.2.2]
  simp [hdecode t, hv, hbytes]

/-- Whether `json.Marshal` escapes a rune. -/
def escapedRune (r : Rune) : Bool :=
  match r.value with
  | none => true
  | some v => v < 32 || v = 34 || v = 92 || v = 38 || v = 60 || v = 62 || v = 0x2028 || v = 0x2029

theorem escapes_eq (s : Str) : escapes s = (runes s).any escapedRune := rfl

/-- An escape is read as the rune it was written for. -/
theorem escapeText_quote {r : Rune} (hr : Decoded r) (h : escapedRune r = true) :
    ∃ tail, quoteRune r = 92 :: tail ∧ ∀ t, escapeText (tail ++ t) = some (settled r, t) := by
  unfold escapedRune at h
  unfold quoteRune settled
  split at h
  · rename_i hnone
    rw [hnone]
    exact ⟨_, rfl, fun t => unicodeText_escape (by decide) (by decide) t⟩
  · rename_i v hv
    rw [hv]
    have hbytes : r.bytes = encodeRune v := by
      obtain ⟨a, rest, rfl⟩ := hr
      exact (encodeRune_decodeRune hv).symm
    rw [if_neg (Option.some_ne_none v), hbytes]
    by_cases h34 : v = 34
    · subst h34
      exact ⟨[34], rfl, fun _ => rfl⟩
    by_cases h92 : v = 92
    · subst h92
      exact ⟨[92], rfl, fun _ => rfl⟩
    rw [if_neg (by simp [h34, h92])]
    by_cases h8 : v = 8
    · subst h8
      exact ⟨[98], rfl, fun _ => rfl⟩
    by_cases h12 : v = 12
    · subst h12
      exact ⟨[102], rfl, fun _ => rfl⟩
    by_cases h10 : v = 10
    · subst h10
      exact ⟨[110], rfl, fun _ => rfl⟩
    by_cases h13 : v = 13
    · subst h13
      exact ⟨[114], rfl, fun _ => rfl⟩
    by_cases h9 : v = 9
    · subst h9
      exact ⟨[116], rfl, fun _ => rfl⟩
    have hrest : v < 32 ∨ v = 38 ∨ v = 60 ∨ v = 62 ∨ v = 0x2028 ∨ v = 0x2029 := by
      simp only [Bool.or_eq_true, decide_eq_true_eq] at h
      omega
    rw [if_neg h8, if_neg h12, if_neg h10, if_neg h13, if_neg h9,
      if_pos (by simpa [or_assoc] using hrest)]
    exact ⟨_, rfl, fun t => unicodeText_escape (by omega) (by omega) t⟩

theorem quoteRune_plain {r : Rune} (h : escapedRune r = false) :
    quoteRune r = r.bytes ∧ settled r = r.bytes ∧
      ∃ v, r.value = some v ∧ ¬ (v < 32 ∨ v = 34 ∨ v = 92) := by
  unfold escapedRune at h
  unfold quoteRune settled
  split at h
  · cases h
  · rename_i v hv
    rw [hv]
    simp only [Bool.or_eq_false_iff, decide_eq_false_iff_not] at h
    obtain ⟨⟨⟨⟨⟨⟨⟨h32, h34⟩, h92⟩, h38⟩, h60⟩, h62⟩, h2028⟩, h2029⟩ := h
    refine ⟨?_, by simp, v, rfl, by omega⟩
    rw [if_neg (by simp [h34, h92]), if_neg (by omega), if_neg (by omega), if_neg (by omega),
      if_neg (by omega), if_neg (by omega), if_neg (by simp [h38, h60, h62, h2028, h2029]; omega)]

theorem scanText_quote {rs : List Rune} (hrs : ∀ r ∈ rs, Decoded r) {n : ℕ} (hn : rs.length < n)
    (rest : Str) :
    scanText n (rs.flatMap quoteRune ++ 34 :: rest) =
      some (rs.flatMap settled, rs.any escapedRune, rest) := by
  induction rs generalizing n with
  | nil =>
    obtain ⟨m, rfl⟩ : ∃ m, n = m + 1 := ⟨n - 1, by simp at hn; omega⟩
    rfl
  | cons r rs ih =>
    obtain ⟨m, rfl⟩ : ∃ m, n = m + 1 := ⟨n - 1, by simp at hn; omega⟩
    have hdecoded := hrs r List.mem_cons_self
    have hrest := ih (fun q hq => hrs q (List.mem_cons_of_mem r hq)) (n := m)
      (by simpa using hn)
    rw [List.flatMap_cons, List.append_assoc, List.flatMap_cons, List.any_cons]
    by_cases hescape : escapedRune r = true
    · obtain ⟨tail, hquote, hread⟩ := escapeText_quote hdecoded hescape
      rw [hquote, List.cons_append, scanText_escape (hread _), hrest, hescape]
      rfl
    · rw [Bool.not_eq_true] at hescape
      obtain ⟨hquote, hsettled, v, hv, hplain⟩ := quoteRune_plain hescape
      rw [hquote, scanText_rune hdecoded hv hplain, hrest, hescape, hsettled]
      rfl

theorem length_quoteRune {r : Rune} (hr : Decoded r) : 0 < (quoteRune r).length := by
  by_cases hescape : escapedRune r = true
  · obtain ⟨tail, hquote, -⟩ := escapeText_quote hr hescape
    rw [hquote]
    exact Nat.succ_pos _
  · rw [Bool.not_eq_true] at hescape
    obtain ⟨a, rest, rfl⟩ := hr
    obtain ⟨hquote, -, v, hv, -⟩ := quoteRune_plain hescape
    obtain ⟨-, bs, -, hbytes, -⟩ := @decodeRune_whole a rest (by simp [hv])
    rw [hquote, hbytes]
    exact Nat.succ_pos _

theorem length_flatMap_quote {rs : List Rune} (hrs : ∀ r ∈ rs, Decoded r) :
    rs.length ≤ (rs.flatMap quoteRune).length := by
  induction rs with
  | nil => exact Nat.le_refl 0
  | cons r rs ih =>
    have hrest := ih fun q hq => hrs q (List.mem_cons_of_mem r hq)
    have hpos := length_quoteRune (hrs r List.mem_cons_self)
    rw [List.flatMap_cons, List.length_append, List.length_cons]
    omega

/-- A quoted text reads as the text with each invalid byte replaced. -/
theorem scanText_quoted (s rest : Str) :
    scanText (((runes s).flatMap quoteRune ++ 34 :: rest).length + 1)
      ((runes s).flatMap quoteRune ++ 34 :: rest) = some (toValid s, escapes s, rest) := by
  have hdecoded : ∀ r ∈ runes s, Decoded r := fun r => decoded_of_mem
  have hlength := length_flatMap_quote hdecoded
  exact scanText_quote hdecoded (by rw [List.length_append]; omega) rest

example : scanText 20 (lit "\\ud83d\\ude00\"]") = some (lit "😀", true, lit "]") := by decide

/-! ## Numbers -/

/-- What may follow a value in a text that was written: the end or one of `,`, `]` and a closing
brace. -/
def Stop (s : Str) : Prop := ∀ b rest, s = b :: rest → b = 44 ∨ b = 93 ∨ b = 125

theorem stop_cons {b : UInt8} (h : b = 44 ∨ b = 93 ∨ b = 125) (rest : Str) : Stop (b :: rest) :=
  fun _ _ heq => (List.cons.inj heq).1 ▸ h

theorem not_digit_of_stop {s : Str} (h : Stop s) :
    s.takeWhile isDigit = [] ∧ s.dropWhile isDigit = s := by
  cases s with
  | nil => exact ⟨rfl, rfl⟩
  | cons b rest =>
    have hno : isDigit b = false := by
      rcases h b rest rfl with rfl | rfl | rfl <;> rfl
    simp [hno]

theorem span_digits {ds rest : Str} (hds : ∀ b ∈ ds, isDigit b = true) (h : Stop rest) :
    (ds ++ rest).takeWhile isDigit = ds ∧ (ds ++ rest).dropWhile isDigit = rest := by
  obtain ⟨htake, hdrop⟩ := not_digit_of_stop h
  rw [List.takeWhile_append_of_pos hds, List.dropWhile_append_of_pos hds, htake, hdrop,
    List.append_nil]
  exact ⟨rfl, rfl⟩

/-- A printed number of two digits or more has no leading zero. -/
theorem repr_no_zero (n : ℕ) (ds : Str) (hds : ds ≠ []) : lit (Nat.repr n) ≠ 48 :: ds := by
  intro h
  have hdigits : ∀ b ∈ ds, isDigit b = true := fun b hb =>
    DecimalText.digit_of_mem_repr (h ▸ List.mem_cons_of_mem 48 hb)
  have hvalue : DecimalText.value ds = n := by
    rw [← DecimalText.value_repr n, h]
    rfl
  have hlt := DecimalText.value_lt hdigits
  have hlength : (lit (Nat.repr n)).length ≤ ds.length := by
    rw [DecimalText.lit_repr, List.length_map]
    exact (Nat.length_toDigits_le_iff (by omega) (List.length_pos_of_ne_nil hds)).mpr (hvalue ▸ hlt)
  rw [h, List.length_cons] at hlength
  omega

theorem span_repr (n : ℕ) {rest : Str} (h : Stop rest) :
    (lit (Nat.repr n) ++ rest).takeWhile isDigit = lit (Nat.repr n) ∧
      (lit (Nat.repr n) ++ rest).dropWhile isDigit = rest :=
  span_digits (fun _ => DecimalText.digit_of_mem_repr) h

theorem integerPart_repr (n : ℕ) {rest : Str} (h : Stop rest) :
    integerPart (lit (Nat.repr n) ++ rest) = some (n, rest) := by
  obtain ⟨htake, hdrop⟩ := span_repr n h
  have hvalue := DecimalText.value_repr n
  unfold integerPart
  rw [htake, hdrop]
  split
  · rename_i hnil
    exact absurd hnil (DecimalText.repr_ne_nil n)
  · rename_i b hone
    rw [hone] at hvalue
    rw [← hvalue]
    simp [DecimalText.value]
  · rename_i ds hzero hmany
    exact absurd hmany (repr_no_zero n ds hzero)
  · rw [hvalue]

theorem fraction_of_stop {s : Str} (h : Stop s) :
    fractionPart s = some (false, s) ∧ exponentPart s = some (false, s) := by
  cases s with
  | nil => exact ⟨rfl, rfl⟩
  | cons b rest => rcases h b rest rfl with rfl | rfl | rfl <;> exact ⟨rfl, rfl⟩

theorem scanNumber_integer (v : ℤ) {rest : Str} (h : Stop rest) :
    scanNumber (integerText v ++ rest) = some (.number (some v), rest) := by
  obtain ⟨hfraction, hexponent⟩ := fraction_of_stop h
  have hpart := integerPart_repr v.natAbs h
  unfold integerText scanNumber
  by_cases hneg : v < 0
  · rw [if_pos hneg]
    have hnegative : -(v.natAbs : ℤ) = v := by omega
    rw [List.append_assoc, List.singleton_append]
    simp only [hpart, hfraction, hexponent, Option.bind_some, Option.map_some, Bool.or_self,
      Bool.false_eq_true, if_false, if_true, hnegative]
  · -- The first byte is a digit, so no sign is read.
    have hno : ∀ t, lit (Nat.repr v.natAbs) ++ rest ≠ 45 :: t := by
      intro t heq
      have hdigit := (span_repr v.natAbs h).1
      rw [heq] at hdigit
      exact DecimalText.repr_ne_nil v.natAbs hdigit.symm
    rw [if_neg hneg, List.nil_append]
    split
    rename_i negative unsigned hsign
    split at hsign
    · rename_i t heq
      exact absurd heq (hno t)
    · cases hsign
      simp [hpart, hfraction, hexponent]
      omega

/-! ## Values -/

mutual

/-- How deep arrays and objects nest. -/
def depth : Json → ℕ
  | .array items => depthItems items + 1
  | .object members => depthMembers members + 1
  | _ => 0

def depthItems : List Json → ℕ
  | [] => 0
  | v :: rest => max (depth v) (depthItems rest)

def depthMembers : List (Str × Json) → ℕ
  | [] => 0
  | m :: rest => max (depth m.2) (depthMembers rest)

end

mutual

/-- The value with its texts as `json.Marshal` writes them. -/
def marshalled : Json → Json
  | .string text _ => jsonString text
  | .array items => .array (marshalledItems items)
  | .object members => .object (marshalledMembers members)
  | v => v

def marshalledItems : List Json → List Json
  | [] => []
  | v :: rest => marshalled v :: marshalledItems rest

def marshalledMembers : List (Str × Json) → List (Str × Json)
  | [] => []
  | m :: rest => (toValid m.1, marshalled m.2) :: marshalledMembers rest

end

theorem marshalledItems_eq (items : List Json) : marshalledItems items = items.map marshalled := by
  induction items with
  | nil => rfl
  | cons v rest ih => rw [marshalledItems, ih, List.map_cons]

theorem marshalledMembers_eq (members : List (Str × Json)) :
    marshalledMembers members = members.map fun m => (toValid m.1, marshalled m.2) := by
  induction members with
  | nil => rfl
  | cons m rest ih => rw [marshalledMembers, ih, List.map_cons]

theorem depthItems_le {items : List Json} {n : ℕ} (h : ∀ v ∈ items, depth v ≤ n) :
    depthItems items ≤ n := by
  induction items with
  | nil => exact Nat.zero_le n
  | cons v rest ih =>
    rw [depthItems]
    exact Nat.max_le.mpr ⟨h v List.mem_cons_self, ih fun w hw => h w (List.mem_cons_of_mem v hw)⟩

theorem depthMembers_le {members : List (Str × Json)} {n : ℕ} (h : ∀ m ∈ members, depth m.2 ≤ n) :
    depthMembers members ≤ n := by
  induction members with
  | nil => exact Nat.zero_le n
  | cons m rest ih =>
    rw [depthMembers]
    exact Nat.max_le.mpr ⟨h m List.mem_cons_self, ih fun w hw => h w (List.mem_cons_of_mem m hw)⟩

/-- ASCII text that needs no escape is written as it is. -/
theorem jsonString_plain {s : Str} (h : ∀ b ∈ s, b < 0x80 ∧ escapedRune (single b) = false) :
    jsonString s = .string s false := by
  have hrunes := runes_ascii fun b hb => (h b hb).1
  rw [jsonString, toValid_of_valid (valid_ascii fun b hb => (h b hb).1), escapes_eq, hrunes,
    List.any_map]
  congr 1
  rw [List.any_eq_false]
  intro b hb
  rw [Function.comp_apply, (h b hb).2]
  exact Bool.false_ne_true

theorem skip_of_solid {b : UInt8} (h : isBlank b = false) (rest : Str) :
    skip (b :: rest) = b :: rest := by
  rw [skip, List.dropWhile_cons_of_neg (by simp [h])]

/-- A byte a written value may begin with. -/
def opens (b : UInt8) : Bool :=
  isDigit b || b = 45 || b = 34 || b = 91 || b = 123 || b = 110 || b = 116 || b = 102

theorem opens_solid : ∀ b : UInt8, opens b = true →
    isBlank b = false ∧ b ≠ 93 ∧ b ≠ 125 :=
  forall_byte (by decide +kernel)

theorem integerText_opens (v : ℤ) :
    ∃ b rest, integerText v = b :: rest ∧ (isDigit b = true ∨ b = 45) := by
  unfold integerText
  by_cases hneg : v < 0
  · rw [if_pos hneg]
    exact ⟨45, _, rfl, Or.inr rfl⟩
  · rw [if_neg hneg, List.nil_append]
    cases htext : lit (Nat.repr v.natAbs) with
    | nil => exact absurd htext (DecimalText.repr_ne_nil v.natAbs)
    | cons b rest =>
      have hdigit : isDigit b = true :=
        @DecimalText.digit_of_mem_repr v.natAbs b (htext ▸ List.mem_cons_self)
      exact ⟨b, rest, rfl, Or.inl hdigit⟩

theorem render_opens (v : Json) : ∃ b rest, render v = b :: rest ∧ opens b = true := by
  cases v with
  | null => exact ⟨110, lit "ull", rfl, rfl⟩
  | bool b =>
    cases b
    · exact ⟨102, lit "alse", rfl, rfl⟩
    · exact ⟨116, lit "rue", rfl, rfl⟩
  | number n =>
    cases n with
    | none => exact ⟨48, lit ".5", rfl, rfl⟩
    | some v =>
      obtain ⟨b, rest, htext, hfirst⟩ := integerText_opens v
      refine ⟨b, rest, htext, ?_⟩
      rcases hfirst with hdigit | rfl
      · simp [opens, hdigit]
      · rfl
  | string text escaped => exact ⟨34, _, rfl, rfl⟩
  | array items => exact ⟨91, _, rfl, rfl⟩
  | object members => exact ⟨123, _, rfl, rfl⟩

theorem scanNumber_fraction {rest : Str} (h : Stop rest) :
    scanNumber (lit "0.5" ++ rest) = some (.number none, rest) := by
  obtain ⟨-, hexponent⟩ := fraction_of_stop h
  obtain ⟨htake, hdrop⟩ := @span_digits [53] rest (by decide) h
  have hfraction : fractionPart (46 :: 53 :: rest) = some (true, rest) := by
    rw [List.singleton_append] at htake hdrop
    simp [fractionPart, htake, hdrop]
  have hinteger : integerPart (48 :: 46 :: 53 :: rest) = some (0, 46 :: 53 :: rest) := rfl
  change scanNumber (48 :: 46 :: 53 :: rest) = _
  simp [scanNumber, hinteger, hfraction, hexponent]

/-- What `scanValue` does once the white space is gone. -/
theorem scanValue_number {b : UInt8} (h : isDigit b = true ∨ b = 45) (n d : ℕ) (rest : Str) :
    scanValue (n + 1) d (b :: rest) = scanNumber (b :: rest) := by
  have hfirst : ∀ c : UInt8, isDigit c = true ∨ c = 45 → isBlank c = false ∧ c ≠ 34 ∧ c ≠ 91 ∧
      c ≠ 123 ∧ c ≠ 110 ∧ c ≠ 116 ∧ c ≠ 102 := forall_byte (by decide +kernel)
  obtain ⟨hblank, h34, h91, h123, h110, h116, h102⟩ := hfirst b h
  rw [scanValue, skip_of_solid hblank]
  simp only [if_neg h34, if_neg h91, if_neg h123, if_neg h110, if_neg h116, if_neg h102]

/-- The values that hold no other. -/
theorem scanValue_scalar {v : Json} (hv : depth v = 0) {n d : ℕ} {rest : Str}
    (h : Stop rest) : scanValue (n + 1) d (render v ++ rest) = some (marshalled v, rest) := by
  cases v with
  | null => rfl
  | bool b => cases b <;> rfl
  | number n =>
    cases n with
    | none => exact (scanValue_number (Or.inl rfl) _ _ _).trans (scanNumber_fraction h)
    | some v =>
      have hread := scanNumber_integer v h
      obtain ⟨b, tail, htext, hfirst⟩ := integerText_opens v
      rw [render, htext]
      rw [htext] at hread
      exact (scanValue_number hfirst _ _ _).trans hread
  | string text escaped =>
    have hread := scanText_quoted text rest
    rw [render, quoted, List.append_assoc, List.append_assoc, List.singleton_append,
      List.singleton_append, scanValue, skip_of_solid rfl]
    simp only [if_true, hread]
    rfl
  | array items => cases hv
  | object members => cases hv

/-- What the three scanners read, given so many calls. -/
structure Reads (n : ℕ) : Prop where
  value : ∀ v d rest, (render v).length ≤ n → depth v ≤ d → Stop rest →
    scanValue n d (render v ++ rest) = some (marshalled v, rest)
  items : ∀ items d rest, items ≠ [] → (renderItems items).length < n → depthItems items ≤ d →
    scanItems n d (renderItems items ++ 93 :: rest) = some (marshalledItems items, rest)
  members : ∀ members d rest, members ≠ [] → (renderMembers members).length < n →
    depthMembers members ≤ d →
    scanMembers n d (renderMembers members ++ 125 :: rest) = some (marshalledMembers members, rest)

theorem render_pos (v : Json) : 0 < (render v).length := by
  obtain ⟨b, rest, h, -⟩ := render_opens v
  rw [h]
  exact Nat.succ_pos _

theorem renderItems_cons (v : Json) (items : List Json) :
    renderItems (v :: items) = render v ++
      match items with
      | [] => []
      | w :: rest => 44 :: renderItems (w :: rest) := by
  cases items with
  | nil => rw [renderItems, List.append_nil]
  | cons w rest => rw [renderItems, List.append_assoc, List.singleton_append]

theorem renderMembers_cons (m : Str × Json) (members : List (Str × Json)) :
    renderMembers (m :: members) = quoted m.1 ++ 58 :: (render m.2 ++
      match members with
      | [] => []
      | w :: rest => 44 :: renderMembers (w :: rest)) := by
  cases members with
  | nil => simp [renderMembers]
  | cons w rest => simp [renderMembers]

theorem scanValue_items {b : UInt8} (hb : opens b = true) (n d : ℕ) (t : Str) :
    scanValue (n + 1) (d + 1) (91 :: b :: t) =
      (scanItems n d (b :: t)).map fun (items, rest) => (.array items, rest) := by
  obtain ⟨hblank, h93, -⟩ := opens_solid b hb
  rw [scanValue, skip_of_solid rfl]
  simp only [skip_of_solid hblank]
  rw [if_neg (by decide), if_pos trivial]
  split
  · rename_i heq
    exact absurd (List.cons.inj heq).1 h93
  · rfl

theorem reads_value {n : ℕ} (ih : Reads n) (v : Json) {d : ℕ} {rest : Str}
    (hlen : (render v).length ≤ n + 1) (hdepth : depth v ≤ d) (h : Stop rest) :
    scanValue (n + 1) d (render v ++ rest) = some (marshalled v, rest) := by
  cases v with
  | null => exact scanValue_scalar rfl h
  | bool b => exact scanValue_scalar rfl h
  | number n => exact scanValue_scalar rfl h
  | string text escaped => exact scanValue_scalar rfl h
  | array items =>
    obtain ⟨d, rfl⟩ : ∃ e, d = e + 1 := ⟨d - 1, by rw [depth] at hdepth; omega⟩
    cases items with
    | nil => rfl
    | cons v items =>
      have hread := ih.items (v :: items) d rest (by simp)
        (by simp only [render, List.length_append, List.length_singleton] at hlen; omega)
        (by rw [depth] at hdepth; omega)
      obtain ⟨b, tail, htext, hopens⟩ := render_opens v
      rw [render, List.append_assoc, List.append_assoc, List.singleton_append,
        List.singleton_append]
      rw [renderItems_cons, htext, List.cons_append, List.cons_append] at hread ⊢
      rw [scanValue_items hopens, hread]
      rfl
  | object members =>
    obtain ⟨d, rfl⟩ : ∃ e, d = e + 1 := ⟨d - 1, by rw [depth] at hdepth; omega⟩
    cases members with
    | nil => rfl
    | cons m members =>
      have hread := ih.members (m :: members) d rest (by simp)
        (by simp only [render, List.length_append, List.length_singleton] at hlen; omega)
        (by rw [depth] at hdepth; omega)
      rw [render, List.append_assoc, List.append_assoc, List.singleton_append,
        List.singleton_append]
      rw [renderMembers_cons, quoted, List.append_assoc, List.append_assoc, List.append_assoc,
        List.singleton_append] at hread ⊢
      rw [scanValue, skip_of_solid rfl]
      simp only [skip_of_solid (b := 34) rfl]
      rw [hread]
      rfl

theorem reads_items {n : ℕ} (ih : Reads n) (items : List Json) {d : ℕ} (rest : Str)
    (hne : items ≠ []) (hlen : (renderItems items).length < n + 1) (hdepth : depthItems items ≤ d) :
    scanItems (n + 1) d (renderItems items ++ 93 :: rest) = some (marshalledItems items, rest) := by
  cases items with
  | nil => exact absurd rfl hne
  | cons v items =>
    rw [depthItems] at hdepth
    rw [renderItems_cons, List.length_append] at hlen
    rw [renderItems_cons, List.append_assoc, scanItems]
    cases items with
    | nil =>
      rw [List.nil_append, ih.value v d _ (by simpa using Nat.lt_succ_iff.mp hlen) (by omega)
        (stop_cons (by simp) rest)]
      rfl
    | cons w items =>
      simp only [List.length_cons] at hlen
      dsimp only
      rw [List.cons_append, ih.value v d _ (by omega) (by omega) (stop_cons (by simp) _)]
      have hrest := ih.items (w :: items) d rest (by simp) (by omega) (by omega)
      rw [Option.bind_some]
      simp only [skip_of_solid (b := 44) rfl, hrest]
      rfl

theorem reads_members {n : ℕ} (ih : Reads n) (members : List (Str × Json)) {d : ℕ} (rest : Str)
    (hne : members ≠ []) (hlen : (renderMembers members).length < n + 1)
    (hdepth : depthMembers members ≤ d) :
    scanMembers (n + 1) d (renderMembers members ++ 125 :: rest) =
      some (marshalledMembers members, rest) := by
  cases members with
  | nil => exact absurd rfl hne
  | cons m members =>
    rw [depthMembers] at hdepth
    rw [renderMembers_cons, List.length_append, List.length_cons, List.length_append] at hlen
    have hkey (t : Str) : scanMembers (n + 1) d (quoted m.1 ++ 58 :: t) =
        (scanValue n d t).bind fun (v, rest) =>
          match skip rest with
          | 44 :: rest => (scanMembers n d rest).map fun (members, rest) =>
            ((toValid m.1, v) :: members, rest)
          | 125 :: rest => some ([(toValid m.1, v)], rest)
          | _ => none := by
      have htext := scanText_quoted m.1 (58 :: t)
      rw [quoted, List.append_assoc, List.append_assoc, List.singleton_append,
        List.singleton_append, scanMembers, skip_of_solid rfl]
      split
      · rename_i text heq
        obtain ⟨-, rfl⟩ := List.cons.inj heq
        rw [htext, Option.bind_some]
        simp only [skip_of_solid (b := 58) rfl]
      · rename_i hno
        exact absurd rfl (hno _)
    rw [renderMembers_cons, List.append_assoc, List.cons_append, List.append_assoc, hkey]
    cases members with
    | nil =>
      simp only [List.length_nil] at hlen
      rw [List.nil_append, ih.value m.2 d _ (by omega) (by omega) (stop_cons (by simp) rest)]
      rfl
    | cons w members =>
      simp only [List.length_cons] at hlen
      dsimp only
      rw [List.cons_append, ih.value m.2 d _ (by omega) (by omega) (stop_cons (by simp) _)]
      have hrest := ih.members (w :: members) d rest (by simp) (by omega) (by omega)
      rw [Option.bind_some]
      simp only [skip_of_solid (b := 44) rfl, hrest]
      rfl

/-- What was written is read, whatever calls are left over. -/
theorem reads (n : ℕ) : Reads n := by
  induction n with
  | zero =>
    constructor
    · intro v d rest hlen
      exact absurd (render_pos v) (by omega)
    · intro items d rest _ hlen
      exact absurd hlen (Nat.not_lt_zero _)
    · intro members d rest _ hlen
      exact absurd hlen (Nat.not_lt_zero _)
  | succ n ih =>
    constructor
    · intro v d rest hlen hdepth h
      exact reads_value ih v hlen hdepth h
    · intro items d rest hne hlen hdepth
      exact reads_items ih items rest hne hlen hdepth
    · intro members d rest hne hlen hdepth
      exact reads_members ih members rest hne hlen hdepth

/-- `json.Unmarshal` finds in what `json.Marshal` wrote the value that was written. -/
theorem scan_render (v : Json) (h : depth v ≤ maxNestingDepth) :
    scan (render v) = some (marshalled v) := by
  have hread := (reads ((render v).length + 1)).value v maxNestingDepth [] (by omega) h
    (fun _ _ heq => nomatch heq)
  rw [List.append_nil] at hread
  rw [scan, hread]
  rfl

end JsonText
