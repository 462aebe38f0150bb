import ShortQ.CsvLinks
import ShortQ.TimeText

/-! # One cell, out and back

Each column is written by its own encoder, passes `safeCSVCell` and the CSV file, is trimmed, and
is read by its own decoder. -/
namespace CsvCells

open CsvLinks
open CsvText
open GoText
open GoTime (Time)
open JsonValues
open LinkHandlers (formatSeconds parseInt)
open Models
open Runes

/-- A cell as the import sees it. -/
def cell (x : Str) : Str := trimSpace (crlf (safeCSVCell x))

/-- No white space around it, no CRLF in it, and no formula. -/
structure Survives (x : Str) : Prop where
  trimmed : trimSpace x = x
  lines : crlf x = x
  plain : formula x = false

/-! ## Line ends and white space -/

theorem length_crlf_le (x : Str) : (crlf x).length ≤ x.length := by
  induction x using crlf_induction with
  | nil => exact le_refl _
  | newline rest ih =>
    rw [crlf, List.length_cons, List.length_cons, List.length_cons]
    omega
  | other b rest hrest ih =>
    rw [crlf_cons hrest, List.length_cons, List.length_cons]
    omega

theorem crlf_fixed {x : Str} (h : (crlf x).length = x.length) : crlf x = x := by
  induction x using crlf_induction with
  | nil => rfl
  | newline rest ih =>
    have hle := length_crlf_le rest
    rw [crlf, List.length_cons, List.length_cons, List.length_cons] at h
    omega
  | other b rest hrest ih =>
    rw [crlf_cons hrest] at h ⊢
    rw [ih (by simpa using h)]

theorem crlf_append {b : UInt8} (hb : b ≠ 10) (x y : Str) :
    crlf (x ++ b :: y) = crlf x ++ crlf (b :: y) := by
  induction x using crlf_induction with
  | nil => rfl
  | newline rest ih =>
    rw [List.cons_append, List.cons_append, crlf, crlf, ih, List.cons_append]
  | other c rest hrest ih =>
    have hkeep : c = 13 → (rest ++ b :: y).head? ≠ some 10 := by
      intro hc hhead
      cases rest with
      | nil => exact hb (Option.some.inj hhead)
      | cons d rest => exact hrest hc hhead
    rw [List.cons_append, crlf_cons hkeep, crlf_cons hrest, ih, List.cons_append]

theorem mem_crlf {x : Str} {b : UInt8} (h : b ∈ crlf x) : b ∈ x := by
  induction x using crlf_induction with
  | nil => exact h
  | newline rest ih =>
    rw [crlf] at h
    rcases List.mem_cons.mp h with rfl | h
    · simp
    · exact List.mem_cons_of_mem _ (List.mem_cons_of_mem _ (ih h))
  | other c rest hrest ih =>
    rw [crlf_cons hrest] at h
    rcases List.mem_cons.mp h with rfl | h
    · exact List.mem_cons_self
    · exact List.mem_cons_of_mem _ (ih h)

/-- Dropping CR before LF drops their runes. -/
theorem runes_crlf (x : Str) : (∀ r, (runes (crlf x)).head? = some r →
      (runes x).head? = some r ∨ (runes x).head? = some (single 13)) ∧
    (runes (crlf x)).getLast? = (runes x).getLast? ∧ ∀ r ∈ runes (crlf x), r ∈ runes x := by
  induction hn : x.length using Nat.strong_induction_on generalizing x with
  | _ n ih =>
    by_cases hmem : ∃ front rest, x = front ++ 13 :: 10 :: rest
    · -- the first CRLF splits the text into runes that stay and a shorter text
      obtain ⟨front, rest, rfl⟩ := hmem
      have hcut : crlf (front ++ 13 :: 10 :: rest) = crlf front ++ 10 :: crlf rest := by
        rw [crlf_append (by decide)]
        rfl
      have hfront := ih front.length (by rw [← hn]; simp) front rfl
      have hrest := ih rest.length (by rw [← hn]; simp; omega) rest rfl
      rw [hcut, runes_append_ascii (by decide), runes_append_ascii (by decide)]
      have hten : runes (10 :: rest) = single 10 :: runes rest :=
        runes_append_ascii (by decide) [] rest
      rw [hten]
      refine ⟨?_, ?_, ?_⟩
      · intro r hr
        cases hruns : runes (crlf front) with
        | nil =>
          rw [hruns] at hr
          have hnil : front = [] := by
            by_contra hne
            have hlast := hfront.2.1
            rw [hruns] at hlast
            have hempty := List.getLast?_eq_none_iff.mp hlast.symm
            rw [← bytesOf_runes front, hempty] at hne
            exact hne rfl
          right
          rw [hnil]
          rfl
        | cons q qs =>
          rw [hruns] at hr hfront
          cases hr
          rcases hfront.1 r rfl with hhead | hhead
          · left
            rw [List.head?_append, hhead]
            rfl
          · right
            rw [List.head?_append, hhead]
            rfl
      · rw [List.getLast?_append, List.getLast?_append, List.getLast?_cons, List.getLast?_cons,
          List.getLast?_cons, hrest.2.1]
        rfl
      · intro r hr
        simp only [List.mem_append, List.mem_cons] at hr ⊢
        rcases hr with hr | rfl | hr
        · exact Or.inl (hfront.2.2 r hr)
        · exact Or.inr (Or.inr (Or.inl rfl))
        · exact Or.inr (Or.inr (Or.inr (hrest.2.2 r hr)))
    · have hkeep : crlf x = x := by
        clear ih hn
        induction x using crlf_induction with
        | nil => rfl
        | newline rest ih => exact absurd ⟨[], rest, rfl⟩ hmem
        | other b rest hrest ih =>
          rw [crlf_cons hrest, ih]
          rintro ⟨front, tail, heq⟩
          exact hmem ⟨b :: front, tail, by rw [heq, List.cons_append]⟩
      rw [hkeep]
      exact ⟨fun r hr => Or.inl hr, rfl, fun r hr => hr⟩

/-- Text without white space around it stays so. -/
theorem trimSpace_crlf {x : Str} (h : trimSpace x = x) : trimSpace (crlf x) = crlf x := by
  obtain ⟨hhead, hlast⟩ := trimSpace_eq_self.mp h
  obtain ⟨hfirst, hend, -⟩ := runes_crlf x
  rw [trimSpace_eq_self]
  constructor
  · intro r hr
    rcases hfirst r hr with hr | hr
    · exact hhead r hr
    · exact absurd (hhead _ hr) (by decide)
  · intro r hr
    rw [hend] at hr
    exact hlast r hr

theorem valid_crlf {x : Str} (h : validUtf8 x = true) : validUtf8 (crlf x) = true := by
  unfold validUtf8 at h ⊢
  rw [List.all_eq_true] at h ⊢
  intro r hr
  exact h r ((runes_crlf x).2.2 r hr)

/-- A text that begins with an apostrophe is trimmed at its end only. -/
theorem trimSpace_quote (x : Str) : ∃ y, trimSpace (39 :: x) = 39 :: y := by
  have hrunes : runes (39 :: x) = single 39 :: runes x := runes_append_ascii (by decide) [] x
  have hfront : (runes (39 :: x)).dropWhile isSpace = single 39 :: runes x := by
    rw [hrunes]
    exact List.dropWhile_cons_of_neg (by decide)
  have hprefix := List.rdropWhile_prefix isSpace (single 39 :: runes x)
  have hne : (single 39 :: runes x).rdropWhile isSpace ≠ [] := by
    intro hnil
    have hall := List.rdropWhile_eq_nil_iff.mp hnil (single 39) List.mem_cons_self
    revert hall
    decide
  rw [trimSpace_eq, trimmed, hfront]
  obtain ⟨tail, htail⟩ := hprefix
  cases hkept : (single 39 :: runes x).rdropWhile isSpace with
  | nil => exact absurd hkept hne
  | cons r rest =>
    rw [hkept, List.cons_append] at htail
    have hr := (List.cons.inj htail).1
    exact ⟨bytesOf rest, by rw [hr]; rfl⟩

theorem cell_of_plain {x : Str} (h : formula x = false) : cell x = trimSpace (crlf x) := by
  rw [cell, safeCSVCell, h]
  rfl

theorem cell_of_formula {x : Str} (h : formula x = true) : cell x = trimSpace (39 :: crlf x) := by
  rw [cell, safeCSVCell, h, if_pos rfl, crlf_cons fun heq => absurd heq (by decide)]

theorem Survives.cell {x : Str} (h : Survives x) : cell x = x := by
  rw [cell_of_plain h.plain, h.lines, h.trimmed]

/-- A text comes back unchanged exactly when it survives. -/
theorem cell_eq_self {x : Str} : cell x = x ↔ Survives x := by
  constructor
  · intro h
    cases hplain : formula x with
    | true =>
      rw [cell_of_formula hplain] at h
      obtain ⟨y, hy⟩ := trimSpace_quote (crlf x)
      rw [hy] at h
      rw [← h] at hplain
      cases hplain
    | false =>
      rw [cell_of_plain hplain] at h
      have htrim := length_trimSpace_le (crlf x)
      have hlines := length_crlf_le x
      rw [h] at htrim
      have hfixed := crlf_fixed (x := x) (by omega)
      rw [hfixed] at h
      exact ⟨h, hfixed, hplain⟩
  · exact Survives.cell

instance (x : Str) : Decidable (Survives x) := decidable_of_iff (cell x = x) cell_eq_self

/-- The import trims every cell. -/
theorem trimSpace_cell (x : Str) : trimSpace (cell x) = cell x := trimSpace_trimSpace _

/-! ## Numbers and words -/

/-- A byte of a token: printable, and no blank. -/
def tokenByte (b : UInt8) : Bool := 33 ≤ b && b ≤ 126

theorem tokenByte_spec : ∀ b : UInt8, tokenByte b = true →
    b < 0x80 ∧ b ≠ 13 ∧ isSpace (single b) = false ∧
      (b = 32 || b = 9 || b = 13 || b = 10) = false :=
  forall_byte (by decide +kernel)

theorem formula_cons {b : UInt8} (h : (b = 32 || b = 9 || b = 13 || b = 10) = false) (x : Str) :
    formula (b :: x) = (b = 61 || b = 43 || b = 45 || b = 64) := by
  rw [formula, List.dropWhile_cons_of_neg (by rw [h]; decide)]

theorem survives_token {x : Str} (h : ∀ b ∈ x, tokenByte b = true)
    (hhead : ∀ b rest, x = b :: rest → (b = 61 || b = 43 || b = 45 || b = 64) = false) :
    Survives x := by
  constructor
  · apply trimSpace_of_solid
    rw [runes_ascii fun b hb => (tokenByte_spec b (h b hb)).1]
    intro r hr
    obtain ⟨b, hb, rfl⟩ := List.mem_map.mp hr
    rw [(tokenByte_spec b (h b hb)).2.2.1]
    decide
  · apply crlf_of_notMem
    intro hmem
    exact (tokenByte_spec 13 (h 13 hmem)).2.1 rfl
  · cases x with
    | nil => rfl
    | cons b rest =>
      rw [formula_cons (tokenByte_spec b (h b List.mem_cons_self)).2.2.2]
      exact hhead b rest rfl

theorem digit_token : ∀ b : UInt8, isDigit b = true →
    tokenByte b = true ∧ (b = 61 || b = 43 || b = 45 || b = 64) = false :=
  forall_byte (by decide +kernel)

theorem survives_repr (n : ℕ) : Survives (lit (Nat.repr n)) := by
  apply survives_token
  · intro b hb
    exact (digit_token b (DecimalText.digit_of_mem_repr hb)).1
  · intro b rest heq
    refine (digit_token b (DecimalText.digit_of_mem_repr (n := n) ?_)).2
    rw [heq]
    exact List.mem_cons_self

theorem parseInt_digits (n : ℕ) :
    parseInt (lit (Nat.repr n)) = if n < 2 ^ 63 then some (n : ℤ) else none := by
  have hdigit : ∀ b rest, lit (Nat.repr n) = b :: rest → isDigit b = true := by
    intro b rest heq
    refine DecimalText.digit_of_mem_repr (n := n) ?_
    rw [heq]
    exact List.mem_cons_self
  have hdecimal := DecimalText.decimal_repr n
  generalize lit (Nat.repr n) = s at hdigit hdecimal
  unfold parseInt
  split
  · exact absurd (hdigit 45 _ rfl) (by decide)
  · exact absurd (hdigit 43 _ rfl) (by decide)
  · rw [hdecimal, Option.bind_some]

theorem parseInt_repr {n : ℕ} (h : n < 2 ^ 63) : parseInt (lit (Nat.repr n)) = some (n : ℤ) :=
  (parseInt_digits n).trans (if_pos h)

/-- A click limit is read back when it fits. -/
theorem limit_cell {m : ℤ} (hpos : 1 ≤ m) :
    cell (AuditedHandlers.formatInt m) ≠ [] ∧
      parseInt (cell (AuditedHandlers.formatInt m)) = if m ≤ int64Max then some m else none := by
  obtain ⟨n, rfl⟩ := Int.eq_ofNat_of_zero_le (show 0 ≤ m by omega)
  have hformat : AuditedHandlers.formatInt (n : ℤ) = lit (Nat.repr n) := rfl
  rw [hformat, (survives_repr n).cell, parseInt_digits]
  refine ⟨DecimalText.repr_ne_nil n, ?_⟩
  unfold int64Max
  by_cases hfits : n < 2 ^ 63
  · rw [if_pos hfits, if_pos (by omega)]
  · rw [if_neg hfits, if_neg (by omega)]

theorem code_cell {code : ℤ} (h : code = 301 ∨ code = 302 ∨ code = 307 ∨ code = 308) :
    cell (AuditedHandlers.formatInt code) ≠ [] ∧
      atoi (cell (AuditedHandlers.formatInt code)) = code := by
  rcases h with rfl | rfl | rfl | rfl <;> decide

theorem bool_cell (b : Bool) : cell (formatBool b) ≠ [] ∧
    parseBool (cell (formatBool b)) = some b := by
  cases b <;> decide

theorem visibility_cell {v : Str} (h : v = lit "private" ∨ v = lit "department") : cell v = v := by
  rcases h with rfl | rfl <;> decide

/-! ## Instants -/

/-- The UTC year of an instant. -/
def utcYear (t : Time) : ℤ := (GoTime.civil (t.nanos / GoTime.day)).1

theorem formatSeconds_eq {t : Time} {year month d : ℤ}
    (h : GoTime.civil (t.nanos / GoTime.day) = (year, month, d)) :
    formatSeconds t = (if year < 0 then [45] else []) ++ GoTime.digits 4 year.natAbs ++ lit "-" ++
      GoTime.digits 2 month ++ lit "-" ++ GoTime.digits 2 d ++ lit "T" ++
      GoTime.digits 2 (t.nanos % GoTime.day / GoTime.second / 3600) ++ lit ":" ++
      GoTime.digits 2 (t.nanos % GoTime.day / GoTime.second / 60 % 60) ++ lit ":" ++
      GoTime.digits 2 (t.nanos % GoTime.day / GoTime.second % 60) ++ lit "Z" := by
  rw [formatSeconds, h]

theorem all_token_digits (k n : ℕ) : (GoTime.digits k (n : ℤ)).all tokenByte = true :=
  List.all_eq_true.mpr fun b hb => (digit_token b (DecimalText.digit_of_mem_digits hb)).1

/-- The text of a four-digit year is kept as it is. -/
theorem survives_clockText {year month d hour minute sec : ℕ} {text : Str}
    (htext : text.all tokenByte = true) :
    Survives (TimeText.clockText year month d hour minute sec text) := by
  have hdash : (lit "-").all tokenByte = true := by decide
  have hT : (lit "T").all tokenByte = true := by decide
  have hcolon : (lit ":").all tokenByte = true := by decide
  have hZ : (lit "Z").all tokenByte = true := by decide
  apply survives_token
  · apply List.all_eq_true.mp
    simp only [TimeText.clockText, List.all_append, all_token_digits, hdash, hT, hcolon, hZ,
      htext, Bool.and_self]
  · intro b rest heq
    have hne : GoTime.digits 4 (year : ℤ) ≠ [] := by
      rw [DecimalText.digits_ofNat]
      exact List.append_ne_nil_of_right_ne_nil _ (DecimalText.repr_ne_nil year)
    obtain ⟨c, tail, hc⟩ := List.exists_cons_of_ne_nil hne
    have hdigit : isDigit c = true := by
      refine DecimalText.digit_of_mem_digits (k := 4) (n := year) ?_
      rw [hc]
      exact List.mem_cons_self
    obtain rfl : c = b := by
      simp only [TimeText.clockText, hc, List.cons_append] at heq
      exact (List.cons.inj heq).1
    exact (digit_token c hdigit).2

/-- Text that begins with five digits is no instant. -/
theorem parse_long_year {ds rest : Str} (hlong : 5 ≤ ds.length) (hds : ∀ b ∈ ds, isDigit b = true) :
    GoTime.parseRFC3339 (ds ++ rest) = none := by
  have hdrop : ∃ b tail, (ds ++ rest).drop 4 = b :: tail ∧ isDigit b = true := by
    have hne : ds.drop 4 ≠ [] := by
      intro hnil
      have hlength := congrArg List.length hnil
      rw [List.length_drop, List.length_nil] at hlength
      omega
    obtain ⟨b, tail, heq⟩ := List.exists_cons_of_ne_nil hne
    refine ⟨b, tail ++ rest, ?_, hds b (List.mem_of_mem_drop (i := 4) ?_)⟩
    · rw [List.drop_append_of_le_length (by omega), heq, List.cons_append]
    · rw [heq]
      exact List.mem_cons_self
  obtain ⟨b, tail, heq, hdigit⟩ := hdrop
  have hminus : b ≠ 45 := by
    rintro rfl
    revert hdigit
    decide
  unfold GoTime.parseRFC3339
  cases hfield : GoTime.fixed 4 (ds ++ rest) with
  | none => rfl
  | some p =>
    obtain ⟨v, after⟩ := p
    have hafter : after = b :: tail := by
      unfold GoTime.fixed at hfield
      split at hfield
      · obtain ⟨w, -, hw⟩ := Option.map_eq_some_iff.mp hfield
        rw [← (Prod.mk.inj hw).2, heq]
      · cases hfield
    rw [hafter]
    change (GoTime.expect 45 (b :: tail)).bind _ = none
    rw [GoTime.expect, if_neg hminus]
    rfl

theorem parse_sign {b : UInt8} (h : isDigit b = false) (x : Str) :
    GoTime.parseRFC3339 (b :: x) = none := by
  unfold GoTime.parseRFC3339
  rw [DecimalText.fixed_sign h (by decide)]
  rfl

/-- An instant comes back to the second, unless its year has more than four digits or a sign. -/
theorem expiry_cell (t : Time) : cell (formatSeconds t) ≠ [] ∧
    GoTime.parseRFC3339 (cell (formatSeconds t)) =
      if 0 ≤ utcYear t ∧ utcYear t ≤ 9999 then some ⟨t.nanos / GoTime.second * GoTime.second⟩
      else none := by
  obtain ⟨year, month, d, hcivil⟩ :
      ∃ year month d, GoTime.civil (t.nanos / GoTime.day) = (year, month, d) := ⟨_, _, _, rfl⟩
  have hutc : utcYear t = year := by rw [utcYear, hcivil]
  rw [hutc]
  by_cases hneg : year < 0
  · have hformula : formula (formatSeconds t) = true := by
      rw [formatSeconds_eq hcivil, if_pos hneg]
      simp only [List.append_assoc, List.cons_append]
      rw [formula_cons (by decide)]
      decide
    obtain ⟨y, hy⟩ := trimSpace_quote (crlf (formatSeconds t))
    rw [cell_of_formula hformula, hy, if_neg (by omega)]
    exact ⟨List.cons_ne_nil _ _, parse_sign (by decide) y⟩
  · obtain ⟨y, m, n, hour, minute, sec, nanos, rfl, rfl, rfl, hh, hmin, hs, hfrac, hdate, hhour,
      hminute, hsec, hnanos, htime⟩ := TimeText.time_eq hcivil (by omega)
    have hformat : formatSeconds t = TimeText.clockText y m n hour minute sec [] := by
      refine (formatSeconds_eq hcivil).trans ?_
      rw [hh, hmin, hs, if_neg (by omega)]
      simp only [TimeText.clockText, List.nil_append, List.append_nil, Int.natAbs_natCast]
    rw [hformat, (survives_clockText rfl).cell]
    constructor
    · intro hnil
      have hlast := congrArg List.getLast? hnil
      rw [TimeText.clockText, List.getLast?_append] at hlast
      cases hlast
    by_cases hyear : y ≤ 9999
    · rw [if_pos (by omega)]
      have hparse := TimeText.parse_clockText hdate (by omega) hhour hminute hsec
        (by decide : 0 < 10 ^ 9)
      have hzero : GoTime.fractionText ((0 : ℕ) : ℤ) = [] := rfl
      have hsecond : GoTime.second = 1000000000 := rfl
      rw [hzero] at hparse
      rw [hparse, htime, hsecond]
      generalize GoTime.daysFromEpoch y m n * 86400 + ((hour * 3600 + minute * 60 + sec : ℕ) : ℤ) =
        seconds
      have hfloor : (seconds * 1000000000 + (nanos : ℤ)) / 1000000000 = seconds := by omega
      rw [hfloor, Int.natCast_zero, Int.add_zero]
    · rw [if_neg (by omega)]
      have hlong : 5 ≤ (GoTime.digits 4 (y : ℤ)).length := by
        rw [DecimalText.digits_ofNat, List.length_append, DecimalText.lit_repr, List.length_map]
        by_contra hshort
        have hlt := (Nat.length_toDigits_le_iff (b := 10) (n := y) (by omega) (k := 4)
          (by omega)).mp (by omega)
        omega
      simp only [TimeText.clockText, List.append_assoc]
      exact parse_long_year hlong fun b hb => DecimalText.digit_of_mem_digits hb

/-! ## Geo targets -/

theorem hexDigit_return : ∀ v : Fin 16, JsonText.hexDigit v ≠ 13 := by decide

theorem notMem_unicodeEscape {v : ℕ} (h : v < 65536) : (13 : UInt8) ∉ JsonText.unicodeEscape v := by
  have hdigit (w : ℕ) (hw : w < 16) : (13 : UInt8) ≠ JsonText.hexDigit w :=
    fun heq => hexDigit_return ⟨w, hw⟩ heq.symm
  have h₁ := hdigit (v / 4096) (by omega)
  have h₂ := hdigit (v / 256 % 16) (by omega)
  have h₃ := hdigit (v / 16 % 16) (by omega)
  have h₄ := hdigit (v % 16) (by omega)
  simp [JsonText.unicodeEscape, h₁, h₂, h₃, h₄]

/-- A quoted text has no CR of its own. -/
theorem notMem_quoteRune {r : Rune} (h : JsonText.Decoded r) :
    (13 : UInt8) ∉ JsonText.quoteRune r := by
  unfold JsonText.quoteRune
  split
  · exact notMem_unicodeEscape (by decide)
  · rename_i v hv
    by_cases hquote : v = 34 ∨ v = 92
    · rw [if_pos (by simpa using hquote)]
      rcases hquote with rfl | rfl <;> decide
    rw [if_neg (by simpa using hquote)]
    by_cases h8 : v = 8
    · rw [if_pos h8]
      decide
    by_cases h12 : v = 12
    · rw [if_neg h8, if_pos h12]
      decide
    by_cases h10 : v = 10
    · rw [if_neg h8, if_neg h12, if_pos h10]
      decide
    by_cases h13 : v = 13
    · rw [if_neg h8, if_neg h12, if_neg h10, if_pos h13]
      decide
    by_cases h9 : v = 9
    · rw [if_neg h8, if_neg h12, if_neg h10, if_neg h13, if_pos h9]
      decide
    rw [if_neg h8, if_neg h12, if_neg h10, if_neg h13, if_neg h9]
    split
    · rename_i hescape
      simp only [Bool.or_eq_true, decide_eq_true_eq] at hescape
      exact notMem_unicodeEscape (by omega)
    · intro hmem
      obtain ⟨a, rest, rfl⟩ := h
      rw [eq_single_of_mem (by decide) hmem] at hv
      exact h13 (Option.some.inj hv).symm

theorem notMem_quoted (s : Str) : (13 : UInt8) ∉ JsonText.quoted s := by
  intro hmem
  simp only [JsonText.quoted, List.mem_append, List.mem_singleton] at hmem
  rcases hmem with (hmem | hmem) | hmem
  · exact absurd hmem (by decide)
  · obtain ⟨r, hr, hb⟩ := List.mem_flatMap.mp hmem
    exact notMem_quoteRune (JsonText.decoded_of_mem hr) hb
  · exact absurd hmem (by decide)

theorem notMem_geoJson (target : GeoTarget) :
    (13 : UInt8) ∉ JsonText.render (GeoTarget.json target) := by
  intro hmem
  simp only [GeoTarget.json, JsonText.render, JsonText.renderMembers, List.mem_append,
    List.mem_singleton] at hmem
  have hconst (b : UInt8) (hb : b ≠ 13) : ¬ (13 : UInt8) = b := fun heq => hb heq.symm
  simp only [notMem_quoted, hconst 123 (by decide), hconst 125 (by decide),
    hconst 58 (by decide), hconst 44 (by decide), or_self] at hmem

theorem notMem_geoCell (targets : List GeoTarget) : (13 : UInt8) ∉ geoCell targets := by
  have hitems : (13 : UInt8) ∉ JsonText.renderItems (targets.map GeoTarget.json) := by
    induction targets with
    | nil => simp [JsonText.renderItems]
    | cons target rest ih =>
      rw [List.map_cons, JsonText.renderItems_cons, List.mem_append, not_or]
      refine ⟨notMem_geoJson target, ?_⟩
      cases rest with
      | nil => exact List.not_mem_nil
      | cons next rest =>
        rw [List.map_cons, List.mem_cons, not_or]
        exact ⟨by decide, ih⟩
  intro hmem
  simp only [geoCell, JsonText.render, List.mem_append, List.mem_singleton] at hmem
  rcases hmem with (hmem | hmem) | hmem
  · exact absurd hmem (by decide)
  · exact hitems hmem
  · exact absurd hmem (by decide)

theorem survives_geoCell (targets : List GeoTarget) : Survives (geoCell targets) := by
  have htext : geoCell targets =
      91 :: (JsonText.renderItems (targets.map GeoTarget.json) ++ [93]) := by
    rw [geoCell, JsonText.render, List.append_assoc, List.singleton_append]
  constructor
  · rw [trimSpace_eq_self, htext]
    have hrunes : runes (91 :: (JsonText.renderItems (targets.map GeoTarget.json) ++ [93])) =
        single 91 :: (runes (JsonText.renderItems (targets.map GeoTarget.json)) ++
          [single 93]) := by
      rw [← List.nil_append (91 :: _), runes_append_ascii (by decide),
        runes_append_ascii (by decide)]
      rfl
    rw [hrunes]
    constructor
    · intro r hr
      cases hr
      decide
    · intro r hr
      rw [← List.cons_append, List.getLast?_concat] at hr
      cases hr
      decide
  · exact crlf_of_notMem (notMem_geoCell targets)
  · rw [htext, formula_cons (by decide)]
    decide

theorem depth_geo (target : GeoTarget) : JsonText.depth (GeoTarget.json target) = 1 := by
  simp [GeoTarget.json, JsonText.depth, JsonText.depthMembers]

/-- A geo target with valid texts is read back. -/
theorem geoTarget_json {t : GeoTarget}
    (ht : validUtf8 t.countryCode = true ∧ validUtf8 t.targetUrl = true) :
    geoTarget (JsonText.marshalled (GeoTarget.json t)) = (t, true) := by
  have hcountry : fieldNamed [.countryCode, .targetUrl] GeoField.name
      (toValid (lit "country_code")) = some .countryCode := by decide
  have hurl : fieldNamed [.countryCode, .targetUrl] GeoField.name
      (toValid (lit "target_url")) = some .targetUrl := by decide
  simp only [GeoTarget.json, JsonText.marshalled, JsonText.marshalledMembers, geoTarget,
    List.foldl_cons, List.foldl_nil, hcountry, hurl, GeoField.store, jsonString, stringValue,
    toValid_of_valid ht.1, toValid_of_valid ht.2]

theorem map_geoTarget {targets : List GeoTarget}
    (h : ∀ t ∈ targets, validUtf8 t.countryCode = true ∧ validUtf8 t.targetUrl = true) :
    (JsonText.marshalledItems (targets.map GeoTarget.json)).map geoTarget =
      targets.map fun t => (t, true) := by
  rw [JsonText.marshalledItems_eq, List.map_map, List.map_map]
  apply List.map_congr_left
  intro t ht
  exact geoTarget_json (h t ht)

/-- Geo targets with valid texts are read back. -/
theorem geoTargets_geoCell {targets : List GeoTarget}
    (h : ∀ t ∈ targets, validUtf8 t.countryCode = true ∧ validUtf8 t.targetUrl = true) :
    geoTargets (geoCell targets) = (targets, true) := by
  have hdepth : JsonText.depth (.array (targets.map GeoTarget.json)) ≤
      JsonText.maxNestingDepth := by
    have hitems : JsonText.depthItems (targets.map GeoTarget.json) ≤ 1 := by
      apply JsonText.depthItems_le
      intro v hv
      obtain ⟨target, -, rfl⟩ := List.mem_map.mp hv
      exact (depth_geo target).le
    rw [JsonText.depth, JsonText.maxNestingDepth]
    omega
  have hscan := JsonText.scan_render _ hdepth
  have hread := map_geoTarget h
  rw [JsonText.marshalled] at hscan
  generalize JsonText.marshalledItems (targets.map GeoTarget.json) = items at hscan hread
  unfold geoTargets geoCell
  rw [hscan]
  dsimp only
  have hfst := congrArg (List.map Prod.fst) hread
  have hsnd := congrArg (fun l => (l.map Prod.snd).all id) hread
  simp only [List.map_map, List.all_map] at hfst hsnd
  congr 1
  · exact hfst.trans (List.map_id targets)
  · refine hsnd.trans ?_
    rw [List.all_eq_true]
    intro t _
    rfl

end CsvCells
