import ShortQ.GoUrl
import ShortQ.Runes

/-! # Percent escapes

What `escape` writes `unescape` reads, byte by byte, as far as the mode allows the byte. -/
namespace UrlEscapes

open GoText
open GoUrl
open Runes

theorem hexPair_upperHex : ∀ c : UInt8, isHex (upperHex (c / 16)) = true ∧
    isHex (upperHex (c % 16)) = true ∧ hexPair (upperHex (c / 16)) (upperHex (c % 16)) = c ∧
    (unhex (upperHex (c / 16)) < 8 ↔ c < 128) ∧
    (upperHex (c / 16) = 50 ∧ upperHex (c % 16) = 53 ↔ c = 37) :=
  forall_byte (by decide +kernel)

theorem shouldEscape_percent (mode : Mode) : shouldEscape 37 mode = true := by
  cases mode <;> rfl

theorem isAlnum_toNat {c : UInt8} (h : isAlnum c = true) :
    65 ≤ c.toNat ∧ c.toNat ≤ 90 ∨ 97 ≤ c.toNat ∧ c.toNat ≤ 122 ∨ 48 ≤ c.toNat ∧ c.toNat ≤ 57 := by
  simpa [isAlnum, isLetter, isDigit, UInt8.le_iff_toNat_le, or_assoc] using h

theorem isAlnum_of_isHex {c : UInt8} (h : isHex c = true) : isAlnum c = true := by
  simp only [isHex, isAlnum, isLetter, isDigit, Bool.or_eq_true, Bool.and_eq_true,
    decide_eq_true_eq, UInt8.le_iff_toNat_le, UInt8.reduceToNat] at h ⊢
  omega

/-- A letter or a digit is none of the bytes a URL is cut at. -/
theorem isAlnum_plain {c : UInt8} (h : isAlnum c = true) :
    c < 128 ∧ isControl c = false ∧ c ∉ ([35, 37, 38, 47, 58, 59, 61, 63, 64, 91] : Str) := by
  have hbounds := isAlnum_toNat h
  have hmarks : ∀ d ∈ ([35, 37, 38, 47, 58, 59, 61, 63, 64, 91] : Str), isAlnum d = false := by
    decide
  refine ⟨UInt8.lt_iff_toNat_lt.mpr ?_, ?_, fun hmem => ?_⟩
  · simp only [UInt8.reduceToNat]
    omega
  · simp only [isControl, Bool.or_eq_false_iff, decide_eq_false_iff_not, UInt8.lt_iff_toNat_lt,
      ← UInt8.toNat_inj, UInt8.reduceToNat]
    omega
  · rw [hmarks c hmem] at h
    cases h

/-- The marks a mode leaves as they are. -/
def marks : Mode → Str
  | .path => lit "-_.~$&+,/:;=@"
  | .host | .zone => lit "-_.~!$&'()*+,;=:[]<>\""
  | .userPassword => lit "-_.~$&+,;="
  | .queryComponent => lit "-_.~"
  | .fragment => lit "-_.~$&+,/:;=?@!()*"

/-- The bytes a mode leaves as they are: letters, digits and its marks. -/
theorem isAlnum_or_marks {mode : Mode} {c : UInt8} (h : shouldEscape c mode = false) :
    isAlnum c = true ∨ c ∈ marks mode := by
  have hunreserved : ∀ d ∈ lit "-_.~", d ∈ marks mode := by cases mode <;> decide
  unfold shouldEscape at h
  split at h
  · rename_i halnum
    exact Or.inl halnum
  refine Or.inr ?_
  split at h
  · rename_i hhost
    simp only [Bool.and_eq_true, Bool.or_eq_true, decide_eq_true_eq, List.contains_iff_mem] at hhost
    rcases hhost.1 with rfl | rfl
    · exact (by decide : ∀ d ∈ lit "!$&'()*+,;=:[]<>\"", d ∈ marks .host) c hhost.2
    · exact (by decide : ∀ d ∈ lit "!$&'()*+,;=:[]<>\"", d ∈ marks .zone) c hhost.2
  split at h
  · rename_i hmem
    exact hunreserved c (List.contains_iff_mem.mp hmem)
  split at h
  · rename_i hreserved
    have hmem := List.contains_iff_mem.mp hreserved
    cases mode with
    | path =>
      exact (by decide : ∀ d ∈ lit "$&+,/:;=?@", decide (d = 63) = false → d ∈ marks .path)
        c hmem h
    | userPassword =>
      exact (by decide : ∀ d ∈ lit "$&+,/:;=?@", (lit "@/?:").contains d = false →
        d ∈ marks .userPassword) c hmem h
    | fragment => exact (by decide : ∀ d ∈ lit "$&+,/:;=?@", d ∈ marks .fragment) c hmem
    | queryComponent => cases h
    | host => cases h
    | zone => cases h
  split at h
  · rename_i hfragment
    simp only [Bool.and_eq_true, decide_eq_true_eq, List.contains_iff_mem] at hfragment
    obtain ⟨rfl, hmem⟩ := hfragment
    exact (by decide : ∀ d ∈ lit "!()*", d ∈ marks .fragment) c hmem
  · cases h

/-- Every byte beyond ASCII is escaped. -/
theorem shouldEscape_high (mode : Mode) (c : UInt8) (hc : 128 ≤ c) :
    shouldEscape c mode = true := by
  have hmarks : ∀ d ∈ marks mode, d < 128 := by cases mode <;> decide
  by_contra hescape
  rcases isAlnum_or_marks (Bool.not_eq_true _ ▸ hescape) with halnum | hmem
  · exact absurd (isAlnum_plain halnum).1 (UInt8.not_lt.mpr hc)
  · exact absurd (hmarks c hmem) (UInt8.not_lt.mpr hc)

/-- A space becomes a plus sign in a query, a byte that is escaped becomes a percent sign and
two digits, and the others are letters, digits and marks. -/
theorem forall_escapeByte {mode : Mode} {p : UInt8 → Prop}
    (hplus : mode = .queryComponent → p 43) (hpercent : p 37)
    (halnum : ∀ b, isAlnum b = true → p b) (hmarks : ∀ b ∈ marks mode, p b) :
    ∀ c, ∀ b ∈ escapeByte mode c, p b := by
  intro c b hb
  obtain ⟨hhigh, hlow, -⟩ := hexPair_upperHex c
  unfold escapeByte at hb
  split at hb
  · rename_i hspace
    simp only [Bool.and_eq_true, decide_eq_true_eq] at hspace
    exact List.mem_singleton.mp hb ▸ hplus hspace.2
  split at hb
  · simp only [List.mem_cons, List.not_mem_nil, or_false] at hb
    rcases hb with rfl | rfl | rfl
    · exact hpercent
    · exact halnum _ (isAlnum_of_isHex hhigh)
    · exact halnum _ (isAlnum_of_isHex hlow)
  · rename_i hescape
    rw [List.mem_singleton.mp hb]
    rcases isAlnum_or_marks (Bool.not_eq_true _ ▸ hescape) with hc | hc
    · exact halnum c hc
    · exact hmarks c hc

theorem shouldEscape_zone (c : UInt8) : shouldEscape c .zone = shouldEscape c .host := by
  simp [shouldEscape]

/-- The bytes whose escape the mode reads again. -/
def readable (mode : Mode) (c : UInt8) : Bool :=
  match mode with
  | .host => 128 ≤ c || c = 37 || !shouldEscape c .host
  | .zone => c = 37 || c = 32 || !shouldEscape c .host
  | _ => true

theorem readable_of_plain {mode : Mode} {b : UInt8} (h : shouldEscape b mode = false) :
    readable mode b = true := by
  cases mode with
  | host => simp [readable, h]
  | zone =>
    rw [shouldEscape_zone] at h
    simp [readable, h]
  | path => rfl
  | userPassword => rfl
  | queryComponent => rfl
  | fragment => rfl

theorem unescape_triple {mode : Mode} {a b : UInt8} (ha : isHex a = true) (hb : isHex b = true)
    (rest : Str) : unescape mode (37 :: a :: b :: rest) =
      if mode = .host ∧ unhex a < 8 ∧ (a, b) ≠ (50, 53) ∨
          mode = .zone ∧ (a, b) ≠ (50, 53) ∧ hexPair a b ≠ 32 ∧
            shouldEscape (hexPair a b) .host = true then none
      else (unescape mode rest).map (hexPair a b :: ·) := by
  rw [unescape, if_neg (by simp [ha, hb])]
  simp only [Bool.and_eq_true, decide_eq_true_eq, ne_eq, and_assoc]
  split
  · rename_i hhost
    rw [if_pos (Or.inl hhost)]
  split
  · rename_i hzone
    rw [if_pos (Or.inr hzone)]
  · rename_i hhost hzone
    rw [if_neg (not_or.mpr ⟨hhost, hzone⟩)]

theorem unescape_byte {mode : Mode} {c : UInt8} {rest : Str} (hc : c ≠ 37)
    (hhost : (mode = .host ∨ mode = .zone) → c < 128 → shouldEscape c mode = false) :
    unescape mode (c :: rest) = (unescape mode rest).map
      ((if c = 43 && mode = .queryComponent then 32 else c) :: ·) := by
  rw [unescape.eq_2 _ _ _ (fun a b rest' h => absurd h hc), if_neg hc, if_neg]
  simp only [Bool.and_eq_true, decide_eq_true_eq, Bool.or_eq_true, not_and]
  intro hmode hsmall
  rw [hhost hmode.1 hmode.2] at hsmall
  cases hsmall

/-- An escape is read as its byte, or not at all. -/
theorem unescape_escaped (mode : Mode) (c : UInt8) (hc : shouldEscape c mode = true)
    (rest : Str) : unescape mode (37 :: upperHex (c / 16) :: upperHex (c % 16) :: rest) =
      if readable mode c then (unescape mode rest).map (c :: ·) else none := by
  obtain ⟨hhigh, hlow, hpair, hascii, hpercent⟩ := hexPair_upperHex c
  have hne : (upperHex (c / 16), upperHex (c % 16)) ≠ (50, 53) ↔ c ≠ 37 := by
    rw [ne_eq, Prod.mk.injEq, hpercent]
  rw [unescape_triple hhigh hlow, hpair]
  simp only [hascii, hne]
  cases mode with
  | host =>
    simp only [readable, true_and, reduceCtorEq, false_and, or_false, hc, Bool.not_true,
      Bool.or_false, Bool.or_eq_true, decide_eq_true_eq]
    by_cases hsmall : c < 128
    · have hnot : ¬ 128 ≤ c := fun h => absurd (UInt8.lt_of_lt_of_le hsmall h) (UInt8.lt_irrefl c)
      by_cases h37 : c = 37
      · rw [if_neg fun h => h.2 h37, if_pos (Or.inr h37)]
      · rw [if_pos ⟨hsmall, h37⟩, if_neg (not_or.mpr ⟨hnot, h37⟩)]
    · rw [if_neg fun h => hsmall h.1, if_pos (Or.inl (UInt8.not_lt.mp hsmall))]
  | zone =>
    rw [shouldEscape_zone] at hc
    simp only [readable, true_and, reduceCtorEq, false_and, false_or, hc, and_true,
      Bool.not_true, Bool.or_false, Bool.or_eq_true, decide_eq_true_eq]
    by_cases hread : c = 37 ∨ c = 32
    · rw [if_neg fun h => hread.elim h.1 h.2, if_pos hread]
    · rw [if_pos (not_or.mp hread), if_neg hread]
  | path => rfl
  | userPassword => rfl
  | queryComponent => rfl
  | fragment => rfl

theorem unescape_escapeByte (mode : Mode) (c : UInt8) (rest : Str) :
    unescape mode (escapeByte mode c ++ rest) =
      if readable mode c then (unescape mode rest).map (c :: ·) else none := by
  unfold escapeByte
  split
  · rename_i hspace
    simp only [Bool.and_eq_true, decide_eq_true_eq] at hspace
    obtain ⟨rfl, rfl⟩ := hspace
    rw [List.singleton_append, unescape_byte (by decide) (by simp)]
    rfl
  split
  · rename_i hescape
    exact unescape_escaped mode c hescape rest
  · rename_i hspace hplain
    have hpercent : c ≠ 37 := by
      rintro rfl
      exact hplain (shouldEscape_percent mode)
    have hread : readable mode c = true := readable_of_plain (by simpa using hplain)
    have hplus : ¬ (c = 43 && mode = .queryComponent) = true := by
      simp only [Bool.and_eq_true, decide_eq_true_eq, not_and]
      rintro rfl rfl
      exact hplain rfl
    rw [List.singleton_append, unescape_byte hpercent fun _ _ => by simpa using hplain,
      if_neg hplus, if_pos hread]

/-- What is escaped is read again exactly when the mode allows all its bytes. -/
theorem unescape_escape (mode : Mode) (s : Str) :
    unescape mode (escape mode s) = if s.all (readable mode) then some s else none := by
  induction s with
  | nil => rfl
  | cons c s ih =>
    rw [escape, List.flatMap_cons, unescape_escapeByte, ← escape, ih, List.all_cons]
    cases readable mode c <;> cases s.all (readable mode) <;> rfl

/-- One byte is read off the front of a text. -/
inductive Reads (mode : Mode) : Str → UInt8 → Str → Prop
  | escaped {a b rest} (hexadecimal : isHex a = true ∧ isHex b = true)
      (allowed : ¬ (mode = .host ∧ unhex a < 8 ∧ (a, b) ≠ (50, 53) ∨
        mode = .zone ∧ (a, b) ≠ (50, 53) ∧ hexPair a b ≠ 32 ∧
          shouldEscape (hexPair a b) .host = true)) :
      Reads mode (37 :: a :: b :: rest) (hexPair a b) rest
  | plain {c rest} (percent : c ≠ 37)
      (allowed : (mode = .host ∨ mode = .zone) → c < 128 → shouldEscape c mode = false) :
      Reads mode (c :: rest) (if c = 43 && mode = .queryComponent then 32 else c) rest

theorem Reads.unescape {mode : Mode} {s rest : Str} {b : UInt8} (h : Reads mode s b rest) :
    GoUrl.unescape mode s = (GoUrl.unescape mode rest).map (b :: ·) := by
  cases h with
  | escaped hexadecimal allowed =>
    rw [unescape_triple hexadecimal.1 hexadecimal.2, if_neg allowed]
  | plain percent allowed => exact unescape_byte percent allowed

theorem reads_of_unescape {mode : Mode} {c : UInt8} {s t : Str}
    (h : unescape mode (c :: s) = some t) : ∃ b rest u, Reads mode (c :: s) b rest ∧
      unescape mode rest = some u ∧ t = b :: u := by
  by_cases hc : c = 37
  · subst hc
    match s, h with
    | [], h => simp [unescape] at h
    | [a], h => simp [unescape] at h
    | a :: b :: rest, h =>
      by_cases hhex : isHex a = true ∧ isHex b = true
      · rw [unescape_triple hhex.1 hhex.2] at h
        split at h
        · cases h
        · rename_i hallowed
          obtain ⟨u, hu, rfl⟩ := Option.map_eq_some_iff.mp h
          exact ⟨_, rest, u, .escaped hhex hallowed, hu, rfl⟩
      · rw [unescape, if_pos (by simpa [imp_iff_not_or] using hhex)] at h
        cases h
  · by_cases hallowed : (mode = .host ∨ mode = .zone) → c < 128 → shouldEscape c mode = false
    · rw [unescape_byte hc hallowed] at h
      obtain ⟨u, hu, rfl⟩ := Option.map_eq_some_iff.mp h
      exact ⟨_, s, u, .plain hc hallowed, hu, rfl⟩
    · rw [unescape.eq_2 _ _ _ (fun a b rest h _ => hc h), if_neg hc, if_pos] at h
      · cases h
      · push Not at hallowed
        obtain ⟨hmode, hsmall, hescape⟩ := hallowed
        simpa [hsmall, Bool.ne_false_iff.mp hescape] using hmode

theorem Reads.length {mode : Mode} {s rest : Str} {b : UInt8} (h : Reads mode s b rest) :
    rest.length < s.length := by
  cases h <;> simp only [List.length_cons] <;> omega

theorem unhex_lt : ∀ a : UInt8, isHex a = true → unhex a < 16 := forall_byte (by decide +kernel)

theorem hexPair_high {a b : UInt8} (ha : isHex a = true) (hb : isHex b = true)
    (h : 8 ≤ unhex a) : 128 ≤ hexPair a b := by
  have hsmall : (unhex a).toNat < 16 := UInt8.lt_iff_toNat_lt.mp (unhex_lt a ha)
  have hlow : (unhex b).toNat < 16 := UInt8.lt_iff_toNat_lt.mp (unhex_lt b hb)
  have hlarge : 8 ≤ (unhex a).toNat := UInt8.le_iff_toNat_le.mp h
  refine UInt8.le_iff_toNat_le.mpr ?_
  simp only [hexPair, UInt8.toNat_add, UInt8.toNat_mul, UInt8.toNat_ofNat]
  omega

/-- In a host an escape stands for a byte beyond ASCII or for the percent sign. -/
theorem hexPair_host {a b : UInt8} (ha : isHex a = true) (hb : isHex b = true)
    (h : ¬ (unhex a < 8 ∧ (a, b) ≠ (50, 53))) : 128 ≤ hexPair a b ∨ hexPair a b = 37 := by
  by_cases hlarge : 8 ≤ unhex a
  · exact Or.inl (hexPair_high ha hb hlarge)
  · right
    by_contra hpercent
    refine h ⟨UInt8.not_le.mp hlarge, fun heq => ?_⟩
    rw [Prod.mk.injEq] at heq
    obtain ⟨rfl, rfl⟩ := heq
    exact hpercent rfl

theorem Reads.host {s rest : Str} {b : UInt8} (h : Reads .host s b rest) :
    128 ≤ b ∨ b = 37 ∨ readable .host b = true ∧ s = b :: rest := by
  cases h with
  | escaped hexadecimal allowed =>
    exact (hexPair_host hexadecimal.1 hexadecimal.2 fun h => allowed (Or.inl ⟨rfl, h⟩)).imp_right
      Or.inl
  | @plain c _ percent allowed =>
    right
    right
    have hc : readable .host c = true := by
      by_cases hsmall : c < 128
      · simp [readable, allowed (Or.inl rfl) hsmall]
      · simp [readable, UInt8.not_lt.mp hsmall]
    simpa using hc

theorem Reads.zone {s rest : Str} {b : UInt8} (h : Reads .zone s b rest) :
    128 ≤ b ∨ readable .zone b = true := by
  cases h with
  | escaped hexadecimal allowed =>
    right
    rw [readable, Bool.or_eq_true, Bool.or_eq_true, decide_eq_true_eq, decide_eq_true_eq]
    by_contra hnot
    simp only [not_or, Bool.not_eq_true', Bool.not_eq_false] at hnot
    refine allowed (Or.inr ⟨rfl, ?_, hnot.1.2, hnot.2⟩)
    intro heq
    rw [Prod.mk.injEq] at heq
    obtain ⟨rfl, rfl⟩ := heq
    exact hnot.1.1 rfl
  | @plain c _ percent allowed =>
    have hc : 128 ≤ c ∨ readable .zone c = true := by
      by_cases hsmall : c < 128
      · have hplain := allowed (Or.inr rfl) hsmall
        rw [shouldEscape_zone] at hplain
        exact Or.inr (by simp [readable, hplain])
      · exact Or.inl (UInt8.not_lt.mp hsmall)
    simpa using hc

/-- Induction along the bytes that are read. -/
theorem unescape_induction {mode : Mode} {P : Str → Str → Prop} (nil : P [] [])
    (step : ∀ {s b rest u}, Reads mode s b rest → unescape mode rest = some u → P rest u →
      P s (b :: u)) {s t : Str} (h : unescape mode s = some t) : P s t := by
  induction hn : s.length using Nat.strong_induction_on generalizing s t with
  | _ n ih =>
    cases s with
    | nil =>
      cases h
      exact nil
    | cons c s =>
      obtain ⟨b, rest, u, hreads, hrest, rfl⟩ := reads_of_unescape h
      exact step hreads hrest (ih rest.length (hn ▸ hreads.length) hrest rfl)

/-- A byte that is no part of an escape divides what is read. -/
theorem unescape_append {mode : Mode} {sep : UInt8} (hsep : isHex sep = false) {s t y : Str}
    (h : unescape mode (s ++ sep :: t) = some y) : ∃ x z, unescape mode s = some x ∧
      unescape mode (sep :: t) = some z ∧ y = x ++ z := by
  induction hn : s.length using Nat.strong_induction_on generalizing s y with
  | _ n ih =>
    cases s with
    | nil => exact ⟨[], y, rfl, h, rfl⟩
    | cons c s =>
      obtain ⟨b, rest, u, hreads, hrest, rfl⟩ := reads_of_unescape h
      -- the separator is no hexadecimal digit, so the byte is read before it
      obtain ⟨tail, hread, rfl⟩ : ∃ tail, Reads mode (c :: s) b tail ∧ rest = tail ++ sep :: t := by
        generalize hfull : c :: (s ++ sep :: t) = full at hreads
        cases hreads with
        | @escaped x y rest hexadecimal allowed =>
          match s, hfull with
          | [], hfull =>
            simp only [List.nil_append, List.cons.injEq] at hfull
            rw [← hfull.2.1, hsep] at hexadecimal
            cases hexadecimal.1
          | [_], hfull =>
            simp only [List.cons_append, List.nil_append, List.cons.injEq] at hfull
            rw [← hfull.2.2.1, hsep] at hexadecimal
            cases hexadecimal.2
          | _ :: _ :: tail, hfull =>
            simp only [List.cons_append, List.cons.injEq] at hfull
            obtain ⟨rfl, rfl, rfl, rfl⟩ := hfull
            exact ⟨tail, .escaped hexadecimal allowed, rfl⟩
        | @plain c' _ percent allowed =>
          obtain ⟨rfl, rfl⟩ := List.cons.inj hfull
          exact ⟨s, .plain percent allowed, rfl⟩
      obtain ⟨x, z, hx, hz, rfl⟩ := ih tail.length (hn ▸ hread.length) hrest rfl
      refine ⟨b :: x, z, ?_, hz, rfl⟩
      rw [hread.unescape, hx]
      rfl

theorem escape_append (mode : Mode) (s t : Str) :
    escape mode (s ++ t) = escape mode s ++ escape mode t := List.flatMap_append

theorem escape_of_plain {mode : Mode} {s : Str} (h : ∀ b ∈ s, shouldEscape b mode = false) :
    escape mode s = s := by
  induction s with
  | nil => rfl
  | cons c s ih =>
    have hc := h c List.mem_cons_self
    have hspace : ¬ (c = 32 && mode = .queryComponent) = true := by
      simp only [Bool.and_eq_true, decide_eq_true_eq, not_and]
      rintro rfl rfl
      cases hc
    rw [escape, List.flatMap_cons, ← escape, ih fun b hb => h b (List.mem_cons_of_mem c hb),
      escapeByte, if_neg hspace, if_neg (by simp [hc])]
    rfl

/-- Escaping brings nothing in but percent signs and hexadecimal digits. -/
theorem mem_of_mem_escape {mode : Mode} {c : UInt8} {s : Str} (hmode : mode ≠ .queryComponent)
    (hhex : isHex c = false) (hpercent : c ≠ 37) (h : c ∈ escape mode s) : c ∈ s := by
  obtain ⟨b, hb, hc⟩ := List.mem_flatMap.mp h
  obtain ⟨hhigh, hlow, -⟩ := hexPair_upperHex b
  unfold escapeByte at hc
  rw [if_neg (by simp [hmode])] at hc
  split at hc
  · simp only [List.mem_cons, List.not_mem_nil, or_false] at hc
    rcases hc with rfl | rfl | rfl
    · exact absurd rfl hpercent
    · rw [hhigh] at hhex
      cases hhex
    · rw [hlow] at hhex
      cases hhex
  · rw [List.mem_singleton] at hc
    exact hc ▸ hb

/-- What holds of every escape holds of every escaped text. -/
theorem forall_escape {mode : Mode} {p : UInt8 → Prop} (h : ∀ c, ∀ b ∈ escapeByte mode c, p b)
    (s : Str) : ∀ b ∈ escape mode s, p b := by
  intro b hb
  obtain ⟨c, -, hc⟩ := List.mem_flatMap.mp hb
  exact h c b hc

end UrlEscapes
