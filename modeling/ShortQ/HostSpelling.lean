import ShortQ.Hosts
import ShortQ.JsonText

/-! # Spelling a host again

When `NormalizeHostname` leaves alone what `NormalizeHostname` returned, so that a key is the same
whether or not its caller has spelled the host before. -/
namespace HostSpelling

open GoText
open Hosts
open DecimalText (decimal_eq_some)
open JsonText (decoded_of_mem encodeRune encodeRune_decodeRune)
open Runes

/-! ## Lower case -/

/-- The lower case of a rune is a rune and its own lower case; U+FFFD has none. -/
structure Lowercase (unicode : Unicode) : Prop where
  rune : ∀ v, ∃ r, Whole r ∧ r.bytes = unicode.lower v
  settled : ∀ v, unicode.toLower (unicode.lower v) = unicode.lower v
  replacement : unicode.lower 0xFFFD = [0xEF, 0xBF, 0xBD]

def lowerRune (unicode : Unicode) (r : Rune) : Str :=
  match r.value with
  | none => [0xEF, 0xBF, 0xBD]
  | some v => if v < 0x80 then r.bytes.map lowerByte else unicode.lower v

/-- Made of runes that are their own lower case. -/
def Lowered (unicode : Unicode) (s : Str) : Prop :=
  ∀ r ∈ runes s, Whole r ∧ lowerRune unicode r = r.bytes

theorem lowerByte_lowerByte (b : UInt8) : lowerByte (lowerByte b) = lowerByte b := by
  unfold lowerByte
  by_cases h : (65 ≤ b && b ≤ 90) = true
  · have hnot : ¬ (65 ≤ b + 32 && b + 32 ≤ 90) = true := by
      simp only [Bool.and_eq_true, decide_eq_true_eq, UInt8.le_iff_toNat_le, UInt8.toNat_add,
        UInt8.reduceToNat] at h ⊢
      omega
    rw [if_pos h, if_neg hnot]
  · rw [if_neg h, if_neg h]

theorem lowerByte_ascii {b : UInt8} (h : b < 0x80) : lowerByte b < 0x80 := by
  unfold lowerByte
  split
  · rename_i hupper
    simp only [Bool.and_eq_true, decide_eq_true_eq, UInt8.le_iff_toNat_le, UInt8.lt_iff_toNat_lt,
      UInt8.toNat_add, UInt8.reduceToNat] at hupper ⊢
    omega
  · exact h

theorem whole_single {b : UInt8} (h : b < 0x80) : Whole (single b) :=
  ⟨b, [], rfl, rfl, fun _ => if_pos h⟩

section Tables

variable {unicode : Unicode}

theorem toLower_eq (s : Str) : unicode.toLower s = (runes s).flatMap (lowerRune unicode) := rfl

theorem toLower_of_lowered {s : Str} (h : Lowered unicode s) : unicode.toLower s = s := by
  have hbytes : (runes s).flatMap (lowerRune unicode) = bytesOf (runes s) :=
    List.flatMap_congr fun r hr => (h r hr).2
  rw [toLower_eq, hbytes, bytesOf_runes]

/-- What stands for a rune in lower case is a rune that stands for itself. -/
theorem lowerRune_settled (hlower : Lowercase unicode) {s : Str} {r : Rune} (hr : r ∈ runes s) :
    ∃ q, Whole q ∧ q.bytes = lowerRune unicode r ∧ lowerRune unicode q = q.bytes := by
  cases hvalue : r.value with
  | none =>
    refine ⟨replacement, whole_replacement, ?_, ?_⟩
    · rw [lowerRune, hvalue]
      rfl
    · exact hlower.replacement
  | some v =>
    by_cases hv : v < 0x80
    · obtain ⟨a, rest, rfl⟩ := decoded_of_mem hr
      have hbytes := encodeRune_decodeRune hvalue
      rw [encodeRune, if_pos hv] at hbytes
      have hsmall : UInt8.ofNat v < 0x80 := by
        simp only [UInt8.lt_iff_toNat_lt, UInt8.toNat_ofNat', UInt8.reduceToNat]
        omega
      have hq := lowerByte_ascii hsmall
      refine ⟨single (lowerByte (UInt8.ofNat v)), whole_single hq, ?_, ?_⟩
      · rw [lowerRune, hvalue]
        dsimp only
        rw [if_pos hv, ← hbytes]
        rfl
      · have hascii : (lowerByte (UInt8.ofNat v)).toNat < 0x80 := UInt8.lt_iff_toNat_lt.mp hq
        rw [lowerRune, single]
        dsimp only
        rw [if_pos hascii, List.map_singleton, lowerByte_lowerByte]
    · obtain ⟨q, hq, hbytes⟩ := hlower.rune v
      have hown := hlower.settled v
      have hrunes : runes q.bytes = [q] := by
        have h := @runes_bytesOf_self [q] fun p hp => List.mem_singleton.mp hp ▸ hq
        rwa [bytesOf, List.flatMap_singleton] at h
      rw [← hbytes, toLower_eq, hrunes, List.flatMap_singleton] at hown
      refine ⟨q, hq, ?_, hown⟩
      rw [lowerRune, hvalue]
      dsimp only
      rw [if_neg hv, hbytes]

theorem lowered_toLower (hlower : Lowercase unicode) (s : Str) :
    Lowered unicode (unicode.toLower s) := by
  have hrunes : ∀ rs : List Rune, (∀ r ∈ rs, r ∈ runes s) →
      ∃ qs, (∀ q ∈ qs, Whole q ∧ lowerRune unicode q = q.bytes) ∧
        rs.flatMap (lowerRune unicode) = bytesOf qs := by
    intro rs hrs
    induction rs with
    | nil => exact ⟨[], by simp, rfl⟩
    | cons r rs ih =>
      obtain ⟨qs, hqs, heq⟩ := ih fun q hq => hrs q (List.mem_cons_of_mem r hq)
      obtain ⟨q, hq, hbytes, hown⟩ := lowerRune_settled hlower (hrs r List.mem_cons_self)
      refine ⟨q :: qs, List.forall_mem_cons.mpr ⟨⟨hq, hown⟩, hqs⟩, ?_⟩
      rw [List.flatMap_cons, heq, ← hbytes]
      rfl
  obtain ⟨qs, hqs, heq⟩ := hrunes (runes s) fun r hr => hr
  intro r hr
  rw [toLower_eq, heq, runes_bytesOf_self fun q hq => (hqs q hq).1] at hr
  exact hqs r hr

theorem lowered_append {b : UInt8} {s t : Str} (hb : b < 0x80) (h : Lowered unicode (s ++ b :: t)) :
    Lowered unicode s ∧ Lowered unicode t := by
  rw [Lowered, runes_append_ascii hb] at h
  constructor
  · intro r hr
    exact h r (List.mem_append_left _ hr)
  · intro r hr
    exact h r (List.mem_append_right _ (List.mem_cons_of_mem _ hr))

theorem lowered_trimSpace {s : Str} (h : Lowered unicode s) : Lowered unicode (trimSpace s) := by
  intro r hr
  rw [runes_trimSpace] at hr
  exact h r (mem_of_mem_trimmed hr)

end Tables

/-! ## Dots -/

/-- No `c` stands at an end. -/
def Bare (c : UInt8) (s : Str) : Prop := s.head? ≠ some c ∧ s.getLast? ≠ some c

def padded (c : UInt8) (j : ℕ) (s : Str) (k : ℕ) : Str :=
  List.replicate j c ++ s ++ List.replicate k c

theorem dropWhile_padding {c : UInt8} {s t : Str} (h : s.head? ≠ some c) (j : ℕ)
    (hs : s ≠ []) : (List.replicate j c ++ (s ++ t)).dropWhile (· = c) = s ++ t := by
  rw [List.dropWhile_append_of_pos (by simp)]
  cases s with
  | nil => exact absurd rfl hs
  | cons b s =>
    apply List.dropWhile_cons_of_neg
    rw [decide_eq_true_eq]
    rintro rfl
    exact h rfl

theorem trim_padded {c : UInt8} {s : Str} (h : Bare c s) (j k : ℕ) :
    trim c (padded c j s k) = s := by
  unfold trim padded
  by_cases hs : s = []
  · subst hs
    rw [List.append_nil, List.replicate_append_replicate]
    simp
  · rw [List.append_assoc, dropWhile_padding h.1 j hs, ← List.reverse_inj, List.rdropWhile,
      List.reverse_reverse, List.reverse_append, List.reverse_replicate]
    have hback := @dropWhile_padding c s.reverse [] (by rw [List.head?_reverse]; exact h.2) k
      (by simpa using hs)
    rw [List.append_nil] at hback
    exact hback

theorem bare_trim (c : UInt8) (s : Str) : Bare c (trim c s) := by
  constructor
  · intro hhead
    cases htrim : trim c s with
    | nil =>
      rw [htrim] at hhead
      cases hhead
    | cons b rest =>
      obtain ⟨tail, htail⟩ := List.rdropWhile_prefix (· = c) (s.dropWhile (· = c))
      rw [← trim, htrim] at htail
      have hnot := List.head?_dropWhile_not (· = c) s
      rw [← htail, List.cons_append, List.head?_cons] at hnot
      rw [htrim, List.head?_cons] at hhead
      cases hhead
      simp at hnot
  · intro hlast
    have hne : trim c s ≠ [] := by
      intro hnil
      rw [hnil] at hlast
      cases hlast
    have hnot := List.rdropWhile_last_not (· = c) (s.dropWhile (· = c)) hne
    rw [List.getLast?_eq_some_getLast hne] at hlast
    exact hnot (decide_eq_true (Option.some.inj hlast))

theorem exists_padding (c : UInt8) (s : Str) : ∃ j k, s = padded c j (trim c s) k := by
  have hfront : s.takeWhile (· = c) = List.replicate (s.takeWhile (· = c)).length c :=
    List.eq_replicate_of_mem fun b hb => by simpa using List.mem_takeWhile_imp hb
  have hback : (s.dropWhile (· = c)).rtakeWhile (· = c) =
      List.replicate ((s.dropWhile (· = c)).rtakeWhile (· = c)).length c :=
    List.eq_replicate_of_mem fun b hb => by simpa using List.mem_rtakeWhile_imp hb
  refine ⟨(s.takeWhile (· = c)).length, ((s.dropWhile (· = c)).rtakeWhile (· = c)).length, ?_⟩
  calc s = s.takeWhile (· = c) ++ s.dropWhile (· = c) := List.takeWhile_append_dropWhile.symm
    _ = s.takeWhile (· = c) ++ (trim c s ++ (s.dropWhile (· = c)).rtakeWhile (· = c)) := by
      rw [trim, List.rdropWhile_append_rtakeWhile]
    _ = padded c _ (trim c s) _ := by
      rw [padded, ← hfront, ← hback, List.append_assoc]

theorem trim_trim (c : UInt8) (s : Str) : trim c (trim c s) = trim c s := by
  have h := trim_padded (bare_trim c s) 0 0
  rwa [padded, List.replicate_zero, List.nil_append, List.append_nil] at h

theorem trim_sublist (c : UInt8) (s : Str) : (trim c s).Sublist s :=
  (List.rdropWhile_prefix _ _).sublist.trans (List.dropWhile_sublist _)

theorem lowered_trim {unicode : Unicode} {s : Str} (h : Lowered unicode s) :
    Lowered unicode (trim 46 s) := by
  obtain ⟨j, k, heq⟩ := exists_padding 46 s
  generalize trim 46 s = m at heq ⊢
  subst heq
  have hfront : Lowered unicode (m ++ List.replicate k 46) := by
    induction j with
    | zero => exact h
    | succ j ih => exact ih (@lowered_append unicode 46 [] _ (by decide) h).2
  clear h
  induction k with
  | zero =>
    rw [List.replicate_zero, List.append_nil] at hfront
    exact hfront
  | succ k ih =>
    rw [List.replicate_succ', ← List.append_assoc] at hfront
    exact ih (@lowered_append unicode 46 _ [] (by decide) hfront).1

/-! ## Ports -/

/-- `net.SplitHostPort` of a bracketed and of a plain host. -/
theorem splitHostPort_iff {s host port : Str} : splitHostPort s = some (host, port) ↔
    (s = 91 :: host ++ 93 :: 58 :: port ∧ 91 ∉ host ∧ 93 ∉ host ∧
      58 ∉ port ∧ 91 ∉ port ∧ 93 ∉ port) ∨
    (s = host ++ 58 :: port ∧ 58 ∉ host ∧ 58 ∉ port ∧ 91 ∉ s ∧ 93 ∉ s) := by
  constructor
  · intro h
    unfold splitHostPort at h
    split at h
    · rename_i rest
      split at h
      · rename_i before after hcut
        split at h
        · cases h
        · rename_i hnot
          cases h
          simp only [Bool.or_eq_true, List.contains_iff_mem, not_or] at hnot
          obtain ⟨rfl, hbracket⟩ := cut_eq_some hcut
          exact Or.inl ⟨rfl, hnot.1.1.2, hbracket, hnot.1.1.1, hnot.1.2, hnot.2⟩
      · cases h
    · split at h
      · rename_i before after hcut
        split at h
        · cases h
        · rename_i hnot
          cases h
          simp only [Bool.or_eq_true, List.contains_iff_mem, not_or] at hnot
          obtain ⟨heq, hcolon⟩ := cut_eq_some hcut
          exact Or.inr ⟨heq, hcolon, hnot.1.1, hnot.1.2, hnot.2⟩
      · cases h
  · rintro (⟨rfl, hopen, hclose, hcolon, hopen', hclose'⟩ | ⟨rfl, hcolon, hcolon', hopen, hclose⟩)
    · have hcut := cut_append hclose (58 :: port)
      simp [splitHostPort, hcut, hopen, hcolon, hopen', hclose']
    · have hcut := cut_append hcolon port
      have hhead : ∀ rest, host ++ 58 :: port ≠ 91 :: rest := fun rest heq =>
        hopen (heq ▸ List.mem_cons_self)
      unfold splitHostPort
      split
      · rename_i rest heq
        exact absurd heq (hhead rest)
      · rw [hcut]
        dsimp only
        rw [if_neg (by simp [hcolon', hopen, hclose])]

theorem splitHostPort_sublist {s host port : Str} (h : splitHostPort s = some (host, port)) :
    host.Sublist s ∧ host ≠ s := by
  rcases splitHostPort_iff.mp h with ⟨rfl, -⟩ | ⟨rfl, -⟩
  · refine ⟨(List.sublist_append_left _ _).trans (List.sublist_cons_self _ _), fun heq => ?_⟩
    have hlength := congrArg List.length heq
    rw [List.length_append, List.length_cons] at hlength
    omega
  · exact ⟨List.sublist_append_left _ _, by simp⟩

/-- The one colon of the text has a number behind it. -/
def Numbered (s : Str) : Prop :=
  ∃ host port, s = host ++ 58 :: port ∧ 58 ∉ host ∧ 58 ∉ port ∧ atoiOk port = true

theorem count_colon {host port : Str} (hhost : 58 ∉ host) :
    (host ++ 58 :: port).count 58 = 1 ↔ 58 ∉ port := by
  rw [List.count_append, List.count_eq_zero.mpr hhost, List.count_cons_self, ← List.count_eq_zero]
  omega

/-- The text without its port, as far as `NormalizeHostname` finds one. -/
def portless (hostname : Str) : Str :=
  match splitHostPort hostname with
  | some (host, _) => host
  | none =>
    if hostname.count 58 = 1 then
      match cut 58 hostname with
      | (host, some port) => if atoiOk port then host else hostname
      | _ => hostname
    else hostname

theorem NormalizeHostname_eq (unicode : Unicode) (hostname : Str) :
    NormalizeHostname unicode hostname =
      trim 46 (portless (trimSpace (unicode.toLower hostname))) := rfl

theorem portless_split {s host port : Str} (h : splitHostPort s = some (host, port)) :
    portless s = host := by
  rw [portless, h]

theorem portless_numbered {host port : Str} (hsplit : splitHostPort (host ++ 58 :: port) = none)
    (hhost : 58 ∉ host) (hport : 58 ∉ port) (hnumber : atoiOk port = true) :
    portless (host ++ 58 :: port) = host := by
  rw [portless, hsplit]
  dsimp only
  rw [if_pos ((count_colon hhost).mpr hport), cut_append hhost]
  dsimp only
  rw [if_pos hnumber]

theorem portless_none {s : Str} (hsplit : splitHostPort s = none) (hnumber : ¬ Numbered s) :
    portless s = s := by
  rw [portless, hsplit]
  dsimp only
  split
  · rename_i hcount
    split
    · rename_i host port hcut
      obtain ⟨rfl, hhost⟩ := cut_eq_some hcut
      rw [if_neg]
      intro hok
      exact hnumber ⟨host, port, rfl, hhost, (count_colon hhost).mp hcount, hok⟩
    · rfl
  · rfl

/-- A text is left whole exactly when it has no port. -/
theorem portless_eq_self_iff {s : Str} :
    portless s = s ↔ splitHostPort s = none ∧ ¬ Numbered s := by
  constructor
  · intro h
    have hsplit : splitHostPort s = none := by
      cases hsplit : splitHostPort s with
      | none => rfl
      | some parts =>
        rw [portless_split hsplit] at h
        exact absurd h (splitHostPort_sublist hsplit).2
    refine ⟨hsplit, ?_⟩
    rintro ⟨host, port, rfl, hhost, hport, hnumber⟩
    rw [portless_numbered hsplit hhost hport hnumber] at h
    simp at h
  · rintro ⟨hsplit, hnumber⟩
    exact portless_none hsplit hnumber

theorem portless_sublist (s : Str) : (portless s).Sublist s := by
  cases hsplit : splitHostPort s with
  | some parts =>
    rw [portless_split hsplit]
    exact (splitHostPort_sublist hsplit).1
  | none =>
    by_cases hnumber : Numbered s
    · obtain ⟨host, port, rfl, hhost, hport, hok⟩ := hnumber
      rw [portless_numbered hsplit hhost hport hok]
      exact List.sublist_append_left _ _
    · rw [portless_none hsplit hnumber]

/-! ## What is left to spell -/

/-- However many dots stand at its ends, no white space stands behind them. -/
def Tight (s : Str) : Prop :=
  ∀ j mid k, s = padded 46 j mid k → Bare 46 mid → trimSpace mid = mid

/-- Dots hide a port: they stand before a bracketed host, or behind the number. -/
def Hidden (s : Str) : Prop :=
  (∃ j rest, s = List.replicate j 46 ++ 91 :: rest ∧ (splitHostPort (91 :: rest)).isSome = true) ∨
    ∃ host number k, s = host ++ 58 :: (number ++ List.replicate k 46) ∧ 58 ∉ host ∧
      58 ∉ number ∧ atoiOk number = true

/-- A host, in lower case and without white space at its ends, of which one pass leaves nothing
for another: what stands before its port has neither a port of its own nor white space behind
dots, and without a port none is hidden. -/
structure Settled (t : Str) : Prop where
  split : ∀ host port, splitHostPort t = some (host, port) → Tight host ∧ host.count 58 ≠ 1
  numbered : ∀ host port, splitHostPort t = none → t = host ++ 58 :: port → 58 ∉ host →
    58 ∉ port → atoiOk port = true → Tight host
  whole : splitHostPort t = none → ¬ Numbered t → Tight t ∧ ¬ Hidden t

theorem tight_iff {s : Str} : Tight s ↔ trimSpace (trim 46 s) = trim 46 s := by
  constructor
  · intro h
    obtain ⟨j, k, heq⟩ := exists_padding 46 s
    exact h j _ k heq (bare_trim 46 s)
  · intro h j mid k heq hbare
    rwa [heq, trim_padded hbare] at h

theorem count_padded (j k : ℕ) (s : Str) : (padded 46 j s k).count 58 = s.count 58 := by
  have hdots : ∀ n : ℕ, (List.replicate n (46 : UInt8)).count 58 = 0 := fun n =>
    List.count_eq_zero.mpr fun hmem => absurd (List.eq_of_mem_replicate hmem) (by decide)
  rw [padded, List.count_append, List.count_append, hdots, hdots, Nat.zero_add, Nat.add_zero]

theorem mem_padded {b : UInt8} (hb : b ≠ 46) {j k : ℕ} {s : Str} :
    b ∈ padded 46 j s k ↔ b ∈ s := by
  simp [padded, List.mem_append, List.mem_replicate, hb]

theorem mem_trim {b : UInt8} (hb : b ≠ 46) {s : Str} : b ∈ trim 46 s ↔ b ∈ s := by
  obtain ⟨j, k, heq⟩ := exists_padding 46 s
  conv_rhs => rw [heq]
  exact (mem_padded hb).symm

/-- Without brackets a text has a port exactly when it has one colon. -/
theorem portless_plain {s : Str} (hopen : 91 ∉ s) (hclose : 93 ∉ s) :
    portless s = s ↔ s.count 58 ≠ 1 := by
  rw [portless_eq_self_iff]
  constructor
  · rintro ⟨hsplit, -⟩ hcount
    have hmem : (58 : UInt8) ∈ s := List.one_le_count_iff.mp (Nat.le_of_eq hcount.symm)
    obtain ⟨host, port, rfl, hhost⟩ : ∃ host port, s = host ++ 58 :: port ∧ 58 ∉ host := by
      rcases hcut : cut 58 s with ⟨host, after⟩
      cases after with
      | none => exact absurd hmem (notMem_of_cut hcut)
      | some port => exact ⟨host, port, cut_eq_some hcut⟩
    rw [splitHostPort_iff.mpr (Or.inr ⟨rfl, hhost, (count_colon hhost).mp hcount, hopen, hclose⟩)]
      at hsplit
    cases hsplit
  · intro hcount
    constructor
    · cases hsplit : splitHostPort s with
      | none => rfl
      | some parts =>
        rcases splitHostPort_iff.mp hsplit with ⟨rfl, -⟩ | ⟨rfl, hhost, hport, -⟩
        · exact absurd List.mem_cons_self hopen
        · exact absurd ((count_colon hhost).mpr hport) hcount
    · rintro ⟨host, port, rfl, hhost, hport, -⟩
      exact hcount ((count_colon hhost).mpr hport)

theorem portless_no_colon {s : Str} (h : 58 ∉ s) : portless s = s := by
  rw [portless_eq_self_iff]
  constructor
  · cases hsplit : splitHostPort s with
    | none => rfl
    | some parts =>
      rcases splitHostPort_iff.mp hsplit with ⟨rfl, -⟩ | ⟨rfl, -⟩
      · exact absurd (by simp) h
      · exact absurd (by simp) h
  · rintro ⟨host, port, rfl, -⟩
    exact h (by simp)

/-- The last byte of a number is a digit. -/
theorem last_of_atoiOk {s : Str} (h : atoiOk s = true) :
    s ≠ [] ∧ s.getLast? ≠ some 46 := by
  have hdigits : ∀ digits : Str, (decimal digits).isSome = true →
      digits ≠ [] ∧ digits.getLast? ≠ some 46 := by
    intro digits hsome
    obtain ⟨n, hn⟩ := Option.isSome_iff_exists.mp hsome
    obtain ⟨hall, hne, -⟩ := decimal_eq_some.mp hn
    refine ⟨hne, fun hlast => ?_⟩
    exact absurd (hall 46 (List.mem_of_getLast? hlast)) (by decide)
  have hcons : ∀ (b : UInt8) (digits : Str), digits ≠ [] ∧ digits.getLast? ≠ some 46 →
      b :: digits ≠ [] ∧ (b :: digits).getLast? ≠ some 46 := by
    rintro b digits ⟨hne, hlast⟩
    refine ⟨List.cons_ne_nil _ _, ?_⟩
    rwa [List.getLast?_cons, List.getLast?_eq_some_getLast hne, Option.getD_some,
      ← List.getLast?_eq_some_getLast hne]
  have hsome : ∀ {o : Option ℕ} {p : ℕ → Bool}, o.any p = true → o.isSome = true := by
    intro o p hany
    cases o with
    | none => cases hany
    | some n => rfl
  unfold atoiOk at h
  split at h
  · exact hcons _ _ (hdigits _ (hsome h))
  · exact hcons _ _ (hdigits _ (hsome h))
  · exact hdigits _ (hsome h)

/-- What `c` leaves of a text when it is taken off the front, or off the back. -/
theorem exists_front (c : UInt8) (s : Str) :
    ∃ j rest, s = List.replicate j c ++ rest ∧ rest.head? ≠ some c := by
  refine ⟨(s.takeWhile (· = c)).length, s.dropWhile (· = c), ?_, ?_⟩
  · have hfront : s.takeWhile (· = c) = List.replicate (s.takeWhile (· = c)).length c :=
      List.eq_replicate_of_mem fun b hb => by simpa using List.mem_takeWhile_imp hb
    rw [← hfront, List.takeWhile_append_dropWhile]
  · intro hhead
    have hnot := List.head?_dropWhile_not (· = c) s
    rw [hhead] at hnot
    simp at hnot

theorem exists_back (c : UInt8) (s : Str) :
    ∃ rest k, s = rest ++ List.replicate k c ∧ rest.getLast? ≠ some c := by
  obtain ⟨k, rest, heq, hhead⟩ := exists_front c s.reverse
  refine ⟨rest.reverse, k, ?_, ?_⟩
  · rw [← List.reverse_inj, heq, List.reverse_append, List.reverse_reverse, List.reverse_replicate]
  · rwa [List.getLast?_reverse]

/-- Dots that hide a port are off once the text is trimmed, and the port is found. -/
theorem portless_of_hidden {s : Str} (h : Hidden s) : portless (trim 46 s) ≠ trim 46 s := by
  rw [Ne, portless_eq_self_iff]
  rintro ⟨hsplit, hnumber⟩
  rcases h with ⟨j, rest, rfl, hrest⟩ | ⟨host, number, k, rfl, hhost, hmem, hok⟩
  · obtain ⟨⟨host, port⟩, hparts⟩ := Option.isSome_iff_exists.mp hrest
    rcases splitHostPort_iff.mp hparts with ⟨heq, hhost, hhost', hport⟩ | ⟨-, -, -, hopen, -⟩
    · obtain ⟨port, k, rfl, hlast⟩ := exists_back 46 port
      have hbare : Bare 46 (91 :: host ++ 93 :: 58 :: port) := by
        refine ⟨by simp, ?_⟩
        cases port with
        | nil =>
          rw [List.getLast?_append_of_ne_nil _ (by simp)]
          decide
        | cons b port =>
          rw [List.getLast?_append_of_ne_nil _ (by simp), List.getLast?_cons_cons,
            List.getLast?_cons_cons]
          exact hlast
      have htext : List.replicate j 46 ++ 91 :: rest =
          padded 46 j (91 :: host ++ 93 :: 58 :: port) k := by
        rw [heq, padded]
        simp
      rw [htext, trim_padded hbare] at hsplit
      simp only [List.mem_append, not_or] at hport
      rw [splitHostPort_iff.mpr (Or.inl ⟨rfl, hhost, hhost', hport.1.1, hport.2.1.1, hport.2.2.1⟩)]
        at hsplit
      cases hsplit
    · exact hopen List.mem_cons_self
  · obtain ⟨j, front, rfl, hhead⟩ := exists_front 46 host
    obtain ⟨hne, hlast⟩ := last_of_atoiOk hok
    have hbare : Bare 46 (front ++ 58 :: number) := by
      constructor
      · cases front with
        | nil => simp
        | cons b front => exact hhead
      · cases number with
        | nil => exact absurd rfl hne
        | cons b number =>
          rw [List.getLast?_append_of_ne_nil _ (by simp), List.getLast?_cons_cons]
          exact hlast
    have htext : List.replicate j 46 ++ front ++ 58 :: (number ++ List.replicate k 46) =
        padded 46 j (front ++ 58 :: number) k := by
      rw [padded]
      simp
    rw [htext, trim_padded hbare] at hnumber
    exact hnumber ⟨front, number, rfl, fun hmem' => hhost (List.mem_append_right _ hmem'),
      hmem, hok⟩

/-- A text without a port has one after it is trimmed only if dots hid it. -/
theorem portless_trim {s : Str} (hsplit : splitHostPort s = none) (h : ¬ Hidden s) :
    portless (trim 46 s) = trim 46 s := by
  obtain ⟨j, k, heq⟩ := exists_padding 46 s
  rw [portless_eq_self_iff]
  generalize trim 46 s = m at heq ⊢
  constructor
  · cases hm : splitHostPort m with
    | none => rfl
    | some parts =>
      obtain ⟨host, port⟩ := parts
      have hdots : ∀ {b : UInt8} {n : ℕ}, b ≠ 46 → b ∉ List.replicate n (46 : UInt8) :=
        fun hb hmem => hb (List.eq_of_mem_replicate hmem)
      rcases splitHostPort_iff.mp hm with
        ⟨rfl, hhost, hhost', hport, hport', hport''⟩ | ⟨rfl, hhost, hport, hopen, hclose⟩
      · refine absurd (Or.inl ⟨j, host ++ 93 :: 58 :: (port ++ List.replicate k 46), ?_, ?_⟩) h
        · rw [heq, padded]
          simp
        · rw [Option.isSome_iff_exists]
          refine ⟨_, splitHostPort_iff.mpr (Or.inl ⟨rfl, hhost, hhost', ?_, ?_, ?_⟩)⟩
          · exact List.mem_append.not.mpr (not_or.mpr ⟨hport, hdots (by decide)⟩)
          · exact List.mem_append.not.mpr (not_or.mpr ⟨hport', hdots (by decide)⟩)
          · exact List.mem_append.not.mpr (not_or.mpr ⟨hport'', hdots (by decide)⟩)
      · have htext : s = List.replicate j 46 ++ host ++ 58 :: (port ++ List.replicate k 46) := by
          rw [heq, padded]
          simp
        have hfound := splitHostPort_iff.mpr (Or.inr ⟨htext,
          List.mem_append.not.mpr (not_or.mpr ⟨hdots (by decide), hhost⟩),
          List.mem_append.not.mpr (not_or.mpr ⟨hport, hdots (by decide)⟩),
          heq ▸ (mem_padded (by decide)).not.mpr hopen,
          heq ▸ (mem_padded (by decide)).not.mpr hclose⟩)
        rw [hsplit] at hfound
        cases hfound
  · rintro ⟨host, port, rfl, hhost, hport, hok⟩
    refine h (Or.inr ⟨List.replicate j 46 ++ host, port, k, ?_, ?_, hport, hok⟩)
    · rw [heq, padded]
      simp
    · rw [List.mem_append, not_or]
      exact ⟨fun hmem => absurd (List.eq_of_mem_replicate hmem) (by decide), hhost⟩

/-! ## The second pass -/

/-- A pass leaves a host alone when none of its steps takes anything off. -/
theorem normalized_iff {unicode : Unicode} {s : Str} (hlower : Lowered unicode s)
    (hbare : trim 46 s = s) :
    NormalizeHostname unicode s = s ↔ trimSpace s = s ∧ portless s = s := by
  rw [NormalizeHostname_eq, toLower_of_lowered hlower,
    comp_fixed (g := fun s => trim 46 (portless s))
      (fun s => (trim_sublist 46 _).trans (portless_sublist s)) trimSpace_sublist,
    comp_fixed (trim_sublist 46) portless_sublist]
  exact and_congr_right fun _ => and_iff_left hbare

section Passes

variable {t host port : Str}

theorem second_split (h : splitHostPort t = some (host, port)) :
    (trimSpace (trim 46 (portless t)) = trim 46 (portless t) ∧
      portless (trim 46 (portless t)) = trim 46 (portless t)) ↔
        Tight host ∧ host.count 58 ≠ 1 := by
  have hplain : 91 ∉ host ∧ 93 ∉ host := by
    rcases splitHostPort_iff.mp h with ⟨-, hopen, hclose, -⟩ | ⟨rfl, -, -, hopen, hclose⟩
    · exact ⟨hopen, hclose⟩
    · exact ⟨fun hmem => hopen (List.mem_append_left _ hmem),
        fun hmem => hclose (List.mem_append_left _ hmem)⟩
  have hcount : (trim 46 host).count 58 = host.count 58 := by
    obtain ⟨j, k, heq⟩ := exists_padding 46 host
    conv_rhs => rw [heq]
    exact (count_padded j k _).symm
  rw [portless_split h, ← tight_iff, portless_plain ((mem_trim (by decide)).not.mpr hplain.1)
    ((mem_trim (by decide)).not.mpr hplain.2), hcount]

theorem second_numbered (hsplit : splitHostPort (host ++ 58 :: port) = none) (hhost : 58 ∉ host)
    (hport : 58 ∉ port) (hok : atoiOk port = true) :
    (trimSpace (trim 46 (portless (host ++ 58 :: port))) =
        trim 46 (portless (host ++ 58 :: port)) ∧
      portless (trim 46 (portless (host ++ 58 :: port))) =
        trim 46 (portless (host ++ 58 :: port))) ↔ Tight host := by
  rw [portless_numbered hsplit hhost hport hok, ← tight_iff]
  exact and_iff_left (portless_no_colon ((mem_trim (by decide)).not.mpr hhost))

theorem second_whole (hsplit : splitHostPort t = none) (hnumber : ¬ Numbered t) :
    (trimSpace (trim 46 (portless t)) = trim 46 (portless t) ∧
      portless (trim 46 (portless t)) = trim 46 (portless t)) ↔ Tight t ∧ ¬ Hidden t := by
  rw [portless_none hsplit hnumber, ← tight_iff]
  refine and_congr_right fun _ => ⟨fun hport hhidden => ?_, portless_trim hsplit⟩
  exact portless_of_hidden hhidden hport

theorem settled_iff : Settled t ↔ trimSpace (trim 46 (portless t)) = trim 46 (portless t) ∧
    portless (trim 46 (portless t)) = trim 46 (portless t) := by
  constructor
  · intro h
    cases hsplit : splitHostPort t with
    | some parts => exact (second_split hsplit).mpr (h.split _ _ hsplit)
    | none =>
      by_cases hnumber : Numbered t
      · obtain ⟨host, port, rfl, hhost, hport, hok⟩ := hnumber
        exact (second_numbered hsplit hhost hport hok).mpr
          (h.numbered host port hsplit rfl hhost hport hok)
      · exact (second_whole hsplit hnumber).mpr (h.whole hsplit hnumber)
  · intro h
    constructor
    · intro host port hsplit
      exact (second_split hsplit).mp h
    · rintro host port hsplit rfl hhost hport hok
      exact (second_numbered hsplit hhost hport hok).mp h
    · intro hsplit hnumber
      exact (second_whole hsplit hnumber).mp h

end Passes

theorem lowered_portless {unicode : Unicode} {s : Str} (h : Lowered unicode s) :
    Lowered unicode (portless s) := by
  cases hsplit : splitHostPort s with
  | some parts =>
    rw [portless_split hsplit]
    rcases splitHostPort_iff.mp hsplit with ⟨rfl, -⟩ | ⟨rfl, -⟩
    · exact (lowered_append (by decide) (@lowered_append unicode 91 [] _ (by decide) h).2).1
    · exact (lowered_append (by decide) h).1
  | none =>
    by_cases hnumber : Numbered s
    · obtain ⟨host, port, rfl, hhost, hport, hok⟩ := hnumber
      rw [portless_numbered hsplit hhost hport hok]
      exact (lowered_append (by decide) h).1
    · rw [portless_none hsplit hnumber]
      exact h

/-- The key of a host is the same whether or not it has been spelled before. -/
theorem Key_eq_iff (unicode : Unicode) (hostname slug : Str) :
    Key unicode (NormalizeHostname unicode hostname) slug = Key unicode hostname slug ↔
      NormalizeHostname unicode (NormalizeHostname unicode hostname) =
        NormalizeHostname unicode hostname := by
  rw [Key, Key, List.append_left_inj, List.append_left_inj, List.append_right_inj]

/-- One pass is enough exactly when what it leaves is settled. -/
theorem NormalizeHostname_idempotent_iff (unicode : Unicode) (hlower : Lowercase unicode)
    (hostname : Str) :
    (NormalizeHostname unicode (NormalizeHostname unicode hostname) =
        NormalizeHostname unicode hostname ∧
      ∀ slug, Key unicode (NormalizeHostname unicode hostname) slug = Key unicode hostname slug) ↔
      Settled (trimSpace (unicode.toLower hostname)) := by
  have hlowered : Lowered unicode (NormalizeHostname unicode hostname) :=
    lowered_trim (lowered_portless (lowered_trimSpace (lowered_toLower hlower hostname)))
  have hpass := normalized_iff hlowered (trim_trim 46 _)
  simp only [Key_eq_iff, forall_const, and_self]
  rw [hpass, settled_iff]
  rfl

/-- `unicode.ToLower` of a text without letters beyond ASCII is not asked for any. -/
def caseless : Unicode := ⟨fun _ => [0xEF, 0xBF, 0xBD]⟩

theorem lowercase_caseless : Lowercase caseless where
  rune _ := ⟨replacement, whole_replacement, rfl⟩
  settled _ := (by decide : caseless.toLower [0xEF, 0xBF, 0xBD] = [0xEF, 0xBF, 0xBD])
  replacement := rfl

theorem NormalizeHostname_idempotent_dotted :
    Settled (trimSpace (caseless.toLower (lit " EXAMPLE.COM.:443 "))) :=
  (NormalizeHostname_idempotent_iff caseless lowercase_caseless _).mp
    ⟨by decide, fun _ => (Key_eq_iff _ _ _).mpr (by decide)⟩

/-- The brackets are taken off with the port behind them, and what stood between them loses its
own port the second time. -/
theorem port_lost_twice :
    let host := lit "[go.example.com:8080]:443"
    NormalizeHostname caseless host = lit "go.example.com:8080" ∧
      NormalizeHostname caseless (NormalizeHostname caseless host) = lit "go.example.com" ∧
      Key caseless (NormalizeHostname caseless host) (lit "docs") ≠
        Key caseless host (lit "docs") := by
  decide

end HostSpelling
