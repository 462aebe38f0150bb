import Mathlib.Data.List.Induction
import ShortQ.GoTime

/-! # Numbers in decimal

What `strconv` and the layouts of `time` print is read back to the same number, and a field
of fixed width is the print of its value. -/
namespace DecimalText

open GoText
open GoTime (digits fixed)

/-- The number that a run of digits denotes. -/
def value (s : Str) : ℕ := s.foldl (fun n b => n * 10 + (b.toNat - 48)) 0

theorem decimal_eq (s : Str) :
    decimal s = if s.all isDigit && !s.isEmpty then some (value s) else none := rfl

theorem decimal_eq_some {s : Str} {n : ℕ} :
    decimal s = some n ↔ (∀ b ∈ s, isDigit b = true) ∧ s ≠ [] ∧ value s = n := by
  rw [decimal_eq]
  constructor
  · intro h
    split at h
    · rename_i hdigits
      simp only [Bool.and_eq_true, List.all_eq_true, Bool.not_eq_true', List.isEmpty_eq_false_iff]
        at hdigits
      exact ⟨hdigits.1, hdigits.2, Option.some.inj h⟩
    · cases h
  · rintro ⟨hdigits, hne, rfl⟩
    rw [if_pos]
    simpa using ⟨hdigits, hne⟩

theorem isDigit_iff {b : UInt8} : isDigit b = true ↔ 48 ≤ b.toNat ∧ b.toNat ≤ 57 := by
  simp only [isDigit, Bool.and_eq_true, decide_eq_true_eq, UInt8.le_iff_toNat_le]
  rfl

@[simp] theorem value_nil : value [] = 0 := rfl

@[simp] theorem value_snoc (s : Str) (b : UInt8) :
    value (s ++ [b]) = value s * 10 + (b.toNat - 48) := by
  simp [value]

theorem value_lt {s : Str} (h : ∀ b ∈ s, isDigit b = true) : value s < 10 ^ s.length := by
  induction s using List.reverseRecOn with
  | nil => decide
  | append_singleton s b ih =>
    have hs := ih fun c hc => h c (List.mem_append_left _ hc)
    have hb := isDigit_iff.mp (h b (by simp))
    rw [value_snoc, List.length_append, List.length_singleton, Nat.pow_succ]
    omega

/-- Of one length, the digits are determined by the number. -/
theorem value_inj {s t : Str} (hs : ∀ b ∈ s, isDigit b = true) (ht : ∀ b ∈ t, isDigit b = true)
    (hlength : s.length = t.length) (h : value s = value t) : s = t := by
  induction s using List.reverseRecOn generalizing t with
  | nil => exact (List.length_eq_zero_iff.mp hlength.symm).symm
  | append_singleton s a ih =>
    induction t using List.reverseRecOn with
    | nil => simp at hlength
    | append_singleton t b =>
      have ha := isDigit_iff.mp (hs a (by simp))
      have hb := isDigit_iff.mp (ht b (by simp))
      simp only [value_snoc] at h
      simp only [List.length_append, List.length_singleton, Nat.add_right_cancel_iff] at hlength
      have hfront := ih (fun c hc => hs c (List.mem_append_left _ hc))
        (fun c hc => ht c (List.mem_append_left _ hc)) hlength (by omega)
      have hlast : a = b := UInt8.toNat_inj.mp (by omega)
      rw [hfront, hlast]

/-! ## Printed numbers -/

theorem lit_digits {cs : List Char} (h : ∀ c ∈ cs, c.isDigit = true) :
    cs.flatMap String.utf8EncodeChar = cs.map fun c => UInt8.ofNat c.toNat := by
  induction cs with
  | nil => rfl
  | cons c cs ih =>
    have hc := h c List.mem_cons_self
    simp only [Char.isDigit, Bool.and_eq_true, decide_eq_true_eq] at hc
    have hval : c.val.toNat = c.toNat := rfl
    have hhigh : c.toNat ≤ 57 := hc.2
    have hone : String.utf8EncodeChar c = [UInt8.ofNat c.toNat] := by
      unfold String.utf8EncodeChar
      dsimp only
      rw [if_pos (by omega), hval]
    rw [List.flatMap_cons, hone, ih fun d hd => h d (List.mem_cons_of_mem c hd)]
    rfl

theorem isDigit_of_char {c : Char} (h : c.isDigit = true) :
    isDigit (UInt8.ofNat c.toNat) = true ∧ (UInt8.ofNat c.toNat).toNat = c.toNat := by
  simp only [Char.isDigit, Bool.and_eq_true, decide_eq_true_eq] at h
  have hlow : 48 ≤ c.toNat := h.1
  have hhigh : c.toNat ≤ 57 := h.2
  have hnat : (UInt8.ofNat c.toNat).toNat = c.toNat := by
    rw [UInt8.toNat_ofNat']
    omega
  exact ⟨isDigit_iff.mpr (by omega), hnat⟩

theorem isDigit_toDigits {n : ℕ} {c : Char} (h : c ∈ Nat.toDigits 10 n) : c.isDigit = true :=
  Nat.isDigit_of_mem_toDigits (by omega) (by omega) h

theorem lit_repr (n : ℕ) :
    lit (Nat.repr n) = (Nat.toDigits 10 n).map fun c => UInt8.ofNat c.toNat := by
  rw [lit, Nat.toList_repr, lit_digits fun c hc => isDigit_toDigits hc]

theorem value_chars {cs : List Char} (h : ∀ c ∈ cs, c.isDigit = true) :
    value (cs.map fun c => UInt8.ofNat c.toNat) = Nat.ofDigitChars 10 cs 0 := by
  induction cs using List.reverseRecOn with
  | nil => rfl
  | append_singleton cs c ih =>
    have hc := (isDigit_of_char (h c (by simp))).2
    rw [List.map_append, List.map_singleton, value_snoc, hc,
      ih fun d hd => h d (List.mem_append_left _ hd), Nat.ofDigitChars_append,
      Nat.ofDigitChars_cons, Nat.ofDigitChars_nil, Nat.mul_comm]
    rfl

theorem digit_of_mem_repr {n : ℕ} {b : UInt8} (h : b ∈ lit (Nat.repr n)) : isDigit b = true := by
  rw [lit_repr] at h
  obtain ⟨c, hc, rfl⟩ := List.mem_map.mp h
  exact (isDigit_of_char (isDigit_toDigits hc)).1

theorem repr_ne_nil (n : ℕ) : lit (Nat.repr n) ≠ [] := by
  simp [lit_repr]

theorem value_repr (n : ℕ) : value (lit (Nat.repr n)) = n := by
  rw [lit_repr, value_chars fun c hc => isDigit_toDigits hc, Nat.ofDigitChars_ten_toDigits]

/-- A printed number is read back. -/
theorem decimal_repr (n : ℕ) : decimal (lit (Nat.repr n)) = some n :=
  decimal_eq_some.mpr ⟨fun _ => digit_of_mem_repr, repr_ne_nil n, value_repr n⟩

/-! ## Fields of fixed width -/

theorem digits_ofNat (k n : ℕ) : digits k (n : ℤ) =
    List.replicate (k - (lit (Nat.repr n)).length) 48 ++ lit (Nat.repr n) := rfl

theorem value_zeros (k : ℕ) (s : Str) : value (List.replicate k 48 ++ s) = value s := by
  induction s using List.reverseRecOn with
  | nil =>
    induction k with
    | zero => rfl
    | succ k ih =>
      rw [List.append_nil] at ih ⊢
      rw [List.replicate_succ', value_snoc, ih]
      rfl
  | append_singleton s b ih => rw [← List.append_assoc, value_snoc, value_snoc, ih]

theorem digit_of_mem_digits {k n : ℕ} {b : UInt8} (h : b ∈ digits k (n : ℤ)) :
    isDigit b = true := by
  rw [digits_ofNat] at h
  rcases List.mem_append.mp h with hzero | hrepr
  · rw [List.eq_of_mem_replicate hzero]
    decide
  · exact digit_of_mem_repr hrepr

theorem value_digits (k n : ℕ) : value (digits k (n : ℤ)) = n := by
  rw [digits_ofNat, value_zeros, value_repr]

theorem decimal_digits (k n : ℕ) : decimal (digits k (n : ℤ)) = some n := by
  refine decimal_eq_some.mpr ⟨fun _ => digit_of_mem_digits, ?_, value_digits k n⟩
  rw [digits_ofNat]
  exact List.append_ne_nil_of_right_ne_nil _ (repr_ne_nil n)

theorem length_digits {k n : ℕ} (hk : 0 < k) (h : n < 10 ^ k) : (digits k (n : ℤ)).length = k := by
  have hle : (lit (Nat.repr n)).length ≤ k := by
    rw [lit_repr, List.length_map]
    exact (Nat.length_toDigits_le_iff (by omega) hk).mpr h
  rw [digits_ofNat, List.length_append, List.length_replicate]
  omega

/-- A field is read as the number it was printed from. -/
theorem fixed_digits {k n : ℕ} (hk : 0 < k) (h : n < 10 ^ k) (rest : Str) :
    fixed k (digits k (n : ℤ) ++ rest) = some (n, rest) := by
  have hlength := length_digits hk h
  have htake : (digits k (n : ℤ) ++ rest).take k = digits k (n : ℤ) := by
    rw [List.take_append_of_le_length (by omega), List.take_of_length_le (by omega)]
  have hdrop : (digits k (n : ℤ) ++ rest).drop k = rest := by
    rw [List.drop_append, List.drop_of_length_le (by omega), hlength, Nat.sub_self]
    rfl
  rw [fixed, htake, if_pos hlength, hdrop, decimal_digits]
  rfl

/-- A field begins with a digit. -/
theorem fixed_sign {b : UInt8} (h : isDigit b = false) {k : ℕ} (hk : 0 < k) (rest : Str) :
    fixed k (b :: rest) = none := by
  unfold fixed
  split
  · have hbad : decimal ((b :: rest).take k) = none := by
      obtain ⟨k, rfl⟩ := Nat.exists_eq_succ_of_ne_zero (Nat.ne_of_gt hk)
      rw [decimal, List.take_succ_cons, List.all_cons, h]
      rfl
    rw [hbad]
    rfl
  · rfl

/-- A field of this width is the print of the number it denotes. -/
theorem fixed_eq_some {k n : ℕ} {s rest : Str} (hk : 0 < k) (h : fixed k s = some (n, rest)) :
    s = digits k (n : ℤ) ++ rest ∧ n < 10 ^ k := by
  unfold fixed at h
  split at h
  · rename_i hlength
    obtain ⟨v, hv, heq⟩ := Option.map_eq_some_iff.mp h
    obtain ⟨rfl, rfl⟩ := Prod.mk.inj heq
    obtain ⟨hdigits, -, hvalue⟩ := decimal_eq_some.mp hv
    have hlt : v < 10 ^ k := by
      have hbound := value_lt hdigits
      rwa [hlength, hvalue] at hbound
    have hprint : s.take k = digits k (v : ℤ) :=
      value_inj hdigits (fun _ => digit_of_mem_digits)
        (by rw [hlength, length_digits hk hlt]) (by rw [hvalue, value_digits])
    exact ⟨by rw [← hprint, List.take_append_drop], hlt⟩
  · cases h

end DecimalText
