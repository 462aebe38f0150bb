import ShortQ.GoUrl
import ShortQ.Runes

/-! # The texts `net/netip` reads as addresses

An accepted text is short, and its bytes before the zone are digits, dots and colons. -/
namespace AddressText

open GoText
open GoUrl

/-- A byte of an address without its zone. -/
def addressByte (b : UInt8) : Bool := isHex b || b = 46 || b = 58

theorem foldl_digits_ge (f : Str) (n : ℕ) :
    n * 10 ^ f.length ≤ f.foldl (fun n b => n * 10 + (b.toNat - 48)) n := by
  induction f generalizing n with
  | nil => simp
  | cons b rest ih =>
    rw [List.length_cons, List.foldl_cons]
    refine le_trans ?_ (ih (n * 10 + (b.toNat - 48)))
    rw [Nat.pow_succ', ← Nat.mul_assoc]
    exact Nat.mul_le_mul_right _ (Nat.le_add_right _ _)

theorem octet_length {f : Str} (h : (decimal f).any (· ≤ 255) = true)
    (hzero : f.length = 1 ∨ f.head? ≠ some 48) : f.length ≤ 3 := by
  unfold decimal at h
  split at h
  · rename_i hdigits
    rw [Option.any_some, decide_eq_true_eq] at h
    rcases hzero with hone | hhead
    · omega
    cases f with
    | nil => simp
    | cons b rest =>
      simp only [Bool.and_eq_true, List.all_cons] at hdigits
      have hge : 49 ≤ b.toNat := by
        have hdigit := hdigits.1.1
        simp only [isDigit, Bool.and_eq_true, decide_eq_true_eq] at hdigit
        have hlow := UInt8.le_iff_toNat_le.mp hdigit.1
        have hne : b.toNat ≠ 48 := fun heq => hhead (by
          rw [List.head?_cons]
          exact congrArg some (UInt8.toNat_inj.mp heq))
        have h48 : (48 : UInt8).toNat = 48 := rfl
        omega
      rw [List.foldl_cons] at h
      have hfold := foldl_digits_ge rest (0 * 10 + (b.toNat - 48))
      by_contra hlong
      rw [List.length_cons] at hlong
      have hpow : 10 ^ 3 ≤ 10 ^ rest.length := Nat.pow_le_pow_right (by omega) (by omega)
      have hmul : 1 * 10 ^ 3 ≤ (0 * 10 + (b.toNat - 48)) * 10 ^ rest.length :=
        Nat.mul_le_mul (by omega) hpow
      omega
  · cases h

theorem digits_of_decimal {f : Str} {p : ℕ → Bool} (h : (decimal f).any p = true) :
    ∀ b ∈ f, isDigit b = true := by
  unfold decimal at h
  split at h
  · rename_i hdigits
    simp only [Bool.and_eq_true] at hdigits
    exact List.all_eq_true.mp hdigits.1
  · cases h

theorem validIPv4_short {s : Str} (h : validIPv4 s = true) :
    s.length ≤ 15 ∧ ∀ b ∈ s, isDigit b = true ∨ b = 46 := by
  unfold validIPv4 at h
  simp only [Bool.and_eq_true, decide_eq_true_eq, List.all_eq_true, Bool.or_eq_true] at h
  obtain ⟨hfour, hfields⟩ := h
  have hjoin : [46].intercalate (s.splitOn 46) = s := List.intercalate_splitOn 46
  have hshort : ∀ f ∈ s.splitOn 46, f.length ≤ 3 := fun f hf =>
    octet_length (hfields f hf).1 (hfields f hf).2
  have hdigit : ∀ f ∈ s.splitOn 46, ∀ b ∈ f, isDigit b = true := fun f hf =>
    digits_of_decimal (hfields f hf).1
  generalize s.splitOn 46 = fields at hfour hjoin hshort hdigit
  match fields, hfour with
  | [a, b, c, d], _ =>
    rw [← hjoin]
    simp only [List.mem_cons, List.not_mem_nil, or_false, forall_eq_or_imp, forall_eq]
      at hshort hdigit
    obtain ⟨ha, hb, hc, hd⟩ := hshort
    obtain ⟨ka, kb, kc, kd⟩ := hdigit
    have hjoined : [46].intercalate [a, b, c, d] =
        a ++ [46] ++ b ++ [46] ++ c ++ [46] ++ d := by simp [List.intercalate]
    rw [hjoined]
    constructor
    · simp only [List.length_append, List.length_singleton]
      omega
    · intro x hx
      simp only [List.mem_append, List.mem_singleton] at hx
      rcases hx with (((((hx | hx) | hx) | hx) | hx) | hx) | hx
      · exact Or.inl (ka x hx)
      · exact Or.inr hx
      · exact Or.inl (kb x hx)
      · exact Or.inr hx
      · exact Or.inl (kc x hx)
      · exact Or.inr hx
      · exact Or.inl (kd x hx)

theorem addressByte_of_digit {b : UInt8} (h : isDigit b = true ∨ b = 46) :
    addressByte b = true := by
  unfold addressByte isHex
  rcases h with h | h <;> simp [h]

/-- The longest text that still fits after `i` of the sixteen bytes. -/
def room (i : ℕ) (ellipsis : Option ℕ) : ℕ := (if ellipsis.isSome then 45 else 46) - 5 * (i / 2)

theorem room_ge {i : ℕ} (h : i ≤ 15) (ellipsis : Option ℕ) : 10 ≤ room i ellipsis := by
  unfold room
  split <;> omega

/-- Each group takes four digits and a colon, an ellipsis one colon more. -/
theorem ipv6Groups_short {fuel i : ℕ} {ellipsis : Option ℕ} {s : Str} (hi : i ≤ 15)
    (h : ipv6Groups fuel i ellipsis s = true) :
    s.length ≤ room i ellipsis ∧ ∀ b ∈ s, addressByte b = true := by
  induction fuel generalizing i ellipsis s with
  | zero => cases h
  | succ fuel ih =>
    have hsplit := List.prefix_iff_eq_append.mp (List.takeWhile_prefix isHex (l := s))
    have hhex : ∀ b ∈ s.takeWhile isHex, addressByte b = true := fun b hb => by
      unfold addressByte
      rw [List.mem_takeWhile_imp hb]
      rfl
    have hcolon : addressByte 58 = true := rfl
    have hroom := room_ge hi ellipsis
    unfold ipv6Groups at h
    dsimp only at h
    generalize s.takeWhile isHex = digits at h hsplit hhex
    split at h
    · cases h
    rename_i hdigits
    simp only [Bool.or_eq_true, decide_eq_true_eq, not_or, not_lt] at hdigits
    split at h
    · -- an address of version 4 at the end
      simp only [Bool.and_eq_true, decide_eq_true_eq] at h
      obtain ⟨⟨⟨-, hlast⟩, hv4⟩, -⟩ := h
      obtain ⟨hlength, hbytes⟩ := validIPv4_short hv4
      refine ⟨?_, fun b hb => addressByte_of_digit (hbytes b hb)⟩
      unfold room
      split <;> omega
    · rename_i hrest
      rw [hrest, List.append_nil] at hsplit
      rw [← hsplit]
      exact ⟨by omega, hhex⟩
    · rename_i rest hrest
      rw [hrest] at hsplit
      split at h
      · cases h
      rename_i hnone
      rw [← hsplit]
      split at h
      · rename_i hempty
        rw [List.isEmpty_iff.mp hempty]
        constructor
        · simp only [List.length_append, List.length_cons, List.length_nil]
          omega
        · intro b hb
          simp only [List.mem_append, List.mem_cons, List.not_mem_nil, or_false, or_self] at hb
          rcases hb with hb | rfl
          · exact hhex b hb
          · exact hcolon
      split at h
      · have hsmall : i + 2 ≤ 15 := by omega
        obtain ⟨hlength, hbytes⟩ := ih hsmall h
        constructor
        · simp only [List.length_append, List.length_cons]
          unfold room at hlength ⊢
          simp only [Option.isSome_some, if_true, hnone] at hlength ⊢
          simp only [Bool.false_eq_true, if_false]
          omega
        · intro b hb
          simp only [List.mem_append, List.mem_cons] at hb
          rcases hb with hb | rfl | rfl | hb
          · exact hhex b hb
          · exact hcolon
          · exact hcolon
          · exact hbytes b hb
      · cases h
    · rename_i c rest _ hrest
      rw [hrest] at hsplit
      rw [← hsplit]
      simp only [Bool.and_eq_true, decide_eq_true_eq] at h
      have hsmall : i + 2 ≤ 15 := by omega
      obtain ⟨hlength, hbytes⟩ := ih hsmall h.2
      constructor
      · rw [List.length_append, List.length_cons]
        unfold room at hlength ⊢
        have htotal : 45 ≤ if ellipsis.isSome = true then 45 else 46 := by split <;> omega
        generalize (if ellipsis.isSome = true then 45 else 46) = total at hlength htotal ⊢
        omega
      · intro b hb
        rw [List.mem_append, List.mem_cons] at hb
        rcases hb with hb | rfl | hb
        · exact hhex b hb
        · exact hcolon
        · exact hbytes b hb
    · cases h

theorem validIPv6_short {s : Str} (h : validIPv6 s = true) :
    (cut 37 s).1.length ≤ 47 ∧ ∀ b ∈ (cut 37 s).1, addressByte b = true := by
  unfold validIPv6 at h
  split at h
  rename_i addr zone hcut
  rw [hcut]
  dsimp only
  simp only [Bool.and_eq_true] at h
  obtain ⟨-, h⟩ := h
  split at h
  · exact ⟨by simp, by decide⟩
  · rename_i rest _
    obtain ⟨hlength, hbytes⟩ := ipv6Groups_short (by omega) h
    constructor
    · rw [List.length_cons, List.length_cons]
      change rest.length ≤ 45 at hlength
      omega
    · intro b hb
      rw [List.mem_cons, List.mem_cons] at hb
      rcases hb with rfl | rfl | hb
      · rfl
      · rfl
      · exact hbytes b hb
  · obtain ⟨hlength, hbytes⟩ := ipv6Groups_short (by omega) h
    exact ⟨le_trans hlength (by decide), hbytes⟩

end AddressText
