import Mathlib.Data.Nat.Log
import Mathlib.Tactic.Ring

/-! # Whole numbers in a browser

A JavaScript number is a double. A whole number is rounded to 53 bits when it is read, and written
with the fewest digits that are read back as the same double. -/
namespace BrowserNumbers

/-- The nearest double; of two the one with the even significand. -/
def toDouble (n : ℕ) : ℕ :=
  let unit := 2 ^ (n.log2 - 52)
  let q := n / unit
  let r := n % unit
  if 2 * r < unit || (2 * r = unit && q % 2 = 0) then q * unit else (q + 1) * unit

/-- The shortest text of a double with at most so many zeros at its end: the nearest of two, or
the even one. -/
def shortestFrom (d : ℕ) : ℕ → ℕ
  | 0 => d
  | zeros + 1 =>
    let unit := 10 ^ (zeros + 1)
    let low := d / unit * unit
    let high := low + unit
    let lowFirst := 2 * (d - low) < unit || (2 * (d - low) = unit && d / unit % 2 = 0)
    if toDouble low = d && (lowFirst || toDouble high ≠ d) then low
    else if toDouble high = d then high
    else shortestFrom d zeros

/-- `String(Number(n))`. -/
def printed (n : ℕ) : ℕ := shortestFrom (toDouble n) ((toDouble n).log2 + 1)

example : printed 9223372036854775807 = 9223372036854776000 := by decide

example : printed 9007199254740993 = 9007199254740992 := by decide

theorem toDouble_small {n : ℕ} (h : n < 2 ^ 53) : toDouble n = n := by
  have hlog : n.log2 - 52 = 0 := by
    by_cases hzero : n = 0
    · rw [hzero]
      rfl
    · have hlt := (Nat.log2_lt hzero).mpr h
      omega
  unfold toDouble
  rw [hlog]
  simp [Nat.mod_one]

theorem toDouble_large {n : ℕ} (h : 2 ^ 53 ≤ n) : 2 ^ 53 ≤ toDouble n := by
  have hne : n ≠ 0 := by
    have hpos := Nat.two_pow_pos 53
    omega
  have hlog : 53 ≤ n.log2 := (Nat.le_log2 hne).mpr h
  have hself : 2 ^ n.log2 ≤ n := Nat.log2_self_le hne
  have hsplit : 2 ^ n.log2 = 2 ^ 52 * 2 ^ (n.log2 - 52) := by
    rw [← Nat.pow_add]
    congr 1
    omega
  have hq : 2 ^ 52 ≤ n / 2 ^ (n.log2 - 52) := by
    rw [Nat.le_div_iff_mul_le (Nat.two_pow_pos _), ← hsplit]
    exact hself
  have hfloor : 2 ^ 53 ≤ n / 2 ^ (n.log2 - 52) * 2 ^ (n.log2 - 52) := by
    calc 2 ^ 53 ≤ 2 ^ n.log2 := Nat.pow_le_pow_right (by decide) hlog
      _ = 2 ^ 52 * 2 ^ (n.log2 - 52) := hsplit
      _ ≤ n / 2 ^ (n.log2 - 52) * 2 ^ (n.log2 - 52) := Nat.mul_le_mul_right _ hq
  unfold toDouble
  dsimp only
  split
  · exact hfloor
  · rw [Nat.add_mul]
    omega

/-- Only the number itself is read as a small number. -/
theorem toDouble_eq {m n : ℕ} (h : n < 2 ^ 53) (hm : toDouble m = n) : m = n := by
  by_cases hsmall : m < 2 ^ 53
  · rw [← hm, toDouble_small hsmall]
  · have hlarge := toDouble_large (Nat.le_of_not_lt hsmall)
    omega

theorem shortestFrom_small {n : ℕ} (h : n < 2 ^ 53) (zeros : ℕ) : shortestFrom n zeros = n := by
  induction zeros with
  | zero => rfl
  | succ zeros ih =>
    unfold shortestFrom
    dsimp only
    split
    · rename_i hlow
      simp only [Bool.and_eq_true, decide_eq_true_eq] at hlow
      exact toDouble_eq h hlow.1
    · split
      · rename_i hhigh
        exact toDouble_eq h hhigh
      · exact ih

/-- A number of at most 53 bits is printed as it is. -/
theorem printed_small {n : ℕ} (h : n < 2 ^ 53) : printed n = n := by
  rw [printed, toDouble_small h]
  exact shortestFrom_small h _

end BrowserNumbers
