import ShortQ.Runes

/-! # Base64

`base64.RawURLEncoding`: the URL alphabet without padding. -/
namespace Base64

open GoText
open Runes

def alphabet : Str := lit "ABCDEFGHIJKLMNOPQRSTUVWXYZabcdefghijklmnopqrstuvwxyz0123456789-_"

def digit (v : ℕ) : UInt8 := alphabet.getD v 0

/-- `EncodeToString`. -/
def encode : Str → Str
  | a :: b :: c :: rest =>
    [digit (a.toNat / 4), digit (a.toNat % 4 * 16 + b.toNat / 16),
      digit (b.toNat % 16 * 4 + c.toNat / 64), digit (c.toNat % 64)] ++ encode rest
  | [a, b] =>
    [digit (a.toNat / 4), digit (a.toNat % 4 * 16 + b.toNat / 16), digit (b.toNat % 16 * 4)]
  | [a] => [digit (a.toNat / 4), digit (a.toNat % 4 * 16)]
  | [] => []

def sextet (b : UInt8) : Option ℕ := alphabet.findIdx? (· = b)

/-- The bytes of a list of sextets. The bits left over of the last one are not looked at. -/
def join : List ℕ → Option Str
  | p :: q :: r :: s :: rest => (join rest).map fun more =>
    [UInt8.ofNat (p * 4 + q / 16), UInt8.ofNat (q % 16 * 16 + r / 4),
      UInt8.ofNat (r % 4 * 64 + s)] ++
      more
  | [p, q, r] => some [UInt8.ofNat (p * 4 + q / 16), UInt8.ofNat (q % 16 * 16 + r / 4)]
  | [p, q] => some [UInt8.ofNat (p * 4 + q / 16)]
  | [_] => none
  | [] => some []

/-- `DecodeString` passes over line ends. -/
def decode (s : Str) : Option Str :=
  ((s.filter fun b => b ≠ 10 && b ≠ 13).mapM sextet).bind join

theorem digit_spec : ∀ v < 64, sextet (digit v) = some v ∧ digit v ≠ 10 ∧ digit v ≠ 13 ∧
    digit v ≠ 46 := by
  decide

/-- The sextets of a text. -/
def sextets : Str → List ℕ
  | a :: b :: c :: rest =>
    [a.toNat / 4, a.toNat % 4 * 16 + b.toNat / 16, b.toNat % 16 * 4 + c.toNat / 64,
      c.toNat % 64] ++ sextets rest
  | [a, b] => [a.toNat / 4, a.toNat % 4 * 16 + b.toNat / 16, b.toNat % 16 * 4]
  | [a] => [a.toNat / 4, a.toNat % 4 * 16]
  | [] => []

theorem encode_eq (s : Str) : encode s = (sextets s).map digit := by
  induction s using encode.induct with
  | case1 a b c rest ih => rw [encode, sextets, ih, List.map_append]; rfl
  | case2 a b => rfl
  | case3 a => rfl
  | case4 => rfl

theorem sextet_lt (s : Str) : ∀ v ∈ sextets s, v < 64 := by
  induction s using encode.induct with
  | case1 a b c rest ih =>
    have ha := a.toNat_lt
    have hb := b.toNat_lt
    have hc := c.toNat_lt
    intro v hv
    simp only [sextets, List.mem_append, List.mem_cons, List.not_mem_nil, or_false] at hv
    rcases hv with (rfl | rfl | rfl | rfl) | hv
    · omega
    · omega
    · omega
    · omega
    · exact ih v hv
  | case2 a b =>
    have ha := a.toNat_lt
    have hb := b.toNat_lt
    simp only [sextets, List.forall_mem_cons, List.not_mem_nil, false_implies, implies_true,
      and_true]
    omega
  | case3 a =>
    have ha := a.toNat_lt
    simp only [sextets, List.forall_mem_cons, List.not_mem_nil, false_implies, implies_true,
      and_true]
    omega
  | case4 => simp [sextets]

theorem join_sextets (s : Str) : join (sextets s) = some s := by
  induction s using encode.induct with
  | case1 a b c rest ih =>
    have ha := a.toNat_lt
    have hb := b.toNat_lt
    have hc := c.toNat_lt
    simp only [sextets, List.cons_append, List.nil_append, join, ih, Option.map_some]
    rw [@ofNat_eq a _ (by omega), @ofNat_eq b _ (by omega), @ofNat_eq c _ (by omega)]
  | case2 a b =>
    have ha := a.toNat_lt
    have hb := b.toNat_lt
    simp only [sextets, join]
    rw [@ofNat_eq a _ (by omega), @ofNat_eq b _ (by omega)]
  | case3 a =>
    have ha := a.toNat_lt
    simp only [sextets, join]
    rw [@ofNat_eq a _ (by omega)]
  | case4 => rfl

theorem mapM_digit {vs : List ℕ} (h : ∀ v ∈ vs, v < 64) :
    (vs.map digit).mapM sextet = some vs := by
  induction vs with
  | nil => rfl
  | cons v vs ih =>
    have hrest := ih fun w hw => h w (List.mem_cons_of_mem v hw)
    rw [List.map_cons, List.mapM_cons, (digit_spec v (h v List.mem_cons_self)).1, hrest]
    rfl

theorem mem_encode {s : Str} {b : UInt8} (h : b ∈ encode s) : b ≠ 10 ∧ b ≠ 13 ∧ b ≠ 46 := by
  rw [encode_eq] at h
  obtain ⟨v, hv, rfl⟩ := List.mem_map.mp h
  exact (digit_spec v (sextet_lt s v hv)).2

/-- What was encoded is decoded. -/
theorem decode_encode (s : Str) : decode (encode s) = some s := by
  have hkeep : (encode s).filter (fun b => b ≠ 10 && b ≠ 13) = encode s := by
    refine List.filter_eq_self.mpr fun b hb => ?_
    obtain ⟨h10, h13, -⟩ := mem_encode hb
    simp [h10, h13]
  rw [decode, hkeep, encode_eq, mapM_digit (sextet_lt s), Option.bind_some, join_sextets]

/-- The text of an encoding has no dot. -/
theorem dot_notMem_encode (s : Str) : 46 ∉ encode s := fun h => (mem_encode h).2.2 rfl

example : encode (lit "\x7b\"lid\":7\x7d") = lit "eyJsaWQiOjd9" := by decide

end Base64
