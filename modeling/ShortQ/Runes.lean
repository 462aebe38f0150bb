import Mathlib.Data.List.DropRight
import Mathlib.Data.List.Flatten
import ShortQ.GoText

/-! # Texts as lists of runes

A valid text is the concatenation of runes that decode again wherever they stand, so what
`strings` cuts out of it along runes is valid text too. -/
namespace Runes

open GoText

/-- A rune that its bytes yield again, whatever follows them. -/
def Whole (r : Rune) : Prop :=
  ∃ a bs, r.bytes = a :: bs ∧ r.value.isSome ∧ ∀ t, decodeRune a (bs ++ t) = r

/-- Decoding rejects one byte or takes a rune from the front and looks no further. -/
theorem decodeRune_cases (a : UInt8) (rest : Str) :
    decodeRune a rest = ⟨none, [a]⟩ ∨ ∃ v bs t, rest = bs ++ t ∧
      ∀ u, decodeRune a (bs ++ u) = ⟨some v, a :: bs⟩ := by
  by_cases h1 : a < 0x80
  · exact Or.inr ⟨a.toNat, [], rest, rfl, fun u => by unfold decodeRune; rw [if_pos h1]⟩
  by_cases h2 : (0xC2 ≤ a && a ≤ 0xDF) = true
  · rcases rest with _ | ⟨b, t⟩
    · exact Or.inl (by unfold decodeRune; rw [if_neg h1, if_pos h2])
    by_cases hb : continues b = true
    · refine Or.inr ⟨a.toNat % 32 * 64 + low b, [b], t, rfl, fun u => ?_⟩
      unfold decodeRune
      rw [if_neg h1, if_pos h2]
      exact if_pos hb
    · refine Or.inl ?_
      unfold decodeRune
      rw [if_neg h1, if_pos h2]
      exact if_neg hb
  by_cases h3 : (0xE0 ≤ a && a ≤ 0xEF) = true
  · rcases rest with _ | ⟨b, _ | ⟨c, t⟩⟩
    · exact Or.inl (by unfold decodeRune; rw [if_neg h1, if_neg h2, if_pos h3])
    · exact Or.inl (by unfold decodeRune; rw [if_neg h1, if_neg h2, if_pos h3])
    by_cases hb : (secondOk a b && continues c) = true
    · refine Or.inr ⟨(a.toNat % 16 * 64 + low b) * 64 + low c, [b, c], t, rfl, fun u => ?_⟩
      unfold decodeRune
      rw [if_neg h1, if_neg h2, if_pos h3]
      exact if_pos hb
    · refine Or.inl ?_
      unfold decodeRune
      rw [if_neg h1, if_neg h2, if_pos h3]
      exact if_neg hb
  by_cases h4 : (0xF0 ≤ a && a ≤ 0xF4) = true
  · rcases rest with _ | ⟨b, _ | ⟨c, _ | ⟨d, t⟩⟩⟩
    · exact Or.inl (by unfold decodeRune; rw [if_neg h1, if_neg h2, if_neg h3, if_pos h4])
    · exact Or.inl (by unfold decodeRune; rw [if_neg h1, if_neg h2, if_neg h3, if_pos h4])
    · exact Or.inl (by unfold decodeRune; rw [if_neg h1, if_neg h2, if_neg h3, if_pos h4])
    by_cases hb : (secondOk a b && continues c && continues d) = true
    · refine Or.inr ⟨((a.toNat % 8 * 64 + low b) * 64 + low c) * 64 + low d, [b, c, d], t, rfl,
        fun u => ?_⟩
      unfold decodeRune
      rw [if_neg h1, if_neg h2, if_neg h3, if_pos h4]
      exact if_pos hb
    · refine Or.inl ?_
      unfold decodeRune
      rw [if_neg h1, if_neg h2, if_neg h3, if_pos h4]
      exact if_neg hb
  · exact Or.inl (by unfold decodeRune; rw [if_neg h1, if_neg h2, if_neg h3, if_neg h4])

theorem decodeRune_invalid {a : UInt8} {rest : Str} (h : (decodeRune a rest).value = none) :
    (decodeRune a rest).bytes = [a] := by
  rcases decodeRune_cases a rest with heq | ⟨v, bs, t, rfl, hdecode⟩
  · rw [heq]
  · rw [hdecode] at h
    cases h

theorem decodeRune_whole {a : UInt8} {rest : Str} (h : (decodeRune a rest).value.isSome) :
    Whole (decodeRune a rest) ∧ ∃ bs t, (decodeRune a rest).bytes = a :: bs ∧ rest = bs ++ t := by
  rcases decodeRune_cases a rest with heq | ⟨v, bs, t, rfl, hdecode⟩
  · rw [heq] at h
    cases h
  · rw [hdecode]
    exact ⟨⟨a, bs, rfl, rfl, hdecode⟩, bs, t, rfl, rfl⟩

/-- What is left after the bytes of the first rune. -/
theorem drop_decodeRune (a : UInt8) (rest : Str) :
    (decodeRune a rest).bytes ++ rest.drop ((decodeRune a rest).bytes.length - 1) = a :: rest := by
  cases hv : (decodeRune a rest).value with
  | none => simp [decodeRune_invalid hv]
  | some v =>
    obtain ⟨-, bs, t, hbytes, hrest⟩ := @decodeRune_whole a rest (by simp [hv])
    rw [hbytes, List.length_cons, Nat.add_sub_cancel]
    conv_lhs => rw [hrest]
    rw [List.drop_left, List.cons_append, ← hrest]

theorem runesFuel_eq {n : ℕ} {s : Str} (h : s.length ≤ n) : runesFuel n s = runes s := by
  induction n using Nat.strong_induction_on generalizing s with
  | _ n ih =>
    cases s with
    | nil => cases n <;> rfl
    | cons a rest =>
      rw [List.length_cons] at h
      obtain ⟨m, rfl⟩ : ∃ m, n = m + 1 := ⟨n - 1, by omega⟩
      have hlen : (rest.drop ((decodeRune a rest).bytes.length - 1)).length ≤ rest.length := by
        simp
      simp only [runes, runesFuel, List.length_cons]
      congr 1
      rw [ih m (by omega) (by omega)]
      rcases Nat.lt_or_ge rest.length (m + 1) with hlt | hge
      · exact (ih rest.length hlt hlen).symm
      · omega

theorem runes_cons (a : UInt8) (rest : Str) : runes (a :: rest) =
    decodeRune a rest :: runes (rest.drop ((decodeRune a rest).bytes.length - 1)) := by
  have hlen : (rest.drop ((decodeRune a rest).bytes.length - 1)).length ≤ rest.length := by simp
  rw [← runesFuel_eq hlen]
  rfl

/-- Induction along the runes of a text. -/
theorem rune_induction {P : Str → Prop} (nil : P [])
    (cons : ∀ a rest, P (rest.drop ((decodeRune a rest).bytes.length - 1)) → P (a :: rest))
    (s : Str) : P s := by
  induction hn : s.length using Nat.strong_induction_on generalizing s with
  | _ n ih =>
    cases s with
    | nil => exact nil
    | cons a rest =>
      have hlen : (rest.drop ((decodeRune a rest).bytes.length - 1)).length < n := by
        rw [← hn, List.length_cons, List.length_drop]
        omega
      exact cons a rest (ih _ hlen _ rfl)

theorem bytesOf_runes (s : Str) : bytesOf (runes s) = s := by
  induction s using rune_induction with
  | nil => rfl
  | cons a rest ih =>
    rw [runes_cons, bytesOf, List.flatMap_cons, ← bytesOf, ih, drop_decodeRune]

theorem runes_append_whole {r : Rune} (h : Whole r) (t : Str) :
    runes (r.bytes ++ t) = r :: runes t := by
  obtain ⟨a, bs, hbytes, -, hdecode⟩ := h
  rw [hbytes, List.cons_append, runes_cons, hdecode, hbytes]
  simp

theorem runes_bytesOf {rs : List Rune} (h : ∀ r ∈ rs, Whole r) (t : Str) :
    runes (bytesOf rs ++ t) = rs ++ runes t := by
  induction rs with
  | nil => rfl
  | cons r rs ih =>
    rw [bytesOf, List.flatMap_cons, ← bytesOf, List.append_assoc,
      runes_append_whole (h r List.mem_cons_self), ih fun q hq => h q (List.mem_cons_of_mem r hq),
      List.cons_append]

theorem whole_of_valid {s : Str} (h : validUtf8 s = true) : ∀ r ∈ runes s, Whole r := by
  induction s using rune_induction with
  | nil => simp [runes, runesFuel]
  | cons a rest ih =>
    rw [validUtf8, runes_cons, List.all_cons, Bool.and_eq_true] at h
    rw [runes_cons]
    intro r hr
    rcases List.mem_cons.mp hr with rfl | hr
    · exact (decodeRune_whole h.1).1
    · exact ih h.2 r hr

theorem runes_bytesOf_self {rs : List Rune} (h : ∀ r ∈ rs, Whole r) : runes (bytesOf rs) = rs := by
  have hrunes := runes_bytesOf h []
  simpa [runes, runesFuel] using hrunes

theorem valid_bytesOf {rs : List Rune} (h : ∀ r ∈ rs, Whole r) : validUtf8 (bytesOf rs) = true := by
  rw [validUtf8, runes_bytesOf_self h, List.all_eq_true]
  intro r hr
  obtain ⟨a, bs, -, hvalue, -⟩ := h r hr
  exact hvalue

/-- A text is valid exactly when it is made of whole runes. -/
theorem valid_iff {s : Str} :
    validUtf8 s = true ↔ ∃ rs, (∀ r ∈ rs, Whole r) ∧ s = bytesOf rs := by
  constructor
  · intro h
    exact ⟨runes s, whole_of_valid h, (bytesOf_runes s).symm⟩
  · rintro ⟨rs, h, rfl⟩
    exact valid_bytesOf h

theorem valid_append {s t : Str} (hs : validUtf8 s = true) (ht : validUtf8 t = true) :
    validUtf8 (s ++ t) = true := by
  obtain ⟨rs, hrs, rfl⟩ := valid_iff.mp hs
  rw [validUtf8, runes_bytesOf hrs, List.all_append, Bool.and_eq_true]
  refine ⟨List.all_eq_true.mpr fun r hr => ?_, ht⟩
  obtain ⟨a, bs, -, hvalue, -⟩ := hrs r hr
  exact hvalue

/-! `toValid`. -/

/-- The rune that stands for an invalid byte. -/
def replacement : Rune := ⟨some 0xFFFD, [0xEF, 0xBF, 0xBD]⟩

theorem whole_replacement : Whole replacement :=
  ⟨0xEF, [0xBF, 0xBD], rfl, rfl,
    fun t => by simp [decodeRune, secondOk, continues, replacement]; decide⟩

theorem toValid_of_valid {s : Str} (h : validUtf8 s = true) : toValid s = s := by
  conv_rhs => rw [← bytesOf_runes s]
  rw [toValid, bytesOf]
  refine List.flatMap_congr fun r hr => ?_
  obtain ⟨a, bs, -, hvalue, -⟩ := whole_of_valid h r hr
  rw [if_neg (Option.isSome_iff_ne_none.mp hvalue)]

/-- What stands in the text that `toValid` yields for each rune. -/
theorem whole_or_invalid (s : Str) : ∀ r ∈ runes s, r.value = none ∨ Whole r := by
  induction s using rune_induction with
  | nil => simp [runes, runesFuel]
  | cons a rest ih =>
    rw [runes_cons]
    intro r hr
    rcases List.mem_cons.mp hr with rfl | hr
    · cases hv : (decodeRune a rest).value with
      | none => exact Or.inl rfl
      | some v => exact Or.inr (decodeRune_whole (by simp [hv])).1
    · exact ih r hr

/-- The runes of the replaced text. -/
def replaced (s : Str) : List Rune :=
  (runes s).map fun r => if r.value = none then replacement else r

theorem toValid_eq (s : Str) : toValid s = bytesOf (replaced s) := by
  rw [toValid, bytesOf, replaced, List.flatMap_map]
  refine List.flatMap_congr fun r _ => ?_
  split <;> rfl

theorem whole_replaced (s : Str) : ∀ r ∈ replaced s, Whole r := by
  intro r hr
  obtain ⟨q, hq, rfl⟩ := List.mem_map.mp hr
  split
  · exact whole_replacement
  · rename_i hne
    exact (whole_or_invalid s q hq).resolve_left hne

theorem runes_toValid (s : Str) : runes (toValid s) = replaced s := by
  rw [toValid_eq, runes_bytesOf_self (whole_replaced s)]

theorem valid_toValid (s : Str) : validUtf8 (toValid s) = true := by
  rw [toValid_eq]
  exact valid_bytesOf (whole_replaced s)

/-- No byte appears that is not in the text or in the replacement. -/
theorem mem_toValid {s : Str} {b : UInt8} (h : b ∈ toValid s) : b ∈ s ∨ b ∈ replacement.bytes := by
  obtain ⟨r, hr, hb⟩ := List.mem_flatMap.mp h
  split at hb
  · exact Or.inr hb
  · rw [← bytesOf_runes s]
    exact Or.inl (List.mem_flatMap.mpr ⟨r, hr, hb⟩)

/-! `strings.TrimSpace`. -/

def trimmed (rs : List Rune) : List Rune := (rs.dropWhile isSpace).rdropWhile isSpace

theorem trimSpace_eq (s : Str) : trimSpace s = bytesOf (trimmed (runes s)) := rfl

theorem bytesOf_sublist {rs qs : List Rune} (h : rs.Sublist qs) :
    (bytesOf rs).Sublist (bytesOf qs) :=
  h.flatMap Rune.bytes

theorem trimSpace_sublist (s : Str) : (trimSpace s).Sublist s := by
  conv_rhs => rw [← bytesOf_runes s]
  exact bytesOf_sublist ((List.rdropWhile_prefix _ _).sublist.trans (List.dropWhile_sublist _))

/-- Two steps that only drop bytes keep a text when each does. -/
theorem comp_fixed {g h : Str → Str} (hg : ∀ s, (g s).Sublist s)
    (hh : ∀ s, (h s).Sublist s) {s : Str} :
    g (h s) = s ↔ h s = s ∧ g s = s := by
  constructor
  · intro heq
    have hsame : h s = s := by
      apply (hh s).eq_of_length_le
      have hle := (hg (h s)).length_le
      rw [heq] at hle
      exact hle
    rw [hsame] at heq
    exact ⟨hsame, heq⟩
  · rintro ⟨hsame, hfixed⟩
    rw [hsame, hfixed]

theorem mem_of_mem_trimmed {rs : List Rune} {r : Rune} (h : r ∈ trimmed rs) : r ∈ rs :=
  (List.dropWhile_sublist _).subset ((List.rdropWhile_prefix _ _).subset h)

theorem trimmed_trimmed (rs : List Rune) : trimmed (trimmed rs) = trimmed rs := by
  have hfront : (trimmed rs).dropWhile isSpace = trimmed rs := by
    cases hrs : trimmed rs with
    | nil => rfl
    | cons r rest =>
      have hprefix : (r :: rest).IsPrefix (rs.dropWhile isSpace) := by
        rw [← hrs]
        exact List.rdropWhile_prefix _ _
      obtain ⟨tail, htail⟩ := hprefix
      have hhead : ¬ isSpace r = true := by
        have hne : rs.dropWhile isSpace ≠ [] := by
          rw [← htail]
          simp
        have hhead := List.head_dropWhile_not isSpace hne
        simp only [← htail, List.cons_append, List.head_cons] at hhead
        simpa using hhead
      rw [List.dropWhile_cons_of_neg hhead]
  rw [trimmed, hfront, trimmed, List.rdropWhile_idempotent]

/-- A rune that is invalid stays so when the text after it is cut short. -/
theorem decodeRune_cut {a : UInt8} {rest t : Str} (h : (decodeRune a rest).value = none)
    (ht : t <+: rest) : decodeRune a t = ⟨none, [a]⟩ := by
  rcases decodeRune_cases a t with heq | ⟨v, bs, u, rfl, hdecode⟩
  · exact heq
  · obtain ⟨tail, rfl⟩ := ht
    rw [List.append_assoc, hdecode] at h
    cases h

theorem runes_take (s : Str) (k : ℕ) :
    runes (bytesOf ((runes s).take k)) = (runes s).take k := by
  induction s using rune_induction generalizing k with
  | nil => simp [runes, runesFuel, bytesOf]
  | cons a rest ih =>
    cases k with
    | zero => simp [runes, runesFuel, bytesOf]
    | succ k =>
      rw [runes_cons, List.take_succ_cons, bytesOf, List.flatMap_cons, ← bytesOf]
      cases hv : (decodeRune a rest).value with
      | none =>
        have hbytes := decodeRune_invalid hv
        have hrune : decodeRune a rest = ⟨none, [a]⟩ := decodeRune_cut hv (List.prefix_refl rest)
        rw [hbytes, List.length_singleton, Nat.sub_self, List.drop_zero] at ih ⊢
        have hcut : bytesOf ((runes rest).take k) <+: rest := by
          refine ⟨bytesOf ((runes rest).drop k), ?_⟩
          rw [bytesOf, bytesOf, ← List.flatMap_append, List.take_append_drop, ← bytesOf,
            bytesOf_runes]
        rw [List.singleton_append, runes_cons, decodeRune_cut hv hcut, hrune]
        exact congrArg _ (ih k)
      | some v =>
        rw [runes_append_whole (decodeRune_whole (by simp [hv])).1, ih]

theorem runes_drop (s : Str) (k : ℕ) :
    runes (bytesOf ((runes s).drop k)) = (runes s).drop k := by
  induction s using rune_induction generalizing k with
  | nil => simp [runes, runesFuel, bytesOf]
  | cons a rest ih =>
    cases k with
    | zero => rw [List.drop_zero, bytesOf_runes]
    | succ k =>
      rw [runes_cons, List.drop_succ_cons]
      exact ih k

/-- Cut along runes, a text decodes to what was cut out. -/
theorem runes_infix {s : Str} {rs : List Rune} (h : rs <:+: runes s) :
    runes (bytesOf rs) = rs := by
  obtain ⟨front, back, heq⟩ := h
  have htake : rs = ((runes s).drop front.length).take rs.length := by
    rw [← heq, List.append_assoc, List.drop_left, List.take_left]
  have htail := runes_drop s front.length
  rw [htake]
  conv_lhs => rw [← htail]
  rw [runes_take, htail]

theorem runes_trimSpace (s : Str) : runes (trimSpace s) = trimmed (runes s) := by
  rw [trimSpace_eq]
  exact runes_infix
    ((List.rdropWhile_prefix _ _).isInfix.trans (List.dropWhile_suffix _).isInfix)

theorem valid_trimSpace {s : Str} (h : validUtf8 s = true) : validUtf8 (trimSpace s) = true := by
  rw [trimSpace_eq]
  exact valid_bytesOf fun r hr => whole_of_valid h r (mem_of_mem_trimmed hr)

theorem trimSpace_trimSpace (s : Str) : trimSpace (trimSpace s) = trimSpace s := by
  rw [trimSpace_eq (trimSpace s), runes_trimSpace, trimmed_trimmed, trimSpace_eq]

theorem trimSpace_of_solid {s : Str} (h : ∀ r ∈ runes s, ¬ isSpace r = true) :
    trimSpace s = s := by
  have hfront : (runes s).dropWhile isSpace = runes s := by
    rw [List.dropWhile_eq_self_iff]
    intro hlen
    exact h _ (List.getElem_mem hlen)
  have hback : (runes s).rdropWhile isSpace = runes s := by
    rw [List.rdropWhile_eq_self_iff]
    intro hne
    exact h _ (List.getLast_mem hne)
  rw [trimSpace_eq, trimmed, hfront, hback, bytesOf_runes]

/-! ASCII text. -/

/-- The rune of an ASCII byte. -/
def single (b : UInt8) : Rune := ⟨some b.toNat, [b]⟩

theorem runes_ascii {s : Str} (h : ∀ b ∈ s, b < 0x80) : runes s = s.map single := by
  induction s with
  | nil => rfl
  | cons b rest ih =>
    have hb : decodeRune b rest = single b := if_pos (h b List.mem_cons_self)
    rw [runes_cons, hb, List.map_cons]
    exact congrArg _ (ih fun c hc => h c (List.mem_cons_of_mem b hc))

/-- An ASCII byte completes no rune. -/
theorem decodeRune_ascii {b : UInt8} (h : b < 0x80) (a : UInt8) (rest t : Str) :
    decodeRune a (rest ++ b :: t) = decodeRune a rest := by
  have hlow : ¬ 0x80 ≤ b ∧ ¬ 0x90 ≤ b ∧ ¬ 0xA0 ≤ b := by
    simp only [UInt8.le_iff_toNat_le, UInt8.lt_iff_toNat_lt] at h ⊢
    change b.toNat < 128 at h
    change ¬ 128 ≤ b.toNat ∧ ¬ 144 ≤ b.toNat ∧ ¬ 160 ≤ b.toNat
    omega
  have hcontinues : continues b = false := by simp [continues, hlow]
  have hsecond : secondOk a b = false := by simp [secondOk, hcontinues, hlow]
  rcases rest with _ | ⟨c, _ | ⟨d, _ | ⟨e, rest⟩⟩⟩ <;> rcases t with _ | ⟨x, _ | ⟨y, t⟩⟩ <;>
    simp [decodeRune, hcontinues, hsecond]

theorem length_decodeRune_le (a : UInt8) (rest : Str) :
    (decodeRune a rest).bytes.length ≤ rest.length + 1 := by
  have hlength := congrArg List.length (drop_decodeRune a rest)
  rw [List.length_append, List.length_cons] at hlength
  omega

/-- An ASCII byte stands only in its own rune. -/
theorem eq_single_of_mem {a b : UInt8} {rest : Str} (hb : b < 0x80)
    (h : b ∈ (decodeRune a rest).bytes) : decodeRune a rest = single b := by
  have hown : b = a → decodeRune a rest = single b := by
    rintro rfl
    exact if_pos hb
  rcases decodeRune_cases a rest with heq | ⟨v, bs, t, rfl, hdecode⟩
  · rw [heq] at h
    exact hown (List.mem_singleton.mp h)
  · rw [hdecode] at h
    rcases List.mem_cons.mp h with heq | hmem
    · exact hown heq
    · obtain ⟨front, back, rfl⟩ := List.append_of_mem hmem
      have hlength := length_decodeRune_le a front
      rw [← decodeRune_ascii hb a front (back ++ t), ← List.cons_append, ← List.append_assoc,
        hdecode, List.length_cons, List.length_append, List.length_cons] at hlength
      omega

theorem runes_append_ascii {b : UInt8} (h : b < 0x80) (s t : Str) :
    runes (s ++ b :: t) = runes s ++ single b :: runes t := by
  induction s using rune_induction with
  | nil =>
    have hb : decodeRune b t = single b := if_pos h
    rw [List.nil_append, runes_cons, hb]
    rfl
  | cons a rest ih =>
    have hbytes : (decodeRune a rest).bytes.length - 1 ≤ rest.length := by
      have hlength := length_decodeRune_le a rest
      omega
    rw [List.cons_append, runes_cons, decodeRune_ascii h, List.drop_append_of_le_length hbytes, ih,
      runes_cons, List.cons_append]

theorem trimSpace_eq_self {s : Str} : trimSpace s = s ↔
    (∀ r, (runes s).head? = some r → isSpace r = false) ∧
      ∀ r, (runes s).getLast? = some r → isSpace r = false := by
  have hrunes : trimSpace s = s ↔ trimmed (runes s) = runes s := by
    constructor
    · intro h
      rw [← runes_trimSpace, h]
    · intro h
      rw [trimSpace_eq, h, bytesOf_runes]
  rw [hrunes]
  constructor
  · intro h
    constructor
    · intro r hr
      have hlength := congrArg List.length h
      have hcut := (List.rdropWhile_prefix isSpace ((runes s).dropWhile isSpace)).length_le
      rw [trimmed] at hlength
      have hfront : (runes s).dropWhile isSpace = runes s :=
        (List.dropWhile_sublist _).eq_of_length_le (by omega)
      cases hs : runes s with
      | nil =>
        rw [hs] at hr
        cases hr
      | cons q rest =>
        rw [hs] at hr hfront
        cases hr
        by_contra hspace
        rw [List.dropWhile_cons_of_pos (by simpa using hspace)] at hfront
        have hkept := congrArg List.length hfront
        have hle := (List.dropWhile_sublist isSpace (l := rest)).length_le
        rw [List.length_cons] at hkept
        omega
    · intro r hr
      rw [← h] at hr
      have hlast := List.getLast?_eq_some_iff.mp hr
      obtain ⟨front, hfront⟩ := hlast
      have hne : trimmed (runes s) ≠ [] := by
        rw [hfront]
        simp
      have hnot := List.rdropWhile_last_not isSpace _ hne
      have hget : (trimmed (runes s)).getLast hne = r := by
        have hsome := List.getLast?_eq_some_getLast hne
        rw [hr] at hsome
        exact (Option.some.inj hsome).symm
      change ¬ isSpace ((trimmed (runes s)).getLast hne) = true at hnot
      rw [hget] at hnot
      simpa using hnot
  · rintro ⟨hhead, hlast⟩
    have hfront : (runes s).dropWhile isSpace = runes s := by
      cases hs : runes s with
      | nil => rfl
      | cons q rest =>
        rw [hs] at hhead
        refine List.dropWhile_cons_of_neg ?_
        rw [hhead q rfl]
        decide
    have hback : (runes s).rdropWhile isSpace = runes s := by
      rw [List.rdropWhile_eq_self_iff]
      intro hne
      rw [hlast _ (List.getLast?_eq_some_getLast hne)]
      decide
    rw [trimmed, hfront, hback]

theorem length_trimSpace_le (s : Str) : (trimSpace s).length ≤ s.length := by
  obtain ⟨front, hfront⟩ := List.dropWhile_suffix isSpace (l := runes s)
  obtain ⟨back, hback⟩ := List.rdropWhile_prefix isSpace ((runes s).dropWhile isSpace)
  have hsplit := congrArg (fun rs => (bytesOf rs).length) hfront
  rw [← hback] at hsplit
  simp only [bytesOf, List.flatMap_append, List.length_append] at hsplit
  have hwhole := congrArg List.length (bytesOf_runes s)
  rw [bytesOf] at hwhole
  rw [trimSpace_eq, trimmed, bytesOf]
  omega

theorem valid_ascii {s : Str} (h : ∀ b ∈ s, b < 0x80) : validUtf8 s = true := by
  rw [validUtf8, runes_ascii h, List.all_map]
  exact List.all_eq_true.mpr fun _ _ => rfl

/-- ASCII text that every text column accepts. -/
def Plain (s : Str) : Prop := ∀ b ∈ s, b < 128 ∧ b ≠ 0

theorem Plain.append {s t : Str} (h : Plain s) (k : Plain t) : Plain (s ++ t) := fun b hb =>
  (List.mem_append.mp hb).elim (h b) (k b)

theorem runes_plain {s : Str} (h : Plain s) : runes s = s.map single :=
  runes_ascii fun b hb => (h b hb).1

theorem length_runes_le (s : Str) : (runes s).length ≤ s.length := by
  induction s using rune_induction with
  | nil => simp [runes, runesFuel]
  | cons a rest ih =>
    rw [runes_cons, List.length_cons, List.length_cons]
    have hdrop := List.length_drop (l := rest) (i := (decodeRune a rest).bytes.length - 1)
    omega

/-! Bytes, and `strings.Cut`. -/

theorem lit_append (s t : String) : lit (s ++ t) = lit s ++ lit t := by
  rw [lit, String.toList_append, List.flatMap_append, lit, lit]

theorem lit_ofList (l : List Char) :
    lit (String.ofList l) = l.flatMap String.utf8EncodeChar := by
  rw [lit, String.toList_ofList]

theorem forall_byte {p : UInt8 → Prop} (h : ∀ n : Fin 256, p (UInt8.ofFin n)) (b : UInt8) : p b :=
  h b.toFin

theorem ofNat_eq {b : UInt8} {n : ℕ} (h : n = b.toNat) : UInt8.ofNat n = b :=
  h ▸ UInt8.ofNat_toNat

theorem cut_join (sep : UInt8) (s : Str) :
    s = (cut sep s).1 ++ ((cut sep s).2.elim [] fun after => sep :: after) := by
  unfold cut
  have hjoin := List.takeWhile_append_dropWhile (p := (· != sep)) (l := s)
  split
  · simp
  · rename_i c after hdrop
    have hhead := List.head_dropWhile_not (· != sep) (l := s) (by simp [hdrop])
    simp only [hdrop, List.head_cons, bne_eq_false_iff_eq] at hhead
    rw [hdrop, hhead] at hjoin
    exact hjoin.symm

theorem cut_none {sep : UInt8} {s : Str} (h : sep ∉ s) : cut sep s = (s, none) := by
  unfold cut
  have hdrop : s.dropWhile (· != sep) = [] := by
    rw [List.dropWhile_eq_nil_iff]
    intro b hb
    simpa using fun heq : b = sep => h (heq ▸ hb)
  rw [hdrop]

theorem cut_append {sep : UInt8} {s : Str} (h : sep ∉ s) (t : Str) :
    cut sep (s ++ sep :: t) = (s, some t) := by
  unfold cut
  have hall : ∀ b ∈ s, (b != sep) = true := fun b hb => by
    simpa using fun heq : b = sep => h (heq ▸ hb)
  rw [List.dropWhile_append_of_pos hall, List.takeWhile_append_of_pos hall]
  simp

theorem cut_eq_some {sep : UInt8} {s before after : Str} (h : cut sep s = (before, some after)) :
    s = before ++ sep :: after ∧ sep ∉ before := by
  have hjoin := cut_join sep s
  rw [h] at hjoin
  refine ⟨hjoin, fun hmem => ?_⟩
  unfold cut at h
  split at h
  · cases h
  · cases h
    simpa using List.mem_takeWhile_imp hmem

theorem notMem_of_cut {sep : UInt8} {s before : Str} (h : cut sep s = (before, none)) :
    sep ∉ s := by
  unfold cut at h
  split at h
  · rename_i hdrop
    rw [List.dropWhile_eq_nil_iff] at hdrop
    intro hmem
    simpa using hdrop sep hmem
  · cases h

theorem cutLast_none {sep : UInt8} {s : Str} (h : sep ∉ s) : cutLast sep s = none := by
  unfold cutLast
  rw [cut_none (by simpa using h)]

theorem cutLast_append {sep : UInt8} {t : Str} (h : sep ∉ t) (s : Str) :
    cutLast sep (s ++ sep :: t) = some (s, t) := by
  have hreverse : (s ++ sep :: t).reverse = t.reverse ++ sep :: s.reverse := by simp
  unfold cutLast
  rw [hreverse, cut_append (by simpa using h)]
  simp

theorem cutLast_eq_some {sep : UInt8} {s before after : Str}
    (h : cutLast sep s = some (before, after)) : s = before ++ sep :: after ∧ sep ∉ after := by
  unfold cutLast at h
  split at h
  · cases h
  · rename_i a b hcut
    cases h
    obtain ⟨hjoin, hnot⟩ := cut_eq_some hcut
    refine ⟨?_, by simpa using hnot⟩
    have hback := congrArg List.reverse hjoin
    simpa using hback

theorem notMem_of_cutLast {sep : UInt8} {s : Str} (h : cutLast sep s = none) : sep ∉ s := by
  unfold cutLast at h
  split at h
  · rename_i hcut
    simpa using notMem_of_cut hcut
  · cases h

end Runes
