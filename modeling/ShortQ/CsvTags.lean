import ShortQ.AcceptedLinks
import ShortQ.CsvCells

/-! # Tags in one cell

All tags of a link share a cell. Which sets of tags come back is decided by the separator, by line
ends, by the length limit and by the apostrophe before a first tag that looks like a formula. -/
namespace CsvTags

open CsvCells
open CsvLinks
open CsvText
open GoText
open LinkValidation
open Runes

/-! ## The tags that are kept -/

/-- One step of `normalizeTags`. -/
def keepTag (out : List Str) (tag : Str) : List Str :=
  if trimSpace tag = [] || (trimSpace tag).length > 40 || out.contains (trimSpace tag) then out
  else out ++ [trimSpace tag]

theorem normalizeTags_eq (tags : List Str) :
    normalizeTags tags = (tags.foldl keepTag []).mergeSort fun a b => decide (a ≤ b) := rfl

/-- A tag that is kept: trimmed, short, and not empty. -/
def Kept (tags : List Str) (t : Str) : Prop :=
  t ≠ [] ∧ t.length ≤ 40 ∧ ∃ x ∈ tags, trimSpace x = t

theorem mem_keepTag {out : List Str} {tag t : Str} :
    t ∈ keepTag out tag ↔ t ∈ out ∨ (t ≠ [] ∧ t.length ≤ 40 ∧ trimSpace tag = t) := by
  unfold keepTag
  by_cases hdrop : trimSpace tag = [] ∨ 40 < (trimSpace tag).length ∨ trimSpace tag ∈ out
  · rw [if_pos (by simpa [or_assoc] using hdrop)]
    constructor
    · exact Or.inl
    · rintro (hmem | ⟨hne, hshort, rfl⟩)
      · exact hmem
      · rcases hdrop with hnil | hlong | hmem
        · exact absurd hnil hne
        · omega
        · exact hmem
  · rw [if_neg (by simpa [or_assoc] using hdrop), List.mem_append, List.mem_singleton]
    simp only [not_or, Nat.not_lt] at hdrop
    constructor
    · rintro (hmem | rfl)
      · exact Or.inl hmem
      · exact Or.inr ⟨hdrop.1, hdrop.2.1, rfl⟩
    · rintro (hmem | ⟨-, -, rfl⟩)
      · exact Or.inl hmem
      · exact Or.inr rfl

theorem nodup_keepTag {out : List Str} (h : out.Nodup) (tag : Str) : (keepTag out tag).Nodup := by
  unfold keepTag
  split
  · exact h
  · rename_i hkeep
    have hnew : trimSpace tag ∉ out := by
      intro hmem
      exact hkeep (by simp [hmem])
    rw [← List.concat_eq_append]
    exact h.concat hnew

theorem keepTags_spec (tags out : List Str) :
    (∀ t, t ∈ tags.foldl keepTag out ↔ t ∈ out ∨ Kept tags t) ∧
      (out.Nodup → (tags.foldl keepTag out).Nodup) := by
  induction tags generalizing out with
  | nil => simp [Kept]
  | cons tag rest ih =>
    obtain ⟨hmem, hnodup⟩ := ih (keepTag out tag)
    rw [List.foldl_cons]
    constructor
    · intro t
      rw [hmem, mem_keepTag]
      simp only [Kept, List.exists_mem_cons_iff]
      tauto
    · intro hout
      exact hnodup (nodup_keepTag hout tag)

theorem mem_normalizeTags {tags : List Str} {t : Str} : t ∈ normalizeTags tags ↔ Kept tags t := by
  rw [normalizeTags_eq, List.mem_mergeSort, (keepTags_spec tags []).1]
  simp

theorem nodup_normalizeTags (tags : List Str) : (normalizeTags tags).Nodup := by
  rw [normalizeTags_eq, (List.mergeSort_perm _ _).nodup_iff]
  exact (keepTags_spec tags []).2 List.nodup_nil

theorem sorted_normalizeTags (tags : List Str) : (normalizeTags tags).Pairwise (· ≤ ·) := by
  have hsorted := @List.pairwise_mergeSort _ (fun a b : Str => decide (a ≤ b))
    (fun a b c hab hbc => by
      simp only [decide_eq_true_eq] at hab hbc ⊢
      exact List.le_trans hab hbc)
    (fun a b => by
      simp only [Bool.or_eq_true, decide_eq_true_eq]
      exact List.le_total a b) (tags.foldl keepTag [])
  rw [normalizeTags_eq]
  exact hsorted.imp fun h => by simpa using h

theorem normalizeTags_idem (tags : List Str) :
    normalizeTags (normalizeTags tags) = normalizeTags tags := by
  apply List.Perm.eq_of_pairwise (fun a b _ _ (hab : a ≤ b) (hba : b ≤ a) =>
    List.le_antisymm hab hba) (sorted_normalizeTags _) (sorted_normalizeTags _)
  rw [List.perm_ext_iff_of_nodup (nodup_normalizeTags _) (nodup_normalizeTags _)]
  intro t
  rw [mem_normalizeTags]
  constructor
  · rintro ⟨-, -, x, hx, rfl⟩
    obtain ⟨-, -, y, -, rfl⟩ := mem_normalizeTags.mp hx
    rw [trimSpace_trimSpace]
    exact hx
  · intro ht
    obtain ⟨hne, hshort, x, -, rfl⟩ := mem_normalizeTags.mp ht
    exact ⟨hne, hshort, trimSpace x, ht, trimSpace_trimSpace x⟩

/-! ## Stored tags -/

/-- No white space around it, and not empty. -/
structure Tight (t : Str) : Prop where
  nonempty : t ≠ []
  trimmed : trimSpace t = t

/-- What is known of the tags of a stored link: after a first tag that looks like a formula no tag
begins with an apostrophe, since tags are sorted. -/
structure TagList (tags : List Str) : Prop where
  tight : ∀ t ∈ tags, Tight t
  valid : ∀ t ∈ tags, validUtf8 t = true
  first : ∀ t rest, tags = t :: rest → formula t = true → ∀ s ∈ tags, s.head? ≠ some 39

/-- A tight text begins with no blank. -/
theorem Tight.solid {b : UInt8} {rest : Str} (h : Tight (b :: rest)) :
    (b = 32 || b = 9 || b = 13 || b = 10) = false := by
  by_contra hblank
  rw [Bool.not_eq_false] at hblank
  have hb : b = 32 ∨ b = 9 ∨ b = 13 ∨ b = 10 := by simpa [or_assoc] using hblank
  have hhead := (trimSpace_eq_self.mp h.trimmed).1 (single b)
  have hrune : (runes (b :: rest)).head? = some (single b) := by
    rw [head_runes]
    congr 1
    refine if_pos ?_
    rcases hb with rfl | rfl | rfl | rfl <;> decide
  have hspace := hhead hrune
  rcases hb with rfl | rfl | rfl | rfl <;> exact absurd hspace (by decide)

theorem Tight.crlf {t : Str} (h : Tight t) : Tight (crlf t) := by
  constructor
  · intro hnil
    cases t with
    | nil => exact h.nonempty rfl
    | cons b rest =>
      have hb := h.solid
      have hreturn : b = 13 → rest.head? ≠ some 10 := by
        rintro rfl
        exact absurd hb (by decide)
      rw [crlf_cons hreturn] at hnil
      cases hnil
  · exact trimSpace_crlf h.trimmed

theorem Tight.quote {t : Str} (h : trimSpace t = t) (hne : t ≠ []) : Tight (39 :: t) := by
  refine ⟨List.cons_ne_nil _ _, ?_⟩
  rw [trimSpace_eq_self]
  have hrunes : runes (39 :: t) = single 39 :: runes t := runes_append_ascii (by decide) [] t
  rw [hrunes]
  constructor
  · intro r hr
    cases hr
    decide
  · intro r hr
    rw [List.getLast?_cons] at hr
    refine (trimSpace_eq_self.mp h).2 r ?_
    cases hlast : (runes t).getLast? with
    | none =>
      have hempty := List.getLast?_eq_none_iff.mp hlast
      exact absurd (by rw [← bytesOf_runes t, hempty]; rfl) hne
    | some q =>
      rw [hlast] at hr
      exact hr

theorem Tight.join {s t : Str} (hs : Tight s) (ht : Tight t) : Tight (s ++ 59 :: t) := by
  refine ⟨List.append_ne_nil_of_left_ne_nil hs.nonempty _, ?_⟩
  rw [trimSpace_eq_self, runes_append_ascii (by decide)]
  constructor
  · intro r hr
    refine (trimSpace_eq_self.mp hs.trimmed).1 r ?_
    obtain ⟨b, rest, rfl⟩ := List.exists_cons_of_ne_nil hs.nonempty
    rw [List.head?_append, head_runes] at hr
    rw [head_runes]
    exact hr
  · intro r hr
    refine (trimSpace_eq_self.mp ht.trimmed).2 r ?_
    rw [List.getLast?_append, List.getLast?_cons] at hr
    cases hlast : (runes t).getLast? with
    | none =>
      have hempty := List.getLast?_eq_none_iff.mp hlast
      exact absurd (by rw [← bytesOf_runes t, hempty]; rfl) ht.nonempty
    | some q =>
      rw [hlast] at hr
      exact hr

theorem head_toValid {s : Str} {b : UInt8} (hb : b < 0x80) (h : (toValid s).head? = some b) :
    s.head? = some b := by
  cases s with
  | nil => exact h
  | cons a rest =>
    rw [toValid, runes_cons, List.flatMap_cons] at h
    by_cases hnone : (decodeRune a rest).value = none
    · rw [if_pos hnone] at h
      obtain rfl : (0xEF : UInt8) = b := Option.some.inj h
      exact absurd hb (by decide)
    · rw [if_neg hnone] at h
      obtain ⟨-, bs, t, hbytes, -⟩ :=
        @decodeRune_whole a rest (Option.isSome_iff_ne_none.mpr hnone)
      rw [hbytes] at h
      exact h

theorem tight_toValid {s : Str} (h : Tight s) : Tight (toValid s) := by
  have hspace (r : Rune) : isSpace (if r.value = none then replacement else r) = isSpace r := by
    split
    · rename_i hnone
      have hvalue : isSpace r = false := by
        unfold isSpace
        rw [hnone]
      rw [hvalue]
      decide
    · rfl
  constructor
  · intro hnil
    obtain ⟨b, rest, rfl⟩ := List.exists_cons_of_ne_nil h.nonempty
    have hrunes := runes_toValid (b :: rest)
    rw [hnil, replaced, runes_cons] at hrunes
    cases hrunes
  · obtain ⟨hhead, hlast⟩ := trimSpace_eq_self.mp h.trimmed
    rw [trimSpace_eq_self, runes_toValid, replaced]
    constructor
    · intro r hr
      rw [List.head?_map] at hr
      obtain ⟨q, hq, rfl⟩ := Option.map_eq_some_iff.mp hr
      rw [hspace]
      exact hhead q hq
    · intro r hr
      rw [List.getLast?_map] at hr
      obtain ⟨q, hq, rfl⟩ := Option.map_eq_some_iff.mp hr
      rw [hspace]
      exact hlast q hq

/-- The tags that the store writes. -/
theorem tagList_stored (tags : List Str) : TagList ((normalizeTags tags).map toValid) := by
  have htight : ∀ t ∈ normalizeTags tags, Tight t := by
    intro t ht
    obtain ⟨hne, -, x, -, rfl⟩ := mem_normalizeTags.mp ht
    exact ⟨hne, trimSpace_trimSpace x⟩
  have hsorted := sorted_normalizeTags tags
  generalize normalizeTags tags = kept at htight hsorted
  constructor
  · intro t ht
    obtain ⟨s, hs, rfl⟩ := List.mem_map.mp ht
    exact tight_toValid (htight s hs)
  · intro t ht
    obtain ⟨s, hs, rfl⟩ := List.mem_map.mp ht
    exact valid_toValid s
  · intro t rest heq hformula s hs hhead
    cases kept with
    | nil => cases heq
    | cons first others =>
      rw [List.map_cons] at heq
      obtain rfl : toValid first = t := (List.cons.inj heq).1
      obtain ⟨other, hother, rfl⟩ := List.mem_map.mp hs
      have hquote := head_toValid (by decide) hhead
      obtain ⟨b, tail, hb⟩ := List.exists_cons_of_ne_nil
        (tight_toValid (htight first List.mem_cons_self)).nonempty
      rw [hb, formula_cons (hb ▸ tight_toValid (htight first List.mem_cons_self)).solid] at hformula
      have hsign : b = 61 ∨ b = 43 ∨ b = 45 ∨ b = 64 := by simpa [or_assoc] using hformula
      have hascii : b < 0x80 := by rcases hsign with rfl | rfl | rfl | rfl <;> decide
      have hfirst : first.head? = some b := head_toValid hascii (by rw [hb]; rfl)
      obtain ⟨tail₁, rfl⟩ := List.head?_eq_some_iff.mp hfirst
      obtain ⟨tail₂, rfl⟩ := List.head?_eq_some_iff.mp hquote
      rcases List.mem_cons.mp hother with heq' | hmem
      · obtain rfl := (List.cons.inj heq').1
        rcases hsign with h | h | h | h <;> exact absurd h (by decide)
      · have hle := (List.pairwise_cons.mp hsorted).1 _ hmem
        rcases List.cons_le_cons_iff.mp hle with hlt | ⟨h, -⟩
        · rcases hsign with rfl | rfl | rfl | rfl <;> exact absurd hlt (by decide)
        · subst h
          rcases hsign with h | h | h | h <;> exact absurd h (by decide)

/-! ## Through the cell -/

def joined (tags : List Str) : Str := LinkHandlers.join [59] tags

theorem joined_eq (tags : List Str) : joined tags = List.intercalate [59] tags := rfl

theorem joined_cons (t next : Str) (rest : List Str) :
    joined (t :: next :: rest) = t ++ 59 :: joined (next :: rest) := by
  rw [joined_eq, List.intercalate_cons_cons, List.append_assoc]
  rfl

/-- The tags as the import finds them: the first may have an apostrophe in front. -/
def pieces : List Str → List Str
  | [] => []
  | t :: rest => (if formula t then 39 :: crlf t else crlf t) :: rest.map crlf

theorem tight_joined {tags : List Str} (hne : tags ≠ []) (h : ∀ t ∈ tags, Tight t) :
    Tight (joined tags) := by
  induction tags with
  | nil => exact absurd rfl hne
  | cons t rest ih =>
    rw [List.forall_mem_cons] at h
    cases rest with
    | nil =>
      have hone : joined [t] = t := List.append_nil t
      rw [hone]
      exact h.1
    | cons next rest =>
      rw [joined_cons]
      exact h.1.join (ih (List.cons_ne_nil _ _) h.2)

theorem crlf_joined (tags : List Str) : crlf (joined tags) = joined (tags.map crlf) := by
  induction tags with
  | nil => rfl
  | cons t rest ih =>
    cases rest with
    | nil =>
      have hone (x : Str) : joined [x] = x := List.append_nil x
      rw [List.map_cons, List.map_nil, hone, hone]
    | cons next rest =>
      rw [joined_cons, crlf_append (by decide), crlf_cons fun h => absurd h (by decide), ih]
      exact (joined_cons _ _ _).symm

theorem formula_joined {t : Str} (h : Tight t) (rest : List Str) :
    formula (joined (t :: rest)) = formula t := by
  obtain ⟨b, tail, rfl⟩ := List.exists_cons_of_ne_nil h.nonempty
  obtain ⟨tail', htail⟩ : ∃ tail', joined ((b :: tail) :: rest) = b :: tail' := by
    cases rest with
    | nil => exact ⟨tail ++ [], rfl⟩
    | cons next rest => exact ⟨_, joined_cons _ _ _⟩
  rw [htail, formula_cons h.solid, formula_cons h.solid]

theorem pieces_cons (t : Str) (rest : List Str) :
    pieces (t :: rest) = (if formula t then 39 :: crlf t else crlf t) :: rest.map crlf := rfl

theorem tight_pieces {tags : List Str} (h : ∀ t ∈ tags, Tight t) : ∀ p ∈ pieces tags, Tight p := by
  cases tags with
  | nil =>
    intro p hp
    cases hp
  | cons t rest =>
    rw [List.forall_mem_cons] at h
    rw [pieces_cons, List.forall_mem_cons]
    constructor
    · split
      · exact .quote h.1.crlf.trimmed h.1.crlf.nonempty
      · exact h.1.crlf
    · intro p hp
      obtain ⟨s, hs, rfl⟩ := List.mem_map.mp hp
      exact (h.2 s hs).crlf

theorem mem_pieces {tags : List Str} {p : Str} (h : p ∈ pieces tags) :
    ∃ t ∈ tags, p = crlf t ∨ p = 39 :: crlf t := by
  cases tags with
  | nil => cases h
  | cons t rest =>
    rcases List.mem_cons.mp h with rfl | hmem
    · refine ⟨t, List.mem_cons_self, ?_⟩
      split
      · exact Or.inr rfl
      · exact Or.inl rfl
    · obtain ⟨s, hs, rfl⟩ := List.mem_map.mp hmem
      exact ⟨s, List.mem_cons_of_mem _ hs, Or.inl rfl⟩

/-- Tags without the separator are split where they were joined. -/
theorem importTags_joined {tags : List Str} (htight : ∀ t ∈ tags, Tight t)
    (hsep : ∀ t ∈ tags, (59 : UInt8) ∉ t) : importTags (cell (joined tags)) = pieces tags := by
  cases tags with
  | nil => decide
  | cons t rest =>
    have hpieces := tight_pieces htight
    have hcell : cell (joined (t :: rest)) = joined (pieces (t :: rest)) := by
      have hfirst := formula_joined (htight t List.mem_cons_self) rest
      have hquote (x : Str) (xs : List Str) :
          39 :: joined (x :: xs) = joined ((39 :: x) :: xs) := by
        cases xs with
        | nil => rfl
        | cons next xs => rw [joined_cons, joined_cons, List.cons_append]
      have htrim := (tight_joined (List.cons_ne_nil _ _) hpieces).trimmed
      cases hformula : formula t with
      | true =>
        rw [hformula] at hfirst
        rw [cell_of_formula hfirst, crlf_joined, List.map_cons, hquote]
        rw [hformula] at htrim
        rw [pieces_cons, hformula]
        exact htrim
      | false =>
        rw [hformula] at hfirst
        rw [cell_of_plain hfirst, crlf_joined, List.map_cons]
        rw [hformula] at htrim
        rw [pieces_cons, hformula]
        exact htrim
    have hnosep : ∀ p ∈ pieces (t :: rest), (59 : UInt8) ∉ p := by
      intro p hp hmem
      obtain ⟨s, hs, rfl | rfl⟩ := mem_pieces hp
      · exact hsep s hs (mem_crlf hmem)
      · rcases List.mem_cons.mp hmem with h | h
        · exact absurd h (by decide)
        · exact hsep s hs (mem_crlf h)
    have hsplit : (joined (pieces (t :: rest))).splitOn 59 = pieces (t :: rest) :=
      List.splitOn_intercalate 59 hnosep (List.cons_ne_nil _ _)
    have hmap : (pieces (t :: rest)).map trimSpace = pieces (t :: rest) := by
      conv_rhs => rw [← List.map_id (pieces (t :: rest))]
      exact List.map_congr_left fun p hp => (hpieces p hp).trimmed
    rw [hcell, importTags, hsplit, hmap, List.filter_eq_self]
    intro p hp
    simpa using (hpieces p hp).nonempty

/-- What the store writes of tags that are tight and valid: those that are short. -/
theorem mem_stored {tags : List Str} (htight : ∀ t ∈ tags, Tight t)
    (hvalid : ∀ t ∈ tags, validUtf8 t = true) {t : Str} :
    t ∈ (normalizeTags tags).map toValid ↔ t ∈ tags ∧ t.length ≤ 40 := by
  rw [List.mem_map]
  constructor
  · rintro ⟨s, hs, rfl⟩
    obtain ⟨-, hshort, x, hx, rfl⟩ := mem_normalizeTags.mp hs
    rw [(htight x hx).trimmed] at hshort ⊢
    rw [toValid_of_valid (hvalid x hx)]
    exact ⟨hx, hshort⟩
  · rintro ⟨hmem, hshort⟩
    refine ⟨t, mem_normalizeTags.mpr ⟨(htight t hmem).nonempty, hshort, t, hmem,
      (htight t hmem).trimmed⟩, toValid_of_valid (hvalid t hmem)⟩

theorem valid_pieces {tags : List Str} (h : ∀ t ∈ tags, validUtf8 t = true) :
    ∀ p ∈ pieces tags, validUtf8 p = true := by
  intro p hp
  obtain ⟨t, ht, rfl | rfl⟩ := mem_pieces hp
  · exact valid_crlf (h t ht)
  · exact valid_append (s := [39]) (by decide) (valid_crlf (h t ht))

/-! ## Which sets of tags come back -/

/-- No tag has the separator, CRLF or more than forty bytes, and the first looks like no formula,
unless it is forty bytes long and listed twice: then the copy with the apostrophe is too long to
be kept and the other one stays. -/
structure Portable (tags : List Str) : Prop where
  each : ∀ t ∈ tags, (59 : UInt8) ∉ t ∧ crlf t = t ∧ t.length ≤ 40
  first : ∀ t rest, tags = t :: rest → formula t = true → t.length = 40 ∧ t ∈ rest

/-- If every text of a list is what some text of the list becomes, and texts only get shorter, all
stay as they are. -/
theorem fixed_of_covered {change : Str → Str} (hle : ∀ s, (change s).length ≤ s.length)
    (hsame : ∀ s, (change s).length = s.length → change s = s) {tags : List Str}
    (h : ∀ t ∈ tags, ∃ s ∈ tags, change s = t) : ∀ t ∈ tags, change t = t := by
  obtain ⟨bound, hbound⟩ : ∃ bound, ∀ t ∈ tags, t.length ≤ bound :=
    ⟨tags.flatten.length, fun t ht => (List.sublist_flatten_of_mem ht).length_le⟩
  -- a text that changes is what a longer one becomes, and lengths are bounded
  intro t ht
  induction hn : bound - t.length using Nat.strong_induction_on generalizing t with
  | _ n ih =>
    obtain ⟨s, hs, hst⟩ := h t ht
    by_cases hlength : s.length = t.length
    · have hfixed : change s = s := hsame s (by rw [hst, hlength])
      rw [← hst, hfixed, hfixed]
    · have hshorter := hle s
      rw [hst] at hshorter
      have hsbound := hbound s hs
      have hfixed := ih (bound - s.length) (by omega) s hs rfl
      rw [← hst, hfixed, hfixed]

theorem notMem_splitOn {sep : UInt8} {s p : Str} (h : p ∈ s.splitOn sep) : sep ∉ p := by
  induction s generalizing p with
  | nil =>
    rw [List.splitOn_nil, List.mem_singleton] at h
    rw [h]
    exact List.not_mem_nil
  | cons b rest ih =>
    rw [List.splitOn_cons_eq_if_modifyHead] at h
    split at h
    · rcases List.mem_cons.mp h with rfl | h
      · exact List.not_mem_nil
      · exact ih h
    · rename_i hb
      cases hrest : rest.splitOn sep with
      | nil =>
        rw [hrest] at h
        cases h
      | cons q others =>
        rw [hrest, List.modifyHead_cons] at h
        rw [hrest] at ih
        rcases List.mem_cons.mp h with rfl | h
        · rw [List.mem_cons, not_or]
          exact ⟨fun heq => hb (by rw [heq, beq_self_eq_true]), ih List.mem_cons_self⟩
        · exact ih (List.mem_cons_of_mem _ h)

/-- The stored tags of an import hold no separator. -/
theorem notMem_imported {raw t : Str} (h : t ∈ (normalizeTags (importTags raw)).map toValid) :
    (59 : UInt8) ∉ t := by
  obtain ⟨s, hs, rfl⟩ := List.mem_map.mp h
  obtain ⟨-, -, x, hx, rfl⟩ := mem_normalizeTags.mp hs
  simp only [importTags, List.mem_filter, List.mem_map] at hx
  obtain ⟨⟨p, hp, rfl⟩, -⟩ := hx
  have htrim {u : Str} (hu : (59 : UInt8) ∉ u) : (59 : UInt8) ∉ trimSpace u := by
    intro hmem
    rw [trimSpace_eq, bytesOf, List.mem_flatMap] at hmem
    obtain ⟨r, hr, hb⟩ := hmem
    refine hu ?_
    rw [← bytesOf_runes u]
    exact List.mem_flatMap.mpr ⟨r, mem_of_mem_trimmed hr, hb⟩
  have hpiece := notMem_splitOn hp
  intro hmem
  rcases mem_toValid hmem with hmem | hmem
  · exact htrim (htrim hpiece) hmem
  · exact absurd hmem (by decide)

/-- The set of tags comes back exactly when it is portable. -/
theorem tags_restored_iff {tags : List Str} (h : TagList tags) :
    (∀ t, t ∈ (normalizeTags (importTags (cell (joined tags)))).map toValid ↔ t ∈ tags) ↔
      Portable tags := by
  by_cases hsep : ∀ t ∈ tags, (59 : UInt8) ∉ t
  · rw [importTags_joined h.tight hsep]
    simp only [mem_stored (tight_pieces h.tight) (valid_pieces h.valid)]
    cases tags with
    | nil =>
      refine iff_of_true (fun t => by simp [pieces]) ⟨by simp, ?_⟩
      intro t rest heq
      cases heq
    | cons t rest =>
      constructor
      · intro hsame
        have hmem {s : Str} (hs : s ∈ t :: rest) : s ∈ pieces (t :: rest) ∧ s.length ≤ 40 :=
          (hsame s).mpr hs
        cases hformula : formula t with
        | false =>
          have hpieces : pieces (t :: rest) = (t :: rest).map crlf := by
            rw [pieces_cons, hformula]
            rfl
          rw [hpieces] at hmem
          have hfixed := fixed_of_covered length_crlf_le (fun _ => crlf_fixed)
            fun s hs => List.mem_map.mp (hmem hs).1
          refine ⟨fun s hs => ⟨hsep s hs, hfixed s hs, (hmem hs).2⟩, ?_⟩
          intro s others heq htrue
          cases heq
          rw [hformula] at htrue
          cases htrue
        | true =>
          have hpieces : pieces (t :: rest) = (39 :: crlf t) :: rest.map crlf := by
            rw [pieces_cons, hformula]
            rfl
          rw [hpieces] at hsame hmem
          -- the quoted copy is dropped: no tag of the list begins with an apostrophe
          have hlong : ¬ (39 :: crlf t).length ≤ 40 := by
            intro hshort
            have hback := (hsame (39 :: crlf t)).mp ⟨List.mem_cons_self, hshort⟩
            exact h.first t rest rfl hformula _ hback rfl
          have hrest {s : Str} (hs : s ∈ t :: rest) : ∃ q ∈ rest, crlf q = s := by
            obtain ⟨hpiece, hshort⟩ := hmem hs
            rcases List.mem_cons.mp hpiece with rfl | hpiece
            · exact absurd hshort hlong
            · exact List.mem_map.mp hpiece
          have hfixed := fixed_of_covered length_crlf_le (fun _ => crlf_fixed) fun s hs => by
            obtain ⟨q, hq, heq⟩ := hrest hs
            exact ⟨q, List.mem_cons_of_mem _ hq, heq⟩
          refine ⟨fun s hs => ⟨hsep s hs, hfixed s hs, (hmem hs).2⟩, ?_⟩
          intro s others heq _
          cases heq
          have hshort := (hmem List.mem_cons_self).2
          rw [hfixed t List.mem_cons_self, List.length_cons] at hlong
          obtain ⟨q, hq, heq⟩ := hrest List.mem_cons_self
          rw [hfixed q (List.mem_cons_of_mem _ hq)] at heq
          exact ⟨by omega, heq ▸ hq⟩
      · intro hportable s
        have hmap : rest.map crlf = rest := by
          conv_rhs => rw [← List.map_id rest]
          exact List.map_congr_left fun q hq => (hportable.each q (List.mem_cons_of_mem _ hq)).2.1
        obtain ⟨-, hfixed, -⟩ := hportable.each t List.mem_cons_self
        cases hformula : formula t with
        | false =>
          have hpieces : pieces (t :: rest) = t :: rest := by
            rw [pieces_cons, hformula, hmap, hfixed]
            rfl
          rw [hpieces]
          exact ⟨fun hs => hs.1, fun hs => ⟨hs, (hportable.each s hs).2.2⟩⟩
        | true =>
          have hpieces : pieces (t :: rest) = (39 :: t) :: rest := by
            rw [pieces_cons, hformula, hmap, hfixed]
            rfl
          obtain ⟨hlength, hcopy⟩ := hportable.first t rest rfl hformula
          rw [hpieces]
          constructor
          · rintro ⟨hs, hshort⟩
            rcases List.mem_cons.mp hs with rfl | hs
            · rw [List.length_cons] at hshort
              omega
            · exact List.mem_cons_of_mem _ hs
          · intro hs
            refine ⟨List.mem_cons_of_mem _ ?_, (hportable.each s hs).2.2⟩
            rcases List.mem_cons.mp hs with rfl | hs
            · exact hcopy
            · exact hs
  · refine iff_of_false (fun hsame => hsep fun t ht => ?_) fun hportable => hsep fun t ht =>
      (hportable.each t ht).1
    exact notMem_imported ((hsame t).mpr ht)

end CsvTags
