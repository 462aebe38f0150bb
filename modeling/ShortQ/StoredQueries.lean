import ShortQ.RedirectTargets

/-! # Stored queries

What `mergeTargetQuery` leaves of the query that a destination is stored with: the text between
its question mark and its fragment, piece by piece. -/
namespace StoredQueries

open GoText
open GoUrl
open LinkValidation
open Models
open RedirectTargets
open Runes
open UrlEscapes
open UrlQuery
open UrlRoundTrip

/-- The query of a URL as it stands in its text. -/
def queryText (s : Str) : Str := (cut 63 (cut 35 s).1).2.getD []

/-- The pieces between the ampersands, the empty ones included; an empty query has none. -/
def pieces (query : Str) : List Str := if query = [] then [] else query.splitOn 38

/-- The name of a piece; one that cannot be decoded stands for itself. -/
def pieceName (piece : Str) : Str :=
  (unescape .queryComponent (cut 61 piece).1).getD (cut 61 piece).1

/-- A name that the link configures or the visitor sends. -/
def Overridden (l : Link) (inbound : Values) (name : Str) : Prop :=
  (l.forwardQuery = true ∧ name ∈ inbound) ∨ ((utmValues l).lookup name).getD [] ≠ []

instance (l : Link) (inbound : Values) (name : Str) : Decidable (Overridden l inbound name) :=
  decidable_of_iff ((l.forwardQuery = true ∧ name ∈ inbound.keys) ∨
    ((utmValues l).lookup name).getD [] ≠ []) (by rw [← AList.mem_keys]; rfl)

/-- No UTM value is configured. -/
def Unconfigured (l : Link) : Prop := ∀ entry ∈ (utmValues l).entries, entry.2 = []

instance (l : Link) : Decidable (Unconfigured l) :=
  inferInstanceAs (Decidable (∀ entry ∈ (utmValues l).entries, entry.2 = []))

/-- The redirect leaves the pieces alone that nothing overrides, and the whole query where there
is nothing to merge. -/
structure Undamaged (raw merged : Str) (l : Link) (inbound : Values) : Prop where
  kept : ∀ piece ∈ pieces (queryText raw), ¬ Overridden l inbound (pieceName piece) →
    piece ∈ pieces (queryText merged)
  exact : Unconfigured l → inbound = ∅ → queryText merged = queryText raw

/-- A piece that is spelled as `Encode` spells it. -/
def canonical (piece : Str) : Bool := (parsePair piece).map encodePair = some piece

/-- No more parameters than `ParseQuery` reads. -/
def withinCap (limit : Option ℕ) (query : Str) : Bool := limit.all (query.count 38 + 1 ≤ ·)

/-- A query that parsing and encoding bring back: not parsed at all, or spelled as `Encode` does
where nothing overrides it and, where nothing is merged, in the order of `Encode`. -/
structure Encoded (limit : Option ℕ) (query : Str) (l : Link) (inbound : Values) : Prop where
  spelled : ∀ piece ∈ pieces query, ¬ Overridden l inbound (pieceName piece) →
    canonical piece = true ∧ withinCap limit query = true
  ordered : Unconfigured l → inbound = ∅ →
    (pieces query).Pairwise fun a b => pieceName a ≤ pieceName b

/-! ## The query of a written URL -/

/-- Neither mark stands in the text before the query. -/
def Unmarked (s : Str) : Prop := 63 ∉ s ∧ 35 ∉ s

theorem Unmarked.append {s t : Str} (hs : Unmarked s) (ht : Unmarked t) : Unmarked (s ++ t) := by
  simp only [Unmarked, List.mem_append, not_or]
  exact ⟨⟨hs.1, ht.1⟩, hs.2, ht.2⟩

theorem Unmarked.ite {p : Prop} [Decidable p] {s t : Str} (hs : Unmarked s) (ht : Unmarked t) :
    Unmarked (if p then s else t) := by
  split
  · exact hs
  · exact ht

theorem unmarked_nil : Unmarked [] := ⟨by simp, by simp⟩

theorem queryText_tail {front query frag : Str} (hfront : Unmarked front) (hquery : 35 ∉ query)
    (hfrag : frag = [] ∨ ∃ rest, frag = 35 :: rest) (force : Bool) :
    queryText (front ++ (if force || !query.isEmpty then 63 :: query else []) ++ frag) = query := by
  have hbefore : 35 ∉ front ++ (if force || !query.isEmpty then 63 :: query else []) := by
    rw [List.mem_append, not_or]
    refine ⟨hfront.2, ?_⟩
    split
    · simp [hquery]
    · simp
  have hcut : (cut 35 (front ++ (if force || !query.isEmpty then 63 :: query else []) ++ frag)).1
      = front ++ if force || !query.isEmpty then 63 :: query else [] := by
    rcases hfrag with rfl | ⟨rest, rfl⟩
    · rw [List.append_nil, cut_none hbefore]
    · rw [cut_append hbefore]
  rw [queryText, hcut]
  split
  · rw [cut_append hfront.1]
    rfl
  · rename_i hempty
    rw [List.append_nil, cut_none hfront.1]
    simp at hempty
    exact hempty.2.symm

theorem unmarked_of_forall {s : Str} (h : ∀ b ∈ s, b ≠ 63 ∧ b ≠ 35) : Unmarked s :=
  ⟨fun hmem => (h 63 hmem).1 rfl, fun hmem => (h 35 hmem).2 rfl⟩

theorem unmarked_authority (u : URL) : Unmarked u.authority := by
  have htext : Unmarked (authorityText u) := by
    apply unmarked_of_forall
    intro b hb
    have hin := inAuthority_iff.mp (inAuthority_authorityText u b hb)
    exact ⟨hin.1.2, hin.2.1⟩
  unfold URL.authority
  apply unmarked_nil.ite
  apply unmarked_nil.ite
  rw [List.append_assoc]
  apply Unmarked.append _ htext
  exact Unmarked.ite ⟨by decide, by decide⟩ unmarked_nil

theorem unmarked_path (u : URL) : Unmarked u.EscapedPath := by
  apply unmarked_of_forall
  intro b hb
  have hin := inPath_iff.mp (inPath_EscapedPath u b hb)
  exact ⟨hin.1, hin.2.1⟩

/-- What `Parse` leaves of the text before the query. -/
structure Front (u : URL) : Prop where
  scheme : Unmarked u.scheme
  opaquePart : Unmarked u.opaquePart
  query : 35 ∉ u.rawQuery

/-- The query that a URL is written with. -/
theorem queryText_String {u : URL} (h : Front u) : queryText u.String = u.rawQuery := by
  unfold URL.String
  dsimp only
  apply queryText_tail _ h.query
  · split
    · exact Or.inl rfl
    · exact Or.inr ⟨_, rfl⟩
  · apply Unmarked.append
    · exact unmarked_nil.ite (h.scheme.append ⟨by decide, by decide⟩)
    · apply h.opaquePart.ite
      apply Unmarked.append _ (unmarked_path u)
      apply (unmarked_authority u).append
      apply Unmarked.ite ⟨by decide, by decide⟩
      exact Unmarked.ite ⟨by decide, by decide⟩ unmarked_nil

/-- The query that `splitQuery` reads is the text behind the first question mark. -/
theorem splitQuery_query (rest : Str) : (splitQuery rest).2.2 = (cut 63 rest).2.getD [] := by
  unfold splitQuery
  split
  · rename_i hforce
    simp only [Bool.and_eq_true, decide_eq_true_eq] at hforce
    obtain ⟨before, rfl⟩ := List.getLast?_eq_some_iff.mp hforce.1
    have hcount := hforce.2
    rw [List.count_append, List.count_singleton_self] at hcount
    rw [cut_append (List.count_eq_zero.mp (by omega))]
    rfl
  · rfl

theorem schemeByte_unmarked : ∀ b : UInt8, schemeByte b = true → b ≠ 63 ∧ b ≠ 35 :=
  forall_byte (by decide +kernel)

theorem unmarked_scheme {name : Str} (h : schemeName name = true) : Unmarked name :=
  unmarked_of_forall fun b hb => schemeByte_unmarked b ((schemeName_iff.mp h).1 b hb)

/-- The scheme and its colon hold no question mark. -/
theorem getScheme_front {raw name rest : Str} (h : getScheme raw = some (name, rest)) :
    (∃ front, raw = front ++ rest ∧ 63 ∉ front) ∧ Unmarked (toLowerAscii name) := by
  by_cases hname : name = []
  · subst hname
    refine ⟨⟨[], ?_, by simp⟩, unmarked_nil⟩
    unfold getScheme at h
    dsimp only at h
    split at h
    · split at h
      · cases h
      · rename_i hcons
        split at h
        · rw [hcons] at h
          cases h
        · cases h
          rfl
    · cases h
      rfl
  · obtain ⟨hraw, hscheme⟩ := getScheme_eq_some h hname
    refine ⟨⟨name ++ [58], by rw [hraw]; simp, ?_⟩, unmarked_scheme (schemeName_lower hscheme)⟩
    simp [(unmarked_scheme hscheme).1]

theorem cut_front {front : Str} (h : 63 ∉ front) (rest : Str) :
    (cut 63 (front ++ rest)).2 = (cut 63 rest).2 := by
  cases hcut : cut 63 rest with
  | mk before query =>
    cases query with
    | none =>
      rw [cut_none (by simp [h, notMem_of_cut hcut])]
    | some after =>
      obtain ⟨rfl, hbefore⟩ := cut_eq_some hcut
      rw [← List.append_assoc, cut_append (by simp [h, hbefore])]

theorem notMem_cut_fst (sep : UInt8) (s : Str) : sep ∉ (cut sep s).1 := by
  have hjoin := cut_join sep s
  cases hcut : cut sep s with
  | mk before after =>
    cases after with
    | none =>
      rw [hcut, Option.elim_none, List.append_nil] at hjoin
      rw [← hjoin]
      exact notMem_of_cut hcut
    | some after => exact (cut_eq_some hcut).2

theorem mem_of_mem_cut {sep b : UInt8} {s : Str} (h : b ∈ (cut sep s).2.getD []) : b ∈ s := by
  rw [cut_join sep s]
  cases hcut : (cut sep s).2 with
  | none =>
    rw [hcut] at h
    cases h
  | some after =>
    rw [hcut] at h
    exact List.mem_append_right _ (List.mem_cons_of_mem sep h)

theorem parse_query {raw : Str} {u : URL} (hclean : 35 ∉ raw) (h : parse raw false = some u) :
    Front u ∧ u.rawQuery = (cut 63 raw).2.getD [] := by
  unfold parse at h
  split at h
  · cases h
  split at h
  · rename_i hstar
    cases h
    rw [hstar]
    exact ⟨⟨unmarked_nil, unmarked_nil, by simp⟩, rfl⟩
  rw [Option.bind_eq_bind, Option.bind_eq_some_iff] at h
  obtain ⟨⟨name, rest⟩, hget, h⟩ := h
  obtain ⟨⟨front, rfl, hfront⟩, hscheme⟩ := getScheme_front hget
  have hquery : (splitQuery rest).2.2 = (cut 63 (front ++ rest)).2.getD [] := by
    rw [splitQuery_query, cut_front hfront]
  obtain ⟨tail, hjoin, hbefore, htail⟩ := splitQuery_join rest
  have hrest : 35 ∉ rest := fun hmem => hclean (List.mem_append_right front hmem)
  have hopaque : Unmarked (splitQuery rest).1 := by
    refine ⟨hbefore, fun hmem => hrest ?_⟩
    rw [hjoin]
    exact List.mem_append_left tail hmem
  have hraw : 35 ∉ (splitQuery rest).2.2 := by
    rw [splitQuery_query]
    exact fun hmem => hrest (mem_of_mem_cut hmem)
  have hset {v : URL} {p : Str} (hv : setPath v p = some u) :
      u.scheme = v.scheme ∧ u.opaquePart = v.opaquePart ∧ u.rawQuery = v.rawQuery := by
    obtain ⟨path, -, rfl⟩ := Option.map_eq_some_iff.mp hv
    exact ⟨rfl, rfl, rfl⟩
  dsimp only at h
  split at h
  · cases h
    exact ⟨⟨hscheme, hopaque, hraw⟩, hquery⟩
  split at h
  · cases h
  split at h
  · rw [Option.bind_eq_bind, Option.bind_eq_some_iff] at h
    obtain ⟨⟨user, host⟩, -, h⟩ := h
    obtain ⟨hs, ho, hq⟩ := hset h
    exact ⟨⟨hs ▸ hscheme, ho ▸ unmarked_nil, hq ▸ hraw⟩, hq.trans hquery⟩
  · obtain ⟨hs, ho, hq⟩ := hset h
    exact ⟨⟨hs ▸ hscheme, ho ▸ unmarked_nil, hq ▸ hraw⟩, hq.trans hquery⟩

/-- A URL that is read holds the query of its text, and is written with it. -/
theorem Parse_query {raw : Str} {u : URL} (h : Parse raw = some u) :
    Front u ∧ u.rawQuery = queryText raw := by
  have hclean := notMem_cut_fst 35 raw
  rw [Parse, Option.bind_eq_bind, Option.bind_eq_some_iff] at h
  obtain ⟨v, hv, h⟩ := h
  obtain ⟨hfront, hquery⟩ := parse_query hclean hv
  split at h
  · cases h
    exact ⟨hfront, hquery⟩
  · cases h
    exact ⟨hfront, hquery⟩
  · obtain ⟨f, -, rfl⟩ := Option.map_eq_some_iff.mp h
    exact ⟨{ hfront with }, hquery⟩

/-! ## The pieces of an encoded query -/

theorem pieceName_encodePair (pair : Str × Str) : pieceName (encodePair pair) = pair.1 := by
  have hequals : 61 ∉ escape .queryComponent pair.1 := fun hmem =>
    (forall_escape escaped_byte pair.1 61 hmem).1.2.1 rfl
  rw [pieceName, encodePair, cut_append hequals, unescape_query]
  rfl

theorem canonical_iff {piece : Str} : canonical piece = true ↔ ∃ pair, piece = encodePair pair := by
  rw [canonical, decide_eq_true_eq]
  constructor
  · intro h
    obtain ⟨pair, -, hpair⟩ := Option.map_eq_some_iff.mp h
    exact ⟨pair, hpair.symm⟩
  · rintro ⟨pair, rfl⟩
    rw [parsePair_encodePair, Option.map_some]

theorem notMem_encodePair (pairs : List (Str × Str)) :
    ∀ piece ∈ pairs.map encodePair, 38 ∉ piece := by
  intro piece hpiece
  obtain ⟨pair, -, rfl⟩ := List.mem_map.mp hpiece
  exact fun hmem => (mem_encodePair hmem).1.1 rfl

theorem splitOn_Encode {v : Values} (h : Values.pairs v ≠ []) :
    (Values.Encode v).splitOn 38 = (Values.pairs v).map encodePair := by
  apply List.splitOn_intercalate 38 (notMem_encodePair _)
  simpa using h

theorem Encode_ne_nil {v : Values} (h : Values.pairs v ≠ []) : Values.Encode v ≠ [] := by
  intro hnil
  have hsplit := splitOn_Encode h
  rw [hnil] at hsplit
  have hmem : [] ∈ (Values.pairs v).map encodePair := hsplit ▸ List.mem_cons_self
  obtain ⟨pair, -, hpair⟩ := List.mem_map.mp hmem
  exact encodePair_ne_nil pair hpair

theorem pieces_Encode (v : Values) : pieces (Values.Encode v) =
    (Values.pairs v).map encodePair := by
  by_cases hpairs : Values.pairs v = []
  · rw [Values.Encode, hpairs]
    rfl
  · rw [pieces, if_neg (Encode_ne_nil hpairs), splitOn_Encode hpairs]

/-- An empty piece is not spelled as a pair. -/
theorem ne_nil_of_canonical {piece : Str} (h : canonical piece = true) : piece ≠ [] := by
  obtain ⟨pair, rfl⟩ := canonical_iff.mp h
  exact encodePair_ne_nil pair

theorem mem_pairs {v : Values} {pair : Str × Str} :
    pair ∈ Values.pairs v ↔ pair.2 ∈ Values.list v pair.1 := by
  rw [← filter_pairs v pair.1, List.mem_map]
  constructor
  · intro h
    exact ⟨pair, List.mem_filter.mpr ⟨h, decide_eq_true rfl⟩, rfl⟩
  · rintro ⟨other, hother, hvalue⟩
    obtain ⟨hmem, hname⟩ := List.mem_filter.mp hother
    rwa [← Prod.ext (of_decide_eq_true hname) hvalue]

/-- The pairs that the loop of `parseQuery` adds. -/
theorem parseQuery_eq (list : List Str) (m : Values) :
    (parseQuery m list).1 = addAll m ((list.filter (· ≠ [])).filterMap parsePair) := by
  induction list generalizing m with
  | nil => rfl
  | cons piece rest ih =>
    rw [parseQuery]
    by_cases hempty : piece = []
    · rw [if_pos hempty, List.filter_cons_of_neg (by simpa using hempty)]
      exact ih m
    · rw [if_neg hempty, List.filter_cons_of_pos (by simpa using hempty)]
      cases hpair : parsePair piece with
      | none =>
        rw [List.filterMap_cons_none hpair]
        exact ih m
      | some pair =>
        rw [List.filterMap_cons_some hpair]
        exact ih (Values.Add m pair.1 pair.2)

theorem ParseQuery_eq (limit : Option ℕ) (query : Str) : (ParseQuery limit query).1 =
    if withinCap limit query = true then
      addAll ∅ (((pieces query).filter (· ≠ [])).filterMap parsePair)
    else ∅ := by
  have hpieces : (pieces query).filter (· ≠ []) = (query.splitOn 38).filter (· ≠ []) := by
    by_cases hempty : query = []
    · rw [hempty]
      rfl
    · rw [pieces, if_neg hempty]
  have hcap : limit.any (fun n => decide (n < query.count 38 + 1)) = !withinCap limit query := by
    cases limit with
    | none => rfl
    | some n =>
      rw [withinCap, Option.any_some, Option.all_some]
      by_cases hle : query.count 38 + 1 ≤ n
      · rw [decide_eq_false (by omega), decide_eq_true hle]
        rfl
      · rw [decide_eq_true (by omega), decide_eq_false hle]
        rfl
  rw [ParseQuery, hcap, hpieces]
  cases withinCap limit query with
  | false => rfl
  | true => exact parseQuery_eq _ ∅

/-- A name that nothing overrides has its own values after the merge. -/
theorem list_of_own {utm : AList fun _ : Str => Str} {l : Link} {inbound : Values}
    (hutm : utm.entries.Perm (utmValues l).entries) (own : Values) {name : Str}
    (h : ¬ Overridden l inbound name) :
    Values.list (mergeQuery utm own l inbound) name = Values.list own name := by
  rw [Overridden, not_or, not_not] at h
  rw [list_mergeQuery hutm, precedence, if_neg h.1, if_neg (not_not.mpr h.2)]

/-- A piece comes through the merge when it is spelled as `Encode` spells it, and only then. -/
theorem kept_iff {limit : Option ℕ} {utm : AList fun _ : Str => Str} {l : Link} {inbound : Values}
    (hutm : utm.entries.Perm (utmValues l).entries) {query piece : Str}
    (hpiece : piece ∈ pieces query) (hown : ¬ Overridden l inbound (pieceName piece)) :
    piece ∈ pieces (Values.Encode (mergeQuery utm (ParseQuery limit query).1 l inbound)) ↔
      canonical piece = true ∧ withinCap limit query = true := by
  rw [pieces_Encode, List.mem_map, ParseQuery_eq]
  constructor
  · rintro ⟨pair, hpair, rfl⟩
    refine ⟨canonical_iff.mpr ⟨pair, rfl⟩, ?_⟩
    rw [pieceName_encodePair] at hown
    by_contra hcap
    rw [mem_pairs, list_of_own hutm _ hown, if_neg hcap] at hpair
    cases hpair
  · rintro ⟨hcanonical, hcap⟩
    obtain ⟨pair, rfl⟩ := canonical_iff.mp hcanonical
    rw [pieceName_encodePair] at hown
    refine ⟨pair, ?_, rfl⟩
    rw [mem_pairs, list_of_own hutm _ hown, if_pos hcap, list_addAll, list_empty, List.nil_append,
      List.mem_map]
    refine ⟨pair, List.mem_filter.mpr ⟨?_, decide_eq_true rfl⟩, rfl⟩
    refine List.mem_filterMap.mpr ⟨encodePair pair, ?_, parsePair_encodePair pair⟩
    exact List.mem_filter.mpr ⟨hpiece, decide_eq_true (encodePair_ne_nil pair)⟩

/-! ## The order of an encoded query -/

/-- Lists in the order of their keys are equal when they are key by key. -/
theorem eq_of_filter_eq {α κ : Type} [DecidableEq κ] {le : κ → κ → Prop} (refl : ∀ k, le k k)
    (antisymm : ∀ j k, le j k → le k j → j = k) (key : α → κ) {l₁ l₂ : List α}
    (h₁ : l₁.Pairwise fun a b => le (key a) (key b))
    (h₂ : l₂.Pairwise fun a b => le (key a) (key b))
    (h : ∀ k, l₁.filter (key · = k) = l₂.filter (key · = k)) : l₁ = l₂ := by
  induction l₁ generalizing l₂ with
  | nil =>
    cases l₂ with
    | nil => rfl
    | cons b rest =>
      have hb := h (key b)
      rw [List.filter_cons_of_pos (by simp)] at hb
      cases hb
  | cons a rest₁ ih =>
    cases l₂ with
    | nil =>
      have ha := h (key a)
      rw [List.filter_cons_of_pos (by simp)] at ha
      cases ha
    | cons b rest₂ =>
      obtain ⟨hleast₁, hrest₁⟩ := List.pairwise_cons.mp h₁
      obtain ⟨hleast₂, hrest₂⟩ := List.pairwise_cons.mp h₂
      have hfirst : key a = key b := by
        apply antisymm
        · have hmem : b ∈ (a :: rest₁).filter (key · = key b) := by
            rw [h (key b)]
            simp
          rcases List.mem_cons.mp (List.mem_of_mem_filter hmem) with rfl | hb
          · exact refl _
          · exact hleast₁ b hb
        · have hmem : a ∈ (b :: rest₂).filter (key · = key a) := by
            rw [← h (key a)]
            simp
          rcases List.mem_cons.mp (List.mem_of_mem_filter hmem) with rfl | ha
          · exact refl _
          · exact hleast₂ a ha
      have hsame := h (key b)
      rw [List.filter_cons_of_pos (by simpa using hfirst), List.filter_cons_of_pos (by simp),
        List.cons.injEq] at hsame
      obtain rfl := hsame.1
      rw [ih hrest₁ hrest₂]
      intro k
      by_cases hk : key a = k
      · exact hk ▸ hsame.2
      · have hall := h k
        rwa [List.filter_cons_of_neg (by simpa using hk),
          List.filter_cons_of_neg (by simpa using hk)] at hall

theorem pairs_sorted (v : Values) : (Values.pairs v).Pairwise fun a b => a.1 ≤ b.1 := by
  rw [Values.pairs, List.pairwise_flatMap]
  constructor
  · intro name _
    rw [List.pairwise_map]
    exact List.pairwise_of_forall fun _ _ => List.le_refl name
  · apply (List.pairwise_insertionSort (· ≤ ·) v.keys).imp
    intro a b hab x hx y hy
    obtain ⟨value, -, rfl⟩ := List.mem_map.mp hx
    obtain ⟨value', -, rfl⟩ := List.mem_map.mp hy
    exact hab

/-- The pairs of one name are made of its values. -/
theorem filter_eq_map (pairs : List (Str × Str)) (name : Str) : pairs.filter (·.1 = name)
    = ((pairs.filter (·.1 = name)).map Prod.snd).map (name, ·) := by
  rw [List.map_map]
  symm
  apply (List.map_congr_left _).trans (List.map_id _)
  intro pair hpair
  exact Prod.ext (of_decide_eq_true (List.mem_filter.mp hpair).2).symm rfl

theorem pairs_addAll {pairs : List (Str × Str)} (h : pairs.Pairwise fun a b => a.1 ≤ b.1) :
    Values.pairs (addAll ∅ pairs) = pairs := by
  apply eq_of_filter_eq List.le_refl (fun _ _ => List.le_antisymm) Prod.fst (pairs_sorted _) h
  intro name
  rw [filter_eq_map (Values.pairs _), filter_eq_map pairs, filter_pairs, list_addAll, list_empty,
    List.nil_append]

/-- A query comes back from parsing and encoding when its pieces stand in the order of their
names. -/
theorem encoded_iff {limit : Option ℕ} {query : Str}
    (hspelled : ∀ piece ∈ pieces query, canonical piece = true ∧ withinCap limit query = true) :
    Values.Encode (ParseQuery limit query).1 = query ↔
      (pieces query).Pairwise fun a b => pieceName a ≤ pieceName b := by
  by_cases hempty : query = []
  · subst hempty
    refine iff_of_true ?_ List.Pairwise.nil
    rw [ParseQuery_eq]
    split <;> rfl
  · constructor
    · intro h
      rw [← h, pieces_Encode, List.pairwise_map]
      apply (pairs_sorted _).imp
      intro a b hab
      rwa [pieceName_encodePair, pieceName_encodePair]
    · intro hsorted
      have hsplit : pieces query = query.splitOn 38 := if_neg hempty
      have hfull : (pieces query).filter (· ≠ []) = pieces query :=
        List.filter_eq_self.mpr fun piece hpiece =>
          decide_eq_true (ne_nil_of_canonical (hspelled piece hpiece).1)
      have hback : ((pieces query).filterMap parsePair).map encodePair = pieces query := by
        rw [List.map_filterMap]
        apply (List.filterMap_congr _).trans List.filterMap_some
        intro piece hpiece
        exact of_decide_eq_true (hspelled piece hpiece).1
      have hcap : withinCap limit query = true := by
        obtain ⟨piece, rest, hcons⟩ := List.exists_cons_of_ne_nil (List.splitOn_ne_nil 38 query)
        rw [hsplit, hcons] at hspelled
        exact (hspelled piece List.mem_cons_self).2
      rw [← hback, List.pairwise_map] at hsorted
      simp only [pieceName_encodePair] at hsorted
      rw [ParseQuery_eq, if_pos hcap, hfull, Values.Encode, pairs_addAll hsorted, hback, hsplit,
        List.intercalate_splitOn]

/-! ## The redirect -/

theorem Unconfigured.lookup {l : Link} (h : Unconfigured l) (name : Str) :
    ((utmValues l).lookup name).getD [] = [] := by
  cases hvalue : (utmValues l).lookup name with
  | none => rfl
  | some value => exact h ⟨name, value⟩ (AList.mem_lookup_iff.mp hvalue)

/-- With nothing configured and nothing sent the query is the stored one, parsed and encoded. -/
theorem Encode_unmerged {utm : AList fun _ : Str => Str} {l : Link} (own : Values)
    (hutm : utm.entries.Perm (utmValues l).entries)
    (hnone : Unconfigured l) :
    Values.Encode (mergeQuery utm own l ∅) = Values.Encode own := by
  apply Encode_congr
  intro name
  have hout : ¬ (l.forwardQuery = true ∧ name ∈ (∅ : Values)) :=
    fun h => AList.notMem_empty name h.2
  rw [lookup_mergeQuery, if_neg hout, AList.perm_lookup hutm, if_pos (hnone.lookup name)]

/-- The query of the URL that the visitor is sent to. -/
theorem queryText_merged {limit : Option ℕ} {utm : AList fun _ : Str => Str} {raw : Str} {l : Link}
    {inbound : Values} {u : URL} (h : Parse raw = some u) :
    queryText (mergeTargetQuery limit utm raw l inbound)
      = Values.Encode (mergeQuery utm (ParseQuery limit (queryText raw)).1 l inbound) := by
  obtain ⟨hfront, hquery⟩ := Parse_query h
  rw [mergeTargetQuery, h]
  dsimp only
  rw [queryText_String, hquery]
  exact { hfront with query := fun hmem => (mem_Encode hmem).1 rfl }

/-- The redirect leaves the stored query undamaged exactly when the URL is not parsed at all or its
query is one that parsing and encoding bring back. -/
theorem undamaged_iff (limit : Option ℕ) (utm : AList fun _ : Str => Str) (raw : Str) (l : Link)
    (inbound : Values) (hutm : utm.entries.Perm (utmValues l).entries) :
    Undamaged raw (mergeTargetQuery limit utm raw l inbound) l inbound ↔
      Parse raw = none ∨ Encoded limit (queryText raw) l inbound := by
  cases hparsed : Parse raw with
  | none =>
    have hsame : mergeTargetQuery limit utm raw l inbound = raw := by
      rw [mergeTargetQuery, hparsed]
    rw [hsame]
    exact ⟨fun _ => Or.inl rfl, fun _ => ⟨fun _ hpiece _ => hpiece, fun _ _ => rfl⟩⟩
  | some u =>
    have hmerged := @queryText_merged limit utm raw l inbound u hparsed
    have hown (hnone : Unconfigured l) (name : Str) :
        ¬ Overridden l ∅ name := by
      rw [Overridden, not_or, not_not]
      exact ⟨fun h => AList.notMem_empty name h.2, hnone.lookup name⟩
    rw [or_iff_right (by simp)]
    constructor
    · intro h
      have hspelled : ∀ piece ∈ pieces (queryText raw), ¬ Overridden l inbound (pieceName piece) →
          canonical piece = true ∧ withinCap limit (queryText raw) = true := by
        intro piece hpiece hover
        rw [← kept_iff hutm hpiece hover, ← hmerged]
        exact h.kept piece hpiece hover
      refine ⟨hspelled, ?_⟩
      rintro hnone rfl
      have hexact := h.exact hnone rfl
      rw [hmerged, Encode_unmerged _ hutm hnone] at hexact
      exact (encoded_iff fun piece hpiece => hspelled piece hpiece (hown hnone _)).mp hexact
    · intro h
      constructor
      · intro piece hpiece hover
        rw [hmerged, kept_iff hutm hpiece hover]
        exact h.spelled piece hpiece hover
      · rintro hnone rfl
        rw [hmerged, Encode_unmerged _ hutm hnone,
          encoded_iff fun piece hpiece => h.spelled piece hpiece (hown hnone _)]
        exact h.ordered hnone rfl

/-- The destination that the handler's test merges. -/
theorem undamaged_iff_visit :
    Undamaged (lit "https://example.org/path?keep=yes&utm_source=old#top")
      (mergeTargetQuery (some 10000) (utmValues campaign)
        (lit "https://example.org/path?keep=yes&utm_source=old#top") campaign visit)
      campaign visit :=
  (undamaged_iff (some 10000) (utmValues campaign) _ campaign visit (List.Perm.refl _)).mpr
    (Or.inr ⟨by decide, fun h => absurd h (by decide)⟩)

/-- A percent sign that begins no escape is accepted by the store and dropped by the redirect. -/
theorem percent_dropped : validHTTPURL (lit "https://example.org/?rate=100%&page=2") = none ∧
    pieces (queryText (lit "https://example.org/?rate=100%&page=2"))
      = [lit "rate=100%", lit "page=2"] ∧
    queryText (mergeTargetQuery (some 10000) (utmValues {})
      (lit "https://example.org/?rate=100%&page=2") {} ∅) = lit "page=2" ∧
    ¬ Undamaged (lit "https://example.org/?rate=100%&page=2")
      (mergeTargetQuery (some 10000) (utmValues {}) (lit "https://example.org/?rate=100%&page=2")
        {} ∅) {} ∅ := by
  have hmerged : queryText (mergeTargetQuery (some 10000) (utmValues {})
      (lit "https://example.org/?rate=100%&page=2") {} ∅) = lit "page=2" := by decide
  refine ⟨by decide, by decide, hmerged, ?_⟩
  intro h
  have hexact := h.exact (by decide) rfl
  rw [hmerged] at hexact
  revert hexact
  decide

end StoredQueries
