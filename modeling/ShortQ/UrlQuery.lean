import ShortQ.UrlEscapes
import Mathlib.Data.List.AList
import Mathlib.Data.List.Sort

/-! # Query values

`url.Values`: a map from names to lists of values. The entries stand in the order in which one
iteration of the map visits them. -/
namespace UrlQuery

open GoText
open GoUrl
open Runes
open UrlEscapes

abbrev Values := AList fun _ : Str => List Str

def Values.list (v : Values) (key : Str) : List Str := (v.lookup key).getD []

def Values.Get (v : Values) (key : Str) : Str := (Values.list v key).headD []

def Values.Set (v : Values) (key value : Str) : Values := v.insert key [value]

def Values.Add (v : Values) (key value : Str) : Values :=
  v.insert key (Values.list v key ++ [value])

def Values.Del (v : Values) (key : Str) : Values := v.erase key

/-- One piece between ampersands; none where it is malformed. -/
def parsePair (piece : Str) : Option (Str × Str) :=
  if piece.contains 59 then none
  else do
    let key ← unescape .queryComponent (cut 61 piece).1
    let value ← unescape .queryComponent ((cut 61 piece).2.getD [])
    some (key, value)

/-- The loop of `parseQuery`, with whether it met no error. A malformed piece is skipped. -/
def parseQuery (m : Values) : List Str → Values × Bool
  | [] => (m, true)
  | piece :: rest =>
    if piece = [] then parseQuery m rest
    else
      match parsePair piece with
      | none => ((parseQuery m rest).1, false)
      | some (key, value) => parseQuery (Values.Add m key value) rest

/-- `limit` is the cap on the number of parameters (`urlmaxqueryparams`), if there is one. -/
def ParseQuery (limit : Option ℕ) (query : Str) : Values × Bool :=
  if limit.any (· < query.count 38 + 1) then (∅, false) else parseQuery ∅ (query.splitOn 38)

/-- The pairs in the order in which `Encode` writes them. -/
def Values.pairs (v : Values) : List (Str × Str) :=
  (v.keys.insertionSort (· ≤ ·)).flatMap fun key => (Values.list v key).map (key, ·)

def encodePair (pair : Str × Str) : Str :=
  escape .queryComponent pair.1 ++ 61 :: escape .queryComponent pair.2

def Values.Encode (v : Values) : Str := [38].intercalate ((Values.pairs v).map encodePair)

@[simp] theorem list_empty (key : Str) : Values.list ∅ key = [] := rfl

@[simp] theorem lookup_Set (v : Values) (key value k : Str) :
    (Values.Set v key value).lookup k = if k = key then some [value] else v.lookup k := by
  by_cases hk : k = key
  · rw [if_pos hk, hk]
    exact AList.lookup_insert v
  · rw [if_neg hk]
    exact AList.lookup_insert_ne hk

@[simp] theorem lookup_Add (v : Values) (key value k : Str) : (Values.Add v key value).lookup k =
    if k = key then some (Values.list v key ++ [value]) else v.lookup k := by
  by_cases hk : k = key
  · rw [if_pos hk, hk]
    exact AList.lookup_insert v
  · rw [if_neg hk]
    exact AList.lookup_insert_ne hk

@[simp] theorem lookup_Del (v : Values) (key k : Str) :
    (Values.Del v key).lookup k = if k = key then none else v.lookup k := by
  by_cases hk : k = key
  · rw [if_pos hk, hk]
    exact AList.lookup_erase key v
  · rw [if_neg hk]
    exact AList.lookup_erase_ne hk

theorem list_Add (v : Values) (key value k : Str) : Values.list (Values.Add v key value) k =
    if k = key then Values.list v k ++ [value] else Values.list v k := by
  unfold Values.list
  rw [lookup_Add]
  split
  · rename_i hk
    rw [hk]
    rfl
  · rfl

theorem mem_Add (v : Values) (key value k : Str) :
    k ∈ Values.Add v key value ↔ k = key ∨ k ∈ v := AList.mem_insert v

theorem list_of_notMem {v : Values} {key : Str} (h : key ∉ v) : Values.list v key = [] := by
  rw [Values.list, AList.lookup_eq_none.mpr h]
  rfl

/-! ## Adding pairs -/

def addAll (v : Values) (pairs : List (Str × Str)) : Values :=
  pairs.foldl (fun v pair => Values.Add v pair.1 pair.2) v

theorem list_addAll (pairs : List (Str × Str)) (v : Values) (k : Str) :
    Values.list (addAll v pairs) k =
      Values.list v k ++ (pairs.filter fun pair => pair.1 = k).map Prod.snd := by
  induction pairs generalizing v with
  | nil => simp [addAll]
  | cons pair rest ih =>
    have hstep : addAll v (pair :: rest) = addAll (Values.Add v pair.1 pair.2) rest := rfl
    rw [hstep, ih, list_Add]
    by_cases hk : k = pair.1
    · simp [hk]
    · simp [hk, Ne.symm hk]

theorem mem_addAll (pairs : List (Str × Str)) (v : Values) (k : Str) :
    k ∈ addAll v pairs ↔ k ∈ v ∨ ∃ pair ∈ pairs, pair.1 = k := by
  induction pairs generalizing v with
  | nil => simp [addAll]
  | cons pair rest ih =>
    have hstep : addAll v (pair :: rest) = addAll (Values.Add v pair.1 pair.2) rest := rfl
    rw [hstep, ih, mem_Add]
    simp only [List.mem_cons, exists_eq_or_imp]
    tauto

/-- The pairs of one name are its values, in their order. -/
theorem filter_pairs (v : Values) (k : Str) :
    ((Values.pairs v).filter fun pair => pair.1 = k).map Prod.snd = Values.list v k := by
  have hown : ∀ keys : List Str, keys.Nodup → (k ∉ keys → Values.list v k = []) →
      ((keys.flatMap fun key => (Values.list v key).map (key, ·)).filter
        fun pair => pair.1 = k).map Prod.snd = Values.list v k := by
    intro keys hnodup hrest
    induction keys with
    | nil => exact (hrest (by simp)).symm
    | cons key rest ih =>
      rw [List.nodup_cons] at hnodup
      rw [List.flatMap_cons, List.filter_append, List.map_append, List.filter_map]
      by_cases hk : key = k
      · subst hk
        have hothers : (rest.flatMap fun key => (Values.list v key).map (key, ·)).filter
            (fun pair => pair.1 = key) = [] := by
          rw [List.filter_eq_nil_iff]
          intro pair hpair
          obtain ⟨other, hother, hmem⟩ := List.mem_flatMap.mp hpair
          obtain ⟨value, -, rfl⟩ := List.mem_map.mp hmem
          simpa using fun heq : other = key => hnodup.1 (heq ▸ hother)
        rw [hothers]
        simp [Function.comp_def]
      · have hnone :
            (Values.list v key).filter ((fun pair => decide (pair.1 = k)) ∘ (key, ·)) = [] := by
          simp [hk]
        rw [hnone, List.map_nil, List.map_nil, List.nil_append]
        exact ih hnodup.2 fun hmem => hrest (by simp [Ne.symm hk, hmem])
  have hsort := List.perm_insertionSort (fun a b : Str => a ≤ b) v.keys
  refine hown _ (hsort.nodup_iff.mpr v.keys_nodup) fun hmem => list_of_notMem fun hv => hmem ?_
  exact hsort.mem_iff.mpr hv

theorem exists_pair_iff (v : Values) (k : Str) :
    (∃ pair ∈ Values.pairs v, pair.1 = k) ↔ Values.list v k ≠ [] := by
  rw [← filter_pairs v k, ne_eq, List.map_eq_nil_iff, List.filter_eq_nil_iff]
  push Not
  simp

/-- What is added pair by pair to no values has the same lists. -/
theorem list_addAll_pairs (v : Values) (k : Str) :
    Values.list (addAll ∅ (Values.pairs v)) k = Values.list v k := by
  rw [list_addAll, list_empty, List.nil_append, filter_pairs]

/-! ## Encoded text -/

theorem escaped_byte : ∀ c, ∀ b ∈ escapeByte .queryComponent c,
    (b ≠ 38 ∧ b ≠ 61 ∧ b ≠ 59) ∧ b ≠ 35 ∧ isControl b = false := by
  refine forall_escapeByte (fun _ => by decide) (by decide) (fun b hb => ?_) (by decide)
  obtain ⟨-, hcontrol, hmarks⟩ := isAlnum_plain hb
  simp only [List.mem_cons, List.not_mem_nil, or_false, not_or] at hmarks
  tauto

theorem readable_query (b : UInt8) : readable .queryComponent b = true := rfl

theorem mem_encodePair {pair : Str × Str} {b : UInt8} (h : b ∈ encodePair pair) :
    (b ≠ 38 ∧ b ≠ 59) ∧ b ≠ 35 ∧ isControl b = false := by
  rcases List.mem_append.mp h with hkey | hvalue
  · have hbyte := forall_escape escaped_byte pair.1 b hkey
    exact ⟨⟨hbyte.1.1, hbyte.1.2.2⟩, hbyte.2⟩
  · rcases List.mem_cons.mp hvalue with rfl | hvalue
    · decide
    · have hbyte := forall_escape escaped_byte pair.2 b hvalue
      exact ⟨⟨hbyte.1.1, hbyte.1.2.2⟩, hbyte.2⟩

theorem unescape_query (s : Str) :
    unescape .queryComponent (escape .queryComponent s) = some s := by
  have hall : s.all (readable .queryComponent) = true := by
    rw [List.all_eq_true]
    exact fun b _ => readable_query b
  rw [unescape_escape, if_pos hall]

theorem parsePair_encodePair (pair : Str × Str) : parsePair (encodePair pair) = some pair := by
  have hsemicolon : (encodePair pair).contains 59 = false := by
    rw [List.contains_eq_mem, decide_eq_false_iff_not]
    exact fun hmem => (mem_encodePair hmem).1.2 rfl
  have hequals : 61 ∉ escape .queryComponent pair.1 := fun hmem =>
    (forall_escape escaped_byte pair.1 61 hmem).1.2.1 rfl
  have hcut : cut 61 (encodePair pair) =
      (escape .queryComponent pair.1, some (escape .queryComponent pair.2)) := cut_append hequals _
  rw [parsePair, hsemicolon, if_neg Bool.false_ne_true, hcut]
  simp [unescape_query]

theorem encodePair_ne_nil (pair : Str × Str) : encodePair pair ≠ [] := by
  simp [encodePair]

theorem parseQuery_encoded (pairs : List (Str × Str)) (m : Values) :
    parseQuery m (pairs.map encodePair) = (addAll m pairs, true) := by
  induction pairs generalizing m with
  | nil => rfl
  | cons pair rest ih =>
    rw [List.map_cons, parseQuery, if_neg (encodePair_ne_nil pair), parsePair_encodePair]
    exact ih (Values.Add m pair.1 pair.2)

theorem mem_joined {pieces : List Str} {b : UInt8} (h : b ∈ [38].intercalate pieces) :
    b = 38 ∨ ∃ piece ∈ pieces, b ∈ piece := by
  induction pieces with
  | nil => simp at h
  | cons piece rest ih =>
    cases rest with
    | nil => exact Or.inr ⟨piece, List.mem_singleton_self piece, by simpa using h⟩
    | cons next rest =>
      rw [List.intercalate_cons_cons, List.mem_append, List.mem_append, List.mem_singleton] at h
      rcases h with (hpiece | rfl) | hrest
      · exact Or.inr ⟨piece, List.mem_cons_self, hpiece⟩
      · exact Or.inl rfl
      · rcases ih hrest with rfl | ⟨other, hother, hmem⟩
        · exact Or.inl rfl
        · exact Or.inr ⟨other, List.mem_cons_of_mem piece hother, hmem⟩

/-- An encoded query can stand in a URL as it is. -/
theorem mem_Encode {v : Values} {b : UInt8} (h : b ∈ Values.Encode v) :
    b ≠ 35 ∧ isControl b = false := by
  rcases mem_joined h with rfl | ⟨piece, hpiece, hmem⟩
  · decide
  · obtain ⟨pair, -, rfl⟩ := List.mem_map.mp hpiece
    exact (mem_encodePair hmem).2

theorem count_joined {pieces : List Str} (hfree : ∀ piece ∈ pieces, 38 ∉ piece)
    (hne : pieces ≠ []) : ([38].intercalate pieces).count 38 + 1 = pieces.length := by
  induction pieces with
  | nil => exact absurd rfl hne
  | cons piece rest ih =>
    have hpiece : piece.count 38 = 0 := List.count_eq_zero.mpr (hfree piece List.mem_cons_self)
    cases rest with
    | nil => simp [hpiece]
    | cons next rest =>
      have hrest := ih (fun p hp => hfree p (List.mem_cons_of_mem piece hp)) (List.cons_ne_nil _ _)
      rw [List.intercalate_cons_cons, List.count_append, List.count_append, hpiece,
        List.length_cons, ← hrest]
      simp
      omega

/-- `Encode` followed by parsing gives the lists back: what callers rely on. -/
def Restored (limit : Option ℕ) (v : Values) : Prop :=
  ∃ read, ParseQuery limit (Values.Encode v) = (read, true) ∧
    ∀ key, Values.list read key = Values.list v key ∧ (key ∈ read ↔ Values.list v key ≠ [])

/-- It holds of all values within the cap. -/
theorem restored_of_within {limit : Option ℕ} {v : Values}
    (h : ∀ n ∈ limit, max 1 (Values.pairs v).length ≤ n) : Restored limit v := by
  have hread : ParseQuery limit (Values.Encode v) = (addAll ∅ (Values.pairs v), true) := by
    have hfree : ∀ piece ∈ (Values.pairs v).map encodePair, 38 ∉ piece := by
      intro piece hpiece
      obtain ⟨pair, -, rfl⟩ := List.mem_map.mp hpiece
      exact fun hmem => (mem_encodePair hmem).1.1 rfl
    have hcount : (Values.Encode v).count 38 + 1 = max 1 (Values.pairs v).length := by
      cases hpairs : Values.pairs v with
      | nil => simp [Values.Encode, hpairs]
      | cons pair rest =>
        rw [hpairs] at hfree
        rw [Values.Encode, hpairs, count_joined hfree (List.cons_ne_nil _ _)]
        simp
    have hlimit : limit.any (fun n => decide (n < (Values.Encode v).count 38 + 1)) = false := by
      rw [Option.any_eq_false]
      intro n hn
      have hle := h n hn
      rw [← hcount] at hle
      simpa using hle
    rw [ParseQuery, hlimit, if_neg Bool.false_ne_true]
    cases hpairs : Values.pairs v with
    | nil => simp [Values.Encode, hpairs, parseQuery, addAll]
    | cons pair rest =>
      rw [hpairs] at hfree
      rw [Values.Encode, hpairs, List.splitOn_intercalate 38 hfree (List.cons_ne_nil _ _)]
      exact parseQuery_encoded _ _
  refine ⟨_, hread, fun key => ⟨list_addAll_pairs v key, ?_⟩⟩
  rw [mem_addAll, ← exists_pair_iff]
  simp

/-- The order in which a map is visited does not show in its encoded text. -/
theorem Encode_congr {v w : Values} (h : ∀ key, v.lookup key = w.lookup key) :
    Values.Encode v = Values.Encode w := by
  have hkeys : v.keys.insertionSort (· ≤ ·) = w.keys.insertionSort (· ≤ ·) := by
    have hperm : v.keys.Perm w.keys := by
      rw [List.perm_ext_iff_of_nodup v.keys_nodup w.keys_nodup]
      intro key
      rw [← AList.mem_keys, ← AList.mem_keys, ← AList.lookup_isSome, ← AList.lookup_isSome, h]
    apply List.Perm.eq_of_pairwise' (List.pairwise_insertionSort (· ≤ ·) v.keys)
      (List.pairwise_insertionSort (· ≤ ·) w.keys)
    exact ((List.perm_insertionSort _ _).trans hperm).trans (List.perm_insertionSort _ _).symm
  have hlist : Values.list v = Values.list w := by
    funext key
    rw [Values.list, Values.list, h]
  rw [Values.Encode, Values.Encode, Values.pairs, Values.pairs, hkeys, hlist]

end UrlQuery
