import Mathlib.Data.List.Sort
import ShortQ.ReportFigures

/-! # The long tail of a breakdown

`sortedPoints` on the machine's integers: which counts are listed, which are merged, and when the
keys of the listing tell them apart. -/
namespace LongTail

open GoText (Str lit)
open ReportFigures (AnalyticsPoint pointClash)

/-! ## Sorted lists -/

section Ranked

variable {α : Type} {less : α → α → Bool}

/-- In a sorted list the elements before an element are those that stand before it. -/
theorem countP_of_mem_drop {l : List α} {k : ℕ} {a : α} (hk : k ≤ l.length)
    (h : l.Pairwise fun a b => less a b = true) (ha : a ∈ l.drop k) : k ≤ l.countP (less · a) := by
  have hsplit := List.take_append_drop k l
  rw [← hsplit, List.pairwise_append] at h
  have hall : (l.take k).countP (less · a) = (l.take k).length :=
    List.countP_eq_length.mpr fun b hb => h.2.2 b hb a ha
  calc k = (l.take k).length := by rw [List.length_take, Nat.min_eq_left hk]
    _ = (l.take k).countP (less · a) := hall.symm
    _ ≤ l.countP (less · a) := (List.take_sublist k l).countP_le

theorem countP_of_mem_take {l : List α} {k : ℕ} {a : α}
    (hasymm : ∀ a b, less a b = true → less b a = false)
    (h : l.Pairwise fun a b => less a b = true) (ha : a ∈ l.take k) : l.countP (less · a) < k := by
  have hsplit := List.take_append_drop k l
  have hpair := h
  rw [← hsplit, List.pairwise_append] at hpair
  have hself : less a a = false := by
    by_contra hne
    have hlt := Bool.not_eq_false _ ▸ hne
    exact hne (hasymm a a hlt)
  have hdrop : (l.drop k).countP (less · a) = 0 :=
    List.countP_eq_zero.mpr fun b hb => by rw [hasymm a b (hpair.2.2 a ha b hb)]; decide
  have htake : (l.take k).countP (less · a) < (l.take k).length := by
    refine lt_of_le_of_ne List.countP_le_length fun hall => ?_
    rw [List.countP_eq_length.mp hall a ha] at hself
    cases hself
  calc l.countP (less · a)
      = (l.take k).countP (less · a) + (l.drop k).countP (less · a) := by
        rw [← List.countP_append, hsplit]
    _ = (l.take k).countP (less · a) := by rw [hdrop, Nat.add_zero]
    _ < (l.take k).length := htake
    _ ≤ k := List.length_take_le k l

end Ranked

/-! ## The counts -/

/-- `models.AnalyticsPoint`. -/
structure Point where
  key : Str
  clicks : Int64
  deriving DecidableEq, Repr

/-- A map from keys to counts, in the order in which a loop meets its entries. -/
structure Counts where
  entries : List Point
  distinct : (entries.map Point.key).Nodup

/-- The comparison that `sort.Slice` is given. -/
def less (a b : Point) : Bool :=
  if a.clicks = b.clicks then decide (a.key < b.key) else decide (b.clicks < a.clicks)

def sorted (counts : Counts) : List Point := counts.entries.mergeSort fun a b => !less b a

def sortedPoints (counts : Counts) (limit : ℕ) : List Point :=
  let points := sorted counts
  if limit < points.length then
    let other := (points.drop (limit - 1)).foldl (fun other point => other + point.clicks) 0
    points.take (limit - 1) ++ [⟨lit "Other", other⟩]
  else points

/-- The sum of the counts, which a machine integer need not hold. -/
def total (points : List Point) : ℤ := (points.map fun p => p.clicks.toInt).sum

/-! ## The order -/

theorem less_iff {a b : Point} : less a b = true ↔
    b.clicks < a.clicks ∨ a.clicks = b.clicks ∧ a.key < b.key := by
  unfold less
  by_cases h : a.clicks = b.clicks
  · rw [if_pos h, decide_eq_true_eq, h]
    constructor
    · exact fun hkey => Or.inr ⟨rfl, hkey⟩
    · rintro (hlt | hkey)
      · exact absurd hlt Int64.lt_irrefl
      · exact hkey.2
  · rw [if_neg h, decide_eq_true_eq]
    constructor
    · exact Or.inl
    · rintro (hlt | hkey)
      · exact hlt
      · exact absurd hkey.1 h

theorem less_asymm (a b : Point) (h : less a b = true) : less b a = false := by
  by_contra hne
  have hback := Bool.not_eq_false _ ▸ hne
  rcases less_iff.mp h with hlt | ⟨heq, hkey⟩
  · rcases less_iff.mp hback with hlt' | ⟨heq', -⟩
    · exact Int64.lt_asymm hlt hlt'
    · exact Int64.lt_irrefl (heq' ▸ hlt)
  · rcases less_iff.mp hback with hlt' | ⟨-, hkey'⟩
    · exact Int64.lt_irrefl (heq ▸ hlt')
    · exact List.lt_asymm hkey hkey'

theorem less_trans {a b c : Point} (hab : less a b = true) (hbc : less b c = true) :
    less a c = true := by
  apply less_iff.mpr
  rcases less_iff.mp hab with hlt | ⟨heq, hkey⟩
  · rcases less_iff.mp hbc with hlt' | ⟨heq', -⟩
    · exact Or.inl (Int64.lt_trans hlt' hlt)
    · exact Or.inl (heq' ▸ hlt)
  · rcases less_iff.mp hbc with hlt' | ⟨heq', hkey'⟩
    · exact Or.inl (heq ▸ hlt')
    · exact Or.inr ⟨heq.trans heq', List.lt_trans hkey hkey'⟩

theorem less_total (a b : Point) : less a b = true ∨ a = b ∨ less b a = true := by
  rcases Std.lt_trichotomy a.clicks b.clicks with hlt | heq | hlt
  · exact Or.inr (Or.inr (less_iff.mpr (Or.inl hlt)))
  · rcases Std.lt_trichotomy a.key b.key with hkey | hkey | hkey
    · exact Or.inl (less_iff.mpr (Or.inr ⟨heq, hkey⟩))
    · refine Or.inr (Or.inl ?_)
      cases a
      cases b
      exact congrArg₂ Point.mk hkey heq
    · exact Or.inr (Or.inr (less_iff.mpr (Or.inr ⟨heq.symm, hkey⟩)))
  · exact Or.inl (less_iff.mpr (Or.inl hlt))

theorem clicks_le_of_less {a b : Point} (h : less a b = true) : b.clicks ≤ a.clicks := by
  rcases less_iff.mp h with hlt | ⟨heq, -⟩
  · exact Int64.le_of_lt hlt
  · exact heq ▸ Int64.le_refl _

theorem sorted_perm (counts : Counts) : (sorted counts).Perm counts.entries :=
  List.mergeSort_perm _ _

/-- Entries have different keys, so the sorted list is strictly descending. -/
theorem sorted_pairwise (counts : Counts) :
    (sorted counts).Pairwise fun a b => less a b = true := by
  have hle : (sorted counts).Pairwise fun a b => (!less b a) = true := by
    refine List.pairwise_mergeSort (fun a b c hab hbc => ?_) (fun a b => ?_) _
    · rw [Bool.not_eq_true'] at hab hbc ⊢
      by_contra hne
      have hca := Bool.not_eq_false _ ▸ hne
      rcases less_total a b with hlt | rfl | hlt
      · rw [less_trans hca hlt] at hbc
        cases hbc
      · rw [hca] at hbc
        cases hbc
      · rw [hlt] at hab
        cases hab
    · rcases less_total a b with hlt | rfl | hlt
      · rw [less_asymm a b hlt]
        rfl
      · rw [Bool.or_self, Bool.not_eq_true']
        by_contra hne
        exact hne (less_asymm a a (Bool.not_eq_false _ ▸ hne))
      · rw [less_asymm b a hlt, Bool.not_false, Bool.or_true]
  have hdistinct : (sorted counts).Pairwise fun a b => a.key ≠ b.key :=
    List.pairwise_map.mp (((sorted_perm counts).map Point.key).nodup_iff.mpr counts.distinct)
  refine (hle.and hdistinct).imp ?_
  rintro a b ⟨hnot, hkey⟩
  rcases less_total a b with hlt | rfl | hlt
  · exact hlt
  · exact absurd rfl hkey
  · rw [hlt] at hnot
    cases hnot

/-- The order of the entries in the map makes no difference, nor would another sort. -/
theorem sorted_unique {counts : Counts} {points : List Point} (hperm : points.Perm counts.entries)
    (h : points.Pairwise fun a b => less a b = true) : sorted counts = points := by
  refine List.Perm.eq_of_pairwise (fun a b _ _ hab hba => ?_) (sorted_pairwise counts) h
    ((sorted_perm counts).trans hperm.symm)
  rw [less_asymm a b hab] at hba
  cases hba

theorem sortedPoints_perm {counts other : Counts} (h : other.entries.Perm counts.entries)
    (limit : ℕ) : sortedPoints other limit = sortedPoints counts limit := by
  have hsorted : sorted other = sorted counts :=
    sorted_unique ((sorted_perm counts).trans h.symm) (sorted_pairwise counts)
  rw [sortedPoints, sortedPoints, hsorted]

/-! ## Ranks -/

/-- How many entries come before a point. -/
def rank (counts : Counts) (p : Point) : ℕ := counts.entries.countP (less · p)

/-- The entries that `limit - 1` others come before. -/
def tail (counts : Counts) (limit : ℕ) : List Point :=
  counts.entries.filter fun p => limit - 1 ≤ rank counts p

theorem rank_eq (counts : Counts) (p : Point) :
    rank counts p = (sorted counts).countP (less · p) :=
  ((sorted_perm counts).countP_eq _).symm

theorem rank_of_mem_drop {counts : Counts} {k : ℕ} {p : Point}
    (hk : k ≤ (sorted counts).length) (hp : p ∈ (sorted counts).drop k) : k ≤ rank counts p := by
  rw [rank_eq]
  exact countP_of_mem_drop hk (sorted_pairwise counts) hp

theorem rank_of_mem_take {counts : Counts} {k : ℕ} {p : Point}
    (hp : p ∈ (sorted counts).take k) : rank counts p < k := by
  rw [rank_eq]
  exact countP_of_mem_take less_asymm (sorted_pairwise counts) hp

theorem tail_perm {counts : Counts} {limit : ℕ} (hlong : limit < (sorted counts).length) :
    (tail counts limit).Perm ((sorted counts).drop (limit - 1)) := by
  have hsplit := List.take_append_drop (limit - 1) (sorted counts)
  have htake : ((sorted counts).take (limit - 1)).filter
      (fun p => limit - 1 ≤ rank counts p) = [] := by
    apply List.filter_eq_nil_iff.mpr
    intro p hp
    have hrank := rank_of_mem_take hp
    simp only [decide_eq_true_eq]
    omega
  have hdrop : ((sorted counts).drop (limit - 1)).filter
      (fun p => limit - 1 ≤ rank counts p) = (sorted counts).drop (limit - 1) := by
    apply List.filter_eq_self.mpr
    intro p hp
    exact decide_eq_true (rank_of_mem_drop (by omega) hp)
  have hperm := (sorted_perm counts).symm.filter fun p => decide (limit - 1 ≤ rank counts p)
  rw [← hsplit, List.filter_append, htake, hdrop, List.nil_append] at hperm
  exact hperm

/-! ## Sums -/

theorem total_append (points rest : List Point) :
    total (points ++ rest) = total points + total rest := by
  rw [total, List.map_append, List.sum_append]
  rfl

theorem total_cons (p : Point) (points : List Point) :
    total (p :: points) = p.clicks.toInt + total points := by
  rw [total, List.map_cons, List.sum_cons]
  rfl

theorem total_perm {points rest : List Point} (h : points.Perm rest) :
    total points = total rest :=
  (h.map fun p : Point => p.clicks.toInt).sum_eq

theorem total_nonneg {points : List Point} (h : ∀ p ∈ points, 0 ≤ p.clicks) :
    0 ≤ total points := by
  induction points with
  | nil => exact le_rfl
  | cons p points ih =>
    rw [total_cons]
    have hhead : 0 ≤ p.clicks.toInt := Int64.le_iff_toInt_le.mp (h p List.mem_cons_self)
    have htail := ih fun q hq => h q (List.mem_cons_of_mem p hq)
    omega

/-- The loop adds up modulo the width of the integer. -/
theorem toInt_foldl (points : List Point) (other : Int64) :
    (points.foldl (fun other point => other + point.clicks) other).toInt =
      (other.toInt + total points).bmod (2 ^ 64) := by
  induction points generalizing other with
  | nil =>
    have hnil : total [] = 0 := rfl
    rw [hnil, Int.add_zero]
    exact (Int64.toInt_bmod other).symm
  | cons p points ih =>
    rw [List.foldl_cons, ih, Int64.toInt_add, Int.bmod_add_bmod, total_cons, Int.add_assoc]

theorem bmod_eq_self_iff {x : ℤ} (h : 0 ≤ x) : x.bmod (2 ^ 64) = x ↔ x < 2 ^ 63 := by
  constructor
  · intro heq
    have hlt := Int.bmod_lt (x := x) (m := 2 ^ 64) (by decide)
    omega
  · intro hlt
    exact Int.bmod_eq_of_le (by omega) (by omega)

/-! ## The listing -/

/-- What a reader takes the listing for: the first entries with their counts, and the rest of
them as one sum under a name of its own. -/
structure Faithful (counts : Counts) (limit : ℕ) (points : List Point) : Prop where
  short : points.length ≤ limit
  sum : total points = total counts.entries
  keys : (points.map Point.key).Nodup
  listed : ∃ listed merged, (listed ++ merged).Perm counts.entries ∧
    (merged = [] ∧ points = listed ∨
      merged ≠ [] ∧ ∃ clicks, points = listed ++ [⟨lit "Other", clicks⟩]) ∧
    ∀ p ∈ listed, ∀ q ∈ merged, q.clicks ≤ p.clicks
  order : ∀ other : Counts, other.entries.Perm counts.entries → sortedPoints other limit = points

/-- Nothing is merged; or the name of the sum is not among the keys that stay, and the sum is a
machine integer. -/
def Separate (counts : Counts) (limit : ℕ) : Prop :=
  counts.entries.length ≤ limit ∨
    (∀ p ∈ counts.entries, p.key = lit "Other" → limit - 1 ≤ rank counts p) ∧
      total (tail counts limit) < 2 ^ 63

theorem length_sorted (counts : Counts) : (sorted counts).length = counts.entries.length :=
  (sorted_perm counts).length_eq

theorem nodup_sorted (counts : Counts) : ((sorted counts).map Point.key).Nodup :=
  ((sorted_perm counts).map Point.key).nodup_iff.mpr counts.distinct

theorem faithful_of_short {counts : Counts} {limit : ℕ} (h : counts.entries.length ≤ limit) :
    Faithful counts limit (sortedPoints counts limit) := by
  have hpoints : sortedPoints counts limit = sorted counts := by
    rw [sortedPoints, length_sorted, if_neg (Nat.not_lt.mpr h)]
  constructor
  · rw [hpoints, length_sorted]
    exact h
  · rw [hpoints]
    exact total_perm (sorted_perm counts)
  · rw [hpoints]
    exact nodup_sorted counts
  · refine ⟨sorted counts, [], ?_, Or.inl ⟨rfl, hpoints⟩, fun p _ q hq => ?_⟩
    · rw [List.append_nil]
      exact sorted_perm counts
    · cases hq
  · intro other hother
    exact sortedPoints_perm hother limit

section Long

variable {counts : Counts} {limit : ℕ}

/-- What the last point of a long listing counts. -/
def other (counts : Counts) (limit : ℕ) : Int64 :=
  ((sorted counts).drop (limit - 1)).foldl (fun other point => other + point.clicks) 0

theorem sortedPoints_long (h : limit < counts.entries.length) :
    sortedPoints counts limit =
      (sorted counts).take (limit - 1) ++ [⟨lit "Other", other counts limit⟩] := by
  rw [sortedPoints, length_sorted, if_pos h]
  rfl

theorem toInt_other (h : limit < counts.entries.length) :
    (other counts limit).toInt = (total (tail counts limit)).bmod (2 ^ 64) := by
  rw [other, toInt_foldl, total_perm (tail_perm (length_sorted counts ▸ h))]
  exact congrArg (Int.bmod · (2 ^ 64)) (Int.zero_add _)

theorem total_sortedPoints (h : limit < counts.entries.length) :
    total (sortedPoints counts limit) = total counts.entries -
      total (tail counts limit) + (other counts limit).toInt := by
  have hsplit := List.take_append_drop (limit - 1) (sorted counts)
  have hsum : total counts.entries =
      total ((sorted counts).take (limit - 1)) + total (tail counts limit) := by
    rw [total_perm (tail_perm (length_sorted counts ▸ h)), ← total_append, hsplit]
    exact total_perm (sorted_perm counts).symm
  have hlast : total [⟨lit "Other", other counts limit⟩] = (other counts limit).toInt :=
    List.sum_singleton
  rw [sortedPoints_long h, total_append, hlast, hsum]
  omega

theorem total_sortedPoints_iff (hcounts : ∀ p ∈ counts.entries, 0 ≤ p.clicks)
    (h : limit < counts.entries.length) :
    total (sortedPoints counts limit) = total counts.entries ↔
      total (tail counts limit) < 2 ^ 63 := by
  have hnonneg : 0 ≤ total (tail counts limit) :=
    total_nonneg fun p hp => hcounts p (List.mem_of_mem_filter hp)
  rw [← bmod_eq_self_iff hnonneg, ← toInt_other h, total_sortedPoints h]
  omega

/-- The name of the sum is a key that stays exactly when too few others come before it. -/
theorem nodup_sortedPoints_iff (h : limit < counts.entries.length) :
    ((sortedPoints counts limit).map Point.key).Nodup ↔
      ∀ p ∈ counts.entries, p.key = lit "Other" → limit - 1 ≤ rank counts p := by
  have hlong : limit - 1 ≤ (sorted counts).length := by
    rw [length_sorted]
    omega
  have htake : (((sorted counts).take (limit - 1)).map Point.key).Nodup :=
    (nodup_sorted counts).sublist ((List.take_sublist _ _).map _)
  rw [sortedPoints_long h, List.map_append, List.nodup_append']
  constructor
  · intro hnodup p hp hkey
    have hmem := (sorted_perm counts).mem_iff.mpr hp
    rw [← List.take_append_drop (limit - 1) (sorted counts), List.mem_append] at hmem
    rcases hmem with hstays | htail
    · have hclash := hnodup.2.2 (List.mem_map_of_mem hstays)
      rw [hkey] at hclash
      exact absurd List.mem_cons_self hclash
    · exact rank_of_mem_drop hlong htail
  · intro hother
    refine ⟨htake, List.nodup_singleton _, fun key hkey hlast => ?_⟩
    obtain ⟨p, hp, rfl⟩ := List.mem_map.mp hkey
    have hrank := hother p ((sorted_perm counts).mem_iff.mp (List.mem_of_mem_take hp))
      (List.mem_singleton.mp hlast)
    have hless := rank_of_mem_take hp
    omega

theorem faithful_of_long (hcounts : ∀ p ∈ counts.entries, 0 ≤ p.clicks) (hlimit : 1 ≤ limit)
    (h : limit < counts.entries.length)
    (hkeys : ∀ p ∈ counts.entries, p.key = lit "Other" → limit - 1 ≤ rank counts p)
    (hsum : total (tail counts limit) < 2 ^ 63) :
    Faithful counts limit (sortedPoints counts limit) := by
  have hsplit := List.take_append_drop (limit - 1) (sorted counts)
  have hpairwise := sorted_pairwise counts
  rw [← hsplit, List.pairwise_append] at hpairwise
  constructor
  · rw [sortedPoints_long h, List.length_append, List.length_take, List.length_singleton]
    omega
  · exact (total_sortedPoints_iff hcounts h).mpr hsum
  · exact (nodup_sortedPoints_iff h).mpr hkeys
  · refine ⟨_, (sorted counts).drop (limit - 1), ?_, Or.inr ⟨?_, _, sortedPoints_long h⟩, ?_⟩
    · rw [hsplit]
      exact sorted_perm counts
    · apply List.ne_nil_of_length_pos
      rw [List.length_drop, length_sorted]
      omega
    · intro p hp q hq
      exact clicks_le_of_less (hpairwise.2.2 p hp q hq)
  · intro other hother
    exact sortedPoints_perm hother limit

end Long

/-- The listing is faithful unless a label of the name `Other` stays beside the sum, or the sum
is too large. -/
theorem sortedPoints_faithful_iff (counts : Counts) (limit : ℕ)
    (hcounts : ∀ p ∈ counts.entries, 0 ≤ p.clicks) (hlimit : 1 ≤ limit) :
    Faithful counts limit (sortedPoints counts limit) ↔ Separate counts limit := by
  constructor
  · intro hfaithful
    by_cases h : counts.entries.length ≤ limit
    · exact Or.inl h
    · have hlong := Nat.not_le.mp h
      exact Or.inr ⟨(nodup_sortedPoints_iff hlong).mp hfaithful.keys,
        (total_sortedPoints_iff hcounts hlong).mp hfaithful.sum⟩
  · rintro (hshort | ⟨hkeys, hsum⟩)
    · exact faithful_of_short hshort
    · by_cases h : counts.entries.length ≤ limit
      · exact faithful_of_short h
      · exact faithful_of_long hcounts hlimit (Nat.not_le.mp h) hkeys hsum

def fourCounts : Counts where
  entries := [⟨lit "c", 6⟩, ⟨lit "a", 10⟩, ⟨lit "d", 4⟩, ⟨lit "b", 8⟩]
  distinct := by decide

theorem sortedPoints_faithful_four : Faithful fourCounts 3 (sortedPoints fourCounts 3) :=
  (sortedPoints_faithful_iff fourCounts 3 (by decide) (by decide)).mpr
    (Or.inr ⟨by decide, by decide⟩)

/-- Eleven sources of a period, most of whose visits are labelled `Other` by a campaign. -/
def labelledCounts : Counts where
  entries := [⟨lit "Other", 40⟩, ⟨lit "a", 10⟩, ⟨lit "b", 9⟩, ⟨lit "c", 8⟩, ⟨lit "d", 7⟩,
    ⟨lit "e", 6⟩, ⟨lit "f", 5⟩, ⟨lit "g", 4⟩, ⟨lit "h", 3⟩, ⟨lit "i", 2⟩, ⟨lit "j", 1⟩]
  distinct := by decide

/-- The label and the sum stand side by side under one key. -/
theorem other_listed_twice : ¬ Faithful labelledCounts 10 (sortedPoints labelledCounts 10) := by
  intro h
  have hsorted : sorted labelledCounts = labelledCounts.entries :=
    sorted_unique (List.Perm.refl _) (by decide)
  have hlong : 10 < labelledCounts.entries.length := by decide
  have hkeys := h.keys
  rw [sortedPoints_long hlong, hsorted] at hkeys
  revert hkeys
  decide

/-! ## The figures of a report -/

def Point.figure (p : Point) : AnalyticsPoint := ⟨p.key, p.clicks.toInt⟩

def Counts.figures (counts : Counts) : ReportFigures.Counts where
  rows := counts.entries.map Point.figure
  distinct := List.pairwise_map.mpr (List.pairwise_map.mp counts.distinct)

theorem before_figure (a b : Point) :
    ReportFigures.before a.figure b.figure = less a b := by
  have heq : a.figure.clicks = b.figure.clicks ↔ a.clicks = b.clicks := Int64.toInt_inj
  have hlt : b.figure.clicks < a.figure.clicks ↔ b.clicks < a.clicks :=
    Int64.lt_iff_toInt_lt.symm
  unfold ReportFigures.before less
  by_cases h : a.clicks = b.clicks
  · rw [if_pos h, if_pos (heq.mpr h)]
    rfl
  · rw [if_neg h, if_neg (mt heq.mp h)]
    exact decide_eq_decide.mpr hlt

theorem sorted_figures (counts : Counts) :
    counts.figures.rows.mergeSort (fun a b => !ReportFigures.before b a) =
      (sorted counts).map Point.figure :=
  (List.map_mergeSort fun a _ b _ => by rw [before_figure]).symm

theorem clicksOf_figures (points : List Point) :
    ReportFigures.clicksOf (points.map Point.figure) = total points := by
  rw [ReportFigures.clicksOf, List.map_map]
  rfl

/-- On counts whose sum is a machine integer the listing is the one the report shows. -/
theorem sortedPoints_figures {counts : Counts} (hcounts : ∀ p ∈ counts.entries, 0 ≤ p.clicks)
    (hsum : total counts.entries < 2 ^ 63) {limit : ℕ} :
    (sortedPoints counts limit).map Point.figure =
      ReportFigures.sortedPoints counts.figures limit := by
  unfold ReportFigures.sortedPoints
  dsimp only
  rw [sorted_figures, List.length_map]
  by_cases hlong : limit < counts.entries.length
  · rw [if_pos (length_sorted counts ▸ hlong), sortedPoints_long hlong, List.map_append,
      List.map_take, ← List.map_drop]
    have htail : total (tail counts limit) ≤ total counts.entries := by
      have hsplit := total_perm (List.filter_append_perm
        (fun p => decide (limit - 1 ≤ rank counts p)) counts.entries)
      rw [total_append] at hsplit
      have hrest : 0 ≤ total (counts.entries.filter fun p => !decide (limit - 1 ≤ rank counts p)) :=
        total_nonneg fun p hp => hcounts p (List.mem_of_mem_filter hp)
      rw [tail]
      omega
    have hnonneg : 0 ≤ total (tail counts limit) :=
      total_nonneg fun p hp => hcounts p (List.mem_of_mem_filter hp)
    have hother : (other counts limit).toInt =
        ReportFigures.clicksOf (((sorted counts).drop (limit - 1)).map Point.figure) := by
      rw [toInt_other hlong, (bmod_eq_self_iff hnonneg).mpr (by omega), clicksOf_figures]
      exact total_perm (tail_perm (length_sorted counts ▸ hlong))
    rw [ReportFigures.clicksOf] at hother
    rw [← hother]
    rfl
  · rw [if_neg (length_sorted counts ▸ hlong), sortedPoints, if_neg (length_sorted counts ▸ hlong)]

end LongTail
