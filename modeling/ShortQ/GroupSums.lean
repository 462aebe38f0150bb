import Mathlib.Algebra.BigOperators.Group.List.Basic
import Mathlib.Algebra.Ring.Int.Defs
import Mathlib.Data.List.Dedup

/-! # Sums by group

The rows of a query grouped by a column, each group with the sum of another column. Where every
row counts the events of its key, the sums count events. -/
namespace GroupSums

variable {ρ κ ι ε : Type*}

def sum (value : ρ → ℤ) (rows : List ρ) : ℤ := (rows.map value).sum

section

variable [DecidableEq κ] (column : ρ → κ) (value : ρ → ℤ)

/-- The values of the column, each once. -/
def groups (rows : List ρ) : List κ := (rows.map column).dedup

def groupSum (rows : List ρ) (k : κ) : ℤ := sum value (rows.filter fun r => column r = k)

theorem mem_groups {rows : List ρ} {k : κ} : k ∈ groups column rows ↔ ∃ r ∈ rows, column r = k := by
  rw [groups, List.mem_dedup, List.mem_map]

theorem nodup_groups (rows : List ρ) : (groups column rows).Nodup := List.nodup_dedup _

end

/-- One value among keys that differ. -/
theorem sum_single [DecidableEq κ] {ks : List κ} (hks : ks.Nodup) {k : κ} (hk : k ∈ ks) (v : ℤ) :
    (ks.map fun k' => if k = k' then v else 0).sum = v := by
  induction ks with
  | nil => cases hk
  | cons a ks ih =>
    obtain ⟨ha, hks⟩ := List.nodup_cons.mp hks
    rw [List.map_cons, List.sum_cons]
    by_cases heq : k = a
    · subst heq
      have hzero : (ks.map fun k' => if k = k' then v else 0).sum = 0 := by
        apply List.sum_eq_zero
        intro x hx
        obtain ⟨k', hk', rfl⟩ := List.mem_map.mp hx
        refine if_neg fun h => ha ?_
        rw [h]
        exact hk'
      rw [if_pos rfl, hzero, add_zero]
    · rw [if_neg heq, zero_add]
      exact ih hks ((List.mem_cons.mp hk).resolve_left heq)

theorem groupSum_cons [DecidableEq κ] (column : ρ → κ) (value : ρ → ℤ) (r : ρ) (rows : List ρ)
    (k : κ) : groupSum column value (r :: rows) k =
      (if column r = k then value r else 0) + groupSum column value rows k := by
  unfold groupSum sum
  by_cases h : column r = k
  · rw [List.filter_cons_of_pos (by simpa using h), List.map_cons, List.sum_cons, if_pos h]
  · rw [List.filter_cons_of_neg (by simpa using h), if_neg h, zero_add]

theorem sum_keys [DecidableEq κ] (column : ρ → κ) (value : ρ → ℤ) {ks : List κ} (hks : ks.Nodup)
    (rows : List ρ) (hall : ∀ r ∈ rows, column r ∈ ks) :
    (ks.map (groupSum column value rows)).sum = sum value rows := by
  induction rows with
  | nil =>
    apply List.sum_eq_zero
    intro x hx
    obtain ⟨k, -, rfl⟩ := List.mem_map.mp hx
    rfl
  | cons r rows ih =>
    obtain ⟨hr, hrows⟩ := List.forall_mem_cons.mp hall
    have hsplit : groupSum column value (r :: rows) =
        fun k => (if column r = k then value r else 0) + groupSum column value rows k :=
      funext (groupSum_cons column value r rows)
    rw [hsplit, List.sum_map_add, sum_single hks hr, ih hrows, sum, sum, List.map_cons,
      List.sum_cons]

/-- The sums of the groups add up to the sum of all rows. -/
theorem sum_groups [DecidableEq κ] (column : ρ → κ) (value : ρ → ℤ) (rows : List ρ) :
    ((groups column rows).map (groupSum column value rows)).sum = sum value rows :=
  sum_keys column value (nodup_groups column rows) rows fun r hr =>
    (mem_groups column).mpr ⟨r, hr, rfl⟩

/-- Every event has a key among the rows, and every row counts the events of its key. -/
structure Counts [DecidableEq ι] (rows : List ρ) (key : ρ → ι) (value : ρ → ℤ) (events : List ε)
    (target : ε → Option ι) : Prop where
  distinct : (rows.map key).Nodup
  value : ∀ r ∈ rows, value r = (events.countP fun e => target e = some (key r) : ℕ)
  present : ∀ e ∈ events, ∃ r ∈ rows, target e = some (key r)

/-- Of rows with different keys one at most is hit. -/
theorem sum_hit [DecidableEq ι] {rows : List ρ} {key : ρ → ι} (hdistinct : (rows.map key).Nodup)
    {r : ρ} (hr : r ∈ rows) (p : ι → Bool) :
    sum (fun r' => if key r = key r' then 1 else 0) (rows.filter fun r' => p (key r')) =
      if p (key r) then 1 else 0 := by
  have hmap : (rows.filter fun r' => p (key r')).map key = (rows.map key).filter p := by
    rw [List.filter_map]
    rfl
  have hsum : sum (fun r' => if key r = key r' then (1 : ℤ) else 0)
      (rows.filter fun r' => p (key r')) =
      (((rows.map key).filter p).map fun k => if key r = k then (1 : ℤ) else 0).sum := by
    rw [← hmap, List.map_map]
    rfl
  rw [hsum]
  by_cases hp : p (key r) = true
  · rw [if_pos hp]
    exact sum_single (hdistinct.filter p) (List.mem_filter.mpr ⟨List.mem_map_of_mem hr, hp⟩) 1
  · rw [if_neg hp]
    apply List.sum_eq_zero
    intro x hx
    obtain ⟨k, hk, rfl⟩ := List.mem_map.mp hx
    refine if_neg fun h => hp ?_
    rw [h]
    exact (List.mem_filter.mp hk).2

theorem sum_countP [DecidableEq ι] {rows : List ρ} {key : ρ → ι}
    (hdistinct : (rows.map key).Nodup) (target : ε → Option ι) (events : List ε)
    (hpresent : ∀ e ∈ events, ∃ r ∈ rows, target e = some (key r)) (p : ι → Bool) :
    sum (fun r => ((events.countP fun e => target e = some (key r) : ℕ) : ℤ))
        (rows.filter fun r => p (key r)) =
      (events.countP fun e => (target e).any p : ℕ) := by
  induction events with
  | nil =>
    apply List.sum_eq_zero
    intro x hx
    obtain ⟨r, -, rfl⟩ := List.mem_map.mp hx
    rfl
  | cons e events ih =>
    obtain ⟨⟨r, hr, htarget⟩, hpresent⟩ := List.forall_mem_cons.mp hpresent
    have hcons : (fun r' => (((e :: events).countP fun e => target e = some (key r') : ℕ) : ℤ)) =
        fun r' => ((events.countP fun e => target e = some (key r') : ℕ) : ℤ) +
          if key r = key r' then 1 else 0 := by
      funext r'
      rw [List.countP_cons, htarget]
      by_cases h : key r = key r'
      · simp [h]
      · simp [h]
    rw [hcons, sum, List.sum_map_add, List.countP_cons, htarget, Option.any_some, Nat.cast_add]
    have hhit := sum_hit hdistinct hr p
    rw [sum] at hhit
    rw [hhit, ← ih hpresent, sum]
    split <;> rfl

/-- The rows that meet a condition count the events that meet it. -/
theorem Counts.sum_filter [DecidableEq ι] {rows : List ρ} {key : ρ → ι} {value : ρ → ℤ}
    {events : List ε} {target : ε → Option ι} (h : Counts rows key value events target)
    (p : ι → Bool) : sum value (rows.filter fun r => p (key r)) =
      (events.countP fun e => (target e).any p : ℕ) := by
  rw [← sum_countP h.distinct target events h.present p]
  apply congrArg List.sum
  exact List.map_congr_left fun r hr => h.value r (List.mem_filter.mp hr).1

/-- A group counts the events of its value. -/
theorem Counts.groupSum_filter [DecidableEq ι] [DecidableEq κ] {rows : List ρ} {key : ρ → ι}
    {value : ρ → ℤ} {events : List ε} {target : ε → Option ι}
    (h : Counts rows key value events target) (p : ι → Bool) (column : ι → κ) (k : κ) :
    groupSum (fun r => column (key r)) value (rows.filter fun r => p (key r)) k =
      (events.countP fun e => (target e).any fun i => p i && column i = k : ℕ) := by
  rw [← h.sum_filter fun i => p i && decide (column i = k), groupSum, List.filter_filter]
  refine congrArg (sum value) (List.filter_congr fun r _ => ?_)
  exact Bool.and_comm _ _

end GroupSums
