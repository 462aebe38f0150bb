import Mathlib.Data.List.Pairwise
import Mathlib.Data.List.Sort
import Mathlib.Logic.Function.Basic

/-! # Queries that keep one row a group

`SELECT DISTINCT ON (key) .. ORDER BY key, ..` beside one `ORDER BY .. LIMIT 1` for each key, and
the map a caller fills from the rows. -/
namespace DistinctOn

variable {ρ κ β : Type*} [DecidableEq κ]

/-- The rows but those with the key of the row before them. -/
def after (key : ρ → κ) : Option κ → List ρ → List ρ
  | _, [] => []
  | previous, r :: rest =>
    if previous = some (key r) then after key previous rest
    else r :: after key (some (key r)) rest

def distinctOn (key : ρ → κ) (rows : List ρ) : List ρ := after key none rows

theorem after_sublist (key : ρ → κ) (previous : Option κ) (rows : List ρ) :
    (after key previous rows).Sublist rows := by
  induction rows generalizing previous with
  | nil => exact List.Sublist.refl _
  | cons r rest ih =>
    rw [after]
    split
    · exact (ih previous).cons r
    · exact (ih (some (key r))).cons_cons r

theorem find_after (key : ρ → κ) {previous : Option κ} {k : κ} (rows : List ρ)
    (h : previous ≠ some k) :
    (after key previous rows).find? (key · = k) = rows.find? (key · = k) := by
  induction rows generalizing previous with
  | nil => rfl
  | cons r rest ih =>
    rw [after]
    by_cases hkey : key r = k
    · rw [if_neg (by rw [hkey]; exact h), List.find?_cons_of_pos (by simpa using hkey),
        List.find?_cons_of_pos (by simpa using hkey)]
    · rw [List.find?_cons_of_neg (by simpa using hkey)]
      split
      · exact ih h
      · rw [List.find?_cons_of_neg (by simpa using hkey)]
        exact ih (by simpa using hkey)

/-- The first row of a key is the one that is kept. -/
theorem find_distinctOn (key : ρ → κ) (k : κ) (rows : List ρ) :
    (distinctOn key rows).find? (key · = k) = rows.find? (key · = k) :=
  find_after key rows (by simp)

/-- Rows of one key stand together. -/
def Grouped (le : κ → κ → Prop) (key : ρ → κ) (rows : List ρ) : Prop :=
  rows.Pairwise fun a b => le (key a) (key b)

theorem after_fresh {le : κ → κ → Prop} (antisymm : ∀ a b, le a b → le b a → a = b)
    {key : ρ → κ} {k : κ} {rows : List ρ} (hrows : Grouped le key rows)
    (hle : ∀ r ∈ rows, le k (key r)) : ∀ r ∈ after key (some k) rows, key r ≠ k := by
  induction rows with
  | nil =>
    intro r hr
    cases hr
  | cons r rest ih =>
    obtain ⟨hhead, htail⟩ := List.pairwise_cons.mp hrows
    intro x hx
    rw [after] at hx
    split at hx
    · exact ih htail (fun y hy => hle y (List.mem_cons_of_mem r hy)) x hx
    · rename_i hne
      have hrk : key r ≠ k := fun heq => hne (by rw [heq])
      rcases List.mem_cons.mp hx with rfl | hx
      · exact hrk
      · intro heq
        have hback : le (key r) k :=
          heq ▸ hhead x ((after_sublist key _ rest).subset hx)
        exact hrk (antisymm _ _ hback (hle r List.mem_cons_self))

/-- Of rows in the order of their keys, one of each key is kept. -/
theorem distinctOn_pairwise {le : κ → κ → Prop} (antisymm : ∀ a b, le a b → le b a → a = b)
    {key : ρ → κ} {rows : List ρ} (hrows : Grouped le key rows) :
    (distinctOn key rows).Pairwise fun a b => key a ≠ key b := by
  have hall : ∀ previous, (after key previous rows).Pairwise fun a b => key a ≠ key b := by
    induction rows with
    | nil => exact fun _ => List.Pairwise.nil
    | cons r rest ih =>
      obtain ⟨hhead, htail⟩ := List.pairwise_cons.mp hrows
      intro previous
      rw [after]
      split
      · exact ih htail previous
      · apply List.Pairwise.cons
        · intro x hx
          exact (after_fresh antisymm htail hhead x hx).symm
        · exact ih htail _
  exact hall none

/-- The loop `for rows.Next() { out[key] = value }`. -/
def collect (key : ρ → κ) (value : ρ → β) (rows : List ρ) : κ → Option β :=
  rows.foldl (fun out r => Function.update out (key r) (some (value r))) fun _ => none

theorem foldl_update (key : ρ → κ) (value : ρ → β) {rows : List ρ}
    (hdistinct : rows.Pairwise fun a b => key a ≠ key b) (out : κ → Option β) (k : κ) :
    rows.foldl (fun out r => Function.update out (key r) (some (value r))) out k
      = ((rows.find? (key · = k)).map value).or (out k) := by
  induction rows generalizing out with
  | nil => rfl
  | cons r rest ih =>
    obtain ⟨hhead, htail⟩ := List.pairwise_cons.mp hdistinct
    rw [List.foldl_cons, ih htail]
    by_cases hkey : key r = k
    · have hnone : rest.find? (key · = k) = none := by
        rw [List.find?_eq_none]
        intro x hx
        simpa using fun heq => hhead x hx (hkey.trans heq.symm)
      rw [hnone, List.find?_cons_of_pos (by simpa using hkey), hkey, Function.update_self]
      rfl
    · rw [List.find?_cons_of_neg (by simpa using hkey), Function.update_of_ne (Ne.symm hkey)]

theorem collect_distinct (key : ρ → κ) (value : ρ → β) {rows : List ρ}
    (hdistinct : rows.Pairwise fun a b => key a ≠ key b) (k : κ) :
    collect key value rows k = (rows.find? (key · = k)).map value := by
  rw [collect, foldl_update key value hdistinct, Option.or_none]

/-- Where the rows of a key all carry one value, the map holds it. -/
theorem foldl_update_of_forall (key : ρ → κ) (value : ρ → β) {rows : List ρ} {k : κ} {v : β}
    (h : ∀ r ∈ rows, key r = k → value r = v) (out : κ → Option β) :
    rows.foldl (fun out r => Function.update out (key r) (some (value r))) out k
      = if ∃ r ∈ rows, key r = k then some v else out k := by
  induction rows generalizing out with
  | nil => simp
  | cons r rest ih =>
    rw [List.foldl_cons, ih fun x hx => h x (List.mem_cons_of_mem r hx)]
    by_cases hrest : ∃ x ∈ rest, key x = k
    · rw [if_pos hrest, if_pos (by simp [hrest])]
    · rw [if_neg hrest]
      by_cases hkey : key r = k
      · rw [if_pos ⟨r, List.mem_cons_self, hkey⟩, ← hkey, Function.update_self,
          h r List.mem_cons_self hkey]
      · rw [Function.update_of_ne (Ne.symm hkey), if_neg]
        rintro ⟨x, hx, hxk⟩
        rcases List.mem_cons.mp hx with rfl | hx
        · exact hkey hxk
        · exact hrest ⟨x, hx, hxk⟩

/-- The chosen rows of a sorted list are the chosen rows, sorted by what the order says of them. -/
theorem filter_mergeSort {le le' : ρ → ρ → Bool} {p : ρ → Bool} {rows : List ρ}
    (trans : ∀ a b c, le a b = true → le b c = true → le a c = true)
    (total : ∀ a b, (le a b || le b a) = true)
    (trans' : ∀ a b c, le' a b = true → le' b c = true → le' a c = true)
    (total' : ∀ a b, (le' a b || le' b a) = true)
    (agree : ∀ a b, p a = true → p b = true → le a b = true → le' a b = true)
    (antisymm : ∀ a ∈ rows.filter p, ∀ b ∈ rows.filter p,
      le' a b = true → le' b a = true → a = b) :
    (rows.mergeSort le).filter p = (rows.filter p).mergeSort le' := by
  have hsorted : ((rows.mergeSort le).filter p).Pairwise fun a b => le' a b = true := by
    apply ((List.pairwise_mergeSort trans total rows).filter p).imp_of_mem
    intro a b ha hb hab
    exact agree a b (List.mem_filter.mp ha).2 (List.mem_filter.mp hb).2 hab
  refine List.Perm.eq_of_pairwise ?_ hsorted (List.pairwise_mergeSort trans' total' _) ?_
  · intro a b ha hb hab hba
    obtain ⟨hrow, hchosen⟩ := List.mem_filter.mp ha
    exact antisymm a (List.mem_filter.mpr ⟨List.mem_mergeSort.mp hrow, hchosen⟩) b
      (List.mem_mergeSort.mp hb) hab hba
  · exact ((List.mergeSort_perm rows le).filter p).trans (List.mergeSort_perm _ le').symm

end DistinctOn
