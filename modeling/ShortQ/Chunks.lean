import Mathlib.Data.List.Basic
import Mathlib.Data.List.Nodup

/-! # Lists in chunks

The loop `for start := 0; start < len(xs); start += size` with `end` cut at the length, the slices
`xs[start:end]` it visits, and what visiting them does to distinct keys. -/
namespace Chunks

variable {α β κ : Type*}

/-- The pairs of `start` and `end` of the next rounds. -/
def bounds (size length : ℕ) : ℕ → ℕ → List (ℕ × ℕ)
  | 0, _ => []
  | rounds + 1, start =>
    if start < length then
      (start, if length < start + size then length else start + size) ::
        bounds size length rounds (start + size)
    else []

/-- The expression `xs[start:end]`. -/
def slice (xs : List α) (bound : ℕ × ℕ) : List α := (xs.take bound.2).drop bound.1

/-- A loop over a list takes fewer rounds than the list has elements. -/
def slices (size : ℕ) (xs : List α) : List (List α) :=
  (bounds size xs.length xs.length 0).map (slice xs)

theorem flatten_bounds {size : ℕ} (hsize : 0 < size) (xs : List α) (rounds start : ℕ)
    (h : xs.length ≤ start + rounds) :
    ((bounds size xs.length rounds start).map (slice xs)).flatten = xs.drop start := by
  induction rounds generalizing start with
  | zero => exact (List.drop_eq_nil_of_le h).symm
  | succ rounds ih =>
    rw [bounds]
    split
    · have hrest := ih (start + size) (by omega)
      rw [List.map_cons, List.flatten_cons, hrest, slice]
      split
      · rename_i hlast
        rw [List.take_of_length_le (Nat.le_refl _), List.drop_eq_nil_of_le (Nat.le_of_lt hlast),
          List.append_nil]
      · rw [List.drop_take, Nat.add_sub_cancel_left, ← List.drop_drop, List.take_append_drop]
    · rename_i hend
      rw [List.drop_eq_nil_of_le (Nat.le_of_not_lt hend)]
      rfl

/-- The slices are the list. -/
theorem flatten_slices {size : ℕ} (hsize : 0 < size) (xs : List α) :
    (slices size xs).flatten = xs :=
  (flatten_bounds hsize xs xs.length 0 (by omega)).trans List.drop_zero

theorem length_bounds {size : ℕ} (hsize : 0 < size) (length rounds start : ℕ)
    (h : length ≤ start + rounds) :
    (bounds size length rounds start).length = (length - start + (size - 1)) / size := by
  induction rounds generalizing start with
  | zero =>
    have hnone : length - start = 0 := Nat.sub_eq_zero_of_le h
    rw [hnone, Nat.zero_add, Nat.div_eq_of_lt (by omega)]
    rfl
  | succ rounds ih =>
    rw [bounds]
    split
    · rw [List.length_cons, ih (start + size) (by omega)]
      by_cases hlast : length ≤ start + size
      · have hone : length - start + (size - 1) = length - start - 1 + size := by omega
        rw [Nat.sub_eq_zero_of_le hlast, Nat.zero_add, Nat.div_eq_of_lt (by omega), hone,
          Nat.add_div_right _ hsize, Nat.div_eq_of_lt (by omega)]
      · have hmore : length - start + (size - 1) = length - (start + size) + (size - 1) + size := by
          omega
        rw [hmore, Nat.add_div_right _ hsize]
    · rename_i hend
      rw [Nat.sub_eq_zero_of_le (Nat.le_of_not_lt hend), Nat.zero_add, Nat.div_eq_of_lt (by omega)]
      rfl

/-- A bound names as many elements as it says. -/
theorem length_slice {size : ℕ} (xs : List α) (rounds start : ℕ) :
    ∀ bound ∈ bounds size xs.length rounds start, (slice xs bound).length = bound.2 - bound.1 := by
  induction rounds generalizing start with
  | zero =>
    intro bound hbound
    cases hbound
  | succ rounds ih =>
    intro bound hbound
    rw [bounds] at hbound
    split at hbound
    · rcases List.mem_cons.mp hbound with rfl | hbound
      · rw [slice, List.length_drop, List.length_take]
        dsimp only
        split <;> omega
      · exact ih (start + size) bound hbound
    · cases hbound

/-! ## Distinct keys -/

theorem flatMap_absent [DecidableEq κ] {chunks : List (List κ)} {k : κ} (h : k ∉ chunks.flatten)
    (x : List β) : chunks.flatMap (fun chunk => if k ∈ chunk then x else []) = [] := by
  rw [List.flatMap_eq_nil_iff]
  intro chunk hchunk
  rw [if_neg fun hk => h (List.mem_flatten.mpr ⟨chunk, hchunk, hk⟩)]

/-- Of distinct keys each is met in one chunk. -/
theorem flatMap_once [DecidableEq κ] {chunks : List (List κ)} (hdistinct : chunks.flatten.Nodup)
    {k : κ} (hk : k ∈ chunks.flatten) (x : List β) :
    chunks.flatMap (fun chunk => if k ∈ chunk then x else []) = x := by
  induction chunks with
  | nil => cases hk
  | cons chunk rest ih =>
    rw [List.flatten_cons] at hdistinct hk
    obtain ⟨-, hrest, hdisjoint⟩ := List.nodup_append'.mp hdistinct
    rw [List.flatMap_cons]
    by_cases hchunk : k ∈ chunk
    · rw [if_pos hchunk, flatMap_absent (fun hin => hdisjoint hchunk hin), List.append_nil]
    · rw [if_neg hchunk, List.nil_append]
      exact ih hrest ((List.mem_append.mp hk).resolve_left hchunk)

/-! ## Rows scattered by position -/

/-- The loop `for _, index := range positions { xs[index] = f(xs[index]) }`. -/
def modifyAll (f : α → α) (positions : List ℕ) (xs : List α) : List α :=
  positions.foldl (fun xs index => xs.modify index f) xs

theorem getElem_modifyAll (f : α → α) {positions : List ℕ} (hdistinct : positions.Nodup)
    (xs : List α) (i : ℕ) :
    (modifyAll f positions xs)[i]? = if i ∈ positions then xs[i]?.map f else xs[i]? := by
  induction positions generalizing xs with
  | nil => rfl
  | cons index rest ih =>
    obtain ⟨hindex, hrest⟩ := List.nodup_cons.mp hdistinct
    rw [modifyAll, List.foldl_cons, ← modifyAll, ih hrest, List.getElem?_modify]
    by_cases hi : index = i
    · rw [if_neg (hi ▸ hindex), if_pos (List.mem_cons.mpr (Or.inl hi.symm))]
      cases xs[i]? <;> simp [hi]
    · have hmem : i ∈ index :: rest ↔ i ∈ rest := by
        rw [List.mem_cons, or_iff_right (Ne.symm hi)]
      simp only [hmem]
      cases xs[i]? <;> simp [hi]

/-- Positions that are those of a key change the elements with that key. -/
theorem modifyAll_key [DecidableEq κ] (f : α → α) (key : α → κ) {positions : List ℕ}
    (hdistinct : positions.Nodup) {xs : List α} {k : κ}
    (hpositions : ∀ (i : ℕ) (x : α), xs[i]? = some x → (i ∈ positions ↔ key x = k)) :
    modifyAll f positions xs = xs.map fun x => if key x = k then f x else x := by
  apply List.ext_getElem?
  intro i
  rw [getElem_modifyAll f hdistinct, List.getElem?_map]
  cases hx : xs[i]? with
  | none => simp
  | some x =>
    by_cases hkey : key x = k
    · simp [(hpositions i x hx).mpr hkey, hkey]
    · have hout : i ∉ positions := fun hin => hkey ((hpositions i x hx).mp hin)
      simp [hout, hkey]

end Chunks
