import Mathlib.Algebra.Order.Group.Int
import Mathlib.Data.List.Pairwise
import Mathlib.Data.List.Nodup
import Mathlib.Data.List.Perm.Subperm

/-! # Pages by descending id

A listing is read page by page: each page names the id that the next one starts below, and zero
ends it. The rows that match may change between two pages. -/
namespace CursorPages

variable {α : Type*}

/-- Below the cursor; a cursor that is not positive bounds nothing. -/
def Below (cursor i : ℤ) : Prop := 0 < cursor → i < cursor

/-- What one page holds of the ids that match when it is read. -/
structure Serves (limit : ℕ) (matching : ℤ → Prop) (cursor : ℤ) (ids : List ℤ) (next : ℤ) :
    Prop where
  bounded : ids.length ≤ limit
  descending : ids.Pairwise (· > ·)
  sound : ∀ i ∈ ids, matching i ∧ Below cursor i
  last : next = 0 → ∀ i, matching i → Below cursor i → i ∈ ids
  more : next ≠ 0 → next ∈ ids ∧ (∀ i ∈ ids, next ≤ i) ∧
    ∀ i, matching i → Below cursor i → next ≤ i → i ∈ ids

/-! ## One page -/

section Page

variable {limit : ℕ} {matching : ℤ → Prop} {cursor : ℤ} {all : List ℤ}

theorem getLast_le {ids : List ℤ} (h : ids.Pairwise (· > ·)) {next : ℤ}
    (hlast : ids.getLast? = some next) : next ∈ ids ∧ ∀ i ∈ ids, next ≤ i := by
  obtain ⟨front, rfl⟩ := List.getLast?_eq_some_iff.mp hlast
  refine ⟨List.mem_append_right _ (List.mem_singleton_self next), fun i hi => ?_⟩
  rcases List.mem_append.mp hi with hi | hi
  · exact le_of_lt ((List.pairwise_append.mp h).2.2 i hi next (List.mem_singleton_self next))
  · exact le_of_eq (List.mem_singleton.mp hi).symm

/-- What comes before an id that was read has been read. -/
theorem mem_take_of_le {n : ℕ} (h : all.Pairwise (· > ·)) {i next : ℤ} (hi : i ∈ all)
    (hnext : next ∈ all.take n) (hle : next ≤ i) : i ∈ all.take n := by
  rw [← List.take_append_drop n all] at h hi
  rcases List.mem_append.mp hi with hi | hi
  · exact hi
  · have hlater := (List.pairwise_append.mp h).2.2 next hnext i hi
    omega

/-- A full page that is cut off at its last id. -/
theorem serves_cut (hall : ∀ i, i ∈ all ↔ matching i ∧ Below cursor i)
    (hdesc : all.Pairwise (· > ·)) (hpos : ∀ i, matching i → 0 < i)
    (hfull : 0 < (all.take limit).length) :
    Serves limit matching cursor (all.take limit) ((all.take limit).getLast?.getD 0) := by
  have hne : all.take limit ≠ [] := List.length_pos_iff.mp hfull
  obtain ⟨next, hnext⟩ := Option.isSome_iff_exists.mp (List.getLast?_isSome.mpr hne)
  obtain ⟨hmem, hle⟩ := getLast_le (hdesc.sublist (List.take_sublist limit all)) hnext
  have hmatch := ((hall next).mp (List.mem_of_mem_take hmem)).1
  rw [hnext, Option.getD_some]
  constructor
  · exact List.length_take_le limit all
  · exact hdesc.sublist (List.take_sublist limit all)
  · intro i hi
    exact (hall i).mp (List.mem_of_mem_take hi)
  · intro hzero
    have hpositive := hpos next hmatch
    omega
  · intro _
    refine ⟨hmem, hle, fun i hi hbelow hge => ?_⟩
    exact mem_take_of_le hdesc ((hall i).mpr ⟨hi, hbelow⟩) hmem hge

/-- A page that holds all there is. -/
theorem serves_rest (hall : ∀ i, i ∈ all ↔ matching i ∧ Below cursor i)
    (hdesc : all.Pairwise (· > ·)) (hshort : all.length ≤ limit) :
    Serves limit matching cursor all 0 := by
  constructor
  · exact hshort
  · exact hdesc
  · intro i hi
    exact (hall i).mp hi
  · intro _ i hi hbelow
    exact (hall i).mpr ⟨hi, hbelow⟩
  · intro hne
    exact absurd rfl hne

/-- One row more than a page is read to see whether there is a next page. -/
theorem serves_lookAhead (hall : ∀ i, i ∈ all ↔ matching i ∧ Below cursor i)
    (hdesc : all.Pairwise (· > ·)) (hpos : ∀ i, matching i → 0 < i) (hlimit : 0 < limit) :
    if limit < (all.take (limit + 1)).length then
      Serves limit matching cursor ((all.take (limit + 1)).take limit)
        (((all.take (limit + 1)).take limit).getLast?.getD 0)
    else Serves limit matching cursor (all.take (limit + 1)) 0 := by
  by_cases hmore : limit < (all.take (limit + 1)).length
  · rw [if_pos hmore, List.take_take, Nat.min_eq_left (Nat.le_succ limit)]
    apply serves_cut hall hdesc hpos
    rw [List.length_take] at hmore ⊢
    omega
  · rw [if_neg hmore]
    rw [List.length_take] at hmore
    rw [List.take_of_length_le (by omega)]
    exact serves_rest hall hdesc (by omega)

/-- Every full page is taken to have a next one. -/
theorem serves_exact (hall : ∀ i, i ∈ all ↔ matching i ∧ Below cursor i)
    (hdesc : all.Pairwise (· > ·)) (hpos : ∀ i, matching i → 0 < i) (hlimit : 0 < limit) :
    Serves limit matching cursor (all.take limit)
      (if (all.take limit).length = limit then (all.take limit).getLast?.getD 0 else 0) := by
  by_cases hfull : (all.take limit).length = limit
  · rw [if_pos hfull]
    exact serves_cut hall hdesc hpos (by omega)
  · rw [if_neg hfull]
    rw [List.length_take] at hfull
    rw [List.take_of_length_le (by omega)]
    exact serves_rest hall hdesc (by omega)

end Page

/-! ## Following the cursor -/

/-- Reads pages until a cursor is zero; page `n` is the query `fetch n`. None is a failed query,
or more pages than the first argument. -/
def follow (fetch : ℕ → ℤ → Option (List α × ℤ)) : ℕ → ℕ → ℤ → Option (List (List α))
  | 0, _, _ => none
  | fuel + 1, n, cursor =>
    match fetch n cursor with
    | none => none
    | some (items, next) =>
      if next = 0 then some [items] else (follow fetch fuel (n + 1) next).map (items :: ·)

/-- The pages from page `n` on, below a cursor. -/
structure Traversed (limit : ℕ) (ident : α → ℤ) (matching : ℕ → ℤ → Prop) (n : ℕ) (cursor : ℤ)
    (pages : List (List α)) : Prop where
  bounded : ∀ items ∈ pages, items.length ≤ limit
  descending : (pages.flatten.map ident).Pairwise (· > ·)
  below : ∀ x ∈ pages.flatten, Below cursor (ident x)
  sound : ∀ k items, pages[k]? = some items → ∀ x ∈ items, matching (n + k) (ident x)
  complete : ∀ i, Below cursor i → (∀ k < pages.length, matching (n + k) i) →
    i ∈ pages.flatten.map ident

variable {fetch : ℕ → ℤ → Option (List α × ℤ)} {ident : α → ℤ} {limit : ℕ}
  {matching : ℕ → ℤ → Prop} {valid : ℤ → Prop}

theorem traversed_last {n : ℕ} {cursor : ℤ} {items : List α}
    (h : Serves limit (matching n) cursor (items.map ident) 0) :
    Traversed limit ident matching n cursor [items] := by
  constructor
  · intro page hpage
    rw [List.mem_singleton.mp hpage]
    have hbound := h.bounded
    rwa [List.length_map] at hbound
  · rw [List.flatten_singleton]
    exact h.descending
  · intro x hx
    rw [List.flatten_singleton] at hx
    exact (h.sound (ident x) (List.mem_map_of_mem hx)).2
  · intro k page hpage x hx
    cases k with
    | zero =>
      obtain rfl := Option.some.inj hpage
      exact (h.sound (ident x) (List.mem_map_of_mem hx)).1
    | succ k => cases hpage
  · intro i hbelow hall
    rw [List.flatten_singleton]
    exact h.last rfl i (hall 0 Nat.one_pos) hbelow

theorem traversed_more {n : ℕ} {cursor next : ℤ} {items : List α} {rest : List (List α)}
    (h : Serves limit (matching n) cursor (items.map ident) next) (hnext : 0 < next)
    (hrest : Traversed limit ident matching (n + 1) next rest) :
    Traversed limit ident matching n cursor (items :: rest) := by
  obtain ⟨hmem, hle, hserved⟩ := h.more (ne_of_gt hnext)
  have hcursor := (h.sound next hmem).2
  constructor
  · intro page hpage
    rcases List.mem_cons.mp hpage with rfl | hpage
    · have hbound := h.bounded
      rwa [List.length_map] at hbound
    · exact hrest.bounded page hpage
  · rw [List.flatten_cons, List.map_append, List.pairwise_append]
    refine ⟨h.descending, hrest.descending, fun i hi j hj => ?_⟩
    obtain ⟨x, hx, rfl⟩ := List.mem_map.mp hj
    exact lt_of_lt_of_le (hrest.below x hx hnext) (hle i hi)
  · intro x hx
    rw [List.flatten_cons, List.mem_append] at hx
    rcases hx with hx | hx
    · exact (h.sound (ident x) (List.mem_map_of_mem hx)).2
    · intro hpos
      exact lt_trans (hrest.below x hx hnext) (hcursor hpos)
  · intro k page hpage x hx
    cases k with
    | zero =>
      obtain rfl := Option.some.inj hpage
      exact (h.sound (ident x) (List.mem_map_of_mem hx)).1
    | succ k =>
      have hmatch := hrest.sound k page hpage x hx
      rwa [Nat.add_right_comm] at hmatch
  · intro i hbelow hall
    rw [List.flatten_cons, List.map_append, List.mem_append]
    by_cases hge : next ≤ i
    · exact Or.inl (hserved i (hall 0 (Nat.succ_pos _)) hbelow hge)
    · refine Or.inr (hrest.complete i (fun _ => by omega) fun k hk => ?_)
      have hmatch := hall (k + 1) (Nat.succ_lt_succ hk)
      rwa [← Nat.add_assoc, Nat.add_right_comm] at hmatch

/-- Whatever pages are read, they are traversed. -/
theorem traversed_follow
    (hserves : ∀ n cursor items next, fetch n cursor = some (items, next) →
      Serves limit (matching n) cursor (items.map ident) next)
    (hpos : ∀ n i, matching n i → 0 < i) {fuel n : ℕ} {cursor : ℤ} {pages : List (List α)}
    (h : follow fetch fuel n cursor = some pages) :
    Traversed limit ident matching n cursor pages := by
  induction fuel generalizing n cursor pages with
  | zero => cases h
  | succ fuel ih =>
    unfold follow at h
    cases hpage : fetch n cursor with
    | none =>
      rw [hpage] at h
      cases h
    | some page =>
      obtain ⟨items, next⟩ := page
      have hserved := hserves n cursor items next hpage
      rw [hpage] at h
      dsimp only at h
      by_cases hlast : next = 0
      · rw [if_pos hlast] at h
        subst hlast
        cases h
        exact traversed_last hserved
      · rw [if_neg hlast] at h
        obtain ⟨rest, hrest, rfl⟩ := Option.map_eq_some_iff.mp h
        obtain ⟨hmem, -, -⟩ := hserved.more hlast
        exact traversed_more hserved (hpos n next (hserved.sound next hmem).1) (ih hrest)

/-- Every item that is shown stood on some page. -/
theorem mem_follow {fuel n : ℕ} {cursor : ℤ} {pages : List (List α)}
    (h : follow fetch fuel n cursor = some pages) {x : α} (hx : x ∈ pages.flatten) :
    ∃ n cursor items next, fetch n cursor = some (items, next) ∧ x ∈ items := by
  induction fuel generalizing n cursor pages with
  | zero => cases h
  | succ fuel ih =>
    unfold follow at h
    cases hpage : fetch n cursor with
    | none =>
      rw [hpage] at h
      cases h
    | some page =>
      obtain ⟨items, next⟩ := page
      rw [hpage] at h
      dsimp only at h
      split at h
      · cases h
        rw [List.flatten_singleton] at hx
        exact ⟨n, cursor, items, next, hpage, hx⟩
      · obtain ⟨rest, hrest, rfl⟩ := Option.map_eq_some_iff.mp h
        rw [List.flatten_cons, List.mem_append] at hx
        rcases hx with hx | hx
        · exact ⟨n, cursor, items, next, hpage, hx⟩
        · exact ih hrest hx

/-- Below a positive cursor the pages come to an end. -/
theorem follow_below
    (hfetch : ∀ n cursor, valid cursor → ∃ items next, fetch n cursor = some (items, next) ∧
      Serves limit (matching n) cursor (items.map ident) next)
    (hmatching : ∀ n i, matching n i → 0 < i ∧ valid i) (bound n : ℕ) {cursor : ℤ}
    (hpos : 0 < cursor) (hbound : cursor ≤ bound) (hvalid : valid cursor) :
    ∃ fuel pages, follow fetch fuel n cursor = some pages ∧
      Traversed limit ident matching n cursor pages := by
  induction bound generalizing n cursor with
  | zero => omega
  | succ bound ih =>
    obtain ⟨items, next, hpage, hserves⟩ := hfetch n cursor hvalid
    by_cases hlast : next = 0
    · subst hlast
      refine ⟨1, [items], ?_, traversed_last hserves⟩
      simp only [follow, hpage, if_true]
    · obtain ⟨hmem, -, -⟩ := hserves.more hlast
      obtain ⟨hmatch, hbelow⟩ := hserves.sound next hmem
      obtain ⟨hnext, hnextValid⟩ := hmatching n next hmatch
      have hless := hbelow hpos
      obtain ⟨fuel, rest, hrest, htraversed⟩ := ih (n + 1) hnext (by omega) hnextValid
      refine ⟨fuel + 1, items :: rest, ?_, traversed_more hserves hnext htraversed⟩
      simp only [follow, hpage, if_neg hlast, hrest, Option.map_some]

/-- From the first page on the pages come to an end, and show every id that matches throughout. -/
theorem follow_all
    (hfetch : ∀ n cursor, valid cursor → ∃ items next, fetch n cursor = some (items, next) ∧
      Serves limit (matching n) cursor (items.map ident) next)
    (hmatching : ∀ n i, matching n i → 0 < i ∧ valid i) (hzero : valid 0) :
    ∃ fuel pages, follow fetch fuel 0 0 = some pages ∧
      Traversed limit ident matching 0 0 pages := by
  obtain ⟨items, next, hpage, hserves⟩ := hfetch 0 0 hzero
  by_cases hlast : next = 0
  · subst hlast
    refine ⟨1, [items], ?_, traversed_last hserves⟩
    simp only [follow, hpage, if_true]
  · obtain ⟨hmem, -, -⟩ := hserves.more hlast
    obtain ⟨hnext, hnextValid⟩ := hmatching 0 next (hserves.sound next hmem).1
    obtain ⟨fuel, rest, hrest, htraversed⟩ :=
      follow_below hfetch hmatching next.toNat 1 hnext (by omega) hnextValid
    refine ⟨fuel + 1, items :: rest, ?_, traversed_more hserves hnext htraversed⟩
    simp only [follow, hpage, if_neg hlast, hrest, Option.map_some]

/-- An id that matches throughout is shown once. -/
theorem Traversed.once {pages : List (List α)} (h : Traversed limit ident matching 0 0 pages)
    {i : ℤ} (hall : ∀ k < pages.length, matching k i) : (pages.flatten.map ident).count i = 1 := by
  have hnodup : (pages.flatten.map ident).Nodup := h.descending.imp fun hgt => ne_of_gt hgt
  refine List.count_eq_one_of_mem hnodup (h.complete i (fun hpos => absurd hpos (by decide)) ?_)
  intro k hk
  rw [Nat.zero_add]
  exact hall k hk

theorem length_flatten_le {pages : List (List α)} (h : ∀ items ∈ pages, items.length ≤ limit) :
    pages.flatten.length ≤ pages.length * limit := by
  induction pages with
  | nil => exact Nat.zero_le _
  | cons items rest ih =>
    have hitems := h items List.mem_cons_self
    have hrest := ih fun page hpage => h page (List.mem_cons_of_mem items hpage)
    rw [List.flatten_cons, List.length_append, List.length_cons, Nat.succ_mul]
    omega

/-- A traversal takes the pages that its rows need. -/
theorem Traversed.length_le {n : ℕ} {cursor : ℤ} {pages : List (List α)}
    (h : Traversed limit ident matching n cursor pages) {ids : List ℤ} (hids : ids.Nodup)
    (hshown : ∀ i ∈ ids, i ∈ pages.flatten.map ident) : ids.length ≤ pages.length * limit := by
  have hlength := (hids.subperm hshown).length_le
  rw [List.length_map] at hlength
  exact hlength.trans (length_flatten_le h.bounded)

end CursorPages
