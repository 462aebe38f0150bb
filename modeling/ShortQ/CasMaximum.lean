import ShortQ.LabelledRuns
import Mathlib.Order.Bounds.Basic
import Mathlib.Order.Max

/-! # A maximum kept by compare-and-swap

A cell that any number of loops raise: each loads the cell and swaps its candidate in while that
is larger, and loads again when another loop was faster. -/
namespace CasMaximum

open LabelledRuns

variable {α : Type*} [LinearOrder α]

/-- Where a loop stands: before its load, between the load and the swap, or behind the loop. -/
inductive Loop (α : Type*) where
  | load (candidate : α)
  | swap (candidate current : α)
  | done (candidate : α)
  deriving DecidableEq, Repr

def Loop.candidate : Loop α → α
  | .load candidate | .swap candidate _ | .done candidate => candidate

def Loop.isDone : Loop α → Bool
  | .done _ => true
  | _ => false

/-- One operation of a loop on the cell, the test of the loop taken with the swap. -/
def Loop.step (value : α) : Loop α → Option (α × Loop α)
  | .load candidate => some (value, .swap candidate value)
  | .swap candidate current =>
    if current < candidate then
      if value = current then some (candidate, .done candidate) else some (value, .load candidate)
    else some (value, .done candidate)
  | .done _ => none

structure Cell (α : Type*) where
  value : α
  loops : List (Loop α)

inductive Event (α : Type*) where
  | enter (candidate : α)
  | step (i : ℕ)
  deriving DecidableEq, Repr

def next (s : Cell α) : Event α → Option (Cell α)
  | .enter candidate => some { s with loops := s.loops ++ [.load candidate] }
  | .step i =>
    match s.loops[i]? with
    | none => none
    | some l => (l.step s.value).map fun r => ⟨r.1, s.loops.set i r.2⟩

def Cell.initial (value : α) : Cell α := ⟨value, []⟩

/-! ## One step -/

/-- What an operation does: load, win, lose, or find the cell large enough. -/
theorem Loop.step_cases {value value' : α} {l l' : Loop α} (h : l.step value = some (value', l')) :
    (∃ c, l = .load c ∧ l' = .swap c value ∧ value' = value) ∨
    (∃ c current, l = .swap c current ∧ value = current ∧ current < c ∧ l' = .done c ∧
      value' = c) ∨
    (∃ c current, l = .swap c current ∧ value ≠ current ∧ current < c ∧ l' = .load c ∧
      value' = value) ∨
    (∃ c current, l = .swap c current ∧ c ≤ current ∧ l' = .done c ∧ value' = value) := by
  cases l with
  | load c =>
    cases h
    exact Or.inl ⟨c, rfl, rfl, rfl⟩
  | done c => cases h
  | swap c current =>
    rw [Loop.step] at h
    by_cases hless : current < c
    · rw [if_pos hless] at h
      by_cases hsame : value = current
      · rw [if_pos hsame] at h
        cases h
        exact Or.inr (Or.inl ⟨_, current, rfl, hsame, hless, rfl, rfl⟩)
      · rw [if_neg hsame] at h
        cases h
        exact Or.inr (Or.inr (Or.inl ⟨_, current, rfl, hsame, hless, rfl, rfl⟩))
    · rw [if_neg hless] at h
      cases h
      exact Or.inr (Or.inr (Or.inr ⟨c, current, rfl, not_lt.mp hless, rfl, rfl⟩))

/-- What a loop knows of the cell. -/
def Loop.Sound (value : α) : Loop α → Prop
  | .load _ => True
  | .swap _ current => current ≤ value
  | .done candidate => candidate ≤ value

theorem Loop.Sound.mono {value value' : α} {l : Loop α} (h : l.Sound value)
    (hle : value ≤ value') : l.Sound value' := by
  cases l with
  | load c => trivial
  | swap c current => exact le_trans h hle
  | done c => exact le_trans h hle

theorem Loop.candidate_step {value value' : α} {l l' : Loop α}
    (h : l.step value = some (value', l')) : l'.candidate = l.candidate := by
  rcases Loop.step_cases h with ⟨c, rfl, rfl, -⟩ | ⟨c, _, rfl, -, -, rfl, -⟩ |
    ⟨c, _, rfl, -, -, rfl, -⟩ | ⟨c, _, rfl, -, rfl, -⟩
  all_goals rfl

/-- The cell only rises, to the candidate of the loop that moves it. -/
theorem Loop.step_raises {value value' : α} {l l' : Loop α} (h : l.step value = some (value', l'))
    (hsound : l.Sound value) :
    value ≤ value' ∧ (value' = value ∨ value' = l.candidate) ∧ l'.Sound value' := by
  rcases Loop.step_cases h with ⟨c, rfl, rfl, rfl⟩ | ⟨c, _, rfl, rfl, hless, rfl, rfl⟩ |
    ⟨c, _, rfl, -, -, rfl, rfl⟩ | ⟨c, current, rfl, hle, rfl, rfl⟩
  · exact ⟨le_refl _, Or.inl rfl, le_refl _⟩
  · exact ⟨le_of_lt hless, Or.inr rfl, le_refl _⟩
  · exact ⟨le_refl _, Or.inl rfl, trivial⟩
  · exact ⟨le_refl _, Or.inl rfl, le_trans hle hsound⟩

theorem next_step {s t : Cell α} {i : ℕ} (h : next s (.step i) = some t) :
    ∃ l l', s.loops[i]? = some l ∧ l.step s.value = some (t.value, l') ∧
      t.loops = s.loops.set i l' := by
  rw [next] at h
  cases hl : s.loops[i]? with
  | none =>
    rw [hl] at h
    cases h
  | some l =>
    rw [hl] at h
    obtain ⟨⟨value, l'⟩, hstep, rfl⟩ := Option.map_eq_some_iff.mp h
    exact ⟨l, l', rfl, hstep, rfl⟩

theorem next_enter {s t : Cell α} {candidate : α} (h : next s (.enter candidate) = some t) :
    t = { s with loops := s.loops ++ [.load candidate] } := (Option.some.inj h).symm

/-! ## Runs -/

/-- What a cell holds is the start or a candidate, and no finished candidate is larger. -/
structure Kept (start : α) (s : Cell α) : Prop where
  sound : ∀ l ∈ s.loops, l.Sound s.value
  value : s.value = start ∨ ∃ l ∈ s.loops, s.value = l.candidate
  start : start ≤ s.value

theorem Kept.initial (start : α) : Kept start (Cell.initial start) :=
  ⟨by simp [Cell.initial], Or.inl rfl, le_refl _⟩

theorem Kept.next {start : α} {s t : Cell α} {e : Event α} (hs : Kept start s)
    (h : CasMaximum.next s e = some t) : Kept start t := by
  cases e with
  | enter candidate =>
    obtain rfl := next_enter h
    refine ⟨?_, ?_, hs.start⟩
    · intro l hl
      rcases List.mem_append.mp hl with hl | hl
      · exact hs.sound l hl
      · rw [List.mem_singleton.mp hl]
        trivial
    · refine hs.value.imp id ?_
      rintro ⟨l, hl, heq⟩
      exact ⟨l, List.mem_append_left _ hl, heq⟩
  | step i =>
    obtain ⟨l, l', hl, hstep, hloops⟩ := next_step h
    have hmem := List.mem_of_getElem? hl
    obtain ⟨hle, hvalue, hsound⟩ := Loop.step_raises hstep (hs.sound l hmem)
    have hcandidate := Loop.candidate_step hstep
    obtain ⟨hi, rfl⟩ := List.getElem?_eq_some_iff.mp hl
    have hmem' : l' ∈ t.loops := hloops ▸ List.mem_set hi l'
    -- a candidate of the old list is one of the new list, the moved loop's too
    have hkeep : ∀ k ∈ s.loops, ∃ k' ∈ t.loops, k'.candidate = k.candidate := by
      intro k hk
      obtain ⟨j, hj, rfl⟩ := List.getElem_of_mem hk
      by_cases hij : i = j
      · subst hij
        exact ⟨l', hmem', hcandidate⟩
      · refine ⟨s.loops[j], ?_, rfl⟩
        rw [hloops]
        exact List.mem_iff_getElem.mpr ⟨j, by rw [List.length_set]; exact hj,
          List.getElem_set_ne hij _⟩
    refine ⟨?_, ?_, le_trans hs.start hle⟩
    · intro k hk
      rw [hloops] at hk
      rcases List.mem_or_eq_of_mem_set hk with hk | rfl
      · exact (hs.sound k hk).mono hle
      · exact hsound
    · rcases hvalue with heq | heq
      · rw [heq]
        refine hs.value.imp id ?_
        rintro ⟨k, hk, hvalue⟩
        obtain ⟨k', hk', hsame⟩ := hkeep k hk
        exact ⟨k', hk', hvalue.trans hsame.symm⟩
      · exact Or.inr ⟨l', hmem', heq.trans hcandidate.symm⟩

theorem kept_of_run {start : α} {s : Cell α} {es : List (Event α)}
    (h : Execution next (Cell.initial start) es s) : Kept start s :=
  h.invariant (Kept.initial start) fun _ _ _ hu hnext => hu.next hnext

/-- Once every loop has ended the cell holds the maximum. -/
theorem Kept.greatest {start : α} {s : Cell α} (h : Kept start s)
    (hdone : ∀ l ∈ s.loops, l.isDone = true) :
    IsGreatest {x | x = start ∨ ∃ l ∈ s.loops, x = l.candidate} s.value := by
  refine ⟨h.value, ?_⟩
  rintro x (rfl | ⟨l, hl, rfl⟩)
  · exact h.start
  · cases l with
    | load c => cases hdone _ hl
    | swap c current => cases hdone _ hl
    | done c => exact h.sound _ hl

/-! ## How long a loop may take -/

def Cell.finished (s : Cell α) : ℕ := s.loops.countP Loop.isDone

/-- The steps a loop has taken, against the loops that have ended: it loads again only after
another loop has swapped. -/
def Budget (finished : ℕ) (value : α) (steps : ℕ) : Loop α → Prop
  | .load _ | .done _ => steps ≤ 2 * finished
  | .swap _ current => steps ≤ 2 * finished + 1 ∧ (value ≠ current → steps + 1 ≤ 2 * finished)

omit [LinearOrder α] in
/-- Another loop has ended, and perhaps swapped. -/
theorem Budget.ended {finished : ℕ} {value : α} {steps : ℕ} {l : Loop α}
    (h : Budget finished value steps l) (value' : α) :
    Budget (finished + 1) value' steps l := by
  cases l with
  | load c => exact le_trans h (by omega)
  | done c => exact le_trans h (by omega)
  | swap c current =>
    obtain ⟨hsteps, -⟩ := h
    exact ⟨by omega, fun _ => by omega⟩

structure Budgeted (es : List (Event α)) (s : Cell α) : Prop where
  none : ∀ i, s.loops.length ≤ i → es.count (.step i) = 0
  some : ∀ i l, s.loops[i]? = .some l → Budget s.finished s.value (es.count (.step i)) l

omit [LinearOrder α] in
theorem finished_set {loops : List (Loop α)} {i : ℕ} {l l' : Loop α} (hl : loops[i]? = some l)
    (hopen : l.isDone = false) :
    (loops.set i l').countP Loop.isDone =
      loops.countP Loop.isDone + (if l'.isDone then 1 else 0) := by
  obtain ⟨hi, rfl⟩ := List.getElem?_eq_some_iff.mp hl
  rw [List.countP_set hi, hopen]
  simp

theorem Budgeted.next {es : List (Event α)} {s t : Cell α} {e : Event α} (hs : Budgeted es s)
    (h : CasMaximum.next s e = .some t) : Budgeted (es ++ [e]) t := by
  cases e with
  | enter candidate =>
    obtain rfl := next_enter h
    have hcount : ∀ i, (es ++ [Event.enter candidate]).count (.step i) = es.count (.step i) := by
      intro i
      rw [List.count_append, List.count_singleton]
      simp
    have hfinished : (s.loops ++ [Loop.load candidate]).countP Loop.isDone = s.finished := by
      rw [List.countP_append]
      rfl
    constructor
    · intro i hi
      rw [hcount]
      refine hs.none i ?_
      rw [List.length_append] at hi
      omega
    · intro i l hl
      rw [hcount, Cell.finished, hfinished]
      rcases Nat.lt_or_ge i s.loops.length with hi | hi
      · rw [List.getElem?_append_left hi] at hl
        exact hs.some i l hl
      · rw [hs.none i hi]
        rw [List.getElem?_append_right hi] at hl
        obtain rfl := List.mem_singleton.mp (List.mem_of_getElem? hl)
        exact Nat.zero_le _
  | step i =>
    obtain ⟨l, l', hl, hstep, hloops⟩ := next_step h
    have hown : (es ++ [Event.step (α := α) i]).count (.step i) = es.count (.step i) + 1 := by
      rw [List.count_append, List.count_singleton_self]
    have hother : ∀ j, i ≠ j →
        (es ++ [Event.step (α := α) i]).count (.step j) = es.count (.step j) := by
      intro j hij
      rw [List.count_append, List.count_singleton]
      simp [hij]
    have hlength : t.loops.length = s.loops.length := by rw [hloops, List.length_set]
    have hi : i < s.loops.length := (List.getElem?_eq_some_iff.mp hl).1
    have hbudget := hs.some i l hl
    -- the loop that moved, and what its move leaves the others
    have hmoved : Budget t.finished t.value (es.count (.step i) + 1) l' ∧
        ∀ n k, Budget s.finished s.value n k → Budget t.finished t.value n k := by
      have hfinished : l.isDone = false →
          t.finished = s.finished + (if l'.isDone then 1 else 0) := by
        intro hopen
        rw [Cell.finished, hloops]
        exact finished_set hl hopen
      rcases Loop.step_cases hstep with ⟨c, rfl, rfl, hvalue⟩ |
        ⟨c, _, rfl, rfl, hless, rfl, hvalue⟩ |
        ⟨c, current, rfl, hne, -, rfl, hvalue⟩ | ⟨c, current, rfl, hle, rfl, hvalue⟩
      all_goals
        rw [hfinished rfl, hvalue]
      · exact ⟨⟨Nat.succ_le_succ hbudget, fun hne => absurd rfl hne⟩, fun n k hk => hk⟩
      · exact ⟨Nat.succ_le_succ hbudget.1, fun n k hk => hk.ended _⟩
      · exact ⟨hbudget.2 hne, fun n k hk => hk⟩
      · exact ⟨Nat.succ_le_succ hbudget.1, fun n k hk => hk.ended _⟩
    constructor
    · intro j hj
      rw [hlength] at hj
      rw [hother j (by omega)]
      exact hs.none j hj
    · intro j k hk
      rw [hloops] at hk
      by_cases hij : i = j
      · subst hij
        rw [List.getElem?_set_self hi] at hk
        obtain rfl := Option.some.inj hk
        rw [hown]
        exact hmoved.1
      · rw [List.getElem?_set_ne hij] at hk
        rw [hother j hij]
        exact hmoved.2 _ _ (hs.some j k hk)

/-- No loop takes more than two steps for each loop that has ended, and one. -/
theorem steps_le {start : α} {s : Cell α} {es : List (Event α)}
    (h : Execution next (Cell.initial start) es s) (i : ℕ) :
    es.count (.step i) ≤ 2 * s.finished + 1 := by
  have hbudget : Budgeted es s := h.induct ⟨fun _ _ => rfl, by simp [Cell.initial]⟩
    fun _ _ _ _ hu hnext => hu.next hnext
  cases hl : s.loops[i]? with
  | none =>
    rw [hbudget.none i (List.getElem?_eq_none_iff.mp hl)]
    exact Nat.zero_le _
  | some l =>
    have hsteps := hbudget.some i l hl
    cases l with
    | load c => exact Nat.le_succ_of_le hsteps
    | swap c current => exact hsteps.1
    | done c => exact Nat.le_succ_of_le hsteps

/-! ## What has entered -/

def Cell.candidates (s : Cell α) : List α := s.loops.map Loop.candidate

theorem candidates_step {s t : Cell α} {i : ℕ} (h : next s (.step i) = some t) :
    t.candidates = s.candidates := by
  obtain ⟨l, l', hl, hstep, hloops⟩ := next_step h
  obtain ⟨hi, rfl⟩ := List.getElem?_eq_some_iff.mp hl
  rw [Cell.candidates, hloops, List.map_set, Loop.candidate_step hstep, ← List.map_set,
    List.set_getElem_self]
  rfl

omit [LinearOrder α] in
/-- A count over a list in which one place changes. -/
theorem countP_set_add {xs : List α} {i : ℕ} {a : α} (h : xs[i]? = some a) (b : α)
    (p : α → Bool) :
    (xs.set i b).countP p + (if p a then 1 else 0) = xs.countP p + (if p b then 1 else 0) := by
  obtain ⟨hi, rfl⟩ := List.getElem?_eq_some_iff.mp h
  rw [List.countP_set hi]
  by_cases hp : p xs[i] = true
  · have hpos : 0 < xs.countP p := List.countP_pos_iff.mpr ⟨_, List.getElem_mem hi, hp⟩
    rw [if_pos hp]
    omega
  · rw [if_neg hp]
    omega

end CasMaximum
