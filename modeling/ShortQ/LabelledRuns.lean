import Mathlib.Data.List.Induction
import Mathlib.Data.Nat.Init

/-! # Labelled runs of a partial step function

A system is a function `next : σ → ε → Option σ`: the label carries every choice the
environment makes, and `none` means the label is not possible in that state. -/
namespace LabelledRuns

variable {σ ε : Type*} {next : σ → ε → Option σ}

/-- A finite run with its labels in the order they were taken. -/
inductive Execution (next : σ → ε → Option σ) : σ → List ε → σ → Prop where
  | refl (s) : Execution next s [] s
  | tail {s es u e v} : Execution next s es u → next u e = some v →
      Execution next s (es ++ [e]) v

theorem Execution.append {s u v : σ} {es fs : List ε} (h : Execution next s es u)
    (k : Execution next u fs v) : Execution next s (es ++ fs) v := by
  induction k with
  | refl => simpa using h
  | tail _ hstep ih =>
    rw [← List.append_assoc]
    exact .tail ih hstep

theorem Execution.single {s u : σ} {e : ε} (h : next s e = some u) :
    Execution next s [e] u := .tail (.refl s) h

/-- What holds of the start and of every step holds of the whole run. The predicate
may look at the labels taken so far. -/
theorem Execution.induct {s : σ} {I : List ε → σ → Prop} (start : I [] s)
    (step : ∀ es u e v, I es u → next u e = some v → I (es ++ [e]) v)
    {es : List ε} {t : σ} (h : Execution next s es t) : I es t := by
  induction h with
  | refl => exact start
  | tail _ hstep ih => exact step _ _ _ _ ih hstep

theorem Execution.invariant {s t : σ} {es : List ε} {I : σ → Prop} (start : I s)
    (step : ∀ u e v, I u → next u e = some v → I v) (h : Execution next s es t) : I t :=
  h.induct (I := fun _ u => I u) start fun _ u e v => step u e v

/-- The same when every label of the run meets a side condition in its own state. -/
theorem Execution.invariant_of {s t : σ} {es : List ε} {I : σ → Prop} {P : σ → ε → Prop}
    (start : I s) (step : ∀ u e v, I u → P u e → next u e = some v → I v)
    (h : Execution next s es t)
    (side : ∀ xs e ys u, es = xs ++ e :: ys → Execution next s xs u → P u e) : I t := by
  induction h with
  | refl => exact start
  | @tail es u e v hrun hstep ih =>
    refine step u e v (ih ?_) (side es e [] u rfl hrun) hstep
    intro xs f ys w he hw
    exact side xs f (ys ++ [e]) w (by simp [he]) hw

theorem Execution.of_nil {s t : σ} (h : Execution next s [] t) : s = t := by
  generalize hl : ([] : List ε) = l at h
  cases h with
  | refl => rfl
  | tail => simp at hl

theorem Execution.of_snoc {s v : σ} {es : List ε} {e : ε}
    (h : Execution next s (es ++ [e]) v) : ∃ u, Execution next s es u ∧ next u e = some v := by
  generalize hl : es ++ [e] = l at h
  cases h with
  | refl => simp at hl
  | @tail fs u f v hrun hstep =>
    obtain ⟨rfl, hf⟩ := List.append_inj' hl rfl
    obtain rfl : e = f := by simpa using hf
    exact ⟨u, hrun, hstep⟩

theorem Execution.split {s v : σ} {es fs : List ε} (h : Execution next s (es ++ fs) v) :
    ∃ u, Execution next s es u ∧ Execution next u fs v := by
  induction fs using List.reverseRecOn generalizing v with
  | nil => exact ⟨v, by simpa using h, .refl v⟩
  | append_singleton fs e ih =>
    rw [← List.append_assoc] at h
    obtain ⟨w, hw, hstep⟩ := h.of_snoc
    obtain ⟨u, hu, hrun⟩ := ih hw
    exact ⟨u, hu, .tail hrun hstep⟩

def Reachable (next : σ → ε → Option σ) (s t : σ) : Prop := ∃ es, Execution next s es t

/-- Replays a list of labels. -/
def replay (next : σ → ε → Option σ) (s : σ) : List ε → Option σ
  | [] => some s
  | e :: es => (next s e).bind (replay next · es)

theorem execution_of_replay {s t : σ} {es : List ε} (h : replay next s es = some t) :
    Execution next s es t := by
  induction es generalizing s with
  | nil => cases h; exact .refl _
  | cons e es ih =>
    obtain ⟨u, hu, ht⟩ := Option.bind_eq_some_iff.mp h
    exact (Execution.single hu).append (ih ht)

theorem replay_snoc (s : σ) (es : List ε) (e : ε) :
    replay next s (es ++ [e]) = (replay next s es).bind (next · e) := by
  induction es generalizing s with
  | nil =>
    simp [replay]
  | cons f es ih =>
    simp only [List.cons_append, replay, Option.bind_assoc]
    exact congrArg _ (funext ih)

/-- The labels determine the run. -/
theorem Execution.replay_eq {s t : σ} {es : List ε} (h : Execution next s es t) :
    replay next s es = some t := by
  induction h with
  | refl => rfl
  | tail _ hstep ih => rw [replay_snoc, ih, Option.bind_some, hstep]

/-- Replays a list of labels and tests each one in its own state. -/
def checks (next : σ → ε → Option σ) (p : σ → ε → Bool) (s : σ) : List ε → Bool
  | [] => true
  | e :: es => p s e && (next s e).all (checks next p · es)

theorem checked_label {p : σ → ε → Bool} {s u : σ} {xs ys : List ε} {e : ε}
    (h : checks next p s (xs ++ e :: ys) = true) (hu : Execution next s xs u) : p u e = true := by
  induction xs generalizing s with
  | nil =>
    obtain rfl := hu.of_nil
    exact (Bool.and_eq_true_iff.mp h).1
  | cons x xs ih =>
    obtain ⟨v, hv, hrest⟩ := Option.bind_eq_some_iff.mp hu.replay_eq
    have hall := (Bool.and_eq_true_iff.mp h).2
    rw [hv] at hall
    exact ih hall (execution_of_replay hrest)

/-- A property that a label cannot take away once it holds. -/
theorem Execution.persists {s t : σ} {es : List ε} {P : σ → Prop}
    (keep : ∀ u e v, P u → next u e = some v → P v)
    (h : Execution next s es t) (hs : P s) : P t := h.invariant hs keep

/-- An infinite run. -/
structure InfiniteRun (next : σ → ε → Option σ) where
  state : ℕ → σ
  label : ℕ → ε
  valid : ∀ k, next (state k) (label k) = some (state (k + 1))

theorem InfiniteRun.execution (ρ : InfiniteRun next) (k : ℕ) :
    Execution next (ρ.state 0) ((List.range k).map ρ.label) (ρ.state k) := by
  induction k with
  | zero => exact .refl _
  | succ k ih =>
    rw [List.range_succ, List.map_append]
    exact .tail ih (ρ.valid k)

theorem InfiniteRun.persists (ρ : InfiniteRun next) {P : σ → Prop}
    (keep : ∀ u e v, P u → next u e = some v → P v) {k l : ℕ} (hkl : k ≤ l)
    (hk : P (ρ.state k)) : P (ρ.state l) := by
  induction l, hkl using Nat.le_induction with
  | base => exact hk
  | succ l _ ih => exact keep _ _ _ ih (ρ.valid l)

theorem replay_take_succ (s : σ) (es : List ε) {n : ℕ} (hn : n < es.length) :
    replay next s (es.take (n + 1)) = (replay next s (es.take n)).bind (next · es[n]) := by
  rw [← List.take_append_getElem hn, replay_snoc]

/-- A finite run that idles for ever. -/
def InfiniteRun.extend (s : σ) (es : List ε) (idle : σ → ε) (hidle : ∀ u, next u (idle u) = some u)
    (h : (replay next s es).isSome) : InfiniteRun next where
  state n := (replay next s (es.take n)).getD s
  label n := (es[n]?).getD (idle ((replay next s es).getD s))
  valid n := by
    by_cases hn : n < es.length
    · have hsucc := @replay_take_succ _ _ next s es n hn
      rw [List.getElem?_eq_getElem hn, Option.getD_some]
      obtain ⟨v, hv⟩ : ∃ v, replay next s (es.take (n + 1)) = some v := by
        have hsplit := List.take_append_drop (n + 1) es
        rw [← hsplit] at h
        obtain ⟨t, ht⟩ := Option.isSome_iff_exists.mp h
        obtain ⟨v, hv, -⟩ := (execution_of_replay ht).split
        exact ⟨v, hv.replay_eq⟩
      rw [hv] at hsucc
      obtain ⟨u, hu, hstep⟩ := Option.bind_eq_some_iff.mp hsucc.symm
      rw [hu, hv, Option.getD_some, Option.getD_some, hstep]
    · rw [List.getElem?_eq_none (by omega), Option.getD_none,
        List.take_of_length_le (by omega), List.take_of_length_le (by omega)]
      exact hidle _

end LabelledRuns
