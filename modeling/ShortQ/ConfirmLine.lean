import Mathlib.Data.List.Basic

/-! # Confirmations without tags

A broker answers every publish on a channel once and in order. A reader takes the answers in
the same order and is not told which publish an answer is for. -/
namespace ConfirmLine

structure Line where
  published : ℕ
  answers : List Bool
  taken : ℕ
  answers_le : answers.length ≤ published
  taken_le : taken ≤ answers.length

namespace Line

def fresh : Line := ⟨0, [], 0, Nat.le_refl _, Nat.le_refl _⟩

def publish (l : Line) : Line :=
  { l with published := l.published + 1, answers_le := Nat.le_succ_of_le l.answers_le }

/-- The broker answers the oldest publish it has not answered. -/
def answer (l : Line) (ack : Bool) : Option Line :=
  if h : l.answers.length < l.published then
    some { l with
      answers := l.answers ++ [ack]
      answers_le := by
        rw [List.length_append]
        exact h
      taken_le := by
        rw [List.length_append]
        exact Nat.le_add_right_of_le l.taken_le }
  else none

/-- The reader takes the oldest answer it has not taken. -/
def take (l : Line) : Option (Bool × Line) :=
  if h : l.taken < l.answers.length then
    some (l.answers[l.taken], { l with taken := l.taken + 1, taken_le := h })
  else none

/-- Every publish is answered and every answer taken. -/
def Clear (l : Line) : Prop := l.taken = l.published

instance (l : Line) : Decidable l.Clear := inferInstanceAs (Decidable (l.taken = l.published))

/-- The answer to publish number `j` is positive. -/
def Positive (l : Line) (j : ℕ) : Prop := l.answers[j]? = some true

instance (l : Line) (j : ℕ) : Decidable (l.Positive j) :=
  inferInstanceAs (Decidable (l.answers[j]? = some true))

/-- A clear line has no publish without an answer and no answer that waits for a reader. -/
theorem clear_iff (l : Line) :
    l.Clear ↔ l.answers.length = l.published ∧ l.taken = l.answers.length := by
  have hanswers := l.answers_le
  have htaken := l.taken_le
  constructor
  · intro h
    rw [Clear] at h
    omega
  · rintro ⟨h, h'⟩
    rw [Clear]
    omega

theorem answer_eq_some {l m : Line} {ack : Bool} (h : l.answer ack = some m) :
    m.published = l.published ∧ m.answers = l.answers ++ [ack] ∧ m.taken = l.taken := by
  simp only [answer] at h
  split at h
  · cases h
    exact ⟨rfl, rfl, rfl⟩
  · cases h

theorem take_eq_some {l m : Line} {ack : Bool} (h : l.take = some (ack, m)) :
    m.published = l.published ∧ m.answers = l.answers ∧ m.taken = l.taken + 1 ∧
      l.answers[l.taken]? = some ack := by
  simp only [take] at h
  split at h
  · next hlt =>
    cases h
    exact ⟨rfl, rfl, rfl, List.getElem?_eq_getElem hlt⟩
  · cases h

theorem take_of_lt {l : Line} (h : l.taken < l.answers.length) :
    ∃ ack m, l.take = some (ack, m) := by
  rw [take, dif_pos h]
  exact ⟨_, _, rfl⟩

theorem answer_of_lt {l : Line} (h : l.answers.length < l.published) (ack : Bool) :
    ∃ m, l.answer ack = some m := by
  rw [answer, dif_pos h]
  exact ⟨_, rfl⟩

/-- Behind a publish on a clear line the next answer is the one to that publish. -/
theorem take_own {l m : Line} {ack : Bool} (hown : l.taken + 1 = l.published)
    (h : l.take = some (ack, m)) : m.Clear ∧ m.answers[l.published - 1]? = some ack := by
  obtain ⟨hpublished, hanswers, htaken, hget⟩ := take_eq_some h
  constructor
  · rw [Clear, htaken, hpublished, hown]
  · rw [hanswers, ← hown, Nat.add_sub_cancel]
    exact hget

theorem publish_positive {l : Line} {j : ℕ} (h : l.Positive j) : l.publish.Positive j := h

theorem answer_positive {l m : Line} {ack : Bool} (h : l.answer ack = some m) {j : ℕ}
    (hj : l.Positive j) : m.Positive j := by
  obtain ⟨-, hanswers, -⟩ := answer_eq_some h
  have hlt : j < l.answers.length := (List.getElem?_eq_some_iff.mp hj).1
  rw [Positive, hanswers, List.getElem?_append_left hlt]
  exact hj

theorem take_positive {l m : Line} {ack : Bool} (h : l.take = some (ack, m)) {j : ℕ}
    (hj : l.Positive j) : m.Positive j := by
  obtain ⟨-, hanswers, -⟩ := take_eq_some h
  rw [Positive, hanswers]
  exact hj

end Line

end ConfirmLine
