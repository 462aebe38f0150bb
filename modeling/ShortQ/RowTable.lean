import Mathlib.Data.List.Pairwise
import Mathlib.Data.List.Perm.Subperm
import Mathlib.Data.Nat.Notation
import Mathlib.Logic.Basic
import ShortQ.ListDecisions

/-! # Tables with unique indexes

A table is the list of its rows in insertion order. Its unique indexes are one relation,
`clash`: two rows clash when they carry the same value in some unique index. A table in
which two rows clash cannot be built. -/
namespace RowTable

variable {ρ : Type*} {clash : ρ → ρ → Prop}

@[ext]
structure Table (ρ : Type*) (clash : ρ → ρ → Prop) where
  rows : List ρ
  distinct : rows.Pairwise fun a b => ¬ clash a b

namespace Table

def empty : Table ρ clash := ⟨[], .nil⟩

/-- `INSERT`: refused when the new row clashes with a stored one. -/
def insert [DecidableRel clash] (t : Table ρ clash) (r : ρ) : Option (Table ρ clash) :=
  if h : ∀ a ∈ t.rows, ¬ clash a r then
    some ⟨t.rows ++ [r], List.pairwise_append.mpr
      ⟨t.distinct, List.pairwise_singleton _ _, by simpa using h⟩⟩
  else none

/-- An assignment that leaves every unique index alone. -/
def Keeps (clash : ρ → ρ → Prop) (f : ρ → ρ) : Prop :=
  ∀ a b, (clash (f a) b ↔ clash a b) ∧ (clash a (f b) ↔ clash a b)

theorem Keeps.ite {f : ρ → ρ} (h : Keeps clash f) (p : ρ → Bool) :
    Keeps clash fun r => if p r then f r else r := by
  intro a b
  constructor
  · by_cases ha : p a <;> simp [ha, (h a b).1]
  · by_cases hb : p b <;> simp [hb, (h a b).2]

/-- `UPDATE .. SET f WHERE p`. -/
def update (t : Table ρ clash) (p : ρ → Bool) (f : ρ → ρ) (hf : Keeps clash f) :
    Table ρ clash :=
  ⟨t.rows.map fun r => if p r then f r else r, by
    rw [List.pairwise_map]
    refine t.distinct.imp fun {a b} hab hc => hab ?_
    have hp := hf.ite p
    exact (hp a b).1.mp ((hp _ b).2.mp hc)⟩

/-- The rows an `UPDATE .. WHERE p` reports as affected. -/
def affected (t : Table ρ clash) (p : ρ → Bool) : ℕ := t.rows.countP p

/-- Keeps a sublist of the rows (`DELETE`). -/
def restrict (t : Table ρ clash) (rows : List ρ) (h : rows.Sublist t.rows) : Table ρ clash :=
  ⟨rows, t.distinct.sublist h⟩

def find (t : Table ρ clash) (p : ρ → Bool) : Option ρ := t.rows.find? p

theorem insert_eq_some [DecidableRel clash] {t u : Table ρ clash} {r : ρ} :
    t.insert r = some u ↔ (∀ a ∈ t.rows, ¬ clash a r) ∧ u.rows = t.rows ++ [r] := by
  unfold insert
  split
  · rename_i h
    rw [Option.some.injEq, Table.ext_iff]
    exact ⟨fun hu => ⟨h, hu.symm⟩, fun hu => hu.2.symm⟩
  · rename_i h
    simp [h]

theorem insert_eq_none [DecidableRel clash] {t : Table ρ clash} {r : ρ} :
    t.insert r = none ↔ ∃ a ∈ t.rows, clash a r := by
  unfold insert
  split
  · rename_i h
    simpa using h
  · rename_i h
    simpa using h

@[simp] theorem rows_update (t : Table ρ clash) (p : ρ → Bool) (f : ρ → ρ)
    (hf : Keeps clash f) :
    (t.update p f hf).rows = t.rows.map fun r => if p r then f r else r := rfl

/-- The stored row with a given value of a unique index is unique. -/
theorem eq_of_clash (t : Table ρ clash) (symm : ∀ a b, clash a b → clash b a) {a b : ρ}
    (ha : a ∈ t.rows) (hb : b ∈ t.rows) (h : clash a b) : a = b := by
  by_contra hne
  have : Std.Symm fun a b => ¬ clash a b := ⟨fun a b hab hba => hab (symm _ _ hba)⟩
  exact t.distinct.forall ha hb hne h

theorem update_of_none {t : Table ρ clash} {p : ρ → Bool} {f : ρ → ρ} {hf : Keeps clash f}
    (h : t.affected p = 0) : t.update p f hf = t := by
  have hall : ∀ r ∈ t.rows, ¬ p r = true := List.countP_eq_zero.mp h
  apply Table.ext
  rw [rows_update]
  calc t.rows.map (fun r => if p r then f r else r)
      = t.rows.map id := List.map_congr_left fun r hr => by simp [hall r hr]
    _ = t.rows := List.map_id _

theorem find_of_insert [DecidableRel clash] {t u : Table ρ clash} {r : ρ} {p : ρ → Bool}
    (h : t.insert r = some u) :
    u.find p = (t.find p).or (if p r then some r else none) := by
  rw [find, (insert_eq_some.mp h).2, List.find?_append, List.find?_singleton, find]

theorem find_update {t : Table ρ clash} {p q : ρ → Bool} {f : ρ → ρ} (hf : Keeps clash f)
    (hq : ∀ r, q (f r) = q r) :
    (t.update p f hf).find q = (t.find q).map fun r => if p r then f r else r := by
  have hcomp : (q ∘ fun r => if p r then f r else r) = q := by
    funext r
    by_cases hr : p r <;> simp [hr, hq]
  rw [find, rows_update, List.find?_map, hcomp, find]

theorem update_congr {t : Table ρ clash} {p q : ρ → Bool} {f : ρ → ρ} {hf : Keeps clash f}
    (h : ∀ r ∈ t.rows, p r = q r) : t.update p f hf = t.update q f hf := by
  apply Table.ext
  simp only [rows_update]
  exact List.map_congr_left fun r hr => by rw [h r hr]

theorem countP_of_find {rows : List ρ} {q p : ρ → Bool} (hq : ∀ a b, q a → q b → clash a b)
    (distinct : rows.Pairwise fun a b => ¬ clash a b) :
    rows.countP (fun r => q r && p r) = ((rows.find? q).any p).toNat := by
  induction distinct with
  | nil => rfl
  | @cons a rows hhead _ ih =>
    by_cases ha : q a
    · have hrest : rows.countP (fun r => q r && p r) = 0 := by
        rw [List.countP_eq_zero]
        intro r hr hqr
        rw [Bool.and_eq_true] at hqr
        exact hhead r hr (hq a r ha hqr.1)
      rw [List.countP_cons, List.find?_cons_of_pos ha, hrest]
      cases hp : p a <;> simp [ha, hp]
    · rw [List.countP_cons, List.find?_cons_of_neg ha, ih]
      simp [ha]

/-- An `UPDATE` that names a unique key affects the row it finds, if its other
conditions hold there, and nothing else. -/
theorem affected_of_find {t : Table ρ clash} {q p : ρ → Bool}
    (hq : ∀ a b, q a → q b → clash a b) :
    t.affected (fun r => q r && p r) = ((t.find q).any p).toNat :=
  countP_of_find hq t.distinct

/-- When a statement over listed keys affects as many rows as keys are listed, every listed
key has its row and no key is listed twice. -/
theorem perm_of_affected {κ : Type*} {t : Table ρ clash} (key : ρ → κ)
    (hkey : ∀ a b, key a = key b → clash a b) {keys : List κ} {p : ρ → Bool}
    (hp : ∀ r, p r = true → key r ∈ keys) (h : t.affected p = keys.length) :
    ((t.rows.filter p).map key).Perm keys := by
  have hnodup : ((t.rows.filter p).map key).Nodup := by
    rw [List.Nodup, List.pairwise_map]
    exact (t.distinct.filter p).imp fun hab heq => hab (hkey _ _ heq)
  have hsubset : (t.rows.filter p).map key ⊆ keys := by
    intro k hk
    obtain ⟨r, hr, rfl⟩ := List.mem_map.mp hk
    exact hp r (List.mem_filter.mp hr).2
  refine (List.Nodup.subperm hnodup hsubset).perm_of_length_le ?_
  rw [List.length_map, ← List.countP_eq_length_filter]
  exact Nat.le_of_eq h.symm

/-- When every listed key has its row, the statement affects as many rows as keys are listed. -/
theorem affected_of_listed {κ : Type*} {t : Table ρ clash} (key : ρ → κ)
    (hkey : ∀ a b, key a = key b → clash a b) {keys : List κ} {p : ρ → Bool} (hkeys : keys.Nodup)
    (hp : ∀ r, p r = true → key r ∈ keys) (h : ∀ k ∈ keys, ∃ r ∈ t.rows, key r = k ∧ p r = true) :
    t.affected p = keys.length := by
  have hperm : ((t.rows.filter p).map key).Perm keys := by
    have hnodup : ((t.rows.filter p).map key).Nodup := by
      rw [List.Nodup, List.pairwise_map]
      exact (t.distinct.filter p).imp fun hab heq => hab (hkey _ _ heq)
    rw [List.perm_ext_iff_of_nodup hnodup hkeys]
    intro k
    constructor
    · intro hk
      obtain ⟨r, hr, rfl⟩ := List.mem_map.mp hk
      exact hp r (List.mem_filter.mp hr).2
    · intro hk
      obtain ⟨r, hr, hrk, hpr⟩ := h k hk
      exact List.mem_map.mpr ⟨r, List.mem_filter.mpr ⟨hr, hpr⟩, hrk⟩
  rw [affected, List.countP_eq_length_filter, ← List.length_map key, hperm.length_eq]

/-! What a statement about other rows leaves of the selected ones. -/

section Selected

variable {t : Table ρ clash} {p q : ρ → Bool}

theorem filter_update {f : ρ → ρ} (hf : Keeps clash f)
    (hp : ∀ r ∈ t.rows, p r = true → q r = false) (hq : ∀ r, q (f r) = q r) :
    (t.update p f hf).rows.filter q = t.rows.filter q := by
  have hcomp : (q ∘ fun r => if p r then f r else r) = q := by
    funext r
    by_cases hr : p r = true
    · rw [Function.comp_apply, if_pos hr, hq]
    · rw [Function.comp_apply, if_neg hr]
  rw [rows_update, List.filter_map, hcomp]
  refine (List.map_congr_left fun r hr => ?_).trans (List.map_id _)
  obtain ⟨hmem, hselected⟩ := List.mem_filter.mp hr
  refine if_neg fun hpr => ?_
  rw [hp r hmem hpr] at hselected
  cases hselected

theorem filter_insert [DecidableRel clash] {u : Table ρ clash} {r : ρ}
    (h : t.insert r = some u) (hr : q r = false) : u.rows.filter q = t.rows.filter q := by
  rw [(insert_eq_some.mp h).2, List.filter_append, List.filter_singleton, hr]
  exact List.append_nil _

theorem filter_delete (hp : ∀ r ∈ t.rows, p r = true → q r = false) :
    (t.restrict (t.rows.filter fun r => !p r) List.filter_sublist).rows.filter q =
      t.rows.filter q := by
  rw [restrict, List.filter_filter]
  refine List.filter_congr fun r hr => ?_
  by_cases hpr : p r = true
  · rw [hp r hr hpr, Bool.false_and]
  · rw [Bool.eq_false_iff.mpr hpr, Bool.not_false, Bool.and_true]

end Selected

/-- `INSERT .. ON CONFLICT DO UPDATE SET f`. -/
def upsert [DecidableRel clash] (t : Table ρ clash) (r : ρ) (f : ρ → ρ)
    (hf : Keeps clash f) : Table ρ clash :=
  match t.insert r with
  | some u => u
  | none => t.update (fun a => decide (clash a r)) f hf

end Table

end RowTable
