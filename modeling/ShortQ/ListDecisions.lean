import Mathlib.Data.List.Basic

/-! # Decisions along a list

What holds of all members of a list is decided along the list, not over all values of the type of
the members, which may have only a few. -/
namespace ListDecisions

variable {α : Type*} (p : α → Prop) [DecidablePred p] (l : List α)

instance (priority := high) decidableForallMem : Decidable (∀ x ∈ l, p x) :=
  List.decidableBAll p l

instance (priority := high) decidableExistsMem : Decidable (∃ x ∈ l, p x) :=
  List.decidableBEx p l

end ListDecisions
