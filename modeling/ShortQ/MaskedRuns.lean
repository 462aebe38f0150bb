import ShortQ.LabelledRuns

/-! # Runs seen through a mask

What an observer sees of a state, and of a label, is itself a state and a label. Where every step
of the masked system does what the step does, runs with the same masked labels look the same. -/
namespace MaskedRuns

open LabelledRuns

variable {σ ε : Type*} {next : σ → ε → Option σ}

/-- Steps that meet `P` commute with the two masks. -/
def Masks (next : σ → ε → Option σ) (P : ε → Prop) (view : σ → σ) (mask : ε → ε) : Prop :=
  ∀ s e, P e → next (view s) (mask e) = (next s e).map view

theorem Masks.replay {P : ε → Prop} {view : σ → σ} {mask : ε → ε} (h : Masks next P view mask)
    {es : List ε} (hes : ∀ e ∈ es, P e) (s : σ) :
    replay next (view s) (es.map mask) = (replay next s es).map view := by
  induction es generalizing s with
  | nil => rfl
  | cons e es ih =>
    obtain ⟨he, hes⟩ := List.forall_mem_cons.mp hes
    rw [List.map_cons, LabelledRuns.replay, LabelledRuns.replay, h s e he]
    cases hstep : next s e with
    | none => rfl
    | some t => exact ih hes t

/-- Two runs with the same masked labels come to the same views, or get stuck both. -/
theorem Masks.same_view {P : ε → Prop} {view : σ → σ} {mask : ε → ε}
    (h : Masks next P view mask) {es es' : List ε} (hes : ∀ e ∈ es, P e) (hes' : ∀ e ∈ es', P e)
    (hsame : es.map mask = es'.map mask) {s s' : σ} (hs : view s = view s') :
    (LabelledRuns.replay next s es).map view = (LabelledRuns.replay next s' es').map view := by
  calc (LabelledRuns.replay next s es).map view
    _ = LabelledRuns.replay next (view s) (es.map mask) := (h.replay hes s).symm
    _ = LabelledRuns.replay next (view s') (es'.map mask) := by rw [hs, hsame]
    _ = (LabelledRuns.replay next s' es').map view := h.replay hes' s'

end MaskedRuns
