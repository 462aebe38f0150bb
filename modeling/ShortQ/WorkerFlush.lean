import ShortQ.AnalyticsWorker

/-! # A flush with everything available

When every call but `RecordClicks` succeeds, what happens to a delivery depends on its own
retry count and on the outcome of its batch. -/
namespace WorkerFlush

open ClickWire
open LabelledRuns
open AnalyticsWorker

inductive Fate where
  | committed | rejected | requeued | retried
  deriving DecidableEq, Repr

/-- What a flush does with one of its deliveries when every call but `RecordClicks` succeeds. -/
def fate (w : Worker) (committed : Bool) (p : Pending) : Fate :=
  if committed then .committed
  else if w.maxRetries ≤ p.attempt then .rejected
  else if !w.hasRetryer then .requeued
  else .retried

def Fate.calls (p : Pending) : Fate → List Call
  | .committed => [.disposed .ack p.index true]
  | .rejected => [.disposed .reject p.index true]
  | .requeued => [.disposed .nack p.index true]
  | .retried => [.retry p.index p.attempt true, .disposed .ack p.index true]

/-! ## The fates are those of the worker -/

section Flush

variable {w : Worker} {s : System} {batch : List Pending} {after : Option Loop}

theorem ackNext_run (hc : s.control = ackNext after batch)
    (hcomplete : ∀ p ∈ batch, complete p.delivery = true) :
    ∃ es t, Execution (next w) s es t ∧ t.control = resume after ∧
      t.history = s.history ++ batch.flatMap fun p => (fate w true p).calls p := by
  induction batch generalizing s with
  | nil => exact ⟨[], s, .refl s, hc, by simp⟩
  | cons p rest ih =>
    have hp := hcomplete p List.mem_cons_self
    simp only [complete, Bool.and_eq_true] at hp
    have hstep : next w s (.called true) =
        some ({ s with history := s.history ++ [Call.disposed .ack p.index true] }.goto
          (ackNext after rest)) := by
      simp [next, callback, hc, ackNext, settle,
        Disposal.present, hp.1.1]
    obtain ⟨es, t, hrun, hcontrol, hhistory⟩ :=
      ih (goto_control _ _) fun q hq => hcomplete q (List.mem_cons_of_mem p hq)
    refine ⟨_, t, (Execution.single hstep).append hrun, hcontrol, ?_⟩
    rw [hhistory]
    simp [fate, Fate.calls]

theorem settling_run {kind : Disposal} {p : Pending}
    (hc : s.control = .settling kind p batch after) (hp : complete p.delivery = true) :
    ∃ t, next w s (.called true) = some t ∧
      t.control = retryNext w after batch ∧
      t.history = s.history ++ [Call.disposed kind p.index true] := by
  have hpresent : kind.present p.delivery = true := by
    simp only [complete, Bool.and_eq_true] at hp
    cases kind <;> simp [Disposal.present, hp]
  have hstep : next w s (.called true) =
      some (countRequeue kind
        ({ s with history := s.history ++ [Call.disposed kind p.index true] }.goto
          (retryNext w after batch))) := by
    simp only [next, callback, hc, settle,
      hpresent, Option.map_some]
  refine ⟨_, hstep, ?_⟩
  simp only [countRequeue]
  split
  · exact ⟨rfl, rfl⟩
  · split <;> exact ⟨rfl, rfl⟩

theorem retryNext_run (hc : s.control = retryNext w after batch)
    (hcomplete : ∀ p ∈ batch, complete p.delivery = true) :
    ∃ es t, Execution (next w) s es t ∧ t.control = resume after ∧
      t.history = s.history ++ batch.flatMap fun p => (fate w false p).calls p := by
  induction batch generalizing s with
  | nil => exact ⟨[], s, .refl s, hc, by simp⟩
  | cons p rest ih =>
    have hp := hcomplete p List.mem_cons_self
    have hrest : ∀ q ∈ rest, complete q.delivery = true := fun q hq =>
      hcomplete q (List.mem_cons_of_mem p hq)
    simp only [retryNext] at hc
    by_cases hmax : w.maxRetries ≤ p.attempt
    · rw [if_pos hmax] at hc
      obtain ⟨u, hu, hcontrol, hhistory⟩ := settling_run (w := w) hc hp
      obtain ⟨es, t, hrun, hend, hcalls⟩ := ih hcontrol hrest
      refine ⟨_, t, (Execution.single hu).append hrun, hend, ?_⟩
      rw [hcalls, hhistory]
      simp [fate, hmax, Fate.calls]
    · rw [if_neg hmax] at hc
      cases hretryer : w.hasRetryer with
      | false =>
        simp only [hretryer, Bool.not_false, if_true] at hc
        obtain ⟨u, hu, hcontrol, hhistory⟩ := settling_run (w := w) hc hp
        obtain ⟨es, t, hrun, hend, hcalls⟩ := ih hcontrol hrest
        refine ⟨_, t, (Execution.single hu).append hrun, hend, ?_⟩
        rw [hcalls, hhistory]
        simp [fate, hmax, hretryer, Fate.calls]
      | true =>
        simp only [hretryer, Bool.not_true, Bool.false_eq_true, if_false] at hc
        have hretry : next w s (.retried true) =
            some ({ s with history := s.history ++ [Call.retry p.index p.attempt true] }.goto
              (.settling .ack p rest after)) := by
          simp [next, hc]
        obtain ⟨u, hu, hcontrol, hhistory⟩ := settling_run (w := w)
          (s := { s with history := s.history ++ [Call.retry p.index p.attempt true] }.goto
            (.settling .ack p rest after)) rfl hp
        obtain ⟨es, t, hrun, hend, hcalls⟩ := ih hcontrol hrest
        refine ⟨_, t, ((Execution.single hretry).append (.single hu)).append hrun, hend, ?_⟩
        rw [hcalls, hhistory]
        simp [fate, hmax, hretryer, Fate.calls]

/-- One `flush` of the worker, from the call of `RecordClicks` on. -/
theorem flush_run (hc : s.control = .recordClicks batch after) (inserted : Option ℤ)
    (hcomplete : ∀ p ∈ batch, complete p.delivery = true) :
    ∃ es t, Execution (next w) s (.recorded inserted :: es) t ∧
      t.control = resume after ∧
      t.history = s.history ++ Call.recordClicks batch inserted ::
        batch.flatMap fun p => (fate w inserted.isSome p).calls p := by
  have hstep : ∃ u, next w s (.recorded inserted) = some u ∧
      u.history = s.history ++ [Call.recordClicks batch inserted] ∧
      u.control = if inserted.isSome then ackNext after batch else retryNext w after batch := by
    simp only [next, hc]
    exact ⟨_, rfl, rfl, rfl⟩
  obtain ⟨u, hu, hhistory, hcontrol⟩ := hstep
  cases inserted with
  | none =>
    obtain ⟨es, t, hrun, hend, hcalls⟩ := retryNext_run hcontrol hcomplete
    refine ⟨es, t, (Execution.single hu).append hrun, hend, ?_⟩
    rw [hcalls, hhistory]
    simp
  | some n =>
    obtain ⟨es, t, hrun, hend, hcalls⟩ := ackNext_run (w := w) hcontrol hcomplete
    refine ⟨es, t, (Execution.single hu).append hrun, hend, ?_⟩
    rw [hcalls, hhistory]
    simp

end Flush

end WorkerFlush
