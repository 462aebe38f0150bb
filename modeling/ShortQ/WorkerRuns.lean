import ShortQ.AnalyticsWorker
import Mathlib.Data.List.Basic
import Mathlib.Data.List.Nodup

/-! # Runs of the worker

Whatever arrives, however the branches of the `select` are taken and whatever the calls
return, the worker passes on each decodable delivery once and disposes of each delivery once. -/
namespace WorkerRuns

open ClickWire
open LabelledRuns
open AnalyticsWorker

/-- Where every delivery is: passed on and settled, at hand, or in the batch. -/
structure Custody (w : Worker) (s : System) : Prop where
  sizes : ∀ b ∈ passed s, 1 ≤ b.length ∧ b.length ≤ w.batchSize
  submitted : (passed s).flatten ++ s.batch = decodable s.received
  settled : (s.history.flatMap Call.settles ++ s.control.open ++
    s.batch.map Pending.index).Perm (List.range s.received.length)
  arrived : ∀ p ∈ s.control.pending, Arrived s.received p
  rejecting : ∀ i d l, s.control = .rejectInvalid i d l → s.received[i]? = some d
  omitted : ∀ i, Call.omitted i ∈ s.history →
    ∃ d, s.received[i]? = some d ∧ complete d = false
  acks : AcksCovered s.history
  backed : s.control.Backed s.history
  invalid : ∀ i d, s.received[i]? = some d → decodeEvent d.body = none → d.hasReject = true →
    s.control.rejecting = some i ∨ ∃ ok, Call.disposed .reject i ok ∈ s.history
  finished : ∀ left, s.control = .returned false left → left = []

structure Invariant (w : Worker) (s : System) : Prop extends Custody w s where
  room : s.batch.length < w.batchSize
  awaited : s.batch ≠ [] → s.timerC = true
  armed : s.timerC = true → s.timer ≠ .stopped
  emptied : s.control.flushing = true → s.batch = []

theorem decodable_snoc (ds : List Delivery) (d : Delivery) :
    decodable (ds ++ [d]) =
      decodable ds ++ (decodeEvent d.body).toList.map (⟨ds.length, d, ·⟩) := by
  rw [decodable, List.zipIdx_append, List.filterMap_append, decodable]
  congr 1
  cases h : decodeEvent d.body <;> simp [h]

theorem arrived_of_decodable {ds : List Delivery} {p : Pending} (h : p ∈ decodable ds) :
    Arrived ds p ∧ decodeEvent p.delivery.body = some p.event := by
  obtain ⟨⟨d, i⟩, hmem, hp⟩ := List.mem_filterMap.mp h
  obtain ⟨event, hevent, rfl⟩ := Option.map_eq_some_iff.mp hp
  exact ⟨List.mk_mem_zipIdx_iff_getElem?.mp hmem, hevent⟩

theorem nodup_decodable (ds : List Delivery) :
    ((decodable ds).map Pending.index).Nodup := by
  have hsub : ((decodable ds).map Pending.index).Sublist (List.range ds.length) := by
    induction ds using List.reverseRecOn with
    | nil => exact List.nil_sublist _
    | append_singleton ds d ih =>
      rw [decodable_snoc, List.map_append, List.length_append, List.length_singleton,
        List.range_succ]
      apply List.Sublist.append ih
      cases decodeEvent d.body <;> simp
  exact hsub.nodup List.nodup_range

theorem Arrived.append {ds : List Delivery} {p : Pending} (h : Arrived ds p) (d : Delivery) :
    Arrived (ds ++ [d]) p := by
  rw [Arrived, List.getElem?_append_left (List.getElem?_eq_some_iff.mp h).1]
  exact h

theorem getElem?_snoc {ds : List Delivery} {d e : Delivery} {i : ℕ}
    (h : (ds ++ [d])[i]? = some e) : ds[i]? = some e ∨ i = ds.length ∧ e = d := by
  by_cases hi : i < ds.length
  · rw [List.getElem?_append_left hi] at h
    exact .inl h
  · rw [List.getElem?_append_right (by omega)] at h
    obtain ⟨hlt, he⟩ := List.getElem?_eq_some_iff.mp h
    rw [List.length_singleton] at hlt
    refine .inr ⟨by omega, ?_⟩
    simpa using he.symm

theorem Covered.append {history : List Call} {i : ℕ} (h : Covered history i)
    (calls : List Call) : Covered (history ++ calls) i := by
  rcases h with ⟨batch, n, hmem, hi⟩ | ⟨attempt, hmem⟩
  · exact .inl ⟨batch, n, List.mem_append_left _ hmem, hi⟩
  · exact .inr ⟨attempt, List.mem_append_left _ hmem⟩

theorem acksCovered_snoc {history : List Call} (h : AcksCovered history) {c : Call}
    (hc : ∀ i ok, c = .disposed .ack i ok → Covered history i) :
    AcksCovered (history ++ [c]) := by
  intro pre post i ok heq
  induction post using List.reverseRecOn with
  | nil =>
    obtain ⟨rfl, hlast⟩ := List.append_inj' heq rfl
    exact hc i ok (by simpa using hlast)
  | append_singleton post last _ =>
    rw [← List.cons_append, ← List.append_assoc] at heq
    exact h pre post i ok (List.append_inj' heq rfl).1

/-! ## One step -/

/-- A change of control that accounts for what it takes from the old one. -/
theorem Invariant.move {w : Worker} {s : System} (h : Invariant w s) (calls : List Call)
    (c : Control) (m : Metrics)
    (hpassed : calls.flatMap Call.batches ++ c.batches = s.control.batches)
    (hopen : calls.flatMap Call.settles ++ c.open = s.control.open)
    (hpending : ∀ p ∈ c.pending, p ∈ s.control.pending)
    (homitted : ∀ i, Call.omitted i ∈ calls →
      ∃ d, s.received[i]? = some d ∧ complete d = false)
    (hacks : AcksCovered (s.history ++ calls)) (hbacked : c.Backed (s.history ++ calls))
    (hrejected : ∀ i d, s.received[i]? = some d → d.hasReject = true →
      s.control.rejecting = some i → ∃ ok, Call.disposed .reject i ok ∈ calls)
    (hrejecting : c.rejecting = none) (hflushing : c.flushing = true → s.batch = [])
    (hfinished : ∀ left, c = .returned false left → left = []) :
    Invariant w { s with history := s.history ++ calls, control := c, metrics := m } := by
  have hsame : passed { s with history := s.history ++ calls, control := c, metrics := m } =
      passed s := by
    simp only [passed, List.flatMap_append, List.append_assoc, hpassed]
  constructor
  · constructor
    · rw [hsame]
      exact h.sizes
    · rw [hsame]
      exact h.submitted
    · have hsettled := h.settled
      rw [← hopen, ← List.append_assoc] at hsettled
      simpa only [List.flatMap_append] using hsettled
    · exact fun p hp => h.arrived p (hpending p hp)
    · intro i d l hc
      change c = .rejectInvalid i d l at hc
      rw [hc] at hrejecting
      cases hrejecting
    · intro i hi
      rcases List.mem_append.mp hi with hi | hi
      · exact h.omitted i hi
      · exact homitted i hi
    · exact hacks
    · exact hbacked
    · intro i d hd hdecode hreject
      right
      rcases h.invalid i d hd hdecode hreject with hat | ⟨ok, hok⟩
      · obtain ⟨ok, hok⟩ := hrejected i d hd hreject hat
        exact ⟨ok, List.mem_append_right _ hok⟩
      · exact ⟨ok, List.mem_append_left _ hok⟩
    · exact hfinished
  · exact h.room
  · exact h.awaited
  · exact h.armed
  · exact hflushing

theorem resume_cases (after : Option Loop) :
    (∃ l, resume after = .waiting l) ∨ resume after = .returned false [] := by
  cases after with
  | none => exact .inr rfl
  | some l => exact .inl ⟨l, rfl⟩

theorem flush_eq (s : System) (after : Option Loop) :
    ∃ t, flush s after =
      { s with
        timer := t, timerC := false, batch := []
        control := if s.batch = [] then resume after else .recordClicks s.batch after } := by
  refine ⟨if s.timerC then .stopped else s.timer, ?_⟩
  have hresume : (resume after).rejects = false := by cases after <;> rfl
  obtain ⟨received, batch, timerC, timer, control, history, metrics⟩ := s
  cases timerC <;> cases batch
  · exact goto_eq _ hresume
  · exact goto_eq _ rfl
  · exact goto_eq _ hresume
  · exact goto_eq _ rfl

theorem resetTimer_eq {s : System} (h : s.timerC = true → s.timer ≠ .stopped) :
    ∃ t, t ≠ Timer.stopped ∧ resetTimer s = { s with timer := t, timerC := true } := by
  obtain ⟨received, batch, timerC, timer, control, history, metrics⟩ := s
  cases timerC with
  | true => exact ⟨timer, h rfl, rfl⟩
  | false => exact ⟨.running, by decide, rfl⟩

theorem Custody.flush {w : Worker} {s : System} {l : Loop} (h : Custody w s)
    (hc : s.control = .waiting l) (hroom : s.batch.length ≤ w.batchSize)
    (after : Option Loop) : Invariant w (flush s after) := by
  obtain ⟨t, ht⟩ := flush_eq s after
  rw [ht]
  have hpassed : passed s = s.history.flatMap Call.batches := by simp [passed, hc, Control.batches]
  have hinvalid := h.invalid
  have hsettled := h.settled
  have hsubmitted := h.submitted
  have hsizes := h.sizes
  rw [hpassed] at hsubmitted hsizes
  simp only [hc, Control.open, Control.rejecting, List.append_nil, reduceCtorEq,
    false_or] at hsettled hinvalid
  by_cases hb : s.batch = []
  · rw [if_pos hb]
    rw [hb] at hsettled hsubmitted
    rcases resume_cases after with ⟨l', hl⟩ | hl
    all_goals
      rw [hl]
      refine ⟨⟨?_, ?_, ?_, ?_, ?_, h.omitted, h.acks, ?_, ?_, ?_⟩, w.batchSize_pos, ?_, ?_, ?_⟩
      · simpa [passed, Control.batches] using hsizes
      · simpa [passed, Control.batches] using hsubmitted
      · simpa [Control.open] using hsettled
      · simp [Control.pending]
      · simp
      · trivial
      · exact fun i d hd hdecode hreject => .inr (hinvalid i d hd hdecode hreject)
      · simp
      · simp
      · simp
      · simp
  · rw [if_neg hb]
    refine ⟨⟨?_, ?_, ?_, ?_, ?_, h.omitted, h.acks, ?_, ?_, ?_⟩, w.batchSize_pos, ?_, ?_, ?_⟩
    · intro b hmem
      simp only [passed, Control.batches, List.mem_append, List.mem_singleton] at hmem
      rcases hmem with hmem | rfl
      · exact hsizes b hmem
      · exact ⟨List.length_pos_iff.mpr hb, hroom⟩
    · simpa [passed, Control.batches] using hsubmitted
    · simpa [Control.open] using hsettled
    · intro p hp
      have hmem : p ∈ decodable s.received := by
        rw [← hsubmitted]
        exact List.mem_append_right _ hp
      exact (arrived_of_decodable hmem).1
    · simp
    · trivial
    · exact fun i d hd hdecode hreject => .inr (hinvalid i d hd hdecode hreject)
    · simp
    · simp
    · simp
    · simp

theorem Invariant.accept {w : Worker} {s : System} {l : Loop} (h : Invariant w s)
    (hc : s.control = .waiting l) (d : Delivery) : Invariant w (accept w s d l) := by
  have hpassed : passed s = s.history.flatMap Call.batches := by simp [passed, hc, Control.batches]
  have hsizes := h.sizes
  have hsubmitted := h.submitted
  have hsettled := h.settled
  have hinvalid := h.invalid
  rw [hpassed] at hsizes hsubmitted
  simp only [hc, Control.open, Control.rejecting, List.append_nil, reduceCtorEq,
    false_or] at hsettled hinvalid
  have homitted : ∀ i, Call.omitted i ∈ s.history →
      ∃ e, (s.received ++ [d])[i]? = some e ∧ complete e = false := by
    intro i hi
    obtain ⟨e, he, hcomplete⟩ := h.omitted i hi
    refine ⟨e, ?_, hcomplete⟩
    rw [List.getElem?_append_left (List.getElem?_eq_some_iff.mp he).1]
    exact he
  cases hdecode : decodeEvent d.body with
  | none =>
    simp only [AnalyticsWorker.accept, hdecode]
    refine ⟨⟨?_, ?_, ?_, ?_, ?_, homitted, h.acks, trivial, ?_, ?_⟩, h.room, h.awaited, h.armed, ?_⟩
    · simpa [passed, Control.batches] using hsizes
    · simpa [passed, Control.batches, decodable_snoc, hdecode] using hsubmitted
    · -- The new delivery is at hand; it stands before the batch in the list.
      have hperm := hsettled.append_right [s.received.length]
      simp only [goto_received, goto_batch, goto_control, goto_history, Control.open,
        List.length_append, List.length_singleton, List.range_succ, List.append_assoc] at hperm ⊢
      exact (List.perm_append_comm.append_left _).trans hperm
    · simp [Control.pending]
    · intro i e l' heq
      cases heq
      simp
    · intro i e he hundecoded hreject
      rcases getElem?_snoc he with hold | ⟨rfl, rfl⟩
      · exact .inr (hinvalid i e hold hundecoded hreject)
      · exact .inl rfl
    · simp
    · simp [Control.flushing]
  | some event =>
    simp only [AnalyticsWorker.accept, hdecode]
    obtain ⟨t, ht, hreset⟩ := resetTimer_eq
      (s := { s with
        received := s.received ++ [d]
        metrics := { s.metrics with received := s.metrics.received + 1 }
        batch := s.batch ++ [⟨s.received.length, d, event⟩] }) h.armed
    rw [hreset]
    have hcustody : Custody w
        { s with
          received := s.received ++ [d]
          metrics := { s.metrics with received := s.metrics.received + 1 }
          batch := s.batch ++ [⟨s.received.length, d, event⟩]
          timer := t
          timerC := true } := by
      refine ⟨?_, ?_, ?_, ?_, ?_, homitted, h.acks, h.backed, ?_, ?_⟩
      · simpa [passed, hc, Control.batches] using hsizes
      · have hgrow := congrArg (· ++ [(⟨s.received.length, d, event⟩ : Pending)]) hsubmitted
        simpa [passed, hc, Control.batches, decodable_snoc, hdecode] using hgrow
      · have hperm := hsettled.append_right [s.received.length]
        simpa [hc, Control.open, List.range_succ] using hperm
      · simp [hc, Control.pending]
      · simp [hc]
      · intro i e he hundecoded hreject
        rcases getElem?_snoc he with hold | ⟨rfl, rfl⟩
        · exact .inr (hinvalid i e hold hundecoded hreject)
        · rw [hdecode] at hundecoded
          cases hundecoded
      · simp [hc]
    have hroom : (s.batch ++ [(⟨s.received.length, d, event⟩ : Pending)]).length ≤
        w.batchSize := by
      rw [List.length_append]
      exact h.room
    split
    · exact hcustody.flush hc hroom _
    · next hsmall =>
      rw [goto_eq _ rfl]
      refine ⟨?_, by simpa using hsmall, fun _ => rfl, fun _ => ht, ?_⟩
      · rw [← hc]
        exact hcustody
      · simp [Control.flushing]

/-- What a control must satisfy to take over the deliveries `left` from the one of `s`. -/
structure Follows (s : System) (history : List Call) (left : List ℕ) (c : Control) :
    Prop where
  batches : c.batches = []
  opened : c.open = left
  pending : ∀ p ∈ c.pending, p ∈ s.control.pending
  backed : c.Backed history
  rejecting : c.rejecting = none
  flushing : c.flushing = true → s.batch = []
  finished : ∀ abandoned, c = .returned false abandoned → abandoned = []

theorem follows_resume {s : System} (history : List Call) (hb : s.batch = [])
    (after : Option Loop) : Follows s history [] (resume after) := by
  cases after with
  | none =>
    refine ⟨rfl, rfl, by simp [resume, Control.pending], trivial, rfl, fun _ => hb, ?_⟩
    intro abandoned habandoned
    cases habandoned
    rfl
  | some l => exact ⟨rfl, rfl, by simp [resume, Control.pending], trivial, rfl, fun _ => hb, nofun⟩

theorem follows_ackNext {s : System} {history : List Call} {batch : List Pending}
    (hb : s.batch = []) (hpending : ∀ p ∈ batch, p ∈ s.control.pending)
    (hcovered : ∀ p ∈ batch, Covered history p.index) (after : Option Loop) :
    Follows s history (batch.map Pending.index) (ackNext after batch) := by
  cases batch with
  | nil => exact follows_resume history hb after
  | cons p rest => exact ⟨rfl, rfl, hpending, hcovered, rfl, fun _ => hb, nofun⟩

theorem follows_retryNext {s : System} (w : Worker) {history : List Call}
    {batch : List Pending} (hb : s.batch = [])
    (hpending : ∀ p ∈ batch, p ∈ s.control.pending) (after : Option Loop) :
    Follows s history (batch.map Pending.index) (retryNext w after batch) := by
  cases batch with
  | nil => exact follows_resume history hb after
  | cons p rest =>
    simp only [retryNext]
    split
    · exact ⟨rfl, rfl, hpending, trivial, rfl, fun _ => hb, nofun⟩
    · split
      · exact ⟨rfl, rfl, hpending, trivial, rfl, fun _ => hb, nofun⟩
      · exact ⟨rfl, rfl, hpending, trivial, rfl, fun _ => hb, nofun⟩

theorem follows_returned (s : System) (history : List Call) (left : List ℕ) :
    Follows s history left (.returned true left) :=
  ⟨rfl, rfl, by simp [Control.pending], trivial, rfl, nofun, nofun⟩

theorem settle_cases {s t : System} {kind : Disposal} {i : ℕ} {d : Delivery}
    {outcome : Option Bool} {follow : Control} {left : List ℕ}
    (h : settle s kind i d outcome follow left = some t) :
    (∃ ok, t = { s with history := s.history ++ [Call.disposed kind i ok] }.goto
        (if ok then follow else .returned true left)) ∨
      (kind.present d = false ∧
        t = { s with history := s.history ++ [Call.omitted i] }.goto follow) := by
  cases hpresent : kind.present d with
  | true =>
    cases outcome with
    | none => simp [settle, hpresent] at h
    | some ok =>
      left
      refine ⟨ok, ?_⟩
      cases ok <;> simpa [settle, hpresent] using h.symm
  | false =>
    cases outcome with
    | none =>
      right
      exact ⟨rfl, by simpa [settle, hpresent] using h.symm⟩
    | some ok => simp [settle, hpresent] at h

theorem complete_of_absent {d : Delivery} {kind : Disposal} (h : kind.present d = false) :
    complete d = false := by
  cases kind <;> simp_all [Disposal.present, complete]

/-- The delivery at the head of what is open is settled and the rest is handed on. -/
theorem Invariant.settle {w : Worker} {s t : System} (h : Invariant w s) (kind : Disposal)
    {i : ℕ} {d : Delivery} {outcome : Option Bool} {follow : Control} {left : List ℕ}
    (hopen : s.control.open = i :: left) (hbatches : s.control.batches = [])
    (hd : s.received[i]? = some d) (hcovered : kind = .ack → Covered s.history i)
    (hrejecting : ∀ j, s.control.rejecting = some j → kind = .reject ∧ j = i)
    (hfollow : ∀ call, Follows s (s.history ++ [call]) left follow)
    (hs : settle s kind i d outcome follow left = some t) : Invariant w t := by
  rcases settle_cases hs with ⟨ok, rfl⟩ | ⟨habsent, rfl⟩
  · have hnext : Follows s (s.history ++ [Call.disposed kind i ok]) left
        (if ok then follow else .returned true left) := by
      cases ok
      · exact follows_returned _ _ _
      · exact hfollow _
    refine h.move [Call.disposed kind i ok] _ _ ?_ ?_ hnext.pending ?_ ?_ hnext.backed ?_
      hnext.rejecting hnext.flushing hnext.finished
    · simp [hnext.batches, hbatches, Call.batches]
    · simp [hnext.opened, hopen, Call.settles]
    · simp
    · apply acksCovered_snoc h.acks
      intro j ok' heq
      cases heq
      exact hcovered rfl
    · intro j e _ _ hj
      obtain ⟨rfl, rfl⟩ := hrejecting j hj
      exact ⟨ok, List.mem_singleton_self _⟩
  · have hnext := hfollow (Call.omitted i)
    refine h.move [Call.omitted i] _ _ ?_ ?_ hnext.pending ?_ ?_ hnext.backed ?_
      hnext.rejecting hnext.flushing hnext.finished
    · simp [hnext.batches, hbatches, Call.batches]
    · simp [hnext.opened, hopen, Call.settles]
    · intro j hj
      simp only [List.mem_singleton, Call.omitted.injEq] at hj
      subst hj
      exact ⟨d, hd, complete_of_absent habsent⟩
    · apply acksCovered_snoc h.acks
      intro j ok heq
      cases heq
    · intro j e he hreject hj
      obtain ⟨rfl, rfl⟩ := hrejecting j hj
      rw [hd] at he
      cases he
      rw [Disposal.present, hreject] at habsent
      cases habsent

theorem Invariant.countRequeue {w : Worker} {s : System} (h : Invariant w s)
    (kind : Disposal) : Invariant w (countRequeue kind s) := by
  have hmetrics : ∀ m, Invariant w { s with metrics := m } := fun m =>
    ⟨⟨h.sizes, h.submitted, h.settled, h.arrived, h.rejecting, h.omitted, h.acks, h.backed,
      h.invalid, h.finished⟩, h.room, h.awaited, h.armed, h.emptied⟩
  simp only [AnalyticsWorker.countRequeue]
  split
  · exact h
  · split
    · exact h
    · exact hmetrics _

theorem Invariant.callback {w : Worker} {s t : System} (h : Invariant w s)
    {outcome : Option Bool} (hs : callback w s outcome = some t) : Invariant w t := by
  simp only [AnalyticsWorker.callback] at hs
  split at hs
  · next i d l hc =>
    refine h.settle .reject (by rw [hc]; rfl) (by rw [hc]; rfl)
      (h.rejecting i d l hc) (fun hack => by cases hack) ?_ ?_ hs
    · intro j hj
      rw [hc] at hj
      cases hj
      exact ⟨rfl, rfl⟩
    · intro call
      exact ⟨rfl, rfl, by simp [Control.pending], trivial, rfl, (fun h => by cases h),
        (fun _ h => by cases h)⟩
  · next p rest after hc =>
    have hb := h.emptied (by rw [hc]; rfl)
    have harrived := h.arrived p (by rw [hc]; exact List.mem_cons_self)
    have hbacked := h.backed
    rw [hc] at hbacked
    refine h.settle .ack (by rw [hc]; rfl) (by rw [hc]; rfl) harrived
      (fun _ => hbacked p List.mem_cons_self) (by rw [hc]; intro _ hj; cases hj) ?_ hs
    intro call
    apply follows_ackNext hb
    · intro q hq
      rw [hc]
      exact List.mem_cons_of_mem p hq
    · intro q hq
      exact Covered.append (hbacked q (List.mem_cons_of_mem p hq)) _
  · next kind p rest after hc =>
    obtain ⟨u, hu, rfl⟩ := Option.map_eq_some_iff.mp hs
    apply Invariant.countRequeue
    have hb := h.emptied (by rw [hc]; rfl)
    have harrived := h.arrived p (by rw [hc]; exact List.mem_cons_self)
    have hbacked := h.backed
    rw [hc] at hbacked
    refine h.settle kind (by rw [hc]; rfl) (by rw [hc]; rfl) harrived ?_
      (by rw [hc]; intro _ hj; cases hj) ?_ hu
    · rintro rfl
      exact hbacked
    · intro call
      apply follows_retryNext w hb
      intro q hq
      rw [hc]
      exact List.mem_cons_of_mem p hq
  · cases hs

theorem Invariant.recorded {w : Worker} {s : System} (h : Invariant w s)
    {batch : List Pending} {after : Option Loop} (hc : s.control = .recordClicks batch after)
    (inserted : Option ℤ) (m : Metrics) :
    Invariant w ({ s with
      history := s.history ++ [Call.recordClicks batch inserted]
      metrics := m }.goto
      (if inserted.isSome then ackNext after batch else retryNext w after batch)) := by
  have hb := h.emptied (by rw [hc]; rfl)
  have hpending : ∀ p ∈ batch, p ∈ s.control.pending := by
    intro p hp
    rw [hc]
    exact hp
  have hnext : Follows s (s.history ++ [Call.recordClicks batch inserted])
      (batch.map Pending.index)
      (if inserted.isSome then ackNext after batch else retryNext w after batch) := by
    cases inserted with
    | none => exact follows_retryNext w hb hpending after
    | some n =>
      apply follows_ackNext hb hpending
      intro p hp
      exact .inl ⟨batch, n, List.mem_append_right _ List.mem_cons_self, List.mem_map_of_mem hp⟩
  refine h.move [Call.recordClicks batch inserted] _ _ ?_ ?_ hnext.pending (by simp) ?_
    hnext.backed ?_ hnext.rejecting hnext.flushing hnext.finished
  · rw [hnext.batches, hc]
    rfl
  · rw [hnext.opened, hc]
    rfl
  · apply acksCovered_snoc h.acks
    intro i ok heq
    cases heq
  · intro i d _ _ hi
    rw [hc] at hi
    cases hi

theorem Invariant.retried {w : Worker} {s : System} (h : Invariant w s) {p : Pending}
    {rest : List Pending} {after : Option Loop} (hc : s.control = .retrying p rest after)
    (ok : Bool) :
    Invariant w ({ s with history := s.history ++ [Call.retry p.index p.attempt ok] }.goto
      (.settling (if ok then .ack else .reject) p rest after)) := by
  have hb := h.emptied (by rw [hc]; rfl)
  refine h.move [Call.retry p.index p.attempt ok]
    (.settling (if ok then .ack else .reject) p rest after) _ ?_ ?_ ?_ (by simp) ?_ ?_ ?_ rfl
    (fun _ => hb) nofun
  · rw [hc]
    rfl
  · rw [hc]
    rfl
  · rw [hc]
    exact fun q hq => hq
  · apply acksCovered_snoc h.acks
    intro i ok' heq
    cases heq
  · cases ok with
    | false => trivial
    | true => exact .inr ⟨p.attempt, List.mem_append_right _ List.mem_cons_self⟩
  · intro i d _ _ hi
    rw [hc] at hi
    cases hi

theorem invariant_start (w : Worker) : Invariant w start := by
  refine ⟨⟨?_, rfl, List.Perm.refl _, ?_, ?_, ?_, ?_, trivial, ?_, ?_⟩, w.batchSize_pos, ?_, ?_, ?_⟩
  · simp [start, passed, Control.batches]
  · simp [start, Control.pending]
  · simp [start]
  · simp [start]
  · intro pre post i ok heq
    simp [start] at heq
  · simp [start]
  · simp [start]
  · simp [start]
  · simp [start]
  · simp [start]

theorem invariant_next {w : Worker} {s t : System} {e : Event} (h : Invariant w s)
    (hstep : next w s e = some t) : Invariant w t := by
  cases e with
  | receive d =>
    simp only [next] at hstep
    split at hstep
    · next l hc =>
      cases hstep
      exact h.accept hc d
    · cases hstep
  | closed =>
    simp only [next] at hstep
    split at hstep
    · next l hc =>
      cases hstep
      exact h.flush hc (Nat.le_of_lt h.room) none
    · cases hstep
  | tick =>
    simp only [next] at hstep
    split at hstep
    · cases hstep
      exact ⟨⟨h.sizes, h.submitted, h.settled, h.arrived, h.rejecting, h.omitted, h.acks,
        h.backed, h.invalid, h.finished⟩, h.room, h.awaited, fun _ => by simp, h.emptied⟩
    · cases hstep
  | fire =>
    simp only [next] at hstep
    split at hstep
    · next hc =>
      split at hstep
      · cases hstep
        have hcustody : Custody w { s with timer := .stopped, timerC := false } :=
          ⟨h.sizes, h.submitted, h.settled, h.arrived, h.rejecting, h.omitted, h.acks,
            h.backed, h.invalid, h.finished⟩
        exact hcustody.flush hc (Nat.le_of_lt h.room) _
      · cases hstep
    · cases hstep
  | done =>
    simp only [next] at hstep
    split at hstep
    · next hc =>
      cases hstep
      have hmove := h.move [] (.waiting .drain) s.metrics (by rw [hc]; rfl) (by rw [hc]; rfl)
        (by simp [Control.pending]) (by simp) (by simpa using h.acks) trivial
        (by rw [hc]; intro _ _ _ _ hj; cases hj) rfl (fun h => by cases h) (fun _ h => by cases h)
      simpa [System.goto, Control.rejects] using hmove
    · cases hstep
  | empty =>
    simp only [next] at hstep
    split at hstep
    · next hc =>
      cases hstep
      exact h.flush hc (Nat.le_of_lt h.room) none
    · cases hstep
  | recorded inserted =>
    simp only [next] at hstep
    split at hstep
    · next hc =>
      cases hstep
      exact h.recorded hc inserted _
    · cases hstep
  | retried ok =>
    simp only [next] at hstep
    split at hstep
    · next hc =>
      cases hstep
      exact h.retried hc ok
    · cases hstep
  | called ok => exact h.callback hstep
  | skip => exact h.callback hstep

theorem invariant_execution {w : Worker} {es : List Event} {s : System}
    (h : Execution (next w) start es s) : Invariant w s :=
  h.invariant (invariant_start w) fun _ _ _ hu => invariant_next hu

/-! ## What a run keeps to -/

/-- Nothing is lost, duplicated or acked too early. -/
structure Conserves (w : Worker) (s : System) : Prop where
  batch_sizes : ∀ b ∈ passed s, 1 ≤ b.length ∧ b.length ≤ w.batchSize
  in_order : (passed s).flatten <+: decodable s.received
  once : ((passed s).flatten.map Pending.index).Nodup
  all_passed : ∀ left, s.control = .returned false left →
    (passed s).flatten = decodable s.received
  disposed_once : ∀ i, disposals s.history i ≤ 1
  all_disposed : ∀ left, s.control = .returned false left → ∀ i d, s.received[i]? = some d →
    complete d = true → disposals s.history i = 1
  acked_after : AcksCovered s.history
  invalid_kept_back : ∀ i d, s.received[i]? = some d → decodeEvent d.body = none →
    i ∉ (passed s).flatten.map Pending.index
  /-- The call may be under way. -/
  invalid_rejected : ∀ i d, s.received[i]? = some d → decodeEvent d.body = none →
    d.hasReject = true →
    s.control.rejecting = some i ∨ ∃ ok, Call.disposed .reject i ok ∈ s.history
  armed : s.control = .waiting .select → s.batch ≠ [] →
    s.timerC = true ∧ s.timer ≠ .stopped

theorem count_settles (history : List Call) (i : ℕ) :
    (history.flatMap Call.settles).count i =
      disposals history i + history.countP fun
        | .omitted j => j = i
        | _ => false := by
  induction history with
  | nil => rfl
  | cons c history ih =>
    rw [List.flatMap_cons, List.count_append, ih]
    cases c <;> simp [disposals, Call.settles, List.count_singleton, List.countP_cons] <;> omega

theorem Custody.settled_once {w : Worker} {s : System} (h : Custody w s) (i : ℕ) :
    (s.history.flatMap Call.settles).count i ≤ 1 := by
  have hcount := h.settled.count_eq i
  have hrange := List.nodup_iff_count_le_one.mp (List.nodup_range (n := s.received.length)) i
  rw [List.count_append, List.count_append] at hcount
  omega

theorem conserves_of_invariant {w : Worker} {s : System} (h : Invariant w s) :
    Conserves w s := by
  have hinitial : (passed s).flatten <+: decodable s.received := ⟨s.batch, h.submitted⟩
  have hemptied : ∀ left, s.control = .returned false left → s.batch = [] := by
    intro left hc
    exact h.emptied (by rw [hc]; rfl)
  refine ⟨h.sizes, hinitial, ?_, ?_, ?_, ?_, h.acks, ?_, h.invalid, ?_⟩
  · exact (nodup_decodable _).sublist (hinitial.sublist.map _)
  · intro left hc
    have hsubmitted := h.submitted
    rwa [hemptied left hc, List.append_nil] at hsubmitted
  · intro i
    have honce := h.settled_once i
    rw [count_settles] at honce
    omega
  · intro left hc i d hd hcomplete
    have hcount := h.settled.count_eq i
    obtain rfl := h.finished left hc
    rw [hemptied _ hc, hc] at hcount
    simp only [Control.open, List.map_nil, List.append_nil] at hcount
    have hrange : (List.range s.received.length).count i = 1 :=
      List.count_eq_one_of_mem List.nodup_range
        (List.mem_range.mpr (List.getElem?_eq_some_iff.mp hd).1)
    -- Nothing of a complete delivery is omitted.
    have hnone : (s.history.countP fun
        | .omitted j => j = i
        | _ => false) = 0 := by
      rw [List.countP_eq_zero]
      intro call hcall
      cases call with
      | omitted j =>
        intro hj
        obtain rfl : j = i := by simpa using hj
        obtain ⟨e, he, hlacks⟩ := h.omitted j hcall
        rw [hd] at he
        cases he
        rw [hcomplete] at hlacks
        cases hlacks
      | _ => simp
    rw [count_settles] at hcount
    omega
  · intro i d hd hdecode hmem
    obtain ⟨p, hp, rfl⟩ := List.mem_map.mp hmem
    obtain ⟨harrived, hevent⟩ := arrived_of_decodable (hinitial.subset hp)
    rw [Arrived, hd] at harrived
    cases harrived
    rw [hdecode] at hevent
    cases hevent
  · intro _ hb
    exact ⟨h.awaited hb, h.armed (h.awaited hb)⟩

theorem run_conserves_deliveries (w : Worker) (es : List Event) (s : System)
    (h : Execution (next w) start es s) : Conserves w s :=
  conserves_of_invariant (invariant_execution h)

/-- Two clicks around a malformed message, in batches of two; the batch fails, one event is
scheduled again and the other goes to the dead-letter queue. -/
def failedBatch : List Event :=
  [.receive (sampleDelivery (GoText.lit "aaaaaaaa-0000-4000-8000-000000000001") 1),
    .receive { body := ⟨none, false⟩ }, .called true,
    .receive (sampleDelivery (GoText.lit "aaaaaaaa-0000-4000-8000-000000000002") 1),
    .recorded none, .retried true, .called true, .retried false, .called true, .done, .empty]

def isReturned (c : Control) : Bool :=
  match c with
  | .returned false _ => true
  | _ => false

theorem run_conserves_deliveries_failed_batch :
    ∃ s, Conserves (NewWorker 2 0 5 true) s ∧ isReturned s.control = true ∧
      (passed s).map (·.map Pending.index) = [[0, 2]] ∧
      (List.range 3).map (disposals s.history) = [1, 1, 1] := by
  have hreplay : (replay (next (NewWorker 2 0 5 true)) start failedBatch).map (fun s =>
      (isReturned s.control, (passed s).map (·.map Pending.index),
        (List.range 3).map (disposals s.history))) = some (true, [[0, 2]], [1, 1, 1]) := by
    decide
  obtain ⟨s, hs, hsummary⟩ := Option.map_eq_some_iff.mp hreplay
  have hrun := execution_of_replay hs
  simp only [Prod.mk.injEq] at hsummary
  exact ⟨s, run_conserves_deliveries _ failedBatch s hrun, hsummary⟩

end WorkerRuns
