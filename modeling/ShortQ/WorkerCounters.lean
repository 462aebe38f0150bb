import ShortQ.WorkerRuns

/-! # The counters of the worker

What the nine counters have counted after a run, as natural numbers. Each step adds a tally of its
own; what is neither counted as settled nor lost is in the batch or at hand. -/
namespace WorkerCounters

open AnalyticsWorker
open ClickWire
open LabelledRuns
open WorkerRuns

@[ext]
structure Tally where
  received : ℕ := 0
  committed : ℕ := 0
  duplicate : ℕ := 0
  invalid : ℕ := 0
  requeue : ℕ := 0
  dlq : ℕ := 0
  failures : ℕ := 0
  batches : ℕ := 0
  batchEvents : ℕ := 0

instance : Add Tally where
  add a b :=
    { received := a.received + b.received
      committed := a.committed + b.committed
      duplicate := a.duplicate + b.duplicate
      invalid := a.invalid + b.invalid
      requeue := a.requeue + b.requeue
      dlq := a.dlq + b.dlq
      failures := a.failures + b.failures
      batches := a.batches + b.batches
      batchEvents := a.batchEvents + b.batchEvents }

variable (a b : Tally)

@[simp] theorem add_received : (a + b).received = a.received + b.received := rfl
@[simp] theorem add_committed : (a + b).committed = a.committed + b.committed := rfl
@[simp] theorem add_duplicate : (a + b).duplicate = a.duplicate + b.duplicate := rfl
@[simp] theorem add_invalid : (a + b).invalid = a.invalid + b.invalid := rfl
@[simp] theorem add_requeue : (a + b).requeue = a.requeue + b.requeue := rfl
@[simp] theorem add_dlq : (a + b).dlq = a.dlq + b.dlq := rfl
@[simp] theorem add_failures : (a + b).failures = a.failures + b.failures := rfl
@[simp] theorem add_batches : (a + b).batches = a.batches + b.batches := rfl
@[simp] theorem add_batchEvents : (a + b).batchEvents = a.batchEvents + b.batchEvents := rfl

/-- The counters after a tally: they count modulo `2 ^ 64`. -/
def Tally.count (t : Tally) (m : Metrics) : Metrics where
  received := m.received + UInt64.ofNat t.received
  committed := m.committed + UInt64.ofNat t.committed
  duplicate := m.duplicate + UInt64.ofNat t.duplicate
  invalid := m.invalid + UInt64.ofNat t.invalid
  requeue := m.requeue + UInt64.ofNat t.requeue
  dlq := m.dlq + UInt64.ofNat t.dlq
  failures := m.failures + UInt64.ofNat t.failures
  batches := m.batches + UInt64.ofNat t.batches
  batchEvents := m.batchEvents + UInt64.ofNat t.batchEvents

theorem count_add (m : Metrics) : (a + b).count m = b.count (a.count m) := by
  simp only [Tally.count, add_received, add_committed, add_duplicate, add_invalid, add_requeue,
    add_dlq, add_failures, add_batches, add_batchEvents, UInt64.ofNat_add, UInt64.add_assoc]

/-! ## Where a delivery is before it is counted -/

def Control.rejected (c : Control) : ℕ := if c.rejects then 1 else 0

/-- The deliveries at hand that no counter of an outcome holds yet. -/
def Control.uncounted : Control → ℕ
  | .recordClicks batch _ => batch.length
  | .retrying _ rest _ => rest.length + 1
  | .settling .reject _ rest _ => rest.length
  | .settling _ _ rest _ => rest.length + 1
  | _ => 0

/-- The deliveries at hand that are not counted as part of a batch yet. -/
def Control.unobserved : Control → ℕ
  | .recordClicks batch _ => batch.length
  | _ => 0

def failed : Control → Bool
  | .returned true _ => true
  | _ => false

/-- A step that adds `d` to the counters. -/
structure Adds (s u : System) (d : Tally) : Prop where
  metrics : u.metrics = d.count s.metrics
  received : u.received.length = s.received.length + d.received
  alive : failed u.control = false → failed s.control = false
  balance : failed u.control = false →
    d.received + (s.batch.length + Control.uncounted s.control)
      = d.committed + d.duplicate + d.requeue + d.dlq
        + (u.batch.length + Control.uncounted u.control)
  observed : d.received + (s.batch.length + Control.unobserved s.control)
    = d.invalid + d.batchEvents + (u.batch.length + Control.unobserved u.control)
  invalid : d.invalid ≤ d.dlq
  failures : d.failures ≤ d.batches
  batches : d.batches ≤ d.batchEvents

theorem Adds.trans {s u v : System} {d e : Tally} (h : Adds s u d) (k : Adds u v e) :
    Adds s v (d + e) := by
  have hbalance := h.balance
  have kbalance := k.balance
  have hobserved := h.observed
  have kobserved := k.observed
  constructor
  · rw [k.metrics, h.metrics, count_add]
  · rw [k.received, h.received, add_received, Nat.add_assoc]
  · exact fun hv => h.alive (k.alive hv)
  · intro hv
    have hb := hbalance (k.alive hv)
    have kb := kbalance hv
    simp only [add_received, add_committed, add_duplicate, add_requeue, add_dlq]
    omega
  · simp only [add_received, add_invalid, add_batchEvents]
    omega
  · exact Nat.add_le_add h.invalid k.invalid
  · exact Nat.add_le_add h.failures k.failures
  · exact Nat.add_le_add h.batches k.batches

theorem count_zero (m : Metrics) : ({} : Tally).count m = m := by
  simp [Tally.count]

/-- A step that counts nothing. -/
theorem Adds.silent {s u : System} (hmetrics : u.metrics = s.metrics)
    (hreceived : u.received = s.received)
    (halive : failed u.control = false → failed s.control = false)
    (hbalance : failed u.control = false → s.batch.length + Control.uncounted s.control
      = u.batch.length + Control.uncounted u.control)
    (hobserved : s.batch.length + Control.unobserved s.control
      = u.batch.length + Control.unobserved u.control) : Adds s u {} := by
  constructor
  · rw [hmetrics, count_zero]
  · rw [hreceived, Nat.add_zero]
  · exact halive
  · intro hu
    have hb := hbalance hu
    dsimp only
    omega
  · dsimp only
    omega
  · exact Nat.le_refl 0
  · exact Nat.le_refl 0
  · exact Nat.le_refl 0

theorem resume_counts (after : Option Loop) : failed (resume after) = false ∧
    Control.rejected (resume after) = 0 ∧ Control.uncounted (resume after) = 0 ∧
      Control.unobserved (resume after) = 0 := by
  cases after <;> exact ⟨rfl, rfl, rfl, rfl⟩

theorem ackNext_counts (after : Option Loop) (batch : List Pending) :
    failed (ackNext after batch) = false ∧ Control.rejected (ackNext after batch) = 0 ∧
      Control.uncounted (ackNext after batch) = 0 ∧
        Control.unobserved (ackNext after batch) = 0 := by
  cases batch with
  | nil => exact resume_counts after
  | cons p rest => exact ⟨rfl, rfl, rfl, rfl⟩

/-- Of the deliveries left to `retryBatch` one may be on its way to the dead-letter queue. -/
theorem retryNext_counts (w : Worker) (after : Option Loop) (batch : List Pending) :
    failed (retryNext w after batch) = false ∧
      Control.rejected (retryNext w after batch) + Control.uncounted (retryNext w after batch)
        = batch.length ∧ Control.unobserved (retryNext w after batch) = 0 := by
  cases batch with
  | nil =>
    obtain ⟨hfailed, hrejected, huncounted, hunobserved⟩ := resume_counts after
    rw [retryNext, hrejected, huncounted]
    exact ⟨hfailed, rfl, hunobserved⟩
  | cons p rest =>
    rw [retryNext]
    by_cases hmax : w.maxRetries ≤ p.attempt
    · rw [if_pos hmax]
      exact ⟨rfl, Nat.add_comm 1 rest.length, rfl⟩
    · rw [if_neg hmax]
      split
      · exact ⟨rfl, Nat.zero_add _, rfl⟩
      · exact ⟨rfl, Nat.zero_add _, rfl⟩

theorem goto_metrics (s : System) (c : Control) :
    (s.goto c).metrics = ({ dlq := Control.rejected c } : Tally).count s.metrics := by
  unfold System.goto Control.rejected
  cases c.rejects <;> simp [Tally.count]

/-! ## What each step adds -/

variable {w : Worker} {s t : System}

theorem adds_flush {l : Loop} (hc : s.control = .waiting l) (after : Option Loop) :
    Adds s (flush s after) {} := by
  obtain ⟨timer, heq⟩ := flush_eq s after
  have hmetrics : (flush s after).metrics = s.metrics := by rw [heq]
  obtain ⟨hfailed, -, huncounted, hunobserved⟩ := resume_counts after
  refine Adds.silent hmetrics (by rw [heq]) (fun _ => by rw [hc]; rfl) ?_ ?_
  · intro _
    rw [heq, hc]
    dsimp only
    by_cases hbatch : s.batch = []
    · rw [if_pos hbatch, huncounted, hbatch]
      rfl
    · rw [if_neg hbatch]
      exact Nat.add_comm s.batch.length 0
  · rw [heq, hc]
    dsimp only
    by_cases hbatch : s.batch = []
    · rw [if_pos hbatch, hunobserved, hbatch]
      rfl
    · rw [if_neg hbatch]
      exact Nat.add_comm s.batch.length 0

/-- An event goes into the batch, and a full batch is flushed. -/
theorem adds_push {l : Loop} (hc : s.control = .waiting l) (d : Delivery) (p : Pending) :
    Adds s (resetTimer { s with
        received := s.received ++ [d]
        metrics := { s.metrics with received := s.metrics.received + 1 }
        batch := s.batch ++ [p] }) { received := 1 } := by
  have hframe : ∀ u : System, (resetTimer u).metrics = u.metrics ∧
      (resetTimer u).received = u.received ∧ (resetTimer u).batch = u.batch ∧
        (resetTimer u).control = u.control := by
    intro u
    unfold resetTimer
    split <;> exact ⟨rfl, rfl, rfl, rfl⟩
  obtain ⟨hmetrics, hreceived, hbatch, hcontrol⟩ := hframe { s with
    received := s.received ++ [d]
    metrics := { s.metrics with received := s.metrics.received + 1 }
    batch := s.batch ++ [p] }
  constructor
  · rw [hmetrics]
    simp [Tally.count]
  · rw [hreceived, List.length_append]
    rfl
  · intro _
    rw [hc]
    rfl
  · intro _
    rw [hcontrol, hbatch, hc, List.length_append]
    simp only [Control.uncounted, List.length_singleton]
    omega
  · rw [hcontrol, hbatch, hc, List.length_append]
    simp only [Control.unobserved, List.length_singleton]
    omega
  · exact Nat.le_refl 0
  · exact Nat.le_refl 0
  · exact Nat.le_refl 0

theorem adds_accept {l : Loop} (hc : s.control = .waiting l) (d : Delivery) :
    ∃ added, Adds s (accept w s d l) added := by
  unfold accept
  dsimp only
  split
  · refine ⟨{ received := 1, invalid := 1, dlq := 1 }, ?_⟩
    constructor
    · rw [goto_metrics]
      simp [Tally.count, Control.rejected, Control.rejects]
    · simp
    · intro _
      rw [hc]
      rfl
    · intro _
      rw [hc]
      simp only [goto_batch, goto_control, Control.uncounted]
    · rw [hc]
      simp only [goto_batch, goto_control, Control.unobserved]
    · exact Nat.le_refl 1
    · exact Nat.le_refl 0
    · exact Nat.le_refl 0
  · rename_i event _
    have hpush := adds_push hc d ⟨s.received.length, d, event⟩
    have hcontrol : (resetTimer { s with
        received := s.received ++ [d]
        metrics := { s.metrics with received := s.metrics.received + 1 }
        batch := s.batch ++ [⟨s.received.length, d, event⟩] }).control = .waiting l := by
      unfold resetTimer
      split <;> exact hc
    split
    · exact ⟨_, hpush.trans (adds_flush hcontrol (some l))⟩
    · rw [goto_eq _ rfl, ← hcontrol]
      exact ⟨_, hpush⟩

/-- The insertions reported are as many as the batch has events, at most. -/
def Within (batch : List Pending) : Option ℤ → Prop
  | none => True
  | some n => 0 ≤ n ∧ n ≤ batch.length

/-- The subtraction of the insertions from the size of the batch does not wrap. -/
theorem toNat_ofInt {n : ℤ} (hpos : 0 ≤ n) (hlt : n < 2 ^ 64) :
    ((UInt64.ofInt n).toNat : ℤ) = n := by
  rw [UInt64.ofInt, Int.emod_eq_of_lt hpos hlt, UInt64.toNat_ofNat_of_lt']
  · exact Int.toNat_of_nonneg hpos
  · change n.toNat < 2 ^ 64
    omega

theorem ofInt_eq {n : ℤ} (hpos : 0 ≤ n) : UInt64.ofInt n = UInt64.ofNat n.toNat := by
  obtain ⟨k, rfl⟩ := Int.eq_ofNat_of_zero_le hpos
  rw [UInt64.ofInt, Int.toNat_natCast]
  apply UInt64.toNat_inj.mp
  rw [UInt64.toNat_ofNat', UInt64.toNat_ofNat']
  omega

theorem adds_recorded {batch : List Pending} {after : Option Loop} {inserted : Option ℤ}
    (hc : s.control = .recordClicks batch after) (hbatch : 1 ≤ batch.length)
    (hwithin : Within batch inserted) :
    ∃ added, Adds s ({ s with
        history := s.history ++ [Call.recordClicks batch inserted]
        metrics := s.metrics.observe batch.length inserted }.goto
          (if inserted.isSome then ackNext after batch else retryNext w after batch)) added := by
  have halive : failed s.control = false := by rw [hc]; rfl
  cases inserted with
  | none =>
    obtain ⟨hfailed, hcounts, hunobserved⟩ := retryNext_counts w after batch
    let added : Tally :=
      { batches := 1
        batchEvents := batch.length
        failures := 1
        dlq := Control.rejected (retryNext w after batch) }
    refine ⟨added, ?_⟩
    constructor
    · rw [goto_metrics]
      simp [Tally.count, Metrics.observe, added]
    · rfl
    · exact fun _ => halive
    · intro _
      rw [hc]
      change 0 + (s.batch.length + batch.length) = 0 + 0 + 0 +
        Control.rejected (retryNext w after batch) +
          (s.batch.length + Control.uncounted (retryNext w after batch))
      omega
    · rw [hc]
      change 0 + (s.batch.length + batch.length) = 0 + batch.length +
        (s.batch.length + Control.unobserved (retryNext w after batch))
      omega
    · exact Nat.zero_le _
    · exact Nat.le_refl 1
    · exact hbatch
  | some n =>
    obtain ⟨hfailed, hrejected, huncounted, hunobserved⟩ := ackNext_counts after batch
    obtain ⟨hpos, hle⟩ := hwithin
    let added : Tally :=
      { batches := 1
        batchEvents := batch.length
        committed := n.toNat
        duplicate := (batch.length - n).toNat }
    refine ⟨added, ?_⟩
    constructor
    · have hcounted : UInt64.ofInt n = UInt64.ofNat n.toNat ∧
          UInt64.ofInt (batch.length - n) = UInt64.ofNat (batch.length - n).toNat :=
        ⟨ofInt_eq hpos, ofInt_eq (by omega)⟩
      rw [goto_metrics]
      simp [Tally.count, Metrics.observe, added, hrejected, hcounted]
    · rfl
    · exact fun _ => halive
    · intro _
      rw [hc]
      change 0 + (s.batch.length + batch.length) = n.toNat + (batch.length - n).toNat + 0 + 0 +
        (s.batch.length + Control.uncounted (ackNext after batch))
      omega
    · rw [hc]
      change 0 + (s.batch.length + batch.length) = 0 + batch.length +
        (s.batch.length + Control.unobserved (ackNext after batch))
      omega
    · exact Nat.le_refl 0
    · exact Nat.zero_le 1
    · exact hbatch

theorem adds_retried {p : Pending} {rest : List Pending} {after : Option Loop} {ok : Bool}
    (hc : s.control = .retrying p rest after) (history : List Call) :
    ∃ added, Adds s ({ s with history := history }.goto
      (.settling (if ok then .ack else .reject) p rest after)) added := by
  have halive : failed s.control = false := by rw [hc]; rfl
  cases ok with
  | true =>
    refine ⟨{}, Adds.silent rfl rfl (fun _ => halive) ?_ ?_⟩
    · intro _
      rw [hc]
      rfl
    · rw [hc]
      rfl
  | false =>
    refine ⟨{ dlq := 1 }, ?_⟩
    constructor
    · rw [goto_metrics]
      rfl
    · rfl
    · exact fun _ => halive
    · intro _
      rw [hc]
      change 0 + (s.batch.length + (rest.length + 1)) = 0 + 0 + 0 + 1 +
        (s.batch.length + rest.length)
      omega
    · rw [hc]
      simp [Control.unobserved]
    · exact Nat.zero_le 1
    · exact Nat.le_refl 0
    · exact Nat.le_refl 0

/-- A callback that fails ends the run, and nothing is owed any more. -/
theorem adds_returned (halive : failed s.control = false)
    (hunobserved : Control.unobserved s.control = 0) (history : List Call) (left : List ℕ) :
    Adds s ({ s with history := history }.goto (.returned true left)) {} := by
  refine Adds.silent rfl rfl (fun _ => halive) ?_ ?_
  · intro h
    cases h
  · rw [hunobserved]
    rfl

/-- A callback after which nothing else is counted. -/
theorem adds_moved {follow : Control} (halive : failed s.control = false)
    (hrejected : Control.rejected follow = 0)
    (huncounted : Control.uncounted s.control = Control.uncounted follow)
    (hunobserved : Control.unobserved s.control = Control.unobserved follow)
    (history : List Call) : Adds s ({ s with history := history }.goto follow) {} := by
  refine Adds.silent ?_ rfl (fun _ => halive) ?_ ?_
  · rw [goto_metrics, hrejected, count_zero]
  · intro _
    rw [huncounted]
    rfl
  · rw [hunobserved]
    rfl

/-- The end of one round of `retryBatch`: the delivery at hand is counted as requeued, unless it
was counted as rejected before. -/
theorem adds_settled {kind : Disposal} {p : Pending} {rest : List Pending} {after : Option Loop}
    (hc : s.control = .settling kind p rest after) (history : List Call) :
    ∃ added, Adds s (countRequeue kind
      ({ s with history := history }.goto (retryNext w after rest))) added := by
  have halive : failed s.control = false := by rw [hc]; rfl
  obtain ⟨hfailed, hcounts, hunobserved⟩ := retryNext_counts w after rest
  let requeued : ℕ := if kind = .reject then 0 else 1
  let added : Tally :=
    { requeue := requeued
      dlq := Control.rejected (retryNext w after rest) }
  have hcontrol : countRequeue kind ({ s with history := history }.goto (retryNext w after rest))
      = { { s with history := history }.goto (retryNext w after rest) with
          metrics := added.count s.metrics } := by
    have hmetrics := goto_metrics { s with history := history } (retryNext w after rest)
    unfold countRequeue
    split
    · rename_i hreturned
      rw [goto_control] at hreturned
      rw [hreturned] at hfailed
      cases hfailed
    · by_cases hkind : kind = .reject
      · rw [if_pos hkind]
        have hadded : added.count s.metrics
            = ({ dlq := Control.rejected (retryNext w after rest) } : Tally).count s.metrics := by
          simp [added, requeued, hkind]
        rw [hadded, ← hmetrics]
      · rw [if_neg hkind, hmetrics]
        simp [Tally.count, added, requeued, hkind]
  refine ⟨added, ?_⟩
  rw [hcontrol]
  constructor
  · rfl
  · rfl
  · exact fun _ => halive
  · intro _
    rw [hc]
    have hhand : Control.uncounted (.settling kind p rest after) = rest.length + requeued := by
      cases kind <;> rfl
    rw [hhand]
    change 0 + (s.batch.length + (rest.length + requeued)) = 0 + 0 + requeued +
      Control.rejected (retryNext w after rest) +
        (s.batch.length + Control.uncounted (retryNext w after rest))
    omega
  · rw [hc]
    change 0 + (s.batch.length + 0) = 0 + 0 +
      (s.batch.length + Control.unobserved (retryNext w after rest))
    omega
  · exact Nat.zero_le _
  · exact Nat.le_refl 0
  · exact Nat.le_refl 0

theorem adds_callback {outcome : Option Bool} (h : callback w s outcome = some t) :
    ∃ added, Adds s t added := by
  unfold callback at h
  split at h
  · rename_i i d l hc
    have halive : failed s.control = false := by rw [hc]; rfl
    rcases settle_cases h with ⟨ok, rfl⟩ | ⟨-, rfl⟩
    · cases ok with
      | true => exact ⟨{}, adds_moved halive rfl (by rw [hc]; rfl) (by rw [hc]; rfl) _⟩
      | false => exact ⟨{}, adds_returned halive (by rw [hc]; rfl) _ _⟩
    · exact ⟨{}, adds_moved halive rfl (by rw [hc]; rfl) (by rw [hc]; rfl) _⟩
  · rename_i p rest after hc
    have halive : failed s.control = false := by rw [hc]; rfl
    obtain ⟨-, hrejected, huncounted, hunobserved⟩ := ackNext_counts after rest
    rcases settle_cases h with ⟨ok, rfl⟩ | ⟨-, rfl⟩
    · cases ok with
      | true =>
        exact ⟨{}, adds_moved halive hrejected (by rw [hc, huncounted]; rfl)
          (by rw [hc, hunobserved]; rfl) _⟩
      | false => exact ⟨{}, adds_returned halive (by rw [hc]; rfl) _ _⟩
    · exact ⟨{}, adds_moved halive hrejected (by rw [hc, huncounted]; rfl)
        (by rw [hc, hunobserved]; rfl) _⟩
  · rename_i kind p rest after hc
    have halive : failed s.control = false := by rw [hc]; rfl
    obtain ⟨u, hu, rfl⟩ := Option.map_eq_some_iff.mp h
    rcases settle_cases hu with ⟨ok, rfl⟩ | ⟨-, rfl⟩
    · cases ok with
      | true => exact adds_settled hc _
      | false => exact ⟨{}, adds_returned halive (by rw [hc]; rfl) _ _⟩
    · exact adds_settled hc _
  · cases h

/-- The store reports as many insertions as the batch it was given can hold. -/
def StoreWithin (s : System) : Event → Prop
  | .recorded inserted =>
    ∀ batch after, s.control = .recordClicks batch after → Within batch inserted
  | _ => True

theorem batch_size {batch : List Pending} {after : Option Loop} (h : Invariant w s)
    (hc : s.control = .recordClicks batch after) :
    1 ≤ batch.length ∧ batch.length ≤ w.batchSize := by
  apply h.sizes
  rw [passed, hc]
  exact List.mem_append_right _ (List.mem_singleton_self batch)

theorem adds_next {e : Event} (hinv : Invariant w s) (hstore : StoreWithin s e)
    (h : next w s e = some t) : ∃ added, Adds s t added := by
  cases e with
  | receive d =>
    simp only [next] at h
    split at h
    · next l hc =>
      cases h
      exact adds_accept hc d
    · cases h
  | closed =>
    simp only [next] at h
    split at h
    · next l hc =>
      cases h
      exact ⟨_, adds_flush hc none⟩
    · cases h
  | tick =>
    simp only [next] at h
    split at h
    · cases h
      exact ⟨{}, Adds.silent rfl rfl id (fun _ => rfl) rfl⟩
    · cases h
  | fire =>
    simp only [next] at h
    split at h
    · next hc =>
      split at h
      · cases h
        have hstopped : Adds s { s with timer := .stopped, timerC := false } {} :=
          Adds.silent rfl rfl id (fun _ => rfl) rfl
        have hflush := adds_flush (s := { s with timer := .stopped, timerC := false }) hc
          (some .select)
        exact ⟨_, hstopped.trans hflush⟩
      · cases h
    · cases h
  | done =>
    simp only [next] at h
    split at h
    · next hc =>
      cases h
      refine ⟨{}, Adds.silent rfl rfl (fun _ => by rw [hc]; rfl) ?_ ?_⟩
      · intro _
        rw [hc]
        rfl
      · rw [hc]
        rfl
    · cases h
  | empty =>
    simp only [next] at h
    split at h
    · next hc =>
      cases h
      exact ⟨_, adds_flush hc none⟩
    · cases h
  | recorded inserted =>
    simp only [next] at h
    split at h
    · next batch after hc =>
      cases h
      exact adds_recorded hc (batch_size hinv hc).1 (hstore batch after hc)
    · cases h
  | retried ok =>
    simp only [next] at h
    split at h
    · next hc =>
      cases h
      exact adds_retried hc _
    · cases h
  | called ok => exact adds_callback h
  | skip => exact adds_callback h

/-! ## What a run adds -/

/-- Every answer of the store in a run is within the batch it was given. -/
def StoreWithinRun (w : Worker) (es : List Event) : Prop :=
  ∀ xs e ys u, es = xs ++ e :: ys → Execution (next w) start xs u → StoreWithin u e

theorem adds_run {es : List Event} (h : Execution (next w) start es s)
    (hstore : StoreWithinRun w es) : Invariant w s ∧ ∃ t, Adds start s t := by
  refine h.invariant_of (I := fun u => Invariant w u ∧ ∃ t, Adds start u t) ?_ ?_ hstore
  · exact ⟨invariant_start w, {}, Adds.silent rfl rfl id (fun _ => rfl) rfl⟩
  · rintro u e v ⟨hinv, t, hadds⟩ hwithin hstep
    obtain ⟨added, hadded⟩ := adds_next hinv hwithin hstep
    exact ⟨invariant_next hinv hstep, t + added, hadds.trans hadded⟩

/-- The laws of the counters, as counts. -/
structure Conserved (t : Tally) : Prop where
  balance : t.received = t.committed + t.duplicate + t.requeue + t.dlq
  invalid : t.invalid ≤ t.dlq
  events : t.batchEvents + t.invalid = t.received
  failures : t.failures ≤ t.batches
  batches : t.batches ≤ t.batchEvents

/-- The laws of the counters, as the metrics show them. -/
structure Shown (m : Metrics) : Prop where
  balance : m.received = m.committed + m.duplicate + m.requeue + m.dlq
  invalid : m.invalid ≤ m.dlq
  events : m.batchEvents = m.received - m.invalid
  failures : m.failures ≤ m.batches
  batches : m.batches ≤ m.batchEvents

theorem conserved_of_adds {tally : Tally} (h : Adds start s tally) (hinv : Invariant w s)
    {left : List ℕ}
    (hreturned : s.control = .returned false left) : Conserved tally := by
  have hempty : s.batch = [] := hinv.emptied (by rw [hreturned]; rfl)
  have hbalance := h.balance (by rw [hreturned]; rfl)
  have hobserved := h.observed
  rw [hreturned, hempty] at hbalance hobserved
  simp only [start, Control.uncounted, Control.unobserved, List.length_nil,
    Nat.add_zero] at hbalance hobserved
  constructor
  · exact hbalance
  · exact h.invalid
  · rw [hobserved, Nat.add_comm]
  · exact h.failures
  · exact h.batches

/-- Counters that have not wrapped show the counts. -/
theorem shown_of_conserved {tally : Tally} (h : Conserved tally) (hsize : tally.received < 2 ^ 64) :
    Shown (tally.count {}) := by
  obtain ⟨hbalance, hinvalid, hevents, hfailures, hbatches⟩ := h
  have hle {a b : ℕ} (hab : a ≤ b) (hb : b ≤ tally.received) :
      (0 : UInt64) + UInt64.ofNat a ≤ 0 + UInt64.ofNat b := by
    rw [UInt64.zero_add, UInt64.zero_add]
    apply (UInt64.ofNat_le_iff_le _ _).mpr hab
    · exact Nat.lt_of_le_of_lt (Nat.le_trans hab hb) hsize
    · exact Nat.lt_of_le_of_lt hb hsize
  constructor
  · simp only [Tally.count, hbalance, UInt64.ofNat_add, UInt64.zero_add]
  · exact hle hinvalid (by omega)
  · simp only [Tally.count, ← hevents, UInt64.ofNat_add, UInt64.zero_add, UInt64.add_sub_cancel]
  · exact hle hfailures (by omega)
  · exact hle hbatches (by omega)

/-- A worker that returns without an error has counted every delivery once, and the subtraction
that counts duplicates has not wrapped. -/
theorem metrics_conserve {es : List Event} (h : Execution (next w) start es s)
    (hstore : StoreWithinRun w es) {left : List ℕ} (hreturned : s.control = .returned false left) :
    (∃ tally : Tally, s.metrics = tally.count {} ∧ tally.received = s.received.length ∧
      Conserved tally) ∧
    (s.received.length < 2 ^ 64 → Shown s.metrics) ∧
    ∀ xs n ys u batch after, es = xs ++ .recorded (some n) :: ys →
      Execution (next w) start xs u → u.control = .recordClicks batch after →
        ((UInt64.ofInt (batch.length - n)).toNat : ℤ) = batch.length - n := by
  obtain ⟨hinv, tally, hadds⟩ := adds_run h hstore
  have hconserved := conserved_of_adds hadds hinv hreturned
  have hmetrics : s.metrics = tally.count {} := hadds.metrics
  have hreceived : tally.received = s.received.length := by
    rw [hadds.received]
    exact (Nat.zero_add _).symm
  refine ⟨⟨tally, hmetrics, hreceived, hconserved⟩, ?_, ?_⟩
  · intro hsize
    rw [hmetrics]
    exact shown_of_conserved hconserved (hreceived ▸ hsize)
  · intro xs n ys u batch after hes hrun hc
    obtain ⟨hpos, hle⟩ := hstore xs _ ys u hes hrun batch after hc
    have hsize := (batch_size (invariant_execution hrun) hc).2
    have hmax := w.batchSize_le
    have hbatch : batch.length ≤ 200 := Nat.le_trans hsize hmax
    exact toNat_ofInt (by omega) (by omega)


/-- Two clicks around a malformed message; of the batch one event is new. -/
def mixedBatch : List Event :=
  [.receive (sampleDelivery (GoText.lit "aaaaaaaa-0000-4000-8000-000000000001") 1),
    .receive { body := ⟨none, false⟩ }, .called true,
    .receive (sampleDelivery (GoText.lit "aaaaaaaa-0000-4000-8000-000000000002") 1),
    .recorded (some 1), .called true, .called true, .done, .empty]

theorem mixedBatch_within (w : Worker) : StoreWithinRun w mixedBatch := by
  intro xs e ys u hes hrun
  cases e with
  | recorded inserted =>
    intro batch after hc
    have hmem : Event.recorded inserted ∈ mixedBatch := by
      rw [hes]
      exact List.mem_append_right _ List.mem_cons_self
    have hone : inserted = some 1 := by simpa [mixedBatch] using hmem
    have hsize := (batch_size (invariant_execution hrun) hc).1
    rw [hone]
    exact ⟨by decide, by omega⟩
  | _ => trivial

theorem metrics_conserve_mixed : ∃ s : System, isReturned s.control = true ∧
    (s.metrics.received, s.metrics.committed, s.metrics.duplicate, s.metrics.dlq) = (3, 1, 1, 1) ∧
      Shown s.metrics := by
  have hreplay : (replay (next (NewWorker 2 0 5 true)) start mixedBatch).map (fun s =>
      (isReturned s.control, s.received.length, s.metrics.received, s.metrics.committed,
        s.metrics.duplicate, s.metrics.dlq)) = some (true, 3, 3, 1, 1, 1) := by
    decide
  obtain ⟨s, hs, hsummary⟩ := Option.map_eq_some_iff.mp hreplay
  simp only [Prod.mk.injEq] at hsummary
  obtain ⟨hreturned, hlength, hcounters⟩ := hsummary
  have hcontrol : ∃ left, s.control = .returned false left := by
    revert hreturned
    unfold isReturned
    split
    · exact fun _ => ⟨_, by assumption⟩
    · exact fun h => absurd h (by decide)
  obtain ⟨left, hleft⟩ := hcontrol
  have hlaws := metrics_conserve (execution_of_replay hs) (mixedBatch_within _) hleft
  exact ⟨s, hreturned, by simp [hcounters], hlaws.2.1 (by rw [hlength]; decide)⟩

end WorkerCounters
