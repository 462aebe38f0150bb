import ShortQ.ClickWire
import ShortQ.LabelledRuns

/-! # The analytics worker

`Worker.Run` with `flush` and `retryBatch`. One step is one branch of a `select` or one call
that leaves the worker, with its outcome. -/
namespace AnalyticsWorker

open Models
open ClickWire
open LabelledRuns

def DefaultWorkerBatchSize : ℕ := 200
def DefaultWorkerFlushInterval : ℤ := 250000000
def DefaultWorkerMaxRetries : ℤ := 5

/-- A worker as `NewWorker` leaves it. -/
structure Worker where
  batchSize : ℕ
  flushInterval : ℤ
  maxRetries : ℤ
  hasRetryer : Bool
  batchSize_pos : 0 < batchSize
  batchSize_le : batchSize ≤ DefaultWorkerBatchSize
  flushInterval_pos : 0 < flushInterval
  maxRetries_pos : 0 < maxRetries

def NewWorker (batchSize flushInterval maxRetries : ℤ) (hasRetryer : Bool) : Worker where
  batchSize :=
    if batchSize ≤ 0 ∨ batchSize > DefaultWorkerBatchSize then DefaultWorkerBatchSize
    else batchSize.toNat
  flushInterval := if flushInterval ≤ 0 then DefaultWorkerFlushInterval else flushInterval
  maxRetries := if maxRetries ≤ 0 then DefaultWorkerMaxRetries else maxRetries
  hasRetryer := hasRetryer
  batchSize_pos := by
    split
    · decide
    · omega
  batchSize_le := by
    split
    · exact Nat.le_refl _
    · omega
  flushInterval_pos := by
    split
    · decide
    · omega
  maxRetries_pos := by
    split
    · decide
    · omega

/-- A `pendingDelivery`. A delivery is known by its place in the order of arrival. -/
structure Pending where
  index : ℕ
  delivery : Delivery
  event : ClickEvent

def Pending.attempt (p : Pending) : ℤ := wrap64 (retryCount p.delivery.headers + 1)

inductive Disposal where
  | ack | nack | reject
  deriving DecidableEq, Repr

def Disposal.present (d : Delivery) : Disposal → Bool
  | .ack => d.hasAck
  | .nack => d.hasNack
  | .reject => d.hasReject

def complete (d : Delivery) : Bool := d.hasAck && d.hasNack && d.hasReject

/-- The calls that have returned. `omitted` stands where a callback is nil. -/
inductive Call where
  | recordClicks (batch : List Pending) (inserted : Option ℤ)
  | retry (index : ℕ) (attempt : ℤ) (ok : Bool)
  | disposed (kind : Disposal) (index : ℕ) (ok : Bool)
  | omitted (index : ℕ)

inductive Loop where
  | select | drain
  deriving DecidableEq, Repr

/-- Where `Run` stands. After a flush it goes on with a loop, or returns (none). -/
inductive Control where
  | waiting (loop : Loop)
  | rejectInvalid (index : ℕ) (delivery : Delivery) (loop : Loop)
  | recordClicks (batch : List Pending) (after : Option Loop)
  | ackCommitted (p : Pending) (rest : List Pending) (after : Option Loop)
  | retrying (p : Pending) (rest : List Pending) (after : Option Loop)
  | settling (kind : Disposal) (p : Pending) (rest : List Pending) (after : Option Loop)
  | returned (failed : Bool) (abandoned : List ℕ)

/-- A timer of Go 1.23 or later: stopping it also takes back a value nobody received. -/
inductive Timer where
  | stopped | running | fired
  deriving DecidableEq, Repr

structure Metrics where
  received : UInt64 := 0
  committed : UInt64 := 0
  duplicate : UInt64 := 0
  invalid : UInt64 := 0
  requeue : UInt64 := 0
  dlq : UInt64 := 0
  failures : UInt64 := 0
  batches : UInt64 := 0
  batchEvents : UInt64 := 0
  deriving DecidableEq, Repr

structure System where
  received : List Delivery
  batch : List Pending
  /-- Whether the local `timerC` is set. -/
  timerC : Bool
  timer : Timer
  control : Control
  history : List Call
  metrics : Metrics

def start : System := ⟨[], [], false, .stopped, .waiting .select, [], {}⟩

inductive Event where
  | receive (delivery : Delivery)
  | closed
  | tick
  | fire
  | done
  /-- The `default` of the drain loop. -/
  | empty
  | recorded (inserted : Option ℤ)
  | retried (ok : Bool)
  | called (ok : Bool)
  /-- The callback at hand is nil. -/
  | skip

def resetTimer (s : System) : System :=
  if s.timerC then s else { s with timer := .running, timerC := true }

def stopTimer (s : System) : System :=
  if s.timerC then { s with timer := .stopped, timerC := false } else s

def Control.rejects : Control → Bool
  | .rejectInvalid .. => true
  | .settling .reject .. => true
  | _ => false

/-- Moves on. Every message on its way to the dead-letter queue is counted first. -/
def System.goto (s : System) (c : Control) : System :=
  { s with
    control := c
    metrics := if c.rejects then { s.metrics with dlq := s.metrics.dlq + 1 } else s.metrics }

@[simp] theorem goto_received (s : System) (c : Control) : (s.goto c).received = s.received := rfl
@[simp] theorem goto_batch (s : System) (c : Control) : (s.goto c).batch = s.batch := rfl
@[simp] theorem goto_timerC (s : System) (c : Control) : (s.goto c).timerC = s.timerC := rfl
@[simp] theorem goto_timer (s : System) (c : Control) : (s.goto c).timer = s.timer := rfl
@[simp] theorem goto_control (s : System) (c : Control) : (s.goto c).control = c := rfl
@[simp] theorem goto_history (s : System) (c : Control) : (s.goto c).history = s.history := rfl

theorem goto_eq (s : System) {c : Control} (h : c.rejects = false) :
    s.goto c = { s with control := c } := by
  simp [System.goto, h]

def resume : Option Loop → Control
  | some l => .waiting l
  | none => .returned false []

/-- The closure `flush` of `Run`, up to the call of `RecordClicks`. -/
def flush (s : System) (after : Option Loop) : System :=
  let s := stopTimer s
  if s.batch.isEmpty then s.goto (resume after)
  else { s with batch := [] }.goto (.recordClicks s.batch after)

def accept (w : Worker) (s : System) (d : Delivery) (l : Loop) : System :=
  let i := s.received.length
  let s :=
    { s with
      received := s.received ++ [d]
      metrics := { s.metrics with received := s.metrics.received + 1 } }
  match decodeEvent d.body with
  | none =>
    { s with metrics := { s.metrics with invalid := s.metrics.invalid + 1 } }.goto
      (.rejectInvalid i d l)
  | some event =>
    let s := resetTimer { s with batch := s.batch ++ [⟨i, d, event⟩] }
    if w.batchSize ≤ s.batch.length then flush s (some l) else s.goto (.waiting l)

/-- The loop over a committed batch. -/
def ackNext (after : Option Loop) : List Pending → Control
  | [] => resume after
  | p :: rest => .ackCommitted p rest after

/-- The loop of `retryBatch`, up to the next call. -/
def retryNext (w : Worker) (after : Option Loop) : List Pending → Control
  | [] => resume after
  | p :: rest =>
    if w.maxRetries ≤ p.attempt then .settling .reject p rest after
    else if !w.hasRetryer then .settling .nack p rest after
    else .retrying p rest after

/-- One callback: `outcome` is none where there is nothing to call. -/
def settle (s : System) (kind : Disposal) (i : ℕ) (d : Delivery) (outcome : Option Bool)
    (follow : Control) (left : List ℕ) : Option System :=
  match kind.present d, outcome with
  | true, some true =>
    some ({ s with history := s.history ++ [Call.disposed kind i true] }.goto follow)
  | true, some false =>
    some ({ s with history := s.history ++ [Call.disposed kind i false] }.goto
      (.returned true left))
  | false, none => some ({ s with history := s.history ++ [Call.omitted i] }.goto follow)
  | _, _ => none

def countRequeue (kind : Disposal) (s : System) : System :=
  match s.control with
  | .returned true _ => s
  | _ =>
    if kind = .reject then s
    else { s with metrics := { s.metrics with requeue := s.metrics.requeue + 1 } }

def callback (w : Worker) (s : System) (outcome : Option Bool) : Option System :=
  match s.control with
  | .rejectInvalid i d l => settle s .reject i d outcome (.waiting l) []
  | .ackCommitted p rest after =>
    settle s .ack p.index p.delivery outcome (ackNext after rest) (rest.map Pending.index)
  | .settling kind p rest after =>
    (settle s kind p.index p.delivery outcome (retryNext w after rest)
      (rest.map Pending.index)).map (countRequeue kind)
  | _ => none

/-- The counters `flush` adds once `RecordClicks` has returned. -/
def Metrics.observe (m : Metrics) (size : ℕ) (inserted : Option ℤ) : Metrics :=
  let m := { m with batches := m.batches + 1, batchEvents := m.batchEvents + UInt64.ofNat size }
  match inserted with
  | none => { m with failures := m.failures + 1 }
  | some n =>
    { m with
      committed := m.committed + UInt64.ofInt n
      duplicate := m.duplicate + UInt64.ofInt (size - n) }

def next (w : Worker) (s : System) : Event → Option System
  | .receive d =>
    match s.control with
    | .waiting l => some (accept w s d l)
    | _ => none
  | .closed =>
    match s.control with
    | .waiting _ => some (flush s none)
    | _ => none
  | .tick => if s.timer = .running then some { s with timer := .fired } else none
  | .fire =>
    match s.control with
    | .waiting .select =>
      if s.timerC && s.timer = .fired then
        some (flush { s with timer := .stopped, timerC := false } (some .select))
      else none
    | _ => none
  | .done =>
    match s.control with
    | .waiting .select => some (s.goto (.waiting .drain))
    | _ => none
  | .empty =>
    match s.control with
    | .waiting .drain => some (flush s none)
    | _ => none
  | .recorded inserted =>
    match s.control with
    | .recordClicks batch after =>
      some ({ s with
        history := s.history ++ [Call.recordClicks batch inserted]
        metrics := s.metrics.observe batch.length inserted }.goto
          (if inserted.isSome then ackNext after batch else retryNext w after batch))
    | _ => none
  | .retried ok =>
    match s.control with
    | .retrying p rest after =>
      some ({ s with history := s.history ++ [Call.retry p.index p.attempt ok] }.goto
        (.settling (if ok then .ack else .reject) p rest after))
    | _ => none
  | .called ok => callback w s (some ok)
  | .skip => callback w s none

/-! ## What a run has passed on and what it still owes -/

/-- The decodable deliveries in the order of arrival. -/
def decodable (received : List Delivery) : List Pending :=
  received.zipIdx.filterMap fun (d, i) => (decodeEvent d.body).map (⟨i, d, ·⟩)

def Call.batches : Call → List (List Pending)
  | .recordClicks batch _ => [batch]
  | _ => []

def Control.batches : Control → List (List Pending)
  | .recordClicks batch _ => [batch]
  | _ => []

/-- Every batch that `RecordClicks` was called with, the call at hand included. -/
def passed (s : System) : List (List Pending) :=
  s.history.flatMap Call.batches ++ s.control.batches

/-- How often `Ack`, `Nack` or `Reject` was called for a delivery. -/
def disposals (history : List Call) (i : ℕ) : ℕ :=
  history.countP fun
    | .disposed _ j _ => j = i
    | _ => false

def Call.settles : Call → List ℕ
  | .disposed _ i _ | .omitted i => [i]
  | _ => []

def Control.open : Control → List ℕ
  | .waiting _ => []
  | .rejectInvalid i _ _ => [i]
  | .recordClicks batch _ => batch.map Pending.index
  | .ackCommitted p rest _ | .retrying p rest _ | .settling _ p rest _ =>
    p.index :: rest.map Pending.index
  | .returned _ abandoned => abandoned

def Control.pending : Control → List Pending
  | .recordClicks batch _ => batch
  | .ackCommitted p rest _ | .retrying p rest _ | .settling _ p rest _ => p :: rest
  | _ => []

def Control.rejecting : Control → Option ℕ
  | .rejectInvalid i _ _ => some i
  | _ => none

/-- Between a flush and its end the closure's `batch` is the fresh empty one. -/
def Control.flushing : Control → Bool
  | .waiting _ | .rejectInvalid .. | .returned true _ => false
  | _ => true

/-- A delivery may be acked once its event was committed or its copy published. -/
def Covered (history : List Call) (i : ℕ) : Prop :=
  (∃ batch n, Call.recordClicks batch (some n) ∈ history ∧ i ∈ batch.map Pending.index) ∨
    ∃ attempt, Call.retry i attempt true ∈ history

def AcksCovered (history : List Call) : Prop :=
  ∀ pre post i ok, history = pre ++ .disposed .ack i ok :: post → Covered pre i

/-- An ack at hand is covered. -/
def Control.Backed (history : List Call) : Control → Prop
  | .ackCommitted p rest _ => ∀ q ∈ p :: rest, Covered history q.index
  | .settling .ack p _ _ => Covered history p.index
  | _ => True

def Arrived (received : List Delivery) (p : Pending) : Prop :=
  received[p.index]? = some p.delivery

/-! ## What one step changes -/

/-- The steps that neither take a delivery nor call anything. -/
def Event.internal : Event → Bool
  | .closed | .tick | .fire | .done | .empty => true
  | _ => false

/-- The callback at hand. -/
def Control.callee : Control → Option (Disposal × ℕ)
  | .rejectInvalid i _ _ => some (.reject, i)
  | .ackCommitted p _ _ => some (.ack, p.index)
  | .settling kind p _ _ => some (kind, p.index)
  | _ => none

def Control.isRetrying : Control → Bool
  | .retrying .. => true
  | _ => false

theorem isRetrying_flush (s : System) (after : Option Loop) :
    (flush s after).control.isRetrying = false ∧ (flush s after).received = s.received ∧
      (flush s after).history = s.history := by
  obtain ⟨received, batch, timerC, timer, control, history, metrics⟩ := s
  cases timerC <;> cases batch <;> cases after <;> exact ⟨rfl, rfl, rfl⟩

theorem resetTimer_frame (s : System) : (resetTimer s).received = s.received ∧
    (resetTimer s).history = s.history := by
  unfold resetTimer
  split <;> exact ⟨rfl, rfl⟩

variable {w : Worker} {s t : System}

theorem next_receive {d : Delivery} (h : next w s (.receive d) = some t) :
    (s.control.isRetrying = false ∧ t.control.isRetrying = false) ∧
      t.received = s.received ++ [d] ∧ t.history = s.history := by
  simp only [next] at h
  split at h
  · next l hc =>
    cases h
    rw [hc]
    unfold accept
    dsimp only
    split
    · exact ⟨⟨rfl, rfl⟩, rfl, rfl⟩
    · next event _ =>
      have hframe := resetTimer_frame
        { s with
          received := s.received ++ [d]
          metrics := { s.metrics with received := s.metrics.received + 1 }
          batch := s.batch ++ [⟨s.received.length, d, event⟩] }
      split
      · obtain ⟨hretrying, hreceived, hhistory⟩ := isRetrying_flush _ _
        exact ⟨⟨rfl, hretrying⟩, hreceived.trans hframe.1, hhistory.trans hframe.2⟩
      · exact ⟨⟨rfl, rfl⟩, hframe.1, hframe.2⟩
  · cases h

theorem next_internal {e : Event} (he : e.internal = true) (h : next w s e = some t) :
    (t.control = s.control ∨ s.control.isRetrying = false ∧ t.control.isRetrying = false) ∧
      t.received = s.received ∧ t.history = s.history := by
  cases e with
  | closed =>
    simp only [next] at h
    split at h
    · next hc =>
      cases h
      obtain ⟨hretrying, hframe⟩ := isRetrying_flush _ _
      exact ⟨.inr ⟨by rw [hc]; rfl, hretrying⟩, hframe⟩
    · cases h
  | tick =>
    simp only [next] at h
    split at h
    · cases h
      exact ⟨.inl rfl, rfl, rfl⟩
    · cases h
  | fire =>
    simp only [next] at h
    split at h
    · next hc =>
      split at h
      · cases h
        obtain ⟨hretrying, hframe⟩ := isRetrying_flush _ _
        exact ⟨.inr ⟨by rw [hc]; rfl, hretrying⟩, hframe⟩
      · cases h
    · cases h
  | done =>
    simp only [next] at h
    split at h
    · next hc =>
      cases h
      exact ⟨.inr ⟨by rw [hc]; rfl, rfl⟩, rfl, rfl⟩
    · cases h
  | empty =>
    simp only [next] at h
    split at h
    · next hc =>
      cases h
      obtain ⟨hretrying, hframe⟩ := isRetrying_flush _ _
      exact ⟨.inr ⟨by rw [hc]; rfl, hretrying⟩, hframe⟩
    · cases h
  | _ => cases he

theorem next_recorded {inserted : Option ℤ} (h : next w s (.recorded inserted) = some t) :
    ∃ batch after, s.control = .recordClicks batch after ∧ t.received = s.received ∧
      t.history = s.history ++ [Call.recordClicks batch inserted] := by
  simp only [next] at h
  split at h
  · next batch after hc =>
    cases h
    exact ⟨batch, after, hc, rfl, rfl⟩
  · cases h

theorem next_retried {ok : Bool} (h : next w s (.retried ok) = some t) :
    ∃ p rest after, s.control = .retrying p rest after ∧ t.received = s.received ∧
      t.history = s.history ++ [Call.retry p.index p.attempt ok] := by
  simp only [next] at h
  split at h
  · next p rest after hc =>
    cases h
    exact ⟨p, rest, after, hc, rfl, rfl⟩
  · cases h

theorem settle_called {kind : Disposal} {i : ℕ} {d : Delivery} {ok : Bool} {follow : Control}
    {left : List ℕ} (h : settle s kind i d (some ok) follow left = some t) :
    t.received = s.received ∧ t.history = s.history ++ [Call.disposed kind i ok] := by
  cases hpresent : kind.present d with
  | false => simp [settle, hpresent] at h
  | true =>
    cases ok
    · simp only [settle, hpresent] at h
      cases h
      exact ⟨rfl, rfl⟩
    · simp only [settle, hpresent] at h
      cases h
      exact ⟨rfl, rfl⟩

theorem countRequeue_frame (kind : Disposal) (s : System) :
    (countRequeue kind s).received = s.received ∧ (countRequeue kind s).history = s.history := by
  unfold countRequeue
  split
  · exact ⟨rfl, rfl⟩
  · split <;> exact ⟨rfl, rfl⟩

theorem next_called {ok : Bool} (h : next w s (.called ok) = some t) :
    ∃ kind i, s.control.callee = some (kind, i) ∧ t.received = s.received ∧
      t.history = s.history ++ [Call.disposed kind i ok] := by
  simp only [next, callback] at h
  split at h
  · next i d l hc => exact ⟨.reject, i, by rw [hc]; rfl, settle_called h⟩
  · next p rest after hc => exact ⟨.ack, p.index, by rw [hc]; rfl, settle_called h⟩
  · next kind p rest after hc =>
    obtain ⟨u, hu, rfl⟩ := Option.map_eq_some_iff.mp h
    obtain ⟨hreceived, hhistory⟩ := settle_called hu
    obtain ⟨hr, hh⟩ := countRequeue_frame kind u
    exact ⟨kind, p.index, by rw [hc]; rfl, hr.trans hreceived, hh.trans hhistory⟩
  · cases h

/-- What a call adds to the deliveries that may be acked. -/
def Call.covers (i : ℕ) : Call → Prop
  | .recordClicks batch (some _) => i ∈ batch.map Pending.index
  | .retry j _ true => j = i
  | _ => False

theorem covered_snoc {history : List Call} {c : Call} {i : ℕ}
    (h : Covered (history ++ [c]) i) : Covered history i ∨ c.covers i := by
  rcases h with ⟨batch, n, hmem, hi⟩ | ⟨attempt, hmem⟩
  · rcases List.mem_append.mp hmem with hold | hlast
    · exact .inl (.inl ⟨batch, n, hold, hi⟩)
    · obtain rfl := List.mem_singleton.mp hlast
      exact .inr hi
  · rcases List.mem_append.mp hmem with hold | hlast
    · exact .inl (.inr ⟨attempt, hold⟩)
    · obtain rfl := List.mem_singleton.mp hlast
      exact .inr rfl

end AnalyticsWorker
