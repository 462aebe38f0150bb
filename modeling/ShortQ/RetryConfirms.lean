import ShortQ.ConfirmLine
import ShortQ.WorkerRuns

/-! # Confirmations of retry copies

`rabbitRetryPublisher.Retry` on the channel of one `RabbitMQWorker.Run`. All its calls read the
same Go channel of confirmations. -/
namespace RetryConfirms

open GoText (lit)
open ConfirmLine
open ClickWire
open LabelledRuns

/-- One call of `Retry`; `index` names the delivery. -/
structure Retry where
  index : ℕ
  delivery : Delivery
  attempt : ℤ

/-- A call that has returned, with the number of its publish. -/
structure Returned where
  call : Retry
  publish : Option ℕ
  ok : Bool

structure System where
  line : Line
  closed : Bool
  /-- The publishes in order. -/
  copies : List (Retry × Publishing)
  /-- The call that waits in its `select`, with the number of its publish. -/
  waiting : Option (Retry × ℕ)
  returned : List Returned

def start : System := ⟨.fresh, false, [], none, []⟩

inductive Event where
  /-- `Retry` up to the outcome of `PublishWithContext`. -/
  | publish (call : Retry) (sent : Bool)
  /-- The broker confirms the oldest publish it has not confirmed. -/
  | confirm (ack : Bool)
  | receive
  | receiveClosed
  /-- The timeout, or the end of the parent context. -/
  | done
  | close

def System.return (s : System) (call : Retry) (publish : Option ℕ) (ok : Bool) : System :=
  { s with waiting := none, returned := s.returned ++ [⟨call, publish, ok⟩] }

def next (s : System) : Event → Option System
  | .publish call sent =>
    match s.waiting, retryPublishing call.delivery call.attempt with
    | none, some message =>
      if !sent then some (s.return call none false)
      else if s.closed then none
      else
        some { s with
          line := s.line.publish
          copies := s.copies ++ [(call, message)]
          waiting := some (call, s.line.published) }
    | _, _ => none
  | .confirm ack => if s.closed then none else (s.line.answer ack).map ({ s with line := · })
  | .receive =>
    match s.waiting, s.line.take with
    | some (call, j), some (ack, line) => some ({ s with line := line }.return call (some j) ack)
    | _, _ => none
  | .receiveClosed =>
    match s.waiting with
    | some (call, j) => if s.closed then some (s.return call (some j) false) else none
    | none => none
  | .done =>
    match s.waiting with
    | some (call, j) => some (s.return call (some j) false)
    | none => none
  | .close => some { s with closed := true }

/-- Publish number `j` is the copy the call made, and the broker confirmed it. -/
def ConfirmedCopy (s : System) (call : Retry) (j : ℕ) : Prop :=
  ∃ message, retryPublishing call.delivery call.attempt = some message ∧
    s.copies[j]? = some (call, message) ∧ s.line.Positive j

/-- Every nil result stands for a confirmation of the call's own copy. -/
def Durable (s : System) : Prop :=
  ∀ r ∈ s.returned, r.ok = true → ∃ j, r.publish = some j ∧ ConfirmedCopy s r.call j

/-- The calls of `Retry` in a worker's history, with their results. -/
def retries (history : List AnalyticsWorker.Call) : List (ℕ × Bool) :=
  history.filterMap fun
    | .retry i _ ok => some (i, ok)
    | _ => none

/-- The worker ran with the retry publisher on this channel. -/
def Served (history : List AnalyticsWorker.Call) (s : System) : Prop :=
  retries history = s.returned.map fun r => (r.call.index, r.ok)

/-- Every ack is for a committed event or for an original whose copy the broker confirmed. -/
def AcksDurable (history : List AnalyticsWorker.Call) (s : System) : Prop :=
  ∀ i ok, .disposed .ack i ok ∈ history →
    (∃ batch n, AnalyticsWorker.Call.recordClicks batch (some n) ∈ history ∧
      i ∈ batch.map AnalyticsWorker.Pending.index) ∨
    ∃ call j, call.index = i ∧ ConfirmedCopy s call j

/-- No confirmation of an earlier publish is outstanding or unread at any publish. -/
def Prompt (es : List Event) : Prop :=
  ∀ before call later u, es = before ++ .publish call true :: later →
    Execution next start before u → u.line.Clear

theorem ConfirmedCopy.mono {s t : System} {call : Retry} {j : ℕ} (h : ConfirmedCopy s call j)
    (hcopies : s.copies <+: t.copies) (hline : ∀ k, s.line.Positive k → t.line.Positive k) :
    ConfirmedCopy t call j := by
  obtain ⟨message, hmessage, hcopy, hpositive⟩ := h
  refine ⟨message, hmessage, ?_, hline j hpositive⟩
  obtain ⟨more, hmore⟩ := hcopies
  rw [← hmore, List.getElem?_append_left (List.getElem?_eq_some_iff.mp hcopy).1]
  exact hcopy

/-- What holds while every publish finds the line clear. -/
structure Invariant (s : System) : Prop where
  durable : Durable s
  counted : s.copies.length = s.line.published
  /-- The waiting call's publish is the last one, and its confirmation the next. -/
  own : ∀ call j, s.waiting = some (call, j) → j + 1 = s.line.published ∧ s.line.taken = j ∧
    ∃ message, retryPublishing call.delivery call.attempt = some message ∧
      s.copies[j]? = some (call, message)

theorem durable_return {s : System} (h : Durable s) (call : Retry) (publish : Option ℕ)
    {ok : Bool} (hok : ok = true → ∃ j, publish = some j ∧ ConfirmedCopy s call j) :
    Durable (s.return call publish ok) := by
  intro r hr hrok
  rcases List.mem_append.mp hr with hr | hr
  · exact h r hr hrok
  · obtain rfl := List.mem_singleton.mp hr
    exact hok hrok

theorem Invariant.return {s : System} (h : Invariant s) (call : Retry) (publish : Option ℕ) :
    Invariant (s.return call publish false) := by
  refine ⟨durable_return h.durable call publish nofun, h.counted, ?_⟩
  intro call' j hwaiting
  cases hwaiting

theorem invariant_start : Invariant start := by
  refine ⟨?_, rfl, ?_⟩
  · intro r hr
    simp [start] at hr
  · intro call j hwaiting
    cases hwaiting

theorem invariant_publish {s t : System} {call : Retry} {sent : Bool} (h : Invariant s)
    (hclear : sent = true → s.line.Clear) (hstep : next s (.publish call sent) = some t) :
    Invariant t := by
  simp only [next] at hstep
  split at hstep
  · next message hwaiting hmessage =>
    cases sent with
    | false =>
      cases hstep
      exact h.return call none
    | true =>
      simp only [Bool.not_true, Bool.false_eq_true, if_false] at hstep
      split at hstep
      · cases hstep
      · cases hstep
        constructor
        · intro r hr hok
          obtain ⟨j, hj, hcopy⟩ := h.durable r hr hok
          exact ⟨j, hj, hcopy.mono (List.prefix_append _ _) fun _ => Line.publish_positive⟩
        · simp [h.counted, Line.publish]
        · intro call' j hj
          cases hj
          refine ⟨rfl, hclear rfl, message, hmessage, ?_⟩
          rw [← h.counted]
          exact List.getElem?_concat_length
  · cases hstep

theorem invariant_next {s t : System} {e : Event} (h : Invariant s)
    (hclear : ∀ call, e = .publish call true → s.line.Clear) (hstep : next s e = some t) :
    Invariant t := by
  cases e with
  | publish call sent =>
    refine invariant_publish h ?_ hstep
    rintro rfl
    exact hclear call rfl
  | confirm ack =>
    simp only [next] at hstep
    split at hstep
    · cases hstep
    · obtain ⟨line, hline, rfl⟩ := Option.map_eq_some_iff.mp hstep
      obtain ⟨hpublished, -, htaken⟩ := Line.answer_eq_some hline
      constructor
      · intro r hr hok
        obtain ⟨j, hj, hcopy⟩ := h.durable r hr hok
        exact ⟨j, hj, hcopy.mono (List.prefix_refl _) fun _ => Line.answer_positive hline⟩
      · exact h.counted.trans hpublished.symm
      · intro call j hj
        rw [hpublished, htaken]
        exact h.own call j hj
  | receive =>
    simp only [next] at hstep
    split at hstep
    · next call j ack line hwaiting hline =>
      cases hstep
      obtain ⟨hpublished, -, -, -⟩ := Line.take_eq_some hline
      obtain ⟨hlast, hnext, message, hmessage, hcopy⟩ := h.own call j hwaiting
      obtain ⟨-, hanswer⟩ := Line.take_own (by omega) hline
      refine ⟨?_, h.counted.trans hpublished.symm, ?_⟩
      · apply durable_return
        · intro r hr hok
          obtain ⟨k, hk, hconfirmed⟩ := h.durable r hr hok
          exact ⟨k, hk, hconfirmed.mono (List.prefix_refl _) fun _ => Line.take_positive hline⟩
        · rintro rfl
          refine ⟨j, rfl, message, hmessage, hcopy, ?_⟩
          rw [← hlast, Nat.add_sub_cancel] at hanswer
          exact hanswer
      · intro call' k hk
        cases hk
    · cases hstep
  | receiveClosed =>
    simp only [next] at hstep
    split at hstep
    · split at hstep
      · cases hstep
        exact h.return _ _
      · cases hstep
    · cases hstep
  | done =>
    simp only [next] at hstep
    split at hstep
    · cases hstep
      exact h.return _ _
    · cases hstep
  | close =>
    cases hstep
    exact ⟨h.durable, h.counted, h.own⟩

theorem durable_of_prompt {es : List Event} {s : System} (h : Execution next start es s)
    (hprompt : Prompt es) : Durable s := by
  have hinvariant : Invariant s :=
    h.invariant_of (P := fun u e => ∀ call, e = .publish call true → u.line.Clear)
      invariant_start
      (fun u e v hu hclear hstep => invariant_next hu hclear hstep)
      (by
        rintro before e later u heq hrun call rfl
        exact hprompt before call later u heq hrun)
  exact hinvariant.durable

theorem mem_returned {history : List AnalyticsWorker.Call} {s : System}
    (h : Served history s) {i : ℕ} {attempt : ℤ}
    (hcall : AnalyticsWorker.Call.retry i attempt true ∈ history) :
    ∃ r ∈ s.returned, r.call.index = i ∧ r.ok = true := by
  have hmem : (i, true) ∈ retries history := List.mem_filterMap.mpr ⟨_, hcall, rfl⟩
  rw [h] at hmem
  obtain ⟨r, hr, heq⟩ := List.mem_map.mp hmem
  simp only [Prod.mk.injEq] at heq
  exact ⟨r, hr, heq⟩

/-- On a durable channel the worker acks durably. -/
theorem acksDurable_of_durable {s : System} (h : Durable s) {w : AnalyticsWorker.Worker}
    {fs : List AnalyticsWorker.Event} {t : AnalyticsWorker.System}
    (hrun : Execution (AnalyticsWorker.next w) AnalyticsWorker.start fs t)
    (hserved : Served t.history s) : AcksDurable t.history s := by
  intro i ok hmem
  obtain ⟨pre, post, hsplit⟩ := List.append_of_mem hmem
  have hsub : pre ⊆ t.history := by
    rw [hsplit]
    exact List.subset_append_left _ _
  rcases (WorkerRuns.invariant_execution hrun).acks pre post i ok hsplit with
    ⟨batch, n, hbatch, hi⟩ | ⟨attempt, hretry⟩
  · exact .inl ⟨batch, n, hsub hbatch, hi⟩
  · obtain ⟨r, hr, hindex, hok⟩ := mem_returned hserved (hsub hretry)
    obtain ⟨j, -, hcopy⟩ := h r hr hok
    exact .inr ⟨r.call, j, hindex, hcopy⟩

/-- While no confirmation is left behind, a nil result is the call's own confirmation, and the
worker acks no original whose copy is not confirmed. -/
theorem retry_durable_while_prompt (es : List Event) (s : System)
    (h : Execution next start es s) (hprompt : Prompt es) :
    Durable s ∧ ∀ w fs t,
      Execution (AnalyticsWorker.next w) AnalyticsWorker.start fs t →
      Served t.history s → AcksDurable t.history s := by
  have hdurable := durable_of_prompt h hprompt
  exact ⟨hdurable, fun _ _ _ hrun hserved => acksDurable_of_durable hdurable hrun hserved⟩

/-! ## A confirmation left behind -/

/-- A nil result while the broker has not answered the call's own publish. -/
theorem not_durable_return {s : System} (call : Retry) {j : ℕ}
    (hown : s.line.answers.length ≤ j) : ¬ Durable (s.return call (some j) true) := by
  intro hdurable
  obtain ⟨k, hk, -, -, -, hpositive⟩ := hdurable ⟨call, some j, true⟩
    (List.mem_append_right _ List.mem_cons_self) rfl
  cases hk
  have hlt := (List.getElem?_eq_some_iff.mp hpositive).1
  change j < s.line.answers.length at hlt
  omega

/-- Once a confirmation is left behind, a run can go on to report a copy as durable that the
broker has not confirmed. -/
theorem late_publish_can_lie {s : System} (hidle : s.waiting = none) (hopen : s.closed = false)
    (hlate : ¬ s.line.Clear) {call : Retry} {message : Publishing}
    (hmessage : retryPublishing call.delivery call.attempt = some message) :
    ∃ es t, Execution next s es t ∧ ¬ Durable t := by
  generalize hn : s.line.answers.length - s.line.taken = n
  induction n generalizing s with
  | zero =>
    have hanswers := s.line.answers_le
    have htaken := s.line.taken_le
    have hbehind : s.line.answers.length < s.line.published := by
      rw [Line.Clear] at hlate
      omega
    have hpublish : next s (.publish call true) = some { s with
        line := s.line.publish
        copies := s.copies ++ [(call, message)]
        waiting := some (call, s.line.published) } := by
      simp [next, hidle, hopen, hmessage]
    obtain ⟨l, hl⟩ := Line.answer_of_lt (l := s.line.publish)
      (Nat.lt_succ_of_lt hbehind) true
    obtain ⟨-, hlanswers, hltaken⟩ := Line.answer_eq_some hl
    have hunread : l.taken < l.answers.length := by
      rw [hltaken, hlanswers, List.length_append]
      exact Nat.lt_succ_of_le htaken
    obtain ⟨ack, m, hm⟩ := Line.take_of_lt hunread
    obtain ⟨-, hmanswers, -, hget⟩ := Line.take_eq_some hm
    -- The only unread answer is the new one.
    obtain rfl : ack = true := by
      rw [hltaken, hlanswers] at hget
      change (s.line.answers ++ [true])[s.line.taken]? = some ack at hget
      have hlast : s.line.taken = s.line.answers.length := by omega
      rw [hlast, List.getElem?_concat_length] at hget
      exact (Option.some.inj hget).symm
    have hreceive : replay next s [.publish call true, .confirm true, .receive] =
        some ({ s with
          line := m
          copies := s.copies ++ [(call, message)]
          waiting := some (call, s.line.published) }.return call (some s.line.published) true) := by
      simp only [replay, hpublish, Option.bind_some]
      simp [next, hopen, hl, hm, System.return]
    refine ⟨_, _, execution_of_replay hreceive, not_durable_return call ?_⟩
    change m.answers.length ≤ s.line.published
    rw [hmanswers, hlanswers, List.length_append]
    exact hbehind
  | succ n ih =>
    have hanswers := s.line.answers_le
    have hpublish : next s (.publish call true) = some { s with
        line := s.line.publish
        copies := s.copies ++ [(call, message)]
        waiting := some (call, s.line.published) } := by
      simp [next, hidle, hopen, hmessage]
    have hunread : s.line.publish.taken < s.line.publish.answers.length := by
      change s.line.taken < s.line.answers.length
      omega
    obtain ⟨ack, m, hm⟩ := Line.take_of_lt hunread
    obtain ⟨hmpublished, hmanswers, hmtaken, -⟩ := Line.take_eq_some hm
    have hreceive : replay next s [.publish call true, .receive] =
        some ({ s with
          line := m
          copies := s.copies ++ [(call, message)]
          waiting := some (call, s.line.published) }.return call (some s.line.published) ack) := by
      simp only [replay, hpublish, Option.bind_some]
      simp [next, hm, System.return]
    have hrun := execution_of_replay hreceive
    cases ack with
    | true =>
      refine ⟨_, _, hrun, not_durable_return call ?_⟩
      change m.answers.length ≤ s.line.published
      rw [hmanswers]
      exact hanswers
    | false =>
      -- A refusal was read: the next call is as late as this one.
      obtain ⟨es, t, hmore, ht⟩ := ih (s := { s with
          line := m
          copies := s.copies ++ [(call, message)]
          waiting := some (call, s.line.published) }.return call (some s.line.published) false)
        rfl hopen
        (by
          change ¬ m.taken = m.published
          rw [hmtaken, hmpublished]
          change ¬ s.line.taken + 1 = s.line.published + 1
          rw [Line.Clear] at hlate
          omega)
        (by
          change m.answers.length - m.taken = n
          rw [hmanswers, hmtaken]
          change s.line.answers.length - (s.line.taken + 1) = n
          omega)
      exact ⟨_, t, hrun.append hmore, ht⟩

/-- Two failed deliveries. -/
def first : Delivery := sampleDelivery (lit "aaaaaaaa-0000-4000-8000-000000000001") 1
def second : Delivery := sampleDelivery (lit "aaaaaaaa-0000-4000-8000-000000000002") 1

/-- The first call gives up before its confirmation arrives, and the second call reads it. The
broker then refuses the second copy. -/
def lateConfirmation : List Event :=
  [.publish ⟨0, first, 1⟩ true, .done, .confirm true, .publish ⟨1, second, 1⟩ true, .receive,
    .confirm false]

/-- The worker beside it. -/
def failedBatch : List AnalyticsWorker.Event :=
  [.receive first, .receive second, .recorded none, .retried false, .called true, .retried true,
    .called true]

def acksSecond : AnalyticsWorker.Call → Bool
  | .disposed .ack 1 true => true
  | _ => false

def unfailed : AnalyticsWorker.Call → Bool
  | .recordClicks _ (some _) => false
  | _ => true

theorem retry_reported_refused_copy :
    ∃ s t, Execution next start lateConfirmation s ∧ ¬ Durable s ∧
      Execution (AnalyticsWorker.next (AnalyticsWorker.NewWorker 2 0 5 true))
        AnalyticsWorker.start failedBatch t ∧
      Served t.history s ∧ ¬ AcksDurable t.history s := by
  have hchannel : (replay next start lateConfirmation).map (fun s =>
      (s.returned.map fun r => (r.call.index, r.publish, r.ok), s.line.answers,
        s.copies.map fun c => c.1.index)) =
      some ([(0, some 0, false), (1, some 1, true)], [true, false], [0, 1]) := by
    decide
  have hworker : (replay (AnalyticsWorker.next (AnalyticsWorker.NewWorker 2 0 5 true))
      AnalyticsWorker.start failedBatch).map (fun t =>
        (retries t.history, t.history.any acksSecond, t.history.all unfailed)) =
      some ([(0, false), (1, true)], true, true) := by
    decide
  obtain ⟨s, hs, hsummary⟩ := Option.map_eq_some_iff.mp hchannel
  obtain ⟨t, ht, htsummary⟩ := Option.map_eq_some_iff.mp hworker
  simp only [Prod.mk.injEq] at hsummary htsummary
  obtain ⟨hreturned, hanswers, hcopies⟩ := hsummary
  obtain ⟨hretries, hacked, hfailed⟩ := htsummary
  have hrefused : ¬ s.line.Positive 1 := by
    rw [Line.Positive, hanswers]
    decide
  refine ⟨s, t, execution_of_replay hs, ?_, execution_of_replay ht, ?_, ?_⟩
  · intro hdurable
    obtain ⟨r, hr, heq⟩ : ∃ r ∈ s.returned,
        (r.call.index, r.publish, r.ok) = (1, some 1, true) := by
      apply List.mem_map.mp
      rw [hreturned]
      decide
    simp only [Prod.mk.injEq] at heq
    obtain ⟨j, hj, -, -, -, hpositive⟩ := hdurable r hr heq.2.2
    rw [heq.2.1] at hj
    cases hj
    exact hrefused hpositive
  · rw [Served, hretries]
    have hpairs := congrArg (List.map fun x => (x.1, x.2.2)) hreturned
    simpa [Function.comp_def] using hpairs.symm
  · intro hdurable
    obtain ⟨c, hc, hack⟩ := List.any_eq_true.mp hacked
    have hmem : .disposed .ack 1 true ∈ t.history := by
      unfold acksSecond at hack
      split at hack
      · exact hc
      · cases hack
    rcases hdurable 1 true hmem with ⟨batch, n, hbatch, -⟩ | ⟨call, j, hindex, _, _, hcopy, hpos⟩
    · have hnone := List.all_eq_true.mp hfailed _ hbatch
      cases hnone
    · have hj : (s.copies.map fun c => c.1.index)[j]? = some 1 := by
        rw [List.getElem?_map, hcopy, Option.map_some, hindex]
      rw [hcopies] at hj
      obtain rfl : j = 1 := by
        rcases j with _ | _ | j
        · simp at hj
        · rfl
        · simp at hj
      exact hrefused hpos

/-- Two calls that each wait for their confirmation. -/
def promptRetries : List Event :=
  [.publish ⟨0, first, 1⟩ true, .confirm true, .receive, .publish ⟨1, second, 1⟩ true,
    .confirm false, .receive]

theorem retry_durable_while_prompt_refused :
    ∃ s, (∃ r ∈ s.returned, r.ok = true) ∧ Durable s := by
  have hreplay : (replay next start promptRetries).map (fun s => s.returned.any Returned.ok) =
      some true := by
    decide
  obtain ⟨s, hs, hok⟩ := Option.map_eq_some_iff.mp hreplay
  have hclear : ∀ n < 6, ∀ call, promptRetries[n]? = some (.publish call true) →
      (replay next start (promptRetries.take n)).all (fun u => u.line.Clear) = true := by
    intro n hn call hcall
    match n, hn with
    | 0, _ => decide
    | 3, _ => decide
    | 1, _ | 2, _ | 4, _ | 5, _ => cases hcall
  have hprompt : Prompt promptRetries := by
    intro before call later u heq hrun
    have hlength : before.length < 6 := by
      have htotal := congrArg List.length heq
      simp only [promptRetries, List.length_append, List.length_cons, List.length_nil] at htotal
      omega
    have hall := hclear before.length hlength call (by rw [heq]; simp)
    rw [heq, List.take_left, hrun.replay_eq] at hall
    simpa using hall
  exact ⟨s, by simpa using hok,
    (retry_durable_while_prompt promptRetries s (execution_of_replay hs) hprompt).1⟩

end RetryConfirms
