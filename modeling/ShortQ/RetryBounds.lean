import ShortQ.BatchNeighbours

/-! # How often a message is retried

What `retryBatch` and `Retry` make of the count in the header of a delivery, which anyone who
can publish to the queue may have written. -/
namespace RetryBounds

open GoText (lit)
open JsonValues
open Models
open ClickWire
open AnalyticsWorker
open FlushRounds
open BatchNeighbours

/-- How long a copy is held back, in nanoseconds. -/
def delay (attempt : ℤ) : ℤ := shiftedDelay (wrap64 (attempt - 1))

/-- A failed batch makes `retryBatch` call `Retry` for the delivery, and `q` is the copy. -/
def Retried (w : Worker) (p q : Pending) : Prop :=
  (∀ rest after, retryNext w after (p :: rest) = .retrying p rest after) ∧ copy p = some q

/-- A failed batch has the delivery rejected, or replaced by a copy that counts one more. -/
inductive Handled (w : Worker) (p : Pending) : Prop
  | rejected (call : ∀ rest after, retryNext w after (p :: rest) = .settling .reject p rest after)
  | retried {m : Publishing} (retried : Retried w p { p with delivery := wrap m })
      (message : retryPublishing p.delivery p.attempt = some m)
      (progress : retryCount p.delivery.headers < p.attempt)
      (range : 1 ≤ p.attempt ∧ p.attempt ≤ w.maxRetries - 1) (positive : 0 < delay p.attempt)
      (expiration : m.expiration = lit (toString ((delay p.attempt).tdiv 1000000)))
      (stamp : retryCount m.headers = p.attempt)

/-- No copy of the delivery escapes, and only so many batches with one of them fail. -/
structure Bounded (w : Worker) (p : Pending) : Prop where
  handled : ∀ q, Relation.ReflTransGen (Retried w) p q → Handled w q
  failures : ∀ copies, List.IsChain (Retried w) (p :: copies) →
    (p :: copies).length ≤ w.maxRetries

/-- The counts that can be moved on: neither negative nor the largest integer. -/
def Countable (p : Pending) : Prop :=
  0 ≤ retryCount p.delivery.headers ∧ retryCount p.delivery.headers ≠ int64Max

instance (p : Pending) : Decidable (Countable p) := inferInstanceAs (Decidable (_ ∧ _))

theorem delay_positive {attempt : ℤ} (hlow : 1 ≤ attempt) (hhigh : attempt ≤ 36) :
    0 < delay attempt := by
  have hall : ∀ n < 36, 0 < delay (n + 1 : ℕ) := by decide
  obtain ⟨n, rfl⟩ : ∃ n : ℕ, attempt = (n + 1 : ℕ) := ⟨(attempt - 1).toNat, by omega⟩
  exact hall n (by omega)

theorem attempt_of_countable {p : Pending} (h : Countable p) :
    p.attempt = retryCount p.delivery.headers + 1 := by
  have hle := retryCount_le p.delivery.headers
  obtain ⟨hlow, hne⟩ := h
  unfold Pending.attempt wrap64
  unfold int64Max at hle hne
  omega

/-- A count that cannot be moved on wraps around, or was below zero already. -/
theorem attempt_of_not_countable {p : Pending} (h : ¬ Countable p) : p.attempt < 1 := by
  have hle := retryCount_le p.delivery.headers
  have hge := le_retryCount p.delivery.headers
  unfold Countable at h
  unfold Pending.attempt wrap64
  unfold int64Max at hle h
  omega

variable {w : Worker} {p q : Pending}

theorem retryNext_rejects (h : w.maxRetries ≤ p.attempt) (rest : List Pending)
    (after : Option Loop) : retryNext w after (p :: rest) = .settling .reject p rest after := by
  rw [retryNext, if_pos h]

theorem retryNext_retries (hretryer : w.hasRetryer = true) (h : p.attempt < w.maxRetries)
    (rest : List Pending) (after : Option Loop) :
    retryNext w after (p :: rest) = .retrying p rest after := by
  rw [retryNext, if_neg (by omega), if_neg (by simp [hretryer])]

theorem retried_attempt (hp : Countable p) (h : Retried w p q) :
    1 ≤ p.attempt ∧ p.attempt < w.maxRetries := by
  obtain ⟨hcall, -⟩ := h
  have hlow := hp.1
  refine ⟨by rw [attempt_of_countable hp]; omega, ?_⟩
  by_contra hlarge
  have hreject := retryNext_rejects (p := p) (by omega : w.maxRetries ≤ p.attempt) [] none
  rw [hcall] at hreject
  cases hreject

/-- The copy carries the attempt as its count. -/
theorem retried_count (hmax : w.maxRetries ≤ 37) (hp : Countable p) (h : Retried w p q) :
    retryCount q.delivery.headers = p.attempt := by
  obtain ⟨hlow, hhigh⟩ := retried_attempt hp h
  obtain ⟨m, hm, rfl⟩ := Option.map_eq_some_iff.mp h.2
  rw [(wrap_retryPublishing hm).2.2, Int32.toInt_ofInt, Int.bmod_def]
  simp only [Int32.size]
  split <;> omega

theorem Countable.copy (hmax : w.maxRetries ≤ 37) (hp : Countable p) (h : Retried w p q) :
    Countable q ∧ retryCount q.delivery.headers = retryCount p.delivery.headers + 1 := by
  have hcount := retried_count hmax hp h
  obtain ⟨hlow, hhigh⟩ := retried_attempt hp h
  rw [attempt_of_countable hp] at hcount hlow hhigh
  refine ⟨⟨by omega, ?_⟩, hcount⟩
  unfold int64Max
  omega

theorem handled_of_countable (hretryer : w.hasRetryer = true) (hmax : w.maxRetries ≤ 37)
    (hp : Countable p) : Handled w p := by
  have hattempt := attempt_of_countable hp
  by_cases hlast : w.maxRetries ≤ p.attempt
  · exact .rejected fun rest after => retryNext_rejects hlast rest after
  · have hpositive : 1 ≤ p.attempt := by
      have hlow := hp.1
      omega
    have hshift : ¬ wrap64 (p.attempt - 1) < 0 := by
      unfold wrap64
      omega
    cases hm : retryPublishing p.delivery p.attempt with
    | none =>
      simp only [retryPublishing, if_neg hshift, reduceCtorEq] at hm
    | some m =>
      have hretried : Retried w p { p with delivery := wrap m } :=
        ⟨fun rest after => retryNext_retries hretryer (by omega) rest after, by
          rw [copy, hm]
          rfl⟩
      have hexpiration : m.expiration = lit (toString ((delay p.attempt).tdiv 1000000)) := by
        simp only [retryPublishing, if_neg hshift, Option.some.injEq] at hm
        rw [← hm]
        rfl
      exact .retried hretried hm (by omega) ⟨hpositive, by omega⟩
        (delay_positive hpositive (by omega)) hexpiration (retried_count hmax hp hretried)

theorem countable_of_reachable (hmax : w.maxRetries ≤ 37) (hp : Countable p)
    (h : Relation.ReflTransGen (Retried w) p q) : Countable q := by
  induction h with
  | refl => exact hp
  | tail _ hstep ih => exact (ih.copy hmax hstep).1

/-- Each failure leaves one fewer. -/
theorem failures_of_countable (hmax : w.maxRetries ≤ 37) (copies : List Pending)
    (hp : Countable p) (hchain : List.IsChain (Retried w) (p :: copies)) :
    copies.length ≤ max 0 (w.maxRetries - 1 - retryCount p.delivery.headers) := by
  induction copies generalizing p with
  | nil => exact Int.le_max_left _ _
  | cons q copies ih =>
    rw [List.isChain_cons_cons] at hchain
    obtain ⟨hq, hcount⟩ := hp.copy hmax hchain.1
    have hrest := ih hq hchain.2
    have hbelow := (retried_attempt hp hchain.1).2
    rw [attempt_of_countable hp] at hbelow
    rw [List.length_cons]
    omega

theorem not_handled (hretryer : w.hasRetryer = true) (hp : ¬ Countable p) : ¬ Handled w p := by
  have hattempt := attempt_of_not_countable hp
  intro h
  cases h with
  | rejected call =>
    have hretry := retryNext_retries (p := p) hretryer
      (by have hpos := w.maxRetries_pos; omega) [] none
    rw [call] at hretry
    cases hretry
  | retried _ _ _ range => exact absurd range.1 (by omega)

/-- A message is retried a bounded number of times exactly when its count can be moved on. -/
theorem retries_bounded_iff (w : Worker) (hretryer : w.hasRetryer = true)
    (hmax : w.maxRetries ≤ 37) (p : Pending) : Bounded w p ↔ Countable p := by
  constructor
  · intro h
    by_contra hp
    exact not_handled hretryer hp (h.handled p .refl)
  · intro hp
    refine ⟨fun q hq => handled_of_countable hretryer hmax (countable_of_reachable hmax hp hq),
      fun copies hchain => ?_⟩
    have hlength := failures_of_countable hmax copies hp hchain
    have hlow := hp.1
    have hpos := w.maxRetries_pos
    rw [List.length_cons]
    push_cast
    omega

/-- A click whose header counts minus one. -/
def negative : Pending :=
  ⟨0, { sampleDelivery (lit "aaaaaaaa-0000-4000-8000-000000000001") 1 with
    headers := [(RetryCountHeader, .int32 (-1))] },
    sampleEvent (lit "aaaaaaaa-0000-4000-8000-000000000001") 1⟩

/-- `Retry` is called with attempt zero and shifts by minus one. -/
theorem negative_count_panics :
    decodeEvent negative.delivery.body = some negative.event ∧
      retryNext rabbitWorker none [negative] = .retrying negative [] none ∧
      retryPublishing negative.delivery negative.attempt = none ∧
      ¬ Bounded rabbitWorker negative := by
  have hdecode : decodeEvent negative.delivery.body = some negative.event := by decide
  have hcount : ¬ Countable negative := by decide
  have hattempt : negative.attempt = 0 := by decide
  have hpanic : retryPublishing negative.delivery negative.attempt = none := by
    rw [hattempt]
    rfl
  exact ⟨hdecode, retryNext_retries rfl (by rw [hattempt]; decide) [] none, hpanic,
    fun h => not_handled rfl hcount (h.handled negative .refl)⟩

/-- A click whose header holds the largest integer. -/
def largest : Pending :=
  { negative with delivery := { negative.delivery with
    headers := [(RetryCountHeader, .int64 9223372036854775807)] } }

/-- The attempt wraps around, and so does the shift: a copy goes out at once and counts zero. -/
theorem largest_count_restarts :
    largest.attempt = -9223372036854775808 ∧ delay largest.attempt = 0 ∧
      ∃ q, Retried rabbitWorker largest q ∧ retryCount q.delivery.headers = 0 := by
  have hattempt : largest.attempt = -9223372036854775808 := by decide
  have hcopy : (copy largest).map (fun q => retryCount q.delivery.headers) = some 0 := by decide
  obtain ⟨q, hq, hcount⟩ := Option.map_eq_some_iff.mp hcopy
  refine ⟨hattempt, by rw [hattempt]; decide, q, ⟨?_, hq⟩, hcount⟩
  intro rest after
  exact retryNext_retries rfl (by rw [hattempt]; decide) rest after

/-- A click that was never retried. -/
def first : Pending :=
  ⟨0, sampleDelivery (lit "aaaaaaaa-0000-4000-8000-000000000001") 1,
    sampleEvent (lit "aaaaaaaa-0000-4000-8000-000000000001") 1⟩

theorem retries_bounded_iff_first : Bounded rabbitWorker first :=
  (retries_bounded_iff rabbitWorker rfl (by decide) first).mpr (by decide)

end RetryBounds
