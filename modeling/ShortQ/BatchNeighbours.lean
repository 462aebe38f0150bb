import ShortQ.FlushRounds

/-! # What batch neighbours do to a click

A batch fails as a whole, so a click can lose an attempt to an event beside it. It is lost only
when it loses all of them. -/
namespace BatchNeighbours

open GoText (lit)
open Models
open Schema
open ClickWire
open LabelledRuns
open AnalyticsWorker (Worker NewWorker Pending)
open FlushRounds

/-- How many of the first `n` steps from step `k` on flush the delivery beside an event that
cannot be stored. -/
def shared {w : Worker} (ρ : InfiniteRun (next w)) (i k n : ℕ) : ℕ :=
  (List.range n).countP fun j => shares (ρ.state (k + j)) i (ρ.label (k + j))

/-- Every queued delivery is flushed at some time. -/
def Fair {w : Worker} (ρ : InfiniteRun (next w)) : Prop :=
  ∀ k, ∀ p ∈ (ρ.state k).queue, ∃ l, k ≤ l ∧ attempts p.index (ρ.label l) = true

section Run

variable {w : Worker} {ρ : InfiniteRun (next w)} {k : ℕ} {p : Pending}

theorem shared_succ (i k n : ℕ) : shared ρ i k (n + 1) =
    shared ρ i k n + if shares (ρ.state (k + n)) i (ρ.label (k + n)) then 1 else 0 := by
  simp [shared, List.range_succ, List.countP_append, List.countP_singleton]

theorem invariant_state {db : Database} (hstart : ρ.state 0 = start db) (l : ℕ) :
    Invariant (ρ.state l) := by
  apply (ρ.execution l).invariant
  · rw [hstart]
    exact invariant_start db
  · exact fun _ _ _ hu hstep => invariant_next hu hstep

/-- Until it is committed the delivery waits, with a count that its shared batches explain. -/
theorem waiting_or_committed {db : Database} (hstart : ρ.state 0 = start db)
    (hp : p ∈ (ρ.state k).queue)
    (hgood : ∀ l, k ≤ l → attempts p.index (ρ.label l) = true →
      alone (ρ.state l).db p.event = true)
    (hbound : ∀ n, retryCount p.delivery.headers + shared ρ p.index k n < w.maxRetries)
    (n : ℕ) : p.index ∈ (ρ.state (k + n)).committed ∨
      (Waiting (ρ.state (k + n)) p.index p.event
        (retryCount p.delivery.headers + shared ρ p.index k n) ∧
      ∀ j < n, attempts p.index (ρ.label (k + j)) = true →
        shares (ρ.state (k + j)) p.index (ρ.label (k + j)) = true) := by
  induction n with
  | zero => exact .inr ⟨⟨p, hp, rfl, rfl, by simp [shared]⟩, by simp⟩
  | succ n ih =>
    have hstep := ρ.valid (k + n)
    rcases ih with hdone | ⟨hwaiting, hearlier⟩
    · exact .inl ((settled_next hstep).1 hdone)
    · have hroom := hbound (n + 1)
      have hcount : (shared ρ p.index k (n + 1) : ℤ) = shared ρ p.index k n +
          if shares (ρ.state (k + n)) p.index (ρ.label (k + n)) then 1 else 0 := by
        rw [shared_succ]
        split <;> simp
      rw [hcount, ← Int.add_assoc] at hroom ⊢
      rcases waiting_next (invariant_state hstart _) hwaiting hstep
        (hgood (k + n) (by omega)) hroom with hdone | ⟨hnext, hlast⟩
      · exact .inl hdone
      · refine .inr ⟨hnext, ?_⟩
        intro j hj
        rcases Nat.lt_succ_iff_lt_or_eq.mp hj with hlt | rfl
        · exact hearlier j hlt
        · exact hlast

theorem shared_mono (i k : ℕ) {m n : ℕ} (h : m ≤ n) : shared ρ i k m ≤ shared ρ i k n := by
  induction n, h using Nat.le_induction with
  | base => exact Nat.le_refl _
  | succ n _ ih =>
    rw [shared_succ]
    omega

/-- A delivery that is never committed shares any number of batches. -/
theorem shared_unbounded (hfair : Fair ρ) {i : ℕ}
    (hwaiting : ∀ n, ∃ q ∈ (ρ.state (k + n)).queue, q.index = i)
    (hshares : ∀ n, attempts i (ρ.label (k + n)) = true →
      shares (ρ.state (k + n)) i (ρ.label (k + n)) = true) (m : ℕ) :
    ∃ n, m ≤ shared ρ i k n := by
  induction m with
  | zero => exact ⟨0, Nat.zero_le _⟩
  | succ m ih =>
    obtain ⟨n, hn⟩ := ih
    obtain ⟨q, hq, rfl⟩ := hwaiting n
    obtain ⟨l, hl, hattempt⟩ := hfair _ q hq
    obtain ⟨j, rfl⟩ : ∃ j, l = k + (n + j) := ⟨l - (k + n), by omega⟩
    refine ⟨n + j + 1, ?_⟩
    have hmono := shared_mono (ρ := ρ) q.index k (Nat.le_add_right n j)
    rw [shared_succ, if_pos (hshares _ hattempt)]
    omega

/-- A delivery whose own event can be stored at each of its attempts is committed in the end
and never rejected, unless it spends all its attempts beside events that cannot be stored. -/
theorem neighbours_cost_only_shared_attempts (w : Worker) (ρ : InfiniteRun (next w))
    (db : Database) (hstart : ρ.state 0 = start db) (hfair : Fair ρ) (k : ℕ) (p : Pending)
    (hp : p ∈ (ρ.state k).queue)
    (hgood : ∀ l, k ≤ l → attempts p.index (ρ.label l) = true →
      alone (ρ.state l).db p.event = true)
    (hbound : ∀ n, retryCount p.delivery.headers + shared ρ p.index k n < w.maxRetries) :
    (∃ l, k ≤ l ∧ p.index ∈ (ρ.state l).committed) ∧
      ∀ l, p.index ∉ (ρ.state l).rejected := by
  have hcases := waiting_or_committed hstart hp hgood hbound
  have hcommitted : ∃ l, k ≤ l ∧ p.index ∈ (ρ.state l).committed := by
    by_contra hnever
    have hwaiting : ∀ n, _ := fun n => (hcases n).resolve_left fun hdone =>
      hnever ⟨k + n, by omega, hdone⟩
    obtain ⟨n, hn⟩ := shared_unbounded hfair
      (fun n => (hwaiting n).1.imp fun q hq => ⟨hq.1, hq.2.1⟩)
      (fun n => (hwaiting (n + 1)).2 n (Nat.lt_succ_self n))
      (w.maxRetries - retryCount p.delivery.headers).toNat
    have hlimit := hbound n
    omega
  refine ⟨hcommitted, ?_⟩
  intro l hrejected
  obtain ⟨m, -, hm⟩ := hcommitted
  have hlate : p.index ∈ (ρ.state (max l m)).committed ∧
      p.index ∈ (ρ.state (max l m)).rejected :=
    ⟨ρ.persists (P := fun s => p.index ∈ s.committed)
        (fun _ _ _ hs hstep => (settled_next hstep).1 hs) (Nat.le_max_right l m) hm,
      ρ.persists (P := fun s => p.index ∈ s.rejected)
        (fun _ _ _ hs hstep => (settled_next hstep).2 hs) (Nat.le_max_left l m) hrejected⟩
  have hnodup := (nodup_of_invariant (invariant_state hstart (max l m))).of_append_right
  exact List.disjoint_of_nodup_append hnodup hlate.1 hlate.2

end Run

/-! ## A neighbour that cannot be stored -/

/-- The worker that `RabbitMQWorker.Run` builds. -/
def rabbitWorker : Worker := NewWorker 200 250000000 5 true

/-- A click on a link that does not exist. -/
def badClick : Delivery := sampleDelivery (lit "aaaaaaaa-0000-4000-8000-000000000001") 2

def goodEvent : ClickEvent := sampleEvent (lit "aaaaaaaa-0000-4000-8000-000000000002") 1

def goodClick : Delivery := sampleDelivery (lit "aaaaaaaa-0000-4000-8000-000000000002") 1

/-- The two clicks meet in all five batches. -/
def poisoned : List Event :=
  [.deliver badClick, .deliver goodClick] ++
    List.replicate 5 (.flush [0, 1] fun _ => GoTime.zero)

theorem good_click_rejected :
    ∃ s, Execution (next rabbitWorker) (start (Database.single sampleLink)) poisoned s ∧
      1 ∈ s.rejected ∧ 1 ∉ s.committed ∧
      ∀ before e later u, poisoned = before ++ e :: later →
        Execution (next rabbitWorker) (start (Database.single sampleLink)) before u →
        alone u.db goodEvent = true := by
  have hreplay : (replay (next rabbitWorker) (start (Database.single sampleLink)) poisoned).map
      (fun s => (s.rejected, s.committed)) = some ([1, 0], []) := by decide
  have hgood : ∀ n < 7, (replay (next rabbitWorker) (start (Database.single sampleLink))
      (poisoned.take n)).all (fun u => alone u.db goodEvent) = true := by decide
  obtain ⟨s, hs, hsummary⟩ := Option.map_eq_some_iff.mp hreplay
  simp only [Prod.mk.injEq] at hsummary
  refine ⟨s, execution_of_replay hs, by simp [hsummary.1], by simp [hsummary.2], ?_⟩
  intro before e later u heq hrun
  have hlength : before.length < 7 := by
    have htotal := congrArg List.length heq
    simp only [poisoned, List.length_append, List.length_replicate, List.length_cons,
      List.length_nil] at htotal
    omega
  have hall := hgood before.length hlength
  rw [heq, List.take_left, hrun.replay_eq] at hall
  exact hall

/-- The two clicks meet once; then each is flushed by itself. -/
def parted : List Event :=
  [.deliver badClick, .deliver goodClick] ++
    [[0, 1], [1], [0], [0], [0], [0]].map fun chosen => .flush chosen fun _ => GoTime.zero

theorem parted_replays :
    (replay (next rabbitWorker) (start (Database.single sampleLink)) parted).isSome := by
  decide

def partedRun : InfiniteRun (next rabbitWorker) :=
  .extend (start (Database.single sampleLink)) parted (fun s => .write s.db) (fun _ => rfl)
    parted_replays

theorem partedRun_idle (n : ℕ) (hn : 8 ≤ n) :
    attempts 1 (partedRun.label n) = false ∧
      shares (partedRun.state n) 1 (partedRun.label n) = false := by
  have hlabel : partedRun.label n = .write
      ((replay (next rabbitWorker) (start (Database.single sampleLink)) parted).getD
        (start (Database.single sampleLink))).db := by
    simp only [partedRun, InfiniteRun.extend]
    rw [List.getElem?_eq_none (by simpa [parted] using hn), Option.getD_none]
  rw [hlabel]
  exact ⟨rfl, rfl⟩

theorem partedRun_fair : Fair partedRun := by
  intro k p hp
  by_cases hk : k < 8
  · have hall : ∀ k < 8, (partedRun.state k).queue.all (fun p => (List.range 8).any fun l =>
        k ≤ l && attempts p.index (partedRun.label l)) = true := by decide
    obtain ⟨l, -, hl⟩ := List.any_eq_true.mp (List.all_eq_true.mp (hall k hk) p hp)
    simp only [Bool.and_eq_true, decide_eq_true_eq] at hl
    exact ⟨l, hl⟩
  · have hstate : partedRun.state k = partedRun.state 8 := by
      simp only [partedRun, InfiniteRun.extend]
      rw [List.take_of_length_le (by simp [parted]; omega),
        List.take_of_length_le (by simp [parted])]
    have hempty : (partedRun.state 8).queue.isEmpty = true := by decide
    rw [hstate, List.isEmpty_iff.mp hempty] at hp
    cases hp

theorem neighbours_cost_only_shared_attempts_parted :
    (∃ l, 2 ≤ l ∧ 1 ∈ (partedRun.state l).committed) ∧
      ∀ l, 1 ∉ (partedRun.state l).rejected := by
  have hqueue : ((partedRun.state 2).queue.map fun p =>
      (p.index, p.event, retryCount p.delivery.headers)) =
      [(0, sampleEvent (lit "aaaaaaaa-0000-4000-8000-000000000001") 2, 0),
        (1, goodEvent, 0)] := by
    decide
  obtain ⟨p, hp, hsummary⟩ : ∃ p ∈ (partedRun.state 2).queue,
      (p.index, p.event, retryCount p.delivery.headers) = (1, goodEvent, (0 : ℤ)) := by
    apply List.mem_map.mp
    rw [hqueue]
    exact List.mem_cons_of_mem _ List.mem_cons_self
  simp only [Prod.mk.injEq] at hsummary
  obtain ⟨hindex, hevent, hcount⟩ := hsummary
  have hgood : ∀ n < 8, alone (partedRun.state n).db goodEvent = true := by decide
  have hshared : ∀ n ≤ 6, shared partedRun 1 2 n ≤ 1 := by decide
  have hbound : ∀ n, shared partedRun 1 2 n ≤ 1 := by
    intro n
    induction n with
    | zero => exact hshared 0 (by omega)
    | succ n ih =>
      by_cases hn : n < 6
      · exact hshared (n + 1) (by omega)
      · rw [shared_succ, (partedRun_idle (2 + n) (by omega)).2]
        exact ih
  have hcommitted := neighbours_cost_only_shared_attempts rabbitWorker partedRun
    (Database.single sampleLink) rfl partedRun_fair 2 p hp
    (by
      intro l _ hattempt
      rw [hindex] at hattempt
      rw [hevent]
      by_cases hl : l < 8
      · exact hgood l hl
      · rw [(partedRun_idle l (by omega)).1] at hattempt
        cases hattempt)
    (by
      intro n
      have hn := hbound n
      rw [hcount, hindex]
      change (0 : ℤ) + _ < 5
      omega)
  rw [hindex] at hcommitted
  exact hcommitted

end BatchNeighbours
