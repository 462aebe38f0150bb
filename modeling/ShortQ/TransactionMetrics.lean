import ShortQ.InFlight

/-! # The counters of transactions

`DatabaseMetrics` under any number of concurrent transactions, each of which calls `Commit` or
`Rollback` and then, as deferred, `Rollback` once more: `finished` lets only the first of them
count. -/
namespace TransactionMetrics

open CasMaximum (Cell Loop)
open LabelledRuns

/-! ## A total and a maximum -/

/-- A sum of durations and, by `updateAtomicMax`, the largest of them. -/
structure Timer where
  total : UInt64
  max : Cell UInt64

def Timer.initial : Timer := ⟨0, .initial 0⟩

/-- The addition to the total, and the entry to the loop on the maximum. -/
def Timer.add (t : Timer) (d : UInt64) : Timer :=
  ⟨t.total + d, { t.max with loops := t.max.loops ++ [.load d] }⟩

def Timer.step (t : Timer) (k : ℕ) : Option Timer :=
  (CasMaximum.next t.max (.step k)).map fun max => { t with max := max }

def Timer.ended (t : Timer) (k : ℕ) : Bool := t.max.loops[k]?.any Loop.isDone

/-- What was added, in order. -/
def Timer.durations (t : Timer) : List UInt64 := t.max.candidates

def sumOf (ds : List UInt64) : UInt64 := ds.foldl (· + ·) 0

theorem sumOf_snoc (ds : List UInt64) (d : UInt64) : sumOf (ds ++ [d]) = sumOf ds + d := by
  rw [sumOf, List.foldl_append]
  rfl

theorem sumOf_toNat (ds : List UInt64) :
    (sumOf ds).toNat = (ds.map UInt64.toNat).sum % 2 ^ 64 := by
  induction ds using List.reverseRecOn with
  | nil => rfl
  | append_singleton ds d ih =>
    rw [sumOf_snoc, UInt64.toNat_add, ih, List.map_append, List.sum_append, List.map_singleton,
      List.sum_singleton, Nat.mod_add_mod]

structure Timer.Sound (t : Timer) : Prop where
  total : t.total = sumOf t.durations
  kept : CasMaximum.Kept 0 t.max

theorem Timer.sound_initial : Timer.initial.Sound := ⟨rfl, CasMaximum.Kept.initial 0⟩

theorem Timer.durations_add (t : Timer) (d : UInt64) :
    (t.add d).durations = t.durations ++ [d] := List.map_append

theorem Timer.Sound.add {t : Timer} (h : t.Sound) (d : UInt64) : (t.add d).Sound := by
  constructor
  · rw [Timer.durations_add, sumOf_snoc, ← h.total]
    rfl
  · exact h.kept.next (e := .enter d) rfl

theorem Timer.durations_step {t t' : Timer} {k : ℕ} (h : t.step k = some t') :
    t'.durations = t.durations := by
  obtain ⟨max, hmax, rfl⟩ := Option.map_eq_some_iff.mp h
  exact CasMaximum.candidates_step hmax

theorem Timer.Sound.step {t t' : Timer} {k : ℕ} (hs : t.Sound) (h : t.step k = some t') :
    t'.Sound := by
  have hdurations := Timer.durations_step h
  obtain ⟨max, hmax, rfl⟩ := Option.map_eq_some_iff.mp h
  refine ⟨?_, hs.kept.next hmax⟩
  rw [hdurations]
  exact hs.total

/-- A step moves its own loop only. -/
theorem Timer.loops_step {t t' : Timer} {k : ℕ} (h : t.step k = some t') :
    t'.max.loops.length = t.max.loops.length ∧
      ∀ j, j ≠ k → t'.max.loops[j]? = t.max.loops[j]? := by
  obtain ⟨max, hmax, rfl⟩ := Option.map_eq_some_iff.mp h
  obtain ⟨l, l', -, -, hloops⟩ := CasMaximum.next_step hmax
  constructor
  · change max.loops.length = _
    rw [hloops, List.length_set]
  · intro j hj
    change max.loops[j]? = _
    rw [hloops, List.getElem?_set_ne (Ne.symm hj)]

/-! ## The metrics -/

inductive Outcome where
  | committed
  | failed
  | rolledBack
  deriving DecidableEq, Repr

/-- How far a transaction has come, with the place of its loop while it is in one. -/
inductive Phase where
  | opened
  | committing (ok : Bool) (loop : ℕ)
  | counted (o : Outcome)
  | timing (o : Outcome) (loop : ℕ)
  | finished (o : Outcome)
  deriving DecidableEq, Repr

def Phase.outcome : Phase → Option Outcome
  | .counted o | .timing o _ | .finished o => some o
  | _ => none

/-- `Commit` has taken the time of the commit. -/
def Phase.tried : Phase → Bool
  | .committing _ _ => true
  | p => p.outcome = some .committed || p.outcome = some .failed

/-- The time of the transaction was taken. -/
def Phase.timed : Phase → Bool
  | .timing _ _ | .finished _ => true
  | _ => false

structure DatabaseMetrics where
  transactionsStarted : UInt64
  transactionsCommitted : UInt64
  transactionsRolledBack : UInt64
  commitFailures : UInt64
  transactionDuration : Timer
  commitDuration : Timer
  transactions : List Phase

def initial : DatabaseMetrics := ⟨0, 0, 0, 0, .initial, .initial, []⟩

inductive Event where
  | begin
  | commit (i : ℕ) (ok : Bool) (commitDuration : UInt64)
  | raiseCommit (i : ℕ)
  | count (i : ℕ)
  | rollback (i : ℕ)
  | observe (i : ℕ) (duration : UInt64)
  | raise (i : ℕ)
  | finish (i : ℕ)
  deriving DecidableEq, Repr

/-- The transaction has come so far. -/
def DatabaseMetrics.move (s : DatabaseMetrics) (i : ℕ) (p : Phase) : DatabaseMetrics :=
  { s with transactions := s.transactions.set i p }

/-- `Begin`, `Commit` and `Rollback`, one atomic operation at a time. A `Rollback` of a finished
transaction counts nothing. -/
def next (s : DatabaseMetrics) : Event → Option DatabaseMetrics
  | .begin =>
    some { s with
      transactionsStarted := s.transactionsStarted + 1
      transactions := s.transactions ++ [.opened] }
  | .commit i ok d =>
    match s.transactions[i]? with
    | some .opened =>
      some ({ s with commitDuration := s.commitDuration.add d }.move i
        (Phase.committing ok s.commitDuration.max.loops.length))
    | _ => none
  | .raiseCommit i =>
    match s.transactions[i]? with
    | some (.committing _ k) =>
      (s.commitDuration.step k).map fun t => { s with commitDuration := t }
    | _ => none
  | .count i =>
    match s.transactions[i]? with
    | some (.committing ok k) =>
      if s.commitDuration.ended k then
        if ok then
          some ({ s with transactionsCommitted := s.transactionsCommitted + 1 }.move i
            (.counted .committed))
        else some ({ s with commitFailures := s.commitFailures + 1 }.move i (.counted .failed))
      else none
    | _ => none
  | .rollback i =>
    match s.transactions[i]? with
    | some .opened =>
      some ({ s with transactionsRolledBack := s.transactionsRolledBack + 1 }.move i
        (.counted .rolledBack))
    | some (.finished _) => some s
    | _ => none
  | .observe i d =>
    match s.transactions[i]? with
    | some (.counted o) =>
      some ({ s with transactionDuration := s.transactionDuration.add d }.move i
        (Phase.timing o s.transactionDuration.max.loops.length))
    | _ => none
  | .raise i =>
    match s.transactions[i]? with
    | some (.timing _ k) =>
      (s.transactionDuration.step k).map fun t => { s with transactionDuration := t }
    | _ => none
  | .finish i =>
    match s.transactions[i]? with
    | some (.timing o k) =>
      if s.transactionDuration.ended k then some (s.move i (.finished o)) else none
    | _ => none

/-- What one operation does. -/
inductive Step (s : DatabaseMetrics) : Event → DatabaseMetrics → Prop where
  | begin : Step s .begin { s with
      transactionsStarted := s.transactionsStarted + 1
      transactions := s.transactions ++ [.opened] }
  | commit {i : ℕ} {ok d} (stands : s.transactions[i]? = some .opened) :
    Step s (.commit i ok d) ({ s with commitDuration := s.commitDuration.add d }.move i
      (Phase.committing ok s.commitDuration.max.loops.length))
  | raiseCommit {i k : ℕ} {ok t} (stands : s.transactions[i]? = some (Phase.committing ok k))
      (raised : s.commitDuration.step k = some t) :
    Step s (.raiseCommit i) { s with commitDuration := t }
  | committed {i k : ℕ} (stands : s.transactions[i]? = some (Phase.committing true k))
      (ended : s.commitDuration.ended k = true) :
    Step s (.count i) ({ s with transactionsCommitted := s.transactionsCommitted + 1 }.move i
      (.counted .committed))
  | failed {i k : ℕ} (stands : s.transactions[i]? = some (Phase.committing false k))
      (ended : s.commitDuration.ended k = true) :
    Step s (.count i) ({ s with commitFailures := s.commitFailures + 1 }.move i (.counted .failed))
  | rollback {i : ℕ} (stands : s.transactions[i]? = some .opened) :
    Step s (.rollback i) ({ s with transactionsRolledBack := s.transactionsRolledBack + 1 }.move i
      (.counted .rolledBack))
  | again {i : ℕ} : Step s (.rollback i) s
  | observe {i : ℕ} {o d} (stands : s.transactions[i]? = some (Phase.counted o)) :
    Step s (.observe i d) ({ s with transactionDuration := s.transactionDuration.add d }.move i
      (Phase.timing o s.transactionDuration.max.loops.length))
  | raise {i k : ℕ} {o t} (stands : s.transactions[i]? = some (Phase.timing o k))
      (raised : s.transactionDuration.step k = some t) :
    Step s (.raise i) { s with transactionDuration := t }
  | finish {i k : ℕ} {o} (stands : s.transactions[i]? = some (Phase.timing o k))
      (ended : s.transactionDuration.ended k = true) : Step s (.finish i) (s.move i (.finished o))

theorem step_of_next {s t : DatabaseMetrics} {e : Event} (h : next s e = some t) : Step s e t := by
  cases e with
  | begin =>
    cases h
    exact .begin
  | commit i ok d =>
    rw [next] at h
    split at h
    · rename_i hphase
      cases h
      exact .commit hphase
    · cases h
  | raiseCommit i =>
    rw [next] at h
    split at h
    · rename_i hphase
      obtain ⟨t, ht, rfl⟩ := Option.map_eq_some_iff.mp h
      exact .raiseCommit hphase ht
    · cases h
  | count i =>
    rw [next] at h
    split at h
    · rename_i ok k hphase
      obtain ⟨hended, h⟩ := Option.ite_none_right_eq_some.mp h
      cases ok with
      | true =>
        cases h
        exact .committed hphase hended
      | false =>
        cases h
        exact .failed hphase hended
    · cases h
  | rollback i =>
    rw [next] at h
    split at h
    · rename_i hphase
      cases h
      exact .rollback hphase
    · cases h
      exact .again
    · cases h
  | observe i d =>
    rw [next] at h
    split at h
    · rename_i hphase
      cases h
      exact .observe hphase
    · cases h
  | raise i =>
    rw [next] at h
    split at h
    · rename_i hphase
      obtain ⟨t, ht, rfl⟩ := Option.map_eq_some_iff.mp h
      exact .raise hphase ht
    · cases h
  | finish i =>
    rw [next] at h
    split at h
    · rename_i hphase
      obtain ⟨hended, h⟩ := Option.ite_none_right_eq_some.mp h
      cases h
      exact .finish hphase hended
    · cases h

/-! ## Counting transactions -/

section Counting

variable {ps : List Phase} {i : ℕ} {p q : Phase} {f : Phase → Bool}

theorem tally_same {n : ℕ} (hn : n = ps.countP f) (h : ps[i]? = some p) (hsame : f p = f q) :
    n = (ps.set i q).countP f := by
  have hadd := CasMaximum.countP_set_add h q f
  rw [hsame] at hadd
  exact hn.trans (Nat.add_right_cancel hadd).symm

theorem tally_raised {n : ℕ} (hn : n = ps.countP f) (h : ps[i]? = some p) (hp : f p = false)
    (hq : f q = true) : n + 1 = (ps.set i q).countP f := by
  have hadd := CasMaximum.countP_set_add h q f
  rw [hp, hq] at hadd
  rw [hn]
  exact hadd.symm

theorem counter_same {c : UInt64} (hc : c = UInt64.ofNat (ps.countP f)) (h : ps[i]? = some p)
    (hsame : f p = f q) : c = UInt64.ofNat ((ps.set i q).countP f) :=
  hc.trans (congrArg _ (tally_same rfl h hsame))

theorem counter_raised {c : UInt64} (hc : c = UInt64.ofNat (ps.countP f)) (h : ps[i]? = some p)
    (hp : f p = false) (hq : f q = true) : c + 1 = UInt64.ofNat ((ps.set i q).countP f) := by
  rw [← tally_raised rfl h hp hq, hc]
  exact (UInt64.ofNat_add _ 1).symm

theorem counter_opened {c : UInt64} (hc : c = UInt64.ofNat (ps.countP f)) (hq : f q = false) :
    c = UInt64.ofNat ((ps ++ [q]).countP f) := by
  rw [List.countP_append, List.countP_singleton, hq]
  exact hc

end Counting

/-! ## Loops and their transactions -/

/-- A loop that has not ended is the loop of a transaction. -/
def Owned (loopOf : Phase → Option ℕ) (t : Timer) (ps : List Phase) : Prop :=
  ∀ k < t.max.loops.length, t.ended k = false → ∃ p ∈ ps, loopOf p = some k

section Owners

variable {loopOf : Phase → Option ℕ} {t : Timer} {ps : List Phase} {i : ℕ} {p q : Phase}

theorem mem_set_of_ne {r : Phase} (h : ps[i]? = some p) (hr : r ∈ ps) (hne : r ≠ p) :
    r ∈ ps.set i q := by
  obtain ⟨j, hj, rfl⟩ := List.getElem_of_mem hr
  obtain ⟨hi, rfl⟩ := List.getElem?_eq_some_iff.mp h
  have hij : i ≠ j := by
    rintro rfl
    exact hne rfl
  refine List.mem_iff_getElem.mpr ⟨j, ?_, List.getElem_set_ne hij _⟩
  rw [List.length_set]
  exact hj

theorem Owned.opened (hs : Owned loopOf t ps) (q : Phase) : Owned loopOf t (ps ++ [q]) := by
  intro k hk hended
  obtain ⟨r, hr, hloop⟩ := hs k hk hended
  exact ⟨r, List.mem_append_left _ hr, hloop⟩

/-- A transaction leaves its loop only when the loop has ended. -/
theorem Owned.move (hs : Owned loopOf t ps) (h : ps[i]? = some p)
    (hleft : ∀ k, loopOf p = some k → t.ended k = true) : Owned loopOf t (ps.set i q) := by
  intro k hk hended
  obtain ⟨r, hr, hloop⟩ := hs k hk hended
  refine ⟨r, mem_set_of_ne h hr ?_, hloop⟩
  rintro rfl
  rw [hleft k hloop] at hended
  cases hended

theorem Owned.add (hs : Owned loopOf t ps) (d : UInt64) (h : ps[i]? = some p)
    (hfree : loopOf p = none) (hnew : loopOf q = some t.max.loops.length) :
    Owned loopOf (t.add d) (ps.set i q) := by
  intro k hk hended
  have hlength : (t.add d).max.loops.length = t.max.loops.length + 1 := List.length_append
  rcases Nat.lt_or_ge k t.max.loops.length with hlt | hge
  · have hsame : (t.add d).ended k = t.ended k := by
      rw [Timer.ended, Timer.ended, Timer.add, List.getElem?_append_left hlt]
    obtain ⟨r, hr, hloop⟩ := hs k hlt (hsame ▸ hended)
    refine ⟨r, mem_set_of_ne h hr ?_, hloop⟩
    rintro rfl
    rw [hfree] at hloop
    cases hloop
  · obtain rfl : k = t.max.loops.length := by omega
    obtain ⟨hi, -⟩ := List.getElem?_eq_some_iff.mp h
    exact ⟨q, List.mem_set hi q, hnew⟩

theorem Owned.step {t' : Timer} {k : ℕ} (hs : Owned loopOf t ps) (h : ps[i]? = some p)
    (hloop : loopOf p = some k) (hstep : t.step k = some t') : Owned loopOf t' ps := by
  obtain ⟨hlength, hothers⟩ := Timer.loops_step hstep
  intro j hj hended
  by_cases hjk : j = k
  · subst hjk
    exact ⟨p, List.mem_of_getElem? h, hloop⟩
  · rw [Timer.ended, hothers j hjk] at hended
    exact hs j (hlength ▸ hj) hended

/-- When no transaction is in a loop every loop has ended. -/
theorem Owned.ended (hs : Owned loopOf t ps) (hfree : ∀ p ∈ ps, loopOf p = none) :
    ∀ l ∈ t.max.loops, l.isDone = true := by
  intro l hl
  obtain ⟨k, hk, rfl⟩ := List.getElem_of_mem hl
  by_contra hopen
  have hended : t.ended k = false := by
    rw [Timer.ended, List.getElem?_eq_getElem hk]
    exact Bool.eq_false_iff.mpr hopen
  obtain ⟨p, hp, hloop⟩ := hs k hk hended
  rw [hfree p hp] at hloop
  cases hloop

end Owners

/-! ## The tallies -/

def DatabaseMetrics.ended (s : DatabaseMetrics) (o : Outcome) : ℕ :=
  s.transactions.countP fun p => p.outcome = some o

def Phase.commitLoop : Phase → Option ℕ
  | .committing _ k => some k
  | _ => none

def Phase.timeLoop : Phase → Option ℕ
  | .timing _ k => some k
  | _ => none

/-- The duration `Commit` measures. -/
def Event.commitDuration : Event → Option UInt64
  | .commit _ _ d => some d
  | _ => none

/-- The duration `observeTransactionDuration` is given. -/
def Event.transactionDuration : Event → Option UInt64
  | .observe _ d => some d
  | _ => none

structure Tallied (es : List Event) (s : DatabaseMetrics) : Prop where
  begun : s.transactions.length = es.count .begin
  started : s.transactionsStarted = UInt64.ofNat s.transactions.length
  committed : s.transactionsCommitted = UInt64.ofNat (s.ended .committed)
  failed : s.commitFailures = UInt64.ofNat (s.ended .failed)
  rolledBack : s.transactionsRolledBack = UInt64.ofNat (s.ended .rolledBack)
  tried : s.commitDuration.durations.length = s.transactions.countP Phase.tried
  timed : s.transactionDuration.durations.length = s.transactions.countP Phase.timed

/-- The two timers, with the durations of the run. -/
structure Timed (es : List Event) (s : DatabaseMetrics) : Prop where
  commits : s.commitDuration.durations = es.filterMap Event.commitDuration
  transactions : s.transactionDuration.durations = es.filterMap Event.transactionDuration
  commitDuration : s.commitDuration.Sound
  transactionDuration : s.transactionDuration.Sound
  committing : Owned Phase.commitLoop s.commitDuration s.transactions
  timing : Owned Phase.timeLoop s.transactionDuration s.transactions

theorem count_snoc_of_ne {es : List Event} {e : Event} (h : e ≠ .begin) :
    (es ++ [e]).count .begin = es.count .begin := by
  rw [List.count_append, List.count_singleton]
  simp [h]

theorem Tallied.step {es : List Event} {s t : DatabaseMetrics} {e : Event} (hs : Tallied es s)
    (h : Step s e t) : Tallied (es ++ [e]) t := by
  have hlength : ∀ {i : ℕ} {p : Phase} {c : UInt64}, c = UInt64.ofNat s.transactions.length →
      c = UInt64.ofNat (s.transactions.set i p).length := by
    intro i p c hc
    rw [List.length_set]
    exact hc
  have hbegun : ∀ {i : ℕ} {p : Phase}, e ≠ .begin →
      (s.transactions.set i p).length = (es ++ [e]).count .begin := by
    intro i p hne
    rw [List.length_set, count_snoc_of_ne hne]
    exact hs.begun
  cases h with
  | begin =>
    constructor
    · rw [List.length_append, List.count_append, hs.begun]
      rfl
    · rw [List.length_append, hs.started]
      exact (UInt64.ofNat_add _ 1).symm
    · exact counter_opened hs.committed rfl
    · exact counter_opened hs.failed rfl
    · exact counter_opened hs.rolledBack rfl
    · rw [List.countP_append]
      exact hs.tried
    · rw [List.countP_append]
      exact hs.timed
  | commit stands =>
    refine ⟨hbegun (by simp), hlength hs.started, ?_, ?_, ?_, ?_, ?_⟩
    · exact counter_same hs.committed stands rfl
    · exact counter_same hs.failed stands rfl
    · exact counter_same hs.rolledBack stands rfl
    · refine Eq.trans ?_ (tally_raised hs.tried stands rfl rfl)
      exact (congrArg List.length (Timer.durations_add _ _)).trans List.length_append
    · exact tally_same hs.timed stands rfl
  | raiseCommit stands raised =>
    refine ⟨?_, hs.started, hs.committed, hs.failed, hs.rolledBack, ?_, hs.timed⟩
    · rw [count_snoc_of_ne (by simp)]
      exact hs.begun
    · exact (congrArg List.length (Timer.durations_step raised)).trans hs.tried
  | committed stands ended =>
    refine ⟨hbegun (by simp), hlength hs.started, ?_, ?_, ?_, ?_, ?_⟩
    · exact counter_raised hs.committed stands rfl rfl
    · exact counter_same hs.failed stands rfl
    · exact counter_same hs.rolledBack stands rfl
    · exact tally_same hs.tried stands rfl
    · exact tally_same hs.timed stands rfl
  | failed stands ended =>
    refine ⟨hbegun (by simp), hlength hs.started, ?_, ?_, ?_, ?_, ?_⟩
    · exact counter_same hs.committed stands rfl
    · exact counter_raised hs.failed stands rfl rfl
    · exact counter_same hs.rolledBack stands rfl
    · exact tally_same hs.tried stands rfl
    · exact tally_same hs.timed stands rfl
  | rollback stands =>
    refine ⟨hbegun (by simp), hlength hs.started, ?_, ?_, ?_, ?_, ?_⟩
    · exact counter_same hs.committed stands rfl
    · exact counter_same hs.failed stands rfl
    · exact counter_raised hs.rolledBack stands rfl rfl
    · exact tally_same hs.tried stands rfl
    · exact tally_same hs.timed stands rfl
  | again =>
    refine ⟨?_, hs.started, hs.committed, hs.failed, hs.rolledBack, hs.tried, hs.timed⟩
    rw [count_snoc_of_ne (by simp)]
    exact hs.begun
  | observe stands =>
    refine ⟨hbegun (by simp), hlength hs.started, ?_, ?_, ?_, ?_, ?_⟩
    · exact counter_same hs.committed stands rfl
    · exact counter_same hs.failed stands rfl
    · exact counter_same hs.rolledBack stands rfl
    · exact tally_same hs.tried stands rfl
    · refine Eq.trans ?_ (tally_raised hs.timed stands rfl rfl)
      exact (congrArg List.length (Timer.durations_add _ _)).trans List.length_append
  | raise stands raised =>
    refine ⟨?_, hs.started, hs.committed, hs.failed, hs.rolledBack, hs.tried, ?_⟩
    · rw [count_snoc_of_ne (by simp)]
      exact hs.begun
    · exact (congrArg List.length (Timer.durations_step raised)).trans hs.timed
  | finish stands ended =>
    refine ⟨hbegun (by simp), hlength hs.started, ?_, ?_, ?_, ?_, ?_⟩
    · exact counter_same hs.committed stands rfl
    · exact counter_same hs.failed stands rfl
    · exact counter_same hs.rolledBack stands rfl
    · exact tally_same hs.tried stands rfl
    · exact tally_same hs.timed stands rfl

theorem filterMap_snoc_none {es : List Event} {e : Event} {f : Event → Option UInt64}
    (h : f e = none) : (es ++ [e]).filterMap f = es.filterMap f := by
  rw [List.filterMap_append, List.filterMap_cons_none h, List.filterMap_nil, List.append_nil]

theorem filterMap_snoc_some {es : List Event} {e : Event} {f : Event → Option UInt64} {d : UInt64}
    (h : f e = some d) : (es ++ [e]).filterMap f = es.filterMap f ++ [d] := by
  rw [List.filterMap_append, List.filterMap_cons_some h, List.filterMap_nil]

theorem Timed.step {es : List Event} {s t : DatabaseMetrics} {e : Event} (hs : Timed es s)
    (h : Step s e t) : Timed (es ++ [e]) t := by
  have hfree : ∀ {f : Phase → Option ℕ} {p : Phase} {u : Timer}, f p = none →
      ∀ k, f p = some k → u.ended k = true := by
    intro f p u hnone k hk
    rw [hnone] at hk
    cases hk
  have hcommits : Event.commitDuration e = none →
      s.commitDuration.durations = (es ++ [e]).filterMap Event.commitDuration := by
    intro hnone
    rw [filterMap_snoc_none hnone]
    exact hs.commits
  have htransactions : Event.transactionDuration e = none →
      s.transactionDuration.durations = (es ++ [e]).filterMap Event.transactionDuration := by
    intro hnone
    rw [filterMap_snoc_none hnone]
    exact hs.transactions
  cases h with
  | begin =>
    exact ⟨hcommits rfl, htransactions rfl, hs.commitDuration, hs.transactionDuration,
      hs.committing.opened _, hs.timing.opened _⟩
  | @commit i ok d stands =>
    refine ⟨?_, htransactions rfl, hs.commitDuration.add d, hs.transactionDuration,
      hs.committing.add d stands rfl rfl, hs.timing.move stands (hfree rfl)⟩
    refine (Timer.durations_add _ d).trans ?_
    rw [hs.commits]
    exact (filterMap_snoc_some rfl).symm
  | raiseCommit stands raised =>
    exact ⟨(Timer.durations_step raised).trans (hcommits rfl), htransactions rfl,
      hs.commitDuration.step raised, hs.transactionDuration,
      hs.committing.step stands rfl raised, hs.timing⟩
  | committed stands ended =>
    refine ⟨hcommits rfl, htransactions rfl, hs.commitDuration, hs.transactionDuration,
      hs.committing.move stands ?_, hs.timing.move stands (hfree rfl)⟩
    rintro _ ⟨⟩
    exact ended
  | failed stands ended =>
    refine ⟨hcommits rfl, htransactions rfl, hs.commitDuration, hs.transactionDuration,
      hs.committing.move stands ?_, hs.timing.move stands (hfree rfl)⟩
    rintro _ ⟨⟩
    exact ended
  | rollback stands =>
    exact ⟨hcommits rfl, htransactions rfl, hs.commitDuration, hs.transactionDuration,
      hs.committing.move stands (hfree rfl), hs.timing.move stands (hfree rfl)⟩
  | again =>
    exact ⟨hcommits rfl, htransactions rfl, hs.commitDuration, hs.transactionDuration,
      hs.committing, hs.timing⟩
  | @observe i o d stands =>
    refine ⟨hcommits rfl, ?_, hs.commitDuration, hs.transactionDuration.add d,
      hs.committing.move stands (hfree rfl), hs.timing.add d stands rfl rfl⟩
    refine (Timer.durations_add _ d).trans ?_
    rw [hs.transactions]
    exact (filterMap_snoc_some rfl).symm
  | raise stands raised =>
    exact ⟨hcommits rfl, (Timer.durations_step raised).trans (htransactions rfl),
      hs.commitDuration, hs.transactionDuration.step raised, hs.committing,
      hs.timing.step stands rfl raised⟩
  | finish stands ended =>
    refine ⟨hcommits rfl, htransactions rfl, hs.commitDuration, hs.transactionDuration,
      hs.committing.move stands (hfree rfl), hs.timing.move stands ?_⟩
    rintro _ ⟨⟩
    exact ended

theorem tallied_of_run {es : List Event} {s : DatabaseMetrics}
    (h : Execution next initial es s) : Tallied es s := by
  refine h.induct ?_ fun _ _ _ _ hu hnext => hu.step (step_of_next hnext)
  constructor <;> rfl

theorem timed_of_run {es : List Event} {s : DatabaseMetrics}
    (h : Execution next initial es s) : Timed es s := by
  refine h.induct ?_ fun _ _ _ _ hu hnext => hu.step (step_of_next hnext)
  refine ⟨rfl, rfl, Timer.sound_initial, Timer.sound_initial, ?_, ?_⟩
  · intro k hk
    cases hk
  · intro k hk
    cases hk

/-! ## What the metrics say -/

/-- The transactions that neither `Commit` nor `Rollback` has counted. -/
def DatabaseMetrics.open (s : DatabaseMetrics) : ℕ :=
  s.transactions.countP fun p => p.outcome = none

theorem ended_le (s : DatabaseMetrics) (o : Outcome) : s.ended o ≤ s.transactions.length :=
  List.countP_le_length

theorem ended_add_open (s : DatabaseMetrics) :
    s.transactions.length =
      s.ended .committed + s.ended .failed + s.ended .rolledBack + s.open := by
  unfold DatabaseMetrics.ended DatabaseMetrics.open
  induction s.transactions with
  | nil => rfl
  | cons p ps ih =>
    rw [List.length_cons, ih]
    simp only [List.countP_cons]
    rcases p.outcome with _ | _ | _ | _ <;> simp <;> omega

/-- The maximum of a timer whose loops have ended. -/
theorem Timer.Sound.greatest {t : Timer} (h : t.Sound)
    (hdone : ∀ l ∈ t.max.loops, l.isDone = true) :
    IsGreatest {d | d = 0 ∨ d ∈ t.durations} t.max.value := by
  have hset : {d | d = 0 ∨ ∃ l ∈ t.max.loops, d = l.candidate} = {d | d = 0 ∨ d ∈ t.durations} := by
    ext d
    refine or_congr Iff.rfl ⟨?_, ?_⟩
    · rintro ⟨l, hl, rfl⟩
      exact List.mem_map_of_mem hl
    · intro hd
      obtain ⟨l, hl, rfl⟩ := List.mem_map.mp hd
      exact ⟨l, hl, rfl⟩
  rw [← hset]
  exact h.kept.greatest hdone

theorem Timer.Sound.toNat_total {t : Timer} (h : t.Sound) :
    t.total.toNat = (t.durations.map UInt64.toNat).sum % 2 ^ 64 := by
  rw [h.total]
  exact sumOf_toNat t.durations

/-- Whatever the interleaving, the counters are exact and account for every transaction begun, a
second `Rollback` or one behind a `Commit` among them; each total is the sum of the durations
measured, modulo `2 ^ 64`; and with no transaction inside the loop on a maximum it is the largest
of them. -/
theorem transactions_tallied {es : List Event} {s : DatabaseMetrics}
    (h : Execution next initial es s) (hsize : es.count .begin < 2 ^ 64) :
    s.transactionsStarted.toNat = es.count .begin ∧
    s.transactionsCommitted.toNat = s.ended .committed ∧
    s.commitFailures.toNat = s.ended .failed ∧
    s.transactionsRolledBack.toNat = s.ended .rolledBack ∧
    s.transactionsStarted.toNat = s.transactionsCommitted.toNat + s.commitFailures.toNat +
      s.transactionsRolledBack.toNat + s.open ∧
    (es.filterMap Event.commitDuration).length = s.transactions.countP Phase.tried ∧
    (es.filterMap Event.transactionDuration).length = s.transactions.countP Phase.timed ∧
    s.commitDuration.total.toNat =
      ((es.filterMap Event.commitDuration).map UInt64.toNat).sum % 2 ^ 64 ∧
    s.transactionDuration.total.toNat =
      ((es.filterMap Event.transactionDuration).map UInt64.toNat).sum % 2 ^ 64 ∧
    ((∀ p ∈ s.transactions, p.commitLoop = none) →
      IsGreatest {d | d = 0 ∨ d ∈ es.filterMap Event.commitDuration} s.commitDuration.max.value) ∧
    ((∀ p ∈ s.transactions, p.timeLoop = none) →
      IsGreatest {d | d = 0 ∨ d ∈ es.filterMap Event.transactionDuration}
        s.transactionDuration.max.value) := by
  have htallied := tallied_of_run h
  have htimed := timed_of_run h
  rw [← htallied.begun] at hsize
  have hread : ∀ {c : UInt64} {n : ℕ}, c = UInt64.ofNat n → n ≤ s.transactions.length →
      c.toNat = n := by
    rintro c n rfl hn
    exact UInt64.toNat_ofNat_of_lt (Nat.lt_of_le_of_lt hn hsize)
  have hstarted := hread htallied.started (Nat.le_refl _)
  have hcommitted := hread htallied.committed (ended_le s _)
  have hfailed := hread htallied.failed (ended_le s _)
  have hrolledBack := hread htallied.rolledBack (ended_le s _)
  refine ⟨hstarted.trans htallied.begun, hcommitted, hfailed, hrolledBack, ?_, ?_, ?_, ?_, ?_,
    ?_, ?_⟩
  · rw [hstarted, hcommitted, hfailed, hrolledBack]
    exact ended_add_open s
  · rw [← htimed.commits]
    exact htallied.tried
  · rw [← htimed.transactions]
    exact htallied.timed
  · rw [← htimed.commits]
    exact htimed.commitDuration.toNat_total
  · rw [← htimed.transactions]
    exact htimed.transactionDuration.toNat_total
  · intro hfree
    rw [← htimed.commits]
    exact htimed.commitDuration.greatest (htimed.committing.ended hfree)
  · intro hfree
    rw [← htimed.transactions]
    exact htimed.transactionDuration.greatest (htimed.timing.ended hfree)

/-- A commit that fails and a rollback, each with the deferred `Rollback`, the loops interleaved. -/
def interleaved : List Event :=
  [.begin, .begin, .commit 0 false 7, .rollback 1, .raiseCommit 0, .observe 1 9, .raise 1,
    .raiseCommit 0, .count 0, .observe 0 5, .raise 0, .raise 1, .raise 0, .raise 0, .raise 0,
    .finish 1, .finish 0, .rollback 0, .rollback 1]

theorem transactions_tallied_interleaved : ∃ s, Execution next initial interleaved s ∧
    s.transactionsStarted.toNat = 2 ∧ s.transactionsCommitted.toNat = 0 ∧
    s.commitFailures.toNat = 1 ∧ s.transactionsRolledBack.toNat = 1 ∧
    s.transactionDuration.total.toNat = 14 ∧ (9 : UInt64) ≤ s.transactionDuration.max.value := by
  have hreplay : (replay next initial interleaved).map DatabaseMetrics.transactions =
      some [.finished .failed, .finished .rolledBack] := by decide
  obtain ⟨s, hs, htransactions⟩ := Option.map_eq_some_iff.mp hreplay
  have hrun := execution_of_replay hs
  obtain ⟨hstarted, hcommitted, hfailed, hrolledBack, -, -, -, -, htotal, -, hmax⟩ :=
    transactions_tallied hrun (by decide)
  rw [DatabaseMetrics.ended, htransactions] at hcommitted hfailed hrolledBack
  rw [htransactions] at hmax
  exact ⟨s, hrun, hstarted, hcommitted, hfailed, hrolledBack, htotal,
    (hmax (by decide)).2 (Or.inr (by decide))⟩

end TransactionMetrics
