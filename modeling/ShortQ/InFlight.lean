import Mathlib.Algebra.Ring.Nat
import ShortQ.CasMaximum

/-! # Requests in flight

`RequestMetrics.Wrap` under any number of concurrent requests: two counters, and the largest
number of requests that were in flight at one time. -/
namespace InFlight

open CasMaximum (Cell Loop)
open LabelledRuns

instance linearOrderUInt64 : LinearOrder UInt64 where
  le_refl := UInt64.le_refl
  le_trans _ _ _ := UInt64.le_trans
  le_antisymm _ _ := UInt64.le_antisymm
  le_total := UInt64.le_total
  lt_iff_le_not_ge a b := by
    rw [UInt64.lt_iff_toNat_lt, UInt64.le_iff_toNat_le, UInt64.le_iff_toNat_le]
    omega
  toDecidableLE := inferInstance
  toDecidableEq := inferInstance

/-- How far a request has come: behind the first addition, behind the second, and behind the
deferred one. -/
inductive Phase where
  | arrived
  | counted
  | left
  deriving DecidableEq, Repr

/-- The loop of each request on `maxInFlight` stands at the place of the request. -/
structure RequestMetrics where
  inFlight : UInt64
  maxInFlight : Cell UInt64
  total : UInt64
  phases : List Phase

inductive Event where
  | arrive
  | count (i : ℕ)
  | raise (i : ℕ)
  | leave (i : ℕ)
  deriving DecidableEq, Repr

def ended (s : RequestMetrics) (i : ℕ) : Bool := s.maxInFlight.loops[i]?.any Loop.isDone

/-- `Wrap`, one atomic operation at a time. The handler runs before the request leaves. -/
def next (s : RequestMetrics) : Event → Option RequestMetrics
  | .arrive =>
    let current := s.inFlight + 1
    (CasMaximum.next s.maxInFlight (.enter current)).map fun cell =>
      { s with inFlight := current, maxInFlight := cell, phases := s.phases ++ [.arrived] }
  | .count i =>
    if s.phases[i]? = some .arrived then
      some { s with total := s.total + 1, phases := s.phases.set i .counted }
    else none
  | .raise i =>
    if s.phases[i]? = some .counted then
      (CasMaximum.next s.maxInFlight (.step i)).map fun cell => { s with maxInFlight := cell }
    else none
  | .leave i =>
    if s.phases[i]? = some .counted && ended s i then
      some { s with inFlight := s.inFlight + 0xFFFFFFFFFFFFFFFF, phases := s.phases.set i .left }
    else none

def initial : RequestMetrics := ⟨0, .initial 0, 0, []⟩

structure RequestMetricsSnapshot where
  inFlight : UInt64
  maxInFlight : UInt64
  total : UInt64
  deriving DecidableEq, Repr

/-- The three loads of `Snapshot`, each with the state it meets. -/
def Snapshot (a b c : RequestMetrics) : RequestMetricsSnapshot :=
  ⟨a.inFlight, b.maxInFlight.value, c.total⟩

/-! ## The counters -/

/-- The requests between their first and their last addition. -/
def RequestMetrics.open (s : RequestMetrics) : ℕ := s.phases.countP (· ≠ .left)

def RequestMetrics.counted (s : RequestMetrics) : ℕ := s.phases.countP (· ≠ .arrived)

structure Tallied (s : RequestMetrics) : Prop where
  places : s.phases.length = s.maxInFlight.loops.length
  inFlight : s.inFlight = UInt64.ofNat s.open
  total : s.total = UInt64.ofNat s.counted

theorem ofNat_sub_one (n : ℕ) :
    UInt64.ofNat (n + 1) + 0xFFFFFFFFFFFFFFFF = UInt64.ofNat n := by
  rw [UInt64.ofNat_add, UInt64.add_assoc]
  exact UInt64.add_zero _

/-- What one operation does, and to which request. -/
theorem next_cases {s t : RequestMetrics} {e : Event} (h : next s e = some t) :
    (e = .arrive ∧ t = { s with
      inFlight := s.inFlight + 1
      maxInFlight :=
        { s.maxInFlight with loops := s.maxInFlight.loops ++ [.load (s.inFlight + 1)] }
      phases := s.phases ++ [.arrived] }) ∨
    (∃ i, e = .count i ∧ s.phases[i]? = some .arrived ∧
      t = { s with total := s.total + 1, phases := s.phases.set i .counted }) ∨
    (∃ i cell, e = .raise i ∧ s.phases[i]? = some .counted ∧
      CasMaximum.next s.maxInFlight (.step i) = some cell ∧ t = { s with maxInFlight := cell }) ∨
    ∃ i, e = .leave i ∧ s.phases[i]? = some .counted ∧ ended s i = true ∧
      t = { s with
        inFlight := s.inFlight + 0xFFFFFFFFFFFFFFFF
        phases := s.phases.set i .left } := by
  cases e with
  | arrive => exact Or.inl ⟨rfl, (Option.some.inj h).symm⟩
  | count i =>
    rw [next] at h
    obtain ⟨hphase, heq⟩ := Option.ite_none_right_eq_some.mp h
    exact Or.inr (Or.inl ⟨i, rfl, hphase, (Option.some.inj heq).symm⟩)
  | raise i =>
    rw [next] at h
    obtain ⟨hphase, h⟩ := Option.ite_none_right_eq_some.mp h
    obtain ⟨cell, hcell, rfl⟩ := Option.map_eq_some_iff.mp h
    exact Or.inr (Or.inr (Or.inl ⟨i, cell, rfl, hphase, hcell, rfl⟩))
  | leave i =>
    rw [next] at h
    obtain ⟨hphase, heq⟩ := Option.ite_none_right_eq_some.mp h
    rw [Bool.and_eq_true, decide_eq_true_eq] at hphase
    exact Or.inr (Or.inr (Or.inr ⟨i, rfl, hphase.1, hphase.2, (Option.some.inj heq).symm⟩))

theorem Tallied.next {s t : RequestMetrics} {e : Event} (hs : Tallied s)
    (h : InFlight.next s e = some t) : Tallied t := by
  rcases next_cases h with ⟨-, rfl⟩ | ⟨i, -, hphase, rfl⟩ | ⟨i, cell, -, -, hcell, rfl⟩ |
    ⟨i, -, hphase, -, rfl⟩
  · constructor
    · simp [hs.places]
    · rw [RequestMetrics.open, List.countP_append, hs.inFlight]
      exact (UInt64.ofNat_add _ 1).symm
    · rw [RequestMetrics.counted, List.countP_append, hs.total]
      rfl
  · have hopen := CasMaximum.countP_set_add hphase .counted (· ≠ .left)
    have hcounted := CasMaximum.countP_set_add hphase .counted (· ≠ .arrived)
    constructor
    · rw [List.length_set]
      exact hs.places
    · rw [hs.inFlight]
      exact congrArg _ (Nat.add_right_cancel hopen).symm
    · rw [hs.total]
      exact (UInt64.ofNat_add _ 1).symm.trans (congrArg _ hcounted.symm)
  · obtain ⟨l, l', -, -, hloops⟩ := CasMaximum.next_step hcell
    refine ⟨?_, hs.inFlight, hs.total⟩
    rw [hloops, List.length_set]
    exact hs.places
  · have hopen := CasMaximum.countP_set_add hphase .left (· ≠ .left)
    have hcounted := CasMaximum.countP_set_add hphase .left (· ≠ .arrived)
    constructor
    · rw [List.length_set]
      exact hs.places
    · rw [hs.inFlight]
      exact (congrArg (fun n => UInt64.ofNat n + 0xFFFFFFFFFFFFFFFF) hopen).symm.trans
        (ofNat_sub_one _)
    · rw [hs.total]
      exact congrArg _ (Nat.add_right_cancel hcounted).symm

/-! ## The peak -/

/-- The loops run on the cell on their own, one step for each raise. -/
theorem cell_run {s : RequestMetrics} {es : List Event} (h : Execution next initial es s) :
    ∃ fs, Execution CasMaximum.next (.initial 0) fs s.maxInFlight ∧
      ∀ i, fs.count (.step i) = es.count (.raise i) := by
  induction h with
  | refl => exact ⟨[], .refl _, fun _ => rfl⟩
  | @tail es u e v _ hstep ih =>
    obtain ⟨fs, hrun, hcount⟩ := ih
    have hsame : ∀ f, (∀ i, f ≠ Event.raise i) → ∀ i,
        fs.count (.step i) = (es ++ [f]).count (.raise i) := by
      intro f hf i
      rw [hcount, List.count_append, List.count_singleton]
      simp [hf i]
    rcases next_cases hstep with ⟨rfl, rfl⟩ | ⟨i, rfl, -, rfl⟩ | ⟨i, cell, rfl, -, hcell, rfl⟩ |
      ⟨i, rfl, -, -, rfl⟩
    · refine ⟨fs ++ [.enter (u.inFlight + 1)], .tail hrun rfl, fun i => ?_⟩
      rw [← hsame .arrive (by simp), List.count_append, List.count_singleton]
      simp
    · exact ⟨fs, hrun, hsame _ (by simp)⟩
    · refine ⟨fs ++ [.step i], .tail hrun hcell, fun j => ?_⟩
      rw [List.count_append, List.count_append, hcount, List.count_singleton,
        List.count_singleton]
      simp
    · exact ⟨fs, hrun, hsame _ (by simp)⟩

def candidates (s : RequestMetrics) : List UInt64 := s.maxInFlight.candidates

/-- What was in flight at every moment so far is within the candidates, and each candidate was in
flight at some moment. -/
structure Witnessed (es : List Event) (s : RequestMetrics) : Prop where
  bounded : ∀ xs ys u, es = xs ++ ys → Execution next initial xs u →
    u.open = 0 ∨ ∃ c ∈ candidates s, u.open ≤ c.toNat
  attained : ∀ c ∈ candidates s, ∃ xs ys u, es = xs ++ ys ∧
    Execution next initial xs u ∧ u.open = c.toNat

theorem tallied_of_run {s : RequestMetrics} {es : List Event}
    (h : Execution next initial es s) : Tallied s :=
  h.invariant ⟨rfl, rfl, rfl⟩ fun _ _ _ hu hnext => hu.next hnext

theorem open_le (s : RequestMetrics) : s.open ≤ s.phases.length := List.countP_le_length

theorem counted_le (s : RequestMetrics) : s.counted ≤ s.phases.length := List.countP_le_length

theorem length_mono {s t : RequestMetrics} {e : Event} (h : next s e = some t) :
    s.phases.length ≤ t.phases.length := by
  rcases next_cases h with ⟨-, rfl⟩ | ⟨i, -, -, rfl⟩ | ⟨i, cell, -, -, -, rfl⟩ |
    ⟨i, -, -, -, rfl⟩
  all_goals simp

theorem length_mono_run {s t : RequestMetrics} {es : List Event} (h : Execution next s es t) :
    s.phases.length ≤ t.phases.length :=
  h.invariant (I := fun u => s.phases.length ≤ u.phases.length) (Nat.le_refl _)
    fun _ _ _ hu hnext => Nat.le_trans hu (length_mono hnext)

/-- A request that arrives brings its candidate, and nothing else changes the candidates. -/
theorem candidates_step {s t : RequestMetrics} {e : Event} (h : next s e = some t) :
    (candidates t = candidates s ++ [s.inFlight + 1] ∧ t.open = s.open + 1) ∨
      (candidates t = candidates s ∧ t.open ≤ s.open) := by
  rcases next_cases h with ⟨-, rfl⟩ | ⟨i, -, hphase, rfl⟩ | ⟨i, cell, -, -, hcell, rfl⟩ |
    ⟨i, -, hphase, -, rfl⟩
  · left
    constructor
    · exact List.map_append
    · exact List.countP_append
  · right
    have hopen := CasMaximum.countP_set_add hphase .counted (· ≠ .left)
    exact ⟨rfl, Nat.le_of_eq (Nat.add_right_cancel hopen)⟩
  · right
    exact ⟨CasMaximum.candidates_step hcell, Nat.le_refl _⟩
  · right
    have hopen : (s.phases.set i .left).countP (· ≠ .left) + 1 = s.phases.countP (· ≠ .left) :=
      CasMaximum.countP_set_add hphase _ _
    constructor
    · dsimp only [candidates]
    · exact Nat.le_of_succ_le (Nat.le_of_eq hopen)

theorem prefix_cases {es xs ys : List Event} {e : Event} (h : es ++ [e] = xs ++ ys) :
    xs = es ++ [e] ∨ ∃ zs, es = xs ++ zs := by
  rcases List.eq_nil_or_concat ys with rfl | ⟨zs, f, rfl⟩
  · left
    rw [h, List.append_nil]
  · right
    rw [List.concat_eq_append, ← List.append_assoc] at h
    exact ⟨zs, (List.append_inj' h rfl).1⟩

theorem witnessed_of_run {s : RequestMetrics} {es : List Event}
    (h : Execution next initial es s) (hsize : s.phases.length < 2 ^ 64) : Witnessed es s := by
  induction h with
  | refl =>
    constructor
    · intro xs ys u heq hu
      obtain rfl := (List.append_eq_nil_iff.mp heq.symm).1
      obtain rfl := hu.of_nil
      exact Or.inl rfl
    · simp [candidates, Cell.candidates, initial, Cell.initial]
  | @tail es u e v hrun hstep ih =>
    have hbefore := ih (Nat.lt_of_le_of_lt (length_mono hstep) hsize)
    have hrun' := Execution.tail hrun hstep
    have hextend : ∀ c ∈ candidates u, ∃ xs ys w, es ++ [e] = xs ++ ys ∧
        Execution next initial xs w ∧ w.open = c.toNat := by
      intro c hc
      obtain ⟨xs, ys, w, rfl, hw, hopen⟩ := hbefore.attained c hc
      exact ⟨xs, ys ++ [e], w, List.append_assoc _ _ _, hw, hopen⟩
    have hunique : ∀ w, Execution next initial (es ++ [e]) w → w = v := fun w hw =>
      Option.some.inj (hw.replay_eq.symm.trans hrun'.replay_eq)
    rcases candidates_step hstep with ⟨hcandidates, hopen⟩ | ⟨hcandidates, hopen⟩
    · have hnew : (u.inFlight + 1).toNat = v.open := by
        have hlt : u.open + 1 < 2 ^ 64 := by
          rw [← hopen]
          exact Nat.lt_of_le_of_lt (open_le v) hsize
        rw [(tallied_of_run hrun).inFlight, hopen]
        exact (congrArg _ (UInt64.ofNat_add u.open 1).symm).trans (UInt64.toNat_ofNat_of_lt hlt)
      constructor
      · intro xs ys w heq hw
        rcases prefix_cases heq with rfl | ⟨zs, hzs⟩
        · obtain rfl := hunique w hw
          refine Or.inr ⟨u.inFlight + 1, ?_, Nat.le_of_eq hnew.symm⟩
          simp [hcandidates]
        · refine (hbefore.bounded xs zs w hzs hw).imp id ?_
          rintro ⟨c, hc, hle⟩
          exact ⟨c, hcandidates ▸ List.mem_append_left _ hc, hle⟩
      · intro c hc
        rw [hcandidates] at hc
        rcases List.mem_append.mp hc with hc | hc
        · exact hextend c hc
        · rw [List.mem_singleton.mp hc]
          exact ⟨es ++ [e], [], v, (List.append_nil _).symm, hrun', hnew.symm⟩
    · constructor
      · intro xs ys w heq hw
        rw [hcandidates]
        rcases prefix_cases heq with rfl | ⟨zs, hzs⟩
        · obtain rfl := hunique w hw
          refine (hbefore.bounded es [] u (List.append_nil _).symm hrun).imp ?_ ?_
          · intro hzero
            omega
          · rintro ⟨c, hc, hle⟩
            exact ⟨c, hc, Nat.le_trans hopen hle⟩
        · exact hbefore.bounded xs zs w hzs hw
      · rw [hcandidates]
        exact hextend

/-- Whatever the interleaving, the two counters are exact, `max_in_flight` was in flight at some
moment, no request tries more than twice for each request to raise it, and once the loops have
ended it is the most that was ever in flight. -/
theorem max_in_flight_is_peak {a b c : RequestMetrics} {xs ys zs : List Event}
    (ha : Execution next initial xs a) (hb : Execution next a ys b) (hc : Execution next b zs c)
    (hsize : c.phases.length < 2 ^ 64) :
    (Snapshot a b c).inFlight.toNat = a.open ∧ (Snapshot a b c).total.toNat = c.counted ∧
    (∃ before after u, xs ++ ys = before ++ after ∧ Execution next initial before u ∧
      u.open = (Snapshot a b c).maxInFlight.toNat) ∧
    (∀ i, (xs ++ ys ++ zs).count (.raise i) ≤ 2 * c.phases.length + 1) ∧
    ((∀ l ∈ b.maxInFlight.loops, l.isDone = true) →
      ∀ before after u, xs ++ ys = before ++ after → Execution next initial before u →
        u.open ≤ (Snapshot a b c).maxInFlight.toNat) := by
  have hab := ha.append hb
  have habc := hab.append hc
  have hbound : b.phases.length ≤ c.phases.length := length_mono_run hc
  have hbsize := Nat.lt_of_le_of_lt hbound hsize
  have hasize := Nat.lt_of_le_of_lt (length_mono_run hb) hbsize
  obtain ⟨fs, hcell, -⟩ := cell_run hab
  have hkept := CasMaximum.kept_of_run hcell
  have hwitnessed := witnessed_of_run hab hbsize
  refine ⟨?_, ?_, ?_, ?_, ?_⟩
  · change a.inFlight.toNat = a.open
    rw [(tallied_of_run ha).inFlight]
    exact UInt64.toNat_ofNat_of_lt (Nat.lt_of_le_of_lt (open_le a) hasize)
  · change c.total.toNat = c.counted
    rw [(tallied_of_run habc).total]
    exact UInt64.toNat_ofNat_of_lt (Nat.lt_of_le_of_lt (counted_le c) hsize)
  · rcases hkept.value with heq | ⟨l, hl, heq⟩
    · refine ⟨[], _, initial, rfl, .refl _, ?_⟩
      rw [Snapshot, heq]
      rfl
    · obtain ⟨before, after, u, hsplit, hu, hopen⟩ :=
        hwitnessed.attained l.candidate (List.mem_map_of_mem hl)
      refine ⟨before, after, u, hsplit, hu, ?_⟩
      rw [Snapshot, heq]
      exact hopen
  · intro i
    obtain ⟨gs, hgs, hcount⟩ := cell_run habc
    have hsteps : gs.count (.step i) ≤ 2 * c.maxInFlight.finished + 1 :=
      CasMaximum.steps_le hgs i
    have hfinished : c.maxInFlight.finished ≤ c.phases.length := by
      rw [(tallied_of_run habc).places]
      exact List.countP_le_length
    rw [← hcount]
    omega
  · intro hdone before after u hsplit hu
    have hgreatest := (hkept.greatest hdone).2
    rcases hwitnessed.bounded before after u hsplit hu with hzero | ⟨candidate, hmem, hle⟩
    · rw [hzero]
      exact Nat.zero_le _
    · obtain ⟨l, hl, rfl⟩ := List.mem_map.mp hmem
      have hraised := hgreatest (Or.inr ⟨l, hl, rfl⟩)
      exact Nat.le_trans hle (UInt64.le_iff_toNat_le.mp hraised)

/-- Two requests of which the second overtakes the first between its load and its swap. -/
def overtaken : List Event :=
  [.arrive, .count 0, .raise 0, .arrive, .count 1, .raise 1, .raise 1, .raise 0, .raise 0,
    .raise 0, .leave 1]

theorem max_in_flight_is_peak_overtaken : ∃ s, Execution next initial overtaken s ∧
    s.open = 1 ∧ (Snapshot s s s).maxInFlight.toNat = 2 ∧
    ∀ before after u, overtaken = before ++ after → Execution next initial before u →
      u.open ≤ 2 := by
  have hreplay : (replay next initial overtaken).map (fun s => (s.open,
      s.maxInFlight.value.toNat, s.maxInFlight.loops.all Loop.isDone, s.phases.length)) =
      some (1, 2, true, 2) := by decide
  obtain ⟨s, hs, heq⟩ := Option.map_eq_some_iff.mp hreplay
  obtain ⟨hopen, hmax, hdone, hlength⟩ : s.open = 1 ∧ s.maxInFlight.value.toNat = 2 ∧
      s.maxInFlight.loops.all Loop.isDone = true ∧ s.phases.length = 2 := by
    simpa only [Prod.mk.injEq] using heq
  have hrun := execution_of_replay hs
  obtain ⟨-, -, -, -, hpeak⟩ := max_in_flight_is_peak hrun (.refl s) (.refl s)
    (by rw [hlength]; decide)
  refine ⟨s, hrun, hopen, hmax, fun before after u hsplit hu => ?_⟩
  have hle := hpeak (List.all_eq_true.mp hdone) before after u
    (hsplit ▸ List.append_nil overtaken) hu
  rwa [Snapshot, hmax] at hle

end InFlight
