import ShortQ.ClickBatch
import ShortQ.WorkerFlush
import Mathlib.Data.List.Nodup

/-! # Rounds of flushes

The queues, the database and the dead-letter queue around a worker whose broker and database
are available. Other clients may change the database between two flushes. -/
namespace FlushRounds

open GoTime (Time)
open Models
open Schema
open ClickWire
open ClickStore
open ClickBatch
open LabelledRuns
open AnalyticsWorker (Worker Pending)
open WorkerFlush

/-- `queue` holds what the main and the retry queue hold; `index` names a delivery through all
its copies. -/
structure System where
  db : Database
  arrived : ℕ
  queue : List Pending
  committed : List ℕ
  rejected : List ℕ

def start (db : Database) : System := ⟨db, 0, [], [], []⟩

inductive Event where
  /-- A decodable delivery with a retry count the publishers can have written. -/
  | deliver (delivery : Delivery)
  /-- Other clients use the database. -/
  | write (db : Database)
  | flush (chosen : List ℕ) (now : ℕ → Time)

def pick (queue : List Pending) : List ℕ → Option (List Pending)
  | [] => some []
  | i :: chosen =>
    match queue.find? (·.index = i) with
    | none => none
    | some p => (pick queue chosen).map (p :: ·)

/-- The copy that `Retry` publishes, as it comes back from the retry queue. -/
def copy (p : Pending) : Option Pending :=
  (retryPublishing p.delivery p.attempt).map fun m => { p with delivery := wrap m }

def settleOne (w : Worker) (committed : Bool) (s : System) (p : Pending) : Option System :=
  match fate w committed p with
  | .committed => some { s with committed := p.index :: s.committed }
  | .rejected => some { s with rejected := p.index :: s.rejected }
  | .requeued => some { s with queue := s.queue ++ [p] }
  | .retried => (copy p).map fun q => { s with queue := s.queue ++ [q] }

def next (w : Worker) (s : System) : Event → Option System
  | .deliver d =>
    match decodeEvent d.body with
    | none => none
    | some event =>
      if 0 ≤ retryCount d.headers ∧ retryCount d.headers < 2147483648 then
        some { s with arrived := s.arrived + 1, queue := s.queue ++ [⟨s.arrived, d, event⟩] }
      else none
  | .write db => some { s with db := db }
  | .flush chosen now =>
    if chosen ≠ [] ∧ chosen.length ≤ w.batchSize ∧ chosen.Nodup then
      match pick s.queue chosen with
      | none => none
      | some batch =>
        let result := recordClicks { now := now } s.db (batch.map Pending.event)
        batch.foldlM (settleOne w result.1.2.isNone)
          { s with db := result.2, queue := s.queue.filter fun p => !chosen.contains p.index }
    else none

/-- `RecordClicks` accepts the event as a batch of its own. -/
def alone (db : Database) (event : ClickEvent) : Bool := (recordClicks {} db [event]).1.2.isNone

/-- The step flushes the delivery. -/
def attempts (i : ℕ) : Event → Bool
  | .flush chosen _ => chosen.contains i
  | _ => false

/-- The step flushes the delivery in one batch with another event that cannot be stored. -/
def shares (s : System) (i : ℕ) : Event → Bool
  | .flush chosen _ =>
    chosen.contains i &&
      s.queue.any fun p => p.index ≠ i && chosen.contains p.index && !alone s.db p.event
  | _ => false

def ids (s : System) : List ℕ := s.queue.map Pending.index ++ (s.committed ++ s.rejected)

/-- Each delivery is queued, committed or rejected, once. -/
structure Invariant (s : System) : Prop where
  placed : (ids s).Perm (List.range s.arrived)
  decoded : ∀ p ∈ s.queue, decodeEvent p.delivery.body = some p.event

def Waiting (s : System) (i : ℕ) (event : ClickEvent) (count : ℤ) : Prop :=
  ∃ p ∈ s.queue, p.index = i ∧ p.event = event ∧ retryCount p.delivery.headers ≤ count

structure Grows (s t : System) : Prop where
  queue : s.queue ⊆ t.queue
  committed : s.committed ⊆ t.committed
  rejected : s.rejected ⊆ t.rejected

theorem alone_iff {db : Database} {event : ClickEvent} (ht : event.occurredAt.isZero = false) :
    alone db event = true ↔ Accepted db [event] := by
  have hrefines := recordClicks_refines_recordClick db [event] (by simpa using ht)
  rw [alone, Option.isNone_iff_eq_none]
  exact hrefines.2.1 {} healthy_default

/-- An event that is accepted by itself does not become unacceptable behind others. -/
theorem accepted_of_each {db : Database} {events : List ClickEvent}
    (h : ∀ e ∈ events, Accepted db [e]) : Accepted db events := by
  intro earlier event later heq
  obtain ⟨hstorable, hnew⟩ := h event (by simp [heq]) [] event [] rfl
  refine ⟨hstorable, fun hn => hnew ?_⟩
  intro id hid
  exact ⟨(hn id hid).1, by simp⟩

/-- A batch that fails holds an event that fails by itself. -/
theorem exists_not_alone {db : Database} {batch : List Pending} {now : ℕ → Time}
    (ht : ∀ p ∈ batch, p.event.occurredAt.isZero = false)
    (h : (recordClicks { now := now } db (batch.map Pending.event)).1.2 ≠ none) :
    ∃ p ∈ batch, alone db p.event = false := by
  by_contra hnone
  apply h
  have htimes : ∀ e ∈ batch.map Pending.event, e.occurredAt.isZero = false := by
    intro e he
    obtain ⟨p, hp, rfl⟩ := List.mem_map.mp he
    exact ht p hp
  rw [(recordClicks_refines_recordClick db _ htimes).2.1 _ ⟨rfl, fun _ => rfl, rfl, rfl⟩]
  apply accepted_of_each
  intro e he
  obtain ⟨p, hp, rfl⟩ := List.mem_map.mp he
  apply (alone_iff (ht p hp)).mp
  by_contra hfails
  exact hnone ⟨p, hp, by simpa using hfails⟩

theorem pick_eq_some {queue : List Pending} {chosen : List ℕ} {batch : List Pending}
    (h : pick queue chosen = some batch) :
    batch.map Pending.index = chosen ∧ batch ⊆ queue := by
  induction chosen generalizing batch with
  | nil =>
    cases h
    exact ⟨rfl, List.nil_subset _⟩
  | cons i chosen ih =>
    simp only [pick] at h
    split at h
    · cases h
    · next p hp =>
      obtain ⟨rest, hrest, rfl⟩ := Option.map_eq_some_iff.mp h
      obtain ⟨hindex, hsub⟩ := ih hrest
      have hi : p.index = i := by simpa using List.find?_some hp
      refine ⟨by simp [hi, hindex], ?_⟩
      exact List.cons_subset.mpr ⟨List.mem_of_find?_eq_some hp, hsub⟩

theorem copy_eq_some {p q : Pending} (h : copy p = some q) :
    q.index = p.index ∧ q.event = p.event ∧ q.delivery.body = p.delivery.body ∧
      retryCount q.delivery.headers ≤ retryCount p.delivery.headers + 1 := by
  obtain ⟨m, hm, rfl⟩ := Option.map_eq_some_iff.mp h
  exact ⟨rfl, rfl, (wrap_retryPublishing hm).2.1, retryCount_copy_le hm⟩

theorem attempt_le (p : Pending) : p.attempt ≤ retryCount p.delivery.headers + 1 := by
  have hcount := le_retryCount p.delivery.headers
  exact wrap64_le (by omega)

/-- What settling one delivery can do. -/
theorem settleOne_cases {w : Worker} {committed : Bool} {s t : System} {p : Pending}
    (h : settleOne w committed s p = some t) :
    (committed = true ∧ t = { s with committed := p.index :: s.committed }) ∨
    (committed = false ∧ w.maxRetries ≤ p.attempt ∧
      t = { s with rejected := p.index :: s.rejected }) ∨
    (committed = false ∧ ∃ q, t = { s with queue := s.queue ++ [q] } ∧ q.index = p.index ∧
      q.event = p.event ∧ q.delivery.body = p.delivery.body ∧
      retryCount q.delivery.headers ≤ retryCount p.delivery.headers + 1) := by
  cases committed with
  | true =>
    cases h
    exact .inl ⟨rfl, rfl⟩
  | false =>
    right
    simp only [settleOne, fate, Bool.false_eq_true, if_false] at h
    by_cases hmax : w.maxRetries ≤ p.attempt
    · rw [if_pos hmax] at h
      cases h
      exact .inl ⟨rfl, hmax, rfl⟩
    · rw [if_neg hmax] at h
      right
      refine ⟨rfl, ?_⟩
      cases hretryer : w.hasRetryer with
      | false =>
        simp only [hretryer, Bool.not_false, if_true] at h
        cases h
        exact ⟨p, rfl, rfl, rfl, rfl, by omega⟩
      | true =>
        simp only [hretryer, Bool.not_true, Bool.false_eq_true, if_false] at h
        obtain ⟨q, hq, rfl⟩ := Option.map_eq_some_iff.mp h
        obtain ⟨hindex, hevent, hbody, hcount⟩ := copy_eq_some hq
        exact ⟨q, rfl, hindex, hevent, hbody, hcount⟩

theorem settleOne_grows {w : Worker} {committed : Bool} {s t : System} {p : Pending}
    (h : settleOne w committed s p = some t) : Grows s t := by
  rcases settleOne_cases h with ⟨-, rfl⟩ | ⟨-, -, rfl⟩ | ⟨-, q, rfl, -⟩
  · exact ⟨List.Subset.refl _, List.subset_cons_self _ _, List.Subset.refl _⟩
  · exact ⟨List.Subset.refl _, List.Subset.refl _, List.subset_cons_self _ _⟩
  · exact ⟨List.subset_append_left _ _, List.Subset.refl _, List.Subset.refl _⟩

theorem settleAll_grows {w : Worker} {committed : Bool} {batch : List Pending} {s t : System}
    (h : batch.foldlM (settleOne w committed) s = some t) : Grows s t := by
  induction batch generalizing s with
  | nil =>
    cases h
    exact ⟨List.Subset.refl _, List.Subset.refl _, List.Subset.refl _⟩
  | cons p batch ih =>
    rw [List.foldlM_cons, Option.bind_eq_bind, Option.bind_eq_some_iff] at h
    obtain ⟨u, hu, hrest⟩ := h
    have hfirst := settleOne_grows hu
    have hlater := ih hrest
    exact ⟨List.Subset.trans hfirst.queue hlater.queue,
      List.Subset.trans hfirst.committed hlater.committed,
      List.Subset.trans hfirst.rejected hlater.rejected⟩

theorem settleAll_perm {w : Worker} {committed : Bool} {batch : List Pending} {s t : System}
    (h : batch.foldlM (settleOne w committed) s = some t) :
    (ids t).Perm (batch.map Pending.index ++ ids s) ∧ t.arrived = s.arrived := by
  induction batch generalizing s with
  | nil =>
    cases h
    exact ⟨List.Perm.refl _, rfl⟩
  | cons p batch ih =>
    rw [List.foldlM_cons, Option.bind_eq_bind, Option.bind_eq_some_iff] at h
    obtain ⟨u, hu, hrest⟩ := h
    obtain ⟨hperm, harrived⟩ := ih hrest
    have hone : (ids u).Perm (p.index :: ids s) ∧ u.arrived = s.arrived := by
      rcases settleOne_cases hu with ⟨-, rfl⟩ | ⟨-, -, rfl⟩ | ⟨-, q, rfl, hq, -⟩
      · exact ⟨List.perm_middle, rfl⟩
      · refine ⟨?_, rfl⟩
        simp only [ids, ← List.append_assoc]
        exact List.perm_middle
      · refine ⟨?_, rfl⟩
        simp only [ids, List.map_append, List.map_cons, List.map_nil, hq, List.append_assoc,
          List.singleton_append]
        exact List.perm_middle
    refine ⟨hperm.trans ?_, harrived.trans hone.2⟩
    exact (hone.1.append_left _).trans List.perm_middle

theorem settleAll_decoded {w : Worker} {committed : Bool} {batch : List Pending} {s t : System}
    (h : batch.foldlM (settleOne w committed) s = some t)
    (hbatch : ∀ p ∈ batch, decodeEvent p.delivery.body = some p.event)
    (hs : ∀ p ∈ s.queue, decodeEvent p.delivery.body = some p.event) :
    ∀ p ∈ t.queue, decodeEvent p.delivery.body = some p.event := by
  induction batch generalizing s with
  | nil =>
    cases h
    exact hs
  | cons p batch ih =>
    rw [List.foldlM_cons, Option.bind_eq_bind, Option.bind_eq_some_iff] at h
    obtain ⟨u, hu, hrest⟩ := h
    apply ih hrest fun q hq => hbatch q (List.mem_cons_of_mem p hq)
    rcases settleOne_cases hu with ⟨-, rfl⟩ | ⟨-, -, rfl⟩ | ⟨-, q, rfl, -, hevent, hbody, -⟩
    · exact hs
    · exact hs
    · intro r hr
      rcases List.mem_append.mp hr with hr | hr
      · exact hs r hr
      · obtain rfl := List.mem_singleton.mp hr
        rw [hevent, hbody]
        exact hbatch p List.mem_cons_self

theorem flush_cases {w : Worker} {s t : System} {chosen : List ℕ} {now : ℕ → Time}
    (h : next w s (.flush chosen now) = some t) :
    chosen.Nodup ∧ ∃ batch, batch.map Pending.index = chosen ∧ batch ⊆ s.queue ∧
      batch.foldlM (settleOne w
          (recordClicks { now := now } s.db (batch.map Pending.event)).1.2.isNone)
        { s with
          db := (recordClicks { now := now } s.db (batch.map Pending.event)).2
          queue := s.queue.filter fun p => !chosen.contains p.index } = some t := by
  simp only [next] at h
  split at h
  · next hchosen =>
    split at h
    · cases h
    · next batch hbatch =>
      obtain ⟨hindex, hsub⟩ := pick_eq_some hbatch
      exact ⟨hchosen.2.2, batch, hindex, hsub, h⟩
  · cases h

/-- Taking the batch out of the queue only moves it to the front. -/
theorem ids_taken {s : System} {chosen : List ℕ} {batch : List Pending} {db : Database}
    (hnodup : (ids s).Nodup) (hchosen : chosen.Nodup)
    (hindex : batch.map Pending.index = chosen) (hsub : batch ⊆ s.queue) :
    (batch.map Pending.index ++ ids { s with
      db := db, queue := s.queue.filter fun p => !chosen.contains p.index }).Perm (ids s) := by
  rw [hindex]
  simp only [ids, ← List.append_assoc]
  apply List.Perm.append_right
  apply List.Perm.append_right
  have hqueue : (s.queue.map Pending.index).Nodup := hnodup.of_append_left
  have hrest : ((s.queue.filter fun p => !chosen.contains p.index).map Pending.index).Nodup :=
    hqueue.sublist (List.filter_sublist.map _)
  have hdisjoint : chosen.Disjoint
      ((s.queue.filter fun p => !chosen.contains p.index).map Pending.index) := by
    intro i hi hmem
    obtain ⟨p, hp, rfl⟩ := List.mem_map.mp hmem
    have hnot := (List.mem_filter.mp hp).2
    simp [hi] at hnot
  rw [List.perm_ext_iff_of_nodup (hchosen.append hrest hdisjoint) hqueue]
  intro i
  rw [List.mem_append]
  constructor
  · rintro (hi | hi)
    · rw [← hindex] at hi
      obtain ⟨p, hp, rfl⟩ := List.mem_map.mp hi
      exact List.mem_map_of_mem (hsub hp)
    · obtain ⟨p, hp, rfl⟩ := List.mem_map.mp hi
      exact List.mem_map_of_mem (List.mem_filter.mp hp).1
  · intro hi
    obtain ⟨p, hp, rfl⟩ := List.mem_map.mp hi
    by_cases hc : p.index ∈ chosen
    · exact .inl hc
    · exact .inr (List.mem_map_of_mem (List.mem_filter.mpr ⟨hp, by simpa using hc⟩))

theorem nodup_of_invariant {s : System} (h : Invariant s) : (ids s).Nodup :=
  h.placed.nodup_iff.mpr List.nodup_range

theorem invariant_start (db : Database) : Invariant (start db) :=
  ⟨List.Perm.refl _, by simp [start]⟩

theorem invariant_next {w : Worker} {s t : System} {e : Event} (h : Invariant s)
    (hstep : next w s e = some t) : Invariant t := by
  cases e with
  | deliver d =>
    simp only [next] at hstep
    split at hstep
    · cases hstep
    · next event hevent =>
      split at hstep
      · cases hstep
        constructor
        · have hgrow := h.placed.append_right [s.arrived]
          rw [← List.range_succ] at hgrow
          refine List.Perm.trans ?_ hgrow
          simp only [ids, List.map_append, List.map_cons, List.map_nil, List.append_assoc]
          rw [← List.append_assoc s.committed]
          exact List.perm_append_comm.append_left _
        · intro p hp
          rcases List.mem_append.mp hp with hp | hp
          · exact h.decoded p hp
          · obtain rfl := List.mem_singleton.mp hp
            exact hevent
      · cases hstep
  | write db =>
    cases hstep
    exact ⟨h.placed, h.decoded⟩
  | flush chosen now =>
    obtain ⟨hchosen, batch, hindex, hsub, hsettle⟩ := flush_cases hstep
    obtain ⟨hperm, harrived⟩ := settleAll_perm hsettle
    constructor
    · rw [harrived]
      exact (hperm.trans (ids_taken (nodup_of_invariant h) hchosen hindex hsub)).trans h.placed
    · apply settleAll_decoded hsettle
      · exact fun p hp => h.decoded p (hsub hp)
      · exact fun p hp => h.decoded p (List.mem_filter.mp hp).1

/-- What is committed or rejected stays so. -/
theorem settled_next {w : Worker} {s t : System} {e : Event} (hstep : next w s e = some t) :
    s.committed ⊆ t.committed ∧ s.rejected ⊆ t.rejected := by
  cases e with
  | deliver d =>
    simp only [next] at hstep
    split at hstep
    · cases hstep
    · split at hstep
      · cases hstep
        exact ⟨List.Subset.refl _, List.Subset.refl _⟩
      · cases hstep
  | write db =>
    cases hstep
    exact ⟨List.Subset.refl _, List.Subset.refl _⟩
  | flush chosen now =>
    obtain ⟨-, batch, -, -, hsettle⟩ := flush_cases hstep
    exact ⟨(settleAll_grows hsettle).committed, (settleAll_grows hsettle).rejected⟩

/-- A queued delivery is known by its index. -/
theorem eq_of_index {s : System} (h : Invariant s) {p q : Pending} (hp : p ∈ s.queue)
    (hq : q ∈ s.queue) (hindex : p.index = q.index) : p = q :=
  List.inj_on_of_nodup_map (nodup_of_invariant h).of_append_left hp hq hindex

theorem settleAll_committed {w : Worker} {batch : List Pending} {s t : System}
    (h : batch.foldlM (settleOne w true) s = some t) {p : Pending} (hp : p ∈ batch) :
    p.index ∈ t.committed := by
  obtain ⟨before, later, rfl⟩ := List.append_of_mem hp
  rw [List.foldlM_append, Option.bind_eq_bind, Option.bind_eq_some_iff] at h
  obtain ⟨u, -, h⟩ := h
  rw [List.foldlM_cons, Option.bind_eq_bind, Option.bind_eq_some_iff] at h
  obtain ⟨v, hv, h⟩ := h
  cases hv
  exact (settleAll_grows h).committed List.mem_cons_self

theorem settleAll_waiting {w : Worker} {batch : List Pending} {s t : System}
    (h : batch.foldlM (settleOne w false) s = some t) {p : Pending} (hp : p ∈ batch)
    (hmax : retryCount p.delivery.headers + 1 < w.maxRetries) :
    Waiting t p.index p.event (retryCount p.delivery.headers + 1) := by
  obtain ⟨before, later, rfl⟩ := List.append_of_mem hp
  rw [List.foldlM_append, Option.bind_eq_bind, Option.bind_eq_some_iff] at h
  obtain ⟨u, -, h⟩ := h
  rw [List.foldlM_cons, Option.bind_eq_bind, Option.bind_eq_some_iff] at h
  obtain ⟨v, hv, h⟩ := h
  have hattempt := attempt_le p
  rcases settleOne_cases hv with ⟨hok, -⟩ | ⟨-, hexhausted, -⟩ |
    ⟨-, q, rfl, hindex, hevent, -, hcount⟩
  · cases hok
  · omega
  · refine ⟨q, (settleAll_grows h).queue ?_, hindex, hevent, hcount⟩
    exact List.mem_append_right _ (List.mem_singleton_self q)

/-- One step of a delivery whose own event can be stored: it is committed, or it waits on, and
a failed attempt had another event beside it that cannot be stored. -/
theorem waiting_next {w : Worker} {s t : System} {e : Event} (hinv : Invariant s) {i : ℕ}
    {event : ClickEvent} {count : ℤ} (h : Waiting s i event count)
    (hstep : next w s e = some t)
    (hgood : attempts i e = true → alone s.db event = true)
    (hroom : count + (if shares s i e then 1 else 0) < w.maxRetries) :
    i ∈ t.committed ∨ (Waiting t i event (count + if shares s i e then 1 else 0) ∧
      (attempts i e = true → shares s i e = true)) := by
  obtain ⟨p, hp, hpi, hpe, hcount⟩ := h
  cases e with
  | deliver d =>
    simp only [next] at hstep
    split at hstep
    · cases hstep
    · split at hstep
      · cases hstep
        refine .inr ⟨⟨p, List.mem_append_left _ hp, hpi, hpe, ?_⟩, by simp [attempts]⟩
        simpa [shares] using hcount
      · cases hstep
  | write db =>
    cases hstep
    refine .inr ⟨⟨p, hp, hpi, hpe, ?_⟩, by simp [attempts]⟩
    simpa [shares] using hcount
  | flush chosen now =>
    obtain ⟨hchosen, batch, hindex, hsub, hsettle⟩ := flush_cases hstep
    by_cases hi : i ∈ chosen
    · have hbatch : p ∈ batch := by
        rw [← hindex] at hi
        obtain ⟨q, hq, hqi⟩ := List.mem_map.mp hi
        obtain rfl := eq_of_index hinv (hsub hq) hp (hqi.trans hpi.symm)
        exact hq
      cases hresult : (recordClicks { now := now } s.db (batch.map Pending.event)).1.2 with
      | none =>
        rw [hresult] at hsettle
        left
        rw [← hpi]
        exact settleAll_committed hsettle hbatch
      | some err =>
        rw [hresult] at hsettle
        obtain ⟨q, hq, hfails⟩ := exists_not_alone
          (fun q hq => occurred_of_decodeEvent (hinv.decoded q (hsub hq)))
          (by rw [hresult]; simp)
        -- The event that fails by itself is another one.
        have hne : q.index ≠ i := by
          intro heq
          obtain rfl := eq_of_index hinv (hsub hq) hp (heq.trans hpi.symm)
          rw [hpe, hgood (by simpa [attempts] using hi)] at hfails
          cases hfails
        have hqi : q.index ∈ chosen := hindex ▸ List.mem_map_of_mem hq
        have hshares : shares s i (.flush chosen now) = true := by
          simp only [shares, Bool.and_eq_true, List.contains_iff_mem, List.any_eq_true]
          exact ⟨hi, q, hsub hq, by simp [hne, hqi, hfails]⟩
        rw [hshares, if_pos rfl] at hroom ⊢
        obtain ⟨r, hr, hri, hre, hrcount⟩ := settleAll_waiting hsettle hbatch (by omega)
        exact .inr ⟨⟨r, hr, hri.trans hpi, hre.trans hpe, by omega⟩, fun _ => rfl⟩
    · right
      have hshares : shares s i (.flush chosen now) = false := by simp [shares, hi]
      refine ⟨⟨p, (settleAll_grows hsettle).queue ?_, hpi, hpe, ?_⟩, by simp [attempts, hi]⟩
      · rw [List.mem_filter, hpi]
        exact ⟨hp, by simpa using hi⟩
      · simpa [hshares] using hcount

/-! ## No step is left out

With a bound on the retries that the int32 of the retry header can count, `Retry` never panics,
so every batch of queued deliveries can be flushed. -/

structure Counted (s : System) : Prop where
  low : ∀ p ∈ s.queue, 0 ≤ retryCount p.delivery.headers
  high : ∀ p ∈ s.queue, retryCount p.delivery.headers < 2147483648

theorem settleOne_counted {w : Worker} (hmax : w.maxRetries ≤ 2147483648) (committed : Bool)
    {s : System} {p : Pending} (hs : Counted s) (hlow : 0 ≤ retryCount p.delivery.headers)
    (hhigh : retryCount p.delivery.headers < 2147483648) :
    ∃ t, settleOne w committed s p = some t ∧ Counted t := by
  have hattempt : p.attempt = retryCount p.delivery.headers + 1 := by
    simp only [Pending.attempt, wrap64]
    omega
  have hadd : ∀ q : Pending, 0 ≤ retryCount q.delivery.headers →
      retryCount q.delivery.headers < 2147483648 →
      Counted { s with queue := s.queue ++ [q] } := by
    intro q hq0 hq1
    constructor
    · intro r hr
      rcases List.mem_append.mp hr with hr | hr
      · exact hs.low r hr
      · rwa [List.mem_singleton.mp hr]
    · intro r hr
      rcases List.mem_append.mp hr with hr | hr
      · exact hs.high r hr
      · rwa [List.mem_singleton.mp hr]
  cases hfate : fate w committed p with
  | committed =>
    exact ⟨{ s with committed := p.index :: s.committed }, by rw [settleOne, hfate], hs.low,
      hs.high⟩
  | rejected =>
    exact ⟨{ s with rejected := p.index :: s.rejected }, by rw [settleOne, hfate], hs.low,
      hs.high⟩
  | requeued => exact ⟨_, by rw [settleOne, hfate], hadd p hlow hhigh⟩
  | retried =>
    have hless : p.attempt < w.maxRetries := by
      by_contra hge
      simp only [fate, if_pos (Int.not_lt.mp hge)] at hfate
      split at hfate <;> cases hfate
    obtain ⟨m, hm⟩ : ∃ m, retryPublishing p.delivery p.attempt = some m := by
      have hshift : ¬ wrap64 (p.attempt - 1) < 0 := by
        unfold wrap64
        omega
      exact ⟨_, if_neg hshift⟩
    obtain ⟨-, -, hcount⟩ := wrap_retryPublishing hm
    rw [Int32.toInt_ofInt_of_le (by omega) (by omega)] at hcount
    refine ⟨{ s with queue := s.queue ++ [{ p with delivery := wrap m }] }, ?_, hadd _ ?_ ?_⟩
    · simp only [settleOne, hfate, copy, hm, Option.map_some]
    · rw [hcount]
      omega
    · rw [hcount]
      omega

theorem settleAll_counted {w : Worker} (hmax : w.maxRetries ≤ 2147483648) (committed : Bool)
    {batch : List Pending} {s : System} (hs : Counted s)
    (hlow : ∀ p ∈ batch, 0 ≤ retryCount p.delivery.headers)
    (hhigh : ∀ p ∈ batch, retryCount p.delivery.headers < 2147483648) :
    ∃ t, batch.foldlM (settleOne w committed) s = some t ∧ Counted t := by
  induction batch generalizing s with
  | nil => exact ⟨s, rfl, hs⟩
  | cons p batch ih =>
    obtain ⟨u, hu, hcounted⟩ := settleOne_counted hmax committed hs
      (hlow p List.mem_cons_self) (hhigh p List.mem_cons_self)
    obtain ⟨t, ht, hend⟩ := ih hcounted (fun q hq => hlow q (List.mem_cons_of_mem p hq))
      fun q hq => hhigh q (List.mem_cons_of_mem p hq)
    exact ⟨t, by rw [List.foldlM_cons, hu]; exact ht, hend⟩

theorem counted_next {w : Worker} (hmax : w.maxRetries ≤ 2147483648) {s t : System} {e : Event}
    (hs : Counted s) (hstep : next w s e = some t) : Counted t := by
  cases e with
  | deliver d =>
    simp only [next] at hstep
    split at hstep
    · cases hstep
    · split at hstep
      · next hcount =>
        cases hstep
        constructor
        · intro r hr
          rcases List.mem_append.mp hr with hr | hr
          · exact hs.low r hr
          · rw [List.mem_singleton.mp hr]
            exact hcount.1
        · intro r hr
          rcases List.mem_append.mp hr with hr | hr
          · exact hs.high r hr
          · rw [List.mem_singleton.mp hr]
            exact hcount.2
      · cases hstep
  | write db =>
    cases hstep
    exact ⟨hs.low, hs.high⟩
  | flush chosen now =>
    obtain ⟨-, batch, -, hsub, hsettle⟩ := flush_cases hstep
    obtain ⟨u, hu, hcounted⟩ := settleAll_counted hmax
      (recordClicks { now := now } s.db (batch.map Pending.event)).1.2.isNone
      (s := { s with
        db := (recordClicks { now := now } s.db (batch.map Pending.event)).2
        queue := s.queue.filter fun p => !chosen.contains p.index })
      ⟨fun p hp => hs.low p (List.mem_filter.mp hp).1,
        fun p hp => hs.high p (List.mem_filter.mp hp).1⟩
      (fun p hp => hs.low p (hsub hp)) fun p hp => hs.high p (hsub hp)
    rw [hu] at hsettle
    cases hsettle
    exact hcounted

theorem pick_of_subset {queue : List Pending} {chosen : List ℕ}
    (h : chosen ⊆ queue.map Pending.index) : ∃ batch, pick queue chosen = some batch := by
  induction chosen with
  | nil => exact ⟨[], rfl⟩
  | cons i chosen ih =>
    obtain ⟨hi, hrest⟩ := List.cons_subset.mp h
    obtain ⟨p, hp, rfl⟩ := List.mem_map.mp hi
    obtain ⟨batch, hbatch⟩ := ih hrest
    cases hfind : queue.find? (·.index = p.index) with
    | none =>
      have hnone := List.find?_eq_none.mp hfind p hp
      simp at hnone
    | some q => exact ⟨q :: batch, by simp [pick, hfind, hbatch]⟩

theorem flush_possible {w : Worker} (hmax : w.maxRetries ≤ 2147483648) {db : Database}
    {s : System} (h : Reachable (next w) (start db) s) {chosen : List ℕ}
    (hsize : chosen ≠ [] ∧ chosen.length ≤ w.batchSize ∧ chosen.Nodup)
    (hqueued : chosen ⊆ s.queue.map Pending.index) (now : ℕ → Time) :
    ∃ t, next w s (.flush chosen now) = some t := by
  obtain ⟨es, hrun⟩ := h
  have hcounted : Counted s := hrun.invariant ⟨by simp [start], by simp [start]⟩
    fun _ _ _ hu => counted_next hmax hu
  obtain ⟨batch, hbatch⟩ := pick_of_subset hqueued
  obtain ⟨-, hsub⟩ := pick_eq_some hbatch
  obtain ⟨t, ht, -⟩ := settleAll_counted hmax
    (recordClicks { now := now } s.db (batch.map Pending.event)).1.2.isNone
    (s := { s with
      db := (recordClicks { now := now } s.db (batch.map Pending.event)).2
      queue := s.queue.filter fun p => !chosen.contains p.index })
    ⟨fun p hp => hcounted.low p (List.mem_filter.mp hp).1,
      fun p hp => hcounted.high p (List.mem_filter.mp hp).1⟩
    (fun p hp => hcounted.low p (hsub hp)) fun p hp => hcounted.high p (hsub hp)
  refine ⟨t, ?_⟩
  simp only [next, if_pos hsize, hbatch]
  exact ht

end FlushRounds
