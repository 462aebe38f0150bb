import ShortQ.ClickPipeline
import ShortQ.WorkerRuns

/-! # No click is lost or counted twice

Every copy of a recorded event is followed through the broker and the workers. A delivery is
spent once its event was committed or its retry copy accepted: only then may it be acked. -/
namespace ClickCustody

open Models
open Transaction
open Schema
open ClickStore
open ClickLedger
open ClickRows
open ClickWire
open MessageBroker
open LabelledRuns
open AnalyticsWorker (Worker Covered Arrived Pending)
open ClickPipeline

def Carries (event : ClickEvent) (m : Publishing) : Prop := marshalEvent event = some m.body

def Persisted (db : Database) (event : ClickEvent) : Prop :=
  ∃ u, eventUuid event = some u ∧ Stored db u

/-- The copy that the `Retry` call at hand sent has arrived. -/
def Resent (b : Broker Queue Publishing) (c : Session) (i : ℕ) : Prop :=
  ∃ n p rest after, c.flight = some n ∧ b.accepted n = true ∧
    c.worker.control = .retrying p rest after ∧ p.index = i

def Spends (b : Broker Queue Publishing) (c : Session) (tag : ℕ) : Prop :=
  ∃ i, c.tags[i]? = some tag ∧ (Covered c.worker.history i ∨ Resent b c i)

def Spent (s : System) (tag : ℕ) : Prop := ∃ k, Spends s.broker (s.sessions k) tag

/-- The event is stored, or a copy of it is with the broker that no worker may ack yet. -/
def Kept (s : System) (event : ClickEvent) : Prop :=
  Persisted s.ledger.db event ∨ s.broker.Holds (Carries event) (Spent s)

/-! ## Worker processes -/

/-- What a worker process knows of the broker is right. -/
structure SessionSound (w : Worker) (b : Broker Queue Publishing) (c : Session) : Prop where
  worker : WorkerRuns.Invariant w c.worker
  length : c.tags.length = c.worker.received.length
  covered : ∀ i, Covered c.worker.history i → i < c.tags.length
  inbox : ∀ tag m, (tag, m) ∈ c.inbox →
    tag < b.nextTag ∧ ∀ u, b.unacked tag = some u → u.message = m
  taken : ∀ (i tag : ℕ), c.tags[i]? = some tag →
    tag < b.nextTag ∧ ∀ u, b.unacked tag = some u → c.worker.received[i]? = some (wrap u.message)
  resent : ∀ n : ℕ, c.flight = some n → ∃ p rest after, ∃ f : Flight Queue Publishing,
    c.worker.control = .retrying p rest after ∧ b.flights[n]? = some f ∧
      f.message.body = p.delivery.body

variable {w : Worker} {b b' : Broker Queue Publishing} {c : Session} {s s' : System}
  {event : ClickEvent}

theorem SessionSound.extend (h : SessionSound w b c) (hb : b.Extends b') :
    SessionSound w b' c := by
  refine ⟨h.worker, h.length, h.covered, ?_, ?_, ?_⟩
  · intro tag m hm
    obtain ⟨hlt, hknown⟩ := h.inbox tag m hm
    exact ⟨Nat.lt_of_lt_of_le hlt hb.tags, fun u hu => hknown u (hb.known tag u hlt hu)⟩
  · intro i tag hi
    obtain ⟨hlt, hknown⟩ := h.taken i tag hi
    exact ⟨Nat.lt_of_lt_of_le hlt hb.tags, fun u hu => hknown u (hb.known tag u hlt hu)⟩
  · intro n hn
    obtain ⟨p, rest, after, f, hc, hf, hbody⟩ := h.resent n hn
    obtain ⟨f', hf', hsame⟩ := hb.sent n f hf
    exact ⟨p, rest, after, f', hc, hf', by rw [hsame, hbody]⟩

theorem sessionSound_new (w : Worker) (b : Broker Queue Publishing) : SessionSound w b {} := by
  refine ⟨WorkerRuns.invariant_start w, rfl, ?_, nofun, nofun, nofun⟩
  intro i hi
  rcases hi with ⟨batch, n, hmem, -⟩ | ⟨attempt, hmem⟩
  · cases hmem
  · cases hmem

theorem Spends.mono {tag : ℕ} (h : Spends b' c tag)
    (hacc : ∀ n, b'.accepted n = true → b.accepted n = true) : Spends b c tag := by
  obtain ⟨i, hi, hcov | ⟨n, p, rest, after, hn, ha, hc, hp⟩⟩ := h
  · exact ⟨i, hi, .inl hcov⟩
  · exact ⟨i, hi, .inr ⟨n, p, rest, after, hn, hacc n ha, hc, hp⟩⟩

/-- A tag is spent only if it was taken. -/
theorem SessionSound.tag_lt {tag : ℕ} (h : SessionSound w b c) (hs : Spends b c tag) :
    tag < b.nextTag := by
  obtain ⟨i, hi, -⟩ := hs
  exact (h.taken i tag hi).1

/-- The message behind a delivery that is at hand. -/
theorem SessionSound.body {i tag : ℕ} {u : Unacked Queue Publishing} {p : Pending}
    (h : SessionSound w b c) (hi : c.tags[i]? = some tag) (hu : b.unacked tag = some u)
    (hp : Arrived c.worker.received p) (hindex : p.index = i) :
    u.message.body = p.delivery.body := by
  have hreceived := (h.taken i tag hi).2 u hu
  rw [Arrived, hindex, hreceived] at hp
  have heq : wrap u.message = p.delivery := Option.some.inj hp
  rw [← heq]
  rfl

theorem batch_decoded {v : AnalyticsWorker.System} {batch : List Pending}
    {after : Option AnalyticsWorker.Loop} (h : WorkerRuns.Invariant w v)
    (hc : v.control = .recordClicks batch after) {p : Pending} (hp : p ∈ batch) :
    Arrived v.received p ∧ decodeEvent p.delivery.body = some p.event := by
  apply WorkerRuns.arrived_of_decodable
  rw [← h.submitted, AnalyticsWorker.passed, hc]
  simp [AnalyticsWorker.Control.batches, hp]

/-- The worker reads back the id that `Record` was given. -/
theorem eventUuid_of_carries {m : Publishing} {got : ClickEvent} {u : ℕ}
    (hm : Carries event m) (hgot : decodeEvent m.body = some got)
    (hu : eventUuid event = some u) : eventUuid got = some u := by
  have hid := eventId_of_marshalEvent hm hgot
  rw [toValid_ascii (ascii_of_eventUuid hu)] at hid
  rw [← hu, eventUuid, eventUuid, hid]

theorem not_retrying {c : AnalyticsWorker.Control} {p : Pending} {rest : List Pending}
    {after : Option AnalyticsWorker.Loop} (h : c = .retrying p rest after) :
    c.isRetrying = true := by
  rw [h]
  rfl

/-! ## One step keeps every event -/

theorem Kept.step (h : Kept s event)
    (hstored : ∀ u, Stored s.ledger.db u → Stored s'.ledger.db u)
    (hholds : s.broker.Holds (Carries event) (Spent s) →
      s'.broker.Holds (Carries event) (Spent s))
    (hspent : ∀ tag u, s'.broker.unacked tag = some u → Carries event u.message →
      Spent s' tag → Spent s tag ∨ Persisted s'.ledger.db event) : Kept s' event := by
  by_cases hp : Persisted s'.ledger.db event
  · exact .inl hp
  · rcases h with ⟨u, hu, hs⟩ | hb
    · exact absurd ⟨u, hu, hstored u hs⟩ hp
    · right
      apply (hholds hb).mono
      intro tag u hunacked hcarries hspent'
      rcases hspent tag u hunacked hcarries hspent' with hold | hdone
      · exact hold
      · exact absurd hdone hp

theorem Spent.mono {tag : ℕ} (h : Spent s' tag) (hs : s'.sessions = s.sessions)
    (hacc : ∀ n, s'.broker.accepted n = true → s.broker.accepted n = true) : Spent s tag := by
  obtain ⟨k, hk⟩ := h
  rw [hs] at hk
  exact ⟨k, hk.mono hacc⟩

/-- A step that changes one session. -/
theorem spent_session {tag k : ℕ} {c' : Session} {X : Prop} (h : Spent s' tag)
    (hs : s'.sessions = Function.update s.sessions k c')
    (hacc : ∀ n, s'.broker.accepted n = true → s.broker.accepted n = true)
    (hk : Spends s'.broker c' tag → Spends s.broker (s.sessions k) tag ∨ X) :
    Spent s tag ∨ X := by
  obtain ⟨l, hl⟩ := h
  rw [hs] at hl
  by_cases hlk : l = k
  · subst hlk
    rw [Function.update_self] at hl
    exact (hk hl).imp_left fun hold => ⟨l, hold⟩
  · rw [Function.update_of_ne hlk] at hl
    exact .inl ⟨l, hl.mono hacc⟩

/-- The store calls of a step, as the ledger counts them. -/
def Records (l l' : Ledger) : Prop :=
  ∃ events, l'.inserted = l.inserted ++ events ∧ Accounted l.db l'.db events ∧
    Grows l.db l'.db events

theorem Records.refl (l : Ledger) : Records l l :=
  ⟨[], by simp, .refl l.db, .of_clicks rfl⟩

theorem Records.stored {l l' : Ledger} (h : Records l l') {u : ℕ} (hs : Stored l.db u) :
    Stored l'.db u := by
  obtain ⟨events, -, -, hgrows⟩ := h
  exact hgrows.stored hs

theorem records_recordClicks (l : Ledger) (io : Script) {events : List ClickEvent}
    (ht : ∀ e ∈ events, e.occurredAt.isZero = false) :
    Records l (extend l (recordClicks io l.db events).2 events) :=
  ⟨_, rfl, accounted_recordClicks io l.db ht, grows_recordClicks io l.db ht⟩

theorem records_edit (l : Ledger) {op : StoreOp} (h : editing op = true) :
    Records l (extend l (op.apply l.db) []) := by
  have hnone : insertedEvents l.db (op.apply l.db) [] = [] := by
    unfold insertedEvents
    split <;> rfl
  have hevents : op.events = [] := by cases op <;> first | rfl | cases h
  have hacc := accounted_apply l.db op (by simp [hevents])
  rw [hevents, hnone] at hacc
  refine ⟨[], ?_, hacc, grows_edit h l.db⟩
  rw [extend, hnone]

/-- Everything a step of one worker process can do. -/
structure Moved (w : Worker) (k : ℕ) (c : Session) (s s' : System) : Prop where
  sessions : s'.sessions = Function.update s.sessions k c
  requests : s'.requests = s.requests
  grows : s.broker.Extends s'.broker
  tags : s'.broker.nextTag = s.broker.nextTag
  queues : s'.broker.queues = s.broker.queues
  unacked : s'.broker.unacked = s.broker.unacked
  accepted : ∀ n, s'.broker.accepted n = true → s.broker.accepted n = true
  sound : SessionSound w s'.broker c
  took : ∀ (i tag : ℕ), (s.sessions k).tags[i]? = some tag → c.tags[i]? = some tag
  covered : ∀ i, Covered (s.sessions k).worker.history i → Covered c.worker.history i
  answers : ∀ tag, (Answer.ack, tag) ∈ s'.broker.answers → (Answer.ack, tag) ∈ s.broker.answers ∨
    ∃ i : ℕ, c.tags[i]? = some tag ∧ Covered c.worker.history i
  spends : ∀ tag u event, s.broker.unacked tag = some u → Carries event u.message →
    (eventUuid event).isSome → Spends s'.broker c tag →
      Spends s.broker (s.sessions k) tag ∨ Persisted s'.ledger.db event
  ledger : Records s.ledger s'.ledger

theorem Moved.of_session {k : ℕ} {c : Session} (sound : SessionSound w s.broker c)
    (took : ∀ (i tag : ℕ), (s.sessions k).tags[i]? = some tag → c.tags[i]? = some tag)
    (covered : ∀ i, Covered (s.sessions k).worker.history i → Covered c.worker.history i)
    (spends : ∀ tag, Spends s.broker c tag → Spends s.broker (s.sessions k) tag) :
    Moved w k c s (s.session k c) where
  sessions := rfl
  requests := rfl
  grows := .refl s.broker
  tags := rfl
  queues := rfl
  unacked := rfl
  accepted _ h := h
  sound := sound
  took := took
  covered := covered
  answers _ h := .inl h
  spends tag _ _ _ _ _ h := .inl (spends tag h)
  ledger := .refl s.ledger

theorem not_resent {i : ℕ} (h : c.worker.control.isRetrying = false) : ¬ Resent b c i := by
  rintro ⟨n, p, rest, after, -, -, hc, -⟩
  rw [not_retrying hc] at h
  cases h

theorem SessionSound.no_flight (h : SessionSound w b c)
    (hc : c.worker.control.isRetrying = false) : c.flight = none := by
  cases hf : c.flight with
  | none => rfl
  | some n =>
    obtain ⟨p, rest, after, f, hretrying, -⟩ := h.resent n hf
    rw [not_retrying hretrying] at hc
    cases hc

section Tasks

variable {k : ℕ}

theorem moved_receive (h : SessionSound w s.broker (s.sessions k))
    (hs : work w s k (s.sessions k) .receive = some s') : ∃ c, Moved w k c s s' := by
  generalize hsession : s.sessions k = c at h hs
  simp only [work] at hs
  split at hs
  · cases hs
  · next tag m rest hinbox =>
    obtain ⟨v, hv, rfl⟩ := Option.map_eq_some_iff.mp hs
    obtain ⟨⟨hidle, hretrying⟩, hreceived, hhistory⟩ := AnalyticsWorker.next_receive hv
    have hnone := h.no_flight hidle
    refine ⟨_, .of_session ⟨WorkerRuns.invariant_next h.worker hv, ?_, ?_, ?_, ?_, ?_⟩ ?_ ?_ ?_⟩
    · rw [hreceived, List.length_append, List.length_append, h.length]
      rfl
    · intro i hi
      rw [hhistory] at hi
      have hlt := h.covered i hi
      rw [List.length_append]
      omega
    · intro tag' m' hmem
      exact h.inbox tag' m' (by rw [hinbox]; exact List.mem_cons_of_mem _ hmem)
    · intro i tag' hi
      rw [hreceived]
      by_cases hlt : i < c.tags.length
      · have hold : c.tags[i]? = some tag' := (List.getElem?_append_left hlt).symm.trans hi
        obtain ⟨htag, hknown⟩ := h.taken i tag' hold
        refine ⟨htag, fun u hu => ?_⟩
        rw [List.getElem?_append_left (by rw [← h.length]; exact hlt)]
        exact hknown u hu
      · have hlast := (List.getElem?_eq_some_iff.mp hi).1
        rw [List.length_append, List.length_singleton] at hlast
        obtain rfl : i = c.tags.length := by omega
        obtain rfl : tag = tag' := by simpa using hi
        obtain ⟨htag, hknown⟩ := h.inbox tag m (by rw [hinbox]; exact List.mem_cons_self)
        refine ⟨htag, fun u hu => ?_⟩
        rw [hknown u hu, h.length]
        simp
    · intro n hn
      change c.flight = some n at hn
      rw [hnone] at hn
      cases hn
    · intro i tag' hi
      rw [hsession] at hi
      rw [List.getElem?_append_left (List.getElem?_eq_some_iff.mp hi).1]
      exact hi
    · intro i hi
      rw [hsession] at hi
      rw [hhistory]
      exact hi
    · rintro tag' ⟨i, hi, hcov | hresent⟩
      · rw [hhistory] at hcov
        have hlt := h.covered i hcov
        rw [hsession]
        exact ⟨i, (List.getElem?_append_left hlt).symm.trans hi, .inl hcov⟩
      · exact absurd hresent (not_resent hretrying)

theorem moved_loop {e : AnalyticsWorker.Event} (h : SessionSound w s.broker (s.sessions k))
    (hs : work w s k (s.sessions k) (.loop e) = some s') : ∃ c, Moved w k c s s' := by
  generalize hsession : s.sessions k = c at h hs
  simp only [work] at hs
  split at hs
  · next hinternal =>
    obtain ⟨v, hv, rfl⟩ := Option.map_eq_some_iff.mp hs
    obtain ⟨hcontrol, hreceived, hhistory⟩ := AnalyticsWorker.next_internal hinternal hv
    refine ⟨_, .of_session ⟨WorkerRuns.invariant_next h.worker hv, ?_, ?_, h.inbox, ?_, ?_⟩ ?_ ?_
      ?_⟩
    · rw [hreceived]
      exact h.length
    · rw [hhistory]
      exact h.covered
    · rw [hreceived]
      exact h.taken
    · intro n hn
      rcases hcontrol with hsame | ⟨hidle, -⟩
      · rw [hsame]
        exact h.resent n hn
      · rw [h.no_flight hidle] at hn
        cases hn
    · rw [hsession]
      exact fun _ _ hi => hi
    · rw [hsession, hhistory]
      exact fun _ hi => hi
    · rintro tag ⟨i, hi, hcov | hresent⟩
      · rw [hhistory] at hcov
        rw [hsession]
        exact ⟨i, hi, .inl hcov⟩
      · rcases hcontrol with hsame | ⟨-, hretrying⟩
        · obtain ⟨n, p, rest, after, hn, ha, hc, hp⟩ := hresent
          rw [hsession]
          exact ⟨i, hi, .inr ⟨n, p, rest, after, hn, ha, hsame.symm.trans hc, hp⟩⟩
        · exact absurd hresent (not_resent hretrying)
  · cases hs

theorem moved_crash (h : SessionSound w s.broker (s.sessions k))
    (hs : work w s k (s.sessions k) .crash = some s') : ∃ c, Moved w k c s s' := by
  cases hs
  exact ⟨_, .of_session ⟨h.worker, h.length, h.covered, h.inbox, h.taken, h.resent⟩
    (fun _ _ hi => hi) (fun _ hi => hi) fun _ hs => hs⟩

theorem moved_retried {ok : Bool} (h : SessionSound w s.broker (s.sessions k))
    (hs : work w s k (s.sessions k) (.retried ok) = some s') : ∃ c, Moved w k c s s' := by
  generalize hsession : s.sessions k = c at h hs
  simp only [work] at hs
  split at hs
  · cases hs
  · next hok =>
    obtain ⟨v, hv, rfl⟩ := Option.map_eq_some_iff.mp hs
    obtain ⟨p, rest, after, hc, hreceived, hhistory⟩ := AnalyticsWorker.next_retried hv
    have hinv := WorkerRuns.invariant_next h.worker hv
    have harrived := h.worker.arrived p (by rw [hc]; exact List.mem_cons_self)
    have hlt : p.index < c.tags.length := by
      rw [h.length]
      exact (List.getElem?_eq_some_iff.mp harrived).1
    have hnew : ∀ i, Covered v.history i → Covered c.worker.history i ∨
        ok = true ∧ p.index = i := by
      intro i hi
      rw [hhistory] at hi
      rcases AnalyticsWorker.covered_snoc hi with hold | hlast
      · exact .inl hold
      · cases ok with
        | false => cases hlast
        | true => exact .inr ⟨rfl, hlast⟩
    refine ⟨_, .of_session ⟨hinv, ?_, ?_, h.inbox, ?_, nofun⟩ ?_ ?_ ?_⟩
    · rw [hreceived]
      exact h.length
    · intro i hi
      rcases hnew i hi with hold | ⟨-, rfl⟩
      · exact h.covered i hold
      · exact hlt
    · rw [hreceived]
      exact h.taken
    · rw [hsession]
      exact fun _ _ hi => hi
    · intro i hi
      rw [hsession] at hi
      rw [hhistory]
      exact WorkerRuns.Covered.append hi _
    · rintro tag ⟨i, hi, hcov | ⟨n, -, -, -, hn, -⟩⟩
      · rw [hsession]
        rcases hnew i hcov with hold | ⟨rfl, hindex⟩
        · exact ⟨i, hi, .inl hold⟩
        · -- The copy was there before the call returned.
          obtain ⟨n, hn, ha⟩ : ∃ n, c.flight = some n ∧ s.broker.accepted n = true := by
            simpa [Option.any_eq_true] using hok
          exact ⟨i, hi, .inr ⟨n, p, rest, after, hn, ha, hc, hindex⟩⟩
      · cases hn

theorem moved_resend (h : SessionSound w s.broker (s.sessions k))
    (hs : work w s k (s.sessions k) .resend = some s') : ∃ c, Moved w k c s s' := by
  generalize hsession : s.sessions k = c at h hs
  simp only [work] at hs
  split at hs
  · next p rest after hc _ =>
    obtain ⟨m, hm, rfl⟩ := Option.map_eq_some_iff.mp hs
    have hgrows := Broker.extends_send s.broker .retry m
    have hbody : m.body = p.delivery.body := (wrap_retryPublishing hm).2.1
    have hold := h.extend hgrows
    refine ⟨{ c with flight := some s.broker.flights.length },
      rfl, rfl, hgrows, rfl, rfl, rfl, ?_, ?_, ?_, ?_, fun _ ha => .inl ha, ?_, .refl _⟩
    · intro n hn
      exact (Broker.accepted_send s.broker .retry m n).symm.trans hn
    · refine ⟨h.worker, h.length, h.covered, hold.inbox, hold.taken, ?_⟩
      rintro n hn
      obtain rfl : s.broker.flights.length = n := Option.some.inj hn
      exact ⟨p, rest, after, _, hc, Broker.getElem?_send s.broker .retry m, hbody⟩
    · rw [hsession]
      exact fun _ _ hi => hi
    · rw [hsession]
      exact fun _ hi => hi
    · rintro tag u event - - - ⟨i, hi, hcov | ⟨n, _, _, _, hn, ha, -⟩⟩
      · left
        rw [hsession]
        exact ⟨i, hi, .inl hcov⟩
      · -- What was just sent has not arrived yet.
        obtain rfl : s.broker.flights.length = n := Option.some.inj hn
        have hnew := (Broker.accepted_send s.broker .retry m s.broker.flights.length).symm.trans ha
        rw [Broker.not_accepted_new] at hnew
        cases hnew
  · cases hs

theorem moved_called {ok sent : Bool} (h : SessionSound w s.broker (s.sessions k))
    (hs : work w s k (s.sessions k) (.called ok sent) = some s') : ∃ c, Moved w k c s s' := by
  generalize hsession : s.sessions k = c at h hs
  simp only [work] at hs
  split at hs
  · cases hs
  · next kind i hcallee =>
    obtain ⟨tag, htag, hs⟩ := Option.bind_eq_some_iff.mp hs
    obtain ⟨v, hv, rfl⟩ := Option.map_eq_some_iff.mp hs
    obtain ⟨_, j, -, hreceived, hhistory⟩ := AnalyticsWorker.next_called hv
    have hnew : ∀ n, Covered v.history n → Covered c.worker.history n := by
      intro n hn
      rw [hhistory] at hn
      rcases AnalyticsWorker.covered_snoc hn with hold | hlast
      · exact hold
      · cases hlast
    have hkeep : ∀ n, Covered c.worker.history n → Covered v.history n := by
      intro n hn
      rw [hhistory]
      exact WorkerRuns.Covered.append hn _
    have hack : Disposal.answer kind = .ack → Covered c.worker.history i := by
      intro hkind
      have hbacked := h.worker.backed
      cases hc : c.worker.control with
      | rejectInvalid =>
        rw [hc] at hcallee
        cases hcallee
        cases hkind
      | ackCommitted p rest after =>
        rw [hc] at hcallee hbacked
        cases hcallee
        exact hbacked p List.mem_cons_self
      | settling kind' p rest after =>
        rw [hc] at hcallee hbacked
        cases hcallee
        cases kind with
        | ack => exact hbacked
        | _ => cases hkind
      | _ =>
        rw [hc] at hcallee
        cases hcallee
    have hgrows : s.broker.Extends
        (if sent then s.broker.answer (Disposal.answer kind) tag else s.broker) := by
      cases sent
      · exact .refl _
      · exact .of_flights rfl rfl fun _ _ hu => hu
    have hlift : SessionSound w s.broker { c with worker := v, flight := none } := by
      refine ⟨WorkerRuns.invariant_next h.worker hv, ?_, ?_, h.inbox, ?_, nofun⟩
      · rw [hreceived]
        exact h.length
      · exact fun n hn => h.covered n (hnew n hn)
      · rw [hreceived]
        exact h.taken
    refine ⟨{ c with worker := v, flight := none },
      rfl, rfl, hgrows, ?_, ?_, ?_, ?_, hlift.extend hgrows, ?_, ?_, ?_, ?_, .refl _⟩
    · cases sent <;> rfl
    · cases sent <;> rfl
    · cases sent <;> rfl
    · cases sent <;> exact fun _ hn => hn
    · rw [hsession]
      exact fun _ _ hi => hi
    · rw [hsession]
      exact hkeep
    · intro tag' htag'
      cases sent with
      | false => exact .inl htag'
      | true =>
        rcases List.mem_append.mp htag' with hold | hlast
        · exact .inl hold
        · obtain ⟨hkind, rfl⟩ := Prod.mk.inj (List.mem_singleton.mp hlast)
          exact .inr ⟨i, htag, hkeep i (hack hkind.symm)⟩
    · rintro tag' u event - - - ⟨n, hn, hcov | ⟨_, _, _, _, hflight, -⟩⟩
      · left
        rw [hsession]
        exact ⟨n, hn, .inl (hnew n hcov)⟩
      · cases hflight

theorem moved_recordClicks {io : Script} (h : SessionSound w s.broker (s.sessions k))
    (hs : work w s k (s.sessions k) (.recordClicks io) = some s') : ∃ c, Moved w k c s s' := by
  generalize hsession : s.sessions k = c at h hs
  simp only [work] at hs
  split at hs
  · next batch after hc =>
    obtain ⟨v, hv, rfl⟩ := Option.map_eq_some_iff.mp hs
    obtain ⟨batch', after', hc', hreceived, hhistory⟩ := AnalyticsWorker.next_recorded hv
    rw [hc] at hc'
    cases hc'
    have hdecoded := fun p hp => batch_decoded h.worker hc (p := p) hp
    have htimed : ∀ e ∈ batch.map Pending.event, e.occurredAt.isZero = false := by
      intro e he
      obtain ⟨p, hp, rfl⟩ := List.mem_map.mp he
      exact occurred_of_decodeEvent (hdecoded p hp).2
    have hnew : ∀ i, Covered v.history i → Covered c.worker.history i ∨
        (recordClicks io s.ledger.db (batch.map Pending.event)).1.2 = none ∧
          i ∈ batch.map Pending.index := by
      intro i hi
      rw [hhistory] at hi
      rcases AnalyticsWorker.covered_snoc hi with hold | hlast
      · exact .inl hold
      · right
        cases herr : (recordClicks io s.ledger.db (batch.map Pending.event)).1.2 with
        | none =>
          rw [herr] at hlast
          exact ⟨rfl, hlast⟩
        | some e =>
          rw [herr] at hlast
          cases hlast
    refine ⟨{ c with worker := v, flight := none }, rfl, rfl, .refl _, rfl, rfl, rfl,
      fun _ hn => hn, ?_, ?_, ?_, fun _ ha => .inl ha, ?_,
      records_recordClicks s.ledger io htimed⟩
    · refine ⟨WorkerRuns.invariant_next h.worker hv, ?_, ?_, h.inbox, ?_, nofun⟩
      · rw [hreceived]
        exact h.length
      · intro i hi
        rcases hnew i hi with hold | ⟨-, hmem⟩
        · exact h.covered i hold
        · obtain ⟨p, hp, rfl⟩ := List.mem_map.mp hmem
          rw [h.length]
          exact (List.getElem?_eq_some_iff.mp (hdecoded p hp).1).1
      · rw [hreceived]
        exact h.taken
    · rw [hsession]
      exact fun _ _ hi => hi
    · intro i hi
      rw [hsession] at hi
      rw [hhistory]
      exact WorkerRuns.Covered.append hi _
    · rintro tag u event hu hcarries hid ⟨i, hi, hcov | ⟨_, _, _, _, hflight, -⟩⟩
      · rcases hnew i hcov with hold | ⟨herr, hmem⟩
        · left
          rw [hsession]
          exact ⟨i, hi, .inl hold⟩
        · -- The batch committed, and the delivery's event with it.
          right
          obtain ⟨p, hp, hindex⟩ := List.mem_map.mp hmem
          obtain ⟨harrived, hevent⟩ := hdecoded p hp
          rw [← h.body hi hu harrived hindex] at hevent
          obtain ⟨id, hid⟩ := Option.isSome_iff_exists.mp hid
          exact ⟨id, hid, stored_recordClicks htimed herr (List.mem_map_of_mem hp)
            (eventUuid_of_carries hcarries hevent hid)⟩
      · cases hflight
  · cases hs

theorem moved_work {task : Task} (h : SessionSound w s.broker (s.sessions k))
    (hs : work w s k (s.sessions k) task = some s') : ∃ c, Moved w k c s s' := by
  cases task with
  | receive => exact moved_receive h hs
  | loop e => exact moved_loop h hs
  | recordClicks io => exact moved_recordClicks h hs
  | resend => exact moved_resend h hs
  | retried ok => exact moved_retried h hs
  | called ok sent => exact moved_called h hs
  | crash => exact moved_crash h hs

end Tasks

theorem requests_work {k : ℕ} {c : Session} {task : Task} (hs : work w s k c task = some s') :
    s'.requests = s.requests := by
  unfold work at hs
  split at hs
  · split at hs
    · cases hs
    · obtain ⟨_, -, rfl⟩ := Option.map_eq_some_iff.mp hs
      rfl
  · split at hs
    · obtain ⟨_, -, rfl⟩ := Option.map_eq_some_iff.mp hs
      rfl
    · cases hs
  · split at hs
    · obtain ⟨_, -, rfl⟩ := Option.map_eq_some_iff.mp hs
      rfl
    · cases hs
  · split at hs
    · obtain ⟨_, -, rfl⟩ := Option.map_eq_some_iff.mp hs
      rfl
    · cases hs
  · split at hs
    · cases hs
    · obtain ⟨_, -, rfl⟩ := Option.map_eq_some_iff.mp hs
      rfl
  · split at hs
    · cases hs
    · obtain ⟨_, -, hs⟩ := Option.bind_eq_some_iff.mp hs
      obtain ⟨_, -, rfl⟩ := Option.map_eq_some_iff.mp hs
      rfl
  · cases hs
    rfl

/-! ## Whole runs -/

theorem Records.trans {l l' l'' : Ledger} (h : Records l l') (h' : Records l' l'') :
    Records l l'' := by
  obtain ⟨events, hins, hacc, hgrows⟩ := h
  obtain ⟨events', hins', hacc', hgrows'⟩ := h'
  exact ⟨events ++ events', by rw [hins', hins, List.append_assoc], hacc.trans hacc',
    hgrows.trans hgrows'⟩

structure RequestSound (s : System) (event : ClickEvent) (flight : Option ℕ) : Prop where
  named : (eventUuid event).isSome
  timed : event.occurredAt.isZero = false
  sent : ∀ n : ℕ, flight = some n →
    ∃ f : Flight Queue Publishing, s.broker.flights[n]? = some f ∧ Carries event f.message
  kept : ∀ n, flight = some n → s.broker.accepted n = true → Kept s event

/-- The worker that sends an answer may ack the delivery from now on. -/
def Settled (s : System) (tag : ℕ) : Prop :=
  ∃ k, ∃ i : ℕ, (s.sessions k).tags[i]? = some tag ∧ Covered (s.sessions k).worker.history i

theorem Settled.spent {tag : ℕ} (h : Settled s tag) : Spent s tag := by
  obtain ⟨k, i, hi, hcov⟩ := h
  exact ⟨k, i, hi, .inl hcov⟩

structure Invariant (w : Worker) (db : Database) (s : System) : Prop where
  broker : Broker.Sound deadLetter s.broker
  sessions : ∀ k, SessionSound w s.broker (s.sessions k)
  answers : ∀ tag, (Answer.ack, tag) ∈ s.broker.answers → Settled s tag
  recording : ∀ r event flight, s.requests r = .recording event flight →
    RequestSound s event flight
  recorded : ∀ r event, s.requests r = .recorded event true none →
    (eventUuid event).isSome ∧ Kept s event
  ledger : Records ⟨db, []⟩ s.ledger

/-- A step that nobody can notice but the party that takes it. -/
structure Carry (w : Worker) (s s' : System) : Prop where
  broker : Broker.Sound deadLetter s'.broker
  grows : s.broker.Extends s'.broker
  sessions : ∀ k, SessionSound w s'.broker (s'.sessions k)
  answers : ∀ tag, (Answer.ack, tag) ∈ s'.broker.answers → Settled s' tag
  kept : ∀ event, (eventUuid event).isSome → Kept s event → Kept s' event
  arrived : ∀ (n : ℕ) (f : Flight Queue Publishing) event, s.broker.flights[n]? = some f →
    Carries event f.message → s'.broker.accepted n = true →
      s.broker.accepted n = true ∨ Kept s' event
  ledger : Records s.ledger s'.ledger

theorem RequestSound.carry {flight : Option ℕ} (h : RequestSound s event flight)
    (hc : Carry w s s') : RequestSound s' event flight := by
  refine ⟨h.named, h.timed, ?_, ?_⟩
  · intro n hn
    obtain ⟨f, hf, hcarries⟩ := h.sent n hn
    obtain ⟨f', hf', hsame⟩ := hc.grows.sent n f hf
    exact ⟨f', hf', by rw [Carries, hsame]; exact hcarries⟩
  · intro n hn ha
    obtain ⟨f, hf, hcarries⟩ := h.sent n hn
    rcases hc.arrived n f event hf hcarries ha with hold | hkept
    · exact hc.kept event h.named (h.kept n hn hold)
    · exact hkept

theorem Invariant.carry {db : Database} (h : Invariant w db s) (hc : Carry w s s')
    (hrecording : ∀ r event flight, s'.requests r = .recording event flight →
      s.requests r = .recording event flight ∨ RequestSound s' event flight)
    (hrecorded : ∀ r event, s'.requests r = .recorded event true none →
      s.requests r = .recorded event true none ∨ (eventUuid event).isSome ∧ Kept s' event) :
    Invariant w db s' := by
  refine ⟨hc.broker, hc.sessions, hc.answers, ?_, ?_, h.ledger.trans hc.ledger⟩
  · intro r event flight hr
    rcases hrecording r event flight hr with hold | hnew
    · exact (h.recording r event flight hold).carry hc
    · exact hnew
  · intro r event hr
    rcases hrecorded r event hr with hold | hnew
    · obtain ⟨hnamed, hkept⟩ := h.recorded r event hold
      exact ⟨hnamed, hc.kept event hnamed hkept⟩
    · exact hnew

theorem Invariant.carry_requests {db : Database} (h : Invariant w db s) (hc : Carry w s s')
    (hreq : s'.requests = s.requests) : Invariant w db s' := by
  apply h.carry hc
  · intro r event flight hr
    rw [hreq] at hr
    exact .inl hr
  · intro r event hr
    rw [hreq] at hr
    exact .inl hr

section Steps

variable {db : Database}

/-- A step of the requests and the store: the broker at most takes a message to send. -/
theorem Invariant.carry_store (h : Invariant w db s) (hsessions : s'.sessions = s.sessions)
    (hbroker : s'.broker = s.broker ∨ ∃ q m, s'.broker = s.broker.send q m)
    (hledger : Records s.ledger s'.ledger) : Carry w s s' := by
  have hgrows : s.broker.Extends s'.broker := by
    rcases hbroker with heq | ⟨q, m, heq⟩
    · rw [heq]
      exact .refl _
    · rw [heq]
      exact Broker.extends_send _ q m
  have hacc : ∀ n, s'.broker.accepted n = true → s.broker.accepted n = true := by
    intro n hn
    rcases hbroker with heq | ⟨q, m, heq⟩
    · rwa [heq] at hn
    · rwa [heq, Broker.accepted_send] at hn
  have hsame : s'.broker.queues = s.broker.queues ∧ s'.broker.unacked = s.broker.unacked ∧
      s'.broker.answers = s.broker.answers ∧ s'.broker.nextTag = s.broker.nextTag := by
    rcases hbroker with heq | ⟨q, m, heq⟩ <;> rw [heq] <;> exact ⟨rfl, rfl, rfl, rfl⟩
  refine ⟨h.broker.congr hsame.2.1 hsame.2.2.2, hgrows, ?_, ?_, ?_, ?_, hledger⟩
  · intro k
    rw [hsessions]
    exact (h.sessions k).extend hgrows
  · intro tag htag
    rw [hsame.2.2.1] at htag
    obtain ⟨k, i, hi⟩ := h.answers tag htag
    exact ⟨k, i, by rw [hsessions]; exact hi⟩
  · intro event _ hkept
    apply hkept.step
    · exact fun u => hledger.stored
    · exact fun hb => hb.congr hsame.1 hsame.2.1
    · exact fun tag u _ _ hspent => .inl (hspent.mono hsessions hacc)
  · exact fun n f event _ _ hn => .inl (hacc n hn)

/-- A step of the broker in which no message arrives and no answer is sent. -/
theorem Invariant.carry_broker {b : Broker Queue Publishing} (h : Invariant w db s)
    (hsound : Broker.Sound deadLetter b) (hgrows : s.broker.Extends b)
    (hflights : b.flights = s.broker.flights)
    (hanswers : ∀ tag, (Answer.ack, tag) ∈ b.answers → (Answer.ack, tag) ∈ s.broker.answers)
    (hholds : ∀ event, s.broker.Holds (Carries event) (Spent s) →
      b.Holds (Carries event) (Spent s)) : Carry w s { s with broker := b } := by
  have hacc : ∀ n, b.accepted n = true → s.broker.accepted n = true := by
    intro n hn
    rwa [Broker.accepted, hflights] at hn
  refine ⟨hsound, hgrows, fun k => (h.sessions k).extend hgrows, ?_, ?_, ?_, .refl _⟩
  · exact fun tag htag => h.answers tag (hanswers tag htag)
  · intro event _ hkept
    apply hkept.step
    · exact fun _ hs => hs
    · exact hholds event
    · exact fun tag u _ _ hspent => .inl (hspent.mono rfl hacc)
  · exact fun n f event _ _ hn => .inl (hacc n hn)

theorem Invariant.carry_work {k : ℕ} {c : Session} (h : Invariant w db s)
    (hm : Moved w k c s s') : Carry w s s' := by
  refine ⟨h.broker.congr hm.unacked hm.tags, hm.grows, ?_, ?_, ?_, ?_, hm.ledger⟩
  · intro l
    rw [hm.sessions]
    by_cases hl : l = k
    · subst hl
      rw [Function.update_self]
      exact hm.sound
    · rw [Function.update_of_ne hl]
      exact (h.sessions l).extend hm.grows
  · intro tag htag
    rcases hm.answers tag htag with hold | ⟨i, hi, hcov⟩
    · obtain ⟨l, i, hi, hcov⟩ := h.answers tag hold
      by_cases hl : l = k
      · subst hl
        refine ⟨l, i, ?_⟩
        rw [hm.sessions, Function.update_self]
        exact ⟨hm.took i tag hi, hm.covered i hcov⟩
      · refine ⟨l, i, ?_⟩
        rw [hm.sessions, Function.update_of_ne hl]
        exact ⟨hi, hcov⟩
    · refine ⟨k, i, ?_⟩
      rw [hm.sessions, Function.update_self]
      exact ⟨hi, hcov⟩
  · intro event hnamed hkept
    apply hkept.step
    · exact fun u => hm.ledger.stored
    · exact fun hb => hb.congr hm.queues hm.unacked
    · intro tag u hu hcarries hspent
      rw [hm.unacked] at hu
      exact spent_session hspent hm.sessions hm.accepted (hm.spends tag u event hu hcarries hnamed)
  · exact fun n f event _ _ hn => .inl (hm.accepted n hn)

/-- A copy arrives. It may be the one that a `Retry` call waits for. -/
theorem Invariant.carry_accept {n : ℕ} {b : Broker Queue Publishing} (h : Invariant w db s)
    (hb : s.broker.accept n = some b) : Carry w s { s with broker := b } := by
  have hgrows := Broker.extends_accept hb
  have hframe : b.unacked = s.broker.unacked ∧ b.answers = s.broker.answers := by
    obtain ⟨f, -, rfl⟩ := Option.map_eq_some_iff.mp hb
    exact ⟨rfl, rfl⟩
  obtain ⟨f, hf, -⟩ := Option.map_eq_some_iff.mp hb
  have harrives : ∀ event, Carries event f.message → Kept { s with broker := b } event :=
    fun event hcarries => .inr (Broker.holds_accept hf hcarries hb)
  refine ⟨h.broker.accept hb, hgrows, fun k => (h.sessions k).extend hgrows, ?_, ?_, ?_, .refl _⟩
  · intro tag htag
    change (Answer.ack, tag) ∈ b.answers at htag
    rw [hframe.2] at htag
    exact h.answers tag htag
  · intro event _ hkept
    by_cases hcarries : Carries event f.message
    · exact harrives event hcarries
    · apply hkept.step
      · exact fun _ hs => hs
      · exact fun hh => hh.accept hb
      intro tag u hu hcarried ⟨k, i, hi, hor⟩
      change b.unacked tag = some u at hu
      rw [hframe.1] at hu
      rcases hor with hcov | ⟨m, p, rest, after, hm, ha, hc, hp⟩
      · exact .inl ⟨k, i, hi, .inl hcov⟩
      · rcases Broker.accepted_accept hb ha with rfl | hold
        · -- The copy of `p` has arrived, and `p` does not carry the event.
          exfalso
          obtain ⟨p', rest', after', f', hc', hf', hbody⟩ := (h.sessions k).resent m hm
          change (s.sessions k).worker.control = _ at hc
          rw [hc] at hc'
          cases hc'
          rw [hf] at hf'
          cases hf'
          have harrived := (h.sessions k).worker.arrived p
            (by rw [hc]; exact List.mem_cons_self)
          have hsame := (h.sessions k).body hi hu harrived hp
          apply hcarries
          rw [Carries, hbody, ← hsame]
          exact hcarried
        · exact .inl ⟨k, i, hi, .inr ⟨m, p, rest, after, hm, hold, hc, hp⟩⟩
  · intro m g event hg hcarries ha
    rcases Broker.accepted_accept hb ha with rfl | hold
    · rw [hf] at hg
      cases hg
      exact .inr (harrives event hcarries)
    · exact .inl hold

theorem Invariant.not_spent_new (h : Invariant w db s) : ¬ Spent s s.broker.nextTag := by
  rintro ⟨k, hk⟩
  exact absurd ((h.sessions k).tag_lt hk) (Nat.lt_irrefl _)

theorem Invariant.deliver {k i : ℕ} {m : Publishing} {b : Broker Queue Publishing}
    (h : Invariant w db s) (hb : s.broker.deliver .clicks i = some (m, b)) :
    Invariant w db { s.session k { s.sessions k with
      inbox := (s.sessions k).inbox ++ [(s.broker.nextTag, m)] } with broker := b } := by
  obtain ⟨hgrows, htags, hflights, hmessage⟩ := Broker.extends_deliver hb
  have hanswers : b.answers = s.broker.answers := by
    obtain ⟨_, -, heq⟩ := Option.map_eq_some_iff.mp hb
    cases heq
    rfl
  have hsound := h.broker.deliver (by rfl) hb
  have hcarry := h.carry_broker hsound hgrows hflights
    (fun tag htag => by rwa [hanswers] at htag)
    (fun event hh => hh.deliver h.broker h.not_spent_new hb)
  have hmid := h.carry_requests hcarry rfl
  -- The new delivery waits in the inbox; nothing else of the session changes.
  refine hmid.carry_requests (hmid.carry_work (k := k) (.of_session ?_ (fun _ _ hi => hi)
    (fun _ hi => hi) fun _ hs => hs)) rfl
  have hold := hmid.sessions k
  refine ⟨hold.worker, hold.length, hold.covered, ?_, hold.taken, hold.resent⟩
  intro tag m' hmem
  rcases List.mem_append.mp hmem with hin | hlast
  · exact hold.inbox tag m' hin
  · obtain ⟨rfl, rfl⟩ := Prod.mk.inj (List.mem_singleton.mp hlast)
    refine ⟨?_, hmessage⟩
    rw [htags]
    exact Nat.lt_succ_self _

theorem record_cases (outcome : Option Bool) (io : Script) (db : Database) (event : ClickEvent) :
    (outcome = some true ∧
      RedirectHandler.record outcome io db event event.increment none = ((true, none), db)) ∨
    (outcome ≠ some true ∧ RedirectHandler.record outcome io db event event.increment none =
      recordClick io db event event.increment none) := by
  match outcome with
  | none => exact .inr ⟨nofun, rfl⟩
  | some true => exact .inl ⟨rfl, rfl⟩
  | some false => exact .inr ⟨by decide, rfl⟩

theorem Invariant.returned {r : ℕ} {flight : Option ℕ} {publisher : Bool}
    {outcome : Option Bool} {io : Script} (h : Invariant w db s)
    (hr : s.requests r = .recording event flight)
    (hp : published publisher s flight outcome = true) :
    let result := RedirectHandler.record outcome io s.ledger.db event event.increment none
    Invariant w db { s with
      ledger := extend s.ledger result.2 [event]
      requests := Function.update s.requests r (.recorded event result.1.1 result.1.2) } := by
  intro result
  have hsound := h.recording r event flight hr
  obtain ⟨u, hu⟩ := Option.isSome_iff_exists.mp hsound.named
  have hrecords : Records s.ledger (extend s.ledger result.2 [event]) := by
    rcases record_cases outcome io s.ledger.db event with ⟨-, hresult⟩ | ⟨-, hresult⟩
    · have hdb : result.2 = s.ledger.db := congrArg Prod.snd hresult
      refine ⟨[], ?_, ?_, ?_⟩
      · rw [hdb, extend, insertedEvents_self]
      · rw [hdb]
        exact .refl _
      · rw [hdb]
        exact .of_clicks rfl
    · have hdb : result.2 = (recordClick io s.ledger.db event event.increment none).2 :=
        congrArg Prod.snd hresult
      rw [hdb]
      exact ⟨_, rfl, accounted_recordClick io s.ledger.db event.increment none hsound.timed,
        grows_recordClick io s.ledger.db event.increment none hsound.timed⟩
  have hcarry : Carry w s { s with
      ledger := extend s.ledger result.2 [event]
      requests := Function.update s.requests r (.recorded event result.1.1 result.1.2) } :=
    h.carry_store rfl (.inl rfl) hrecords
  apply h.carry hcarry
  · intro r' event' flight' hr'
    left
    by_cases hrr : r' = r
    · subst hrr
      simp at hr'
    · simpa [hrr] using hr'
  · intro r' event' hr'
    by_cases hrr : r' = r
    · subst hrr
      right
      simp only [Function.update_self, Request.recorded.injEq] at hr'
      obtain ⟨rfl, hok, herr⟩ := hr'
      refine ⟨hsound.named, ?_⟩
      rcases record_cases outcome io s.ledger.db event with ⟨rfl, -⟩ | ⟨-, hresult⟩
      · -- `Publish` returned nil, so the broker had accepted the message.
        simp only [published, Bool.and_eq_true, Option.any_eq_true] at hp
        obtain ⟨-, n, hn, ha⟩ := hp
        exact hcarry.kept event hsound.named (hsound.kept n hn ha)
      · left
        refine ⟨u, hu, ?_⟩
        have hfst : (recordClick io s.ledger.db event event.increment none).1 = (true, none) := by
          rw [← hresult]
          exact Prod.ext hok herr
        have hdb : result.2 = (recordClick io s.ledger.db event event.increment none).2 :=
          congrArg Prod.snd hresult
        change Stored result.2 u
        rw [hdb]
        exact stored_recordClick hsound.timed hfst hu
    · left
      simpa [hrr] using hr'

theorem Invariant.record {r : ℕ} {publisher : Bool} {increment : Bool} {issued : List ℕ}
    (h : Invariant w db s) (hnamed : (eventUuid event).isSome)
    (htimed : event.occurredAt.isZero = false) :
    Invariant w db { s with
      broker := (publish s publisher { event with increment := increment }).2
      issued := issued
      requests := Function.update s.requests r
        (.recording { event with increment := increment }
          (publish s publisher { event with increment := increment }).1) } := by
  generalize hevent : ({ event with increment := increment } : ClickEvent) = e
  have hnamed' : (eventUuid e).isSome := by
    rw [← hevent]
    exact hnamed
  have htimed' : e.occurredAt.isZero = false := by
    rw [← hevent]
    exact htimed
  have hcases : publish s publisher e = (none, s.broker) ∨ ∃ m, publishing e = some m ∧
      publish s publisher e = (some s.broker.flights.length, s.broker.send .clicks m) := by
    unfold publish
    cases publisher with
    | false => exact .inl rfl
    | true =>
      cases hm : publishing e with
      | none => exact .inl (by simp)
      | some m => exact .inr ⟨m, rfl, by simp⟩
  have hbroker : (publish s publisher e).2 = s.broker ∨
      ∃ q m, (publish s publisher e).2 = s.broker.send q m := by
    rcases hcases with heq | ⟨m, -, heq⟩
    · exact .inl (by rw [heq])
    · exact .inr ⟨.clicks, m, by rw [heq]⟩
  refine h.carry (h.carry_store rfl hbroker (.refl _)) ?_ ?_
  · intro r' event' flight' hr'
    by_cases hrr : r' = r
    · subst hrr
      right
      simp only [Function.update_self, Request.recording.injEq] at hr'
      obtain ⟨rfl, rfl⟩ := hr'
      rcases hcases with heq | ⟨m, hm, heq⟩
      · rw [heq]
        exact ⟨hnamed', htimed', nofun, nofun⟩
      · rw [heq]
        refine ⟨hnamed', htimed', ?_, ?_⟩
        · rintro n hn
          obtain rfl : s.broker.flights.length = n := Option.some.inj hn
          refine ⟨_, Broker.getElem?_send s.broker .clicks m, ?_⟩
          obtain ⟨body, hbody, rfl⟩ := Option.map_eq_some_iff.mp hm
          exact hbody
        · intro n hn ha
          obtain rfl : s.broker.flights.length = n := Option.some.inj hn
          have hnew :=
            (Broker.accepted_send s.broker .clicks m s.broker.flights.length).symm.trans ha
          rw [Broker.not_accepted_new] at hnew
          cases hnew
    · left
      simpa [hrr] using hr'
  · intro r' event' hr'
    left
    by_cases hrr : r' = r
    · subst hrr
      simp at hr'
    · simpa [hrr] using hr'

theorem invariant_next {publisher : Bool} {e : Event} (h : Invariant w db s)
    (hs : ClickPipeline.next publisher w s e = some s') : Invariant w db s' := by
  cases e with
  | record r event increment =>
    simp only [ClickPipeline.next] at hs
    split at hs
    · next u _ hu =>
      split at hs
      · cases hs
      · next hcond =>
        cases hs
        simp only [Bool.or_eq_true, not_or, Bool.not_eq_true] at hcond
        exact h.record (by rw [hu]; rfl) hcond.2
    · cases hs
  | returned r outcome io =>
    simp only [ClickPipeline.next] at hs
    split at hs
    · next event flight hr =>
      split at hs
      · next hp =>
        cases hs
        exact h.returned hr hp
      · cases hs
    · cases hs
  | accept n =>
    obtain ⟨b, hb, rfl⟩ := Option.map_eq_some_iff.mp hs
    exact h.carry_requests (h.carry_accept hb) rfl
  | deliver k i =>
    obtain ⟨⟨m, b⟩, hb, rfl⟩ := Option.map_eq_some_iff.mp hs
    exact h.deliver hb
  | expire q i =>
    obtain ⟨b, hb, rfl⟩ := Option.map_eq_some_iff.mp hs
    obtain ⟨hgrows, hflights⟩ := Broker.extends_expire hb
    refine h.carry_requests (h.carry_broker (h.broker.expire hb) hgrows hflights ?_ ?_) rfl
    · intro tag htag
      rwa [Broker.answers_expire hb] at htag
    · exact fun event hh => hh.expire hb
  | requeue tag =>
    obtain ⟨b, hb, rfl⟩ := Option.map_eq_some_iff.mp hs
    obtain ⟨hgrows, hflights⟩ := Broker.extends_requeue hb
    refine h.carry_requests (h.carry_broker (h.broker.requeue hb) hgrows hflights ?_ ?_) rfl
    · intro tag htag
      rwa [Broker.answers_requeue hb] at htag
    · exact fun event hh => hh.requeue hb
  | settle j =>
    obtain ⟨b, hb, rfl⟩ := Option.map_eq_some_iff.mp hs
    obtain ⟨hgrows, hflights⟩ := Broker.extends_settle hb
    refine h.carry_requests (h.carry_broker (h.broker.settle hb) hgrows hflights ?_ ?_) rfl
    · exact fun tag htag => Broker.answers_settle hb htag
    · exact fun event hh => hh.settle h.broker (fun tag htag => (h.answers tag htag).spent) hb
  | work k task =>
    simp only [ClickPipeline.next] at hs
    split at hs
    · obtain ⟨c, hm⟩ := moved_work (h.sessions k) hs
      exact h.carry_requests (h.carry_work hm) hm.requests
    · cases hs
  | edit op =>
    simp only [ClickPipeline.next] at hs
    split at hs
    · next hedit =>
      cases hs
      exact h.carry_requests (h.carry_store rfl (.inl rfl) (records_edit s.ledger hedit)) rfl
    · cases hs

theorem invariant_start (w : Worker) (db : Database) : Invariant w db (start db) := by
  refine ⟨Broker.sound_empty, fun _ => sessionSound_new w _, ?_, ?_, ?_, .refl _⟩
  · intro tag htag
    cases htag
  · intro r event flight hr
    cases hr
  · intro r event hr
    cases hr

end Steps

/-- The event is stored, or a copy of it is queued or awaits its answer. -/
def Parked (s : System) (event : ClickEvent) : Prop :=
  Persisted s.ledger.db event ∨
    (∃ q : Queue, ∃ m ∈ s.broker.queues q, Carries event m) ∨
    ∃ tag u, s.broker.unacked tag = some u ∧ Carries event u.message

theorem Kept.parked (h : Kept s event) : Parked s event := by
  rcases h with hp | hq | ⟨tag, u, hu, hc, -⟩
  · exact .inl hp
  · exact .inr (.inl hq)
  · exact .inr (.inr ⟨tag, u, hu, hc⟩)

/-- The rows and the counters against the events that made them: each event id has one row at
most, and moves one link's counter by one at most and one rollup counter by one. -/
structure Exact (db : Database) (s : System) : Prop where
  row_once : ∀ u, (s.ledger.db.clicks.rows.countP fun row => row.eventId = some u) ≤ 1
  inserted_once : ∀ u, (s.ledger.inserted.countP fun e => eventUuid e = some u) ≤ 1
  clicks : ∀ id row, s.ledger.db.link id = some row →
    row.clicks = ((db.link id).map LinkRow.clicks).getD 0 +
      s.ledger.inserted.countP fun e => e.linkId = id && e.increment
  rollups : ∀ key, s.ledger.db.rollup key = db.rollup key +
    s.ledger.inserted.countP fun e => rollupKey e e.occurredAt = some key

theorem Records.exact {db : Database} (h : Records ⟨db, []⟩ s.ledger) : Exact db s := by
  obtain ⟨events, hinserted, hacc, hgrows⟩ := h
  obtain rfl : events = s.ledger.inserted := by simpa using hinserted.symm
  refine ⟨fun u => rows_of_uuid_le_one _ u, fun u => hgrows.once u, ?_, hacc.rollup⟩
  intro id row hrow
  exact hacc.clicks id row.clicks (by rw [clicksOf, hrow]; rfl)

theorem invariant_execution {publisher : Bool} {db : Database} {es : List Event}
    (h : Execution (ClickPipeline.next publisher w) (start db) es s) : Invariant w db s :=
  h.invariant (invariant_start w db) fun _ _ _ hu => invariant_next hu

/-- A call that has returned does not run again. -/
theorem recorded_persists {publisher : Bool} {r : ℕ} {es : List Event} {ok : Bool}
    {err : Option Err} (h : Execution (ClickPipeline.next publisher w) s es s')
    (hr : s.requests r = .recorded event ok err) : s'.requests r = .recorded event ok err := by
  refine h.persists (P := fun u => u.requests r = .recorded event ok err) ?_ hr
  intro u e v hu hstep
  cases e with
  | record r' _ _ =>
    simp only [ClickPipeline.next] at hstep
    split at hstep
    · next hidle _ =>
      split at hstep
      · cases hstep
      · cases hstep
        have hne : r ≠ r' := by
          rintro rfl
          rw [hu] at hidle
          cases hidle
        simpa [hne] using hu
    · cases hstep
  | returned r' _ _ =>
    simp only [ClickPipeline.next] at hstep
    split at hstep
    · next hrecording =>
      split at hstep
      · cases hstep
        have hne : r ≠ r' := by
          rintro rfl
          rw [hu] at hrecording
          cases hrecording
        simpa [hne] using hu
      · cases hstep
    · cases hstep
  | work k task =>
    simp only [ClickPipeline.next] at hstep
    split at hstep
    · rw [requests_work hstep]
      exact hu
    · cases hstep
  | edit op =>
    simp only [ClickPipeline.next] at hstep
    split at hstep
    · cases hstep
      exact hu
    · cases hstep
  | _ =>
    obtain ⟨_, -, rfl⟩ := Option.map_eq_some_iff.mp hstep
    exact hu

/-- Clicks are counted once at most in every run, and what `Record` reported as recorded stays
stored or parked from then on. -/
theorem clicks_once_or_parked (publisher : Bool) (w : Worker) (db : Database) (es : List Event)
    (s : System) (h : Execution (ClickPipeline.next publisher w) (start db) es s) :
    Exact db s ∧ ∀ r event, s.requests r = .recorded event true none →
      ∀ fs t, Execution (ClickPipeline.next publisher w) s fs t → Parked t event := by
  have hinv := invariant_execution h
  refine ⟨hinv.ledger.exact, ?_⟩
  intro r event hr fs t hrun
  have hlater := invariant_execution (h.append hrun)
  exact (hlater.recorded r event (recorded_persists hrun hr)).2.parked

/-- The first click is stored by the fallback although the broker took it; its copy is recorded
again by a worker that crashes before the ack, and by a second one. The batch of the second
click fails once, and its retry copy comes back to the queue. -/
def ambiguousRun : List Event :=
  let first := sampleEvent (GoText.lit "aaaaaaaa-0000-4000-8000-000000000001") 1
  let second := sampleEvent (GoText.lit "aaaaaaaa-0000-4000-8000-000000000002") 1
  [.record 0 first true, .accept 0, .returned 0 (some false) {},
    .deliver 0 0, .work 0 .receive, .work 0 (.loop .closed), .work 0 (.recordClicks {}),
    .work 0 .crash, .requeue 0,
    .deliver 1 0, .work 1 .receive, .work 1 (.loop .closed), .work 1 (.recordClicks {}),
    .work 1 (.called true true), .settle 0,
    .record 1 second true, .accept 1, .returned 1 (some true) {},
    .deliver 2 0, .work 2 .receive, .work 2 (.loop .closed),
    .work 2 (.recordClicks { begin := some [] }), .work 2 .resend, .accept 2,
    .work 2 (.retried true), .work 2 (.called true true), .settle 0, .expire .retry 0]

def Request.accepted : Request → Option ClickEvent
  | .recorded event true none => some event
  | _ => none

theorem clicks_once_or_parked_ambiguous :
    ∃ s event, s.requests 1 = .recorded event true none ∧ Parked s event ∧
      Exact (Database.single sampleLink) s ∧ s.ledger.inserted.length = 1 ∧
      (s.broker.queues .clicks).length = 1 := by
  have hreplay : (replay (ClickPipeline.next true (AnalyticsWorker.NewWorker 2 0 5 true))
      (start (Database.single sampleLink)) ambiguousRun).map (fun s =>
        ((Request.accepted (s.requests 1)).isSome, s.ledger.inserted.length,
          (s.broker.queues .clicks).length)) = some (true, 1, 1) := by decide
  obtain ⟨s, hs, hsummary⟩ := Option.map_eq_some_iff.mp hreplay
  simp only [Prod.mk.injEq] at hsummary
  obtain ⟨hrequest, hinserted, hqueue⟩ := hsummary
  have hrecorded : ∃ event, s.requests 1 = .recorded event true none := by
    unfold Request.accepted at hrequest
    split at hrequest
    · next event heq => exact ⟨event, heq⟩
    · cases hrequest
  obtain ⟨event, hevent⟩ := hrecorded
  obtain ⟨hexact, hparked⟩ :=
    clicks_once_or_parked true _ _ ambiguousRun s (execution_of_replay hs)
  exact ⟨s, event, hevent, hparked 1 event hevent [] s (.refl s), hexact, hinserted, hqueue⟩

end ClickCustody
