import ShortQ.ClickPublisher

/-! # A nil result is a confirmation

The channel is shared and its confirmations carry no tag. Every exit of `Publish` that leaves a
confirmation behind also leaves the channel behind. -/
namespace PublisherConfirms

open ConfirmLine
open ClickWire
open LabelledRuns
open ClickPublisher

/-- The channel that the next call will use, if there is one, owes nothing. -/
def Rest (s : System) : Prop :=
  s.channel = none ∨
    ∃ c, s.channel = some c ∧ s.confirms = some c ∧ c < s.opened ∧ (s.lines c).Clear

/-- How often a call has called `PublishWithContext`. -/
def sends (log : List Sent) (r : ℕ) : ℕ := log.countP fun e => e.call = r

/-- The broker confirmed the message of the call. -/
def Confirmed (s : System) (r : ℕ) : Prop :=
  ∃ event message, s.asked r = some event ∧ publishing event = some message ∧
    ∃ e ∈ s.log, e.call = r ∧ e.message = message ∧ e.ok = true ∧
      (s.lines e.channel).Positive e.position

def holds : Call → Bool
  | .trying .. | .ready .. | .confirming .. | .closing => true
  | _ => false

/-- What is true of one call where it stands. -/
def Stands (s : System) (r : ℕ) : Call → Prop
  | .idle => sends s.log r = 0
  | .waiting message => sends s.log r = 0 ∧
      ∃ event, s.asked r = some event ∧ publishing event = some message
  | .trying attempt message | .ready attempt message =>
      sends s.log r < attempt ∧ attempt ≤ MaxConnectAttempts ∧
      (∀ e ∈ s.log, e.call = r → e.ok = false) ∧
      ∃ event, s.asked r = some event ∧ publishing event = some message
  | .confirming message c position =>
      s.channel = some c ∧ s.confirms = some c ∧ c < s.opened ∧ (s.lines c).taken = position ∧
      (s.lines c).published = position + 1 ∧ sends s.log r ≤ MaxConnectAttempts ∧
      (∃ event, s.asked r = some event ∧ publishing event = some message) ∧
      ∃ e ∈ s.log, e.call = r ∧ e.message = message ∧ e.ok = true ∧ e.channel = c ∧
        e.position = position
  | .returned err => sends s.log r ≤ MaxConnectAttempts ∧ (err = none → Confirmed s r)
  | .waitingClose | .closing | .closed => sends s.log r = 0

structure Invariant (s : System) : Prop where
  holder : ∀ r, holds (s.calls r) = true ↔ s.lock = some r
  stands : ∀ r, Stands s r (s.calls r)
  rest : (∀ r m c j, s.calls r ≠ .confirming m c j) → Rest s
  fresh : ∀ c, s.opened ≤ c → s.lines c = .fresh
  once : s.log.Pairwise fun e e' => e.ok = true → e'.call ≠ e.call

/-- What a step of another call leaves to a call. -/
structure Later (s t : System) (r : ℕ) : Prop where
  asked : t.asked r = s.asked r
  log : ∃ extra, t.log = s.log ++ extra ∧ ∀ e ∈ extra, e.call ≠ r
  positive : ∀ c j, (s.lines c).Positive j → (t.lines c).Positive j

/-- The connection and how far its confirmations were read are as before. -/
structure Untouched (s t : System) : Prop where
  channel : t.channel = s.channel
  confirms : t.confirms = s.confirms
  opened : t.opened = s.opened
  taken : ∀ c, (t.lines c).taken = (s.lines c).taken
  published : ∀ c, (t.lines c).published = (s.lines c).published

theorem sends_append {log extra : List Sent} {r : ℕ} (h : ∀ e ∈ extra, e.call ≠ r) :
    sends (log ++ extra) r = sends log r := by
  rw [sends, List.countP_append, sends]
  have hnone : extra.countP (fun e => e.call = r) = 0 := by
    rw [List.countP_eq_zero]
    intro e he
    simpa using h e he
  omega

theorem Later.confirmed {s t : System} {r : ℕ} (h : Later s t r) (hc : Confirmed s r) :
    Confirmed t r := by
  obtain ⟨event, message, hasked, hmessage, e, he, hcall, hsame, hok, hpositive⟩ := hc
  obtain ⟨extra, hlog, -⟩ := h.log
  refine ⟨event, message, h.asked.trans hasked, hmessage, e, ?_, hcall, hsame, hok,
    h.positive _ _ hpositive⟩
  rw [hlog]
  exact List.mem_append_left _ he

theorem Later.stands {s t : System} {r : ℕ} {c : Call} (h : Later s t r) (hc : Stands s r c)
    (hsame : (∃ m ch j, c = .confirming m ch j) → Untouched s t) : Stands t r c := by
  obtain ⟨extra, hlog, hextra⟩ := h.log
  have hsends : sends t.log r = sends s.log r := by rw [hlog, sends_append hextra]
  have hquiet : (∀ e ∈ s.log, e.call = r → e.ok = false) →
      ∀ e ∈ t.log, e.call = r → e.ok = false := by
    intro hs e he hcall
    rw [hlog] at he
    rcases List.mem_append.mp he with he | he
    · exact hs e he hcall
    · exact absurd hcall (hextra e he)
  cases c with
  | idle => exact hsends.trans hc
  | waiting message => exact ⟨hsends.trans hc.1, by rw [h.asked]; exact hc.2⟩
  | trying attempt message =>
    obtain ⟨hcount, hmax, hs, hevent⟩ := hc
    exact ⟨by omega, hmax, hquiet hs, by rw [h.asked]; exact hevent⟩
  | ready attempt message =>
    obtain ⟨hcount, hmax, hs, hevent⟩ := hc
    exact ⟨by omega, hmax, hquiet hs, by rw [h.asked]; exact hevent⟩
  | confirming message ch position =>
    have hu := hsame ⟨message, ch, position, rfl⟩
    obtain ⟨hchannel, hconfirms, hopened, htaken, hpublished, hcount, hevent, e, he, hrest⟩ := hc
    refine ⟨hu.channel.trans hchannel, hu.confirms.trans hconfirms, ?_,
      (hu.taken ch).trans htaken, (hu.published ch).trans hpublished, by omega, ?_, e, ?_, hrest⟩
    · rw [hu.opened]
      exact hopened
    · rw [h.asked]
      exact hevent
    · rw [hlog]
      exact List.mem_append_left _ he
  | returned err => exact ⟨by have := hc.1; omega, fun herr => h.confirmed (hc.2 herr)⟩
  | waitingClose => exact hsends.trans hc
  | closing => exact hsends.trans hc
  | closed => exact hsends.trans hc

theorem Untouched.rest {s t : System} (h : Untouched s t) (hs : Rest s) : Rest t := by
  rcases hs with hnone | ⟨c, hchannel, hconfirms, hopened, hclear⟩
  · exact .inl (h.channel.trans hnone)
  · refine .inr ⟨c, h.channel.trans hchannel, h.confirms.trans hconfirms, ?_, ?_⟩
    · rw [h.opened]
      exact hopened
    · rw [Line.Clear, h.taken, h.published]
      exact hclear

theorem not_confirming {c : Call} (h : holds c = false) (m : Publishing) (ch j : ℕ) :
    c ≠ .confirming m ch j := by
  rintro rfl
  cases h

/-- A step of a call that does not hold the lock before or after. -/
theorem Invariant.outside {s : System} (h : Invariant s) {r : ℕ} {c : Call}
    (asked : ℕ → Option Models.ClickEvent) (hbefore : holds (s.calls r) = false)
    (hafter : holds c = false) (hasked : ∀ r', r' ≠ r → asked r' = s.asked r')
    (hstands : Stands { s.set r c with asked := asked } r c) :
    Invariant { s.set r c with asked := asked } := by
  have hlock : s.lock ≠ some r := by
    intro hr
    rw [(h.holder r).mpr hr] at hbefore
    cases hbefore
  have hsame : Untouched s { s.set r c with asked := asked } :=
    ⟨rfl, rfl, rfl, fun _ => rfl, fun _ => rfl⟩
  constructor
  · intro r'
    by_cases hr : r' = r
    · subst hr
      simp [System.set, hafter, hlock]
    · simpa [System.set, Function.update_of_ne hr] using h.holder r'
  · intro r'
    by_cases hr : r' = r
    · subst hr
      simpa [System.set] using hstands
    · have hlater : Later s { s.set r c with asked := asked } r' :=
        ⟨hasked r' hr, ⟨[], by simp [System.set], by simp⟩, fun _ _ hp => hp⟩
      simpa [System.set, Function.update_of_ne hr] using
        hlater.stands (h.stands r') fun _ => hsame
  · intro hnone
    apply hsame.rest
    apply h.rest
    intro r' m ch j
    by_cases hr : r' = r
    · subst hr
      exact not_confirming hbefore m ch j
    · have hr' := hnone r' m ch j
      simpa [System.set, Function.update_of_ne hr] using hr'
  · exact h.fresh
  · exact h.once

/-- A step of the call that holds the lock, takes it or gives it back. -/
theorem Invariant.inside {s t : System} (h : Invariant s) {r : ℕ} {c : Call}
    (hcalls : t.calls = Function.update s.calls r c)
    (hbefore : s.lock = some r ∨ s.lock = none) (hafter : t.lock = some r ∨ t.lock = none)
    (hholds : holds c = true ↔ t.lock = some r) (hlater : ∀ r', r' ≠ r → Later s t r')
    (hstands : Stands t r c) (hrest : (∀ m ch j, c ≠ .confirming m ch j) → Rest t)
    (hfresh : ∀ c, t.opened ≤ c → t.lines c = .fresh)
    (honce : t.log.Pairwise fun e e' => e.ok = true → e'.call ≠ e.call) : Invariant t := by
  have hother : ∀ r', r' ≠ r → holds (s.calls r') = false := by
    intro r' hr
    rw [Bool.eq_false_iff, ne_eq, h.holder r']
    rcases hbefore with hs | hs
    · rw [hs]
      simpa using Ne.symm hr
    · rw [hs]
      simp
  constructor
  · intro r'
    by_cases hr : r' = r
    · subst hr
      rw [hcalls, Function.update_self]
      exact hholds
    · rw [hcalls, Function.update_of_ne hr, hother r' hr]
      rcases hafter with ht | ht
      · rw [ht]
        simpa using Ne.symm hr
      · rw [ht]
        simp
  · intro r'
    by_cases hr : r' = r
    · subst hr
      rw [hcalls, Function.update_self]
      exact hstands
    · rw [hcalls, Function.update_of_ne hr]
      apply (hlater r' hr).stands (h.stands r')
      rintro ⟨m, ch, j, heq⟩
      exact absurd heq (not_confirming (hother r' hr) m ch j)
  · intro hnone
    apply hrest
    intro m ch j
    have hr := hnone r m ch j
    rwa [hcalls, Function.update_self] at hr
  · exact hfresh
  · exact honce

theorem rest_reset (s : System) : Rest s.reset := .inl rfl

/-- A step that leaves the log and the lines alone. -/
theorem later_of_eq {s t : System}
    (h : t.asked = s.asked ∧ t.log = s.log ∧ t.lines = s.lines) (r : ℕ) : Later s t r := by
  obtain ⟨hasked, hlog, hlines⟩ := h
  refine ⟨by rw [hasked], ⟨[], by simp [hlog], by simp⟩, ?_⟩
  intro c j hp
  rw [hlines]
  exact hp

theorem lock_of_holds {s : System} (h : Invariant s) {r : ℕ} {c : Call} (hc : s.calls r = c)
    (hholds : holds c = true) : s.lock = some r := by
  rw [← h.holder r, hc]
  exact hholds

theorem invariant_start : Invariant start := by
  refine ⟨?_, ?_, fun _ => .inl rfl, fun _ _ => rfl, List.Pairwise.nil⟩
  · intro r
    simp [start, holds]
  · intro r
    rfl

theorem invariant_publish {s t : System} {r : ℕ} {event : Models.ClickEvent} (h : Invariant s)
    (hstep : next s (.publish r event) = some t) : Invariant t := by
  simp only [next] at hstep
  split at hstep
  · next hc =>
    have hbefore : holds (s.calls r) = false := by rw [hc]; rfl
    have hsends : sends s.log r = 0 := by
      have hstands := h.stands r
      rw [hc] at hstands
      exact hstands
    have hasked : ∀ r', r' ≠ r → Function.update s.asked r (some event) r' = s.asked r' :=
      fun r' hr => Function.update_of_ne hr _ _
    split at hstep
    · cases hstep
      refine h.outside (c := .returned (some .marshal)) _ hbefore rfl hasked ⟨?_, nofun⟩
      change sends s.log r ≤ MaxConnectAttempts
      omega
    · next message hmessage =>
      cases hstep
      refine h.outside (c := .waiting message) _ hbefore rfl hasked ⟨hsends, event, ?_, hmessage⟩
      exact Function.update_self _ _ _
  · cases hstep

theorem invariant_close {s t : System} {r : ℕ} (h : Invariant s)
    (hstep : next s (.close r) = some t) : Invariant t := by
  simp only [next] at hstep
  split at hstep
  · next hc =>
    cases hstep
    have hstands := h.stands r
    rw [hc] at hstands
    exact h.outside s.asked (by rw [hc]; rfl) rfl (fun _ _ => rfl) hstands
  · cases hstep

theorem invariant_giveUp {s t : System} {r : ℕ} (h : Invariant s)
    (hstep : next s (.giveUp r) = some t) : Invariant t := by
  simp only [next] at hstep
  split at hstep
  · next message hc =>
    split at hstep
    · cases hstep
      have hstands := h.stands r
      rw [hc] at hstands
      refine h.outside (c := .returned (some .wait)) s.asked (by rw [hc]; rfl) rfl
        (fun _ _ => rfl) ⟨?_, nofun⟩
      change sends s.log r ≤ MaxConnectAttempts
      rw [hstands.1]
      exact Nat.zero_le _
    · cases hstep
  · cases hstep

/-- With the lock free no call is at its confirmation, so the channel rests. -/
theorem rest_of_unlocked {s : System} (h : Invariant s) (hlock : s.lock = none) : Rest s := by
  apply h.rest
  intro r m c j hc
  have hr := lock_of_holds h hc rfl
  rw [hlock] at hr
  cases hr

theorem rest_of_holder {s : System} (h : Invariant s) {r : ℕ} (hlock : s.lock = some r)
    (hc : ∀ m c j, s.calls r ≠ .confirming m c j) : Rest s := by
  apply h.rest
  intro r' m c j hc'
  have hr := lock_of_holds h hc' rfl
  rw [hlock] at hr
  cases hr
  exact hc m c j hc'

theorem invariant_acquire {s t : System} {r : ℕ} (h : Invariant s)
    (hstep : next s (.acquire r) = some t) : Invariant t := by
  simp only [next] at hstep
  split at hstep
  · next message hlock hc =>
    cases hstep
    have hrest := rest_of_unlocked h hlock
    have hstands := h.stands r
    rw [hc] at hstands
    refine h.inside (c := .trying 1 message) rfl (.inr hlock) (.inl rfl) (by simp [holds]) ?_
      ⟨?_, by decide, ?_, hstands.2⟩ (fun _ => hrest) h.fresh h.once
    · intro r' _
      apply later_of_eq
      exact ⟨rfl, rfl, rfl⟩
    · change sends s.log r < 1
      rw [hstands.1]
      exact Nat.zero_lt_one
    · -- A call without a send has no entry in the log.
      intro e he hcall
      have hzero := List.countP_eq_zero.mp hstands.1 e he
      simp [hcall] at hzero
  · next hlock hc =>
    cases hstep
    have hrest := rest_of_unlocked h hlock
    have hstands := h.stands r
    rw [hc] at hstands
    refine h.inside (c := .closing) rfl (.inr hlock) (.inl rfl) (by simp [holds]) ?_ hstands
      (fun _ => hrest) h.fresh h.once
    intro r' _
    apply later_of_eq
    exact ⟨rfl, rfl, rfl⟩
  · cases hstep

/-- A failed attempt of the holder: the call tries once more or returns. -/
theorem Invariant.again {s t : System} (h : Invariant s) {r attempt : ℕ} {message : Publishing}
    {err : PublishError} (hlock : s.lock = some r) (ht : t.lock = some r)
    (hcalls : t.calls = s.calls) (hrest : Rest t) (hlater : ∀ r', r' ≠ r → Later s t r')
    (hattempt : attempt ≤ MaxConnectAttempts) (hsends : sends t.log r ≤ attempt)
    (hquiet : ∀ e ∈ t.log, e.call = r → e.ok = false)
    (hasked : ∃ event, t.asked r = some event ∧ publishing event = some message)
    (hfresh : ∀ c, t.opened ≤ c → t.lines c = .fresh)
    (honce : t.log.Pairwise fun e e' => e.ok = true → e'.call ≠ e.call) :
    Invariant (t.again r attempt message err) := by
  by_cases hover : (t.expired r || decide (attempt = MaxConnectAttempts)) = true
  · rw [System.again, if_pos hover]
    refine h.inside (c := .returned (some err)) (by rw [← hcalls]; rfl) (.inl hlock) (.inr rfl)
      (by simp [holds, System.finish]) ?_ ⟨?_, nofun⟩ (fun _ => hrest) hfresh honce
    · intro r' hr
      have hl := hlater r' hr
      exact ⟨hl.asked, hl.log, hl.positive⟩
    · exact Nat.le_trans hsends hattempt
  · rw [System.again, if_neg hover]
    have hless : attempt < MaxConnectAttempts := by
      simp only [Bool.or_eq_true, decide_eq_true_eq, not_or] at hover
      omega
    refine h.inside (c := .trying (attempt + 1) message) (by rw [← hcalls]; rfl) (.inl hlock)
      (.inl ht) (by simp [holds, System.set, ht]) ?_ ⟨?_, hless, hquiet, hasked⟩ (fun _ => hrest)
      hfresh honce
    · intro r' hr
      have hl := hlater r' hr
      exact ⟨hl.asked, hl.log, hl.positive⟩
    · exact Nat.lt_succ_of_le hsends

theorem ensureChannel_cases {s t : System} {connect : Connect}
    (h : ensureChannel s connect = some t) :
    (s.channel ≠ none ∧ t = s) ∨ (s.channel = none ∧ t = { s with
      conn := some s.opened, channel := some s.opened, confirms := some s.opened
      opened := s.opened + 1 }) := by
  simp only [ensureChannel] at h
  split at h
  · next c hc =>
    cases h
    exact .inl ⟨by simp [hc], rfl⟩
  · next hc =>
    split at h <;> cases h
    exact .inr ⟨hc, rfl⟩

theorem invariant_ensure {s t : System} {r : ℕ} {connect : Connect} (h : Invariant s)
    (hstep : next s (.ensure r connect) = some t) : Invariant t := by
  simp only [next] at hstep
  split at hstep
  · next attempt message hc =>
    have hlock := lock_of_holds h hc rfl
    have hrest := rest_of_holder h hlock (by rw [hc]; nofun)
    have hstands := h.stands r
    rw [hc] at hstands
    obtain ⟨hsends, hattempt, hquiet, hasked⟩ := hstands
    split at hstep
    · next u hu =>
      cases hstep
      rcases ensureChannel_cases hu with ⟨-, rfl⟩ | ⟨-, rfl⟩
      · refine h.inside (c := .ready attempt message) rfl (.inl hlock) (.inl hlock)
          (by simp [holds, System.set, hlock]) ?_ ⟨hsends, hattempt, hquiet, hasked⟩
          (fun _ => hrest) h.fresh h.once
        intro r' _
        apply later_of_eq
        exact ⟨rfl, rfl, rfl⟩
      · refine h.inside (c := .ready attempt message) rfl (.inl hlock) (.inl hlock)
          (by simp [holds, System.set, hlock]) ?_ ⟨hsends, hattempt, hquiet, hasked⟩ ?_ ?_ h.once
        · intro r' _
          apply later_of_eq
          exact ⟨rfl, rfl, rfl⟩
        · -- The new channel has seen no publish.
          intro _
          refine .inr ⟨s.opened, rfl, rfl, Nat.lt_succ_self _, ?_⟩
          change (s.lines s.opened).Clear
          rw [h.fresh s.opened (Nat.le_refl _)]
          rfl
        · intro c hopened
          exact h.fresh c (Nat.le_of_succ_le hopened)
    · cases hstep
      refine h.again (t := s.reset) hlock hlock rfl (rest_reset s) ?_ hattempt
        (Nat.le_of_lt hsends) hquiet hasked h.fresh h.once
      intro r' _
      apply later_of_eq
      exact ⟨rfl, rfl, rfl⟩
  · cases hstep

theorem positive_update {lines : ℕ → Line} {c : ℕ} {line : Line}
    (h : ∀ j, (lines c).Positive j → line.Positive j) (c' j : ℕ)
    (hp : (lines c').Positive j) : (Function.update lines c line c').Positive j := by
  by_cases hc : c' = c
  · subst hc
    rw [Function.update_self]
    exact h j hp
  · rw [Function.update_of_ne hc]
    exact hp

theorem fresh_update {s : System} (h : Invariant s) {c : ℕ} (hc : c < s.opened) (line : Line)
    (c' : ℕ) (hc' : s.opened ≤ c') : Function.update s.lines c line c' = .fresh := by
  rw [Function.update_of_ne (by omega)]
  exact h.fresh c' hc'

theorem once_snoc {log : List Sent} (h : log.Pairwise fun e e' => e.ok = true → e'.call ≠ e.call)
    {e' : Sent} (hquiet : ∀ e ∈ log, e.call = e'.call → e.ok = false) :
    (log ++ [e']).Pairwise fun e e' => e.ok = true → e'.call ≠ e.call := by
  rw [List.pairwise_append]
  refine ⟨h, List.pairwise_singleton _ _, ?_⟩
  intro e he e'' he'' hok heq
  obtain rfl := List.mem_singleton.mp he''
  rw [hquiet e he heq.symm] at hok
  cases hok

theorem sends_snoc (log : List Sent) {r : ℕ} {e : Sent} (he : e.call = r) :
    sends (log ++ [e]) r = sends log r + 1 := by
  simp [sends, List.countP_append, he]

theorem invariant_send {s t : System} {r : ℕ} {ok sent : Bool} (h : Invariant s)
    (hstep : next s (.send r ok sent) = some t) : Invariant t := by
  simp only [next] at hstep
  split at hstep
  · next attempt message hc =>
    have hlock := lock_of_holds h hc rfl
    have hrest := rest_of_holder h hlock (by rw [hc]; nofun)
    have hstands := h.stands r
    rw [hc] at hstands
    obtain ⟨hsends, hattempt, hquiet, hasked⟩ := hstands
    simp only [sendOn] at hstep
    split at hstep
    · cases hstep
    · next c hchannel =>
      rcases hrest with hnone | ⟨c', hc', hconfirms, hopened, hclear⟩
      · rw [hchannel] at hnone
        cases hnone
      obtain rfl : c = c' := by
        rw [hchannel] at hc'
        exact Option.some.inj hc'
      cases ok with
      | true =>
        simp only [Bool.true_or, if_true] at hstep
        split at hstep
        · cases hstep
        · cases hstep
          refine h.inside (c := .confirming message c (s.lines c).published) rfl (.inl hlock)
            (.inl hlock) (by simp [holds, System.set, hlock]) ?_
            ⟨hchannel, hconfirms, hopened, ?_, ?_, ?_, hasked, _,
              List.mem_append_right _ List.mem_cons_self, rfl, rfl, rfl, rfl, rfl⟩
            (fun hnot => absurd rfl (hnot _ _ _)) (fresh_update h hopened _)
            (once_snoc h.once hquiet)
          · intro r' hr
            refine ⟨rfl, ⟨_, rfl, ?_⟩, positive_update fun _ => Line.publish_positive⟩
            intro e he
            obtain rfl := List.mem_singleton.mp he
            exact Ne.symm hr
          · change (Function.update s.lines c (s.lines c).publish c).taken = _
            rw [Function.update_self]
            exact hclear
          · change (Function.update s.lines c (s.lines c).publish c).published = _
            rw [Function.update_self]
            rfl
          · change sends (s.log ++ [Sent.mk r message c (s.lines c).published true]) r ≤ _
            rw [sends_snoc (r := r) _ rfl]
            omega
      | false =>
        simp only [Bool.false_or, Bool.false_eq_true, if_false, Option.some.injEq] at hstep
        subst hstep
        refine h.again hlock hlock rfl (rest_reset _) ?_ hattempt ?_ ?_ hasked ?_
          (once_snoc h.once hquiet)
        · intro r' hr
          refine ⟨rfl, ⟨_, rfl, ?_⟩, ?_⟩
          · intro e he
            obtain rfl := List.mem_singleton.mp he
            exact Ne.symm hr
          · intro c' j hp
            change (if sent = true then _ else _ : ℕ → Line) c' |>.Positive j
            split
            · exact positive_update (fun _ => Line.publish_positive) c' j hp
            · exact hp
        · change sends (s.log ++ [Sent.mk r message c (s.lines c).published false]) r ≤ _
          rw [sends_snoc (r := r) _ rfl]
          exact hsends
        · intro e he hcall
          rcases List.mem_append.mp he with he | he
          · exact hquiet e he hcall
          · rw [List.mem_singleton.mp he]
        · intro c' hc'
          change (if sent = true then _ else _ : ℕ → Line) c' = .fresh
          split
          · exact fresh_update h hopened _ c' hc'
          · exact h.fresh c' hc'
  · cases hstep

/-- The holder returns an error and drops the connection. -/
theorem Invariant.abort {s t : System} (h : Invariant s) {r : ℕ} {err : PublishError}
    (hlock : s.lock = some r) (hcalls : t.calls = s.calls) (hlater : ∀ r', Later s t r')
    (hsends : sends t.log r ≤ MaxConnectAttempts)
    (hfresh : ∀ c, t.opened ≤ c → t.lines c = .fresh)
    (honce : t.log.Pairwise fun e e' => e.ok = true → e'.call ≠ e.call) :
    Invariant (t.reset.finish r (.returned (some err))) := by
  refine h.inside (c := .returned (some err)) (by rw [← hcalls]; rfl) (.inl hlock) (.inr rfl)
    (by simp [holds, System.finish]) ?_ ⟨hsends, nofun⟩ (fun _ => rest_reset t) hfresh honce
  intro r' _
  have hl := hlater r'
  exact ⟨hl.asked, hl.log, hl.positive⟩

theorem invariant_receive {s t : System} {r : ℕ} (h : Invariant s)
    (hstep : next s (.receive r) = some t) : Invariant t := by
  simp only [next] at hstep
  split at hstep
  · next message ch j c hc hconfirms =>
    have hlock := lock_of_holds h hc rfl
    have hstands := h.stands r
    rw [hc] at hstands
    obtain ⟨hchannel, hconfirms', hopened, htaken, hpublished, hsends, ⟨event, hasked, hmessage⟩,
      e, he, hcall, hsame, hok, hech, hej⟩ := hstands
    obtain rfl : ch = c := by
      rw [hconfirms] at hconfirms'
      exact (Option.some.inj hconfirms').symm
    split at hstep
    · cases hstep
    · next ack line hline =>
      obtain ⟨hclear, hanswer⟩ := Line.take_own (by omega) hline
      have hlater : ∀ r', Later s { s with lines := Function.update s.lines ch line } r' :=
        fun r' => ⟨rfl, ⟨[], by simp, by simp⟩, positive_update fun _ => Line.take_positive hline⟩
      cases ack with
      | true =>
        simp only [if_true, Option.some.injEq] at hstep
        subst hstep
        refine h.inside (c := .returned none) rfl (.inl hlock) (.inr rfl)
          (by simp [holds, System.finish]) ?_
          ⟨hsends, fun _ => ⟨event, message, hasked, hmessage, e, he, hcall, hsame, hok, ?_⟩⟩ ?_
          (fresh_update h hopened line) h.once
        · intro r' _
          have hl := hlater r'
          exact ⟨hl.asked, hl.log, hl.positive⟩
        · change (Function.update s.lines ch line e.channel).Positive e.position
          rw [hech, hej, Function.update_self, Line.Positive]
          rw [hpublished, Nat.add_sub_cancel] at hanswer
          exact hanswer
        · intro _
          refine .inr ⟨ch, hchannel, hconfirms, hopened, ?_⟩
          change (Function.update s.lines ch line ch).Clear
          rw [Function.update_self]
          exact hclear
      | false =>
        simp only [Bool.false_eq_true, if_false, Option.some.injEq] at hstep
        subst hstep
        exact h.abort hlock rfl hlater hsends (fresh_update h hopened line) h.once
  · cases hstep

theorem invariant_confirm {s : System} {c : ℕ} {ack : Bool} {line : Line} (h : Invariant s)
    (hline : (s.lines c).answer ack = some line) :
    Invariant { s with lines := Function.update s.lines c line } := by
  obtain ⟨hpublished, -, htaken⟩ := Line.answer_eq_some hline
  have hopened : c < s.opened := by
    by_contra hnew
    rw [h.fresh c (by omega)] at hline
    cases hline
  have hsame : Untouched s { s with lines := Function.update s.lines c line } := by
    refine ⟨rfl, rfl, rfl, ?_, ?_⟩
    · intro c'
      by_cases hc : c' = c
      · subst hc
        simpa using htaken
      · simp [Function.update_of_ne hc]
    · intro c'
      by_cases hc : c' = c
      · subst hc
        simpa using hpublished
      · simp [Function.update_of_ne hc]
  refine ⟨h.holder, ?_, fun hnone => hsame.rest (h.rest hnone), fresh_update h hopened line,
    h.once⟩
  intro r
  have hlater : Later s { s with lines := Function.update s.lines c line } r :=
    ⟨rfl, ⟨[], by simp, by simp⟩, positive_update fun _ => Line.answer_positive hline⟩
  exact hlater.stands (h.stands r) fun _ => hsame

theorem invariant_next {s t : System} {e : Event} (h : Invariant s)
    (hstep : next s e = some t) : Invariant t := by
  cases e with
  | publish r event => exact invariant_publish h hstep
  | close r => exact invariant_close h hstep
  | expire r =>
    cases hstep
    exact ⟨h.holder, h.stands, h.rest, h.fresh, h.once⟩
  | acquire r => exact invariant_acquire h hstep
  | giveUp r => exact invariant_giveUp h hstep
  | ensure r connect => exact invariant_ensure h hstep
  | send r ok sent => exact invariant_send h hstep
  | receive r => exact invariant_receive h hstep
  | receiveClosed r =>
    simp only [next] at hstep
    split at hstep
    · next hc _ =>
      split at hstep
      · cases hstep
        have hstands := h.stands r
        rw [hc] at hstands
        refine h.abort (t := s) (lock_of_holds h hc rfl) rfl ?_ hstands.2.2.2.2.2.1 h.fresh h.once
        intro r'
        apply later_of_eq
        exact ⟨rfl, rfl, rfl⟩
      · cases hstep
    · cases hstep
  | timeout r =>
    simp only [next] at hstep
    split at hstep
    · next hc =>
      split at hstep
      · cases hstep
        have hstands := h.stands r
        rw [hc] at hstands
        refine h.abort (t := s) (lock_of_holds h hc rfl) rfl ?_ hstands.2.2.2.2.2.1 h.fresh h.once
        intro r'
        apply later_of_eq
        exact ⟨rfl, rfl, rfl⟩
      · cases hstep
    · cases hstep
  | disconnect r =>
    simp only [next] at hstep
    split at hstep
    · next hc =>
      cases hstep
      have hstands := h.stands r
      rw [hc] at hstands
      refine h.inside (c := .closed) rfl (.inl (lock_of_holds h hc rfl)) (.inr rfl)
        (by simp [holds, System.finish]) ?_ hstands (fun _ => rest_reset s) h.fresh h.once
      intro r' _
      apply later_of_eq
      exact ⟨rfl, rfl, rfl⟩
    · cases hstep
  | confirm c ack =>
    simp only [next] at hstep
    split at hstep
    · cases hstep
    · obtain ⟨line, hline, rfl⟩ := Option.map_eq_some_iff.mp hstep
      exact invariant_confirm h hline
  | drop c =>
    cases hstep
    exact ⟨h.holder, h.stands, h.rest, h.fresh, h.once⟩

/-- What holds of the publisher whatever its calls and the broker do. -/
structure Safe (s : System) : Prop where
  /-- A nil result stands for a confirmation of the call's own message. -/
  confirmed : ∀ r, s.calls r = .returned none → Confirmed s r
  rest : s.lock = none → Rest s
  bounded : ∀ r, sends s.log r ≤ MaxConnectAttempts
  /-- After a `PublishWithContext` that returned nil the call publishes no more. -/
  last : ∀ before e after, s.log = before ++ e :: after → e.ok = true →
    ∀ e' ∈ after, e'.call ≠ e.call

theorem safe_of_invariant {s : System} (h : Invariant s) : Safe s := by
  constructor
  · intro r hr
    have hstands := h.stands r
    rw [hr] at hstands
    exact hstands.2 rfl
  · exact rest_of_unlocked h
  · intro r
    have hstands := h.stands r
    cases hc : s.calls r <;> rw [hc] at hstands
    case idle | waitingClose | closing | closed =>
      rw [Stands] at hstands
      omega
    case waiting =>
      rw [hstands.1]
      exact Nat.zero_le _
    case trying | ready => exact Nat.le_trans (Nat.le_of_lt hstands.1) hstands.2.1
    case confirming => exact hstands.2.2.2.2.2.1
    case returned => exact hstands.1
  · intro before e after hlog hok e' he'
    have honce := h.once
    rw [hlog, List.pairwise_append] at honce
    exact (List.pairwise_cons.mp honce.2.1).1 e' he' hok

theorem publish_nil_means_confirmed (es : List Event) (s : System)
    (h : Execution next start es s) : Safe s := by
  apply safe_of_invariant
  apply h.invariant invariant_start
  exact fun _ _ _ hu hstep => invariant_next hu hstep

/-- A first call gives up on its confirmation, which then comes late; a second call publishes
on a new channel, after one failed dial. -/
def lateConfirmation : List Event :=
  [.publish 0 (sampleEvent (GoText.lit "aaaaaaaa-0000-4000-8000-000000000001") 1), .acquire 0,
    .ensure 0 .connected, .send 0 true true, .expire 0, .confirm 0 true, .timeout 0,
    .publish 1 (sampleEvent (GoText.lit "aaaaaaaa-0000-4000-8000-000000000002") 1), .acquire 1,
    .ensure 1 .dialFailed, .ensure 1 .connected, .send 1 true true, .confirm 1 true, .receive 1]

def isNil (c : Call) : Bool :=
  match c with
  | .returned none => true
  | _ => false

theorem publish_nil_means_confirmed_late :
    ∃ s, isNil (s.calls 1) = true ∧ isNil (s.calls 0) = false ∧ s.channel = some 1 ∧ Safe s := by
  have hreplay : (replay next start lateConfirmation).map (fun s =>
      (isNil (s.calls 1), isNil (s.calls 0), s.channel)) = some (true, false, some 1) := by
    decide
  obtain ⟨s, hs, hsummary⟩ := Option.map_eq_some_iff.mp hreplay
  simp only [Prod.mk.injEq] at hsummary
  exact ⟨s, hsummary.1, hsummary.2.1, hsummary.2.2,
    publish_nil_means_confirmed lateConfirmation s (execution_of_replay hs)⟩

end PublisherConfirms
