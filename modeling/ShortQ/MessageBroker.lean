import Mathlib.Data.Nat.Notation
import Mathlib.Logic.Function.Basic
import Mathlib.Tactic.Common

/-! # A message broker with acknowledgements

Queues of messages, publishes that may or may not have reached them, deliveries that await an
answer, and answers on their way back. Nothing but an acknowledgement takes a message out. -/
namespace MessageBroker

variable {Q M : Type*}

/-- A publish that was sent. Its sender may never learn whether it was accepted. -/
structure Flight (Q M : Type*) where
  queue : Q
  message : M
  accepted : Bool

/-- A delivery that was not answered, with the queue it is taken from. -/
structure Unacked (Q M : Type*) where
  queue : Q
  message : M

inductive Answer where
  | ack | requeue | reject
  deriving DecidableEq, Repr

/-- A delivery is known by its tag; tags are not used twice. -/
structure Broker (Q M : Type*) where
  flights : List (Flight Q M)
  queues : Q → List M
  unacked : ℕ → Option (Unacked Q M)
  answers : List (Answer × ℕ)
  nextTag : ℕ

namespace Broker

def empty : Broker Q M := ⟨[], fun _ => [], fun _ => none, [], 0⟩

def send (b : Broker Q M) (q : Q) (m : M) : Broker Q M :=
  { b with flights := b.flights ++ [⟨q, m, false⟩] }

def accepted (b : Broker Q M) (n : ℕ) : Bool := b.flights[n]?.any Flight.accepted

def forget (b : Broker Q M) (tag : ℕ) : Broker Q M :=
  { b with unacked := Function.update b.unacked tag none }

def answer (b : Broker Q M) (kind : Answer) (tag : ℕ) : Broker Q M :=
  { b with answers := b.answers ++ [(kind, tag)] }

/-- A message with the property is queued, or out under a tag that is not spent. -/
def Holds (b : Broker Q M) (P : M → Prop) (spent : ℕ → Prop) : Prop :=
  (∃ q, ∃ m ∈ b.queues q, P m) ∨ ∃ tag u, b.unacked tag = some u ∧ P u.message ∧ ¬ spent tag

/-- Tags in use were given out, and come with the queue they were given out for. -/
structure Sound (deadLetter : Q → Option Q) (b : Broker Q M) : Prop where
  issued : ∀ tag, b.nextTag ≤ tag → b.unacked tag = none
  routed : ∀ tag u, b.unacked tag = some u → (deadLetter u.queue).isSome

/-- What a party may rely on as the broker moves on: a tag never comes to stand for another
message, nor a flight. -/
structure Extends (b b' : Broker Q M) : Prop where
  tags : b.nextTag ≤ b'.nextTag
  known : ∀ tag u, tag < b.nextTag → b'.unacked tag = some u → b.unacked tag = some u
  sent : ∀ (n : ℕ) (f : Flight Q M), b.flights[n]? = some f →
    ∃ f' : Flight Q M, b'.flights[n]? = some f' ∧ f'.message = f.message

variable {b b' : Broker Q M} {P : M → Prop} {spent : ℕ → Prop} {deadLetter : Q → Option Q}

theorem Holds.mono {spent' : ℕ → Prop} (h : b.Holds P spent)
    (hsub : ∀ tag u, b.unacked tag = some u → P u.message → spent' tag → spent tag) :
    b.Holds P spent' := by
  rcases h with hq | ⟨tag, u, hu, hp, hfree⟩
  · exact .inl hq
  · exact .inr ⟨tag, u, hu, hp, fun h => hfree (hsub tag u hu hp h)⟩

/-- Only the queues and the deliveries count. -/
theorem Holds.congr (h : b.Holds P spent) (hq : b'.queues = b.queues)
    (hu : b'.unacked = b.unacked) : b'.Holds P spent := by
  unfold Holds
  rw [hq, hu]
  exact h

theorem Holds.forget {tag : ℕ} (h : b.Holds P spent) (hspent : spent tag) :
    (b.forget tag).Holds P spent := by
  rcases h with hq | ⟨tag', u', hu', hp, hfree⟩
  · exact .inl hq
  · have ht : tag' ≠ tag := by
      rintro rfl
      exact hfree hspent
    refine .inr ⟨tag', u', ?_, hp, hfree⟩
    simpa [Broker.forget, ht] using hu'

theorem sound_empty : Sound deadLetter (empty : Broker Q M) :=
  ⟨fun _ _ => rfl, nofun⟩

theorem Sound.congr (h : Sound deadLetter b) (hu : b'.unacked = b.unacked)
    (ht : b'.nextTag = b.nextTag) : Sound deadLetter b' := by
  refine ⟨?_, ?_⟩
  · rw [hu, ht]
    exact h.issued
  · rw [hu]
    exact h.routed

theorem unacked_of_forget {tag t : ℕ} {u : Unacked Q M}
    (hu : (b.forget tag).unacked t = some u) : b.unacked t = some u := by
  by_cases ht : t = tag
  · simp [Broker.forget, ht] at hu
  · simpa [Broker.forget, ht] using hu

theorem Extends.of_flights (ht : b'.nextTag = b.nextTag) (hf : b'.flights = b.flights)
    (hu : ∀ tag u, b'.unacked tag = some u → b.unacked tag = some u) : Extends b b' := by
  refine ⟨Nat.le_of_eq ht.symm, fun tag u _ => hu tag u, ?_⟩
  intro n f hn
  exact ⟨f, by rw [hf, hn], rfl⟩

theorem Extends.refl (b : Broker Q M) : Extends b b := .of_flights rfl rfl fun _ _ hu => hu

theorem extends_send (b : Broker Q M) (q : Q) (m : M) : Extends b (b.send q m) := by
  refine ⟨Nat.le_refl _, fun _ _ _ hu => hu, ?_⟩
  intro n f hn
  refine ⟨f, ?_, rfl⟩
  have hlt := (List.getElem?_eq_some_iff.mp hn).1
  rw [send, List.getElem?_append_left hlt]
  exact hn

/-- A message that was just sent is not there yet. -/
theorem accepted_send (b : Broker Q M) (q : Q) (m : M) (n : ℕ) :
    (b.send q m).accepted n = b.accepted n := by
  unfold accepted send
  rcases Nat.lt_trichotomy n b.flights.length with hlt | rfl | hgt
  · rw [List.getElem?_append_left hlt]
  · simp
  · rw [List.getElem?_eq_none (by simp; omega), List.getElem?_eq_none (by omega)]

theorem getElem?_send (b : Broker Q M) (q : Q) (m : M) :
    (b.send q m).flights[b.flights.length]? = some ⟨q, m, false⟩ := by
  simp [send]

theorem not_accepted_new (b : Broker Q M) : b.accepted b.flights.length = false := by
  simp [accepted]

theorem Sound.forget (h : Sound deadLetter b) (tag : ℕ) : Sound deadLetter (b.forget tag) := by
  constructor
  · intro t ht
    by_contra hne
    obtain ⟨u, hu⟩ := Option.ne_none_iff_exists'.mp hne
    have hold := unacked_of_forget hu
    rw [h.issued t ht] at hold
    cases hold
  · intro t u hu
    exact h.routed t u (unacked_of_forget hu)

variable [DecidableEq Q]

def push (b : Broker Q M) (q : Q) (m : M) : Broker Q M :=
  { b with queues := Function.update b.queues q (b.queues q ++ [m]) }

/-- A copy of a sent message arrives. A sender that reconnects may have sent more than one. -/
def accept (b : Broker Q M) (n : ℕ) : Option (Broker Q M) :=
  b.flights[n]?.map fun f =>
    { b.push f.queue f.message with flights := b.flights.set n { f with accepted := true } }

def drop (b : Broker Q M) (q : Q) (i : ℕ) : Broker Q M :=
  { b with queues := Function.update b.queues q ((b.queues q).eraseIdx i) }

/-- Hands out a message under a new tag. -/
def deliver (b : Broker Q M) (q : Q) (i : ℕ) : Option (M × Broker Q M) :=
  (b.queues q)[i]?.map fun m =>
    (m, { b.drop q i with
      unacked := Function.update b.unacked b.nextTag (some ⟨q, m⟩)
      nextTag := b.nextTag + 1 })

/-- A message expires into the dead-letter queue of its queue. -/
def expire (deadLetter : Q → Option Q) (b : Broker Q M) (q : Q) (i : ℕ) : Option (Broker Q M) :=
  (b.queues q)[i]?.bind fun m => (deadLetter q).map fun target => (b.drop q i).push target m

/-- A consumer that is gone leaves its deliveries to others. -/
def requeue (b : Broker Q M) (tag : ℕ) : Option (Broker Q M) :=
  (b.unacked tag).map fun u => (b.forget tag).push u.queue u.message

/-- An answer arrives. One for a delivery that was taken back is ignored. -/
def settle (deadLetter : Q → Option Q) (b : Broker Q M) (j : ℕ) : Option (Broker Q M) :=
  b.answers[j]?.map fun (kind, tag) =>
    let b := { b with answers := b.answers.eraseIdx j }
    match b.unacked tag, kind with
    | none, _ => b
    | some _, .ack => b.forget tag
    | some u, .requeue => (b.forget tag).push u.queue u.message
    | some u, .reject =>
      match deadLetter u.queue with
      | none => b.forget tag
      | some target => (b.forget tag).push target u.message

theorem mem_push {q q' : Q} {m m' : M} :
    m' ∈ (b.push q m).queues q' ↔ m' ∈ b.queues q' ∨ (q' = q ∧ m' = m) := by
  by_cases hq : q' = q
  · subst hq
    simp [push]
  · simp [push, hq]

/-- What is dropped from a queue is the message at that place. -/
theorem mem_drop {q q' : Q} {i : ℕ} {m m' : M} (hi : (b.queues q)[i]? = some m)
    (h : m' ∈ b.queues q') : m' = m ∨ m' ∈ (b.drop q i).queues q' := by
  by_cases hq : q' = q
  · subst hq
    obtain ⟨j, hj⟩ := List.mem_iff_getElem?.mp h
    by_cases hji : j = i
    · left
      rw [hji, hi] at hj
      exact (Option.some.inj hj).symm
    · right
      simp only [drop, Function.update_self]
      exact List.mem_eraseIdx_iff_getElem?.mpr ⟨j, hji, hj⟩
  · right
    simpa only [drop, Function.update_of_ne hq] using h

theorem holds_push_self {q : Q} {m : M} (hp : P m) : (b.push q m).Holds P spent :=
  .inl ⟨q, m, mem_push.mpr (.inr ⟨rfl, rfl⟩), hp⟩

theorem Holds.push (h : b.Holds P spent) (q : Q) (m : M) : (b.push q m).Holds P spent := by
  rcases h with ⟨q', m', hm', hp⟩ | hu
  · exact .inl ⟨q', m', mem_push.mpr (.inl hm'), hp⟩
  · exact .inr hu

/-- A delivery taken out of the unacked set and put in a queue is not lost. -/
theorem Holds.move {tag : ℕ} {u : Unacked Q M} (h : b.Holds P spent)
    (hu : b.unacked tag = some u) (q : Q) : ((b.forget tag).push q u.message).Holds P spent := by
  rcases h with ⟨q', m, hm, hp⟩ | ⟨tag', u', hu', hp, hfree⟩
  · exact .inl ⟨q', m, mem_push.mpr (.inl hm), hp⟩
  · by_cases ht : tag' = tag
    · subst ht
      rw [hu] at hu'
      cases hu'
      exact holds_push_self hp
    · refine .inr ⟨tag', u', ?_, hp, hfree⟩
      simpa [Broker.push, Broker.forget, ht] using hu'

theorem Holds.accept {n : ℕ} (h : b.Holds P spent) (hb : b.accept n = some b') :
    b'.Holds P spent := by
  obtain ⟨f, -, rfl⟩ := Option.map_eq_some_iff.mp hb
  exact (h.push f.queue f.message).congr rfl rfl

theorem holds_accept {n : ℕ} {f : Flight Q M} (hf : b.flights[n]? = some f) (hp : P f.message)
    (hb : b.accept n = some b') : b'.Holds P spent := by
  rw [Broker.accept, hf] at hb
  cases hb
  exact (holds_push_self (b := b) hp).congr rfl rfl

theorem Holds.deliver {q : Q} {i : ℕ} {m : M} (h : b.Holds P spent)
    (hs : Sound deadLetter b) (hfresh : ¬ spent b.nextTag) (hb : b.deliver q i = some (m, b')) :
    b'.Holds P spent := by
  obtain ⟨m', hm', heq⟩ := Option.map_eq_some_iff.mp hb
  cases heq
  rcases h with ⟨q', m', hmem, hp⟩ | ⟨tag, u, hu, hp, hfree⟩
  · rcases mem_drop hm' hmem with rfl | hkept
    · exact .inr ⟨b.nextTag, ⟨q, m'⟩, by simp, hp, hfresh⟩
    · exact .inl ⟨q', m', hkept, hp⟩
  · have hne : tag ≠ b.nextTag := by
      rintro rfl
      rw [hs.issued _ (Nat.le_refl _)] at hu
      cases hu
    refine .inr ⟨tag, u, ?_, hp, hfree⟩
    simpa [hne] using hu

theorem Holds.expire {q : Q} {i : ℕ} (h : b.Holds P spent)
    (hb : b.expire deadLetter q i = some b') : b'.Holds P spent := by
  obtain ⟨m, hm, hb⟩ := Option.bind_eq_some_iff.mp hb
  obtain ⟨target, -, rfl⟩ := Option.map_eq_some_iff.mp hb
  rcases h with ⟨q', m', hmem, hp⟩ | hu
  · rcases mem_drop hm hmem with rfl | hkept
    · exact holds_push_self hp
    · exact .inl ⟨q', m', mem_push.mpr (.inl hkept), hp⟩
  · exact .inr hu

theorem Holds.requeue {tag : ℕ} (h : b.Holds P spent) (hb : b.requeue tag = some b') :
    b'.Holds P spent := by
  obtain ⟨u, hu, rfl⟩ := Option.map_eq_some_iff.mp hb
  exact h.move hu u.queue

/-- Every acknowledgement that arrives is for a spent tag. -/
theorem Holds.settle {j : ℕ} (h : b.Holds P spent) (hs : Sound deadLetter b)
    (hacks : ∀ tag, (Answer.ack, tag) ∈ b.answers → spent tag)
    (hb : b.settle deadLetter j = some b') : b'.Holds P spent := by
  obtain ⟨⟨kind, tag⟩, hj, rfl⟩ := Option.map_eq_some_iff.mp hb
  have hmem : (kind, tag) ∈ b.answers := List.mem_of_getElem? hj
  have hkept : ({ b with answers := b.answers.eraseIdx j } : Broker Q M).Holds P spent :=
    h.congr rfl rfl
  dsimp only
  split
  · exact hkept
  · exact hkept.forget (hacks tag hmem)
  · next u hu => exact hkept.move hu u.queue
  · next u hu =>
    split
    · next hnone =>
      have hsome := hs.routed tag u hu
      rw [hnone] at hsome
      cases hsome
    · exact hkept.move hu _

/-! ## Soundness of each operation -/

theorem Sound.deliver {q : Q} {i : ℕ} {m : M} (h : Sound deadLetter b)
    (hq : (deadLetter q).isSome) (hb : b.deliver q i = some (m, b')) : Sound deadLetter b' := by
  obtain ⟨m', -, heq⟩ := Option.map_eq_some_iff.mp hb
  cases heq
  refine ⟨?_, ?_⟩
  · intro tag htag
    have hlt : b.nextTag < tag := htag
    have hold := h.issued tag (Nat.le_of_lt hlt)
    simpa [Nat.ne_of_gt hlt] using hold
  · intro tag u hu
    by_cases ht : tag = b.nextTag
    · subst ht
      simp only [Function.update_self, Option.some.injEq] at hu
      subst hu
      exact hq
    · have hold : b.unacked tag = some u := by simpa [ht] using hu
      exact h.routed tag u hold

theorem Sound.requeue {tag : ℕ} (h : Sound deadLetter b) (hb : b.requeue tag = some b') :
    Sound deadLetter b' := by
  obtain ⟨u, -, rfl⟩ := Option.map_eq_some_iff.mp hb
  exact (h.forget tag).congr rfl rfl

theorem Sound.accept {n : ℕ} (h : Sound deadLetter b) (hb : b.accept n = some b') :
    Sound deadLetter b' := by
  obtain ⟨f, -, rfl⟩ := Option.map_eq_some_iff.mp hb
  exact h.congr rfl rfl

theorem Sound.expire {q : Q} {i : ℕ} (h : Sound deadLetter b)
    (hb : b.expire deadLetter q i = some b') : Sound deadLetter b' := by
  obtain ⟨m, -, hb⟩ := Option.bind_eq_some_iff.mp hb
  obtain ⟨target, -, rfl⟩ := Option.map_eq_some_iff.mp hb
  exact h.congr rfl rfl

theorem Sound.settle {j : ℕ} (h : Sound deadLetter b) (hb : b.settle deadLetter j = some b') :
    Sound deadLetter b' := by
  obtain ⟨⟨kind, tag⟩, -, rfl⟩ := Option.map_eq_some_iff.mp hb
  have hkept : Sound deadLetter ({ b with answers := b.answers.eraseIdx j } : Broker Q M) :=
    h.congr rfl rfl
  dsimp only
  split
  · exact hkept
  · exact hkept.forget tag
  · exact (hkept.forget tag).congr rfl rfl
  · split
    · exact hkept.forget tag
    · exact (hkept.forget tag).congr rfl rfl

/-! ## What the parties may rely on -/

theorem extends_accept {n : ℕ} (hb : b.accept n = some b') : Extends b b' := by
  obtain ⟨f, hf, rfl⟩ := Option.map_eq_some_iff.mp hb
  refine ⟨Nat.le_refl _, fun _ _ _ hu => hu, ?_⟩
  intro i g hi
  by_cases hin : n = i
  · subst hin
    rw [hf] at hi
    cases hi
    exact ⟨{ f with accepted := true },
      List.getElem?_set_self (List.getElem?_eq_some_iff.mp hf).1, rfl⟩
  · exact ⟨g, (List.getElem?_set_ne hin).trans hi, rfl⟩

/-- Accepting concerns one flight only. -/
theorem accepted_accept {n i : ℕ} (hb : b.accept n = some b') (hi : b'.accepted i = true) :
    i = n ∨ b.accepted i = true := by
  obtain ⟨f, hf, rfl⟩ := Option.map_eq_some_iff.mp hb
  by_cases hin : i = n
  · exact .inl hin
  · right
    have hsame : (b.flights.set n { f with accepted := true })[i]? = b.flights[i]? :=
      List.getElem?_set_ne (Ne.symm hin)
    simpa [accepted, hsame] using hi

theorem extends_deliver {q : Q} {i : ℕ} {m : M} (hb : b.deliver q i = some (m, b')) :
    Extends b b' ∧ b'.nextTag = b.nextTag + 1 ∧ b'.flights = b.flights ∧
      ∀ u, b'.unacked b.nextTag = some u → u.message = m := by
  obtain ⟨m', -, heq⟩ := Option.map_eq_some_iff.mp hb
  cases heq
  refine ⟨⟨Nat.le_succ _, ?_, fun n f hn => ⟨f, hn, rfl⟩⟩, rfl, rfl, ?_⟩
  · intro tag u htag hu
    simpa [Nat.ne_of_lt htag] using hu
  · intro u hu
    have heq : (⟨q, m⟩ : Unacked Q M) = u := by simpa using hu
    rw [← heq]

theorem extends_expire {q : Q} {i : ℕ} (hb : b.expire deadLetter q i = some b') :
    Extends b b' ∧ b'.flights = b.flights := by
  obtain ⟨m, -, hb⟩ := Option.bind_eq_some_iff.mp hb
  obtain ⟨target, -, rfl⟩ := Option.map_eq_some_iff.mp hb
  exact ⟨.of_flights rfl rfl fun _ _ hu => hu, rfl⟩

theorem extends_requeue {tag : ℕ} (hb : b.requeue tag = some b') :
    Extends b b' ∧ b'.flights = b.flights := by
  obtain ⟨u, -, rfl⟩ := Option.map_eq_some_iff.mp hb
  exact ⟨.of_flights rfl rfl fun _ _ => unacked_of_forget, rfl⟩

theorem extends_settle {j : ℕ} (hb : b.settle deadLetter j = some b') :
    Extends b b' ∧ b'.flights = b.flights := by
  obtain ⟨⟨kind, tag⟩, -, rfl⟩ := Option.map_eq_some_iff.mp hb
  dsimp only
  split
  · exact ⟨.of_flights rfl rfl fun _ _ hu => hu, rfl⟩
  · exact ⟨.of_flights rfl rfl fun _ _ => unacked_of_forget, rfl⟩
  · exact ⟨.of_flights rfl rfl fun _ _ => unacked_of_forget, rfl⟩
  · split
    · exact ⟨.of_flights rfl rfl fun _ _ => unacked_of_forget, rfl⟩
    · exact ⟨.of_flights rfl rfl fun _ _ => unacked_of_forget, rfl⟩

theorem answers_expire {q : Q} {i : ℕ} (hb : b.expire deadLetter q i = some b') :
    b'.answers = b.answers := by
  obtain ⟨m, -, hb⟩ := Option.bind_eq_some_iff.mp hb
  obtain ⟨target, -, rfl⟩ := Option.map_eq_some_iff.mp hb
  rfl

theorem answers_requeue {tag : ℕ} (hb : b.requeue tag = some b') : b'.answers = b.answers := by
  obtain ⟨u, -, rfl⟩ := Option.map_eq_some_iff.mp hb
  rfl

theorem answers_settle {j : ℕ} {a : Answer × ℕ} (hb : b.settle deadLetter j = some b')
    (ha : a ∈ b'.answers) : a ∈ b.answers := by
  obtain ⟨⟨kind, tag⟩, -, rfl⟩ := Option.map_eq_some_iff.mp hb
  have herase : ∀ {l : List (Answer × ℕ)}, a ∈ l.eraseIdx j → a ∈ l := List.mem_of_mem_eraseIdx
  dsimp only at ha
  split at ha
  · exact herase ha
  · exact herase ha
  · exact herase ha
  · split at ha <;> exact herase ha

end Broker

end MessageBroker
