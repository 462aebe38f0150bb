import Mathlib.Data.Finset.Card
import ShortQ.PasswordGate

/-! # What the password gate remembers

The map of attempts lives as long as the process. Its size is bounded by the two limits of the
gate and by the number of requests that are under way at one time. -/
namespace GateMemory

open GoText (Str)
open GoTime (Time)
open LabelledRuns
open PasswordGate
open RowTable

/-! ## Keys of the map -/

def keys (m : Attempts) : Finset Str := (m.rows.map Entry.key).toFinset

theorem mem_keys {m : Attempts} {key : Str} : key ∈ keys m ↔ ∃ e ∈ m.rows, e.key = key := by
  rw [keys, List.mem_toFinset, List.mem_map]

theorem card_keys (m : Attempts) : (keys m).card = m.rows.length := by
  have hdistinct : (m.rows.map Entry.key).Nodup := by
    rw [List.Nodup, List.pairwise_map]
    exact m.distinct
  rw [keys, List.toFinset_card_of_nodup hdistinct, List.length_map]

theorem lookup_of_notMem {m : Attempts} {key : Str} (h : key ∉ keys m) : lookup m key = [] :=
  lookup_of_forall fun e he heq => h (mem_keys.mpr ⟨e, he, heq⟩)

theorem keys_store_subset (m : Attempts) (key : Str) (times : List Time) :
    keys (store m key times) ⊆ insert key (keys m) := by
  intro k hk
  obtain ⟨e, he, rfl⟩ := mem_keys.mp hk
  apply Finset.mem_insert.mpr
  unfold store Table.upsert at he
  cases hinsert : m.insert ⟨key, times⟩ with
  | some grown =>
    rw [hinsert] at he
    dsimp only at he
    rw [(Table.insert_eq_some.mp hinsert).2] at he
    rcases List.mem_append.mp he with hold | hnew
    · exact Or.inr (mem_keys.mpr ⟨e, hold, rfl⟩)
    · rw [List.mem_singleton.mp hnew]
      exact Or.inl rfl
  | none =>
    rw [hinsert] at he
    dsimp only at he
    rw [Table.rows_update] at he
    obtain ⟨old, hold, rfl⟩ := List.mem_map.mp he
    refine Or.inr (mem_keys.mpr ⟨old, hold, ?_⟩)
    split <;> rfl

theorem keys_delete_subset (m : Attempts) (key : Str) : keys (delete m key) ⊆ keys m := by
  intro k hk
  obtain ⟨e, he, rfl⟩ := mem_keys.mp hk
  exact mem_keys.mpr ⟨e, (List.mem_filter.mp he).1, rfl⟩

theorem keys_prune_subset (m : Attempts) (now : Time) : keys (prune m now) ⊆ keys m := by
  intro k hk
  obtain ⟨kept, hkept, rfl⟩ := mem_keys.mp hk
  obtain ⟨e, he, hkeep⟩ := List.mem_filterMap.mp hkept
  exact mem_keys.mpr ⟨e, he, (key_of_keep hkeep).symm⟩

theorem keys_pruned_subset (l : Limiter) (now : Time) :
    keys (pruneAttemptsLocked l now).attempts ⊆ keys l.attempts := by
  unfold pruneAttemptsLocked
  split
  · exact Finset.Subset.refl _
  · exact keys_prune_subset l.attempts now

theorem length_pruned (l : Limiter) (now : Time) (key : Str) :
    (lookup (pruneAttemptsLocked l now).attempts key).length ≤ (lookup l.attempts key).length := by
  unfold pruneAttemptsLocked
  split
  · exact le_refl _
  · rw [lookup_prune]
    exact List.length_filter_le _ _

/-- A request for a key that the full map lacks is refused; otherwise the key is added, and only
to a map with room. -/
theorem keys_tested (l : Limiter) (key : Str) (pruneAt now : Time) :
    ((tooManyAttempts l key pruneAt now).1 = true ∧
      keys (tooManyAttempts l key pruneAt now).2.attempts ⊆ keys l.attempts) ∨
    (keys (tooManyAttempts l key pruneAt now).2.attempts ⊆ insert key (keys l.attempts) ∧
      ((keys (tooManyAttempts l key pruneAt now).2.attempts).card ≤ 100000 ∨
        key ∈ keys l.attempts)) := by
  have hpruned := keys_pruned_subset { l with attemptOps := l.attemptOps + 1 } pruneAt
  unfold tooManyAttempts
  dsimp only
  generalize pruneAttemptsLocked { l with attemptOps := l.attemptOps + 1 } pruneAt = pruned
    at hpruned
  split
  · exact Or.inl ⟨rfl, hpruned⟩
  · rename_i hfull
    have hstore := keys_store_subset pruned.attempts key
      ((lookup pruned.attempts key).filter (recent now))
    refine Or.inr ⟨hstore.trans (Finset.insert_subset_insert key hpruned), ?_⟩
    by_cases hmem : key ∈ keys pruned.attempts
    · exact Or.inr (hpruned hmem)
    · left
      rw [lookup_of_notMem hmem] at hfull
      have hroom : pruned.attempts.rows.length < 100000 := by simpa using hfull
      calc (keys (store pruned.attempts key
          ((lookup pruned.attempts key).filter (recent now)))).card
        _ ≤ (insert key (keys pruned.attempts)).card := Finset.card_le_card hstore
        _ ≤ (keys pruned.attempts).card + 1 := Finset.card_insert_le key _
        _ ≤ 100000 := by
          rw [card_keys]
          exact hroom

/-! ## Requests under way -/

/-- Let through, and not yet settled. -/
def underWay : Phase → Bool
  | .passed | .failed _ | .matched _ => true
  | _ => false

def pending (flights : List Flight) : List Flight := flights.filter fun f => underWay f.phase

def pendingKeys (flights : List Flight) : Finset Str :=
  ((pending flights).map fun f => f.post.key).toFinset

/-- The keys in the map and those that may come back to it. -/
def held (s : Gate) : Finset Str := keys s.limiter.attempts ∪ pendingKeys s.flights

/-- The attempts of a key, and those that may be added to them. -/
def load (s : Gate) (key : Str) : ℕ :=
  (lookup s.limiter.attempts key).length +
    s.flights.countP fun f => f.post.key = key && underWay f.phase

theorem mem_pendingKeys {flights : List Flight} {key : Str} : key ∈ pendingKeys flights ↔
    ∃ f ∈ flights, underWay f.phase = true ∧ f.post.key = key := by
  simp only [pendingKeys, pending, List.mem_toFinset, List.mem_map, List.mem_filter, and_assoc]

theorem card_pendingKeys_le (flights : List Flight) :
    (pendingKeys flights).card ≤ (pending flights).length := by
  have hcard := List.toFinset_card_le ((pending flights).map fun f => f.post.key)
  rw [List.length_map] at hcard
  exact hcard

theorem underWay_checkForm (checkSecret : Str → Str → Bool) (post : Post) (now : Time) :
    underWay (checkForm checkSecret post now) = true := by
  unfold checkForm
  split
  · rfl
  · split
    · rfl
    · rfl

variable {checkSecret : Str → Str → Bool} {s t : Gate}

theorem pendingKeys_set_subset {flights : List Flight} {i : ℕ} {post : Post} {phase phase' : Phase}
    (hf : flights[i]? = some ⟨post, phase⟩) (hopen : underWay phase = true) :
    pendingKeys (flights.set i ⟨post, phase'⟩) ⊆ pendingKeys flights := by
  intro key hkey
  obtain ⟨f, hmem, hway, rfl⟩ := mem_pendingKeys.mp hkey
  rcases List.mem_or_eq_of_mem_set hmem with hold | rfl
  · exact mem_pendingKeys.mpr ⟨f, hold, hway, rfl⟩
  · exact mem_pendingKeys.mpr ⟨⟨post, phase⟩, List.mem_of_getElem? hf, hopen, rfl⟩

theorem key_held {i : ℕ} {post : Post} {phase : Phase} (hf : s.flights[i]? = some ⟨post, phase⟩)
    (hopen : underWay phase = true) : post.key ∈ held s :=
  Finset.mem_union_right _
    (mem_pendingKeys.mpr ⟨⟨post, phase⟩, List.mem_of_getElem? hf, hopen, rfl⟩)

theorem keys_subset_held (s : Gate) : keys s.limiter.attempts ⊆ held s := Finset.subset_union_left

theorem pendingKeys_subset_held (s : Gate) : pendingKeys s.flights ⊆ held s :=
  Finset.subset_union_right

/-- No step holds a key more, unless the map has room for it. -/
theorem held_next {step : Step} (h : next checkSecret s step = some t) :
    held t ⊆ held s ∨ (keys t.limiter.attempts).card ≤ 100000 := by
  cases step with
  | arrive post pruneAt now =>
    obtain ⟨-, -, rfl⟩ := next_arrive h
    rcases keys_tested s.limiter post.key pruneAt now with
      ⟨hrefused, hsame⟩ | ⟨hadded, hsmall | hold⟩
    · left
      rw [hrefused, if_pos rfl]
      exact Finset.union_subset_union hsame (Finset.Subset.refl _)
    · exact Or.inr hsmall
    · left
      have hkey : post.key ∈ held s := keys_subset_held s hold
      apply Finset.union_subset
      · exact hadded.trans (Finset.insert_subset hkey (keys_subset_held s))
      · intro key hpending
        obtain ⟨f, hf, hway, rfl⟩ := mem_pendingKeys.mp hpending
        split at hf
        · exact pendingKeys_subset_held s (mem_pendingKeys.mpr ⟨f, hf, hway, rfl⟩)
        · rcases List.mem_append.mp hf with hf | hf
          · exact pendingKeys_subset_held s (mem_pendingKeys.mpr ⟨f, hf, hway, rfl⟩)
          · rw [List.mem_singleton.mp hf]
            exact hkey
  | check i now =>
    obtain ⟨-, post, hf, rfl⟩ := next_check h
    left
    exact Finset.union_subset_union (Finset.Subset.refl _)
      (pendingKeys_set_subset hf rfl)
  | settle i now =>
    obtain ⟨-, post, ⟨checkedAt, hf, rfl⟩ | ⟨checkedAt, hf, rfl⟩⟩ := next_settle h
    · left
      apply Finset.union_subset
      · refine (keys_store_subset s.limiter.attempts post.key _).trans ?_
        exact Finset.insert_subset (key_held hf rfl) (keys_subset_held s)
      · exact (pendingKeys_set_subset hf rfl).trans (pendingKeys_subset_held s)
    · left
      apply Finset.union_subset
      · exact (keys_delete_subset s.limiter.attempts post.key).trans (keys_subset_held s)
      · exact (pendingKeys_set_subset hf rfl).trans (pendingKeys_subset_held s)

theorem countP_set_load {flights : List Flight} {i : ℕ} {post : Post} {phase phase' : Phase}
    (hf : flights[i]? = some ⟨post, phase⟩) (hopen : underWay phase = true) (key : Str) :
    (flights.set i ⟨post, phase'⟩).countP (fun f => f.post.key = key && underWay f.phase) +
        (if post.key = key then 1 else 0) =
      flights.countP (fun f => f.post.key = key && underWay f.phase) +
        if post.key = key && underWay phase' then 1 else 0 := by
  have hcount := countP_set hf ⟨post, phase'⟩ fun f => f.post.key = key && underWay f.phase
  simp only [hopen, Bool.and_true, decide_eq_true_eq] at hcount
  exact hcount

theorem length_tested (l : Limiter) (key k : Str) (pruneAt now : Time) :
    (lookup (tooManyAttempts l key pruneAt now).2.attempts k).length ≤
      (lookup l.attempts k).length := by
  have hpruned := length_pruned { l with attemptOps := l.attemptOps + 1 } pruneAt
  unfold tooManyAttempts
  dsimp only
  split
  · exact hpruned k
  · rw [lookup_store]
    split
    · rename_i hkey
      rw [hkey]
      exact (List.length_filter_le _ _).trans (hpruned key)
    · exact hpruned k

/-- A request that is let through finds at most 4 attempts of its key. -/
theorem length_of_passed {l : Limiter} {key : Str} {pruneAt now : Time}
    (h : (tooManyAttempts l key pruneAt now).1 = false) :
    (lookup (tooManyAttempts l key pruneAt now).2.attempts key).length ≤ 4 := by
  unfold tooManyAttempts at h ⊢
  dsimp only at h ⊢
  split
  · rename_i hfull
    rw [if_pos hfull] at h
    cases h
  · rename_i hroom
    rw [if_neg hroom] at h
    rw [lookup_store, if_pos rfl]
    have hfew : ¬ 5 ≤ ((lookup (pruneAttemptsLocked { l with attemptOps := l.attemptOps + 1 }
      pruneAt).attempts key).filter (recent now)).length := by simpa using h
    omega

/-- No step adds to the load of a key, unless the key has at most 4 attempts. -/
theorem load_next {step : Step} (h : next checkSecret s step = some t) (key : Str) :
    load t key ≤ load s key ∨ (lookup t.limiter.attempts key).length ≤ 4 := by
  cases step with
  | arrive post pruneAt now =>
    obtain ⟨-, -, rfl⟩ := next_arrive h
    have hlength := length_tested s.limiter post.key key pruneAt now
    cases hpassed : (tooManyAttempts s.limiter post.key pruneAt now).1 with
    | true =>
      left
      simp only [load, if_true]
      omega
    | false =>
      by_cases hkey : post.key = key
      · subst hkey
        exact Or.inr (length_of_passed hpassed)
      · left
        simp only [load, Bool.false_eq_true, if_false, List.countP_append, List.countP_singleton,
          hkey, decide_false, Bool.false_and]
        omega
  | check i now =>
    obtain ⟨-, post, hf, rfl⟩ := next_check h
    left
    have hcount := @countP_set_load s.flights i post .passed (checkForm checkSecret post now) hf
      rfl key
    simp only [underWay_checkForm, Bool.and_true, decide_eq_true_eq] at hcount
    simp only [load]
    omega
  | settle i now =>
    obtain ⟨-, post, ⟨checkedAt, hf, rfl⟩ | ⟨checkedAt, hf, rfl⟩⟩ := next_settle h
    · left
      have hcount := @countP_set_load s.flights i post _ (.recorded checkedAt) hf rfl key
      have hsettled : underWay (.recorded checkedAt) = false := rfl
      simp only [hsettled, Bool.and_false, Bool.false_eq_true, if_false] at hcount
      simp only [load, addAttempt, lookup_store]
      by_cases hkey : key = post.key
      · subst hkey
        rw [if_pos rfl] at hcount ⊢
        rw [List.length_append, List.length_singleton]
        omega
      · rw [if_neg hkey]
        rw [if_neg (Ne.symm hkey)] at hcount
        omega
    · left
      have hcount := @countP_set_load s.flights i post _ (.cleared checkedAt) hf rfl key
      have hsettled : underWay (.cleared checkedAt) = false := rfl
      simp only [hsettled, Bool.and_false, Bool.false_eq_true, if_false] at hcount
      simp only [load, clearAttempts, lookup_delete]
      by_cases hkey : key = post.key
      · subst hkey
        rw [if_pos rfl] at hcount ⊢
        rw [List.length_nil]
        omega
      · rw [if_neg hkey]
        rw [if_neg (Ne.symm hkey)] at hcount
        omega

/-! ## Runs -/

/-- With at most `n` requests under way. -/
structure Bounded (n : ℕ) (s : Gate) : Prop where
  held : (held s).card ≤ 100000 + n
  load : ∀ key, load s key ≤ 4 + n

theorem bounded_initial (n : ℕ) (clock : Time) : Bounded n (.initial clock) := by
  constructor
  · exact Nat.zero_le _
  · intro key
    exact Nat.zero_le _

theorem countP_underWay_le (flights : List Flight) (key : Str) :
    (flights.countP fun f => f.post.key = key && underWay f.phase) ≤ (pending flights).length := by
  rw [pending, ← List.countP_eq_length_filter]
  apply List.countP_mono_left
  intro f _ hboth
  exact (Bool.and_eq_true_iff.mp hboth).2

theorem bounded_next {n : ℕ} {step : Step} (hs : Bounded n s)
    (h : next checkSecret s step = some t) (hpending : (pending t.flights).length ≤ n) :
    Bounded n t := by
  constructor
  · rcases held_next h with hsubset | hsmall
    · exact (Finset.card_le_card hsubset).trans hs.held
    · calc (held t).card
        _ ≤ (keys t.limiter.attempts).card + (pendingKeys t.flights).card :=
          Finset.card_union_le _ _
        _ ≤ 100000 + n := Nat.add_le_add hsmall ((card_pendingKeys_le _).trans hpending)
  · intro key
    rcases load_next h key with hless | hfew
    · exact hless.trans (hs.load key)
    · exact Nat.add_le_add hfew ((countP_underWay_le t.flights key).trans hpending)

/-- Where never more than `n` requests are between the test of the limit and its outcome, the map
never has more than 100000 + `n` keys, and no key more than 4 + `n` attempts. -/
theorem gate_memory_bounded (checkSecret : Str → Str → Bool) {clock : Time} {steps : List Step}
    {s : Gate} (n : ℕ) (run : Execution (next checkSecret) (.initial clock) steps s)
    (hpending : ∀ before later u, steps = before ++ later →
      Execution (next checkSecret) (.initial clock) before u → (pending u.flights).length ≤ n) :
    s.limiter.attempts.rows.length ≤ 100000 + n ∧
      ∀ e ∈ s.limiter.attempts.rows, e.attempts.length ≤ 4 + n := by
  have hbounded : Bounded n s := by
    induction run with
    | refl => exact bounded_initial n clock
    | @tail steps u step v hrun hstep ih =>
      have hu := ih fun before later w hsteps hw =>
        hpending before (later ++ [step]) w (by rw [hsteps, List.append_assoc]) hw
      refine bounded_next hu hstep (hpending (steps ++ [step]) [] v (by rw [List.append_nil]) ?_)
      exact .tail hrun hstep
  constructor
  · rw [← card_keys]
    exact (Finset.card_le_card (keys_subset_held s)).trans hbounded.held
  · intro e he
    have hload := hbounded.load e.key
    rw [load, lookup_of_mem he] at hload
    omega

/-- The run of one request after another never has two under way. -/
theorem gate_memory_bounded_one_by_one :
    ∃ s, Execution (next opens) (.initial noon) oneByOne s ∧
      s.limiter.attempts.rows.length ≤ 100001 ∧
      ∀ e ∈ s.limiter.attempts.rows, e.attempts.length ≤ 5 := by
  have hreplay : (replay (next opens) (.initial noon) oneByOne).isSome := by decide
  have hpending : ∀ k ≤ 6, (replay (next opens) (.initial noon) (oneByOne.take k)).all
      (fun u => (pending u.flights).length ≤ 1) = true := by decide
  obtain ⟨s, hs⟩ := Option.isSome_iff_exists.mp hreplay
  refine ⟨s, execution_of_replay hs, gate_memory_bounded opens 1 (execution_of_replay hs) ?_⟩
  intro before later u hsteps hu
  have hlength : before.length ≤ 6 := by
    have hall := congrArg List.length hsteps
    rw [List.length_append] at hall
    change 6 = _ at hall
    omega
  have hfront : oneByOne.take before.length = before := by
    rw [hsteps, List.take_left]
  have hall := hpending before.length hlength
  rw [hfront, hu.replay_eq, Option.all_some, decide_eq_true_eq] at hall
  exact hall

end GateMemory
