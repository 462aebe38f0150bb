import ShortQ.AuditedHandlers
import ShortQ.DecimalText
import ShortQ.LabelledRuns
import ShortQ.Runes

/-! # The password gate

Guesses at a link's password, limited by key: the link and the address of the visitor. The test
of the limit, the comparison of the password and the recording of its outcome are three steps of
a request, and any number of requests may be under way. -/
namespace PasswordGate

open AuditedHandlers (formatInt)
open GoText (Str lit isDigit)
open GoTime (Time)
open LabelledRuns
open Models
open RowTable

/-! ## The map of attempts -/

structure Entry where
  key : Str
  attempts : List Time

def entryClash (a b : Entry) : Prop := a.key = b.key

instance : DecidableRel entryClash := fun a b => inferInstanceAs (Decidable (a.key = b.key))

abbrev Attempts := Table Entry entryClash

/-- A missing key has no attempts. -/
def lookup (m : Attempts) (key : Str) : List Time :=
  (m.find fun e => e.key = key).elim [] Entry.attempts

def assign (times : List Time) (e : Entry) : Entry := { e with attempts := times }

theorem keeps_assign (times : List Time) : Table.Keeps entryClash (assign times) :=
  fun _ _ => ⟨Iff.rfl, Iff.rfl⟩

def store (m : Attempts) (key : Str) (times : List Time) : Attempts :=
  m.upsert ⟨key, times⟩ (assign times) (keeps_assign times)

def delete (m : Attempts) (key : Str) : Attempts :=
  m.restrict (m.rows.filter fun e => e.key ≠ key) List.filter_sublist

/-- `attempt.After(now.Add(-15 * time.Minute))`. -/
def recent (now attempt : Time) : Bool := now.nanos - 900 * GoTime.second < attempt.nanos

/-- The entry after a prune, unless it goes. -/
def keep (now : Time) (e : Entry) : Option Entry :=
  if e.attempts.filter (recent now) = [] then none
  else some { e with attempts := e.attempts.filter (recent now) }

theorem key_of_keep {now : Time} {e kept : Entry} (h : keep now e = some kept) :
    kept.key = e.key := by
  obtain ⟨-, hkept⟩ := Option.ite_none_left_eq_some.mp h
  obtain rfl := Option.some.inj hkept
  rfl

def prune (m : Attempts) (now : Time) : Attempts :=
  ⟨m.rows.filterMap (keep now), by
    rw [List.pairwise_filterMap]
    refine m.distinct.imp fun {a b} hab a' ha b' hb hclash => hab ?_
    exact (key_of_keep ha).symm.trans (Eq.trans hclash (key_of_keep hb))⟩

structure Limiter where
  attempts : Attempts
  attemptOps : ℕ

def pruneAttemptsLocked (l : Limiter) (now : Time) : Limiter :=
  if l.attemptOps % 256 ≠ 0 && l.attempts.rows.length < 10000 then l
  else { l with attempts := prune l.attempts now }

/-- The two times are those of the prune and of the test. -/
def tooManyAttempts (l : Limiter) (key : Str) (pruneAt now : Time) : Bool × Limiter :=
  let l := pruneAttemptsLocked { l with attemptOps := l.attemptOps + 1 } pruneAt
  if 100000 ≤ l.attempts.rows.length && (lookup l.attempts key).length = 0 then (true, l)
  else
    let kept := (lookup l.attempts key).filter (recent now)
    (5 ≤ kept.length, { l with attempts := store l.attempts key kept })

def addAttempt (l : Limiter) (key : Str) (now : Time) : Limiter :=
  { l with attempts := store l.attempts key (lookup l.attempts key ++ [now]) }

def clearAttempts (l : Limiter) (key : Str) : Limiter :=
  { l with attempts := delete l.attempts key }

/-! ## Requests under way -/

/-- A POST to the gate. The form holds the password, and is none when it does not parse. -/
structure Post where
  link : Link
  ip : Str
  form : Option Str

def attemptKey (link : ℤ) (ip : Str) : Str := formatInt link ++ 58 :: ip

def Post.key (p : Post) : Str := attemptKey p.link.id p.ip

/-- How far a request that was let through has come, with the time of its check. A form that does
not parse counts as a failure without a check. -/
inductive Phase where
  | passed
  | failed (checkedAt : Option Time)
  | matched (checkedAt : Time)
  | recorded (checkedAt : Option Time)
  | cleared (checkedAt : Time)

structure Flight where
  post : Post
  phase : Phase

structure Gate where
  limiter : Limiter
  clock : Time
  flights : List Flight

inductive Step where
  | arrive (post : Post) (pruneAt now : Time)
  | check (i : ℕ) (now : Time)
  | settle (i : ℕ) (now : Time)

def checkForm (checkSecret : Str → Str → Bool) (post : Post) (now : Time) : Phase :=
  match post.form with
  | none => .failed none
  | some password =>
    if checkSecret post.link.passwordHash password then .matched now else .failed (some now)

/-- `passwordGate`, one step at a time. -/
def next (checkSecret : Str → Str → Bool) (s : Gate) : Step → Option Gate
  | .arrive post pruneAt now =>
    if s.clock.nanos ≤ pruneAt.nanos && pruneAt.nanos ≤ now.nanos then
      let (tooMany, limiter) := tooManyAttempts s.limiter post.key pruneAt now
      some ⟨limiter, now, if tooMany then s.flights else s.flights ++ [⟨post, .passed⟩]⟩
    else none
  | .check i now =>
    if s.clock.nanos ≤ now.nanos then
      match s.flights[i]? with
      | some ⟨post, .passed⟩ =>
        some { s with
          clock := now
          flights := s.flights.set i ⟨post, checkForm checkSecret post now⟩ }
      | _ => none
    else none
  | .settle i now =>
    if s.clock.nanos ≤ now.nanos then
      match s.flights[i]? with
      | some ⟨post, .failed checkedAt⟩ =>
        some ⟨addAttempt s.limiter post.key now, now, s.flights.set i ⟨post, .recorded checkedAt⟩⟩
      | some ⟨post, .matched checkedAt⟩ =>
        some ⟨clearAttempts s.limiter post.key, now, s.flights.set i ⟨post, .cleared checkedAt⟩⟩
      | _ => none
    else none

def Gate.initial (clock : Time) : Gate := ⟨⟨.empty, 0⟩, clock, []⟩

/-! ## The limit -/

/-- When a wrong password was checked. -/
def Phase.wrongAt : Phase → Option Time
  | .failed checkedAt | .recorded checkedAt => checkedAt
  | _ => none

/-- When the right one was. -/
def Phase.rightAt : Phase → Option Time
  | .matched checkedAt | .cleared checkedAt => some checkedAt
  | _ => none

def within (start t : Time) : Bool :=
  start.nanos ≤ t.nanos && t.nanos < start.nanos + 900 * GoTime.second

/-- In any 15 minutes without a right password for the key at most 5 wrong ones are checked. -/
def Limited (s : Gate) : Prop :=
  ∀ key start, (∀ f ∈ s.flights, f.post.key = key → ∀ t, f.phase.rightAt = some t →
      within start t = false) →
    (s.flights.countP fun f => f.post.key = key && f.phase.wrongAt.any (within start)) ≤ 5

def Phase.isPassed : Phase → Bool
  | .passed => true
  | _ => false

/-- The wrong check is in the map of attempts. -/
def Phase.recordedAt : Phase → Option Time
  | .recorded checkedAt => checkedAt
  | _ => none

/-- Still to be checked, or found wrong and still to be recorded. -/
def Phase.unsettled : Phase → Bool
  | .passed | .failed (some _) => true
  | _ => false

/-- The gate lets a request through only while fewer than 5 failures of its key are recent or
under way, and a success clears no failure that was checked after it. -/
def undisturbed (s : Gate) : Step → Bool
  | .arrive post pruneAt now =>
    (tooManyAttempts s.limiter post.key pruneAt now).1 ||
      ((lookup s.limiter.attempts post.key).filter (recent now)).length +
        (s.flights.countP fun f => f.post.key = post.key && f.phase.unsettled) < 5
  | .check _ _ => true
  | .settle i _ =>
    match s.flights[i]? with
    | some ⟨post, .matched checkedAt⟩ => s.flights.all fun f =>
        f.post.key ≠ post.key || f.phase.recordedAt.all (·.nanos ≤ checkedAt.nanos)
    | _ => true

/-! The two parts of a key. -/

theorem formatInt_negSucc (n : ℕ) : formatInt (Int.negSucc n) = 45 :: lit (Nat.repr (n + 1)) := by
  have heq : toString (Int.negSucc n) = "-" ++ Nat.repr (n + 1) := rfl
  rw [formatInt, heq, lit, String.toList_append, List.flatMap_append]
  rfl

theorem notMem_repr {b : UInt8} (hb : isDigit b = false) (n : ℕ) : b ∉ lit (Nat.repr n) := by
  intro hmem
  rw [DecimalText.digit_of_mem_repr hmem] at hb
  cases hb

theorem repr_inj {m n : ℕ} (h : lit (Nat.repr m) = lit (Nat.repr n)) : m = n := by
  have hdecimal := DecimalText.decimal_repr m
  rw [h, DecimalText.decimal_repr] at hdecimal
  exact (Option.some.inj hdecimal).symm

theorem formatInt_inj {i j : ℤ} (h : formatInt i = formatInt j) : i = j := by
  have hsign {m n : ℕ} : lit (Nat.repr m) ≠ 45 :: lit (Nat.repr n) := by
    intro heq
    apply notMem_repr (b := 45) (by decide) m
    rw [heq]
    exact List.mem_cons_self
  cases i with
  | ofNat m =>
    cases j with
    | ofNat n => exact congrArg Int.ofNat (repr_inj h)
    | negSucc n =>
      rw [formatInt_negSucc] at h
      exact absurd h hsign
  | negSucc m =>
    cases j with
    | ofNat n =>
      rw [formatInt_negSucc] at h
      exact absurd h.symm hsign
    | negSucc n =>
      rw [formatInt_negSucc, formatInt_negSucc, List.cons.injEq] at h
      exact congrArg Int.negSucc (Nat.succ.inj (repr_inj h.2))

theorem colon_notMem_formatInt (i : ℤ) : (58 : UInt8) ∉ formatInt i := by
  cases i with
  | ofNat n => exact notMem_repr (by decide) n
  | negSucc n =>
    rw [formatInt_negSucc, List.mem_cons, not_or]
    exact ⟨by decide, notMem_repr (by decide) (n + 1)⟩

/-- Two links or two addresses never share a key. -/
theorem attemptKey_inj {link link' : ℤ} {ip ip' : Str}
    (h : attemptKey link ip = attemptKey link' ip') :
    link = link' ∧ ip = ip' := by
  have hcut := congrArg (GoText.cut 58) h
  rw [attemptKey, attemptKey, Runes.cut_append (colon_notMem_formatInt link),
    Runes.cut_append (colon_notMem_formatInt link'), Prod.mk.injEq, Option.some.injEq] at hcut
  exact ⟨formatInt_inj hcut.1, hcut.2⟩

/-! ## Lookups -/

theorem lookup_of_mem {m : Attempts} {e : Entry} (h : e ∈ m.rows) :
    lookup m e.key = e.attempts := by
  have hsome : (m.rows.find? fun a => a.key = e.key).isSome :=
    List.find?_isSome.mpr ⟨e, h, decide_eq_true rfl⟩
  obtain ⟨found, hfound⟩ := Option.isSome_iff_exists.mp hsome
  have hkey : found.key = e.key := by simpa using List.find?_some hfound
  have hsame : found = e :=
    m.eq_of_clash (fun _ _ => Eq.symm) (List.mem_of_find?_eq_some hfound) h hkey
  rw [lookup, Table.find, hfound, hsame]
  rfl

theorem lookup_of_forall {m : Attempts} {key : Str} (h : ∀ e ∈ m.rows, e.key ≠ key) :
    lookup m key = [] := by
  have hnone : (m.rows.find? fun e => e.key = key) = none :=
    List.find?_eq_none.mpr fun e he => by simpa using h e he
  rw [lookup, Table.find, hnone]
  rfl

theorem lookup_store (m : Attempts) (key : Str) (times : List Time) (k : Str) :
    lookup (store m key times) k = if k = key then times else lookup m k := by
  unfold store Table.upsert
  cases hinsert : m.insert ⟨key, times⟩ with
  | some grown =>
    dsimp only
    obtain ⟨hfresh, hrows⟩ := Table.insert_eq_some.mp hinsert
    by_cases hk : k = key
    · subst hk
      rw [if_pos rfl]
      refine @lookup_of_mem grown ⟨k, times⟩ ?_
      rw [hrows]
      exact List.mem_append_right _ (List.mem_singleton_self _)
    · rw [if_neg hk, lookup, Table.find_of_insert hinsert, if_neg (by simpa using Ne.symm hk),
        Option.or_none, lookup]
  | none =>
    dsimp only
    obtain ⟨e, he, hclash⟩ := Table.insert_eq_none.mp hinsert
    by_cases hk : k = key
    · subst hk
      rw [if_pos rfl]
      refine @lookup_of_mem _ ⟨k, times⟩ ?_
      rw [Table.rows_update]
      refine List.mem_map.mpr ⟨e, he, ?_⟩
      rw [if_pos (decide_eq_true hclash), assign]
      exact congrArg (Entry.mk · times) hclash
    · rw [if_neg hk, lookup, Table.find_update (keeps_assign times) fun _ => rfl]
      cases hfind : m.find fun e => decide (e.key = k) with
      | none => simp only [lookup, hfind, Option.map_none]
      | some found =>
        have hfound : found.key = k := by simpa using List.find?_some hfind
        have hother : ¬ entryClash found ⟨key, times⟩ := by
          intro heq
          exact hk (hfound.symm.trans heq)
        simp only [lookup, hfind, Option.map_some, Option.elim_some]
        rw [if_neg (by simpa using hother)]

theorem lookup_delete (m : Attempts) (key k : Str) :
    lookup (delete m key) k = if k = key then [] else lookup m k := by
  by_cases hk : k = key
  · rw [if_pos hk]
    refine lookup_of_forall fun e he => ?_
    have hne := (List.mem_filter.mp he).2
    rw [hk]
    simpa using hne
  · rw [if_neg hk]
    by_cases hmem : ∃ e ∈ m.rows, e.key = k
    · obtain ⟨e, he, rfl⟩ := hmem
      rw [lookup_of_mem he]
      exact lookup_of_mem (List.mem_filter.mpr ⟨he, by simpa using hk⟩)
    · have hnone : ∀ e ∈ m.rows, e.key ≠ k := fun e he heq => hmem ⟨e, he, heq⟩
      rw [lookup_of_forall hnone]
      exact lookup_of_forall fun e he => hnone e (List.mem_filter.mp he).1

theorem lookup_prune (m : Attempts) (now : Time) (k : Str) :
    lookup (prune m now) k = (lookup m k).filter (recent now) := by
  by_cases hmem : ∃ e ∈ m.rows, e.key = k
  · obtain ⟨e, he, rfl⟩ := hmem
    rw [lookup_of_mem he]
    by_cases hempty : e.attempts.filter (recent now) = []
    · rw [hempty]
      refine lookup_of_forall fun kept hkept heq => ?_
      obtain ⟨e', he', hkeep⟩ := List.mem_filterMap.mp hkept
      have hsame : e' = e :=
        m.eq_of_clash (fun _ _ => Eq.symm) he' he ((key_of_keep hkeep).symm.trans heq)
      rw [hsame, keep, if_pos hempty] at hkeep
      cases hkeep
    · refine @lookup_of_mem (prune m now) { e with attempts := e.attempts.filter (recent now) } ?_
      exact List.mem_filterMap.mpr ⟨e, he, if_neg hempty⟩
  · have hnone : ∀ e ∈ m.rows, e.key ≠ k := fun e he heq => hmem ⟨e, he, heq⟩
    rw [lookup_of_forall hnone]
    refine lookup_of_forall fun kept hkept heq => ?_
    obtain ⟨e, he, hkeep⟩ := List.mem_filterMap.mp hkept
    exact hnone e he ((key_of_keep hkeep).symm.trans heq)

/-! ## What the limiter remembers -/

def since (start t : Time) : Bool := start.nanos ≤ t.nanos

theorem countP_recent {start now : Time} (h : now.nanos < start.nanos + 900 * GoTime.second)
    (times : List Time) : (times.filter (recent now)).countP (since start) =
      times.countP (since start) := by
  rw [List.countP_filter]
  refine List.countP_congr fun t _ => ?_
  simp only [since, recent, Bool.and_eq_true, decide_eq_true_eq]
  omega

theorem countP_pruned {start now : Time} (h : now.nanos < start.nanos + 900 * GoTime.second)
    (l : Limiter) (k : Str) :
    (lookup (pruneAttemptsLocked l now).attempts k).countP (since start) =
      (lookup l.attempts k).countP (since start) := by
  unfold pruneAttemptsLocked
  split
  · rfl
  · rw [lookup_prune, countP_recent h]

/-- The test forgets no attempt of the last 15 minutes. -/
theorem countP_tested {start pruneAt now : Time} (hle : pruneAt.nanos ≤ now.nanos)
    (h : now.nanos < start.nanos + 900 * GoTime.second) (l : Limiter) (key k : Str) :
    (lookup (tooManyAttempts l key pruneAt now).2.attempts k).countP (since start) =
      (lookup l.attempts k).countP (since start) := by
  have hpruned := @countP_pruned start pruneAt (by omega)
    { l with attemptOps := l.attemptOps + 1 } k
  unfold tooManyAttempts
  dsimp only
  split
  · exact hpruned
  · rw [lookup_store]
    split
    · rename_i hkey
      rw [countP_recent h, ← hkey]
      exact hpruned
    · exact hpruned

/-! ## The budget of a key -/

/-- Every right password for the key was checked before `start`. -/
def NoneRight (s : Gate) (key : Str) (start : Time) : Prop :=
  ∀ f ∈ s.flights, f.post.key = key → ∀ t, f.phase.rightAt = some t → t.nanos < start.nanos

def wrongSince (key : Str) (start : Time) (f : Flight) : Bool :=
  f.post.key = key && f.phase.wrongAt.any (since start)

def recordedSince (key : Str) (start : Time) (f : Flight) : Bool :=
  f.post.key = key && f.phase.recordedAt.any (since start)

/-- What counts against the key: wrong passwords and requests still to be checked. -/
def charged (key : Str) (start : Time) (f : Flight) : Bool :=
  f.post.key = key && (f.phase.isPassed || f.phase.wrongAt.any (since start))

/-- Of a start within the last 15 minutes and without a right password since, the recorded failures
are in the map and at most 5 requests are charged. -/
structure Budgeted (s : Gate) : Prop where
  past : ∀ f ∈ s.flights, ∀ t, f.phase.wrongAt = some t ∨ f.phase.rightAt = some t →
    t.nanos ≤ s.clock.nanos
  stored : ∀ key start, s.clock.nanos < start.nanos + 900 * GoTime.second →
    NoneRight s key start → s.flights.countP (recordedSince key start) ≤
      (lookup s.limiter.attempts key).countP (since start)
  budget : ∀ key start, s.clock.nanos < start.nanos + 900 * GoTime.second →
    NoneRight s key start → s.flights.countP (charged key start) ≤ 5
  limited : Limited s

theorem wrongSince_charged {key : Str} {start : Time} {f : Flight}
    (h : wrongSince key start f = true) : charged key start f = true := by
  simp only [wrongSince, charged, Bool.and_eq_true, Bool.or_eq_true] at h ⊢
  exact ⟨h.1, Or.inr h.2⟩

theorem charged_le (flights : List Flight) (key : Str) (start : Time) :
    flights.countP (charged key start) ≤ flights.countP (recordedSince key start) +
      flights.countP fun f => f.post.key = key && f.phase.unsettled := by
  induction flights with
  | nil => exact le_refl 0
  | cons f flights ih =>
    have hone : (if charged key start f then 1 else 0) ≤
        (if recordedSince key start f then 1 else 0) +
          if (decide (f.post.key = key) && f.phase.unsettled) = true then 1 else 0 := by
      obtain ⟨post, phase⟩ := f
      by_cases hkey : post.key = key
      · cases phase with
        | passed => simp [charged, recordedSince, Phase.isPassed, Phase.unsettled, hkey]
        | failed checkedAt =>
          cases checkedAt with
          | none => simp [charged, Phase.isPassed, Phase.wrongAt]
          | some t =>
            simp only [Phase.unsettled, hkey, decide_true, Bool.and_self, if_true]
            split <;> omega
        | matched t => simp [charged, Phase.isPassed, Phase.wrongAt]
        | recorded checkedAt =>
          simp [charged, recordedSince, Phase.isPassed, Phase.wrongAt, Phase.recordedAt]
        | cleared t => simp [charged, Phase.isPassed, Phase.wrongAt]
      · simp [charged, hkey]
    rw [List.countP_cons, List.countP_cons, List.countP_cons]
    omega

theorem countP_set {flights : List Flight} {i : ℕ} {f : Flight} (h : flights[i]? = some f)
    (g : Flight) (p : Flight → Bool) :
    (flights.set i g).countP p + (if p f then 1 else 0) =
      flights.countP p + if p g then 1 else 0 := by
  obtain ⟨hi, rfl⟩ := List.getElem?_eq_some_iff.mp h
  have hpos : p flights[i] = true → 0 < flights.countP p := fun hp =>
    List.countP_pos_iff.mpr ⟨flights[i], List.getElem_mem hi, hp⟩
  rw [List.countP_set hi]
  by_cases hp : p flights[i] = true
  · have := hpos hp
    rw [if_pos hp]
    omega
  · rw [if_neg hp]
    omega

theorem mem_or_mem_set {flights : List Flight} {i : ℕ} {f : Flight} (h : flights[i]? = some f)
    (g : Flight) {a : Flight} (ha : a ∈ flights) : a = f ∨ a ∈ flights.set i g := by
  obtain ⟨hi, rfl⟩ := List.getElem?_eq_some_iff.mp h
  obtain ⟨j, hj, rfl⟩ := List.mem_iff_getElem.mp ha
  by_cases hij : i = j
  · subst hij
    exact Or.inl rfl
  · refine Or.inr (List.mem_iff_getElem.mpr ⟨j, by rwa [List.length_set], ?_⟩)
    rw [List.getElem_set_ne hij]

/-- A window that holds the clock is within the budget; one that is over does not change. -/
theorem limited_of_budget {s t : Gate} (hs : Limited s)
    (past : ∀ f ∈ t.flights, ∀ u, f.phase.wrongAt = some u ∨ f.phase.rightAt = some u →
      u.nanos ≤ t.clock.nanos)
    (budget : ∀ key start, t.clock.nanos < start.nanos + 900 * GoTime.second →
      NoneRight t key start → t.flights.countP (charged key start) ≤ 5)
    (hover : ∀ key start, start.nanos + 900 * GoTime.second ≤ t.clock.nanos →
      (t.flights.countP fun f => f.post.key = key && f.phase.wrongAt.any (within start)) ≤
        s.flights.countP fun f => f.post.key = key && f.phase.wrongAt.any (within start))
    (kept : ∀ f ∈ s.flights, ∀ u, f.phase.rightAt = some u →
      ∃ g ∈ t.flights, g.post.key = f.post.key ∧ g.phase.rightAt = some u) : Limited t := by
  intro key start hnone
  by_cases hopen : t.clock.nanos < start.nanos + 900 * GoTime.second
  · have hright : NoneRight t key start := by
      intro f hf hkey u hu
      have hwindow := hnone f hf hkey u hu
      have hpast := past f hf u (Or.inr hu)
      simp only [within, Bool.and_eq_false_iff, decide_eq_false_iff_not] at hwindow
      omega
    refine Nat.le_trans (List.countP_mono_left fun f _ hwrong => ?_) (budget key start hopen hright)
    apply wrongSince_charged
    simp only [wrongSince, Bool.and_eq_true, decide_eq_true_eq, Option.any_eq_true] at hwrong ⊢
    obtain ⟨hkey, u, hu, hwithin⟩ := hwrong
    refine ⟨hkey, u, hu, ?_⟩
    simp only [within, since, Bool.and_eq_true, decide_eq_true_eq] at hwithin ⊢
    exact hwithin.1
  · refine (hover key start (by omega)).trans (hs key start fun f hf hkey u hu => ?_)
    obtain ⟨g, hg, hgkey, hgright⟩ := kept f hf u hu
    exact hnone g hg (hgkey.trans hkey) u hgright

theorem budgeted_initial (clock : Time) : Budgeted (.initial clock) := by
  constructor
  · intro f hf
    cases hf
  · intro key start _ _
    exact Nat.zero_le _
  · intro key start _ _
    exact Nat.zero_le _
  · intro key start _
    exact Nat.zero_le _

variable {checkSecret : Str → Str → Bool} {s t : Gate}

/-! What each step does. -/

theorem next_arrive {post : Post} {pruneAt now : Time}
    (h : next checkSecret s (.arrive post pruneAt now) = some t) :
    s.clock.nanos ≤ pruneAt.nanos ∧ pruneAt.nanos ≤ now.nanos ∧
      t = ⟨(tooManyAttempts s.limiter post.key pruneAt now).2, now,
        if (tooManyAttempts s.limiter post.key pruneAt now).1 then s.flights
        else s.flights ++ [⟨post, .passed⟩]⟩ := by
  simp only [next] at h
  split at h
  · rename_i htimes
    simp only [Bool.and_eq_true, decide_eq_true_eq] at htimes
    exact ⟨htimes.1, htimes.2, (Option.some.inj h).symm⟩
  · cases h

theorem next_check {i : ℕ} {now : Time} (h : next checkSecret s (.check i now) = some t) :
    s.clock.nanos ≤ now.nanos ∧ ∃ post, s.flights[i]? = some ⟨post, .passed⟩ ∧
      t = { s with
        clock := now
        flights := s.flights.set i ⟨post, checkForm checkSecret post now⟩ } := by
  simp only [next] at h
  split at h
  · rename_i hnow
    split at h
    · rename_i post hflight
      exact ⟨hnow, post, hflight, (Option.some.inj h).symm⟩
    · cases h
  · cases h

theorem next_settle {i : ℕ} {now : Time} (h : next checkSecret s (.settle i now) = some t) :
    s.clock.nanos ≤ now.nanos ∧ ∃ post,
      (∃ checkedAt, s.flights[i]? = some ⟨post, .failed checkedAt⟩ ∧
        t = ⟨addAttempt s.limiter post.key now, now,
          s.flights.set i ⟨post, .recorded checkedAt⟩⟩) ∨
      ∃ checkedAt, s.flights[i]? = some ⟨post, .matched checkedAt⟩ ∧
        t = ⟨clearAttempts s.limiter post.key, now,
          s.flights.set i ⟨post, .cleared checkedAt⟩⟩ := by
  simp only [next] at h
  split at h
  · rename_i hnow
    split at h
    · rename_i post checkedAt hflight
      exact ⟨hnow, post, Or.inl ⟨checkedAt, hflight, (Option.some.inj h).symm⟩⟩
    · rename_i post checkedAt hflight
      exact ⟨hnow, post, Or.inr ⟨checkedAt, hflight, (Option.some.inj h).symm⟩⟩
    · cases h
  · cases h

/-- A request is refused, or let through with room for one more. -/
theorem budgeted_arrive {post : Post} {pruneAt now : Time} (hs : Budgeted s)
    (hok : undisturbed s (.arrive post pruneAt now) = true)
    (h : next checkSecret s (.arrive post pruneAt now) = some t) : Budgeted t := by
  obtain ⟨hprune, hnow, rfl⟩ := next_arrive h
  have hlookup (key : Str) {start : Time} (hopen : now.nanos < start.nanos + 900 * GoTime.second) :=
    countP_tested hnow hopen s.limiter post.key key
  simp only [undisturbed, Bool.or_eq_true, decide_eq_true_eq] at hok
  generalize tooManyAttempts s.limiter post.key pruneAt now = tested at hok hlookup ⊢
  obtain ⟨tooMany, limiter⟩ := tested
  dsimp only at hok hlookup ⊢
  cases tooMany with
  | true =>
    constructor
    · intro f hf u hu
      have hpast := hs.past f hf u hu
      dsimp only
      omega
    · intro key start hopen hnone
      rw [hlookup key hopen]
      dsimp only at hopen
      exact hs.stored key start (by omega) hnone
    · intro key start hopen hnone
      dsimp only at hopen
      exact hs.budget key start (by omega) hnone
    · exact hs.limited
  | false =>
    simp only [Bool.false_eq_true, if_false, false_or] at hok ⊢
    have hright {key : Str} {start : Time} {clock : Time} {l : Limiter}
        (hnone : NoneRight ⟨l, clock, s.flights ++ [⟨post, .passed⟩]⟩ key start) :
        NoneRight s key start :=
      fun f hf => hnone f (List.mem_append_left _ hf)
    have hpast : ∀ f ∈ s.flights ++ [Flight.mk post .passed], ∀ u,
        f.phase.wrongAt = some u ∨ f.phase.rightAt = some u → u.nanos ≤ now.nanos := by
      intro f hf u hu
      rcases List.mem_append.mp hf with hf | hf
      · have hold := hs.past f hf u hu
        omega
      · rw [List.mem_singleton.mp hf] at hu
        rcases hu with hu | hu
        · cases hu
        · cases hu
    have hbudget : ∀ key start, now.nanos < start.nanos + 900 * GoTime.second →
        NoneRight ⟨limiter, now, s.flights ++ [⟨post, .passed⟩]⟩ key start →
          (s.flights ++ [Flight.mk post .passed]).countP (charged key start) ≤ 5 := by
      intro key start hopen hnone
      rw [List.countP_append, List.countP_singleton]
      by_cases hkey : post.key = key
      · subst hkey
        have hstored := hs.stored post.key start (by omega) (hright hnone)
        have hcharged := charged_le s.flights post.key start
        have hrecent : (lookup s.limiter.attempts post.key).countP (since start) ≤
            ((lookup s.limiter.attempts post.key).filter (recent now)).length := by
          rw [← countP_recent hopen]
          exact List.countP_le_length
        split <;> omega
      · have hother : charged key start ⟨post, .passed⟩ = false := by
          simp [charged, hkey]
        have hold := hs.budget key start (by omega) (hright hnone)
        rw [hother]
        simpa using hold
    refine ⟨hpast, ?_, hbudget, limited_of_budget hs.limited hpast hbudget ?_ ?_⟩
    · intro key start hopen hnone
      have hold := hs.stored key start (by dsimp only at hopen; omega) (hright hnone)
      have hnew : recordedSince key start ⟨post, .passed⟩ = false := by
        simp [recordedSince, Phase.recordedAt]
      rw [hlookup key hopen, List.countP_append, List.countP_singleton, hnew]
      simpa using hold
    · intro key start _
      rw [List.countP_append, List.countP_singleton]
      simp [Phase.wrongAt]
    · intro f hf u hu
      exact ⟨f, List.mem_append_left _ hf, rfl, hu⟩

/-- Replacing a request by itself in a later phase keeps the right checks. -/
theorem noneRight_set {i : ℕ} {f g : Flight} (hf : s.flights[i]? = some f) {l : Limiter}
    {clock start : Time} {key : Str} (h : NoneRight ⟨l, clock, s.flights.set i g⟩ key start)
    (hkey : g.post.key = f.post.key)
    (hright : ∀ u, f.phase.rightAt = some u → g.phase.rightAt = some u) :
    NoneRight s key start := by
  intro a ha hakey u hu
  rcases mem_or_mem_set hf g ha with rfl | hmem
  · have hmem : g ∈ s.flights.set i g :=
      List.mem_set (List.getElem?_eq_some_iff.mp hf).1 g
    exact h g hmem (hkey.trans hakey) u (hright u hu)
  · exact h a hmem hakey u hu

theorem past_set {i : ℕ} {g : Flight} {now : Time} (hs : Budgeted s)
    (hnow : s.clock.nanos ≤ now.nanos)
    (hg : ∀ u, g.phase.wrongAt = some u ∨ g.phase.rightAt = some u → u.nanos ≤ now.nanos) :
    ∀ a ∈ s.flights.set i g, ∀ u, a.phase.wrongAt = some u ∨ a.phase.rightAt = some u →
      u.nanos ≤ now.nanos := by
  intro a ha u hu
  rcases List.mem_or_eq_of_mem_set ha with ha | rfl
  · have hold := hs.past a ha u hu
    omega
  · exact hg u hu

/-- Where a check is kept, so is the limit. -/
theorem limited_set {i : ℕ} {f g : Flight} {now : Time} {l : Limiter} (hs : Budgeted s)
    (hf : s.flights[i]? = some f) (hkey : g.post.key = f.post.key)
    (hright : ∀ u, f.phase.rightAt = some u → g.phase.rightAt = some u)
    (hwrong : ∀ u, g.phase.wrongAt = some u → f.phase.wrongAt = some u ∨ u = now)
    (past : ∀ a ∈ s.flights.set i g, ∀ u, a.phase.wrongAt = some u ∨ a.phase.rightAt = some u →
      u.nanos ≤ now.nanos)
    (budget : ∀ key start, now.nanos < start.nanos + 900 * GoTime.second →
      NoneRight ⟨l, now, s.flights.set i g⟩ key start →
        (s.flights.set i g).countP (charged key start) ≤ 5) :
    Limited ⟨l, now, s.flights.set i g⟩ := by
  refine limited_of_budget hs.limited past budget (fun key start hover => ?_) fun a ha u hu => ?_
  · have hcount := countP_set hf g fun a =>
      decide (a.post.key = key) && a.phase.wrongAt.any (within start)
    have hone : (if (decide (g.post.key = key) && g.phase.wrongAt.any (within start)) = true
        then 1 else 0) ≤
        if (decide (f.post.key = key) && f.phase.wrongAt.any (within start)) = true
          then 1 else 0 := by
      by_cases hg : (decide (g.post.key = key) && g.phase.wrongAt.any (within start)) = true
      · have hf' : (decide (f.post.key = key) && f.phase.wrongAt.any (within start)) = true := by
          simp only [Bool.and_eq_true, decide_eq_true_eq, Option.any_eq_true] at hg ⊢
          obtain ⟨hgkey, u, hu, hin⟩ := hg
          refine ⟨hkey.symm.trans hgkey, u, ?_, hin⟩
          rcases hwrong u hu with hold | rfl
          · exact hold
          · simp only [within, Bool.and_eq_true, decide_eq_true_eq] at hin
            dsimp only at hover
            omega
        rw [if_pos hf']
        split <;> omega
      · rw [if_neg hg]
        exact Nat.zero_le _
    dsimp only
    omega
  · rcases mem_or_mem_set hf g ha with rfl | hmem
    · exact ⟨g, List.mem_set (List.getElem?_eq_some_iff.mp hf).1 g, hkey, hright u hu⟩
    · exact ⟨a, hmem, rfl, hu⟩

theorem wrongAt_checkForm {post : Post} {now u : Time}
    (h : (checkForm checkSecret post now).wrongAt = some u) : u = now := by
  unfold checkForm at h
  split at h
  · cases h
  · split at h
    · cases h
    · exact (Option.some.inj h).symm

theorem rightAt_checkForm {post : Post} {now u : Time}
    (h : (checkForm checkSecret post now).rightAt = some u) : u = now := by
  unfold checkForm at h
  split at h
  · cases h
  · split at h
    · exact (Option.some.inj h).symm
    · cases h

theorem checkForm_unrecorded (post : Post) (now : Time) :
    (checkForm checkSecret post now).recordedAt = none ∧
      (checkForm checkSecret post now).isPassed = false := by
  unfold checkForm
  split
  · exact ⟨rfl, rfl⟩
  · split
    · exact ⟨rfl, rfl⟩
    · exact ⟨rfl, rfl⟩

/-- A check uses up the charge of its request. -/
theorem budgeted_check {i : ℕ} {now : Time} (hs : Budgeted s)
    (h : next checkSecret s (.check i now) = some t) : Budgeted t := by
  obtain ⟨hnow, post, hf, rfl⟩ := next_check h
  obtain ⟨hunrecorded, hchecked⟩ := @checkForm_unrecorded checkSecret post now
  have hpast := @past_set s i ⟨post, checkForm checkSecret post now⟩ now hs hnow (by
    intro u hu
    rcases hu with hu | hu
    · rw [wrongAt_checkForm hu]
    · rw [rightAt_checkForm hu])
  have hright {l : Limiter} {clock start : Time} {key : Str}
      (hnone : NoneRight ⟨l, clock, s.flights.set i ⟨post, checkForm checkSecret post now⟩⟩ key
        start) : NoneRight s key start :=
    noneRight_set hf hnone rfl fun u hu => by cases hu
  have hbudget : ∀ key start, now.nanos < start.nanos + 900 * GoTime.second →
      NoneRight ⟨s.limiter, now, s.flights.set i ⟨post, checkForm checkSecret post now⟩⟩ key
        start →
      (s.flights.set i ⟨post, checkForm checkSecret post now⟩).countP (charged key start) ≤ 5 := by
    intro key start hopen hnone
    have hold := hs.budget key start (by omega) (hright hnone)
    have hcount := countP_set hf ⟨post, checkForm checkSecret post now⟩ (charged key start)
    by_cases hkey : post.key = key
    · have hpassed : charged key start ⟨post, .passed⟩ = true := by
        simp [charged, Phase.isPassed, hkey]
      rw [hpassed, if_pos rfl] at hcount
      split at hcount <;> omega
    · have hother : charged key start ⟨post, checkForm checkSecret post now⟩ = false := by
        simp [charged, hkey]
      rw [hother] at hcount
      simp only [Bool.false_eq_true, if_false] at hcount
      omega
  refine ⟨hpast, ?_, hbudget, limited_set hs hf rfl (fun u hu => by cases hu)
    (fun u hu => Or.inr (wrongAt_checkForm hu)) hpast hbudget⟩
  intro key start hopen hnone
  have hold := hs.stored key start (by dsimp only at hopen; omega) (hright hnone)
  have hcount := countP_set hf ⟨post, checkForm checkSecret post now⟩ (recordedSince key start)
  have hnew : recordedSince key start ⟨post, checkForm checkSecret post now⟩ = false := by
    simp [recordedSince, hunrecorded]
  rw [hnew] at hcount
  simp only [Bool.false_eq_true, if_false] at hcount
  dsimp only
  omega

/-- A settled request stays charged for its wrong check. -/
theorem charged_settled {post : Post} {phase phase' : Phase}
    (hwrong : phase'.wrongAt = phase.wrongAt)
    (hpassed : phase'.isPassed = phase.isPassed) (key : Str) (start : Time) :
    charged key start ⟨post, phase'⟩ = charged key start ⟨post, phase⟩ := by
  simp only [charged, hwrong, hpassed]

theorem budgeted_settle {i : ℕ} {now : Time} (hs : Budgeted s)
    (hok : undisturbed s (.settle i now) = true)
    (h : next checkSecret s (.settle i now) = some t) : Budgeted t := by
  have hpast {f g : Flight} (hnow : s.clock.nanos ≤ now.nanos) (hf : s.flights[i]? = some f)
      (hwrong : g.phase.wrongAt = f.phase.wrongAt) (hright : g.phase.rightAt = f.phase.rightAt) :=
    @past_set s i g now hs hnow (by
      intro u hu
      rw [hwrong, hright] at hu
      have hold := hs.past f (List.mem_of_getElem? hf) u hu
      omega)
  have hbudget {f g : Flight} {l : Limiter} (hnow : s.clock.nanos ≤ now.nanos)
      (hf : s.flights[i]? = some f) (hkey : g.post.key = f.post.key)
      (hright : g.phase.rightAt = f.phase.rightAt)
      (hsame : ∀ key start, charged key start g = charged key start f) :
      ∀ key start, now.nanos < start.nanos + 900 * GoTime.second →
        NoneRight ⟨l, now, s.flights.set i g⟩ key start →
          (s.flights.set i g).countP (charged key start) ≤ 5 := by
    intro key start hopen hnone
    have hold := hs.budget key start (by omega)
      (noneRight_set hf hnone hkey fun u hu => hright.trans hu)
    have hcount := countP_set hf g (charged key start)
    rw [hsame key start] at hcount
    omega
  obtain ⟨hnow, post, ⟨checkedAt, hf, rfl⟩ | ⟨checkedAt, hf, rfl⟩⟩ := next_settle h
  · -- the failure goes into the map
    have hp := @hpast _ ⟨post, .recorded checkedAt⟩ hnow hf rfl rfl
    have hb := @hbudget _ ⟨post, .recorded checkedAt⟩ (addAttempt s.limiter post.key now) hnow hf
      rfl rfl (charged_settled rfl rfl)
    refine ⟨hp, ?_, hb, limited_set hs hf rfl (fun u hu => hu) (fun u hu => Or.inl hu) hp hb⟩
    intro key start hopen hnone
    dsimp only at hopen
    have hold := hs.stored key start (by omega)
      (noneRight_set hf hnone rfl fun u hu => hu)
    have hcount := countP_set hf ⟨post, .recorded checkedAt⟩ (recordedSince key start)
    have hbefore : recordedSince key start ⟨post, .failed checkedAt⟩ = false := by
      simp [recordedSince, Phase.recordedAt]
    rw [hbefore] at hcount
    simp only [Bool.false_eq_true, if_false] at hcount
    dsimp only [addAttempt]
    rw [lookup_store]
    by_cases hkey : key = post.key
    · subst hkey
      rw [if_pos rfl, List.countP_append, List.countP_singleton]
      by_cases hsince : recordedSince post.key start ⟨post, .recorded checkedAt⟩ = true
      · have hlate : since start now = true := by
          simp only [recordedSince, Phase.recordedAt, Bool.and_eq_true, Option.any_eq_true,
            since, decide_eq_true_eq] at hsince ⊢
          obtain ⟨-, u, hu, hle⟩ := hsince
          have hpastu := hs.past _ (List.mem_of_getElem? hf) u (Or.inl hu)
          omega
        rw [if_pos hsince] at hcount
        rw [if_pos hlate]
        omega
      · rw [if_neg hsince] at hcount
        omega
    · have hother : recordedSince key start ⟨post, .recorded checkedAt⟩ = false := by
        simp [recordedSince, Ne.symm hkey]
      rw [if_neg hkey]
      rw [hother] at hcount
      simp only [Bool.false_eq_true, if_false] at hcount
      omega
  · -- a success clears no failure that still counts
    have hp := @hpast _ ⟨post, .cleared checkedAt⟩ hnow hf rfl rfl
    have hb := @hbudget _ ⟨post, .cleared checkedAt⟩ (clearAttempts s.limiter post.key) hnow hf
      rfl rfl (charged_settled rfl rfl)
    refine ⟨hp, ?_, hb, limited_set hs hf rfl (fun u hu => hu) (fun u hu => Or.inl hu) hp hb⟩
    intro key start hopen hnone
    dsimp only at hopen
    have hnone' := noneRight_set hf hnone rfl fun u hu => hu
    have hold := hs.stored key start (by omega) hnone'
    have hcount := countP_set hf ⟨post, .cleared checkedAt⟩ (recordedSince key start)
    have hnew : recordedSince key start ⟨post, .cleared checkedAt⟩ = false := by
      simp [recordedSince, Phase.recordedAt]
    rw [hnew] at hcount
    simp only [Bool.false_eq_true, if_false] at hcount
    dsimp only [clearAttempts]
    rw [lookup_delete]
    by_cases hkey : key = post.key
    · subst hkey
      have hbefore := hnone' _ (List.mem_of_getElem? hf) rfl checkedAt rfl
      have hzero : s.flights.countP (recordedSince post.key start) = 0 := by
        rw [List.countP_eq_zero]
        intro a ha hrecorded
        simp only [undisturbed, hf, List.all_eq_true, Bool.or_eq_true, decide_eq_true_eq] at hok
        simp only [recordedSince, Bool.and_eq_true, decide_eq_true_eq, Option.any_eq_true,
          since] at hrecorded
        obtain ⟨hakey, u, hu, hle⟩ := hrecorded
        rcases hok a ha with hne | hall
        · exact hne hakey
        · rw [hu, Option.all_some, decide_eq_true_eq] at hall
          omega
      rw [if_pos rfl]
      omega
    · rw [if_neg hkey]
      omega

theorem budgeted_next {step : Step} (hs : Budgeted s) (hok : undisturbed s step = true)
    (h : next checkSecret s step = some t) : Budgeted t := by
  cases step with
  | arrive post pruneAt now => exact budgeted_arrive hs hok h
  | check i now => exact budgeted_check hs h
  | settle i now => exact budgeted_settle hs hok h

/-- In a run of undisturbed steps at most 5 wrong passwords are checked for a key within 15
minutes without a right one. -/
theorem limited_while_undisturbed {clock : Time} {steps : List Step}
    (h : Execution (next checkSecret) (.initial clock) steps t)
    (hok : ∀ before step later s, steps = before ++ step :: later →
      Execution (next checkSecret) (.initial clock) before s → undisturbed s step = true) :
    Limited t :=
  (h.invariant_of (budgeted_initial clock) (fun _ _ _ hs hu hstep => budgeted_next hs hu hstep)
    hok).limited

/-- A request that finds none of its key under way meets the condition. -/
theorem undisturbed_alone {post : Post} {pruneAt now : Time} (hle : pruneAt.nanos ≤ now.nanos)
    (h : ∀ f ∈ s.flights, f.post.key = post.key → f.phase.unsettled = false) :
    undisturbed s (.arrive post pruneAt now) = true := by
  have halone : (s.flights.countP fun f => f.post.key = post.key && f.phase.unsettled) = 0 := by
    rw [List.countP_eq_zero]
    intro f hf hboth
    simp only [Bool.and_eq_true, decide_eq_true_eq] at hboth
    rw [h f hf hboth.1] at hboth
    exact absurd hboth.2 (by decide)
  have hpruned : (lookup (pruneAttemptsLocked { s.limiter with
      attemptOps := s.limiter.attemptOps + 1 } pruneAt).attempts post.key).filter (recent now) =
        (lookup s.limiter.attempts post.key).filter (recent now) := by
    unfold pruneAttemptsLocked
    split
    · rfl
    · rw [lookup_prune, List.filter_filter]
      refine List.filter_congr fun u _ => ?_
      simp only [recent]
      by_cases hrecent : now.nanos - 900 * GoTime.second < u.nanos
      · have hkept : pruneAt.nanos - 900 * GoTime.second < u.nanos := by omega
        simp [hrecent, hkept]
      · simp [hrecent]
  simp only [undisturbed, halone, Nat.add_zero, Bool.or_eq_true, decide_eq_true_eq]
  unfold tooManyAttempts
  dsimp only
  rw [hpruned]
  split
  · exact Or.inl rfl
  · by_cases hfive : 5 ≤ ((lookup s.limiter.attempts post.key).filter (recent now)).length
    · exact Or.inl (decide_eq_true hfive)
    · exact Or.inr (by omega)

/-! ## Guesses side by side -/

def protectedLink : Link := { id := 1, passwordProtected := true, passwordHash := lit "hash" }

def guess (password : Str) : Post := ⟨protectedLink, lit "203.0.113.7", some password⟩

def opens (_ secret : Str) : Bool := secret = lit "open sesame"

def noon : Time := ⟨1767268800 * GoTime.second⟩

/-- Six requests pass the test before the first one is checked. -/
def sideBySide : List Step :=
  List.replicate 6 (.arrive (guess (lit "1234")) noon noon) ++ (List.range 6).map (.check · noon)

theorem guesses_side_by_side :
    ∃ t, Execution (next opens) (.initial noon) sideBySide t ∧ ¬ Limited t := by
  obtain ⟨t, ht, hcounts⟩ := Option.map_eq_some_iff.mp (show
    (replay (next opens) (.initial noon) sideBySide).map (fun t =>
      (t.flights.countP fun f => f.post.key = attemptKey 1 (lit "203.0.113.7") &&
        f.phase.wrongAt.any (within noon),
        t.flights.all fun f => f.phase.rightAt.isNone)) = some (6, true) by decide)
  obtain ⟨hsix, hnone⟩ := Prod.mk.inj hcounts
  refine ⟨t, execution_of_replay ht, fun hlimited => ?_⟩
  have hfive := hlimited (attemptKey 1 (lit "203.0.113.7")) noon fun f hf _ u hu => by
    have hright := List.all_eq_true.mp hnone f hf
    rw [hu] at hright
    cases hright
  rw [hsix] at hfive
  exact absurd hfive (by decide)

/-- One request after another. -/
def oneByOne : List Step :=
  [.arrive (guess (lit "1234")) noon noon, .check 0 noon, .settle 0 noon,
    .arrive (guess (lit "open sesame")) noon noon, .check 1 noon, .settle 1 noon]

theorem limited_while_undisturbed_one_by_one :
    ∃ t, Execution (next opens) (.initial noon) oneByOne t ∧ Limited t := by
  have hreplay : (replay (next opens) (.initial noon) oneByOne).isSome := by decide
  have hchecks : checks (next opens) undisturbed (.initial noon) oneByOne = true := by
    decide
  obtain ⟨t, ht⟩ := Option.isSome_iff_exists.mp hreplay
  refine ⟨t, execution_of_replay ht, limited_while_undisturbed (execution_of_replay ht) ?_⟩
  intro before step later s heq hs
  exact checked_label (heq ▸ hchecks) hs

end PasswordGate
