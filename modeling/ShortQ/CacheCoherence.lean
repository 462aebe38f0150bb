import Mathlib.Logic.Function.Basic
import Mathlib.Order.Nat
import ShortQ.LabelledRuns
import ShortQ.LinkStore
import ShortQ.RedirectCache

/-! # One cache key under concurrent resolves and mutations

Each cache call, each load and each database write is one atomic step. -/
namespace CacheCoherence

open GoText (Str lit)
open LabelledRuns
open Models
open Schema
open Transaction
open LinkStore
open RedirectCache

inductive Mutation where
  | create (io after : Script) (random : Str) (u : User) (link : Link) (passwordHash : Str)
  | update (io after : Script) (u : User) (id : ℤ) (link : Link) (passwordHash : Str)
      (passwordChanged : Bool)
  | updateBulk (io after : Script) (u : User) (updates : List LinkUpdate)
  | delete (io : Script) (u : User) (id : ℤ)

/-- Whether the store call returned nil, and the database it left. -/
def Mutation.run (db : Database) : Mutation → Bool × Database
  | .create io after random u link hash =>
    ((createLink io after db random u link hash).1.toBool,
      (createLinkWrite io db random u link hash).2)
  | .update io after u id link hash changed =>
    ((updateLink io after db u id link hash changed).1.toBool,
      (updateLinkWrite io db u id link hash changed).2)
  | .updateBulk io after u updates =>
    ((updateLinksBulk io after db u updates).1.toBool, (updateLinksBulkWrite io db u updates).2)
  | .delete io u id => ((deleteLink io db u id).1.isNone, (deleteLink io db u id).2)

/-- A `Resolve` call and the floor it started under. -/
inductive Reader where
  | idle
  | running (floor : ℕ) (step : Resolve)

/-- A mutation request; it invalidates only after the store call returned nil. -/
inductive Writer where
  | idle
  | committed (version : ℕ)
  | finished

/-- The database with its past versions, oldest first. The floor is the newest version whose
`Invalidate` has returned nil. -/
structure System where
  older : List Database
  db : Database
  cache : Option CachedRedirect
  floor : ℕ
  readers : ℕ → Reader
  writers : ℕ → Writer

def System.versions (s : System) : List Database := s.older ++ [s.db]

inductive Event where
  | start (r : ℕ)
  | get (r : ℕ) (ok : Bool)
  | load (r : ℕ) (io : Script)
  | set (r : ℕ) (call : CacheCall)
  | mutate (w : ℕ) (m : Mutation)
  | invalidate (w : ℕ) (call : CacheCall)
  | expire

def System.advance (s : System) (r floor : ℕ) (step : Resolve) : System :=
  { s with readers := Function.update s.readers r (.running floor step) }

def next (slug : Str) (s : System) : Event → Option System
  | .start r =>
    match s.readers r with
    | .idle => some (s.advance r s.floor .get)
    | _ => none
  | .get r ok =>
    match s.readers r with
    | .running floor .get =>
      some (s.advance r floor (Resolve.afterGet (if ok then some s.cache else none)))
    | _ => none
  | .load r io =>
    match s.readers r with
    | .running floor .load => some (s.advance r floor (Resolve.afterLoad (linkBySlug io s.db slug)))
    | _ => none
  | .set r call =>
    match s.readers r with
    | .running floor (.set link cached) =>
      if call.possible then
        some { s.advance r floor (.done (.ok link)) with
          cache := if call.applied then some cached else s.cache }
      else none
    | _ => none
  | .mutate w m =>
    match s.writers w with
    | .idle =>
      some { s with
        older := s.older ++ [s.db]
        db := (m.run s.db).2
        writers := Function.update s.writers w
          (if (m.run s.db).1 then .committed (s.older.length + 1) else .finished) }
    | _ => none
  | .invalidate w call =>
    match s.writers w with
    | .committed version =>
      if call.possible then
        some { s with
          cache := if call.applied then none else s.cache
          floor := if call.ok then max s.floor version else s.floor
          writers := Function.update s.writers w .finished }
      else none
    | _ => none
  | .expire => some { s with cache := none }

/-- The cache entry is what `FromLink` makes of the link in this version. -/
def Caches (slug : Str) (db : Database) (cached : CachedRedirect) : Prop :=
  ∃ link, linkBySlug {} db slug = .ok link ∧ fromLink link = some cached

/-- The result a load of this version gives, or its cached form. -/
def Serves (slug : Str) (db : Database) (result : Except Err Link) : Prop :=
  result = linkBySlug {} db slug ∨
    ∃ cached link, Caches slug db cached ∧ cached.link = some link ∧ result = .ok link

def Failed (result : Except Err Link) : Prop := ∃ text, result = .error (.database text)

/-- The result comes from a version not older than the floor, unless the database failed. -/
def UpToDate (slug : Str) (s : System) (floor : ℕ) (result : Except Err Link) : Prop :=
  Failed result ∨ ∃ k db, floor ≤ k ∧ s.versions[k]? = some db ∧ Serves slug db result

/-- The slug belongs to a deleted link. -/
def Retired (slug : Str) (db : Database) : Prop :=
  ∃ r ∈ db.links.rows, r.slug = slug ∧ r.deletedAt.isSome

/-- Every finished `Resolve` served data at least as new as the floor it started under, and
not-found where that version had deleted the link. -/
def Coherent (slug : Str) (s : System) : Prop :=
  ∀ r floor result, s.readers r = .running floor (.done result) →
    UpToDate slug s floor result ∧
      ∀ db, s.versions[floor]? = some db → Retired slug db →
        result = .error .noRows ∨ Failed result

/-- A write that reaches the cache stores what some version from the floor on would store. -/
def Timely (slug : Str) (s : System) : Event → Prop
  | .set r call => call.applied = true →
    ∀ floor link cached, s.readers r = .running floor (.set link cached) →
      ∃ k db, s.floor ≤ k ∧ s.versions[k]? = some db ∧ Caches slug db cached
  | _ => True

structure Start (slug : Str) (s : System) : Prop where
  older : s.older = []
  floor : s.floor = 0
  readers : ∀ r, s.readers r = .idle
  writers : ∀ w, s.writers w = .idle
  cache : ∀ cached, s.cache = some cached → cached.version = SchemaVersion →
    Caches slug s.db cached

/-! ## Deleted slugs stay deleted -/

theorem retired_run {slug : Str} {db : Database} (m : Mutation) (h : Retired slug db) :
    Retired slug (m.run db).2 := by
  have hevolves : Evolves db (m.run db).2 := by
    cases m with
    | create io after random u link hash => exact evolves_createLinkWrite io db random u link hash
    | update io after u id link hash changed =>
      exact evolves_updateLinkWrite io db u id link hash changed
    | updateBulk io after u updates => exact evolves_updateLinksBulkWrite io db u updates
    | delete io u id => exact evolves_deleteLink io db u id
  obtain ⟨r, hr, hslug, hd⟩ := h
  obtain ⟨r', hr', -, hslug', hd'⟩ := hevolves r hr
  exact ⟨r', hr', hslug'.trans hslug, hd' hd⟩

theorem linkBySlug_cases (io : Script) (db : Database) (slug : Str) :
    linkBySlug io db slug = linkBySlug {} db slug ∨ Failed (linkBySlug io db slug) := by
  unfold linkBySlug readLink Script.call
  cases io.exec 0 with
  | some text => exact Or.inr ⟨text, rfl⟩
  | none =>
    cases db.links.find _ with
    | none => exact Or.inl rfl
    | some r =>
      cases io.exec 1 with
      | some text => exact Or.inr ⟨text, rfl⟩
      | none => exact Or.inl rfl

theorem linkBySlug_retired {slug : Str} {db : Database} (h : Retired slug db) :
    linkBySlug {} db slug = .error .noRows := by
  obtain ⟨r, hr, hslug, hd⟩ := h
  have hfind : (db.links.find fun r => r.slug = slug && r.deletedAt.isNone) = none := by
    rw [RowTable.Table.find, List.find?_eq_none]
    intro a ha hlive
    simp only [Bool.and_eq_true, decide_eq_true_eq, Option.isNone_iff_eq_none] at hlive
    obtain rfl := db.links.eq_of_clash linkClash_symm ha hr (Or.inr (hlive.1.trans hslug.symm))
    rw [hlive.2] at hd
    cases hd
  unfold linkBySlug readLink Script.call
  rw [hfind]

theorem serves_retired {slug : Str} {db : Database} {result : Except Err Link}
    (h : Retired slug db) (hs : Serves slug db result) : result = .error .noRows := by
  have hnone := linkBySlug_retired h
  rcases hs with heq | ⟨cached, link, ⟨l, hl, -⟩, -⟩
  · exact heq.trans hnone
  · rw [hnone] at hl
    cases hl

/-! ## The invariant of timely runs -/

/-- What a reader may hold. -/
def ReaderOk (slug : Str) (s : System) : Reader → Prop
  | .running floor (.set link cached) => floor ≤ s.floor ∧ fromLink link = some cached ∧
    ∃ k db, floor ≤ k ∧ s.versions[k]? = some db ∧ linkBySlug {} db slug = .ok link
  | .running floor (.done result) => floor ≤ s.floor ∧ UpToDate slug s floor result
  | .running floor _ => floor ≤ s.floor
  | .idle => True

structure Invariant (slug : Str) (s : System) : Prop where
  floor : s.floor ≤ s.older.length
  writers : ∀ w version, s.writers w = .committed version → version ≤ s.older.length
  cache : ∀ cached, s.cache = some cached → cached.version = SchemaVersion →
    ∃ k db, s.floor ≤ k ∧ s.versions[k]? = some db ∧ Caches slug db cached
  readers : ∀ r, ReaderOk slug s (s.readers r)
  retired : ∀ (i j : ℕ) (dbi dbj : Database), i ≤ j → s.versions[i]? = some dbi →
    s.versions[j]? = some dbj →
    Retired slug dbi → Retired slug dbj

theorem forall_update {α : Type*} {P : α → Prop} {f : ℕ → α} {i : ℕ} {v : α}
    (hf : ∀ j, P (f j)) (hv : P v) : ∀ j, P (Function.update f i v j) := by
  intro j
  by_cases hj : j = i
  · rw [hj, Function.update_self]
    exact hv
  · rw [Function.update_of_ne hj]
    exact hf j

theorem version_current (s : System) : s.versions[s.older.length]? = some s.db := by
  simp [System.versions]

theorem UpToDate.of_load {slug : Str} {s : System} {floor : ℕ} (h : floor ≤ s.older.length)
    (io : Script) : UpToDate slug s floor (linkBySlug io s.db slug) := by
  rcases linkBySlug_cases io s.db slug with heq | hfailed
  · rw [heq]
    exact Or.inr ⟨_, s.db, h, version_current s, Or.inl rfl⟩
  · exact Or.inl hfailed

theorem UpToDate.of_cache {slug : Str} {s : System} {floor : ℕ} {cached : CachedRedirect}
    {link : Link} (hlink : cached.link = some link)
    (h : ∃ k db, floor ≤ k ∧ s.versions[k]? = some db ∧ Caches slug db cached) :
    UpToDate slug s floor (.ok link) := by
  obtain ⟨k, db, hk, hdb, hcaches⟩ := h
  exact Or.inr ⟨k, db, hk, hdb, Or.inr ⟨cached, link, hcaches, hlink, rfl⟩⟩

theorem version_of_link {cached : CachedRedirect} {link : Link} (h : cached.link = some link) :
    cached.version = SchemaVersion := by
  by_contra hne
  simp [CachedRedirect.link, hne] at h

/-- What held of a reader stays true when versions are added and the floor rises. -/
theorem ReaderOk.mono {slug : Str} {s t : System} {x : Reader} (hfloor : s.floor ≤ t.floor)
    (hversions : ∀ (k : ℕ) (db : Database), s.versions[k]? = some db → t.versions[k]? = some db)
    (h : ReaderOk slug s x) : ReaderOk slug t x := by
  rcases x with _ | ⟨floor, step⟩
  · trivial
  · cases step with
    | get => exact le_trans h hfloor
    | load => exact le_trans h hfloor
    | set link cached =>
      obtain ⟨hle, hfrom, k, db, hk, hdb, hlink⟩ := h
      exact ⟨hle.trans hfloor, hfrom, k, db, hk, hversions k db hdb, hlink⟩
    | done result =>
      refine ⟨h.1.trans hfloor, h.2.imp id ?_⟩
      rintro ⟨k, db, hk, hdb, hserves⟩
      exact ⟨k, db, hk, hversions k db hdb, hserves⟩

theorem invariant_start {slug : Str} {s : System} (h : Start slug s) : Invariant slug s where
  floor := by rw [h.floor]; exact Nat.zero_le _
  writers w version hw := by
    rw [h.writers w] at hw
    cases hw
  cache cached hc hv := ⟨0, s.db, h.floor.le, by simp [System.versions, h.older],
    h.cache cached hc hv⟩
  readers r := by
    rw [h.readers r]
    trivial
  retired i j dbi dbj hij hi hj hretired := by
    have hlength : s.versions = [s.db] := by simp [System.versions, h.older]
    rw [hlength] at hi hj
    have hi0 : i = 0 := by
      have := (List.getElem?_eq_some_iff.mp hi).1
      simp only [List.length_singleton] at this
      omega
    have hj0 : j = 0 := by
      have := (List.getElem?_eq_some_iff.mp hj).1
      simp only [List.length_singleton] at this
      omega
    subst hi0 hj0
    rw [hi] at hj
    cases hj
    exact hretired

/-- A reader moves on and nothing else changes. -/
theorem Invariant.advance {slug : Str} {s : System} (h : Invariant slug s) {r floor : ℕ}
    {step : Resolve} (hstep : ReaderOk slug s (.running floor step)) :
    Invariant slug (s.advance r floor step) where
  floor := h.floor
  writers := h.writers
  cache := h.cache
  readers := by
    intro q
    have hq := forall_update (i := r) h.readers hstep q
    exact hq.mono le_rfl fun _ _ hdb => hdb
  retired := h.retired

theorem invariant_get {slug : Str} {s : System} (h : Invariant slug s) {r floor : ℕ}
    (hr : s.readers r = .running floor .get) (ok : Bool) :
    Invariant slug (s.advance r floor (Resolve.afterGet (if ok then some s.cache else none))) := by
  have hfloor : floor ≤ s.floor := by
    have hreader := h.readers r
    rw [hr] at hreader
    exact hreader
  refine h.advance ?_
  cases ok with
  | false => exact hfloor
  | true =>
    cases hc : s.cache with
    | none => exact hfloor
    | some cached =>
      simp only [Resolve.afterGet, if_true]
      split
      · rename_i link hlink
        obtain ⟨k, db, hk, hdb, hcaches⟩ := h.cache cached hc (version_of_link hlink)
        exact ⟨hfloor, .of_cache hlink ⟨k, db, hfloor.trans hk, hdb, hcaches⟩⟩
      · exact hfloor

theorem invariant_load {slug : Str} {s : System} (h : Invariant slug s) {r floor : ℕ}
    (hr : s.readers r = .running floor .load) (io : Script) :
    Invariant slug (s.advance r floor (Resolve.afterLoad (linkBySlug io s.db slug))) := by
  have hfloor : floor ≤ s.floor := by
    have hreader := h.readers r
    rw [hr] at hreader
    exact hreader
  have hcurrent : floor ≤ s.older.length := hfloor.trans h.floor
  have hload : UpToDate slug s floor (linkBySlug io s.db slug) := .of_load hcurrent io
  refine h.advance ?_
  cases hresult : linkBySlug io s.db slug with
  | error e =>
    rw [hresult] at hload
    exact ⟨hfloor, hload⟩
  | ok link =>
    rw [hresult] at hload
    simp only [Resolve.afterLoad]
    split
    · exact ⟨hfloor, hload⟩
    · rename_i cached hfrom
      refine ⟨hfloor, hfrom, s.older.length, s.db, hcurrent, version_current s, ?_⟩
      rcases linkBySlug_cases io s.db slug with heq | ⟨text, hfailed⟩
      · exact heq.symm.trans hresult
      · rw [hresult] at hfailed
        cases hfailed

theorem invariant_set {slug : Str} {s : System} (h : Invariant slug s) {r floor : ℕ}
    {link : Link} {cached : CachedRedirect} {call : CacheCall}
    (hr : s.readers r = .running floor (.set link cached)) (htimely : Timely slug s (.set r call)) :
    Invariant slug { s.advance r floor (.done (.ok link)) with
      cache := if call.applied then some cached else s.cache } := by
  have hreader := h.readers r
  rw [hr] at hreader
  obtain ⟨hfloor, -, k, db, hk, hdb, hlink⟩ := hreader
  have hdone : ReaderOk slug s (.running floor (.done (.ok link))) :=
    ⟨hfloor, Or.inr ⟨k, db, hk, hdb, Or.inl hlink.symm⟩⟩
  have hadvance : Invariant slug (s.advance r floor (.done (.ok link))) := h.advance hdone
  refine ⟨h.floor, h.writers, ?_, hadvance.readers, h.retired⟩
  intro c hc hv
  cases happlied : call.applied with
  | false =>
    simp only [happlied, Bool.false_eq_true, if_false] at hc
    exact h.cache c hc hv
  | true =>
    simp only [happlied, if_true, Option.some.injEq] at hc
    subst hc
    exact htimely happlied floor link cached hr

theorem version_push {s : System} {db : Database} {k : ℕ} {v : Database}
    (h : s.versions[k]? = some v) : (s.versions ++ [db])[k]? = some v := by
  rw [List.getElem?_append_left (List.getElem?_eq_some_iff.mp h).1]
  exact h

theorem invariant_mutate {slug : Str} {s : System} (h : Invariant slug s) (w : ℕ) (m : Mutation) :
    Invariant slug { s with
      older := s.older ++ [s.db]
      db := (m.run s.db).2
      writers := Function.update s.writers w
        (if (m.run s.db).1 then .committed (s.older.length + 1) else .finished) } where
  floor := by
    have hle := h.floor
    simp only [List.length_append, List.length_singleton]
    omega
  writers := by
    have hold : ∀ v, (∀ version, s.writers v = .committed version →
        version ≤ (s.older ++ [s.db]).length) := by
      intro v version hv
      have hle := h.writers v version hv
      simp only [List.length_append, List.length_singleton]
      omega
    refine forall_update (P := fun x => ∀ version, x = Writer.committed version →
      version ≤ (s.older ++ [s.db]).length) hold ?_
    intro version hversion
    split at hversion
    · cases hversion
      simp
    · cases hversion
  cache cached hc hv := by
    obtain ⟨k, db, hk, hdb, hcaches⟩ := h.cache cached hc hv
    exact ⟨k, db, hk, version_push hdb, hcaches⟩
  readers r := ReaderOk.mono (s := s) le_rfl (fun _ _ hdb => version_push hdb) (h.readers r)
  retired := by
    intro i j dbi dbj hij hi hj hretired
    have hlength : s.versions.length = s.older.length + 1 := by simp [System.versions]
    change (s.versions ++ [(m.run s.db).2])[i]? = some dbi at hi
    change (s.versions ++ [(m.run s.db).2])[j]? = some dbj at hj
    by_cases hj' : j < s.versions.length
    · rw [List.getElem?_append_left hj'] at hj
      rw [List.getElem?_append_left (by omega)] at hi
      exact h.retired i j dbi dbj hij hi hj hretired
    · have hlast : (s.versions ++ [(m.run s.db).2]).length = s.versions.length + 1 := by simp
      have hjlt := (List.getElem?_eq_some_iff.mp hj).1
      obtain rfl : j = s.versions.length := by omega
      simp only [List.getElem?_concat_length, Option.some.injEq] at hj
      subst hj
      by_cases hi' : i < s.versions.length
      · rw [List.getElem?_append_left hi'] at hi
        exact retired_run m (h.retired i s.older.length dbi s.db (by omega) hi
          (version_current s) hretired)
      · obtain rfl : i = s.versions.length := by omega
        simp only [List.getElem?_concat_length, Option.some.injEq] at hi
        subst hi
        exact hretired

theorem invariant_invalidate {slug : Str} {s : System} (h : Invariant slug s) {w version : ℕ}
    {call : CacheCall} (hw : s.writers w = .committed version) (hpossible : call.possible) :
    Invariant slug { s with
      cache := if call.applied then none else s.cache
      floor := if call.ok then max s.floor version else s.floor
      writers := Function.update s.writers w .finished } where
  floor := by
    have hfloor := h.floor
    have hversion := h.writers w version hw
    dsimp only
    split
    · exact max_le hfloor hversion
    · exact hfloor
  writers := forall_update (P := fun x => ∀ version, x = Writer.committed version →
    version ≤ s.older.length) h.writers fun _ hfinished => by cases hfinished
  cache := by
    intro cached hc hv
    cases happlied : call.applied with
    | true => simp [happlied] at hc
    | false =>
      -- an entry that survives means the delete reported a failure
      have hfailed : call.ok = false := by
        simpa [CacheCall.possible, happlied] using hpossible
      simp only [happlied, Bool.false_eq_true, if_false] at hc
      simp only [hfailed, Bool.false_eq_true, if_false]
      exact h.cache cached hc hv
  readers r := by
    refine ReaderOk.mono (s := s) ?_ (fun _ _ hdb => hdb) (h.readers r)
    dsimp only
    split
    · exact le_max_left _ _
    · exact le_rfl
  retired := h.retired

theorem invariant_next {slug : Str} {s t : System} {e : Event} (h : Invariant slug s)
    (htimely : Timely slug s e) (hnext : next slug s e = some t) : Invariant slug t := by
  cases e with
  | start r =>
    simp only [next] at hnext
    split at hnext
    · cases hnext
      exact h.advance (le_refl s.floor)
    · cases hnext
  | get r ok =>
    simp only [next] at hnext
    split at hnext
    · rename_i floor hr
      cases hnext
      exact invariant_get h hr ok
    · cases hnext
  | load r io =>
    simp only [next] at hnext
    split at hnext
    · rename_i floor hr
      cases hnext
      exact invariant_load h hr io
    · cases hnext
  | set r call =>
    simp only [next] at hnext
    split at hnext
    · rename_i floor link cached hr
      split at hnext
      · cases hnext
        exact invariant_set h hr htimely
      · cases hnext
    · cases hnext
  | mutate w m =>
    simp only [next] at hnext
    split at hnext
    · cases hnext
      exact invariant_mutate h w m
    · cases hnext
  | invalidate w call =>
    simp only [next] at hnext
    split at hnext
    · rename_i version hw
      split at hnext
      · rename_i hpossible
        cases hnext
        exact invariant_invalidate h hw hpossible
      · cases hnext
    · cases hnext
  | expire =>
    cases hnext
    exact ⟨h.floor, h.writers, by simp, h.readers, h.retired⟩

theorem coherent_of_invariant {slug : Str} {s : System} (h : Invariant slug s) :
    Coherent slug s := by
  intro r floor result hr
  have hreader := h.readers r
  rw [hr] at hreader
  refine ⟨hreader.2, fun db hdb hretired => ?_⟩
  rcases hreader.2 with hfailed | ⟨k, dbk, hk, hdbk, hserves⟩
  · exact Or.inr hfailed
  · exact Or.inl (serves_retired (h.retired floor k db dbk hk hdb hdbk hretired) hserves)

/-! ## A late write makes the next resolve stale -/

/-- Every label of the run is timely in the state it is taken in. -/
def TimelyRun (slug : Str) (s : System) (es : List Event) : Prop :=
  ∀ xs e ys u, es = xs ++ e :: ys → Execution (next slug) s xs u → Timely slug u e

theorem invariant_execution {slug : Str} {s t : System} {es : List Event} (hs : Start slug s)
    (h : Execution (next slug) s es t) (htimely : TimelyRun slug s es) : Invariant slug t :=
  h.invariant_of (invariant_start hs) (fun _ _ _ hi he hstep => invariant_next hi he hstep) htimely

theorem caches_of_serves {slug : Str} {db : Database} {cached : CachedRedirect} {link : Link}
    (hlink : cached.link = some link) (h : Serves slug db (.ok link)) : Caches slug db cached := by
  rcases h with heq | ⟨other, l, ⟨stored, hstored, hfrom⟩, hother, heq⟩
  · exact ⟨link, heq.symm, fromLink_link hlink⟩
  · cases heq
    have hsame : other = cached := by
      have h₁ := fromLink_link hother
      rw [fromLink_link hlink] at h₁
      exact (Option.some.inj h₁).symm
    rw [← hsame]
    exact ⟨stored, hstored, hfrom⟩

theorem stale_hit {slug : Str} {s : System} {q : ℕ} {cached : CachedRedirect} {link : Link}
    (hc : s.cache = some cached) (hlink : cached.link = some link) (hq : s.readers q = .idle)
    (hstale : ¬ ∃ k db, s.floor ≤ k ∧ s.versions[k]? = some db ∧ Caches slug db cached) :
    ∃ t, Execution (next slug) s [.start q, .get q true] t ∧ ¬ Coherent slug t := by
  have hstart : next slug s (.start q) = some (s.advance q s.floor .get) := by
    simp only [next, hq]
  have hget : next slug (s.advance q s.floor .get) (.get q true) =
      some ((s.advance q s.floor .get).advance q s.floor (.done (.ok link))) := by
    simp only [next, System.advance, Function.update_self, Resolve.afterGet, if_true, hc, hlink]
  refine ⟨_, (Execution.single hstart).append (.single hget), fun hcoherent => ?_⟩
  have hdone := (hcoherent q s.floor (.ok link) (by simp [System.advance])).1
  rcases hdone with ⟨text, hfailed⟩ | ⟨k, db, hk, hdb, hserves⟩
  · cases hfailed
  · exact hstale ⟨k, db, hk, hdb, caches_of_serves hlink hserves⟩

theorem stale_of_untimely {slug : Str} {s t : System} {e : Event} {q : ℕ}
    (hs : Invariant slug s) (huntimely : ¬ Timely slug s e) (hnext : next slug s e = some t)
    (hq : t.readers q = .idle) :
    ∃ u, Execution (next slug) t [.start q, .get q true] u ∧ ¬ Coherent slug u := by
  cases e with
  | set r call =>
    simp only [Timely, not_forall] at huntimely
    obtain ⟨happlied, floor, link, cached, hr, hstale⟩ := huntimely
    have hfrom : fromLink link = some cached := by
      have hreader := hs.readers r
      rw [hr] at hreader
      exact hreader.2.1
    obtain ⟨l, hl⟩ := link_of_fromLink hfrom
    simp only [next, hr, happlied, if_true] at hnext
    split at hnext
    · cases hnext
      exact stale_hit rfl hl hq hstale
    · cases hnext
  | _ => exact absurd trivial huntimely

/-- While every cache write is timely no resolve is stale; the first one that is not makes
the next hit stale. -/
theorem coherent_while_timely {slug : Str} {s t : System} {es : List Event}
    (hs : Start slug s) (h : Execution (next slug) s es t) (htimely : TimelyRun slug s es) :
    Coherent slug t ∧ ∀ e u q, ¬ Timely slug t e → next slug t e = some u →
      u.readers q = .idle →
        ∃ v, Execution (next slug) u [.start q, .get q true] v ∧ ¬ Coherent slug v := by
  have hinvariant := invariant_execution hs h htimely
  exact ⟨coherent_of_invariant hinvariant, fun _ _ _ huntimely hnext hq =>
    stale_of_untimely hinvariant huntimely hnext hq⟩

def raceStart : System :=
  ⟨[], Database.single sampleLink, none, 0, fun _ => .idle, fun _ => .idle⟩

/-- An edit of the target of the sample link. -/
def retarget : Mutation :=
  .update {} {} ⟨1, some 1, .superadmin⟩ 1
    { scanLink sampleLink with targetUrl := lit "https://example.org/" } [] false

theorem start_raceStart : Start (lit "docs") raceStart where
  older := rfl
  floor := rfl
  readers _ := rfl
  writers _ := rfl
  cache _ h := by cases h

/-- A resolve, an edit, and a second resolve, one after the other. -/
def sequentialTrace : List Event :=
  [.start 1, .get 1 true, .load 1 {}, .set 1 ⟨true, true⟩, .mutate 1 retarget,
    .invalidate 1 ⟨true, true⟩, .start 2, .get 2 true, .load 2 {}]

/-- The first resolve stores what it loaded after the edit was invalidated. -/
def raceTrace : List Event :=
  [.start 1, .get 1 true, .load 1 {}, .mutate 1 retarget, .invalidate 1 ⟨true, true⟩,
    .set 1 ⟨true, true⟩, .start 2, .get 2 true]

/-- The floor and the target of a finished resolve. -/
def served (s : System) (r : ℕ) : Option (ℕ × Str) :=
  match s.readers r with
  | .running floor (.done (.ok link)) => some (floor, link.targetUrl)
  | _ => none

theorem served_eq_some {s : System} {r floor : ℕ} {target : Str}
    (h : served s r = some (floor, target)) :
    ∃ link, s.readers r = .running floor (.done (.ok link)) ∧ link.targetUrl = target := by
  unfold served at h
  split at h
  · rename_i hr
    cases h
    exact ⟨_, hr, rfl⟩
  · cases h

theorem targetUrl_of_serves {slug : Str} {db : Database} {link : Link}
    (h : Serves slug db (.ok link)) :
    (linkBySlug {} db slug).toOption.map Link.targetUrl = some link.targetUrl := by
  rcases h with heq | ⟨cached, l, ⟨stored, hstored, hfrom⟩, hl, heq⟩
  · rw [← heq]
    rfl
  · cases heq
    rw [hstored]
    unfold fromLink at hfrom
    split at hfrom
    · cases hfrom
    · cases hfrom
      cases hl
      rfl

/-- The edit is committed and invalidated, and a resolve that starts later still serves the
target it replaced. -/
theorem stale_after_invalidate :
    ¬ ∀ slug s t es, Start slug s → Execution (next slug) s es t → Coherent slug t := by
  intro hall
  have hfigures : (replay (next (lit "docs")) raceStart raceTrace).map (fun t =>
      (served t 2, t.older.length,
        (linkBySlug {} t.db (lit "docs")).toOption.map Link.targetUrl)) =
      some (some (1, lit "https://example.com/"), 1, some (lit "https://example.org/")) := by
    decide +kernel
  obtain ⟨t, ht, heq⟩ := Option.map_eq_some_iff.mp hfigures
  obtain ⟨hserved, hrest⟩ := Prod.mk.inj heq
  obtain ⟨holder, htarget⟩ := Prod.mk.inj hrest
  obtain ⟨link, hr, hold⟩ := served_eq_some hserved
  have hcoherent := hall (lit "docs") raceStart t raceTrace start_raceStart (execution_of_replay ht)
  rcases (hcoherent 2 1 (.ok link) hr).1 with ⟨text, hfailed⟩ | ⟨k, db, hk, hdb, hserves⟩
  · cases hfailed
  · have hlength := (List.getElem?_eq_some_iff.mp hdb).1
    simp only [System.versions, List.length_append, List.length_singleton, holder] at hlength
    obtain rfl : k = 1 := by omega
    have hcurrent := version_current t
    rw [holder, hdb] at hcurrent
    cases hcurrent
    have hnew := targetUrl_of_serves hserves
    rw [htarget, hold] at hnew
    revert hnew
    decide

/-- The pending write of a reader is what the current database would cache. -/
def pendingIsCurrent (s : System) (r : ℕ) : Bool :=
  match s.readers r with
  | .running _ (.set _ cached) =>
    (linkBySlug {} s.db (lit "docs")).toOption.bind fromLink = some cached
  | _ => false

theorem caches_of_pendingIsCurrent {s : System} {r floor : ℕ} {link : Link}
    {cached : CachedRedirect} (h : pendingIsCurrent s r = true)
    (hr : s.readers r = .running floor (.set link cached)) : Caches (lit "docs") s.db cached := by
  unfold pendingIsCurrent at h
  rw [hr] at h
  have hbind := of_decide_eq_true h
  cases hload : linkBySlug {} s.db (lit "docs") with
  | error e => simp [hload, Except.toOption] at hbind
  | ok stored => exact ⟨stored, hload, by simpa [hload, Except.toOption] using hbind⟩

/-- In the sequential trace the only cache write is timely, and the second resolve serves
the new target. -/
theorem coherent_while_timely_sequential :
    ∃ t, Execution (next (lit "docs")) raceStart sequentialTrace t ∧ Coherent (lit "docs") t := by
  have hsome : (replay (next (lit "docs")) raceStart sequentialTrace).isSome := by decide +kernel
  obtain ⟨t, ht⟩ := Option.isSome_iff_exists.mp hsome
  have hrun := execution_of_replay ht
  refine ⟨t, hrun, (coherent_while_timely start_raceStart hrun ?_).1⟩
  intro xs e ys u hes hu
  cases e with
  | set r call =>
    have hat : sequentialTrace[xs.length]? = some (.set r call) := by rw [hes]; simp
    have hxs : xs = sequentialTrace.take xs.length := by rw [hes]; simp
    have hthree : xs.length = 3 ∧ r = 1 := by
      generalize xs.length = i at hat
      rcases i with _ | _ | _ | _ | _ | _ | _ | _ | _ | i <;>
        simp [sequentialTrace] at hat ⊢
      exact hat.1.symm
    obtain ⟨hlength, rfl⟩ := hthree
    rw [hlength] at hxs
    have hcurrent : (replay (next (lit "docs")) raceStart (sequentialTrace.take 3)).any (fun u =>
        u.floor ≤ u.older.length && pendingIsCurrent u 1) = true := by decide +kernel
    rw [hxs] at hu
    rw [hu.replay_eq] at hcurrent
    simp only [Option.any_some, Bool.and_eq_true, decide_eq_true_eq] at hcurrent
    intro _ floor link cached hr
    exact ⟨u.older.length, u.db, hcurrent.1, version_current u,
      caches_of_pendingIsCurrent hcurrent.2 hr⟩
  | _ => trivial

end CacheCoherence
