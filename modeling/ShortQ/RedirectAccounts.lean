import ShortQ.ClickBatch
import ShortQ.LabelledRuns
import ShortQ.LinkWrites
import ShortQ.RedirectEvents

/-! # What redirects leave behind

Redirect requests side by side, on any links and with time passing, while the database answers:
which of them leave a click event, where, and what is counted. -/
namespace RedirectAccounts

open ClickBatch
open ClickStore
open GoText
open GoTime (Time)
open LabelledRuns
open LinkStore
open Models
open RedirectCache
open RedirectEvents
open RedirectHandler (linkExpired)
open RowTable
open Schema
open Transaction

/-- How `Publish` ends. After an error the broker may still hold the message. -/
inductive Publish where
  /-- There is no publisher. -/
  | off
  | confirmed
  | failed (taken : Bool)
  deriving DecidableEq, Repr

/-- A request whose click was handed to `recordClick`, with what that returned. -/
structure Settled where
  link : Link
  event : ClickEvent
  increment : Bool
  ok : Bool
  err : Option Err
  reply : Reply

inductive Phase where
  | idle
  | bypassing (slug : Str)
  | resolving (slug key : Str) (step : Resolve)
  | recording (link : Link) (event : ClickEvent) (increment : Bool) (maxClicks : Option ℤ)
      (reply : Bool → Option Err → Reply)
  | replied (reply : Reply)
  | settled (a : Settled)

/-- `queue` holds the messages that the broker has taken, `issued` the event ids drawn so far. -/
structure State where
  db : Database
  cache : Str → Option CachedRedirect
  queue : List ClickEvent
  issued : List ℕ
  requests : ℕ → Phase

inductive Event where
  | start (r : ℕ) (slug key : Str) (cached : Bool)
  | get (r : ℕ) (ok : Bool)
  | load (r : ℕ)
  | set (r : ℕ) (call : CacheCall)
  | check (r : ℕ) (v : Visit)
  | record (r : ℕ) (publish : Publish)

def State.advance (s : State) (r : ℕ) (x : Phase) : State :=
  { s with requests := Function.update s.requests r x }

/-- The message of an event. -/
def message (event : ClickEvent) (increment : Bool) : ClickEvent :=
  { event with increment := increment }

/-- `Recorder.Record`. -/
def record (publish : Publish) (db : Database) (queue : List ClickEvent) (event : ClickEvent)
    (increment : Bool) (maxClicks : Option ℤ) : (Bool × Option Err) × Database × List ClickEvent :=
  match publish, maxClicks with
  | .confirmed, none => ((true, none), db, queue ++ [message event increment])
  | .failed taken, none =>
    let result := recordClick {} db (message event increment) increment none
    (result.1, result.2, if taken then queue ++ [message event increment] else queue)
  | _, _ =>
    let result := recordClick {} db (message event increment) increment maxClicks
    (result.1, result.2, queue)

/-- The id of an event as the database reads it. -/
def eventId (event : ClickEvent) : Option ℕ := (nullableUuid event.eventId).join

/-- The checks, and the event of the click. `newEventID` draws a new id, and the clock is set. -/
def check (site : Site) (s : State) (r : ℕ) (v : Visit) (result : Except Err Link) :
    Option State :=
  match redirectSlug site v result, result with
  | .replied reply, _ => some (s.advance r (.replied reply))
  | .recording event increment maxClicks reply, .ok link =>
    match eventId event with
    | none => none
    | some u =>
      if s.issued.contains u || event.occurredAt.isZero then none
      else some { s.advance r (.recording link event increment maxClicks reply) with
        issued := u :: s.issued }
  | .recording .., .error _ => none

def next (site : Site) (s : State) : Event → Option State
  | .start r slug key cached =>
    match s.requests r with
    | .idle =>
      some (s.advance r (if cached then .resolving slug key .get else .bypassing slug))
    | _ => none
  | .get r ok =>
    match s.requests r with
    | .resolving slug key .get => some (s.advance r
        (.resolving slug key (Resolve.afterGet (if ok then some (s.cache key) else none))))
    | _ => none
  | .load r =>
    match s.requests r with
    | .bypassing slug =>
      some (s.advance r (.resolving slug [] (.done (linkBySlug {} s.db slug))))
    | .resolving slug key .load =>
      some (s.advance r (.resolving slug key (Resolve.afterLoad (linkBySlug {} s.db slug))))
    | _ => none
  | .set r call =>
    match s.requests r with
    | .resolving slug key (.set link cached) =>
      if call.possible then
        some { s.advance r (.resolving slug key (.done (.ok link))) with
          cache := if call.applied then Function.update s.cache key (some cached) else s.cache }
      else none
    | _ => none
  | .check r v =>
    match s.requests r with
    | .resolving _ _ (.done result) => check site s r v result
    | _ => none
  | .record r publish =>
    match s.requests r with
    | .recording link event increment maxClicks reply =>
      let result := record publish s.db s.queue event increment maxClicks
      some { s.advance r (.settled ⟨link, event, increment, result.1.1, result.1.2,
          reply result.1.1 result.1.2⟩) with
        db := result.2.1
        queue := result.2.2 }
    | _ => none

/-! ## Accounts -/

/-- The rows of an event. -/
def stored (s : State) (u : ℕ) : List ClickRow := s.db.clicks.rows.filter (·.eventId = some u)

/-- The messages of an event. -/
def queued (s : State) (u : ℕ) : List ClickEvent := s.queue.filter (eventId · = some u)

/-- The event is entered once: as its row, which a message of the same id does not double, or as
its only message when the link has no limit. -/
def Entered (s : State) (a : Settled) : Prop :=
  ∃ u, eventId a.event = some u ∧
    ((∃ row, clickRow a.event a.event.occurredAt = some row ∧ stored s u = [row] ∧
        ∀ e ∈ queued s u, e = message a.event a.increment) ∨
      (a.link.maxClicks = none ∧ stored s u = [] ∧
        queued s u = [message a.event a.increment]))

def Absent (s : State) (a : Settled) : Prop :=
  ∃ u, eventId a.event = some u ∧ stored s u = [] ∧ queued s u = []

def Live (db : Database) (id : ℤ) : Prop := ∃ row, db.link id = some row ∧ row.deletedAt = none

/-- The rows of a link that are no refused attempts. -/
def countable (db : Database) (id : ℤ) : ℕ :=
  db.clicks.rows.countP fun row => row.linkId = id && row.routeType ≠ lit "expired"

/-- No request has begun, what is cached are live links, and the ids in use were drawn. -/
structure Start (s : State) : Prop where
  idle : ∀ r, s.requests r = .idle
  cache : ∀ key cached, s.cache key = some cached → Live s.db cached.id
  issued : ∀ u, u ∉ s.issued → stored s u = [] ∧ queued s u = []

/-! ## What the handler asks for -/

/-- The routes of a resolved target. -/
def routes : List Str := [lit "country", lit "ios", lit "android", lit "default"]

/-- What `redirectSlug` hands to `recordClick`. -/
structure Asked (link : Link) (event : ClickEvent) (increment : Bool) (maxClicks : Option ℤ)
    (reply : Bool → Option Err → Reply) : Prop where
  own : event.linkId = link.id
  limit : maxClicks = link.maxClicks
  refused : increment = false → (∃ now, linkExpired now link = true) ∧
    event.routeType = lit "expired" ∧ event.statusCode = 410 ∧
    ∀ ok err, reply ok err = expiredResponse link
  allowed : increment = true → event.routeType ∈ routes ∧ ∃ target, ∀ ok err, reply ok err =
    if err.isSome then .trackingFailed
    else if !ok then expiredResponse link
    else .redirect target link.redirectCode

theorem route_resolveTarget (letters : Letters) (l : Link) (country userAgent : Str) :
    (resolveTarget letters l country userAgent).2 ∈ routes := by
  have hroutes : lit "country" ∈ routes ∧ lit "ios" ∈ routes ∧ lit "android" ∈ routes ∧
      lit "default" ∈ routes := by decide
  unfold resolveTarget
  split
  · exact hroutes.1
  · dsimp only
    split
    · exact hroutes.2.1
    split
    · exact hroutes.2.2.1
    · exact hroutes.2.2.2

theorem asked_of_redirectSlug {site : Site} {v : Visit} {link : Link} {event : ClickEvent}
    {increment : Bool} {maxClicks : Option ℤ} {reply : Bool → Option Err → Reply}
    (h : redirectSlug site v (.ok link) = .recording event increment maxClicks reply) :
    Asked link event increment maxClicks reply := by
  unfold redirectSlug at h
  dsimp only at h
  split at h
  · cases h
  split at h
  · cases h
  split at h
  · rename_i hexpired
    cases h
    exact ⟨rfl, rfl, fun _ => ⟨⟨_, hexpired⟩, rfl, rfl, fun _ _ => rfl⟩,
      fun h => absurd h (by decide)⟩
  · cases h
    refine ⟨rfl, rfl, fun h => absurd h (by decide), fun _ => ⟨?_, _, fun _ _ => rfl⟩⟩
    exact route_resolveTarget site.letters link _ _

/-- A row of a resolved target is none of a refused attempt. -/
theorem route_of_row {event : ClickEvent} {row : ClickRow}
    (h : clickRow event event.occurredAt = some row) (hroute : event.routeType ∈ routes) :
    row.routeType ≠ lit "expired" := by
  have hsame : ∀ route ∈ routes, varchar 24 route ≠ some (lit "expired") := by decide
  intro heq
  have hread := routeType_of_clickRow h
  rw [heq] at hread
  exact hsame _ hroute hread

theorem route_of_expired {event : ClickEvent} {row : ClickRow}
    (h : clickRow event event.occurredAt = some row) (hroute : event.routeType = lit "expired") :
    row.routeType = lit "expired" := by
  have hsame : varchar 24 (lit "expired") = some (lit "expired") := by decide
  have hread := routeType_of_clickRow h
  rw [hroute, hsame] at hread
  exact (Option.some.inj hread).symm

/-! ## One call of `RecordClick` -/

/-- Everything a call can do for a new event of a live link. -/
theorem recordClick_fresh {db : Database} {event : ClickEvent} {increment : Bool}
    {maxClicks : Option ℤ} {u : ℕ} (hlive : Live db event.linkId)
    (ht : event.occurredAt.isZero = false) (hid : eventId event = some u)
    (hnew : ∀ row ∈ db.clicks.rows, row.eventId ≠ some u) :
    (clickRow event event.occurredAt = none ∧
      recordClick {} db event increment maxClicks = ((false, some .schema), db)) ∨
    ∃ row clicks, clickRow event event.occurredAt = some row ∧
      db.clicks.insert row = some clicks ∧
      (((increment = true → 0 < db.links.affected (underLimit event.linkId maxClicks)) ∧
        recordClick {} db event increment maxClicks = ((true, none),
          recorded db clicks increment (underLimit event.linkId maxClicks) row.rollupKey)) ∨
      (increment = true ∧ db.links.affected (underLimit event.linkId maxClicks) = 0 ∧
        recordClick {} db event increment maxClicks = ((false, none), db))) := by
  have hl : (db.link event.linkId).isSome := by
    obtain ⟨row, hrow, -⟩ := hlive
    rw [hrow]
    rfl
  cases hrow : clickRow event event.occurredAt with
  | none => exact Or.inl ⟨rfl, recordClick_unstorable healthy_default ht hrow⟩
  | some row =>
    right
    have hown : row.eventId = some u := by
      have hread := eventId_of_clickRow hrow
      rw [eventId, hread] at hid
      exact hid
    obtain ⟨clicks, hi⟩ : ∃ clicks, db.clicks.insert row = some clicks := by
      rw [← Option.ne_none_iff_exists']
      intro hnone
      obtain ⟨old, hold, -, heq⟩ := Table.insert_eq_none.mp hnone
      exact hnew old hold (heq.trans hown)
    refine ⟨row, clicks, rfl, hi, ?_⟩
    by_cases ha : increment = true → 0 < db.links.affected (underLimit event.linkId maxClicks)
    · exact Or.inl ⟨ha, recordClick_new healthy_default ht hrow hi hl ha⟩
    · obtain ⟨rfl, hzero⟩ := Classical.not_imp.mp ha
      have hnone := Nat.eq_zero_of_not_pos hzero
      exact Or.inr ⟨rfl, hnone, recordClick_limited healthy_default ht hrow hi hl hnone⟩

/-! ## The invariant -/

/-- What became of a request that was handed to `recordClick`. -/
structure Outcome (s : State) (a : Settled) : Prop where
  /-- Refused before the call. -/
  expired : a.increment = false → (∃ now, linkExpired now a.link = true) ∧
    a.reply = expiredResponse a.link ∧ a.event.routeType = lit "expired" ∧
    a.event.statusCode = 410 ∧ (Storable a.event → Entered s a)
  redirected : a.increment = true → a.err = none → a.ok = true →
    (∃ target, a.reply = .redirect target a.link.redirectCode) ∧ Entered s a
  /-- Refused by the call. -/
  limited : a.increment = true → a.err = none → a.ok = false →
    a.reply = expiredResponse a.link ∧ Absent s a ∧ ∃ m row, a.link.maxClicks = some m ∧
      s.db.link a.link.id = some row ∧ m ≤ row.clicks

/-- What a request holds. -/
def Fits (s : State) : Phase → Prop
  | .resolving _ _ (.set link cached) => Live s.db link.id ∧ cached.id = link.id
  | .resolving _ _ (.done (.ok link)) => Live s.db link.id
  | .recording link event increment maxClicks reply => Live s.db link.id ∧
    Asked link event increment maxClicks reply ∧ event.occurredAt.isZero = false ∧
    ∃ u, eventId event = some u ∧ stored s u = [] ∧ queued s u = []
  | .settled a => Outcome s a
  | _ => True

/-- The id of the event a request has drawn. -/
def idOf : Phase → Option ℕ
  | .recording _ event _ _ _ => eventId event
  | .settled a => eventId a.event
  | _ => none

structure Invariant (start s : State) : Prop where
  cache : ∀ key cached, s.cache key = some cached → Live s.db cached.id
  fits : ∀ r, Fits s (s.requests r)
  issued : ∀ u, u ∉ s.issued → stored s u = [] ∧ queued s u = []
  known : ∀ r u, idOf (s.requests r) = some u → u ∈ s.issued
  distinct : ∀ r q u, idOf (s.requests r) = some u → idOf (s.requests q) = some u → r = q
  counted : ∀ id row, start.db.link id = some row → ∃ row', s.db.link id = some row' ∧
    row'.clicks + countable start.db id = row.clicks + countable s.db id

theorem Start.invariant {s : State} (h : Start s) : Invariant s s where
  cache := h.cache
  fits r := by
    rw [h.idle r]
    trivial
  issued := h.issued
  known r u hu := by
    rw [h.idle r] at hu
    cases hu
  distinct r q u hu := by
    rw [h.idle r] at hu
    cases hu
  counted id row hrow := ⟨row, hrow, rfl⟩

/-- Links stay, and their counters do not fall. -/
structure Grows (db db' : Database) : Prop where
  link : ∀ id row, db.link id = some row → ∃ row', db'.link id = some row' ∧
    row'.deletedAt = row.deletedAt ∧ row.clicks ≤ row'.clicks

theorem Grows.refl (db : Database) : Grows db db := ⟨fun _ row h => ⟨row, h, rfl, le_refl _⟩⟩

theorem Grows.live {db db' : Database} (h : Grows db db') {id : ℤ} (hlive : Live db id) :
    Live db' id := by
  obtain ⟨row, hrow, hdeleted⟩ := hlive
  obtain ⟨row', hrow', hsame, -⟩ := h.link id row hrow
  exact ⟨row', hrow', hsame.trans hdeleted⟩

/-- The entries of an id are the same in both states. -/
def Same (s t : State) (u : ℕ) : Prop := stored t u = stored s u ∧ queued t u = queued s u

theorem Entered.congr {s t : State} {a : Settled} (h : Entered s a)
    (hsame : ∀ u, eventId a.event = some u → Same s t u) : Entered t a := by
  obtain ⟨u, hid, hentry⟩ := h
  obtain ⟨hstored, hqueued⟩ := hsame u hid
  rw [← hstored, ← hqueued] at hentry
  exact ⟨u, hid, hentry⟩

/-- What a request holds is not disturbed by the events of others. -/
theorem Fits.mono {s t : State} {x : Phase} (h : Fits s x) (hgrows : Grows s.db t.db)
    (hsame : ∀ u, idOf x = some u → Same s t u) : Fits t x := by
  cases x with
  | idle => trivial
  | bypassing slug => trivial
  | replied reply => trivial
  | resolving slug key step =>
    cases step with
    | get => trivial
    | load => trivial
    | set link cached => exact ⟨hgrows.live h.1, h.2⟩
    | done result =>
      cases result with
      | error e => trivial
      | ok link => exact hgrows.live h
  | recording link event increment maxClicks reply =>
    obtain ⟨hlive, hasked, hdated, u, hid, hstored, hqueued⟩ := h
    obtain ⟨hs, hq⟩ := hsame u hid
    exact ⟨hgrows.live hlive, hasked, hdated, u, hid, hs.trans hstored, hq.trans hqueued⟩
  | settled a =>
    have hout : Outcome s a := h
    constructor
    · intro hincrement
      obtain ⟨hexpired, hreply, hroute, hstatus, hentered⟩ := hout.expired hincrement
      exact ⟨hexpired, hreply, hroute, hstatus, fun hstorable => (hentered hstorable).congr hsame⟩
    · intro hincrement herr hok
      obtain ⟨htarget, hentered⟩ := hout.redirected hincrement herr hok
      exact ⟨htarget, hentered.congr hsame⟩
    · intro hincrement herr hok
      obtain ⟨hreply, ⟨u, hid, hstored, hqueued⟩, m, row, hm, hrow, hle⟩ :=
        hout.limited hincrement herr hok
      obtain ⟨hs, hq⟩ := hsame u hid
      obtain ⟨row', hrow', -, hclicks⟩ := hgrows.link _ row hrow
      exact ⟨hreply, ⟨u, hid, hs.trans hstored, hq.trans hqueued⟩, m, row', hm, hrow',
        hle.trans hclicks⟩

/-- One request moves, and enters nothing but its own event. -/
theorem Invariant.update {start s t : State} (h : Invariant start s) {r : ℕ} {x : Phase}
    (hrequests : t.requests = Function.update s.requests r x)
    (hgrows : Grows s.db t.db) (hfits : Fits t x)
    (hsame : ∀ u, idOf x ≠ some u → Same s t u)
    (hissued : ∀ u ∈ s.issued, u ∈ t.issued)
    (hknown : ∀ u, idOf x = some u → u ∈ t.issued ∧
      (idOf (s.requests r) = some u ∨ u ∉ s.issued))
    (hcache : ∀ key cached, t.cache key = some cached → Live t.db cached.id)
    (hcounted : ∀ id row, start.db.link id = some row → ∃ row', t.db.link id = some row' ∧
      row'.clicks + countable start.db id = row.clicks + countable t.db id) :
    Invariant start t := by
  have hother {q : ℕ} (hq : q ≠ r) : t.requests q = s.requests q := by
    rw [hrequests, Function.update_of_ne hq]
  have hself : t.requests r = x := by
    rw [hrequests, Function.update_self]
  -- no other request has the id of this one
  have hforeign {q : ℕ} (hq : q ≠ r) {u : ℕ} (hu : idOf (s.requests q) = some u) :
      idOf x ≠ some u := by
    intro hx
    rcases (hknown u hx).2 with hown | hnew
    · exact hq (h.distinct q r u hu hown)
    · exact hnew (h.known q u hu)
  constructor
  · exact hcache
  · intro q
    by_cases hq : q = r
    · rw [hq, hself]
      exact hfits
    · rw [hother hq]
      exact (h.fits q).mono hgrows fun u hu => hsame u (hforeign hq hu)
  · intro u hu
    have hx : idOf x ≠ some u := fun hx => hu (hknown u hx).1
    obtain ⟨hs, hq⟩ := hsame u hx
    obtain ⟨hstored, hqueued⟩ := h.issued u fun hmem => hu (hissued u hmem)
    exact ⟨hs.trans hstored, hq.trans hqueued⟩
  · intro q u hu
    by_cases hq : q = r
    · rw [hq, hself] at hu
      exact (hknown u hu).1
    · rw [hother hq] at hu
      exact hissued u (h.known q u hu)
  · intro q p u hu hp
    by_cases hq : q = r
    · by_cases hpr : p = r
      · rw [hq, hpr]
      · rw [hq, hself] at hu
        rw [hother hpr] at hp
        exact absurd hu (hforeign hpr hp)
    · rw [hother hq] at hu
      by_cases hpr : p = r
      · rw [hpr, hself] at hp
        exact absurd hp (hforeign hq hu)
      · rw [hother hpr] at hp
        exact h.distinct q p u hu hp
  · exact hcounted

/-- A request moves on, and may fill the cache, but leaves the tables and the queue alone. -/
theorem Invariant.move {start s : State} (h : Invariant start s) (r : ℕ) {x : Phase}
    {c : Str → Option CachedRedirect} (hfits : Fits s x) (hid : idOf x = none)
    (hcache : ∀ key cached, c key = some cached → Live s.db cached.id) :
    Invariant start { s.advance r x with cache := c } := by
  have hsame (t : State) (hdb : t.db = s.db) (hqueue : t.queue = s.queue) (u : ℕ) : Same s t u := by
    rw [Same, stored, stored, queued, queued, hdb, hqueue]
    exact ⟨rfl, rfl⟩
  apply h.update
  · exact rfl
  · exact Grows.refl s.db
  · exact hfits.mono (Grows.refl s.db) fun u _ => hsame _ rfl rfl u
  · exact fun u _ => hsame _ rfl rfl u
  · exact fun _ hu => hu
  · intro u hu
    rw [hid] at hu
    cases hu
  · exact hcache
  · exact h.counted

theorem Invariant.advance {start s : State} (h : Invariant start s) (r : ℕ) {x : Phase}
    (hfits : Fits s x) (hid : idOf x = none) : Invariant start (s.advance r x) :=
  h.move r hfits hid h.cache

/-! ## The steps before the recording -/

theorem live_of_linkBySlug {db : Database} {slug : Str} {link : Link}
    (h : linkBySlug {} db slug = .ok link) : Live db link.id := by
  unfold linkBySlug readLink at h
  have hok := call_ok h
  split at hok
  · cases hok
  · rename_i row hfind
    have hread := call_ok hok
    cases hread
    have hlive := List.find?_some hfind
    rw [Bool.and_eq_true, Option.isNone_iff_eq_none] at hlive
    exact ⟨row, LinkWrites.link_mem (List.mem_of_find?_eq_some hfind), hlive.2⟩

theorem fits_loaded {s : State} {slug slug' key : Str} :
    Fits s (.resolving slug key (.done (linkBySlug {} s.db slug'))) := by
  cases hload : linkBySlug {} s.db slug' with
  | error e => trivial
  | ok link => exact live_of_linkBySlug hload

theorem fits_afterLoad {s : State} {slug slug' key : Str} :
    Fits s (.resolving slug key (Resolve.afterLoad (linkBySlug {} s.db slug'))) := by
  cases hload : linkBySlug {} s.db slug' with
  | error e => trivial
  | ok link =>
    have hlive := live_of_linkBySlug hload
    rw [Resolve.afterLoad]
    split
    · exact hlive
    · rename_i cached hcached
      refine ⟨hlive, ?_⟩
      unfold fromLink at hcached
      split at hcached
      · cases hcached
      · cases hcached
        rfl

theorem fits_afterGet {s : State} {slug key : Str} {got : Option (Option CachedRedirect)}
    (h : ∀ cached, got = some (some cached) → Live s.db cached.id) :
    Fits s (.resolving slug key (Resolve.afterGet got)) := by
  unfold Resolve.afterGet
  split
  · rename_i cached
    split
    · rename_i link hlink
      have hlive := h cached rfl
      unfold CachedRedirect.link at hlink
      split at hlink
      · cases hlink
      · cases hlink
        exact hlive
    · trivial
  · trivial

theorem invariant_check {start s t : State} {site : Site} {r : ℕ} {v : Visit}
    {result : Except Err Link} {slug key : Str} (h : Invariant start s)
    (hrequest : s.requests r = .resolving slug key (.done result))
    (hstep : check site s r v result = some t) : Invariant start t := by
  unfold check at hstep
  split at hstep
  · cases hstep
    exact h.advance r trivial rfl
  · rename_i link hhandled
    split at hstep
    · cases hstep
    · rename_i u hid
      split at hstep
      · cases hstep
      · rename_i hfresh
        rw [Bool.or_eq_true, not_or, List.contains_iff_mem, Bool.not_eq_true] at hfresh
        cases hstep
        have hlive : Live s.db link.id := by
          have hfits := h.fits r
          rw [hrequest] at hfits
          exact hfits
        obtain ⟨hstored, hqueued⟩ := h.issued u hfresh.1
        apply h.update
        · exact rfl
        · exact Grows.refl s.db
        · exact ⟨hlive, asked_of_redirectSlug hhandled, hfresh.2, u, hid, hstored, hqueued⟩
        · exact fun _ _ => ⟨rfl, rfl⟩
        · exact fun w hw => List.mem_cons_of_mem u hw
        · intro w hw
          obtain rfl : u = w := Option.some.inj (hid.symm.trans hw)
          exact ⟨List.mem_cons_self, Or.inr hfresh.1⟩
        · exact h.cache
        · exact h.counted
  · cases hstep

/-! ## The recording -/

/-- A call of `Record` is one call of `RecordClick`, or one message. -/
theorem record_cases (publish : Publish) (db : Database) (queue : List ClickEvent)
    (event : ClickEvent) (increment : Bool) (maxClicks : Option ℤ) :
    (maxClicks = none ∧ record publish db queue event increment maxClicks
      = ((true, none), db, queue ++ [message event increment])) ∨
    ∃ extra, (∀ e ∈ extra, e = message event increment) ∧ (maxClicks ≠ none → extra = []) ∧
      record publish db queue event increment maxClicks
        = ((recordClick {} db (message event increment) increment maxClicks).1,
          (recordClick {} db (message event increment) increment maxClicks).2, queue ++ extra) := by
  unfold record
  split
  · exact Or.inl ⟨rfl, rfl⟩
  · rename_i taken
    right
    refine ⟨if taken then [message event increment] else [], ?_, fun h => absurd rfl h, ?_⟩
    · intro e he
      split at he
      · exact List.mem_singleton.mp he
      · cases he
    · dsimp only
      split
      · rfl
      · rw [List.append_nil]
  · right
    refine ⟨[], by simp, fun _ => rfl, ?_⟩
    rw [List.append_nil]

/-- The tables and the queue after a request has settled. -/
def State.settle (s : State) (r : ℕ) (a : Settled) (db : Database) (extra : List ClickEvent) :
    State :=
  { s.advance r (.settled a) with
    db := db
    queue := s.queue ++ extra }

theorem queued_settle {s : State} {r : ℕ} {a : Settled} {db : Database} {extra : List ClickEvent}
    (hextra : ∀ e ∈ extra, e = message a.event a.increment) (w : ℕ) :
    queued (s.settle r a db extra) w
      = queued s w ++ if eventId a.event = some w then extra else [] := by
  have hfilter : extra.filter (eventId · = some w)
      = if eventId a.event = some w then extra else [] := by
    split
    · rename_i hw
      rw [List.filter_eq_self]
      intro e he
      rw [hextra e he]
      exact decide_eq_true hw
    · rename_i hw
      rw [List.filter_eq_nil_iff]
      intro e he hid
      rw [hextra e he] at hid
      exact hw (of_decide_eq_true hid)
  rw [← hfilter]
  exact List.filter_append s.queue extra

/-- A request settles, and enters nothing but its own event. -/
theorem Invariant.settle {start s : State} (h : Invariant start s) {r : ℕ} {a : Settled}
    {db : Database} {extra : List ClickEvent}
    (hid : ∀ u, eventId a.event = some u → idOf (s.requests r) = some u)
    (hextra : ∀ e ∈ extra, e = message a.event a.increment) (hgrows : Grows s.db db)
    (hrows : ∀ w, eventId a.event ≠ some w →
      db.clicks.rows.filter (·.eventId = some w) = stored s w)
    (hcounted : ∀ id row, s.db.link id = some row → ∃ row', db.link id = some row' ∧
      row'.clicks + countable s.db id = row.clicks + countable db id)
    (hout : Outcome (s.settle r a db extra) a) : Invariant start (s.settle r a db extra) := by
  apply h.update
  · exact rfl
  · exact hgrows
  · exact hout
  · intro w hw
    have hne : eventId a.event ≠ some w := hw
    refine ⟨hrows w hne, ?_⟩
    rw [queued_settle hextra, if_neg hne, List.append_nil]
  · exact fun _ hu => hu
  · intro u hu
    exact ⟨h.known r u (hid u hu), Or.inl (hid u hu)⟩
  · intro key cached hc
    exact hgrows.live (h.cache key cached hc)
  · intro id row hrow
    obtain ⟨row', hrow', hsum⟩ := h.counted id row hrow
    obtain ⟨row'', hrow'', hsum'⟩ := hcounted id row' hrow'
    refine ⟨row'', hrow'', ?_⟩
    change _ = row.clicks + (countable db id : ℤ)
    omega

theorem grows_recorded {db : Database} {clicks : Table ClickRow clickClash} {increment : Bool}
    {p : LinkRow → Bool} {key : RollupKey} : Grows db (recorded db clicks increment p key) := by
  constructor
  intro id row hrow
  rw [link_recorded, hrow]
  refine ⟨_, rfl, ?_⟩
  dsimp only
  split
  · exact ⟨rfl, Int.le_add_one (le_refl _)⟩
  · exact ⟨rfl, le_refl _⟩

/-- A recorded event counts for its link exactly when it counts among its rows. -/
theorem counted_recorded {db : Database} {event : ClickEvent} {row : ClickRow}
    {clicks : Table ClickRow clickClash} {increment : Bool} {maxClicks : Option ℤ} {key : RollupKey}
    (hrow : clickRow event event.occurredAt = some row)
    (hi : db.clicks.insert row = some clicks)
    (ha : increment = true → 0 < db.links.affected (underLimit event.linkId maxClicks))
    (hroute : row.routeType ≠ lit "expired" ↔ increment = true) (id : ℤ) (link : LinkRow)
    (hlink : db.link id = some link) : ∃ link',
      (recorded db clicks increment (underLimit event.linkId maxClicks) key).link id = some link' ∧
      link'.clicks + countable db id = link.clicks +
        countable (recorded db clicks increment (underLimit event.linkId maxClicks) key) id := by
  have hcount : countable (recorded db clicks increment (underLimit event.linkId maxClicks) key) id
      = countable db id + if event.linkId = id ∧ increment = true then 1 else 0 := by
    rw [countable, rows_recorded hi, List.countP_append, ← countable, List.countP_singleton,
      linkId_of_clickRow hrow]
    have hcase : (decide (event.linkId = id) && decide (row.routeType ≠ lit "expired")) = true ↔
        event.linkId = id ∧ increment = true := by
      rw [Bool.and_eq_true, decide_eq_true_eq, decide_eq_true_eq, hroute]
    simp only [hcase]
  have hreach : (increment && underLimit event.linkId maxClicks link) = true ↔
      event.linkId = id ∧ increment = true := by
    obtain ⟨-, hown⟩ := LinkWrites.mem_link hlink
    rw [Bool.and_eq_true, and_comm]
    apply and_congr_left
    intro hincrement
    constructor
    · intro hunder
      rw [underLimit, Bool.and_eq_true, decide_eq_true_eq] at hunder
      exact hunder.1.symm.trans hown
    · rintro rfl
      obtain ⟨link', hlink', hlive, hlimit⟩ := affected_underLimit_pos.mp (ha hincrement)
      obtain rfl : link' = link := Option.some.inj (hlink'.symm.trans hlink)
      rw [underLimit, Bool.and_eq_true, Bool.and_eq_true, decide_eq_true_eq, hlive,
        Option.all_eq_true]
      exact ⟨hown, rfl, fun m hm => decide_eq_true (hlimit m hm)⟩
  rw [link_recorded, hlink, hcount]
  refine ⟨_, rfl, ?_⟩
  dsimp only
  by_cases hcase : event.linkId = id ∧ increment = true
  · rw [if_pos (hreach.mpr hcase), if_pos hcase]
    change link.clicks + 1 + _ = _
    push_cast
    omega
  · rw [if_neg (fun h => hcase (hreach.mp h)), if_neg hcase, Nat.add_zero]

theorem stored_settle {s : State} {r : ℕ} {a : Settled} {db : Database} {extra : List ClickEvent}
    {row : ClickRow} {u w : ℕ} (hrows : db.clicks.rows = s.db.clicks.rows ++ [row])
    (hown : row.eventId = some u) : stored (s.settle r a db extra) w
      = stored s w ++ if u = w then [row] else [] := by
  change db.clicks.rows.filter (·.eventId = some w) = _
  rw [hrows, List.filter_append, ← stored, List.filter_singleton, hown]
  by_cases hw : u = w
  · rw [if_pos hw, hw]
    simp
  · rw [if_neg hw]
    simp [hw]

/-- The message alone. -/
theorem invariant_queued {start s : State} (h : Invariant start s) {r : ℕ} {link : Link}
    {event : ClickEvent} {increment : Bool} {reply : Bool → Option Err → Reply}
    (hrequest : s.requests r = .recording link event increment none reply) :
    Invariant start (s.settle r ⟨link, event, increment, true, none, reply true none⟩ s.db
      [message event increment]) := by
  obtain ⟨hlive, hasked, -, u, hid, hstored, hqueued⟩ : Fits s (.recording link event increment
    none reply) := hrequest ▸ h.fits r
  have hextra : ∀ e ∈ [message event increment], e = message event increment := by simp
  have hentered : Entered (s.settle r ⟨link, event, increment, true, none, reply true none⟩ s.db
      [message event increment]) ⟨link, event, increment, true, none, reply true none⟩ := by
    refine ⟨u, hid, Or.inr ⟨hasked.limit.symm, hstored, ?_⟩⟩
    rw [queued_settle (by exact hextra), hqueued, if_pos hid]
    rfl
  apply h.settle
  · intro w hw
    rw [hrequest]
    exact hw
  · exact hextra
  · exact Grows.refl s.db
  · exact fun _ _ => rfl
  · exact fun id row hrow => ⟨row, hrow, rfl⟩
  · constructor
    · intro hincrement
      obtain ⟨hexpired, hroute, hstatus, hreply⟩ := hasked.refused hincrement
      exact ⟨hexpired, hreply true none, hroute, hstatus, fun _ => hentered⟩
    · intro hincrement _ _
      obtain ⟨-, target, hreply⟩ := hasked.allowed hincrement
      exact ⟨⟨target, hreply true none⟩, hentered⟩
    · intro _ _ hfalse
      cases hfalse

section Call

variable {start s : State} {r : ℕ} {link : Link} {event : ClickEvent} {increment : Bool}
  {maxClicks : Option ℤ} {reply : Bool → Option Err → Reply} {extra : List ClickEvent}

/-- No column takes the event. -/
theorem invariant_unstorable (h : Invariant start s)
    (hrequest : s.requests r = .recording link event increment maxClicks reply)
    (hextra : ∀ e ∈ extra, e = message event increment)
    (hrow : clickRow event event.occurredAt = none) :
    Invariant start (s.settle r ⟨link, event, increment, false, some .schema,
      reply false (some .schema)⟩ s.db extra) := by
  obtain ⟨-, hasked, -⟩ : Fits s (.recording link event increment maxClicks reply) :=
    hrequest ▸ h.fits r
  apply h.settle
  · intro w hw
    rw [hrequest]
    exact hw
  · exact hextra
  · exact Grows.refl s.db
  · exact fun _ _ => rfl
  · exact fun id row hrow => ⟨row, hrow, rfl⟩
  · constructor
    · intro hincrement
      obtain ⟨hexpired, hroute, hstatus, hreply⟩ := hasked.refused hincrement
      refine ⟨hexpired, hreply false (some .schema), hroute, hstatus, fun hstorable => ?_⟩
      rw [Storable, hrow] at hstorable
      cases hstorable
    · intro _ herr
      cases herr
    · intro _ herr
      cases herr

/-- The row, beside the messages of a failed attempt to publish. -/
theorem invariant_entered (h : Invariant start s)
    (hrequest : s.requests r = .recording link event increment maxClicks reply)
    (hextra : ∀ e ∈ extra, e = message event increment) {row : ClickRow}
    {clicks : Table ClickRow clickClash} {key : RollupKey}
    (hrow : clickRow event event.occurredAt = some row)
    (hi : s.db.clicks.insert row = some clicks)
    (ha : increment = true → 0 < s.db.links.affected (underLimit event.linkId maxClicks)) :
    Invariant start (s.settle r ⟨link, event, increment, true, none, reply true none⟩
      (recorded s.db clicks increment (underLimit event.linkId maxClicks) key) extra) := by
  obtain ⟨-, hasked, -, u, hid, hstored, hqueued⟩ :
    Fits s (.recording link event increment maxClicks reply) := hrequest ▸ h.fits r
  have hown : row.eventId = some u := by
    have hread := eventId_of_clickRow hrow
    rw [eventId, hread] at hid
    exact hid
  have hrows : (recorded s.db clicks increment (underLimit event.linkId maxClicks)
      key).clicks.rows = s.db.clicks.rows ++ [row] := rows_recorded hi
  have hroute : row.routeType ≠ lit "expired" ↔ increment = true := by
    cases hincrement : increment with
    | false => simp [route_of_expired hrow (hasked.refused hincrement).2.1]
    | true => simp [route_of_row hrow (hasked.allowed hincrement).1]
  have hentered (reply : Reply) : Entered (s.settle r ⟨link, event, increment, true, none, reply⟩
      (recorded s.db clicks increment (underLimit event.linkId maxClicks) key) extra)
      ⟨link, event, increment, true, none, reply⟩ := by
    refine ⟨u, hid, Or.inl ⟨row, hrow, ?_, ?_⟩⟩
    · rw [stored_settle hrows hown, hstored, if_pos rfl]
      rfl
    · rw [queued_settle (by exact hextra), hqueued, if_pos hid]
      exact hextra
  apply h.settle
  · intro w hw
    rw [hrequest]
    exact hw
  · exact hextra
  · exact grows_recorded
  · intro w hw
    have hne : u ≠ w := fun heq => hw (heq ▸ hid)
    have hall := @stored_settle s r ⟨link, event, increment, true, none, reply true none⟩ _ extra
        row
      u w hrows hown
    rwa [if_neg hne, List.append_nil] at hall
  · exact counted_recorded hrow hi ha hroute
  · constructor
    · intro hincrement
      obtain ⟨hexpired, hroute, hstatus, hreply⟩ := hasked.refused hincrement
      exact ⟨hexpired, hreply true none, hroute, hstatus, fun _ => hentered _⟩
    · intro hincrement _ _
      obtain ⟨-, target, hreply⟩ := hasked.allowed hincrement
      exact ⟨⟨target, hreply true none⟩, hentered _⟩
    · intro _ _ hfalse
      cases hfalse

/-- The limit was reached since the link was read. -/
theorem invariant_limited (h : Invariant start s)
    (hrequest : s.requests r = .recording link event increment maxClicks reply)
    (hnone : maxClicks ≠ none → extra = []) (hincrement : increment = true)
    (ha : s.db.links.affected (underLimit event.linkId maxClicks) = 0) :
    Invariant start (s.settle r ⟨link, event, increment, false, none, reply false none⟩ s.db
      extra) := by
  obtain ⟨⟨row, hrow, hlive⟩, hasked, -, u, hid, hstored, hqueued⟩ :
    Fits s (.recording link event increment maxClicks reply) := hrequest ▸ h.fits r
  obtain ⟨m, hm, hle⟩ : ∃ m, maxClicks = some m ∧ m ≤ row.clicks := by
    by_contra hunder
    push Not at hunder
    have hpos : 0 < s.db.links.affected (underLimit event.linkId maxClicks) :=
      affected_underLimit_pos.mpr ⟨row, hasked.own ▸ hrow, hlive, hunder⟩
    omega
  have hempty : extra = [] := hnone (by simp [hm])
  have hqueue : queued (s.settle r ⟨link, event, increment, false, none, reply false none⟩ s.db
      extra) u = [] := by
    rw [queued_settle (by simp [hempty]), hqueued, hempty, ite_self]
    rfl
  apply h.settle
  · intro w hw
    rw [hrequest]
    exact hw
  · simp [hempty]
  · exact Grows.refl s.db
  · exact fun _ _ => rfl
  · exact fun id row hrow => ⟨row, hrow, rfl⟩
  · constructor
    · intro hfalse
      rw [hincrement] at hfalse
      cases hfalse
    · intro _ _ hok
      cases hok
    · intro _ _ _
      obtain ⟨-, target, hreply⟩ := hasked.allowed hincrement
      exact ⟨hreply false none, ⟨u, hid, hstored, hqueue⟩, m, row, hasked.limit ▸ hm, hrow, hle⟩

theorem invariant_record (h : Invariant start s)
    (hrequest : s.requests r = .recording link event increment maxClicks reply)
    (publish : Publish) {result : (Bool × Option Err) × Database × List ClickEvent}
    (hresult : record publish s.db s.queue event increment maxClicks = result) :
    Invariant start { s.advance r (.settled ⟨link, event, increment, result.1.1, result.1.2,
        reply result.1.1 result.1.2⟩) with
      db := result.2.1
      queue := result.2.2 } := by
  obtain ⟨hlive, hasked, hdated, u, hid, hstored, -⟩ :
    Fits s (.recording link event increment maxClicks reply) := hrequest ▸ h.fits r
  rcases record_cases publish s.db s.queue event increment maxClicks with
    ⟨rfl, hcall⟩ | ⟨extra, hextra, hnone, hcall⟩
  · obtain rfl := hcall.symm.trans hresult
    exact invariant_queued h hrequest
  · have hlive' : Live s.db (message event increment).linkId := by
      rw [show (message event increment).linkId = link.id from hasked.own]
      exact hlive
    have hnew : ∀ row ∈ s.db.clicks.rows, row.eventId ≠ some u := by
      intro row hrow heq
      exact List.filter_eq_nil_iff.mp hstored row hrow (decide_eq_true heq)
    rcases @recordClick_fresh s.db (message event increment) increment maxClicks u hlive' hdated hid
      hnew with ⟨hrow, hone⟩ | ⟨row, clicks, hrow, hi, ⟨ha, hone⟩ | ⟨hincrement, ha, hone⟩⟩
    · rw [hone] at hcall
      obtain rfl := hcall.symm.trans hresult
      exact invariant_unstorable h hrequest hextra hrow
    · rw [hone] at hcall
      obtain rfl := hcall.symm.trans hresult
      exact invariant_entered h hrequest hextra hrow hi ha
    · rw [hone] at hcall
      obtain rfl := hcall.symm.trans hresult
      exact invariant_limited h hrequest hnone hincrement ha

end Call

theorem invariant_next {site : Site} {start s t : State} {e : Event} (h : Invariant start s)
    (hstep : next site s e = some t) : Invariant start t := by
  cases e with
  | start r slug key cached =>
    simp only [next] at hstep
    split at hstep
    · cases hstep
      cases cached with
      | true => exact h.advance r trivial rfl
      | false => exact h.advance r trivial rfl
    · cases hstep
  | get r ok =>
    simp only [next] at hstep
    split at hstep
    · rename_i slug key hrequest
      cases hstep
      apply h.advance r _ rfl
      apply fits_afterGet
      intro cached hgot
      cases ok with
      | true => exact h.cache key cached (Option.some.inj hgot)
      | false => cases hgot
    · cases hstep
  | load r =>
    simp only [next] at hstep
    split at hstep
    · cases hstep
      exact h.advance r fits_loaded rfl
    · cases hstep
      exact h.advance r fits_afterLoad rfl
    · cases hstep
  | set r call =>
    simp only [next] at hstep
    split at hstep
    · rename_i slug key link cached hrequest
      split at hstep
      · cases hstep
        obtain ⟨hlive, hid⟩ : Fits s (.resolving slug key (.set link cached)) :=
          hrequest ▸ h.fits r
        apply h.move r (x := .resolving slug key (.done (.ok link))) hlive rfl
        intro key' cached' hc
        split at hc
        · by_cases hkey : key' = key
          · rw [hkey, Function.update_self] at hc
            cases hc
            rw [hid]
            exact hlive
          · rw [Function.update_of_ne hkey] at hc
            exact h.cache key' cached' hc
        · exact h.cache key' cached' hc
      · cases hstep
    · cases hstep
  | check r v =>
    simp only [next] at hstep
    split at hstep
    · rename_i result hrequest
      exact invariant_check h hrequest hstep
    · cases hstep
  | record r publish =>
    simp only [next] at hstep
    split at hstep
    · rename_i hrequest
      cases hstep
      exact invariant_record h hrequest publish rfl
    · cases hstep

/-- In every run of redirect requests, an attempt that is refused because the link has expired, or
because its limit shows as used up, enters its event once and counts nothing; one that is sent to
its target enters its event once, with the count; and one that `RecordClick` refuses, because the
limit was reached in between, enters nothing. -/
theorem redirects_accounted (site : Site) (start s : State) (es : List Event) (hstart : Start start)
    (hrun : Execution (next site) start es s) :
    (∀ r a, s.requests r = .settled a → Outcome s a) ∧
    ∀ id row, start.db.link id = some row → ∃ row', s.db.link id = some row' ∧
      row'.clicks - row.clicks = (countable s.db id : ℤ) - countable start.db id := by
  have hinvariant : Invariant start s :=
    hrun.invariant hstart.invariant fun _ _ _ hu hstep => invariant_next hu hstep
  constructor
  · intro r a hr
    have hfits := hinvariant.fits r
    rw [hr] at hfits
    exact hfits
  · intro id row hrow
    obtain ⟨row', hrow', hsum⟩ := hinvariant.counted id row hrow
    exact ⟨row', hrow', by omega⟩

/-! ## Two visitors and one click -/

def letters : Letters where
  toUnicode := Hosts.ascii
  upper := fun _ => [63]
  fold := id
  single := fun _ =>
    ⟨Runes.single 63, ⟨63, [], rfl, rfl, fun _ => rfl⟩, rfl, by decide⟩

def site : Site where
  letters := letters
  limit := some 10000
  mac := id

def limited : State where
  db := Database.single { sampleLink with maxClicks := some 1 }
  cache := fun _ => none
  queue := []
  issued := []
  requests := fun _ => .idle

/-- The visit whose event id begins with the byte. -/
def visit (b : UInt8) : Visit where
  request :=
    { method := lit "GET"
      host := lit "s.example"
      peer := ⟨lit "203.0.113.7", lit "4711", by decide, by decide, by decide⟩
      connectingIP := []
      ipCountry := []
      userAgent := lit "curl/8.5.0"
      referer := []
      rawQuery := []
      token := by decide
      headers := by decide }
  cookie := fun _ => none
  domain := none
  accessAt := ⟨1767268800 * GoTime.second⟩
  expiryAt := ⟨1767268800 * GoTime.second⟩
  occurredAt := ⟨1767268800 * GoTime.second⟩
  value := fun i => if i.val = 0 then b else 0

/-- Both requests read the link before either click is recorded. -/
def sideBySide : List Event :=
  [.start 0 (lit "docs") [] false, .start 1 (lit "docs") [] false, .load 0, .load 1,
    .check 0 (visit 1), .check 1 (visit 2), .record 0 .off, .record 1 .off]

theorem start_limited : Start limited where
  idle _ := rfl
  cache key cached h := by cases h
  issued _ _ := ⟨rfl, rfl⟩

/-- The first request was sent to its target. -/
def sent (s : State) : Bool :=
  match s.requests 0 with
  | .settled a => a.increment && a.ok && a.err = none
  | _ => false

/-- The visitor who is sent on has an event. -/
theorem redirects_accounted_sent : ∃ s a, Execution (next site) limited sideBySide s ∧
    s.requests 0 = .settled a ∧ (∃ target, a.reply = .redirect target a.link.redirectCode) ∧
    Entered s a := by
  have hreplay : (replay (next site) limited sideBySide).map sent = some true := by decide +kernel
  obtain ⟨s, hs, hseen⟩ := Option.map_eq_some_iff.mp hreplay
  unfold sent at hseen
  split at hseen
  · rename_i a ha
    simp only [Bool.and_eq_true, decide_eq_true_eq] at hseen
    have hrun := execution_of_replay hs
    have hout := (redirects_accounted site limited s sideBySide start_limited hrun).1 0 a ha
    obtain ⟨htarget, hentered⟩ := hout.redirected hseen.1.1 hseen.2 hseen.1.2
    exact ⟨s, a, hrun, ha, htarget, hentered⟩
  · cases hseen

/-- The second request was answered like an expired one, and left nothing. -/
def unrecorded (s : State) : Bool :=
  match s.requests 1 with
  | .settled a => a.increment && !a.ok && a.err = none && a.reply = expiredResponse a.link &&
    (eventId a.event).any fun u => stored s u = [] && queued s u = []
  | _ => false

/-- Two visitors race for one click: the one that `RecordClick` refuses is answered as expired, but
no event is entered for it. -/
theorem refusal_unrecorded : Start limited ∧ ∃ s a, Execution (next site) limited sideBySide s ∧
    s.requests 1 = .settled a ∧ a.reply = expiredResponse a.link ∧ a.err = none ∧
    a.ok = false ∧ Absent s a ∧ ¬ Entered s a := by
  have hreplay : (replay (next site) limited sideBySide).map unrecorded = some true := by
    decide +kernel
  obtain ⟨s, hs, hseen⟩ := Option.map_eq_some_iff.mp hreplay
  refine ⟨start_limited, s, ?_⟩
  unfold unrecorded at hseen
  split at hseen
  · rename_i a ha
    simp only [Bool.and_eq_true, decide_eq_true_eq, Bool.not_eq_true', Option.any_eq_true] at hseen
    obtain ⟨⟨⟨⟨-, hok⟩, herr⟩, hreply⟩, u, hid, hstored, hqueued⟩ := hseen
    refine ⟨a, execution_of_replay hs, ha, hreply, herr, hok, ⟨u, hid, hstored, hqueued⟩, ?_⟩
    rintro ⟨w, hw, hentry⟩
    obtain rfl : u = w := Option.some.inj (hid.symm.trans hw)
    rw [hstored, hqueued] at hentry
    rcases hentry with ⟨row, -, hrow, -⟩ | ⟨-, -, hmessage⟩
    · cases hrow
    · cases hmessage
  · cases hseen

end RedirectAccounts
