import Mathlib.Logic.Function.Basic
import ShortQ.LabelledRuns
import ShortQ.LinkLineage
import ShortQ.RedirectCache
import ShortQ.TenantDomains

/-! # Requests on custom domains

`redirectSlug` up to its tenant check, and the verification of domains by their administrators.
Requests interleave; each store call, each cache call and each DNS lookup is one step, and a
lookup that finds the token is one step with the call that records it. -/
namespace DomainChecks

open GoText
open GoTime (Time)
open Hosts
open LabelledRuns
open LinkCalls
open LinkLineage
open LinkStore
open Models
open RedirectCache
open Schema
open TenantDomains
open Transaction

/-- What became of the lookups for a domain: a found token or a failed check that has been
recorded, and a check that has failed. `texts` are the TXT records that were found. -/
inductive Record where
  | found (id : ℤ) (texts : List Str) (time : Time) (request : ℕ)
  | cleared (id : ℤ) (request : ℕ)
  | missed (id : ℤ) (request : ℕ)
  deriving DecidableEq, Repr

/-- The record sets the status of the domain. -/
def Record.sets (id : ℤ) : Record → Bool
  | .found i .. => i = id
  | .cleared i _ => i = id
  | .missed .. => false

def lastRecord (log : List Record) (id : ℤ) : Option Record :=
  (log.filter (Record.sets id)).getLast?

/-- The domain check of a request: the host, the row it read, and the table, the clock and the
log at that moment. -/
structure Checked where
  host : Str
  row : DomainRow
  domains : Domains
  clock : Time
  log : List Record

/-- A request that is served goes on to the password gate, the expiry check and the target. -/
inductive Reply where
  | notFound
  | served (host : Str) (checked : Option Checked) (link : Link)
  | administered

inductive Phase where
  | idle
  | active (checked : Checked) (slug : Str)
  | stale (checked : Checked) (slug : Str)
  | failing (checked : Checked)
  | resolving (checked : Option Checked) (host slug : Str) (step : Resolve)
  | administering (row : DomainRow)
  | answered (reply : Reply)

structure Config where
  domains : Domains
  db : Database
  cache : Str → Option CachedRedirect
  clock : Time
  log : List Record
  phase : ℕ → Phase

inductive Label where
  | tick (now : Time)
  | create (u : User) (tenantId : ℤ) (domain token : Str)
  | update (u : User) (id : ℤ) (url : Str)
  | delete (u : User) (id : ℤ)
  | administer (r : ℕ) (u : User) (id : ℤ)
  | start (r : ℕ) (rHost slug : Str)
  | age (r : ℕ)
  | verify (r : ℕ) (texts : List Str) (call : CacheCall)
  | clear (r : ℕ) (call : CacheCall)
  | get (r : ℕ) (ok : Bool)
  | load (r : ℕ) (io : Script)
  | set (r : ℕ) (call : CacheCall)
  | check (r : ℕ)
  | call (u : User) (c : Call) (io : Script)
  | evict (key : Str)

def Config.move (s : Config) (r : ℕ) (x : Phase) : Config :=
  { s with phase := Function.update s.phase r x }

/-- `SetTenantDomainVerified(id, true)` after a lookup. A call that fails may have been applied. -/
def Config.find (s : Config) (r : ℕ) (id : ℤ) (texts : List Str) (applied : Bool) : Config :=
  if applied then
    { s with
      domains := setTenantDomainVerified s.domains id true s.clock
      log := s.log ++ [.found id texts s.clock r] }
  else s

def Config.clear (s : Config) (r : ℕ) (id : ℤ) (applied : Bool) : Config :=
  if applied then
    { s with
      domains := setTenantDomainVerified s.domains id false s.clock
      log := s.log ++ [.cleared id r] }
  else s

/-- The domain check of a request for a slug that is accepted. -/
def check (server : Server) (s : Config) (host slug : Str) : Phase :=
  if host = [] || host = server.base then .resolving none host slug .get
  else
    match tenantDomainByDomain server.unicode s.domains host with
    | none => .answered .notFound
    | some d => if d.active then .active ⟨host, d, s.domains, s.clock, s.log⟩ slug
        else .answered .notFound

/-- The tenant check. -/
def tenantCheck (host : Str) (checked : Option Checked) (link : Link) : Reply :=
  if checked.any fun c => link.tenantId ≠ some c.row.tenantId then .notFound
  else .served host checked link

def next (server : Server) (s : Config) : Label → Option Config
  | .tick now => if s.clock.nanos ≤ now.nanos then some { s with clock := now } else none
  | .create u tenantId domain token =>
    some { s with
      domains := (createTenantDomain server.unicode s.domains u tenantId domain token).2 }
  | .update u id url => some { s with domains := updateTenantDomain s.domains u id url }
  | .delete u id => some { s with domains := deleteTenantDomain s.domains u id }
  | .administer r u id =>
    match s.phase r with
    | .idle =>
      match tenantDomainByID s.domains u id with
      | some d => some (s.move r (.administering d))
      | none => some (s.move r (.answered .administered))
    | _ => none
  | .start r rHost slug =>
    match s.phase r with
    | .idle =>
      if acceptedSlug slug then
        some (s.move r (check server s (requestHost server.unicode rHost) slug))
      else some (s.move r (.answered .notFound))
    | _ => none
  | .age r =>
    match s.phase r with
    | .active c slug =>
      if fresh s.clock c.row then some (s.move r (.resolving (some c) c.host slug .get))
      else some (s.move r (.stale c slug))
    | _ => none
  | .verify r texts call =>
    if !call.possible then none
    else
      match s.phase r with
      | .stale c slug =>
        if verifyDomain server.base c.row texts then
          some ((s.find r c.row.id texts call.applied).move r
            (if call.ok then .resolving (some c) c.host slug .get else .answered .notFound))
        else some { s.move r (.failing c) with log := s.log ++ [.missed c.row.id r] }
      | .administering d =>
        if verifyDomain server.base d texts then
          some ((s.find r d.id texts call.applied).move r (.answered .administered))
        else some (s.move r (.answered .administered))
      | _ => none
  | .clear r call =>
    if !call.possible then none
    else
      match s.phase r with
      | .failing c => some ((s.clear r c.row.id call.applied).move r (.answered .notFound))
      | _ => none
  | .get r ok =>
    match s.phase r with
    | .resolving c host slug .get =>
      some (s.move r (.resolving c host slug (Resolve.afterGet
        (if ok then some (s.cache (Key server.unicode host slug)) else none))))
    | _ => none
  | .load r io =>
    match s.phase r with
    | .resolving c host slug .load =>
      some (s.move r (.resolving c host slug (Resolve.afterLoad (linkBySlug io s.db slug))))
    | _ => none
  | .set r call =>
    if !call.possible then none
    else
      match s.phase r with
      | .resolving c host slug (.set link cached) =>
        some { s.move r (.resolving c host slug (.done (.ok link))) with
          cache := if call.applied then
            Function.update s.cache (Key server.unicode host slug) (some cached) else s.cache }
      | _ => none
  | .check r =>
    match s.phase r with
    | .resolving _ _ _ (.done (.error _)) => some (s.move r (.answered .notFound))
    | .resolving c host _ (.done (.ok link)) =>
      some (s.move r (.answered (tenantCheck host c link)))
    | _ => none
  | .call u c io => some { s with db := (c.write io s.db u).2 }
  | .evict key => some { s with cache := Function.update s.cache key none }

/-- A start: no domain has been verified and nothing is under way. -/
structure Start (s : Config) : Prop where
  pending : ∀ d ∈ s.domains.rows, d.active = false ∧ d.id < s.domains.nextId
  cache : ∀ key, s.cache key = none
  log : s.log = []
  idle : ∀ r, s.phase r = .idle

/-! What is known of the table, of the links and of each request. -/

def want (d : DomainRow) : Str := lit "shortq-verify=" ++ d.token

/-- The last record about the domain is a found token of its own. -/
def Proved (log : List Record) (d : DomainRow) : Prop :=
  ∃ texts time request, lastRecord log d.id = some (.found d.id texts time request) ∧
    want d ∈ texts ∧ d.verifiedAt = some ((timestamptz time).getD time)

structure Recorded (s : Config) : Prop where
  ids : ∀ d ∈ s.domains.rows, d.id < s.domains.nextId
  proved : ∀ d ∈ s.domains.rows, d.active = true → Proved s.log d

/-- The link is a stored one. -/
def Backed (db : Database) (link : Link) : Prop :=
  ∃ row ∈ db.links.rows, row.id = link.id ∧ row.slug = link.slug ∧ row.tenantId = link.tenantId

/-- A domain check that let its request pass. -/
structure Sound (server : Server) (c : Checked) : Prop where
  row : c.row ∈ c.domains.rows
  named : c.row.domain = cleanDomain server.unicode c.host
  active : c.row.active = true
  proved : Proved c.log c.row

/-- No later row has the id of this one and other data. -/
structure Known (s : Config) (d : DomainRow) : Prop where
  id : d.id < s.domains.nextId
  same : ∀ d' ∈ s.domains.rows, d'.id = d.id → SameDomain d' d

structure Passed (server : Server) (s : Config) (c : Checked) : Prop where
  sound : Sound server c
  known : Known s c.row
  clock : c.clock.nanos ≤ s.clock.nanos

/-- The verification was recent at the check, or the request has found the token itself. -/
def Recent (log : List Record) (r : ℕ) (c : Checked) : Prop :=
  fresh c.clock c.row = true ∨ ∃ texts time, Record.found c.row.id texts time r ∈ log ∧
    want c.row ∈ texts ∧ c.clock.nanos ≤ time.nanos

def Unmissed (log : List Record) (r : ℕ) : Prop := ∀ id, Record.missed id r ∉ log

def BackedStep (db : Database) : Resolve → Prop
  | .set link cached => Backed db link ∧ fromLink link = some cached
  | .done (.ok link) => Backed db link
  | _ => True

/-- A request without a domain check came to the base host. -/
def Hosted (server : Server) (host : Str) : Option Checked → Prop
  | none => host = [] ∨ host = server.base
  | some c => c.host = host

def Phase.Ok (server : Server) (s : Config) (r : ℕ) : Phase → Prop
  | .idle => Unmissed s.log r
  | .active c _ => Unmissed s.log r ∧ Passed server s c
  | .stale c _ => Unmissed s.log r ∧ Passed server s c
  | .failing _ => True
  | .resolving checked host _ step => Unmissed s.log r ∧ BackedStep s.db step ∧
      Hosted server host checked ∧ ∀ c, checked = some c → Passed server s c ∧ Recent s.log r c
  | .administering d => Known s d
  | .answered (.served host checked link) => Unmissed s.log r ∧ Backed s.db link ∧
      Hosted server host checked ∧ ∀ c, checked = some c → Passed server s c ∧ Recent s.log r c ∧
        link.tenantId = some c.row.tenantId
  | .answered _ => True

structure Invariant (server : Server) (s : Config) : Prop where
  recorded : Recorded s
  cache : ∀ key cached link, s.cache key = some cached → cached.link = some link → Backed s.db link
  phase : ∀ r, (s.phase r).Ok server s r

/-- What a step keeps for the requests that do not move. -/
structure Extends (s t : Config) (r : ℕ) : Prop where
  domains : Descends s.domains t.domains
  lineage : Lineage s.db t.db
  clock : s.clock.nanos ≤ t.clock.nanos
  log : ∀ x ∈ s.log, x ∈ t.log
  missed : ∀ id, Record.missed id r ∈ t.log → Record.missed id r ∈ s.log

theorem Backed.lineage {db db' : Database} {link : Link} (h : Backed db link)
    (k : Lineage db db') : Backed db' link := by
  obtain ⟨row, hrow, hid, hslug, htenant⟩ := h
  obtain ⟨row', hrow', hid', hslug', -, htenant'⟩ := k row hrow
  exact ⟨row', hrow', hid'.trans hid, hslug'.trans hslug, htenant'.trans htenant⟩

theorem Known.descends {s t : Config} {d : DomainRow} (h : Known s d)
    (k : Descends s.domains t.domains) : Known t d := by
  refine ⟨lt_of_lt_of_le h.id k.nextId, fun d' hd' hid => ?_⟩
  rcases k.rows d' hd' with ⟨d₀, hd₀, hsame⟩ | hnew
  · exact hsame.trans (h.same d₀ hd₀ (hsame.1.symm.trans hid))
  · have hold := h.id
    omega

section
variable {server : Server} {s t : Config} {r : ℕ}

theorem Passed.extends {c : Checked} (h : Passed server s c) (k : Extends s t r) :
    Passed server t c :=
  ⟨h.sound, h.known.descends k.domains, h.clock.trans k.clock⟩

theorem Recent.mono {log log' : List Record} {c : Checked} (h : Recent log r c)
    (k : ∀ x ∈ log, x ∈ log') : Recent log' r c := by
  rcases h with h | ⟨texts, time, hfound, hwant, hclock⟩
  · exact Or.inl h
  · exact Or.inr ⟨texts, time, k _ hfound, hwant, hclock⟩

theorem Unmissed.extends (h : Unmissed s.log r) (k : Extends s t r) : Unmissed t.log r :=
  fun id hmem => h id (k.missed id hmem)

theorem BackedStep.lineage {db db' : Database} {step : Resolve} (h : BackedStep db step)
    (k : Lineage db db') : BackedStep db' step := by
  cases step with
  | set link cached => exact ⟨h.1.lineage k, h.2⟩
  | done result =>
    cases result with
    | error e => trivial
    | ok link => exact Backed.lineage h k
  | _ => trivial

theorem Phase.Ok.extends {x : Phase} (h : x.Ok server s r) (k : Extends s t r) :
    x.Ok server t r := by
  cases x with
  | idle => exact Unmissed.extends h k
  | active c slug => exact ⟨h.1.extends k, h.2.extends k⟩
  | stale c slug => exact ⟨h.1.extends k, h.2.extends k⟩
  | failing c => trivial
  | resolving checked host slug step =>
    exact ⟨h.1.extends k, h.2.1.lineage k.lineage, h.2.2.1, fun c hc =>
      ⟨(h.2.2.2 c hc).1.extends k, (h.2.2.2 c hc).2.mono k.log⟩⟩
  | administering d => exact Known.descends h k.domains
  | answered reply =>
    cases reply with
    | served host checked link =>
      exact ⟨h.1.extends k, h.2.1.lineage k.lineage, h.2.2.1, fun c hc =>
        ⟨(h.2.2.2 c hc).1.extends k, (h.2.2.2 c hc).2.1.mono k.log, (h.2.2.2 c hc).2.2⟩⟩
    | _ => trivial

/-- One request moves; the others keep what they know. -/
theorem phases_of_move {x : Phase} (h : ∀ q, (s.phase q).Ok server s q)
    (ht : t.phase = Function.update s.phase r x) (hx : x.Ok server t r)
    (k : ∀ q, q ≠ r → Extends s t q) : ∀ q, (t.phase q).Ok server t q := by
  intro q
  rw [ht]
  by_cases hq : q = r
  · subst hq
    rw [Function.update_self]
    exact hx
  · rw [Function.update_of_ne hq]
    exact (h q).extends (k q hq)

theorem Extends.refl (s : Config) (r : ℕ) : Extends s s r :=
  ⟨.refl _, .of_links rfl, le_refl _, fun _ hx => hx, fun _ hx => hx⟩

/-- Only the table, the links or the clock change. -/
theorem Extends.of_env {s t : Config} (hdomains : Descends s.domains t.domains)
    (hlineage : Lineage s.db t.db) (hclock : s.clock.nanos ≤ t.clock.nanos)
    (hlog : t.log = s.log) (q : ℕ) : Extends s t q :=
  ⟨hdomains, hlineage, hclock, fun x hx => by rw [hlog]; exact hx, fun id hx => by
    rw [hlog] at hx; exact hx⟩

end

/-! Records. -/

theorem lastRecord_append (log : List Record) (x : Record) (id : ℤ) :
    lastRecord (log ++ [x]) id = if x.sets id then some x else lastRecord log id := by
  unfold lastRecord
  rw [List.filter_append]
  by_cases hx : x.sets id = true
  · simp [hx]
  · simp [hx]

theorem mem_setVerified {s : Domains} {id : ℤ} {verified : Bool} {now : Time} {d : DomainRow}
    (h : d ∈ (setTenantDomainVerified s id verified now).rows) :
    ∃ d' ∈ s.rows, (d'.id ≠ id ∧ d = d') ∨ (d'.id = id ∧ d = setVerified verified now d') := by
  rw [rows_setTenantDomainVerified] at h
  obtain ⟨d', hd', rfl⟩ := List.mem_map.mp h
  refine ⟨d', hd', ?_⟩
  by_cases hid : d'.id = id
  · rw [if_pos hid]
    exact Or.inr ⟨hid, rfl⟩
  · rw [if_neg hid]
    exact Or.inl ⟨hid, rfl⟩

theorem ids_setVerified {s : Domains} (h : ∀ d ∈ s.rows, d.id < s.nextId) {id : ℤ}
    {verified : Bool} {now : Time} : ∀ d ∈ (setTenantDomainVerified s id verified now).rows,
      d.id < (setTenantDomainVerified s id verified now).nextId := by
  intro d hd
  obtain ⟨d', hd', ⟨-, rfl⟩ | ⟨-, rfl⟩⟩ := mem_setVerified hd
  · exact h d hd'
  · rw [(sameDomain_setVerified verified now d').1]
    exact h d' hd'

theorem Proved.append {log : List Record} {d : DomainRow} (h : Proved log d) {x : Record}
    (hx : x.sets d.id = false) : Proved (log ++ [x]) d := by
  obtain ⟨texts, time, request, hlast, hwant⟩ := h
  refine ⟨texts, time, request, ?_, hwant⟩
  rw [lastRecord_append, hx]
  exact hlast

theorem Recorded.find {s : Config} (h : Recorded s) {r : ℕ} {id : ℤ} {texts : List Str}
    (hwant : ∀ d ∈ s.domains.rows, d.id = id → want d ∈ texts) (applied : Bool) :
    Recorded (s.find r id texts applied) := by
  cases applied with
  | false => exact h
  | true =>
    refine ⟨ids_setVerified h.ids, fun d hd hactive => ?_⟩
    obtain ⟨d', hd', ⟨hne, rfl⟩ | ⟨rfl, rfl⟩⟩ := mem_setVerified hd
    · exact (h.proved d hd' hactive).append (by simpa [Record.sets] using hne.symm)
    · refine ⟨texts, s.clock, r, ?_, hwant d' hd' rfl, rfl⟩
      rw [(sameDomain_setVerified true s.clock d').1]
      exact (lastRecord_append _ _ _).trans (if_pos (by simp [Record.sets]))

theorem Recorded.clear {s : Config} (h : Recorded s) {r : ℕ} {id : ℤ} (applied : Bool) :
    Recorded (s.clear r id applied) := by
  cases applied with
  | false => exact h
  | true =>
    refine ⟨ids_setVerified h.ids, fun d hd hactive => ?_⟩
    obtain ⟨d', hd', ⟨hne, rfl⟩ | ⟨rfl, rfl⟩⟩ := mem_setVerified hd
    · exact (h.proved d hd' hactive).append (by simpa [Record.sets] using hne.symm)
    · cases hactive

theorem Recorded.of_rows {s t : Config} (h : Recorded s)
    (hnext : s.domains.nextId ≤ t.domains.nextId)
    (hrows : ∀ d ∈ t.domains.rows, (∃ d' ∈ s.domains.rows, SameDomain d d' ∧
      d.active = d'.active ∧ d.verifiedAt = d'.verifiedAt) ∨
        d.id < t.domains.nextId ∧ d.active = false) (hlog : t.log = s.log) : Recorded t := by
  constructor
  · intro d hd
    rcases hrows d hd with ⟨d', hd', hsame, -⟩ | ⟨hid, -⟩
    · rw [hsame.1]
      exact lt_of_lt_of_le (h.ids d' hd') hnext
    · exact hid
  · intro d hd hactive
    rcases hrows d hd with ⟨d', hd', hsame, heq, hverified⟩ | ⟨-, hpending⟩
    · obtain ⟨texts, time, request, hlast, hwant, hat⟩ := h.proved d' hd' (heq ▸ hactive)
      refine ⟨texts, time, request, ?_, ?_, hverified.trans hat⟩
      · rw [hlog, hsame.1]
        exact hlast
      · rw [want, hsame.2.2.2]
        exact hwant
    · rw [hpending] at hactive
      cases hactive

theorem Recorded.of_missed {s t : Config} (h : Recorded s) (hdomains : t.domains = s.domains)
    {id : ℤ} {r : ℕ} (hlog : t.log = s.log ++ [.missed id r]) : Recorded t := by
  constructor
  · rw [hdomains]
    exact h.ids
  · intro d hd hactive
    rw [hdomains] at hd
    rw [hlog]
    exact (h.proved d hd hactive).append rfl

/-! Links. -/

theorem backed_load {io : Script} {db : Database} {slug : Str} {link : Link}
    (h : linkBySlug io db slug = .ok link) : Backed db link := by
  obtain ⟨r, hr, -, rfl⟩ := LinkScopes.readLink_ok h
  exact ⟨r, hr, rfl, rfl, rfl⟩

theorem backed_of_cached {db : Database} {link link' : Link} {cached : CachedRedirect}
    (h : Backed db link) (hcached : fromLink link = some cached)
    (hlink : cached.link = some link') :
    Backed db link' := by
  obtain ⟨row, hrow, hid, hslug, htenant⟩ := h
  unfold fromLink at hcached
  split at hcached
  · cases hcached
  · cases hcached
    cases hlink
    exact ⟨row, hrow, hid, hslug, htenant⟩

theorem backedStep_afterGet {s : Config}
    (h : ∀ key cached link, s.cache key = some cached → cached.link = some link → Backed s.db link)
    (key : Str) (ok : Bool) :
    BackedStep s.db (Resolve.afterGet (if ok then some (s.cache key) else none)) := by
  cases ok with
  | false => trivial
  | true =>
    simp only [if_true]
    cases hcached : s.cache key with
    | none => trivial
    | some cached =>
      cases hlink : cached.link with
      | none =>
        simp only [Resolve.afterGet, hlink]
        trivial
      | some link =>
        simp only [Resolve.afterGet, hlink]
        exact h key cached link hcached hlink

theorem backedStep_afterLoad (io : Script) (db : Database) (slug : Str) :
    BackedStep db (Resolve.afterLoad (linkBySlug io db slug)) := by
  cases hload : linkBySlug io db slug with
  | error e => trivial
  | ok link =>
    cases hcached : fromLink link with
    | none =>
      simp only [Resolve.afterLoad, hcached]
      exact backed_load hload
    | some cached =>
      simp only [Resolve.afterLoad, hcached]
      exact ⟨backed_load hload, hcached⟩

/-! Steps. -/

section
variable {server : Server} {s t : Config} {r : ℕ}

theorem Invariant.of_env (h : Invariant server s) (hrecorded : Recorded t)
    (hcache : ∀ key cached, t.cache key = some cached → s.cache key = some cached)
    (hphase : t.phase = s.phase) (k : ∀ q, Extends s t q) : Invariant server t := by
  refine ⟨hrecorded, fun key cached link hcached hlink => ?_, fun q => ?_⟩
  · exact (h.cache key cached link (hcache key cached hcached) hlink).lineage (k 0).lineage
  · rw [hphase]
    exact (h.phase q).extends (k q)

/-- A request moves and nothing else changes. -/
theorem Invariant.of_move (h : Invariant server s) {x : Phase} (hx : x.Ok server s r) :
    Invariant server (s.move r x) := by
  refine ⟨⟨h.recorded.ids, h.recorded.proved⟩, h.cache, ?_⟩
  refine phases_of_move h.phase rfl ?_ fun q _ =>
    ⟨.refl _, .of_links rfl, le_refl _, fun _ hx => hx, fun _ hx => hx⟩
  exact hx.extends ⟨.refl _, .of_links rfl, le_refl _, fun _ hx => hx, fun _ hx => hx⟩

theorem extends_find {id : ℤ} {texts : List Str} (applied : Bool) (q : ℕ) :
    Extends s (s.find r id texts applied) q := by
  cases applied with
  | false => exact .refl s q
  | true =>
    refine ⟨descends_setVerified _ _ _ _, .of_links rfl, le_refl _, fun x hx =>
      List.mem_append_left _ hx, fun i hi => ?_⟩
    rcases List.mem_append.mp hi with hi | hi
    · exact hi
    · simp at hi

theorem extends_clear {id : ℤ} (applied : Bool) (q : ℕ) : Extends s (s.clear r id applied) q := by
  cases applied with
  | false => exact .refl s q
  | true =>
    refine ⟨descends_setVerified _ _ _ _, .of_links rfl, le_refl _, fun x hx =>
      List.mem_append_left _ hx, fun i hi => ?_⟩
    rcases List.mem_append.mp hi with hi | hi
    · exact hi
    · simp at hi

theorem cache_find {id : ℤ} {texts : List Str} (applied : Bool) :
    (s.find r id texts applied).cache = s.cache ∧ (s.find r id texts applied).phase = s.phase := by
  cases applied <;> exact ⟨rfl, rfl⟩

theorem cache_clear {id : ℤ} (applied : Bool) :
    (s.clear r id applied).cache = s.cache ∧ (s.clear r id applied).phase = s.phase := by
  cases applied <;> exact ⟨rfl, rfl⟩

/-- The state after a found token, before its request moves. -/
theorem Invariant.find (h : Invariant server s) {d : DomainRow} {texts : List Str}
    (hknown : Known s d) (hfound : verifyDomain server.base d texts = true) (applied : Bool) :
    Invariant server (s.find r d.id texts applied) := by
  have hwant : ∀ d' ∈ s.domains.rows, d'.id = d.id → want d' ∈ texts := by
    intro d' hd' hid
    simp only [verifyDomain, Bool.and_eq_true, List.contains_iff_mem] at hfound
    rw [want, (hknown.same d' hd' hid).2.2.2]
    exact hfound.2
  refine h.of_env (h.recorded.find hwant applied) (fun key cached hcached => ?_)
    (cache_find applied).2 (extends_find applied)
  rwa [(cache_find applied).1] at hcached

theorem Invariant.clear (h : Invariant server s) {id : ℤ} (applied : Bool) :
    Invariant server (s.clear r id applied) := by
  refine h.of_env (h.recorded.clear applied) (fun key cached hcached => ?_)
    (cache_clear applied).2 (extends_clear applied)
  rwa [(cache_clear applied).1] at hcached

/-- The domain check. -/
theorem check_ok (h : Invariant server s) {host slug : Str} (hr : s.phase r = .idle) :
    (check server s host slug).Ok server s r := by
  have hunmissed : Unmissed s.log r := by
    have hok := h.phase r
    rw [hr] at hok
    exact hok
  unfold check
  split
  · rename_i hbase
    exact ⟨hunmissed, trivial, by simpa [Hosted] using hbase, fun c hc => by cases hc⟩
  split
  · trivial
  · rename_i d hd
    split
    · rename_i hactive
      obtain ⟨hmem, hname⟩ := find_row hd
      refine ⟨hunmissed, ⟨hmem, by simpa using hname, hactive, h.recorded.proved d hmem hactive⟩,
        ⟨h.recorded.ids d hmem, fun d' hd' hid => ?_⟩, le_refl _⟩
      rw [row_unique hd' hmem hid]
      exact .refl d
    · trivial

theorem tenantCheck_ok {host : Str} {checked : Option Checked} {link : Link}
    (hunmissed : Unmissed s.log r) (hbacked : Backed s.db link)
    (hhosted : Hosted server host checked)
    (hchecked : ∀ c, checked = some c → Passed server s c ∧ Recent s.log r c) :
    (Phase.answered (tenantCheck host checked link)).Ok server s r := by
  unfold tenantCheck
  split
  · trivial
  · rename_i htenant
    refine ⟨hunmissed, hbacked, hhosted, fun c hc => ⟨(hchecked c hc).1, (hchecked c hc).2, ?_⟩⟩
    simpa [hc] using htenant

/-- A verification that is recent now was recent before. -/
theorem fresh_earlier {clock clock' : Time} {d : DomainRow} (h : fresh clock' d = true)
    (hclock : clock.nanos ≤ clock'.nanos) : fresh clock d = true := by
  unfold fresh at h ⊢
  cases hv : d.verifiedAt with
  | none =>
    rw [hv] at h
    cases h
  | some v =>
    rw [hv] at h
    simp only [Option.any_some, decide_eq_true_eq] at h ⊢
    omega

theorem invariant_age (h : Invariant server s) (hstep : next server s (.age r) = some t) :
    Invariant server t := by
  simp only [next] at hstep
  split at hstep
  · rename_i c slug hr
    have hok := h.phase r
    rw [hr] at hok
    split at hstep
    · rename_i hfresh
      cases hstep
      refine h.of_move ⟨hok.1, trivial, rfl, fun c' hc' => ?_⟩
      cases hc'
      exact ⟨hok.2, Or.inl (fresh_earlier hfresh hok.2.clock)⟩
    · cases hstep
      exact h.of_move hok
  · cases hstep

/-- The token was found and, unless the request fails, its record is in the log. -/
theorem invariant_found (h : Invariant server s) {c : Checked} {slug : Str}
    (hr : s.phase r = .stale c slug) {texts : List Str} {call : CacheCall}
    (hpossible : call.possible = true)
    (hfound : verifyDomain server.base c.row texts = true) :
    Invariant server ((s.find r c.row.id texts call.applied).move r
      (if call.ok then .resolving (some c) c.host slug .get else .answered .notFound)) := by
  have hok := h.phase r
  rw [hr] at hok
  have hk : Extends s (s.find r c.row.id texts call.applied) r := extends_find call.applied r
  refine (h.find hok.2.known hfound call.applied).of_move ?_
  cases hcall : call.ok with
  | false => trivial
  | true =>
    have happlied : call.applied = true := by simpa [CacheCall.possible, hcall] using hpossible
    refine ⟨hok.1.extends hk, trivial, rfl, fun c' hc' => ?_⟩
    cases hc'
    refine ⟨hok.2.extends hk, Or.inr ⟨texts, s.clock, ?_, ?_, hok.2.clock⟩⟩
    · rw [happlied]
      exact List.mem_append_right _ (List.mem_singleton_self _)
    · simp only [verifyDomain, Bool.and_eq_true, List.contains_iff_mem] at hfound
      exact hfound.2

theorem invariant_missed (h : Invariant server s) {c : Checked} (id : ℤ) :
    Invariant server { s.move r (.failing c) with log := s.log ++ [.missed id r] } := by
  refine ⟨h.recorded.of_missed rfl rfl, h.cache, ?_⟩
  refine phases_of_move h.phase rfl trivial fun q hq => ?_
  refine ⟨.refl _, .of_links rfl, le_refl _, fun x hx => List.mem_append_left _ hx, fun i hi => ?_⟩
  rcases List.mem_append.mp hi with hi | hi
  · exact hi
  · simp only [List.mem_singleton, Record.missed.injEq] at hi
    exact absurd hi.2 hq

theorem invariant_verify (h : Invariant server s) {texts : List Str} {call : CacheCall}
    (hstep : next server s (.verify r texts call) = some t) : Invariant server t := by
  simp only [next] at hstep
  split at hstep
  · cases hstep
  rename_i hpossible
  split at hstep
  · rename_i c slug hr
    split at hstep
    · rename_i hfound
      cases hstep
      exact invariant_found h hr (by simpa using hpossible) hfound
    · cases hstep
      exact invariant_missed h c.row.id
  · rename_i d hr
    have hok := h.phase r
    rw [hr] at hok
    split at hstep
    · rename_i hfound
      cases hstep
      exact (h.find hok hfound call.applied).of_move trivial
    · cases hstep
      exact h.of_move trivial
  · cases hstep

theorem invariant_resolve (h : Invariant server s) {c : Option Checked} {host slug : Str}
    {step : Resolve} (hr : s.phase r = .resolving c host slug step) {step' : Resolve}
    (hstep : BackedStep s.db step') :
    Invariant server (s.move r (.resolving c host slug step')) := by
  have hok := h.phase r
  rw [hr] at hok
  exact h.of_move ⟨hok.1, hstep, hok.2.2⟩

theorem invariant_set (h : Invariant server s) {c : Option Checked} {host slug key : Str}
    {link : Link} {cached : CachedRedirect}
    (hr : s.phase r = .resolving c host slug (.set link cached)) (applied : Bool) :
    Invariant server { s.move r (.resolving c host slug (.done (.ok link))) with
      cache := if applied then Function.update s.cache key (some cached) else s.cache } := by
  have hok := h.phase r
  rw [hr] at hok
  have hmoved : Invariant server (s.move r (.resolving c host slug (.done (.ok link)))) :=
    invariant_resolve h hr hok.2.1.1
  refine ⟨⟨h.recorded.ids, h.recorded.proved⟩, fun key' cached' link' hcached hlink => ?_,
    fun q => (hmoved.phase q).extends
      ⟨.refl _, .of_links rfl, le_refl _, fun _ hx => hx, fun _ hx => hx⟩⟩
  cases applied with
  | false => exact h.cache key' cached' link' hcached hlink
  | true =>
    simp only [if_true] at hcached
    by_cases hkey : key' = key
    · subst hkey
      rw [Function.update_self] at hcached
      cases hcached
      exact backed_of_cached hok.2.1.1 hok.2.1.2 hlink
    · rw [Function.update_of_ne hkey] at hcached
      exact h.cache key' cached' link' hcached hlink

theorem invariant_administer (h : Invariant server s) {u : User} {id : ℤ}
    (hstep : next server s (.administer r u id) = some t) : Invariant server t := by
  simp only [next] at hstep
  split at hstep
  · split at hstep
    · rename_i d hd
      cases hstep
      have hmem : d ∈ s.domains.rows := by
        obtain ⟨scope, -, hfind⟩ := Option.bind_eq_some_iff.mp hd
        exact (find_row hfind).1
      refine h.of_move ⟨h.recorded.ids d hmem, fun d' hd' hid => ?_⟩
      rw [row_unique hd' hmem hid]
      exact .refl d
    · cases hstep
      exact h.of_move trivial
  · cases hstep

theorem invariant_start (h : Invariant server s) {rHost slug : Str}
    (hstep : next server s (.start r rHost slug) = some t) : Invariant server t := by
  simp only [next] at hstep
  split at hstep
  · rename_i hr
    split at hstep
    · cases hstep
      exact h.of_move (check_ok h hr)
    · cases hstep
      exact h.of_move trivial
  · cases hstep

theorem invariant_create (h : Invariant server s) (u : User) (tenantId : ℤ)
    (domain token : Str) : Invariant server { s with
      domains := (createTenantDomain server.unicode s.domains u tenantId domain token).2 } := by
  obtain ⟨hnext, hrows⟩ := create_rows server.unicode s.domains u tenantId domain token
  have hdescends := descends_create server.unicode s.domains u tenantId domain token
  generalize (createTenantDomain server.unicode s.domains u tenantId domain token).2 = domains
    at hnext hrows hdescends
  refine h.of_env (h.recorded.of_rows hnext (fun d hd => ?_) rfl) (fun _ _ hc => hc) rfl
    (.of_env hdescends (.of_links rfl) (le_refl _) rfl)
  rcases hrows d hd with hd | ⟨hid, hpending, hlt⟩
  · exact Or.inl ⟨d, hd, .refl d, rfl, rfl⟩
  · exact Or.inr ⟨hid ▸ hlt, hpending⟩

/-- The administrators' calls that write no status. -/
theorem Invariant.of_rows (h : Invariant server s) {domains : Domains}
    (hnext : domains.nextId = s.domains.nextId) (hdescends : Descends s.domains domains)
    (hrows : ∀ d ∈ domains.rows, ∃ d' ∈ s.domains.rows, SameDomain d d' ∧
      d.active = d'.active ∧ d.verifiedAt = d'.verifiedAt) :
    Invariant server { s with domains := domains } :=
  h.of_env (h.recorded.of_rows hnext.ge (fun d hd => Or.inl (hrows d hd)) rfl)
    (fun _ _ hc => hc) rfl (.of_env hdescends (.of_links rfl) (le_refl _) rfl)

theorem invariant_call (h : Invariant server s) {db : Database} (hdb : Lineage s.db db) :
    Invariant server { s with db := db } :=
  h.of_env ⟨h.recorded.ids, h.recorded.proved⟩ (fun _ _ hc => hc) rfl
    (.of_env (.refl _) hdb (le_refl _) rfl)

theorem invariant_evict (h : Invariant server s) (key : Str) :
    Invariant server { s with cache := Function.update s.cache key none } := by
  refine h.of_env ⟨h.recorded.ids, h.recorded.proved⟩ (fun key' cached hcached => ?_) rfl
    (.of_env (.refl _) (.of_links rfl) (le_refl _) rfl)
  by_cases hkey : key' = key
  · subst hkey
    simp at hcached
  · dsimp only at hcached
    rwa [Function.update_of_ne hkey] at hcached

theorem invariant_step (h : Invariant server s) {l : Label} (hstep : next server s l = some t) :
    Invariant server t := by
  cases l with
  | tick now =>
    simp only [next] at hstep
    split at hstep
    · rename_i hnow
      cases hstep
      exact h.of_env ⟨h.recorded.ids, h.recorded.proved⟩ (fun _ _ hc => hc) rfl
        (.of_env (.refl _) (.of_links rfl) hnow rfl)
    · cases hstep
  | create u tenantId domain token =>
    rw [← Option.some.inj hstep]
    exact invariant_create h u tenantId domain token
  | update u id url =>
    rw [← Option.some.inj hstep]
    exact h.of_rows (nextId_updateTenantDomain _ _ _ _) (descends_update _ _ _ _) fun d hd =>
      rows_updateTenantDomain hd
  | delete u id =>
    rw [← Option.some.inj hstep]
    exact h.of_rows (nextId_deleteTenantDomain _ _ _) (descends_delete _ _ _) fun d hd =>
      ⟨d, rows_deleteTenantDomain hd, .refl d, rfl, rfl⟩
  | administer r u id => exact invariant_administer h hstep
  | start r rHost slug => exact invariant_start h hstep
  | age r => exact invariant_age h hstep
  | verify r texts call => exact invariant_verify h hstep
  | clear r call =>
    simp only [next] at hstep
    split at hstep
    · cases hstep
    split at hstep
    · cases hstep
      exact (h.clear call.applied).of_move trivial
    · cases hstep
  | get r ok =>
    simp only [next] at hstep
    split at hstep
    · rename_i hr
      cases hstep
      exact invariant_resolve h hr (backedStep_afterGet h.cache _ ok)
    · cases hstep
  | load r io =>
    simp only [next] at hstep
    split at hstep
    · rename_i slug hr
      cases hstep
      exact invariant_resolve h hr (backedStep_afterLoad io s.db slug)
    · cases hstep
  | set r call =>
    simp only [next] at hstep
    split at hstep
    · cases hstep
    split at hstep
    · rename_i hr
      cases hstep
      exact invariant_set h hr call.applied
    · cases hstep
  | check r =>
    simp only [next] at hstep
    split at hstep
    · cases hstep
      exact h.of_move trivial
    · rename_i hr
      cases hstep
      have hok := h.phase r
      rw [hr] at hok
      exact h.of_move (tenantCheck_ok hok.1 hok.2.1 hok.2.2.1 hok.2.2.2)
    · cases hstep
  | call u c io =>
    rw [← Option.some.inj hstep]
    exact invariant_call h (lineage_call c io s.db u)
  | evict key =>
    rw [← Option.some.inj hstep]
    exact invariant_evict h key

end

/-! Runs. -/

theorem invariant_start_state {server : Server} {s : Config} (h : Start s) :
    Invariant server s := by
  refine ⟨⟨fun d hd => (h.pending d hd).2, fun d hd hactive => ?_⟩, fun key cached _ hcached => ?_,
    fun r => ?_⟩
  · rw [(h.pending d hd).1] at hactive
    cases hactive
  · rw [h.cache] at hcached
    cases hcached
  · rw [h.idle r]
    intro id hid
    rw [h.log] at hid
    cases hid

def Phase.checked : Phase → Option Checked
  | .active c _ => some c
  | .stale c _ => some c
  | .failing c => some c
  | .resolving c .. => c
  | .answered (.served _ c _) => c
  | _ => none

/-- The domain check was taken in the state in which the request arrived. -/
def Taken (server : Server) (s : Config) (es : List Label) (r : ℕ) (c : Checked) : Prop :=
  ∃ xs rHost slug ys u, es = xs ++ .start r rHost slug :: ys ∧ Execution (next server) s xs u ∧
    c.host = requestHost server.unicode rHost ∧ c.domains = u.domains ∧ c.clock = u.clock ∧
    c.log = u.log

theorem checked_of_move {f : ℕ → Phase} {r q : ℕ} {x : Phase} {c : Checked}
    (hx : x.checked = some c → (f r).checked = some c)
    (h : (Function.update f r x q).checked = some c) : (f q).checked = some c := by
  by_cases hq : q = r
  · subst hq
    rw [Function.update_self] at h
    exact hx h
  · rwa [Function.update_of_ne hq] at h

theorem checked_tenantCheck {host : Str} {checked : Option Checked} {link : Link} {c : Checked}
    (h : (Phase.answered (tenantCheck host checked link)).checked = some c) : checked = some c := by
  unfold tenantCheck at h
  split at h
  · cases h
  · exact h

theorem checked_check {server : Server} {s : Config} {host slug : Str} {c : Checked}
    (h : (check server s host slug).checked = some c) :
    c.host = host ∧ c.domains = s.domains ∧ c.clock = s.clock ∧ c.log = s.log := by
  unfold check at h
  split at h
  · cases h
  split at h
  · cases h
  split at h
  · cases h
    exact ⟨rfl, rfl, rfl, rfl⟩
  · cases h

/-- A step takes a domain check for an arriving request or keeps the one it has. -/
theorem checked_step {server : Server} {s t : Config} {l : Label}
    (h : next server s l = some t) {q : ℕ} {c : Checked} (hc : (t.phase q).checked = some c) :
    (s.phase q).checked = some c ∨ ∃ rHost slug, l = .start q rHost slug ∧
      c.host = requestHost server.unicode rHost ∧ c.domains = s.domains ∧ c.clock = s.clock ∧
      c.log = s.log := by
  cases l with
  | tick now =>
    simp only [next] at h
    split at h
    · cases h
      exact Or.inl hc
    · cases h
  | create u tenantId domain token =>
    rw [← Option.some.inj h] at hc
    exact Or.inl hc
  | update u id url =>
    rw [← Option.some.inj h] at hc
    exact Or.inl hc
  | delete u id =>
    rw [← Option.some.inj h] at hc
    exact Or.inl hc
  | administer r u id =>
    simp only [next] at h
    split at h
    · split at h <;> cases h <;> exact Or.inl (checked_of_move (fun hx => by cases hx) hc)
    · cases h
  | start r rHost slug =>
    simp only [next] at h
    split at h
    · split at h
      · cases h
        by_cases hq : q = r
        · subst hq
          simp only [Config.move, Function.update_self] at hc
          exact Or.inr ⟨rHost, slug, rfl, checked_check hc⟩
        · simp only [Config.move, Function.update_of_ne hq] at hc
          exact Or.inl hc
      · cases h
        exact Or.inl (checked_of_move (fun hx => by cases hx) hc)
    · cases h
  | age r =>
    simp only [next] at h
    split at h
    · rename_i hr
      split at h <;> cases h <;> exact Or.inl (checked_of_move (fun hx => by rw [hr]; exact hx) hc)
    · cases h
  | verify r texts call =>
    simp only [next] at h
    split at h
    · cases h
    split at h
    · rename_i hr
      split at h
      · cases h
        rw [← (@cache_find s r _ texts call.applied).2]
        refine Or.inl (checked_of_move (fun hx => ?_) hc)
        rw [(cache_find _).2, hr]
        split at hx
        · exact hx
        · cases hx
      · cases h
        exact Or.inl (checked_of_move (fun hx => by rw [hr]; exact hx) hc)
    · split at h
      · cases h
        rw [← (@cache_find s r _ texts call.applied).2]
        exact Or.inl (checked_of_move (fun hx => by cases hx) hc)
      · cases h
        exact Or.inl (checked_of_move (fun hx => by cases hx) hc)
    · cases h
  | clear r call =>
    simp only [next] at h
    split at h
    · cases h
    split at h
    · cases h
      rw [← (@cache_clear s r _ call.applied).2]
      exact Or.inl (checked_of_move (fun hx => by cases hx) hc)
    · cases h
  | get r ok =>
    simp only [next] at h
    split at h
    · rename_i hr
      cases h
      exact Or.inl (checked_of_move (fun hx => by rw [hr]; exact hx) hc)
    · cases h
  | load r io =>
    simp only [next] at h
    split at h
    · rename_i hr
      cases h
      exact Or.inl (checked_of_move (fun hx => by rw [hr]; exact hx) hc)
    · cases h
  | set r call =>
    simp only [next] at h
    split at h
    · cases h
    split at h
    · rename_i hr
      cases h
      exact Or.inl (checked_of_move (fun hx => by rw [hr]; exact hx) hc)
    · cases h
  | check r =>
    simp only [next] at h
    split at h
    · cases h
      exact Or.inl (checked_of_move (fun hx => by cases hx) hc)
    · rename_i hr
      cases h
      exact Or.inl (checked_of_move (fun hx => by rw [hr]; exact checked_tenantCheck hx) hc)
    · cases h
  | call u c io =>
    rw [← Option.some.inj h] at hc
    exact Or.inl hc
  | evict key =>
    rw [← Option.some.inj h] at hc
    exact Or.inl hc

theorem taken_run {server : Server} {s : Config} (hs : Start s) {es : List Label} {t : Config}
    (h : Execution (next server) s es t) {r : ℕ} {c : Checked}
    (hc : (t.phase r).checked = some c) : Taken server s es r c := by
  induction h with
  | refl =>
    rw [hs.idle r] at hc
    cases hc
  | @tail es u l v hrun hstep ih =>
    rcases checked_step hstep hc with hc | ⟨rHost, slug, rfl, htaken⟩
    · obtain ⟨xs, rHost, slug, ys, w, hes, htaken⟩ := ih hc
      exact ⟨xs, rHost, slug, ys ++ [l], w, by simp [hes], htaken⟩
    · exact ⟨es, rHost, slug, [], u, rfl, hrun, htaken⟩

/-- After a recorded failure only another found token makes the last record a success. -/
theorem found_after_cleared {log ys zs : List Record} {id : ℤ} {q : ℕ} {x : Record}
    (hlog : log = ys ++ .cleared id q :: zs) (h : lastRecord log id = some x)
    (hx : ∀ request, x ≠ .cleared id request) : x ∈ zs := by
  rw [hlog, lastRecord, List.filter_append, List.filter_cons_of_pos (by simp [Record.sets]),
    List.getLast?_append, List.getLast?_cons] at h
  cases hlast : (zs.filter (Record.sets id)).getLast? with
  | none =>
    rw [hlast] at h
    exact absurd (Option.some.inj h).symm (hx q)
  | some y =>
    rw [hlast] at h
    obtain rfl : y = x := Option.some.inj h
    exact (List.mem_filter.mp (List.mem_of_getLast? hlast)).1

theorem stamp_le (t : Time) : ((timestamptz t).getD t).nanos ≤ t.nanos := by
  unfold timestamptz
  split
  · change micros t * 1000 ≤ t.nanos
    unfold micros
    omega
  · exact le_refl _

/-- Requests on a custom domain that are served passed a check against an active row of that
domain, whose token was found within the last day or by the request itself, and the link is one of
the domain's tenant. A request whose check failed is not served, and a domain with a recorded
failure serves nothing before its token has been found again. -/
theorem custom_domains_serve_own_links {server : Server} {s : Config} (hs : Start s)
    {es : List Label} {t : Config} (hrun : Execution (next server) s es t) {r : ℕ} {host : Str}
    {checked : Option Checked} {link : Link}
    (hserved : t.phase r = .answered (.served host checked link)) (hhost : host ≠ [])
    (hbase : host ≠ server.base) :
    ∃ c, checked = some c ∧ c.host = host ∧ Taken server s es r c ∧
      c.row ∈ c.domains.rows ∧ c.row.domain = cleanDomain server.unicode host ∧
      c.row.active = true ∧
      (∃ texts time request, lastRecord c.log c.row.id = some (.found c.row.id texts time request) ∧
        want c.row ∈ texts ∧ (c.clock.nanos - time.nanos < hours24 ∨
          ∃ texts' time', .found c.row.id texts' time' r ∈ t.log ∧ want c.row ∈ texts' ∧
            c.clock.nanos ≤ time'.nanos)) ∧
      (∀ id, .missed id r ∉ t.log) ∧
      (∀ ys request zs, c.log = ys ++ .cleared c.row.id request :: zs →
        ∃ texts time q, .found c.row.id texts time q ∈ zs) ∧
      link.tenantId = some c.row.tenantId ∧ Backed t.db link := by
  have hinv : Invariant server t :=
    hrun.invariant (invariant_start_state hs) fun u l v hu hstep => invariant_step hu hstep
  have hok := hinv.phase r
  rw [hserved] at hok
  obtain ⟨hunmissed, hbacked, hhosted, hchecked⟩ := hok
  cases checked with
  | none => exact absurd hhosted (by simp [Hosted, hhost, hbase])
  | some c =>
    obtain ⟨⟨hsound, -, -⟩, hrecent, htenant⟩ := hchecked c rfl
    obtain ⟨texts, time, request, hlast, hwant, hverified⟩ := hsound.proved
    obtain rfl : c.host = host := hhosted
    refine ⟨c, rfl, rfl, taken_run hs hrun (by rw [hserved]; rfl), hsound.row, hsound.named,
      hsound.active, ⟨texts, time, request, hlast, hwant, hrecent.imp_left fun hfresh => ?_⟩,
      hunmissed, fun ys q zs hlog => ?_, htenant, hbacked⟩
    · have hstamp := stamp_le time
      simp only [fresh, hverified, Option.any_some, decide_eq_true_eq] at hfresh
      omega
    · exact ⟨texts, time, request, found_after_cleared hlog hlast (by simp)⟩

/-! A domain that is verified, and a request on it. -/

def deployed : Server := ⟨ascii, lit "https://s.example"⟩

def fresh₀ : Config where
  domains := ⟨.empty, 1, [1]⟩
  db := Database.empty
  cache := fun _ => none
  clock := ⟨1750000000000000000⟩
  log := []
  phase := fun _ => .idle

def owner : User := ⟨1, some 1, .customer⟩

def tenantAdmin : User := ⟨2, some 1, .tenant⟩

def verified : List Label :=
  [.create tenantAdmin 1 (lit "go.example.com") (lit "t0"), .administer 0 tenantAdmin 1,
    .verify 0 [lit "shortq-verify=t0"] ⟨true, true⟩]

def request : List Label :=
  [.call owner (.createLink [] { slug := lit "docs", targetUrl := lit "https://example.com/" } [])
      {},
    .start 1 (lit "Go.Example.com:443") (lit "docs"), .age 1, .get 1 true, .load 1 {},
    .set 1 ⟨true, true⟩, .check 1]

/-- The host and the link's tenant of a served request. -/
def served : Phase → Option (Str × Option ℤ)
  | .answered (.served host _ link) => some (host, link.tenantId)
  | _ => none

theorem served_eq_some {x : Phase} {host : Str} {tenantId : Option ℤ}
    (h : served x = some (host, tenantId)) :
    ∃ checked link, x = .answered (.served host checked link) ∧ link.tenantId = tenantId := by
  unfold served at h
  split at h
  · rename_i host' checked link
    cases h
    exact ⟨checked, link, rfl, rfl⟩
  · cases h

theorem start_fresh : Start fresh₀ where
  pending _ hd := absurd hd List.not_mem_nil
  cache _ := rfl
  log := rfl
  idle _ := rfl

/-- The first request after the administrator's verification. -/
theorem custom_domains_serve_own_links_verified : ∃ t c,
    Execution (next deployed) fresh₀ (verified ++ request) t ∧ (t.phase 1).checked = some c ∧
      c.row ∈ c.domains.rows ∧ c.row.active = true ∧ c.row.tenantId = 1 := by
  have hrun : (replay (next deployed) fresh₀ (verified ++ request)).map (fun t =>
      served (t.phase 1)) = some (some (lit "go.example.com", some 1)) := by decide +kernel
  obtain ⟨t, ht, hserved⟩ := Option.map_eq_some_iff.mp hrun
  obtain ⟨checked, link, hphase, htenant⟩ := served_eq_some hserved
  obtain ⟨c, rfl, -, -, hrow, -, hactive, -, -, -, howned, -⟩ :=
    custom_domains_serve_own_links start_fresh (execution_of_replay ht) hphase (by decide)
      (by decide)
  refine ⟨t, c, execution_of_replay ht, by rw [hphase]; rfl, hrow, hactive, ?_⟩
  exact Option.some.inj (howned.symm.trans htenant)

end DomainChecks
