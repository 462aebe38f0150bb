import ShortQ.CacheCoherence
import ShortQ.ClickStore
import ShortQ.LinkClients
import ShortQ.LinkLineage
import ShortQ.LinkWrites
import ShortQ.RedirectAccounts
import ShortQ.TenantDomains

/-! # Redirects, links and domains one after the other

Each label is a whole request. Every key of the cache is kept, so the hosts under which
`redirectSlug` fills it are compared with the hosts under which the other handlers clear it. -/
namespace CacheHistories

open CacheCoherence (Caches Failed Retired Serves)
open ClickStore
open GoText
open GoTime (Time)
open Hosts
open LabelledRuns
open LinkCalls
open LinkClients
open LinkLineage
open LinkScopes
open LinkStore
open LinkValidation
open LinkWrites
open Models
open RedirectCache
open RedirectEvents (Site Visit)
open RedirectHandler (record)
open RowTable
open Schema
open TenantDomains
open Transaction

/-- A redirect request and what the calls it makes meet: the TXT records of its domain, the
outcome of `SetTenantDomainVerified`, whether `ActiveLinkSlugsForTenant` and `Cache.Get` answer,
the load, the outcome of `Cache.Set`, that of `Publish` (none without the queue) and the
transaction of `RecordClick`. -/
structure Request where
  visit : Visit
  slug : Str
  now : Time
  texts : List Str
  recorded : CacheCall
  lookup : Bool
  get : Bool
  io : Script
  set : CacheCall
  published : Option Bool
  click : Script

def Request.rHost (q : Request) : Str := q.visit.request.host

/-- What `Resolve` returned to a visit, with the database of that moment, and what `recordClick`
answered where the visit got that far. -/
structure Answer where
  slug : Str
  db : Database
  visit : Visit
  result : Except Err Link
  outcome : Bool × Option Err

def Answer.reply (site : Site) (a : Answer) : RedirectEvents.Reply :=
  match RedirectEvents.redirectSlug site a.visit a.result with
  | .replied reply => reply
  | .recording _ _ _ reply => reply a.outcome.1 a.outcome.2

/-- The visitor is sent where the resolved link says. -/
def Answer.Redirected (site : Site) (a : Answer) : Prop :=
  ∃ link target code, a.result = .ok link ∧ a.reply site = .redirect target code

structure Config where
  domains : Domains
  db : Database
  cache : Str → Option CachedRedirect
  answers : List Answer

/-- The link calls with the scripts of their transaction, of the read after it and, for the
deletions, of the read before it. -/
inductive Label where
  | redirect (q : Request)
  | call (u : User) (c : Call) (io after before : Script)
  /-- The worker stores what the queue held. -/
  | recordClicks (io : Script) (events : List ClickEvent)
  | create (u : User) (tenantId : ℤ) (domain token : Str)
  | verify (u : User) (id : ℤ) (texts : List Str) (now : Time) (call : CacheCall) (lookup : Bool)
  | update (u : User) (id : ℤ) (url : Str) (call : CacheCall) (lookup : Bool)
  | delete (u : User) (id : ℤ) (call : CacheCall) (lookup : Bool)
  | evict (key : Str)

/-! The cache keys of a link. -/

def redirectHosts (server : Server) (domains : Domains) (tenantId : Option ℤ) : List Str :=
  server.base :: activeDomainAliasesForTenant domains tenantId

/-- The keys `Resolver.Invalidate` deletes. -/
def invalidated (server : Server) (hosts : List Str) (slug : Str) : List Str :=
  ((hosts.map (NormalizeHostname server.unicode)).filter (· ≠ [])).map fun host =>
    Key server.unicode host slug

def Config.delete (s : Config) (keys : List Str) : Config :=
  { s with cache := fun key => if keys.contains key then none else s.cache key }

/-- The keys of `invalidateRedirect`. -/
def redirectKeys (server : Server) (domains : Domains) (tenantId : Option ℤ) (slug : Str) :
    List Str := invalidated server (redirectHosts server domains tenantId) slug

def Config.invalidateRedirects (server : Server) (s : Config) (links : List Link) : Config :=
  s.delete (links.flatMap fun link => redirectKeys server s.domains link.tenantId link.slug)

def Config.invalidateDomainRedirects (server : Server) (s : Config) (d : DomainRow)
    (lookup : Bool) : Config :=
  if lookup then
    s.delete ((activeLinkSlugsForTenant s.db d.tenantId).flatMap (invalidated server [d.domain]))
  else s

/-! Redirect requests. -/

inductive DomainCheck where
  | base
  | refused
  | fresh (d : DomainRow)
  | found (d : DomainRow)
  | missed (d : DomainRow)

def domainCheck (server : Server) (domains : Domains) (host : Str) (now : Time)
    (texts : List Str) : DomainCheck :=
  if host = [] || host = server.base then .base
  else
    match tenantDomainByDomain server.unicode domains host with
    | none => .refused
    | some d =>
      if !d.active then .refused
      else if TenantDomains.fresh now d then .fresh d
      else if verifyDomain server.base d texts then .found d
      else .missed d

/-- `recordClick`, for a visit that calls it. -/
def Request.recordClick (site : Site) (q : Request) (visit : Visit) (db : Database)
    (result : Except Err Link) : (Bool × Option Err) × Database :=
  match RedirectEvents.redirectSlug site visit result with
  | .replied _ => ((false, none), db)
  | .recording event increment maxClicks _ =>
    record q.published q.click db event increment maxClicks

/-- `redirectSlug` from the result of `Resolve` on. -/
def Config.answer (site : Site) (s : Config) (q : Request) (domain : Option DomainRow)
    (result : Except Err Link) : Config :=
  let visit := { q.visit with domain := domain }
  let recorded := q.recordClick site visit s.db result
  { s with
    db := recorded.2
    answers := s.answers ++ [⟨q.slug, s.db, visit, result, recorded.1⟩] }

/-- `Resolver.Resolve` and what follows. -/
def Config.resolve (server : Server) (site : Site) (s : Config) (q : Request) (host : Str)
    (domain : Option DomainRow) : Config :=
  let key := Key server.unicode host q.slug
  match (if q.get then s.cache key else none).bind CachedRedirect.link with
  | some link => s.answer site q domain (.ok link)
  | none =>
    match linkBySlug q.io s.db q.slug with
    | .error e => s.answer site q domain (.error e)
    | .ok link =>
      match fromLink link with
      | none => s.answer site q domain (.ok link)
      | some cached =>
        let s := if q.set.applied then
          { s with cache := Function.update s.cache key (some cached) } else s
        s.answer site q domain (.ok link)

def Config.setVerified (s : Config) (d : DomainRow) (verified : Bool) (now : Time)
    (call : CacheCall) : Config :=
  if call.applied then
    { s with domains := setTenantDomainVerified s.domains d.id verified now }
  else s

def Config.redirectSlug (server : Server) (site : Site) (s : Config) (q : Request) : Config :=
  if !acceptedSlug q.slug then s
  else
    let host := requestHost server.unicode q.rHost
    match domainCheck server s.domains host q.now q.texts with
    | .base => s.resolve server site q host none
    | .refused => s
    | .fresh d => s.resolve server site q host (some d)
    | .found d =>
      let s := s.setVerified d true q.now q.recorded
      if q.recorded.ok then s.resolve server site q host (some d) else s
    | .missed d =>
      let s := s.setVerified d false q.now q.recorded
      if q.recorded.ok then s.invalidateDomainRedirects server d q.lookup else s

/-! The other requests. -/

/-- What the deletions read before they delete. -/
def deletes : Call → Option ReadBack
  | .deleteLink id => some (.byID id)
  | .deleteLinksBulk ids => some (.byIDs ids)
  | _ => none

def Config.call (server : Server) (s : Config) (u : User) (c : Call) (io after before : Script) :
    Config :=
  match deletes c with
  | some readBack =>
    match readBack.read before s.db u with
    | .error _ => s
    | .ok links =>
      match c.write io s.db u with
      | (some _, db) => { s with db := db }
      | (none, db) => { s with db := db }.invalidateRedirects server links
  | none =>
    match c.run io after s.db u with
    | (.error _, db) => { s with db := db }
    | (.ok links, db) => { s with db := db }.invalidateRedirects server links

/-- `UpdateTenantDomain` refuses the address. -/
def refusedUrl (url : Str) : Bool :=
  (text url).all fun url => url ≠ [] && (validHTTPURL url).isSome

def next (server : Server) (site : Site) (s : Config) : Label → Option Config
  | .redirect q =>
    if q.recorded.possible && q.set.possible then some (s.redirectSlug server site q) else none
  | .call u c io after before => some (s.call server u c io after before)
  | .recordClicks io events =>
    some { s with db := (recordClicks io s.db events).2 }
  | .create u tenantId domain token =>
    some { s with
      domains := (createTenantDomain server.unicode s.domains u tenantId domain token).2 }
  | .verify u id texts now call lookup =>
    match tenantDomainByID s.domains u id with
    | none => some s
    | some d =>
      if !call.possible then none
      else if verifyDomain server.base d texts then
        let s := s.setVerified d true now call
        some (if call.ok then s.invalidateDomainRedirects server d lookup else s)
      else some s
  | .update u id url call lookup =>
    match tenantDomainByID s.domains u id with
    | none => some s
    | some d =>
      if !call.possible || (call.ok && refusedUrl (trimSpace url)) then none
      else
        let s := if call.applied then
          { s with domains := updateTenantDomain s.domains u id (trimSpace url) } else s
        some (if call.ok then s.invalidateDomainRedirects server d lookup else s)
  | .delete u id call lookup =>
    match tenantDomainByID s.domains u id with
    | none => some s
    | some d =>
      if !call.possible then none
      else
        let s := if call.applied then
          { s with domains := deleteTenantDomain s.domains u id } else s
        some (if call.ok then s.invalidateDomainRedirects server d lookup else s)
  | .evict key => some { s with cache := Function.update s.cache key none }

/-! What is promised, and when. -/

/-- The reply is made from the committed row, in full or as it is cached, and a deleted link's slug
is not redirected. -/
def Answer.Truthful (site : Site) (a : Answer) : Prop :=
  (Serves a.slug a.db a.result ∨ Failed a.result) ∧
    (Retired a.slug a.db → ¬ a.Redirected site)

/-- A change of the domains that is applied is reported, and the slugs to clear are found. -/
def Noted (call : CacheCall) (lookup : Bool) : Prop :=
  call.applied = true → call.ok = true ∧ lookup = true

/-- The request's domain check lets it reach the cache. -/
def Passes (server : Server) (s : Config) (q : Request) : Prop :=
  match domainCheck server s.domains (requestHost server.unicode q.rHost) q.now q.texts with
  | .base => True
  | .fresh _ => True
  | .found _ => q.recorded.ok = true
  | _ => False

def Request.key (server : Server) (q : Request) : Str :=
  Key server.unicode (requestHost server.unicode q.rHost) q.slug

/-- The key of the request is one that `invalidateRedirect` deletes for the link it fills it
with, and for no link with another slug. -/
def Matched (server : Server) (s : Config) (q : Request) : Prop :=
  (q.set.applied = true → ∀ r ∈ s.db.links.rows, r.slug = q.slug → r.deletedAt = none →
    (fromLink (hydrateLink s.db (scanLink r))).isSome →
      q.key server ∈ redirectKeys server s.domains r.tenantId r.slug) ∧
  ∀ r ∈ s.db.links.rows, r.deletedAt = none →
    q.key server ∈ redirectKeys server s.domains r.tenantId r.slug → r.slug = q.slug

/-- A step that leaves no entry behind that the later ones do not clear. -/
def Guarded (server : Server) (s : Config) : Label → Prop
  | .redirect q =>
    acceptedSlug q.slug = true →
      (Passes server s q → Matched server s q) ∧
        ∀ d, domainCheck server s.domains (requestHost server.unicode q.rHost) q.now q.texts =
          .missed d → Noted q.recorded q.lookup
  | .call _ c io after _ =>
    c.targets ≠ [] → (∀ text, io.commit ≠ .failed text true) ∧ after.Healthy
  | .delete _ _ call lookup => Noted call lookup
  | _ => True

/-- The entry is the cached form of a live row that its own invalidation clears. -/
def Current (server : Server) (domains : Domains) (db : Database) (key : Str)
    (cached : CachedRedirect) : Prop :=
  ∃ r ∈ db.links.rows, r.deletedAt = none ∧
    fromLink (hydrateLink db (scanLink r)) = some cached ∧
      key ∈ redirectKeys server domains r.tenantId r.slug

structure Invariant (server : Server) (site : Site) (s : Config) : Prop where
  cache : ∀ key cached, s.cache key = some cached → Current server s.domains s.db key cached
  answers : ∀ a ∈ s.answers, a.Truthful site

/-! The keys. -/

section
variable {server : Server} {site : Site}

theorem mem_invalidated {hosts : List Str} {slug key : Str} :
    key ∈ invalidated server hosts slug ↔ ∃ host ∈ hosts,
      NormalizeHostname server.unicode host ≠ [] ∧
        key = Key server.unicode (NormalizeHostname server.unicode host) slug := by
  unfold invalidated
  constructor
  · intro h
    obtain ⟨x, hx, rfl⟩ := List.mem_map.mp h
    obtain ⟨hx, hne⟩ := List.mem_filter.mp hx
    obtain ⟨host, hhost, rfl⟩ := List.mem_map.mp hx
    exact ⟨host, hhost, of_decide_eq_true hne, rfl⟩
  · rintro ⟨host, hhost, hne, rfl⟩
    apply List.mem_map_of_mem
    exact List.mem_filter.mpr ⟨List.mem_map_of_mem hhost, decide_eq_true hne⟩

theorem mem_aliases {s : Domains} {tenantId : Option ℤ} {host : Str} :
    host ∈ activeDomainAliasesForTenant s tenantId ↔
      ∃ d ∈ s.rows, d.active = true ∧ some d.tenantId = tenantId ∧ d.domain = host := by
  cases tenantId with
  | none => simp [activeDomainAliasesForTenant]
  | some t =>
    simp only [activeDomainAliasesForTenant, List.mem_mergeSort, List.mem_map, List.mem_filter,
      Bool.and_eq_true, decide_eq_true_eq, Option.some.injEq]
    constructor
    · rintro ⟨d, ⟨hd, htenant, hactive⟩, hdomain⟩
      exact ⟨d, hd, hactive, htenant, hdomain⟩
    · rintro ⟨d, hd, hactive, htenant, hdomain⟩
      exact ⟨d, ⟨hd, htenant, hactive⟩, hdomain⟩

theorem mem_linkSlugs {db : Database} {tenantId : ℤ} {r : LinkRow} (hr : r ∈ db.links.rows)
    (hlive : r.deletedAt = none) (htenant : r.tenantId = some tenantId) :
    r.slug ∈ activeLinkSlugsForTenant db tenantId := by
  unfold activeLinkSlugsForTenant
  apply List.mem_map_of_mem
  rw [List.mem_mergeSort]
  exact List.mem_filter.mpr ⟨hr, by simp [hlive, htenant]⟩

/-- The key of a link belongs to the base host or to an active domain of its tenant. -/
theorem mem_redirectKeys {domains : Domains} {tenantId : Option ℤ} {slug key : Str} :
    key ∈ redirectKeys server domains tenantId slug ↔
      key ∈ invalidated server [server.base] slug ∨ ∃ d ∈ domains.rows, d.active = true ∧
        some d.tenantId = tenantId ∧ key ∈ invalidated server [d.domain] slug := by
  unfold redirectKeys redirectHosts
  simp only [mem_invalidated, List.mem_cons, List.not_mem_nil, or_false, exists_eq_left,
    mem_aliases]
  constructor
  · rintro ⟨host, rfl | ⟨d, hd, hactive, htenant, rfl⟩, hkey⟩
    · exact Or.inl hkey
    · exact Or.inr ⟨d, hd, hactive, htenant, hkey⟩
  · rintro (hkey | ⟨d, hd, hactive, htenant, hkey⟩)
    · exact ⟨server.base, Or.inl rfl, hkey⟩
    · exact ⟨d.domain, Or.inr ⟨d, hd, hactive, htenant, rfl⟩, hkey⟩

/-- Active rows stay, and keep tenant and name. -/
def Stays (t : Domains) (d : DomainRow) : Prop :=
  ∃ d' ∈ t.rows, d'.active = true ∧ d'.tenantId = d.tenantId ∧ d'.domain = d.domain

theorem redirectKeys_mono {s t : Domains} {tenantId : Option ℤ} {slug key : Str}
    (h : key ∈ redirectKeys server s tenantId slug)
    (hstays : ∀ d ∈ s.rows, d.active = true → some d.tenantId = tenantId →
      key ∈ invalidated server [d.domain] slug → Stays t d) :
    key ∈ redirectKeys server t tenantId slug := by
  rw [mem_redirectKeys] at h ⊢
  refine h.imp_right ?_
  rintro ⟨d, hd, hactive, htenant, hkey⟩
  obtain ⟨d', hd', hactive', htenant', hdomain'⟩ := hstays d hd hactive htenant hkey
  exact ⟨d', hd', hactive', by rw [htenant', htenant], by rw [hdomain']; exact hkey⟩

theorem Current.domains {s t : Domains} {db : Database} {key : Str} {cached : CachedRedirect}
    (h : Current server s db key cached)
    (hstays : ∀ d ∈ s.rows, d.active = true → Stays t d) : Current server t db key cached := by
  obtain ⟨r, hr, hlive, hcached, hkey⟩ := h
  exact ⟨r, hr, hlive, hcached, redirectKeys_mono hkey fun d hd hactive _ _ => hstays d hd hactive⟩

theorem cache_delete {s : Config} {keys : List Str} {key : Str} {cached : CachedRedirect}
    (h : (s.delete keys).cache key = some cached) : key ∉ keys ∧ s.cache key = some cached := by
  simp only [Config.delete] at h
  split at h
  · cases h
  · rename_i hkey
    exact ⟨fun hmem => hkey (by simpa using hmem), h⟩

theorem Invariant.delete {s : Config} (h : Invariant server site s) (keys : List Str) :
    Invariant server site (s.delete keys) :=
  ⟨fun key cached hcached => h.cache key cached (cache_delete hcached).2, h.answers⟩

theorem Invariant.invalidateDomain {s : Config} (h : Invariant server site s) (d : DomainRow)
    (lookup : Bool) : Invariant server site (s.invalidateDomainRedirects server d lookup) := by
  unfold Config.invalidateDomainRedirects
  split
  · exact h.delete _
  · exact h

/-- Every active domain stays. -/
theorem Invariant.domains {s : Config} (h : Invariant server site s) {domains : Domains}
    (hstays : ∀ d ∈ s.domains.rows, d.active = true → Stays domains d) :
    Invariant server site { s with domains := domains } :=
  ⟨fun key cached hcached => (h.cache key cached hcached).domains hstays, h.answers⟩

/-- A domain goes, and the keys of its tenant's links under it go with it. -/
theorem Invariant.without {s : Config} (h : Invariant server site s) {domains : Domains}
    {d : DomainRow} (hd : d ∈ s.domains.rows)
    (hstays : ∀ d' ∈ s.domains.rows, d'.id ≠ d.id → d'.active = true →
      Stays domains d') :
    Invariant server site
      ({ s with domains := domains }.invalidateDomainRedirects server d true) := by
  refine ⟨fun key cached hcached => ?_, h.answers⟩
  obtain ⟨hkept, hcached⟩ := cache_delete hcached
  obtain ⟨r, hr, hlive, hfrom, hkey⟩ := h.cache key cached hcached
  refine ⟨r, hr, hlive, hfrom, redirectKeys_mono hkey fun d' hd' hactive htenant hmem => ?_⟩
  refine hstays d' hd' (fun hid => hkept ?_) hactive
  obtain rfl := row_unique hd' hd hid
  exact List.mem_flatMap.mpr ⟨r.slug, mem_linkSlugs hr hlive htenant.symm, hmem⟩

/-! Links. -/

theorem Current.untouched {domains : Domains} {db db' : Database} {key : Str}
    {cached : CachedRedirect} {r : LinkRow} (hr : Untouched db db' r) (hlive : r.deletedAt = none)
    (hfrom : fromLink (hydrateLink db (scanLink r)) = some cached)
    (hkey : key ∈ redirectKeys server domains r.tenantId r.slug) :
    Current server domains db' key cached := by
  refine ⟨r, hr.1, hlive, ?_, hkey⟩
  have hgeo : geoTargetsOf db' (scanLink r).id = geoTargetsOf db (scanLink r).id := by
    rw [geoTargetsOf_eq, geoTargetsOf_eq]
    exact congrArg LinkPayload.byCountry hr.2
  rw [hydrateLink, hgeo]
  exact hfrom

/-- What a call must do to the keys of the rows it changes. -/
def Clears (server : Server) (domains : Domains) (before after : Database) (keys : List Str) :
    Prop :=
  ∀ r ∈ before.links.rows, r.deletedAt = none → Untouched before after r ∨
    ∀ key ∈ redirectKeys server domains r.tenantId r.slug, key ∈ keys

theorem Invariant.links {s : Config} (h : Invariant server site s) {db : Database} {keys : List Str}
    (hclears : Clears server s.domains s.db db keys) :
    Invariant server site ({ s with db := db }.delete keys) := by
  refine ⟨fun key cached hcached => ?_, h.answers⟩
  obtain ⟨hkept, hcached⟩ := cache_delete hcached
  obtain ⟨r, hr, hlive, hfrom, hkey⟩ := h.cache key cached hcached
  rcases hclears r hr hlive with huntouched | hdropped
  · exact .untouched huntouched hlive hfrom hkey
  · exact absurd (hdropped key hkey) hkept

theorem Clears.of_same {domains : Domains} {db db' : Database} (h : SameLinks db db')
    (keys : List Str) : Clears server domains db db' keys :=
  fun _ hr _ => Or.inl (.of_same h.1 h.2 hr)

def ids : ReadBack → List ℤ
  | .bySlug _ => []
  | .byID id => [id]
  | .byIDs ids => ids

theorem shown_of_read {io : Script} {db : Database} {u : User} {readBack : ReadBack}
    {links : List Link} (hids : ids readBack ≠ []) (h : readBack.read io db u = .ok links) :
    (∀ link ∈ links, Shown db u link) ∧ links.map Link.id = ids readBack := by
  cases readBack with
  | bySlug slug => exact absurd rfl hids
  | byID id =>
    simp only [ReadBack.read] at h
    cases hread : linkByID io db u id with
    | error e =>
      rw [hread] at h
      cases h
    | ok link =>
      rw [hread] at h
      cases h
      obtain ⟨hshown, hid⟩ := shown_of_linkByID hread
      exact ⟨fun l hl => by rw [List.mem_singleton.mp hl]; exact hshown, by simp [ids, hid]⟩
  | byIDs list => exact shown_of_linksByIDs h

/-- The links a call has read, before it or after it, lead to the keys of the rows it names. -/
theorem clears_of_read {domains : Domains} {u : User} {names : List ℤ} {db db' read : Database}
    {links : List Link} (hwrites : Writes u names db db') (hlineage : Lineage db read)
    (hshown : ∀ link ∈ links, Shown read u link) (hids : links.map Link.id = names) :
    Clears server domains db db'
      (links.flatMap fun link => redirectKeys server domains link.tenantId link.slug) := by
  intro r hr hlive
  by_cases hname : r.id ∈ names
  · right
    intro key hkey
    rw [← hids] at hname
    obtain ⟨link, hlink, hid⟩ := List.mem_map.mp hname
    obtain ⟨r', hr', -, -, heq⟩ := hshown link hlink
    obtain ⟨r'', hr'', hid'', hslug, -, htenant⟩ := hlineage r hr
    have hsame : r' = r'' := by
      apply read.links.eq_of_clash linkClash_symm hr' hr'' (Or.inl _)
      rw [hid'', ← hid, heq]
      rfl
    subst hsame
    refine List.mem_flatMap.mpr ⟨link, hlink, ?_⟩
    rw [heq]
    change key ∈ redirectKeys server domains r'.tenantId r'.slug
    rw [htenant, hslug]
    exact hkey
  · exact Or.inl (hwrites.frame r hr hname)

/-- A transaction whose commit reports what it applied has written nothing when it fails. -/
theorem inTx_reported {io : Script} {before : Database} {body : Except Err Database} {e : Err}
    (hio : ∀ text, io.commit ≠ .failed text true) (h : (inTx io before body).1 = some e) :
    (inTx io before body).2 = before := by
  unfold inTx at h ⊢
  split
  · rfl
  rename_i hbegin
  rw [hbegin] at h
  dsimp only at h
  split at h
  · rfl
  · unfold commitTx at h ⊢
    split
    · rename_i hcommit
      rw [hcommit] at h
      cases h
    · rename_i text applied hcommit
      cases applied with
      | false => rfl
      | true => exact absurd hcommit (hio text)

theorem deleteLink_reported {io : Script} {db : Database} {u : User} {id : ℤ} {e : Err}
    (hio : ∀ text, io.commit ≠ .failed text true)
    (h : (LinkStore.deleteLink io db u id).1 = some e) :
    SameLinks db (LinkStore.deleteLink io db u id).2 := by
  by_cases he : Returned e
  · exact deleteLink_error h he
  unfold LinkStore.deleteLink at h ⊢
  split
  · exact ⟨rfl, rfl⟩
  rename_i scope hscope
  rw [hscope] at h
  dsimp only at h
  split
  · exact ⟨rfl, rfl⟩
  rename_i hexec
  rw [hexec] at h
  dsimp only [commitTx] at h ⊢
  cases hcommit : io.commit with
  | done =>
    rw [hcommit] at h
    dsimp only at h
    split at h
    · cases h
      exact absurd ⟨by simp, by simp⟩ he
    · cases h
  | failed text applied =>
    cases applied with
    | false => exact ⟨rfl, rfl⟩
    | true => exact absurd hcommit (hio text)

theorem write_reported {c : Call} {io : Script} {db : Database} {u : User} {e : Err}
    (hio : ∀ text, io.commit ≠ .failed text true) (h : (c.write io db u).1 = some e) :
    SameLinks db (c.write io db u).2 := by
  by_cases hc : ∃ id, c = .deleteLink id
  · obtain ⟨id, rfl⟩ := hc
    exact deleteLink_reported hio h
  · have hshape := c.shape io db u fun id h => hc ⟨id, h⟩
    generalize c.write io db u = out at h hshape
    cases hshape with
    | refused e => exact ⟨rfl, rfl⟩
    | idle hids => cases h
    | transaction drawn body same writes =>
      rw [inTx_reported hio h]
      exact same

/-- The row of a link is assigned new columns and is live as before. -/
theorem live_of_stores {before after : Database} {link : Link} {password : Option Str} {r : LinkRow}
    (h : Stores before after r.id link password) (hr : r ∈ before.links.rows)
    (hlive : r.deletedAt = none) :
    ∃ r' ∈ after.links.rows, r'.id = r.id ∧ r'.deletedAt = none := by
  obtain ⟨r₀, columns, updatedAt, hr₀, -, hafter⟩ := h.row
  obtain rfl : r = r₀ := Option.some.inj ((link_mem hr).symm.trans hr₀)
  exact ⟨_, (mem_link hafter).1, rfl, hlive⟩

/-- An update leaves its rows live, for a user whose scope could be built. -/
theorem update_live {c : Call} {io : Script} {db : Database} {u : User}
    (hdeletes : deletes c = none) (h : (c.write io db u).1 = none) {r : LinkRow}
    (hr : r ∈ db.links.rows) (hname : r.id ∈ c.targets) (hlive : r.deletedAt = none) :
    Placed u ∧ ∃ r' ∈ (c.write io db u).2.links.rows, r'.id = r.id ∧ r'.deletedAt = none := by
  cases c with
  | createLink random link hash => exact absurd hname List.not_mem_nil
  | createLinksBulk randoms links => exact absurd hname List.not_mem_nil
  | updateLink id link hash changed =>
    simp only [Call.targets, List.mem_singleton] at hname
    subst hname
    simp only [Call.write, updateLinkWrite] at h ⊢
    cases hvalid : validateLink (updateLinkInput link hash changed) with
    | some text =>
      rw [hvalid] at h
      cases h
    | none =>
      rw [hvalid] at h
      dsimp only at h ⊢
      have hbody := inTx_none h
      constructor
      · unfold updateLinkTx at hbody
        split at hbody
        · cases hbody
        · rename_i scope hscope
          exact placed_of_manageScope hscope
      · exact live_of_stores (stores_updateLinkTx hbody) hr hlive
  | updateLinksBulk updates =>
    simp only [Call.write, updateLinksBulkWrite] at h ⊢
    by_cases hnil : updates = []
    · subst hnil
      exact absurd hname List.not_mem_nil
    rw [if_neg hnil] at h ⊢
    cases hvalid : checkUpdates updates with
    | some text =>
      rw [hvalid] at h
      cases h
    | none =>
      rw [hvalid] at h
      dsimp only at h ⊢
      have hbody := inTx_none h
      constructor
      · unfold updateLinksBulkTx at hbody
        split at hbody
        · cases hbody
        · rename_i scope hscope
          exact placed_of_manageScope hscope
      · obtain ⟨update, hupdate, hid⟩ := List.mem_map.mp hname
        have hstores := (stores_updateLinksBulkTx hbody).2 update hupdate
        rw [hid] at hstores
        exact live_of_stores hstores hr hlive
  | deleteLink id => cases hdeletes
  | deleteLinksBulk list => cases hdeletes

theorem read_ok {io : Script} {db : Database} {u : User} {readBack : ReadBack} (hio : io.Healthy)
    (hu : Placed u) (hids : ids readBack ≠ [])
    (hrows : ∀ id ∈ ids readBack, ∃ r ∈ db.links.rows, r.id = id ∧ r.deletedAt = none ∧ View u r) :
    ∃ links, readBack.read io db u = .ok links := by
  cases readBack with
  | bySlug slug => exact absurd rfl hids
  | byID id =>
    obtain ⟨link, hlink⟩ := linkByID_ok_iff.mpr
      ⟨hu, hio.2.1 0, hio.2.1 1, hrows id (List.mem_singleton_self id)⟩
    exact ⟨[link], by simp [ReadBack.read, hlink, Except.map]⟩
  | byIDs list =>
    exact linksByIDs_ok_iff.mpr (Or.inr
      ⟨hu, firstFailure_healthy hio _ _, firstFailure_healthy hio _ _, hrows⟩)

theorem readBack_targets {c : Call} {db : Database} (hdeletes : deletes c = none)
    (htargets : c.targets ≠ []) : ∃ readBack, c.readBack db = some readBack ∧
      ids readBack = c.targets := by
  cases c with
  | createLink random link hash => exact absurd rfl htargets
  | createLinksBulk randoms links => exact absurd rfl htargets
  | updateLink id link hash changed => exact ⟨.byID id, rfl, rfl⟩
  | updateLinksBulk updates => exact ⟨.byIDs (updates.map LinkUpdate.id), rfl, rfl⟩
  | deleteLink id => cases hdeletes
  | deleteLinksBulk list => cases hdeletes

theorem Invariant.same {s : Config} (h : Invariant server site s) {db : Database}
    (hsame : SameLinks s.db db) : Invariant server site { s with db := db } := by
  refine ⟨fun key cached hcached => ?_, h.answers⟩
  obtain ⟨r, hr, hlive, hfrom, hkey⟩ := h.cache key cached hcached
  exact .untouched (.of_same hsame.1 hsame.2 hr) hlive hfrom hkey

theorem invariant_delete {s : Config} (h : Invariant server site s) {u : User} {c : Call}
    {io after before : Script} {readBack : ReadBack} (hdeletes : deletes c = some readBack)
    (hio : ∀ text, io.commit ≠ .failed text true) :
    Invariant server site (s.call server u c io after before) := by
  unfold Config.call
  rw [hdeletes]
  dsimp only
  cases hread : readBack.read before s.db u with
  | error e => exact h
  | ok links =>
    dsimp only
    split
    · rename_i e db hwrite
      have hsame := write_reported hio (congrArg Prod.fst hwrite)
      rw [hwrite] at hsame
      exact h.same hsame
    · rename_i db hwrite
      have hwrites := (c.writes io s.db u).2 (congrArg Prod.fst hwrite)
      rw [hwrite] at hwrites
      apply h.links
      by_cases hnil : c.targets = []
      · intro r hr _
        exact Or.inl (hwrites.frame r hr (by rw [hnil]; exact List.not_mem_nil))
      · have hids : ids readBack = c.targets := by
          cases c <;> cases hdeletes <;> rfl
        obtain ⟨hshown, hnames⟩ := shown_of_read (by rw [hids]; exact hnil) hread
        exact clears_of_read hwrites (.of_links rfl) hshown (hnames.trans hids)

theorem invariant_write {s : Config} (h : Invariant server site s) {u : User} {c : Call}
    {io after before : Script} (hdeletes : deletes c = none)
    (hguard : c.targets ≠ [] → (∀ text, io.commit ≠ .failed text true) ∧ after.Healthy) :
    Invariant server site (s.call server u c io after before) := by
  unfold Config.call
  rw [hdeletes]
  dsimp only
  by_cases hnil : c.targets = []
  · -- a call that names no link changes no row there is
    have hframe : ∀ r ∈ s.db.links.rows, Untouched s.db (c.run io after s.db u).2 r := by
      intro r hr
      rw [run_database]
      rcases (c.writes io s.db u).1 with hsame | hwrites
      · exact .of_same hsame.1 hsame.2 hr
      · exact hwrites.frame r hr (by rw [hnil]; exact List.not_mem_nil)
    split
    · rename_i e db hrun
      rw [hrun] at hframe
      exact @Invariant.links server site s h db [] fun r hr _ => Or.inl (hframe r hr)
    · rename_i links db hrun
      rw [hrun] at hframe
      exact h.links fun r hr _ => Or.inl (hframe r hr)
  obtain ⟨hio, hafter⟩ := hguard hnil
  obtain ⟨readBack, hback, hids⟩ := @readBack_targets c s.db hdeletes hnil
  unfold Call.run
  cases hwrite : c.write io s.db u with
  | mk result db =>
    cases result with
    | some e =>
      have hsame := write_reported hio (congrArg Prod.fst hwrite)
      rw [hwrite] at hsame
      exact h.same hsame
    | none =>
      have hnone := congrArg Prod.fst hwrite
      have hwrites := (c.writes io s.db u).2 hnone
      have hlineage := lineage_call c io s.db u
      have hlive := fun r hr hname hlive => @update_live c io s.db u hdeletes hnone r hr hname hlive
      rw [hwrite] at hwrites hlineage hlive
      have hrows : ∀ id ∈ ids readBack, Placed u ∧ ∃ r ∈ db.links.rows,
          r.id = id ∧ r.deletedAt = none ∧ View u r := by
        intro id hid
        rw [hids] at hid
        obtain ⟨r, hr, rfl, hrlive, hmanage⟩ := hwrites.targets id hid
        obtain ⟨hplaced, r', hr', hid', hlive'⟩ := hlive r hr hid hrlive
        refine ⟨hplaced, r', hr', hid', hlive', manage_view ?_⟩
        obtain ⟨r'', hr'', hsame, -, huser, htenant⟩ := hlineage r hr
        obtain rfl : r' = r'' :=
          db.links.eq_of_clash linkClash_symm hr' hr'' (Or.inl (hid'.trans hsame.symm))
        unfold Manage at hmanage ⊢
        rw [huser, htenant]
        exact hmanage
      obtain ⟨id, hid⟩ := List.exists_mem_of_ne_nil _ (hids ▸ hnil)
      obtain ⟨links, hlinks⟩ := read_ok hafter (hrows id hid).1 (hids ▸ hnil)
        fun id hid => (hrows id hid).2
      dsimp only
      rw [hback]
      dsimp only
      rw [hlinks]
      dsimp only
      obtain ⟨hshown, hnames⟩ := shown_of_read (hids ▸ hnil) hlinks
      exact h.links (clears_of_read hwrites hlineage hshown (hnames.trans hids))

theorem invariant_call {s : Config} (h : Invariant server site s) {u : User} {c : Call}
    {io after before : Script}
    (hguard : c.targets ≠ [] → (∀ text, io.commit ≠ .failed text true) ∧ after.Healthy) :
    Invariant server site (s.call server u c io after before) := by
  cases hdeletes : deletes c with
  | none => exact invariant_write h hdeletes hguard
  | some readBack =>
    by_cases hnil : c.targets = []
    · -- deleting no link at all
      cases c with
      | deleteLinksBulk list =>
        obtain rfl : list = [] := hnil
        cases hdeletes
        exact @Invariant.links server site s h s.db [] fun r hr _ => Or.inl (.of_same rfl rfl hr)
      | _ => cases hdeletes <;> cases hnil
    · exact invariant_delete h hdeletes (hguard hnil).1

/-! Clicks. -/

/-- Nothing of a link changes but its counter. -/
def Counts (before after : Database) : Prop :=
  after.geoTargets = before.geoTargets ∧
    ∀ r ∈ before.links.rows, ∃ clicks, { r with clicks := clicks } ∈ after.links.rows

theorem Counts.of_same {before after : Database} (hlinks : after.links = before.links)
    (hgeo : after.geoTargets = before.geoTargets) : Counts before after :=
  ⟨hgeo, fun r hr => ⟨r.clicks, by rw [hlinks]; exact hr⟩⟩

theorem Counts.trans {a b c : Database} (h : Counts a b) (k : Counts b c) : Counts a c := by
  refine ⟨k.1.trans h.1, fun r hr => ?_⟩
  obtain ⟨n, hn⟩ := h.2 r hr
  obtain ⟨m, hm⟩ := k.2 _ hn
  exact ⟨m, hm⟩

theorem counts_bumpLinks (db : Database) (p : LinkRow → Bool) : Counts db (bumpLinks db p) := by
  refine ⟨rfl, fun r hr => ?_⟩
  have hmem : (if p r then addClick r else r) ∈ (bumpLinks db p).links.rows :=
    List.mem_map_of_mem hr
  split at hmem
  · exact ⟨r.clicks + 1, hmem⟩
  · exact ⟨r.clicks, hmem⟩

theorem counts_insertClick {io : Script} {n : ℕ} {tx tx' : Database} {event : ClickEvent}
    {isNew : Bool} (h : insertClick io n tx event = .ok (isNew, tx')) : Counts tx tx' := by
  unfold insertClick at h
  split at h
  · cases h
  split at h
  · cases h
  split at h
  · cases h
    exact .of_same rfl rfl
  split at h
  · cases h
    exact .of_same rfl rfl
  · cases h

theorem counts_incrementClickRollup {io : Script} {n : ℕ} {tx tx' : Database}
    {event : ClickEvent} (h : incrementClickRollup io n tx event = .ok tx') : Counts tx tx' := by
  unfold incrementClickRollup at h
  split at h
  · cases h
  split at h
  · cases h
  split at h
  · cases h
    exact .of_same rfl rfl
  · cases h

theorem counts_commitTx {io : Script} {before tx : Database} (h : Counts before tx) :
    Counts before (commitTx io before tx).2 := by
  rcases commitTx_state io before tx with heq | heq
  · rw [heq]
    exact h
  · rw [heq]
    exact .of_same rfl rfl

theorem counts_countClick {io : Script} {n affected : ℕ} {tx tx' : Database}
    {p : LinkRow → Bool} {increment : Bool}
    (h : (if increment then countClick io n tx p else .ok (1, tx)) = .ok (affected, tx')) :
    Counts tx tx' := by
  by_cases hinc : increment = true
  · rw [if_pos hinc] at h
    unfold countClick at h
    split at h
    · cases h
    · cases h
      exact counts_bumpLinks tx p
  · rw [if_neg hinc] at h
    cases h
    exact .of_same rfl rfl

theorem counts_recordClick (io : Script) (db : Database) (event : ClickEvent) (increment : Bool)
    (maxClicks : Option ℤ) :
    Counts db (recordClick io db event increment maxClicks).2 := by
  unfold recordClick
  split
  · exact .of_same rfl rfl
  dsimp only
  split
  · exact .of_same rfl rfl
  · rename_i tx hinsert
    exact counts_commitTx (counts_insertClick hinsert)
  · rename_i tx hinsert
    have hfirst := counts_insertClick hinsert
    split
    · exact .of_same rfl rfl
    · rename_i affected tx' hcount
      have hsecond := hfirst.trans (counts_countClick hcount)
      split
      · exact .of_same rfl rfl
      split
      · exact .of_same rfl rfl
      · rename_i tx'' hrollup
        exact counts_commitTx (hsecond.trans (counts_incrementClickRollup hrollup))

theorem counts_recordNext {io : Script} {n : ℕ} {tx tx' : Database} {event : ClickEvent}
    {isNew : Bool} (h : recordNext io n tx event = .ok (isNew, tx')) : Counts tx tx' := by
  unfold recordNext at h
  split at h
  · cases h
  · rename_i hinsert
    cases h
    exact counts_insertClick hinsert
  · rename_i hinsert
    split at h
    · cases h
    · rename_i hcount
      have hsecond := (counts_insertClick hinsert).trans (counts_countClick hcount)
      split at h
      · cases h
      split at h
      · cases h
      · rename_i hrollup
        cases h
        exact hsecond.trans (counts_incrementClickRollup hrollup)

theorem counts_recordBatch {io : Script} {n inserted total : ℕ} {tx tx' : Database}
    {events : List ClickEvent} (h : recordBatch io n inserted tx events = .ok (total, tx')) :
    Counts tx tx' := by
  induction events generalizing n inserted tx with
  | nil =>
    cases h
    exact .of_same rfl rfl
  | cons event events ih =>
    unfold recordBatch at h
    split at h
    · cases h
    · rename_i hnext
      exact (counts_recordNext hnext).trans (ih h)

theorem counts_recordClicks (io : Script) (db : Database) (events : List ClickEvent) :
    Counts db (recordClicks io db events).2 := by
  unfold recordClicks
  split
  · exact .of_same rfl rfl
  split
  · exact .of_same rfl rfl
  split
  · exact .of_same rfl rfl
  · rename_i hbatch
    have hcommit := @counts_commitTx io _ _ (counts_recordBatch hbatch)
    split
    · rename_i hresult
      rw [hresult] at hcommit
      exact hcommit
    · rename_i hresult
      rw [hresult] at hcommit
      exact hcommit

/-- `Recorder.Record` stores the event itself or leaves it to the broker. -/
theorem counts_recorded (site : Site) (q : Request) (visit : Visit) (db : Database)
    (result : Except Err Link) : Counts db (q.recordClick site visit db result).2 := by
  unfold Request.recordClick
  split
  · exact .of_same rfl rfl
  unfold record
  dsimp only
  split
  · exact counts_recordClick _ db _ _ _
  split
  · exact .of_same rfl rfl
  · exact counts_recordClick _ db _ _ _

theorem Invariant.click {s : Config} (h : Invariant server site s) {db : Database}
    (hcounts : Counts s.db db) : Invariant server site { s with db := db } := by
  refine ⟨fun key cached hcached => ?_, h.answers⟩
  obtain ⟨r, hr, hlive, hfrom, hkey⟩ := h.cache key cached hcached
  obtain ⟨clicks, hr'⟩ := hcounts.2 r hr
  refine ⟨_, hr', hlive, ?_, hkey⟩
  have hgeo : geoTargetsOf db (scanLink r).id = geoTargetsOf s.db (scanLink r).id := by
    rw [geoTargetsOf, hcounts.1, geoTargetsOf]
  rw [← hfrom]
  unfold hydrateLink
  rw [← hgeo]
  rfl

/-! Domains. -/

theorem stays_self {t : Domains} {d : DomainRow} (hd : d ∈ t.rows) (hactive : d.active = true) :
    Stays t d := ⟨d, hd, hactive, rfl, rfl⟩

theorem stays_create {s : Domains} {u : User} {tenantId : ℤ} {domain token : Str} {d : DomainRow}
    (hd : d ∈ s.rows) (hactive : d.active = true) :
    Stays (createTenantDomain server.unicode s u tenantId domain token).2 d := by
  refine stays_self ?_ hactive
  unfold createTenantDomain
  dsimp only
  split
  · exact hd
  split
  · exact hd
  split
  · exact hd
  split
  · split
    · split
      · rename_i table hinsert
        rw [Domains.rows, (Table.insert_eq_some.mp hinsert).2]
        exact List.mem_append_left _ hd
      · exact hd
    · exact hd
  · exact hd

theorem stays_setVerified {s : Domains} {id : ℤ} {verified : Bool} {now : Time} {d : DomainRow}
    (hd : d ∈ s.rows) (hactive : d.active = true) (hkeep : verified = true ∨ d.id ≠ id) :
    Stays (setTenantDomainVerified s id verified now) d := by
  refine ⟨if d.id = id then TenantDomains.setVerified verified now d else d, ?_, ?_⟩
  · rw [rows_setTenantDomainVerified]
    exact List.mem_map_of_mem hd
  · split
    · rename_i hid
      rcases hkeep with rfl | hne
      · exact ⟨rfl, rfl, rfl⟩
      · exact absurd hid hne
    · exact ⟨hactive, rfl, rfl⟩

theorem stays_update {s : Domains} {u : User} {id : ℤ} {url : Str} {d : DomainRow}
    (hd : d ∈ s.rows) (hactive : d.active = true) : Stays (updateTenantDomain s u id url) d := by
  unfold updateTenantDomain
  split
  · split
    · exact stays_self hd hactive
    · rename_i scope url' _ _ _
      refine ⟨if (d.id = id && scope d) then setNotFound url' d else d, ?_, ?_⟩
      · exact List.mem_map_of_mem hd
      · split <;> exact ⟨hactive, rfl, rfl⟩
  · exact stays_self hd hactive

theorem stays_delete {s : Domains} {u : User} {id : ℤ} {d : DomainRow} (hd : d ∈ s.rows)
    (hactive : d.active = true) (hne : d.id ≠ id) : Stays (deleteTenantDomain s u id) d := by
  unfold deleteTenantDomain
  split
  · exact stays_self hd hactive
  · exact stays_self (List.mem_filter.mpr ⟨hd, by simp [hne]⟩) hactive

theorem mem_of_tenantDomainByID {s : Domains} {u : User} {id : ℤ} {d : DomainRow}
    (h : tenantDomainByID s u id = some d) : d ∈ s.rows ∧ d.id = id := by
  obtain ⟨scope, -, hfind⟩ := Option.bind_eq_some_iff.mp h
  obtain ⟨hd, hp⟩ := find_row hfind
  simp only [Bool.and_eq_true, decide_eq_true_eq] at hp
  exact ⟨hd, hp.1⟩

theorem Invariant.setVerified {s : Config} (h : Invariant server site s) (d : DomainRow)
    (now : Time)
    (call : CacheCall) : Invariant server site (s.setVerified d true now call) := by
  unfold Config.setVerified
  split
  · exact h.domains fun d' hd' hactive => stays_setVerified hd' hactive (Or.inl rfl)
  · exact h

/-- A domain goes, or nothing happens, and what happens is noted. -/
theorem Invariant.noted {s : Config} (h : Invariant server site s) {domains : Domains}
    {d : DomainRow}
    {call : CacheCall} {lookup : Bool} (hd : d ∈ s.domains.rows)
    (hstays : ∀ d' ∈ s.domains.rows, d'.id ≠ d.id → d'.active = true →
      Stays domains d') (hnoted : Noted call lookup) :
    let s' := if call.applied then { s with domains := domains } else s
    Invariant server site
      (if call.ok then s'.invalidateDomainRedirects server d lookup else s') := by
  intro s'
  by_cases happlied : call.applied = true
  · obtain ⟨hok, hlookup⟩ := hnoted happlied
    simp only [s', happlied, hok, hlookup, if_true]
    exact h.without hd hstays
  · simp only [s', happlied]
    split
    · exact h.invalidateDomain d lookup
    · exact h

/-! Redirects. -/

theorem Invariant.answer {s : Config} (h : Invariant server site s) {q : Request}
    {domain : Option DomainRow} {result : Except Err Link}
    (hresult : Serves q.slug s.db result ∨ Failed result) :
    Invariant server site (s.answer site q domain result) := by
  have hclick := h.click (counts_recorded site q { q.visit with domain := domain } s.db result)
  refine ⟨hclick.cache, fun a ha => ?_⟩
  rcases List.mem_append.mp ha with ha | ha
  · exact h.answers a ha
  obtain rfl := List.mem_singleton.mp ha
  refine ⟨hresult, fun hretired => ?_⟩
  rintro ⟨link, target, code, rfl, -⟩
  rcases hresult with hserves | ⟨text, htext⟩
  · cases CacheCoherence.serves_retired hretired hserves
  · cases htext

theorem Invariant.put {s : Config} (h : Invariant server site s) {key : Str}
    {entry : Option CachedRedirect}
    (hentry : ∀ cached, entry = some cached → Current server s.domains s.db key cached) :
    Invariant server site { s with cache := Function.update s.cache key entry } := by
  refine ⟨fun key' cached hcached => ?_, h.answers⟩
  dsimp only at hcached ⊢
  by_cases hkey : key' = key
  · subst hkey
    rw [Function.update_self] at hcached
    exact hentry cached hcached
  · rw [Function.update_of_ne hkey] at hcached
    exact h.cache key' cached hcached

/-- The one live row with a slug. -/
theorem linkBySlug_of_row {db : Database} {r : LinkRow} (hr : r ∈ db.links.rows)
    (hlive : r.deletedAt = none) :
    linkBySlug {} db r.slug = .ok (hydrateLink db (scanLink r)) := by
  obtain ⟨link, hlink⟩ : ∃ link, linkBySlug {} db r.slug = .ok link :=
    readLink_ok_iff.mpr ⟨rfl, ⟨r, hr, by simp [hlive]⟩, rfl⟩
  obtain ⟨r', hr', hp, rfl⟩ := readLink_ok hlink
  simp only [Bool.and_eq_true, decide_eq_true_eq] at hp
  obtain rfl := db.links.eq_of_clash linkClash_symm hr' hr (Or.inr hp.1)
  exact hlink

theorem Invariant.resolve {s : Config} (h : Invariant server site s) {q : Request}
    {domain : Option DomainRow} (hmatched : Matched server s q) :
    Invariant server site
      (s.resolve server site q (requestHost server.unicode q.rHost) domain) := by
  unfold Config.resolve
  dsimp only
  split
  · rename_i link hhit
    apply h.answer
    obtain ⟨cached, hcached, hlink⟩ := Option.bind_eq_some_iff.mp hhit
    have hcache : s.cache (q.key server) = some cached := by
      cases hget : q.get with
      | false =>
        rw [hget] at hcached
        cases hcached
      | true =>
        rw [hget] at hcached
        exact hcached
    obtain ⟨r, hr, hlive, hfrom, hkey⟩ := h.cache _ cached hcache
    have hslug : r.slug = q.slug := hmatched.2 r hr hlive hkey
    refine Or.inl (Or.inr ⟨cached, link, ⟨_, ?_, hfrom⟩, hlink, rfl⟩)
    rw [← hslug]
    exact linkBySlug_of_row hr hlive
  have hserves : ∀ result, linkBySlug q.io s.db q.slug = result →
      Serves q.slug s.db result ∨ Failed result := by
    rintro result rfl
    exact (CacheCoherence.linkBySlug_cases q.io s.db q.slug).imp Or.inl id
  split
  · rename_i e hload
    exact h.answer (hserves _ hload)
  rename_i link hload
  have hresult := hserves _ hload
  split
  · exact h.answer hresult
  rename_i cached hfrom
  split
  · rename_i happlied
    refine Invariant.answer (h.put ?_) hresult
    rintro cached' ⟨⟩
    obtain ⟨r, hr, hp, rfl⟩ := readLink_ok hload
    simp only [Bool.and_eq_true, decide_eq_true_eq, Option.isNone_iff_eq_none] at hp
    exact ⟨r, hr, hp.2, hfrom, hmatched.1 happlied r hr hp.1 hp.2 (by rw [hfrom]; rfl)⟩
  · exact h.answer hresult

/-- A check that looks for the token found an active domain. -/
theorem active_of_domainCheck {domains : Domains} {host : Str} {now : Time} {texts : List Str}
    {d : DomainRow} (h : domainCheck server domains host now texts = .found d ∨
      domainCheck server domains host now texts = .missed d) :
    d ∈ domains.rows ∧ d.active = true := by
  have hcases : domainCheck server domains host now texts = .base ∨
      domainCheck server domains host now texts = .refused ∨
      ∃ d' ∈ domains.rows, d'.active = true ∧
        (domainCheck server domains host now texts = .fresh d' ∨
          domainCheck server domains host now texts = .found d' ∨
          domainCheck server domains host now texts = .missed d') := by
    unfold domainCheck
    split
    · exact Or.inl rfl
    split
    · exact Or.inr (Or.inl rfl)
    rename_i d' hfind
    by_cases hactive : d'.active = true
    · refine Or.inr (Or.inr ⟨d', (find_row hfind).1, hactive, ?_⟩)
      simp only [hactive, Bool.not_true, Bool.false_eq_true, if_false]
      split
      · exact Or.inl rfl
      split
      · exact Or.inr (Or.inl rfl)
      · exact Or.inr (Or.inr rfl)
    · refine Or.inr (Or.inl ?_)
      simp [hactive]
  rcases hcases with heq | heq | ⟨d', hd', hactive, heq⟩
  · rw [heq] at h
    rcases h with h | h <;> cases h
  · rw [heq] at h
    rcases h with h | h <;> cases h
  · rcases heq with heq | heq | heq <;> rw [heq] at h <;> rcases h with h | h <;> cases h <;>
      exact ⟨hd', hactive⟩

/-- Verifying a domain that is active adds no keys. -/
theorem Matched.setVerified {s : Config} {q : Request} (h : Matched server s q) {d : DomainRow}
    (hd : d ∈ s.domains.rows) (hactive : d.active = true) (now : Time) (call : CacheCall) :
    Matched server (s.setVerified d true now call) q := by
  unfold Config.setVerified
  split
  · have hforth := fun d' hd' hactive' => @stays_setVerified s.domains d.id true now d' hd' hactive'
      (Or.inl rfl)
    have hback : ∀ d' ∈ (setTenantDomainVerified s.domains d.id true now).rows,
        d'.active = true → Stays s.domains d' := by
      intro d' hd' hactive'
      rw [rows_setTenantDomainVerified] at hd'
      obtain ⟨d₀, hd₀, rfl⟩ := List.mem_map.mp hd'
      by_cases hid : d₀.id = d.id
      · obtain rfl := row_unique hd₀ hd hid
        rw [if_pos rfl]
        exact ⟨d₀, hd, hactive, rfl, rfl⟩
      · rw [if_neg hid] at hactive' ⊢
        exact stays_self hd₀ hactive'
    refine ⟨fun happlied r hr hslug hlive hcacheable => ?_, fun r hr hlive hkey => ?_⟩
    · exact redirectKeys_mono (h.1 happlied r hr hslug hlive hcacheable)
        fun d' hd' hactive' _ _ => hforth d' hd' hactive'
    · exact h.2 r hr hlive (redirectKeys_mono hkey fun d' hd' hactive' _ _ => hback d' hd' hactive')
  · exact h

theorem invariant_redirect {s : Config} (h : Invariant server site s) {q : Request}
    (hguard : Guarded server s (.redirect q)) :
    Invariant server site (s.redirectSlug server site q) := by
  unfold Config.redirectSlug
  by_cases hslug : acceptedSlug q.slug = true
  · obtain ⟨hpasses, hmissed⟩ := hguard hslug
    unfold Passes at hpasses
    simp only [hslug, Bool.not_true, Bool.false_eq_true, if_false]
    cases hcheck : domainCheck server s.domains (requestHost server.unicode q.rHost) q.now
        q.texts with
    | base =>
      rw [hcheck] at hpasses
      exact h.resolve (hpasses trivial)
    | refused => exact h
    | fresh d =>
      rw [hcheck] at hpasses
      exact h.resolve (hpasses trivial)
    | found d =>
      rw [hcheck] at hpasses
      obtain ⟨hd, hactive⟩ := active_of_domainCheck (Or.inl hcheck)
      dsimp only
      by_cases hok : q.recorded.ok = true
      · rw [if_pos hok]
        exact (h.setVerified d q.now q.recorded).resolve ((hpasses hok).setVerified hd hactive _ _)
      · rw [if_neg hok]
        exact h.setVerified d q.now q.recorded
    | missed d =>
      obtain ⟨hd, -⟩ := active_of_domainCheck (Or.inr hcheck)
      exact h.noted hd (fun d' hd' hne hactive => stays_setVerified hd' hactive (Or.inr hne))
        (hmissed d hcheck)
  · simp only [hslug]
    exact h

/-! Runs. -/

theorem invariant_step {s t : Config} {l : Label} (h : Invariant server site s)
    (hguard : Guarded server s l) (hstep : next server site s l = some t) :
    Invariant server site t := by
  cases l with
  | redirect q =>
    simp only [next] at hstep
    split at hstep
    · cases hstep
      exact invariant_redirect h hguard
    · cases hstep
  | call u c io after before =>
    rw [← Option.some.inj hstep]
    exact invariant_call h hguard
  | recordClicks io events =>
    rw [← Option.some.inj hstep]
    exact h.click (counts_recordClicks io s.db events)
  | create u tenantId domain token =>
    rw [← Option.some.inj hstep]
    exact h.domains fun d hd hactive => stays_create hd hactive
  | verify u id texts now call lookup =>
    simp only [next] at hstep
    split at hstep
    · cases hstep
      exact h
    split at hstep
    · cases hstep
    split at hstep
    · cases hstep
      split
      · exact (h.setVerified _ now call).invalidateDomain _ lookup
      · exact h.setVerified _ now call
    · cases hstep
      exact h
  | update u id url call lookup =>
    simp only [next] at hstep
    split at hstep
    · cases hstep
      exact h
    split at hstep
    · cases hstep
    · cases hstep
      have hdomains : Invariant server site (if call.applied then
          { s with domains := updateTenantDomain s.domains u id (trimSpace url) } else s) := by
        split
        · exact h.domains fun d hd hactive => stays_update hd hactive
        · exact h
      split
      · exact hdomains.invalidateDomain _ lookup
      · exact hdomains
  | delete u id call lookup =>
    simp only [next] at hstep
    split at hstep
    · cases hstep
      exact h
    rename_i d hd
    obtain ⟨hmem, hid⟩ := mem_of_tenantDomainByID hd
    split at hstep
    · cases hstep
    · cases hstep
      exact h.noted hmem (fun d' hd' hne hactive => stays_delete hd' hactive (hid ▸ hne)) hguard
  | evict key =>
    rw [← Option.some.inj hstep]
    exact h.put fun cached hcached => by cases hcached

/-- In a run whose requests fill only keys that their link's invalidation clears, every redirect
is computed from the committed row and no deleted link is redirected. -/
theorem redirects_follow_rows {s : Config} (hcache : ∀ key, s.cache key = none)
    (hanswers : s.answers = []) {es : List Label} {t : Config}
    (hrun : Execution (next server site) s es t)
    (hguard : ∀ xs l ys u, es = xs ++ l :: ys → Execution (next server site) s xs u →
      Guarded server u l) : ∀ a ∈ t.answers, a.Truthful site := by
  have hstart : Invariant server site s := by
    refine ⟨fun key cached hcached => ?_, fun a ha => ?_⟩
    · rw [hcache key] at hcached
      cases hcached
    · rw [hanswers] at ha
      exact absurd ha List.not_mem_nil
  exact (hrun.invariant_of hstart (fun u l v hu hl hstep => invariant_step hu hl hstep)
    hguard).answers

end

/-! A link is visited, deleted and visited again, with the queue on. -/

def deployed : Server := ⟨ascii, lit "https://s.example"⟩

def site : Site := RedirectAccounts.site

def fresh : Config := ⟨⟨.empty, 1, []⟩, Database.empty, fun _ => none, []⟩

def owner : User := ⟨1, some 1, .customer⟩

def creation : Label :=
  .call owner (.createLink [] { slug := lit "docs2", targetUrl := lit "https://example.com/" } [])
    {} {} {}

/-- A visit to `/s/docs2`. Its event, with an id that begins with the byte, is published. -/
def visit (rHost : Str) (b : UInt8) : Request where
  visit := { RedirectAccounts.visit b with
    request := { (RedirectAccounts.visit b).request with host := rHost } }
  slug := lit "docs2"
  now := ⟨0⟩
  texts := []
  recorded := ⟨true, true⟩
  lookup := true
  get := true
  io := {}
  set := ⟨true, true⟩
  published := some true
  click := {}

def steps (rHost : Str) : List Label :=
  [creation, .redirect (visit rHost 1), .call owner (.deleteLink 1) {} {} {},
    .redirect (visit rHost 2)]

/-- Whether the slug's link was deleted, and the reply. -/
def seen (a : Answer) : Bool × RedirectEvents.Reply :=
  (a.db.links.rows.any fun r => r.slug = a.slug && r.deletedAt.isSome, a.reply site)

/-- A request without a domain whose key belongs to the only link. -/
def plain (s : Config) : Label → Bool
  | .redirect q => requestHost ascii q.rHost = deployed.base &&
      s.db.links.rows.all fun r => r.slug = q.slug &&
        (redirectKeys deployed s.domains r.tenantId r.slug).contains (q.key deployed)
  | _ => true

/-- On the base host the second visit finds nothing. -/
theorem redirects_follow_rows_base : ∃ t,
    Execution (next deployed site) fresh (steps (lit "S.Example:443")) t ∧
      t.answers.map seen =
        [(false, .redirect (lit "https://example.com/") 302), (true, .notFound)] ∧
      ∀ a ∈ t.answers, a.Truthful site := by
  have hrun : (replay (next deployed site) fresh (steps (lit "S.Example:443"))).map (fun t =>
      t.answers.map seen) =
        some [(false, .redirect (lit "https://example.com/") 302), (true, .notFound)] := by
    decide +kernel
  have hchecks : checks (next deployed site) plain fresh (steps (lit "S.Example:443")) = true := by
    decide +kernel
  obtain ⟨t, ht, hreplies⟩ := Option.map_eq_some_iff.mp hrun
  refine ⟨t, execution_of_replay ht, hreplies,
    redirects_follow_rows (fun _ => rfl) rfl (execution_of_replay ht) ?_⟩
  intro xs l ys u heq hu
  rw [heq] at hchecks
  have hplain := checked_label hchecks hu
  cases l with
  | redirect q =>
    simp only [plain, Bool.and_eq_true, decide_eq_true_eq, List.all_eq_true,
      List.contains_iff_mem] at hplain
    obtain ⟨hbase, hrows⟩ := hplain
    have hcheck : domainCheck deployed u.domains (requestHost deployed.unicode q.rHost) q.now
        q.texts = .base :=
      if_pos (Bool.or_eq_true_iff.mpr (Or.inr (decide_eq_true hbase)))
    refine fun _ => ⟨fun _ => ⟨fun _ r hr _ _ _ => (hrows r hr).2, fun r hr _ _ => (hrows r hr).1⟩,
      fun d hd => ?_⟩
    rw [hcheck] at hd
    cases hd
  | call v c io after before =>
    have hmem : Label.call v c io after before ∈ steps (lit "S.Example:443") := by
      rw [heq]
      simp
    simp only [steps, creation, List.mem_cons, reduceCtorEq, false_or, or_false,
      List.not_mem_nil] at hmem
    rcases hmem with hmem | hmem <;> cases hmem
    · exact fun hne => absurd rfl hne
    · exact fun _ => ⟨fun text hcommit => by simp at hcommit, ⟨rfl, fun _ => rfl, rfl, rfl⟩⟩
  | delete v id call lookup =>
    have hmem : Label.delete v id call lookup ∈ steps (lit "S.Example:443") := by
      rw [heq]
      simp
    simp [steps, creation] at hmem
  | _ => trivial

/-- A request without a host fills a key that no invalidation deletes. -/
theorem deleted_link_redirected : ∃ t, Execution (next deployed site) fresh (steps []) t ∧
    ∃ a ∈ t.answers, Retired a.slug a.db ∧
      a.reply site = .redirect (lit "https://example.com/") 302 ∧ ¬ a.Truthful site := by
  have hrun : (replay (next deployed site) fresh (steps [])).map (fun t =>
      t.answers.map fun a => (seen a, a.result.isOk)) =
        some [((false, .redirect (lit "https://example.com/") 302), true),
          ((true, .redirect (lit "https://example.com/") 302), true)] := by
    decide +kernel
  obtain ⟨t, ht, hpairs⟩ := Option.map_eq_some_iff.mp hrun
  obtain ⟨a, ha, hpair⟩ : ∃ a ∈ t.answers, (seen a, a.result.isOk) =
      ((true, .redirect (lit "https://example.com/") 302), true) := by
    apply List.mem_map.mp
    rw [hpairs]
    simp
  obtain ⟨hseen, hok⟩ := Prod.mk.inj hpair
  obtain ⟨hretired, hreply⟩ := Prod.mk.inj hseen
  have hslug : Retired a.slug a.db := by
    obtain ⟨r, hr, hp⟩ := List.any_eq_true.mp hretired
    simp only [Bool.and_eq_true, decide_eq_true_eq] at hp
    exact ⟨r, hr, hp.1, hp.2⟩
  obtain ⟨link, hlink⟩ : ∃ link, a.result = .ok link := by
    cases hresult : a.result with
    | ok link => exact ⟨link, rfl⟩
    | error e =>
      rw [hresult] at hok
      cases hok
  exact ⟨t, execution_of_replay ht, a, ha, hslug, hreply,
    fun htruthful => htruthful.2 hslug ⟨link, _, _, hlink, hreply⟩⟩

end CacheHistories
