import ShortQ.Models
import ShortQ.Transaction

/-! # The redirect cache

`CachedRedirect` and the steps of `Resolver.Resolve` on one key. The observer's counters
are left out. -/
namespace RedirectCache

open GoText (Str)
open GoTime (Time)
open Models
open Transaction (Err)

def SchemaVersion : ℤ := 1

structure CachedRedirect where
  version : ℤ
  id : ℤ
  tenantId : Option ℤ
  slug : Str
  targetUrl : Str
  redirectCode : ℤ
  expiresAt : Option Time
  expiredUrl : Str
  iosUrl : Str
  androidUrl : Str
  forwardQuery : Bool
  utmSource : Str
  utmMedium : Str
  utmCampaign : Str
  utmTerm : Str
  utmContent : Str
  geoTargets : List GeoTarget
  deriving DecidableEq, Repr

/-- None when the link may not be cached. -/
def fromLink (link : Link) : Option CachedRedirect :=
  if link.passwordProtected || link.passwordHash.length ≠ 0 || link.maxClicks.isSome then none
  else some ⟨SchemaVersion, link.id, link.tenantId, link.slug, link.targetUrl, link.redirectCode,
    link.expiresAt, link.expiredUrl, link.iosUrl, link.androidUrl, link.forwardQuery,
    link.utmSource, link.utmMedium, link.utmCampaign, link.utmTerm, link.utmContent,
    link.geoTargets⟩

/-- None for an entry of another schema version. -/
def CachedRedirect.link (cached : CachedRedirect) : Option Link :=
  if cached.version ≠ SchemaVersion then none
  else some
    { id := cached.id, tenantId := cached.tenantId, slug := cached.slug,
      targetUrl := cached.targetUrl, redirectCode := cached.redirectCode,
      expiresAt := cached.expiresAt, expiredUrl := cached.expiredUrl, iosUrl := cached.iosUrl,
      androidUrl := cached.androidUrl, forwardQuery := cached.forwardQuery,
      utmSource := cached.utmSource, utmMedium := cached.utmMedium,
      utmCampaign := cached.utmCampaign, utmTerm := cached.utmTerm,
      utmContent := cached.utmContent, geoTargets := cached.geoTargets }

/-- What is left to do of a `Resolve` call. -/
inductive Resolve where
  | get
  | load
  | set (link : Link) (cached : CachedRedirect)
  | done (result : Except Err Link)

/-- After `Cache.Get`: none is a failed call, `some none` a miss. -/
def Resolve.afterGet : Option (Option CachedRedirect) → Resolve
  | some (some cached) =>
    match cached.link with
    | some link => .done (.ok link)
    | none => .load
  | _ => .load

def Resolve.afterLoad : Except Err Link → Resolve
  | .error e => .done (.error e)
  | .ok link =>
    match fromLink link with
    | none => .done (.ok link)
    | some cached => .set link cached

/-- A cache call that fails may still have reached the server. -/
structure CacheCall where
  ok : Bool
  applied : Bool
  deriving DecidableEq, Repr

/-- An answer of nil means the call was applied. -/
def CacheCall.possible (call : CacheCall) : Bool := !call.ok || call.applied

/-- A cache hit carries the cached settings, and they are cached in the same form again. -/
theorem fromLink_link {cached : CachedRedirect} {link : Link} (h : cached.link = some link) :
    fromLink link = some cached := by
  unfold CachedRedirect.link at h
  split at h
  · cases h
  · rename_i hversion
    have hv : cached.version = SchemaVersion := not_ne_iff.mp hversion
    cases h
    cases cached
    simp only at hv
    simp [fromLink, hv]

theorem link_of_fromLink {cached : CachedRedirect} {link : Link} (h : fromLink link = some cached) :
    ∃ l, cached.link = some l := by
  unfold fromLink at h
  split at h
  · cases h
  · cases h
    exact ⟨_, rfl⟩

/-- A link with a click limit never reaches the cache. -/
theorem afterLoad_of_maxClicks {link : Link} {m : ℤ} (h : link.maxClicks = some m) :
    Resolve.afterLoad (.ok link) = .done (.ok link) := by
  simp [Resolve.afterLoad, fromLink, h]

end RedirectCache
