import ShortQ.HttpRequest
import ShortQ.RedirectHandler
import ShortQ.RedirectTargets
import ShortQ.SignedTokens
import ShortQ.TenantDomains
import Mathlib.Data.List.Infix
import Mathlib.Logic.Function.Basic

/-! # Redirects and their events

`redirectSlug` behind the domain check, with the event it hands to `recordClick`. -/
namespace RedirectEvents

open GoText
open GoTime (Time)
open GoUrl
open Hosts
open HttpRequest
open Models
open RedirectHandler (linkExpired)
open RedirectTargets
open TenantDomains (DomainRow)
open Transaction (Err)
open UrlQuery

/-! ## Reading the request -/

/-- The tables of package unicode beyond ASCII. `fold` is the least rune of a folding orbit. -/
structure Letters extends Unicode where
  upper : ℕ → Str
  fold : ℕ → ℕ
  /-- The upper case of a rune is a rune, and not NUL. -/
  single : ∀ v, ∃ r : Rune, Runes.Whole r ∧ r.bytes = upper v ∧ 0 ∉ upper v

/-- `strings.ToUpper`. -/
def Letters.toUpper (letters : Letters) (s : Str) : Str :=
  (runes s).flatMap fun r =>
    match r.value with
    | none => [0xEF, 0xBF, 0xBD]
    | some v => if v < 0x80 then upperRune r else letters.upper v

/-- `strings.EqualFold`. A byte of an invalid encoding counts as U+FFFD. -/
def Letters.EqualFold (letters : Letters) (s t : Str) : Bool :=
  let folded (text : Str) := (runes text).map fun r => letters.fold (r.value.getD 0xFFFD)
  folded s = folded t

def contains (s sub : Str) : Bool := decide (sub <:+: s)

def countryFromRequest (letters : Letters) (r : Request) : Str :=
  let country := letters.toUpper (trimSpace r.ipCountry)
  if country.length = 2 then country else []

/-- The destination and the name of its route. -/
def resolveTarget (letters : Letters) (l : Link) (country userAgent : Str) : Str × Str :=
  match l.geoTargets.find? fun geo => letters.EqualFold geo.countryCode country with
  | some geo => (geo.targetUrl, lit "country")
  | none =>
    let ua := letters.toLower userAgent
    if (contains ua (lit "iphone") || contains ua (lit "ipad") || contains ua (lit "ipod")) &&
        l.iosUrl ≠ [] then (l.iosUrl, lit "ios")
    else if contains ua (lit "android") && l.androidUrl ≠ [] then (l.androidUrl, lit "android")
    else (l.targetUrl, lit "default")

structure Traits where
  browser : Str
  os : Str
  device : Str
  bot : Bool
  deriving DecidableEq, Repr

def clientTraits (letters : Letters) (ua : Str) : Traits :=
  let lower := letters.toLower ua
  let has (word : String) := contains lower (lit word)
  let bot := has "bot" || has "crawler" || has "spider" || has "slurp"
  { browser :=
      if has "edg/" then lit "Edge"
      else if has "chrome/" || has "crios/" then lit "Chrome"
      else if has "firefox/" then lit "Firefox"
      else if has "safari/" then lit "Safari"
      else lit "Other"
    os :=
      if has "android" then lit "Android"
      else if has "iphone" || has "ipad" then lit "iOS"
      else if has "windows" then lit "Windows"
      else if has "mac os" then lit "macOS"
      else if has "linux" then lit "Linux"
      else lit "Other"
    device :=
      if bot then lit "bot"
      else if has "ipad" || has "tablet" then lit "tablet"
      else if has "mobile" || has "iphone" || has "android" then lit "mobile"
      else lit "desktop"
    bot := bot }

/-- `URL.Hostname`: the host without its port and its brackets. -/
def Hostname (u : URL) : Str :=
  let host :=
    match cutLast 58 u.host with
    | some (host, port) => if validOptionalPort (58 :: port) then host else u.host
    | none => u.host
  if host.head? = some 91 && host.getLast? = some 93 then host.tail.dropLast else host

def analyticsResolvedURL (raw : Str) : Str :=
  match Parse raw with
  | none => []
  | some destination =>
    { destination with
      rawQuery := []
      fragment := []
      user := none }.String

def hexBytes (bytes : List UInt8) : Str :=
  bytes.flatMap fun b => [JsonText.hexDigit (b.toNat / 16), JsonText.hexDigit (b.toNat % 16)]

/-- `newEventID` of the random bytes. -/
def newEventID (value : Fin 16 → UInt8) : Str :=
  let value := Function.update value 6 (value 6 &&& 0x0f ||| 0x40)
  let value := Function.update value 8 (value 8 &&& 0x3f ||| 0x80)
  hexBytes [value 0, value 1, value 2, value 3] ++ [45] ++ hexBytes [value 4, value 5] ++ [45] ++
    hexBytes [value 6, value 7] ++ [45] ++ hexBytes [value 8, value 9] ++ [45] ++
    hexBytes [value 10, value 11, value 12, value 13, value 14, value 15]

/-! ## The handler -/

/-- The secret of the access tokens, and what the handler calls of the standard library. `limit`
is the cap on the number of query parameters. -/
structure Site where
  letters : Letters
  limit : Option ℕ
  mac : Str → Str

/-- What a visit brings: the request with its cookies, the domain it came in on, the readings of
the clock and the random bytes of the event id. -/
structure Visit where
  request : Request
  cookie : Str → Option Str
  domain : Option DomainRow
  accessAt : Time
  expiryAt : Time
  occurredAt : Time
  value : Fin 16 → UInt8

def redirectEvent (site : Site) (v : Visit) (l : Link) (target route : Str) (status : ℤ) :
    ClickEvent :=
  let r := v.request
  let traits := clientTraits site.letters r.userAgent
  let values := (Parse target).elim ∅ fun u => (ParseQuery site.limit u.rawQuery).1
  { eventId := newEventID v.value, linkId := l.id, slug := l.slug, ip := visitorIP r,
    countryCode := countryFromRequest site.letters r, method := r.method, statusCode := status,
    resolvedUrl := analyticsResolvedURL target, routeType := route, userAgent := r.userAgent,
    browser := traits.browser, os := traits.os, device := traits.device, isBot := traits.bot,
    referrer := r.referer, referrerHost := (Parse r.referer).elim [] Hostname,
    utmSource := Values.Get values (lit "utm_source"),
    utmMedium := Values.Get values (lit "utm_medium"),
    utmCampaign := Values.Get values (lit "utm_campaign"), occurredAt := v.occurredAt }

inductive Reply where
  | notFound
  | passwordGate (link : Link)
  /-- 410 with the page of the handler. -/
  | expiredPage
  /-- 500, redirect tracking failed. -/
  | trackingFailed
  | redirect (location : Str) (code : ℤ)
  deriving DecidableEq, Repr

def expiredResponse (l : Link) : Reply :=
  if l.expiredUrl ≠ [] then .redirect l.expiredUrl 302 else .expiredPage

/-- The reply, or the call of `recordClick` with the reply that its result leads to. -/
inductive Handled where
  | replied (reply : Reply)
  | recording (event : ClickEvent) (increment : Bool) (maxClicks : Option ℤ)
      (reply : Bool → Option Err → Reply)

def hasLinkAccess (site : Site) (v : Visit) (linkId : ℤ) : Bool :=
  match v.cookie (lit "sq_access_" ++ lit (toString linkId)) with
  | none => false
  | some token =>
    SignedTokens.CheckLinkAccess site.mac (SignedTokens.Unix v.accessAt) token (Int64.ofInt linkId)

/-- Where a live link leads, with the name of the route. The map of UTM values is visited in the
order it is written in: `mergeTargetQuery_perm`. -/
def destination (site : Site) (v : Visit) (l : Link) : Str × Str :=
  let country := countryFromRequest site.letters v.request
  let (target, route) := resolveTarget site.letters l country v.request.userAgent
  (mergeTargetQuery site.limit (utmValues l) target l
    (ParseQuery site.limit v.request.rawQuery).1, route)

/-- From the link that was resolved to the recording. -/
def redirectSlug (site : Site) (v : Visit) : Except Err Link → Handled
  | .error _ =>
    match v.domain with
    | some d => .replied (if d.notFoundUrl ≠ [] then .redirect d.notFoundUrl 302 else .notFound)
    | none => .replied .notFound
  | .ok l =>
    if v.domain.any fun d => l.tenantId ≠ some d.tenantId then .replied .notFound
    else if l.passwordProtected && !hasLinkAccess site v l.id then .replied (.passwordGate l)
    else if linkExpired v.expiryAt l then
      .recording (redirectEvent site v l l.expiredUrl (lit "expired") 410) false l.maxClicks
        fun _ _ => expiredResponse l
    else
      let (target, route) := destination site v l
      .recording (redirectEvent site v l target route l.redirectCode) true l.maxClicks
        fun ok err =>
          if err.isSome then .trackingFailed
          else if !ok then expiredResponse l
          else .redirect target l.redirectCode

end RedirectEvents
