import ShortQ.Models
import ShortQ.RowTable
import Mathlib.Data.Int.Order.Basic

/-! # The tables of the embedded migration

Column types are what they accept and what they store: `varchar n` counts characters and
drops excess trailing spaces, `bpchar n` pads, `timestamptz` keeps microseconds. -/
namespace Schema

open GoText (Str runes validUtf8 bytesOf isHex unhex)
open GoTime (Time)
open Models
open RowTable (Table)

def text (s : Str) : Option Str := if validUtf8 s && !s.contains 0 then some s else none

def varchar (n : ℕ) (s : Str) : Option Str :=
  if text s = none then none
  else if (runes s).length ≤ n then some s
  else if ((runes s).drop n).all (·.bytes = [32]) then some (bytesOf ((runes s).take n))
  else none

def bpchar (n : ℕ) (s : Str) : Option Str :=
  (varchar n s).map fun v => v ++ List.replicate (n - (runes v).length) 32

def smallint (i : ℤ) : Option ℤ := if -32768 ≤ i && i ≤ 32767 then some i else none

def micros (t : Time) : ℤ := t.nanos / 1000

/-- The range is that of a timestamp counted from 2000-01-01. -/
def timestamptz (t : Time) : Option Time :=
  if -211813488000000000 ≤ micros t - 946684800000000 &&
      micros t - 946684800000000 < 9223371331200000000 then
    some ⟨micros t * 1000⟩
  else none

/-- `uuid_in` after the optional brace: pairs of hexadecimal digits, with a hyphen
allowed after every second byte but the last. -/
def uuidBytes : ℕ → ℕ → Str → Option (ℕ × Str)
  | 0, value, s => some (value, s)
  | left + 1, value, a :: b :: rest =>
    if isHex a && isHex b then
      let value := value * 256 + (unhex a).toNat * 16 + (unhex b).toNat
      let rest := if left % 2 = 0 && 0 < left && rest.head? = some 45 then rest.tail else rest
      uuidBytes left value rest
    else none
  | _, _, _ => none

def uuid (s : Str) : Option ℕ :=
  match s with
  | 123 :: rest =>
    match uuidBytes 16 0 rest with
    | some (value, [125]) => some value
    | _ => none
  | _ =>
    match uuidBytes 16 0 s with
    | some (value, []) => some value
    | _ => none

structure LinkRow where
  id : ℤ
  userId : ℤ
  tenantId : Option ℤ
  slug : Str
  targetUrl : Str
  title : Str
  visibility : Str
  clicks : ℤ
  redirectCode : ℤ
  expiresAt : Option Time
  maxClicks : Option ℤ
  expiredUrl : Str
  iosUrl : Str
  androidUrl : Str
  passwordHash : Str
  forwardQuery : Bool
  utmSource : Str
  utmMedium : Str
  utmCampaign : Str
  utmTerm : Str
  utmContent : Str
  tags : List Str
  createdAt : Time
  updatedAt : Time
  deletedAt : Option Time
  deriving DecidableEq, Repr

structure GeoRow where
  linkId : ℤ
  countryCode : Str
  targetUrl : Str
  deriving DecidableEq, Repr

structure ClickRow where
  linkId : ℤ
  eventId : Option ℕ
  ip : Str
  userAgent : Str
  referrer : Str
  countryCode : Str
  method : Str
  statusCode : ℤ
  resolvedUrl : Str
  routeType : Str
  browser : Str
  os : Str
  device : Str
  isBot : Bool
  referrerHost : Str
  utmSource : Str
  utmMedium : Str
  utmCampaign : Str
  createdAt : Time
  deriving DecidableEq, Repr

structure RollupKey where
  day : ℤ
  linkId : ℤ
  countryCode : Str
  device : Str
  browser : Str
  referrerHost : Str
  utmCampaign : Str
  routeType : Str
  statusCode : ℤ
  deriving DecidableEq, Repr

structure RollupRow where
  key : RollupKey
  clicks : ℤ
  deriving DecidableEq, Repr

def linkClash (a b : LinkRow) : Prop := a.id = b.id ∨ a.slug = b.slug
def geoClash (a b : GeoRow) : Prop := a.linkId = b.linkId ∧ a.countryCode = b.countryCode
/-- The partial unique index `WHERE event_id IS NOT NULL`. -/
def clickClash (a b : ClickRow) : Prop := a.eventId ≠ none ∧ a.eventId = b.eventId
def rollupClash (a b : RollupRow) : Prop := a.key = b.key

instance : DecidableRel linkClash := fun a b =>
  inferInstanceAs (Decidable (a.id = b.id ∨ a.slug = b.slug))
instance : DecidableRel geoClash := fun a b =>
  inferInstanceAs (Decidable (a.linkId = b.linkId ∧ a.countryCode = b.countryCode))
instance : DecidableRel clickClash := fun a b =>
  inferInstanceAs (Decidable (a.eventId ≠ none ∧ a.eventId = b.eventId))
instance : DecidableRel rollupClash := fun a b =>
  inferInstanceAs (Decidable (a.key = b.key))

theorem linkClash_symm (a b : LinkRow) (h : linkClash a b) : linkClash b a :=
  h.imp Eq.symm Eq.symm

/-- `nextLinkId` is the identity sequence of `links`; it is not rolled back. The order of
`clicks.rows` stands for its identity column. -/
structure Database where
  links : Table LinkRow linkClash
  geoTargets : Table GeoRow geoClash
  clicks : Table ClickRow clickClash
  rollups : Table RollupRow rollupClash
  nextLinkId : ℤ

def Database.empty : Database := ⟨.empty, .empty, .empty, .empty, 1⟩

/-- A database whose only row is one link. -/
def Database.single (r : LinkRow) : Database :=
  { Database.empty with links := ⟨[r], List.pairwise_singleton _ _⟩, nextLinkId := r.id + 1 }

def Database.link (db : Database) (id : ℤ) : Option LinkRow := db.links.find (·.id = id)

/-- The value of one rollup counter; an absent row counts nothing. -/
def Database.rollup (db : Database) (key : RollupKey) : ℤ :=
  match db.rollups.find (·.key = key) with
  | some r => r.clicks
  | none => 0

/-- `nullableString` followed by the column's input: none is a refused value, and
`some none` is NULL. -/
def nullableUuid (s : Str) : Option (Option ℕ) := if s = [] then some none else (uuid s).map some

def clickRow (event : ClickEvent) (occurredAt : Time) : Option ClickRow := do
  let eventId ← nullableUuid event.eventId
  let ip ← varchar 64 event.ip
  let userAgent ← text event.userAgent
  let referrer ← text event.referrer
  let countryCode ← bpchar 2 event.countryCode
  let method ← varchar 10 event.method
  let statusCode ← smallint event.statusCode
  let resolvedUrl ← text event.resolvedUrl
  let routeType ← varchar 24 event.routeType
  let browser ← varchar 80 event.browser
  let os ← varchar 80 event.os
  let device ← varchar 32 event.device
  let referrerHost ← varchar 255 event.referrerHost
  let utmSource ← varchar 255 event.utmSource
  let utmMedium ← varchar 255 event.utmMedium
  let utmCampaign ← varchar 255 event.utmCampaign
  let createdAt ← timestamptz occurredAt
  some ⟨event.linkId, eventId, ip, userAgent, referrer, countryCode, method, statusCode,
    resolvedUrl, routeType, browser, os, device, event.isBot, referrerHost, utmSource,
    utmMedium, utmCampaign, createdAt⟩

def rollupKey (event : ClickEvent) (occurredAt : Time) : Option RollupKey := do
  let stamp ← timestamptz occurredAt
  let countryCode ← bpchar 2 event.countryCode
  let device ← varchar 32 event.device
  let browser ← varchar 80 event.browser
  let referrerHost ← varchar 255 event.referrerHost
  let utmCampaign ← varchar 255 event.utmCampaign
  let routeType ← varchar 24 event.routeType
  let statusCode ← smallint event.statusCode
  some ⟨stamp.utcDay, event.linkId, countryCode, device, browser, referrerHost, utmCampaign,
    routeType, statusCode⟩

/-- The rollup row a stored click counts in. -/
def ClickRow.rollupKey (row : ClickRow) : RollupKey :=
  ⟨row.createdAt.utcDay, row.linkId, row.countryCode, row.device, row.browser,
    row.referrerHost, row.utmCampaign, row.routeType, row.statusCode⟩

/-- Every column of `clicks` takes its value. -/
structure TakenClick (event : ClickEvent) (occurredAt : Time) (row : ClickRow) : Prop where
  linkId : row.linkId = event.linkId
  eventId : nullableUuid event.eventId = some row.eventId
  ip : varchar 64 event.ip = some row.ip
  userAgent : text event.userAgent = some row.userAgent
  referrer : text event.referrer = some row.referrer
  countryCode : bpchar 2 event.countryCode = some row.countryCode
  method : varchar 10 event.method = some row.method
  statusCode : smallint event.statusCode = some row.statusCode
  resolvedUrl : text event.resolvedUrl = some row.resolvedUrl
  routeType : varchar 24 event.routeType = some row.routeType
  browser : varchar 80 event.browser = some row.browser
  os : varchar 80 event.os = some row.os
  device : varchar 32 event.device = some row.device
  isBot : row.isBot = event.isBot
  referrerHost : varchar 255 event.referrerHost = some row.referrerHost
  utmSource : varchar 255 event.utmSource = some row.utmSource
  utmMedium : varchar 255 event.utmMedium = some row.utmMedium
  utmCampaign : varchar 255 event.utmCampaign = some row.utmCampaign
  createdAt : timestamptz occurredAt = some row.createdAt

theorem clickRow_iff {event : ClickEvent} {occurredAt : Time} {row : ClickRow} :
    clickRow event occurredAt = some row ↔ TakenClick event occurredAt row := by
  constructor
  · intro h
    unfold clickRow at h
    obtain ⟨eventId, heventId, h⟩ := Option.bind_eq_some_iff.mp h
    obtain ⟨ip, hip, h⟩ := Option.bind_eq_some_iff.mp h
    obtain ⟨userAgent, huserAgent, h⟩ := Option.bind_eq_some_iff.mp h
    obtain ⟨referrer, hreferrer, h⟩ := Option.bind_eq_some_iff.mp h
    obtain ⟨countryCode, hcountryCode, h⟩ := Option.bind_eq_some_iff.mp h
    obtain ⟨method, hmethod, h⟩ := Option.bind_eq_some_iff.mp h
    obtain ⟨statusCode, hstatusCode, h⟩ := Option.bind_eq_some_iff.mp h
    obtain ⟨resolvedUrl, hresolvedUrl, h⟩ := Option.bind_eq_some_iff.mp h
    obtain ⟨routeType, hrouteType, h⟩ := Option.bind_eq_some_iff.mp h
    obtain ⟨browser, hbrowser, h⟩ := Option.bind_eq_some_iff.mp h
    obtain ⟨os, hos, h⟩ := Option.bind_eq_some_iff.mp h
    obtain ⟨device, hdevice, h⟩ := Option.bind_eq_some_iff.mp h
    obtain ⟨referrerHost, hreferrerHost, h⟩ := Option.bind_eq_some_iff.mp h
    obtain ⟨utmSource, hutmSource, h⟩ := Option.bind_eq_some_iff.mp h
    obtain ⟨utmMedium, hutmMedium, h⟩ := Option.bind_eq_some_iff.mp h
    obtain ⟨utmCampaign, hutmCampaign, h⟩ := Option.bind_eq_some_iff.mp h
    obtain ⟨createdAt, hcreatedAt, h⟩ := Option.bind_eq_some_iff.mp h
    cases h
    exact ⟨rfl, heventId, hip, huserAgent, hreferrer, hcountryCode, hmethod, hstatusCode,
      hresolvedUrl, hrouteType, hbrowser, hos, hdevice, rfl, hreferrerHost, hutmSource,
      hutmMedium, hutmCampaign, hcreatedAt⟩
  · intro h
    unfold clickRow
    rw [h.eventId, h.ip, h.userAgent, h.referrer, h.countryCode, h.method, h.statusCode,
      h.resolvedUrl, h.routeType, h.browser, h.os, h.device, h.referrerHost, h.utmSource,
      h.utmMedium, h.utmCampaign, h.createdAt, ← h.linkId, ← h.isBot]
    rfl

/-- The second insert of a transaction accepts what the first one did. -/
theorem rollupKey_of_clickRow {event : ClickEvent} {t : Time} {row : ClickRow}
    (h : clickRow event t = some row) : rollupKey event t = some row.rollupKey := by
  have htaken := clickRow_iff.mp h
  unfold rollupKey
  rw [htaken.createdAt, htaken.countryCode, htaken.device, htaken.browser, htaken.referrerHost,
    htaken.utmCampaign, htaken.routeType, htaken.statusCode, ← htaken.linkId]
  rfl

/-- Storing microseconds does not move an instant to another UTC day. -/
theorem utcDay_timestamptz {t u : Time} (h : timestamptz t = some u) : u.utcDay = t.utcDay := by
  unfold timestamptz at h
  split at h
  · cases h
    simp only [Time.utcDay, micros, GoTime.day, GoTime.second]
    omega
  · cases h

/-- A live link without a click limit, for examples. -/
def sampleLink : LinkRow where
  id := 1
  userId := 1
  tenantId := some 1
  slug := GoText.lit "docs"
  targetUrl := GoText.lit "https://example.com/"
  title := []
  visibility := GoText.lit "private"
  clicks := 0
  redirectCode := 302
  expiresAt := none
  maxClicks := none
  expiredUrl := []
  iosUrl := []
  androidUrl := []
  passwordHash := []
  forwardQuery := false
  utmSource := []
  utmMedium := []
  utmCampaign := []
  utmTerm := []
  utmContent := []
  tags := []
  createdAt := GoTime.zero
  updatedAt := GoTime.zero
  deletedAt := none

/-- A click on the sample link. -/
def sampleClick (eventId : Str) : ClickEvent :=
  { eventId := eventId, linkId := 1, slug := GoText.lit "docs", statusCode := 302,
    occurredAt := ⟨1767225600000000000⟩, increment := true }

example : uuid (GoText.lit "{AAAAAAAA-0000-4000-8000-000000000001}") =
    uuid (GoText.lit "aaaaaaaa000040008000000000000001") := by decide

end Schema
