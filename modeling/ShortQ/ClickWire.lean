import ShortQ.GoUrl
import ShortQ.JsonValues
import ShortQ.Models

/-! # Click messages

`MarshalEvent` and `DecodeEvent`. A body is kept by what the JSON scanner finds in it. -/
namespace ClickWire

open GoText
open GoTime (Time)
open JsonValues
open Models

/-- The first value, or none where it is cut short or malformed, and whether anything but
white space follows it. -/
structure Body where
  value : Option Json
  trailing : Bool

structure EventPayload where
  version : ℤ := 0
  eventId : Str := []
  occurredAt : Time := GoTime.zero
  linkId : ℤ := 0
  slug : Str := []
  ip : Str := []
  countryCode : Str := []
  method : Str := []
  statusCode : ℤ := 0
  resolvedUrl : Str := []
  routeType : Str := []
  userAgent : Str := []
  browser : Str := []
  os : Str := []
  device : Str := []
  isBot : Bool := false
  referrer : Str := []
  referrerHost : Str := []
  utmSource : Str := []
  utmMedium : Str := []
  utmCampaign : Str := []
  increment : Bool := false
  deriving DecidableEq, Repr

inductive Field where
  | version | eventId | occurredAt | linkId | slug | ip | countryCode | method | statusCode
  | resolvedUrl | routeType | userAgent | browser | os | device | isBot | referrer
  | referrerHost | utmSource | utmMedium | utmCampaign | increment
  deriving DecidableEq, Repr

/-- The fields in the order of the struct. -/
def Field.all : List Field :=
  [.version, .eventId, .occurredAt, .linkId, .slug, .ip, .countryCode, .method, .statusCode,
    .resolvedUrl, .routeType, .userAgent, .browser, .os, .device, .isBot, .referrer,
    .referrerHost, .utmSource, .utmMedium, .utmCampaign, .increment]

def Field.name : Field → Str
  | .version => lit "version"
  | .eventId => lit "event_id"
  | .occurredAt => lit "occurred_at"
  | .linkId => lit "link_id"
  | .slug => lit "slug"
  | .ip => lit "ip"
  | .countryCode => lit "country_code"
  | .method => lit "method"
  | .statusCode => lit "status_code"
  | .resolvedUrl => lit "resolved_url"
  | .routeType => lit "route_type"
  | .userAgent => lit "user_agent"
  | .browser => lit "browser"
  | .os => lit "os"
  | .device => lit "device"
  | .isBot => lit "is_bot"
  | .referrer => lit "referrer"
  | .referrerHost => lit "referrer_host"
  | .utmSource => lit "utm_source"
  | .utmMedium => lit "utm_medium"
  | .utmCampaign => lit "utm_campaign"
  | .increment => lit "increment"

def fieldOf (key : Str) : Option Field := fieldNamed Field.all Field.name key

/-- `Time.UnmarshalJSON` reads the quoted text as it stands, escapes included. -/
def timeValue (current : Time) : Json → Option Time
  | .null => some current
  | .string text false => GoTime.parseRFC3339 text
  | _ => none

def EventPayload.assign (p : EventPayload) (f : Field) (v : Json) : Option EventPayload :=
  match f with
  | .version => (intValue p.version v).map fun x => { p with version := x }
  | .eventId => (stringValue p.eventId v).map fun x => { p with eventId := x }
  | .occurredAt => (timeValue p.occurredAt v).map fun x => { p with occurredAt := x }
  | .linkId => (intValue p.linkId v).map fun x => { p with linkId := x }
  | .slug => (stringValue p.slug v).map fun x => { p with slug := x }
  | .ip => (stringValue p.ip v).map fun x => { p with ip := x }
  | .countryCode => (stringValue p.countryCode v).map fun x => { p with countryCode := x }
  | .method => (stringValue p.method v).map fun x => { p with method := x }
  | .statusCode => (intValue p.statusCode v).map fun x => { p with statusCode := x }
  | .resolvedUrl => (stringValue p.resolvedUrl v).map fun x => { p with resolvedUrl := x }
  | .routeType => (stringValue p.routeType v).map fun x => { p with routeType := x }
  | .userAgent => (stringValue p.userAgent v).map fun x => { p with userAgent := x }
  | .browser => (stringValue p.browser v).map fun x => { p with browser := x }
  | .os => (stringValue p.os v).map fun x => { p with os := x }
  | .device => (stringValue p.device v).map fun x => { p with device := x }
  | .isBot => (boolValue p.isBot v).map fun x => { p with isBot := x }
  | .referrer => (stringValue p.referrer v).map fun x => { p with referrer := x }
  | .referrerHost => (stringValue p.referrerHost v).map fun x => { p with referrerHost := x }
  | .utmSource => (stringValue p.utmSource v).map fun x => { p with utmSource := x }
  | .utmMedium => (stringValue p.utmMedium v).map fun x => { p with utmMedium := x }
  | .utmCampaign => (stringValue p.utmCampaign v).map fun x => { p with utmCampaign := x }
  | .increment => (boolValue p.increment v).map fun x => { p with increment := x }

/-- One member of the object; `DisallowUnknownFields` is set. -/
def member (p : EventPayload) (m : Str × Json) : Option EventPayload :=
  (fieldOf m.1).bind fun f => p.assign f m.2

def decodePayload : Json → Option EventPayload
  | .null => some {}
  | .object members => members.foldlM member {}
  | _ => none

def validUUID (value : Str) : Bool :=
  let compact := value.filter (· ≠ 45)
  value.length = 36 && compact.length = 32 && value[8]? = some 45 && value[13]? = some 45 &&
    value[18]? = some 45 && value[23]? = some 45 && compact.all isHex

/-- The checks of `DecodeEvent` behind the JSON decoder. -/
def EventPayload.accepted (p : EventPayload) : Bool :=
  p.version = 1 && validUUID p.eventId && !p.occurredAt.isZero && !decide (p.linkId ≤ 0) &&
    !((trimSpace p.slug).isEmpty || (trimSpace p.method).isEmpty ||
      (trimSpace p.routeType).isEmpty) &&
    !(p.statusCode < 100 || p.statusCode > 599)

def EventPayload.event (p : EventPayload) : ClickEvent :=
  { eventId := p.eventId, occurredAt := p.occurredAt, linkId := p.linkId, slug := p.slug,
    ip := p.ip, countryCode := p.countryCode, method := p.method, statusCode := p.statusCode,
    resolvedUrl := p.resolvedUrl, routeType := p.routeType, userAgent := p.userAgent,
    browser := p.browser, os := p.os, device := p.device, isBot := p.isBot,
    referrer := p.referrer, referrerHost := p.referrerHost, utmSource := p.utmSource,
    utmMedium := p.utmMedium, utmCampaign := p.utmCampaign, increment := p.increment }

def decodeEvent (body : Body) : Option ClickEvent := do
  let value ← body.value
  let payload ← decodePayload value
  if !body.trailing && payload.accepted then some payload.event else none

def scrubURL (raw : Str) : Str :=
  match GoUrl.Parse raw with
  | none => []
  | some parsed => { parsed with user := none, rawQuery := [], fragment := [] }.String

/-- One field as `json.Marshal` writes it; the text of the instant is given. -/
def EventPayload.encode (p : EventPayload) (occurredAt : Str) : Field → Json
  | .version => .number (some p.version)
  | .eventId => jsonString p.eventId
  | .occurredAt => .string occurredAt false
  | .linkId => .number (some p.linkId)
  | .slug => jsonString p.slug
  | .ip => jsonString p.ip
  | .countryCode => jsonString p.countryCode
  | .method => jsonString p.method
  | .statusCode => .number (some p.statusCode)
  | .resolvedUrl => jsonString p.resolvedUrl
  | .routeType => jsonString p.routeType
  | .userAgent => jsonString p.userAgent
  | .browser => jsonString p.browser
  | .os => jsonString p.os
  | .device => jsonString p.device
  | .isBot => .bool p.isBot
  | .referrer => jsonString p.referrer
  | .referrerHost => jsonString p.referrerHost
  | .utmSource => jsonString p.utmSource
  | .utmMedium => jsonString p.utmMedium
  | .utmCampaign => jsonString p.utmCampaign
  | .increment => .bool p.increment

/-- `json.Marshal`: none for an instant it cannot write. -/
def encodePayload (p : EventPayload) : Option Json :=
  (GoTime.formatRFC3339 p.occurredAt).map fun occurredAt =>
    .object (Field.all.map fun f => (f.name, p.encode occurredAt f))

def payloadOf (event : ClickEvent) : EventPayload :=
  { version := 1, eventId := event.eventId, occurredAt := event.occurredAt,
    linkId := event.linkId, slug := event.slug, ip := event.ip,
    countryCode := event.countryCode, method := event.method, statusCode := event.statusCode,
    resolvedUrl := scrubURL event.resolvedUrl, routeType := event.routeType,
    userAgent := event.userAgent, browser := event.browser, os := event.os,
    device := event.device, isBot := event.isBot, referrer := scrubURL event.referrer,
    referrerHost := event.referrerHost, utmSource := event.utmSource,
    utmMedium := event.utmMedium, utmCampaign := event.utmCampaign,
    increment := event.increment }

def marshalEvent (event : ClickEvent) : Option Body :=
  (encodePayload (payloadOf event)).map fun json => ⟨some json, false⟩

/-- The values of an `amqp.Table` that the switch of `retryCount` tells apart. -/
inductive HeaderValue where
  | int (v : Int64)
  | int8 (v : Int8)
  | int16 (v : Int16)
  | int32 (v : Int32)
  | int64 (v : Int64)
  | uint8 (v : UInt8)
  | uint16 (v : UInt16)
  | uint32 (v : UInt32)
  | uint64 (v : UInt64)
  | other
  deriving DecidableEq

abbrev Table := List (Str × HeaderValue)

def RetryCountHeader : Str := lit "x-shortq-retry-count"

/-- The two's complement reading of an integer in 64 bits. -/
def wrap64 (v : ℤ) : ℤ := (v + 9223372036854775808) % 18446744073709551616 - 9223372036854775808

/-- A nil table is the empty one. -/
def retryCount (headers : Table) : ℤ :=
  match headers.lookup RetryCountHeader with
  | some (.int v) => v.toInt
  | some (.int8 v) => v.toInt
  | some (.int16 v) => v.toInt
  | some (.int32 v) => v.toInt
  | some (.int64 v) => v.toInt
  | some (.uint8 v) => v.toNat
  | some (.uint16 v) => v.toNat
  | some (.uint32 v) => v.toNat
  | some (.uint64 v) => wrap64 v.toNat
  | some .other | none => 0

/-- A delivery. The three callbacks may be nil. -/
structure Delivery where
  body : Body
  headers : Table := []
  contentType : Str := []
  messageId : Str := []
  kind : Str := []
  timestamp : Time := GoTime.zero
  hasAck : Bool := true
  hasNack : Bool := true
  hasReject : Bool := true

/-- An `amqp.Publishing`; every message is persistent. -/
structure Publishing where
  headers : Table := []
  contentType : Str
  expiration : Str := []
  messageId : Str
  timestamp : Time
  kind : Str
  body : Body

/-- The message `Publish` makes of an event. -/
def publishing (event : ClickEvent) : Option Publishing :=
  (marshalEvent event).map fun body =>
    { contentType := lit "application/json", messageId := event.eventId,
      timestamp := event.occurredAt, kind := lit "shortq.click.v1", body := body }

def baseRetryDelay : ℤ := 250000000

/-- `baseRetryDelay << shift`: every bit is shifted out from 64 on. -/
def shiftedDelay (shift : ℤ) : ℤ :=
  if shift < 64 then wrap64 (baseRetryDelay * 2 ^ shift.toNat) else 0

/-- The message `Retry` makes of a delivery. A negative shift count panics (none). -/
def retryPublishing (d : Delivery) (attempt : ℤ) : Option Publishing :=
  let shift := wrap64 (attempt - 1)
  if shift < 0 then none
  else
    let delay := shiftedDelay shift
    some { headers := [(RetryCountHeader, .int32 (Int32.ofInt attempt))]
           contentType := d.contentType
           expiration := lit (toString (delay.tdiv 1000000)), messageId := d.messageId,
           timestamp := d.timestamp, kind := d.kind, body := d.body }

/-- `bridgeDeliveries`: the three callbacks are always set. -/
def wrap (m : Publishing) : Delivery :=
  { body := m.body, headers := m.headers, contentType := m.contentType,
    messageId := m.messageId, kind := m.kind, timestamp := m.timestamp }

/-- A click on a link, for examples. -/
def sampleEvent (eventId : Str) (linkId : ℤ) : ClickEvent :=
  { eventId := eventId, linkId := linkId, slug := lit "docs", method := lit "GET",
    statusCode := 302, routeType := lit "default", occurredAt := ⟨1767225600000000000⟩,
    increment := true }

/-- Its message as the worker receives it. -/
def sampleDelivery (eventId : Str) (linkId : ℤ) : Delivery :=
  ((publishing (sampleEvent eventId linkId)).map wrap).getD { body := ⟨none, false⟩ }

/-! ## What arrives is what was sent -/

theorem fieldOf_name (f : Field) : fieldOf f.name = some f := by
  cases f <;> decide

theorem foldlM_members (p : EventPayload) (text : Str) (fs : List Field) (q : EventPayload) :
    (fs.map fun f => (f.name, p.encode text f)).foldlM member q =
      fs.foldlM (fun q f => q.assign f (p.encode text f)) q := by
  induction fs generalizing q with
  | nil => rfl
  | cons f fs ih =>
    rw [List.map_cons, List.foldlM_cons, List.foldlM_cons]
    simp only [member, fieldOf_name, Option.bind_some]
    exact congrArg _ (funext ih)

/-- A member of another name leaves the event id alone. -/
theorem assign_eventId_of_ne {p q : EventPayload} {f : Field} {v : Json} (hf : f ≠ .eventId)
    (h : p.assign f v = some q) : q.eventId = p.eventId := by
  cases f <;>
    simp only [EventPayload.assign, Option.map_eq_some_iff, ne_eq, not_true_eq_false] at h hf <;>
    obtain ⟨x, -, rfl⟩ := h <;> rfl

theorem foldlM_eventId_of_notMem (p : EventPayload) (text : Str) {fs : List Field}
    (hfs : Field.eventId ∉ fs) {q r : EventPayload}
    (h : fs.foldlM (fun q f => q.assign f (p.encode text f)) q = some r) :
    r.eventId = q.eventId := by
  induction fs generalizing q with
  | nil =>
    cases h
    rfl
  | cons f fs ih =>
    rw [List.foldlM_cons, Option.bind_eq_bind, Option.bind_eq_some_iff] at h
    obtain ⟨u, hu, hrest⟩ := h
    have hne : f ≠ .eventId := fun heq => hfs (heq ▸ List.mem_cons_self)
    have hnot : Field.eventId ∉ fs := fun hmem => hfs (List.mem_cons_of_mem f hmem)
    rw [ih hnot hrest, assign_eventId_of_ne hne hu]

theorem eventId_of_encodePayload {p q : EventPayload} {json : Json}
    (h : encodePayload p = some json) (hq : decodePayload json = some q) :
    q.eventId = toValid p.eventId := by
  obtain ⟨text, -, rfl⟩ := Option.map_eq_some_iff.mp h
  rw [decodePayload, foldlM_members] at hq
  -- The event id is the second field; the rest of the object does not name it.
  rw [Field.all, List.foldlM_cons, Option.bind_eq_bind, Option.bind_eq_some_iff] at hq
  obtain ⟨u, -, hq⟩ := hq
  rw [List.foldlM_cons, Option.bind_eq_bind, Option.bind_eq_some_iff] at hq
  obtain ⟨v, hv, hq⟩ := hq
  have hrest := foldlM_eventId_of_notMem p text (by decide) hq
  cases hv
  exact hrest

theorem eventId_of_marshalEvent {event got : ClickEvent} {body : Body}
    (h : marshalEvent event = some body) (hgot : decodeEvent body = some got) :
    got.eventId = toValid event.eventId := by
  obtain ⟨json, hjson, rfl⟩ := Option.map_eq_some_iff.mp h
  simp only [decodeEvent, Option.bind_eq_bind, Option.bind_some, Option.bind_eq_some_iff] at hgot
  obtain ⟨p, hp, hcond⟩ := hgot
  split at hcond
  · cases hcond
    exact eventId_of_encodePayload hjson hp
  · cases hcond

/-- Bytes below 0x80 are runes of their own. -/
theorem runesFuel_ascii {s : Str} (h : ∀ b ∈ s, b < 0x80) {n : ℕ} (hn : s.length ≤ n) :
    runesFuel n s = s.map fun b => ⟨some b.toNat, [b]⟩ := by
  induction s generalizing n with
  | nil => cases n <;> rfl
  | cons b s ih =>
    obtain ⟨m, rfl⟩ : ∃ m, n = m + 1 := ⟨n - 1, by simp at hn; omega⟩
    have hb : b < 0x80 := h b List.mem_cons_self
    have hrest := ih (fun c hc => h c (List.mem_cons_of_mem b hc)) (n := m) (by simpa using hn)
    simp [runesFuel, decodeRune, hb, hrest]

theorem toValid_ascii {s : Str} (h : ∀ b ∈ s, b < 0x80) : toValid s = s := by
  rw [toValid, runes, runesFuel_ascii h (Nat.le_refl _), List.flatMap_map]
  simp

/-- A message that decodes carries an event id of the UUID form. -/
theorem validUUID_of_decodeEvent {body : Body} {event : ClickEvent}
    (h : decodeEvent body = some event) : validUUID event.eventId = true := by
  simp only [decodeEvent, Option.bind_eq_bind, Option.bind_eq_some_iff] at h
  obtain ⟨_, -, p, -, hcond⟩ := h
  split at hcond
  · next hacc =>
    cases hcond
    simp only [EventPayload.accepted, Bool.and_eq_true] at hacc
    exact hacc.2.1.1.1.1.2
  · cases hcond

/-- A message that decodes carries the time of the click. -/
theorem occurred_of_decodeEvent {body : Body} {event : ClickEvent}
    (h : decodeEvent body = some event) : event.occurredAt.isZero = false := by
  simp only [decodeEvent, Option.bind_eq_bind, Option.bind_eq_some_iff] at h
  obtain ⟨_, -, p, -, hcond⟩ := h
  split at hcond
  · next hacc =>
    cases hcond
    simp only [EventPayload.accepted, Bool.and_eq_true, Bool.not_eq_true'] at hacc
    exact hacc.2.1.1.1.2
  · cases hcond

/-! ## Retry counts -/

theorem wrap64_le {v : ℤ} (h : -9223372036854775808 ≤ v) : wrap64 v ≤ v := by
  simp only [wrap64]
  omega

theorem le_wrap64 (v : ℤ) : -9223372036854775808 ≤ wrap64 v := by
  simp only [wrap64]
  omega

theorem le_retryCount (headers : Table) : -9223372036854775808 ≤ retryCount headers := by
  simp only [retryCount]
  split
  · next v _ => exact v.le_toInt
  · next v _ => exact Int.le_trans (by decide) v.le_toInt
  · next v _ => exact Int.le_trans (by decide) v.le_toInt
  · next v _ => exact Int.le_trans (by decide) v.le_toInt
  · next v _ => exact v.le_toInt
  · exact Int.le_trans (by decide) (Int.natCast_nonneg _)
  · exact Int.le_trans (by decide) (Int.natCast_nonneg _)
  · exact Int.le_trans (by decide) (Int.natCast_nonneg _)
  · exact le_wrap64 _
  · decide
  · decide

theorem retryCount_le (headers : Table) : retryCount headers ≤ 9223372036854775807 := by
  simp only [retryCount]
  split
  · next v _ => exact v.toInt_le
  · next v _ => exact Int.le_trans v.toInt_le (by decide)
  · next v _ => exact Int.le_trans v.toInt_le (by decide)
  · next v _ => exact Int.le_trans v.toInt_le (by decide)
  · next v _ => exact v.toInt_le
  · next v _ =>
    have hv := v.toNat_lt
    omega
  · next v _ =>
    have hv := v.toNat_lt
    omega
  · next v _ =>
    have hv := v.toNat_lt
    omega
  · unfold wrap64
    omega
  · decide
  · decide

/-- What arrives of a retry copy: the body as it was, and the attempt as its count. -/
theorem wrap_retryPublishing {d : Delivery} {attempt : ℤ} {m : Publishing}
    (h : retryPublishing d attempt = some m) :
    0 ≤ wrap64 (attempt - 1) ∧ (wrap m).body = d.body ∧
      retryCount (wrap m).headers = (Int32.ofInt attempt).toInt := by
  simp only [retryPublishing] at h
  split at h
  · cases h
  · next hpos =>
    cases h
    refine ⟨Int.not_lt.mp hpos, rfl, ?_⟩
    simp [wrap, retryCount]

/-- A copy counts one more at most, also where the count wraps around and starts again at zero. -/
theorem retryCount_copy_le {d : Delivery} {m : Publishing}
    (h : retryPublishing d (wrap64 (retryCount d.headers + 1)) = some m) :
    retryCount (wrap m).headers ≤ retryCount d.headers + 1 := by
  obtain ⟨hpos, -, hcount⟩ := wrap_retryPublishing h
  have hlow := le_retryCount d.headers
  have hhigh := retryCount_le d.headers
  rw [hcount, Int32.toInt_ofInt, Int.bmod_def]
  simp only [Int32.size]
  unfold wrap64 at hpos ⊢
  split <;> omega

example : decodeEvent (sampleDelivery (lit "aaaaaaaa-0000-4000-8000-000000000001") 1).body =
    some (sampleEvent (lit "aaaaaaaa-0000-4000-8000-000000000001") 1) := by decide

end ClickWire
