import ShortQ.LinkStore

/-! # Partial updates of a link

A payload names some settings of a link; `applyLinkPayload` merges them into the link that
the request has read. -/
namespace LinkPayload

open GoText
open GoTime (Time)
open LinkStore
open LinkValidation
open Models
open Schema

/-- `auth.HashSecret`, with the salt it draws. bcrypt yields a text of sixty bytes or an error. -/
structure SecretHash where
  run : Str → Except Str Str
  written : ∀ secret hash, run secret = .ok hash → hash ≠ []

structure Payload where
  url : Option Str := none
  targetUrl : Option Str := none
  slug : Option Str := none
  title : Option Str := none
  visibility : Option Str := none
  redirectCode : Option ℤ := none
  expiresAt : Option Str := none
  maxClicks : Option ℤ := none
  clearMaxClicks : Bool := false
  expiredUrl : Option Str := none
  iosUrl : Option Str := none
  androidUrl : Option Str := none
  forwardQuery : Option Bool := none
  utmSource : Option Str := none
  utmMedium : Option Str := none
  utmCampaign : Option Str := none
  utmTerm : Option Str := none
  utmContent : Option Str := none
  tags : Option (List Str) := none
  geoTargets : Option (List GeoTarget) := none
  password : Option Str := none
  clearPassword : Bool := false
  deriving DecidableEq, Repr

/-- A text field as it is copied into the link. -/
def copied (current : Str) (value : Option Str) : Str := (value.map trimSpace).getD current

/-- `expires_at`; a text that is no date has been refused before the value is used. -/
def copiedTime (current : Option Time) : Option Str → Option Time
  | none => current
  | some raw => if trimSpace raw = [] then none else GoTime.parseRFC3339 raw

/-- The assignments of `applyLinkPayload`. -/
def Payload.assign (p : Payload) (creating : Bool) (link : Link) : Link :=
  let visibility := copied link.visibility p.visibility
  { link with
    targetUrl := copied (copied link.targetUrl p.url) p.targetUrl
    slug := if creating then copied link.slug p.slug else link.slug
    title := copied link.title p.title
    visibility := if visibility = [] then lit "private" else visibility
    redirectCode := p.redirectCode.getD link.redirectCode
    expiresAt := copiedTime link.expiresAt p.expiresAt
    maxClicks := if p.clearMaxClicks then none else p.maxClicks.or link.maxClicks
    expiredUrl := copied link.expiredUrl p.expiredUrl
    iosUrl := copied link.iosUrl p.iosUrl
    androidUrl := copied link.androidUrl p.androidUrl
    forwardQuery := p.forwardQuery.getD link.forwardQuery
    utmSource := copied link.utmSource p.utmSource
    utmMedium := copied link.utmMedium p.utmMedium
    utmCampaign := copied link.utmCampaign p.utmCampaign
    utmTerm := copied link.utmTerm p.utmTerm
    utmContent := copied link.utmContent p.utmContent
    tags := p.tags.getD link.tags
    geoTargets := p.geoTargets.getD link.geoTargets
    passwordProtected :=
      if p.password.isSome then true else if p.clearPassword then false
      else link.passwordProtected }

def Payload.passwordChanged (p : Payload) : Bool := p.password.isSome || p.clearPassword

/-- The hash to store: none for a payload without a password. -/
def Payload.secret (hash : SecretHash) (p : Payload) : Except Str Str :=
  match p.password with
  | none => .ok []
  | some password =>
    if password.length < 8 then .error (lit "password must be at least 8 characters")
    else hash.run password

def Payload.badDate (p : Payload) : Bool :=
  p.expiresAt.any fun raw => trimSpace raw ≠ [] && (GoTime.parseRFC3339 raw).isNone

def Payload.mismatch (p : Payload) : Bool :=
  p.url.any fun url => p.targetUrl.any fun target => trimSpace url ≠ trimSpace target

/-- The merged link, the hash of its password and whether the password column is written. -/
def applyLinkPayload (hash : SecretHash) (link : Link) (p : Payload) (creating : Bool) :
    Except Str (Link × Str × Bool) :=
  let merged := p.assign creating link
  if p.mismatch then
    .error (lit "url and target_url must match when both are supplied")
  else if merged.visibility ≠ lit "private" && merged.visibility ≠ lit "department" then
    .error (lit "visibility must be private or department")
  else if p.badDate then .error (lit "expires_at must be RFC3339")
  else
    match p.secret hash with
    | .error text => .error text
    | .ok passwordHash =>
      if creating && merged.targetUrl = [] then .error (lit "url is required")
      else .ok (merged, passwordHash, p.passwordChanged)

theorem applyLinkPayload_ok {hash : SecretHash} {link merged : Link} {p : Payload}
    {creating changed : Bool} {passwordHash : Str}
    (h : applyLinkPayload hash link p creating = .ok (merged, passwordHash, changed)) :
    merged = p.assign creating link ∧ p.secret hash = .ok passwordHash ∧
      changed = p.passwordChanged := by
  unfold applyLinkPayload at h
  dsimp only at h
  split at h
  · cases h
  split at h
  · cases h
  split at h
  · cases h
  split at h
  · cases h
  rename_i hsecret
  split at h
  · cases h
  · cases h
    exact ⟨rfl, hsecret, rfl⟩

/-- A payload sets a hash exactly when it gives a password. -/
theorem secret_written {hash : SecretHash} {p : Payload} {passwordHash : Str}
    (h : p.secret hash = .ok passwordHash) : passwordHash ≠ [] ↔ p.password.isSome := by
  unfold Payload.secret at h
  split at h
  · rename_i hnone
    cases h
    simp [hnone]
  · rename_i password hsome
    split at h
    · cases h
    · simp [hsome, hash.written _ _ h]

/-! Settings one by one. -/

inductive Setting where
  | targetUrl | title | visibility | redirectCode | expiresAt | maxClicks | expiredUrl | iosUrl
  | androidUrl | forwardQuery | utmSource | utmMedium | utmCampaign | utmTerm | utmContent
  | tags | geoTargets | password
  deriving DecidableEq, Repr

inductive Value where
  | text (s : Str)
  | code (i : ℤ)
  | time (t : Option Time)
  | limit (m : Option ℤ)
  | flag (b : Bool)
  | tags (tags : List Str)
  | geo (targets : List GeoTarget)
  deriving DecidableEq, Repr

def value (link : Link) : Setting → Value
  | .targetUrl => .text link.targetUrl
  | .title => .text link.title
  | .visibility => .text link.visibility
  | .redirectCode => .code link.redirectCode
  | .expiresAt => .time link.expiresAt
  | .maxClicks => .limit link.maxClicks
  | .expiredUrl => .text link.expiredUrl
  | .iosUrl => .text link.iosUrl
  | .androidUrl => .text link.androidUrl
  | .forwardQuery => .flag link.forwardQuery
  | .utmSource => .text link.utmSource
  | .utmMedium => .text link.utmMedium
  | .utmCampaign => .text link.utmCampaign
  | .utmTerm => .text link.utmTerm
  | .utmContent => .text link.utmContent
  | .tags => .tags link.tags
  | .geoTargets => .geo link.geoTargets
  | .password => .flag link.passwordProtected

/-- The payload has a field for the setting. -/
def Payload.names (p : Payload) : Setting → Bool
  | .targetUrl => p.url.isSome || p.targetUrl.isSome
  | .title => p.title.isSome
  | .visibility => p.visibility.isSome
  | .redirectCode => p.redirectCode.isSome
  | .expiresAt => p.expiresAt.isSome
  | .maxClicks => p.clearMaxClicks || p.maxClicks.isSome
  | .expiredUrl => p.expiredUrl.isSome
  | .iosUrl => p.iosUrl.isSome
  | .androidUrl => p.androidUrl.isSome
  | .forwardQuery => p.forwardQuery.isSome
  | .utmSource => p.utmSource.isSome
  | .utmMedium => p.utmMedium.isSome
  | .utmCampaign => p.utmCampaign.isSome
  | .utmTerm => p.utmTerm.isSome
  | .utmContent => p.utmContent.isSome
  | .tags => p.tags.isSome
  | .geoTargets => p.geoTargets.isSome
  | .password => p.passwordChanged

/-- The value the payload gives to a setting that it names. -/
def Payload.asked (p : Payload) (f : Setting) : Value := value (p.assign false {}) f

/-- An update keeps the settings that its payload does not name; a visibility that was never
set counts as private. -/
def kept (link : Link) : Link :=
  { link with visibility := if link.visibility = [] then lit "private" else link.visibility }

theorem copied_some {current other : Str} {v : Option Str} (h : v.isSome = true) :
    copied current v = copied other v := by
  obtain ⟨s, rfl⟩ := Option.isSome_iff_exists.mp h
  rfl

theorem copied_none {current : Str} {v : Option Str} (h : ¬ v.isSome = true) :
    copied current v = current := by
  rw [Option.not_isSome_iff_eq_none] at h
  rw [h]
  rfl

theorem getD_some {α : Type} {v : Option α} {a b : α} (h : v.isSome = true) :
    v.getD a = v.getD b := by
  obtain ⟨s, rfl⟩ := Option.isSome_iff_exists.mp h
  rfl

theorem value_assign_named {p : Payload} {link : Link} {f : Setting} (h : p.names f = true) :
    value (p.assign false link) f = p.asked f := by
  unfold Payload.asked
  cases f with
  | targetUrl =>
    simp only [Payload.names, Bool.or_eq_true] at h
    simp only [value, Payload.assign]
    by_cases ht : p.targetUrl.isSome = true
    · rw [copied_some ht]
    · rw [copied_none ht, copied_none ht, copied_some (h.resolve_right ht)]
  | visibility =>
    simp only [value, Payload.assign]
    rw [copied_some h]
  | expiresAt =>
    simp only [Payload.names] at h
    obtain ⟨raw, hraw⟩ := Option.isSome_iff_exists.mp h
    simp only [value, Payload.assign, hraw, copiedTime]
  | maxClicks =>
    simp only [Payload.names, Bool.or_eq_true] at h
    simp only [value, Payload.assign]
    by_cases hc : p.clearMaxClicks = true
    · rw [if_pos hc, if_pos hc]
    · obtain ⟨m, hm⟩ := Option.isSome_iff_exists.mp (h.resolve_left hc)
      rw [hm]
      rfl
  | password =>
    simp only [Payload.names, Payload.passwordChanged, Bool.or_eq_true] at h
    simp only [value, Payload.assign]
    rcases h with h | h <;> simp [h]
  | redirectCode => exact congrArg Value.code (getD_some h)
  | forwardQuery => exact congrArg Value.flag (getD_some h)
  | tags => exact congrArg Value.tags (getD_some h)
  | geoTargets => exact congrArg Value.geo (getD_some h)
  | _ => exact congrArg Value.text (copied_some h)

theorem value_assign_unnamed {p : Payload} {link : Link} {f : Setting}
    (h : ¬ p.names f = true) : value (p.assign false link) f = value (kept link) f := by
  cases f with
  | targetUrl =>
    simp only [Payload.names, Bool.or_eq_true, not_or] at h
    simp only [value, Payload.assign, kept]
    rw [copied_none h.2, copied_none h.1]
  | visibility =>
    simp only [value, Payload.assign, kept]
    rw [copied_none h]
  | expiresAt =>
    simp only [Payload.names, Option.not_isSome_iff_eq_none] at h
    simp only [value, Payload.assign, kept, h, copiedTime]
  | maxClicks =>
    simp only [Payload.names, Bool.or_eq_true, not_or, Option.not_isSome_iff_eq_none] at h
    simp [value, Payload.assign, kept, h]
  | password =>
    simp only [Payload.names, Payload.passwordChanged, Bool.or_eq_true, not_or] at h
    simp [value, Payload.assign, kept, h]
  | redirectCode =>
    simp only [Payload.names, Option.not_isSome_iff_eq_none] at h
    simp [value, Payload.assign, kept, h]
  | forwardQuery =>
    simp only [Payload.names, Option.not_isSome_iff_eq_none] at h
    simp [value, Payload.assign, kept, h]
  | tags =>
    simp only [Payload.names, Option.not_isSome_iff_eq_none] at h
    simp [value, Payload.assign, kept, h]
  | geoTargets =>
    simp only [Payload.names, Option.not_isSome_iff_eq_none] at h
    simp [value, Payload.assign, kept, h]
  | _ => exact congrArg Value.text (copied_none h)

/-! What the columns make of a setting. -/

def geoRow (linkId : ℤ) (target : GeoTarget) : Option GeoRow := do
  let code ← bpchar 2 (country target)
  let url ← text (trimSpace target.targetUrl)
  some ⟨linkId, code, url⟩

/-- Geo targets in the order in which they are read. -/
def byCountry (rows : List GeoRow) : List GeoTarget :=
  (rows.mergeSort fun a b => decide (a.countryCode ≤ b.countryCode)).map
    fun g => ⟨g.countryCode, g.targetUrl⟩

/-- The stored form of a setting, none where its column refuses the value. The update of one
link stores the code 302 for 0. -/
def stored (linkId : ℤ) : Setting → Value → Option Value
  | .title, .text s => (varchar 180 s).map .text
  | .visibility, .text s => (checkVisibility s).map .text
  | .utmSource, .text s => (varchar 255 s).map .text
  | .utmMedium, .text s => (varchar 255 s).map .text
  | .utmCampaign, .text s => (varchar 255 s).map .text
  | .utmTerm, .text s => (varchar 255 s).map .text
  | .utmContent, .text s => (varchar 255 s).map .text
  | _, .text s => (text s).map .text
  | _, .code i => (smallint (if i = 0 then 302 else i)).map .code
  | _, .time t => (nullable timestamptz t).map .time
  | _, .tags tags => some (.tags ((normalizeTags tags).map toValid))
  | _, .geo targets => (targets.mapM (geoRow linkId)).map fun rows => .geo (byCountry rows)
  | _, v => some v

end LinkPayload
