import ShortQ.BrowserNumbers
import ShortQ.JsonText
import ShortQ.Markup
import ShortQ.Overview

/-! # The lists of the dashboard

The markup that `web/app.js` writes for the lists it loads, and the documents a browser makes of
it. -/
namespace DashboardViews

open BrowserNumbers (toDouble printed)
open GoText (Str lit)
open Markup

/-- `String(n)` of a number of the API. -/
def numberText (n : ℤ) : Str := JsonText.integerText (n.sign * printed n.natAbs)

theorem inert_of_isDigit {b : UInt8} (h : GoText.isDigit b = true) : inert b = true := by
  have hb := DecimalText.isDigit_iff.mp h
  have hne : ∀ n : ℕ, n < 48 ∨ 57 < n → n < 256 → b ≠ UInt8.ofNat n := by
    rintro n hn h256 rfl
    rw [UInt8.toNat_ofNat', Nat.mod_eq_of_lt h256] at hb
    omega
  simp only [inert, Bool.and_eq_true, decide_eq_true_eq]
  exact ⟨⟨⟨⟨⟨⟨hne 0 (by decide) (by decide), hne 10 (by decide) (by decide)⟩,
    hne 13 (by decide) (by decide)⟩, hne 34 (by decide) (by decide)⟩,
    hne 38 (by decide) (by decide)⟩, hne 60 (by decide) (by decide)⟩,
    hne 62 (by decide) (by decide)⟩

theorem inert_numberText (n : ℤ) : ∀ b ∈ numberText n, inert b = true := by
  intro b hb
  unfold numberText JsonText.integerText at hb
  rcases List.mem_append.mp hb with hsign | hdigits
  · split at hsign
    · rw [List.mem_singleton.mp hsign]
      decide
    · cases hsign
  · exact inert_of_isDigit (DecimalText.digit_of_mem_repr hdigits)

def number (n : ℤ) : Inert := ⟨numberText n, inert_numberText n⟩

/-- `n || fallback` in a template, for a number that may be missing. -/
def numberOr (n : Option ℤ) (fallback : Inert) : Inert :=
  match n with
  | some n => if n = 0 then fallback else number n
  | none => fallback

theorem inert_dash : ∀ b ∈ lit "-", inert b = true := by decide

theorem inert_flag : ∀ c : Bool, ∀ b ∈ (if c then lit "true" else lit "false"), inert b = true := by
  decide

theorem inert_active :
    ∀ c : Bool, ∀ b ∈ (if c then lit "active" else lit "inactive"), inert b = true := by
  decide

theorem inert_deletion : ∀ always enabled : Bool, ∀ b ∈ (if always then lit "always allowed"
    else if enabled then lit "enabled" else lit "locked"), inert b = true := by
  decide

theorem inert_danger :
    ∀ c : Bool, ∀ b ∈ (if c then lit "danger" else lit "secondary"), inert b = true := by
  decide

theorem inert_toggle :
    ∀ c : Bool, ∀ b ∈ (if c then lit "Disable deletion" else lit "Enable deletion"),
      inert b = true := by
  decide

def dash : Inert := ⟨lit "-", inert_dash⟩

def nothing : Inert := ⟨[], fun _ hb => absurd hb List.not_mem_nil⟩

def flag (c : Bool) : Inert := ⟨if c then lit "true" else lit "false", inert_flag c⟩

/-- `s || fallback`. -/
def textOr (s fallback : Str) : Str := if s = [] then fallback else s

/-- `xs.map(row).join('')`. -/
def rows {α : Type} (row : α → Template) (xs : List α) : Str := xs.flatMap fun x => (row x).html

/-- Dates as the browser's locale writes them. -/
structure LocaleText where
  date : Str → Inert

structure CurrentUser where
  id : ℤ
  role : Str
  tenantId : Option ℤ
  canDelete : Bool
  deriving DecidableEq, Repr

structure LinkItem where
  id : ℤ
  userId : ℤ
  slug : Str
  title : Str
  shortUrl : Str
  targetUrl : Str
  visibility : Str
  clicks : ℤ
  createdAt : Str
  creatorName : Str
  creatorEmail : Str
  deriving DecidableEq, Repr

structure KeyItem where
  id : ℤ
  name : Str
  keyPrefix : Str
  scope : Str
  createdAt : Str
  deriving DecidableEq, Repr

structure TenantItem where
  id : ℤ
  name : Str
  slug : Str
  deriving DecidableEq, Repr

structure DomainItem where
  id : ℤ
  tenantId : ℤ
  domain : Str
  status : Str
  verificationToken : Str
  deriving DecidableEq, Repr

structure UserItem where
  id : ℤ
  tenantId : Option ℤ
  email : Str
  name : Str
  role : Str
  deletionAccess : Bool
  active : Bool
  deriving DecidableEq, Repr

structure AuditItem where
  action : Str
  outcome : Str
  createdAt : Str
  actorEmail : Str
  authType : Str
  targetType : Str
  targetId : Str
  ipAddress : Str
  deriving DecidableEq, Repr

structure ClickItem where
  slug : Str
  createdAt : Str
  countryCode : Str
  device : Str
  browser : Str
  routeType : Str
  statusCode : ℤ
  deriving DecidableEq, Repr

structure PointItem where
  key : Str
  clicks : ℤ
  deriving DecidableEq, Repr

/-- `===` of two numbers of the API. -/
def sameNumber (m n : ℤ) : Bool :=
  m.sign * toDouble m.natAbs = n.sign * toDouble n.natAbs

def canManageLink (currentUser : Option CurrentUser) (link : LinkItem) : Bool :=
  currentUser.any fun u =>
    u.role = lit "superadmin" || u.role = lit "tenant" || sameNumber link.userId u.id

def canDelete (currentUser : Option CurrentUser) : Bool := currentUser.any CurrentUser.canDelete

def roleLabel (role : Str) : Str :=
  if role = lit "superadmin" then lit "admin"
  else if role = lit "tenant" then lit "department admin"
  else if role = lit "customer" then lit "user"
  else role

def visibilityLabel (x : LinkItem) : Str :=
  if x.visibility = lit "department" then lit "shared with ALVA" else lit "private"

/-! ## The templates -/

/-- `loadRecentLinks`. -/
def homeLinkRow (x : LinkItem) : Template :=
  [.markup (lit "\n    <div class=\"row link-row home-link-row\">\n      <div><b>"),
    .escaped (textOr x.title x.slug), .markup (lit "</b><a href=\""), .escaped x.shortUrl,
    .markup (lit "\" target=\"_blank\" rel=\"noopener\">"), .escaped x.shortUrl,
    .markup (lit "</a><div class=\"tiny\">"), .plain (number x.clicks),
    .markup (lit " clicks · "), .escaped (visibilityLabel x),
    .markup (lit "</div></div>\n      <button class=\"secondary\" onclick=\"openLinkReport("),
    .plain (number x.id),
    .markup (lit ")\">Report</button>\n      <button class=\"secondary\" onclick=\"qrForLink("),
    .plain (number x.id), .markup (lit ")\">QR</button>\n    </div>")]

def homeLinks (xs : List LinkItem) : Str :=
  textOr (rows homeLinkRow xs)
    (lit "<div class=\"empty\">No links yet. Create first link above.</div>")

def creatorLine (x : LinkItem) : Template :=
  if x.creatorName = [] then [] else
    [.markup (lit "<div class=\"tiny\">Created by "), .escaped x.creatorName,
      .markup (lit " &middot; "), .escaped x.creatorEmail, .markup (lit "</div>")]

def editButton (currentUser : Option CurrentUser) (x : LinkItem) : Template :=
  if canManageLink currentUser x then
    [.markup (lit "<button class=\"secondary\" onclick=\"editLink("), .plain (number x.id),
      .markup (lit ")\">Edit</button>")]
  else []

/-- A button that deletes, or one that says why it does not. -/
def deleteButton (allowed : Bool) (f : Str) (id : ℤ) (label locked why : Str) : Template :=
  if allowed then
    [.markup (lit "<button class=\"danger\" onclick=\"" ++ f ++ lit "("), .plain (number id),
      .markup (lit ")\">" ++ label ++ lit "</button>")]
  else
    [.markup (lit "<button class=\"danger\" disabled title=\"" ++ why ++ lit "\">" ++ locked ++
      lit "</button>")]

def deleteLinkButton (currentUser : Option CurrentUser) (x : LinkItem) : Template :=
  if canManageLink currentUser x then
    deleteButton (canDelete currentUser) (lit "delLink") x.id (lit "Delete") (lit "Delete locked")
      (lit "Deletion access must be activated by a superadmin")
  else []

/-- `loadLinks`. -/
def linkRow (locale : LocaleText) (currentUser : Option CurrentUser) (x : LinkItem) : Template :=
  [.markup (lit "\n    <div class=\"row link-row\">\n      <div>\n        <b>"),
    .escaped (textOr x.title x.slug), .markup (lit "</b>\n        <a href=\""),
    .escaped x.shortUrl, .markup (lit "\" target=\"_blank\" rel=\"noopener\">"),
    .escaped x.shortUrl, .markup (lit "</a>\n        <div class=\"tiny\">"),
    .plain (number x.clicks), .markup (lit " clicks · "), .escaped (visibilityLabel x),
    .markup (lit "</div>\n        <div class=\"tiny\">Created "), .plain (locale.date x.createdAt),
    .markup (lit "</div>\n        <div class=\"tiny original-url\">"), .escaped x.targetUrl,
    .markup (lit ("</div>\n        <button type=\"button\" class=\"url-toggle\" " ++
      "aria-expanded=\"false\" onclick=\"toggleTargetURL(this)\">Show full URL</button>\n        ")),
    .html (creatorLine x).html,
    .markup (lit "\n      </div>\n      <button class=\"secondary\" onclick=\"openLinkReport("),
    .plain (number x.id), .markup (lit ")\">Report</button>\n      "),
    .html (editButton currentUser x).html,
    .markup (lit "\n      <button class=\"secondary\" onclick=\"qrForLink("),
    .plain (number x.id), .markup (lit ")\">QR</button>\n      "),
    .html (deleteLinkButton currentUser x).html, .markup (lit "\n    </div>")]

def links (locale : LocaleText) (currentUser : Option CurrentUser) (xs : List LinkItem) : Str :=
  textOr (rows (linkRow locale currentUser) xs)
    (lit "<div class=\"empty\">No links yet. Create first link above.</div>")

/-- `loadKeys`. -/
def keyRow (locale : LocaleText) (currentUser : Option CurrentUser) (k : KeyItem) : Template :=
  [.markup (lit "\n    <div class=\"row one-action\">\n      <div><b>"), .escaped k.name,
    .markup (lit "</b><div class=\"tiny\">"), .escaped k.keyPrefix, .markup (lit " · "),
    .escaped k.scope, .markup (lit " scope · "), .plain (locale.date k.createdAt),
    .markup (lit "</div></div>\n      "),
    .html (deleteButton (canDelete currentUser) (lit "delKey") k.id (lit "Revoke")
      (lit "Revoke locked") (lit "Deletion access required")).html,
    .markup (lit "\n    </div>")]

def keys (locale : LocaleText) (currentUser : Option CurrentUser) (xs : List KeyItem) : Str :=
  textOr (rows (keyRow locale currentUser) xs) (lit "<div class=\"empty\">No API keys.</div>")

/-- `loadTenants`. -/
def tenantRow (t : TenantItem) : Template :=
  [.markup (lit "<div class=\"row no-actions\"><div><b>"), .escaped t.name,
    .markup (lit "</b><div class=\"tiny\">id "), .plain (number t.id), .markup (lit " · "),
    .escaped t.slug, .markup (lit "</div></div></div>")]

def tenants (xs : List TenantItem) : Str :=
  textOr (rows tenantRow xs) (lit "<div class=\"empty\">No departments.</div>")

def tenantOption (t : TenantItem) : Template :=
  [.markup (lit "<option value=\""), .plain (number t.id), .markup (lit "\">"), .escaped t.name,
    .markup (lit " ("), .escaped t.slug, .markup (lit ")</option>")]

def ownTenant (currentUser : CurrentUser) : Template :=
  [.markup (lit "<option value=\""), .plain (numberOr currentUser.tenantId nothing),
    .markup (lit "\">department "), .plain (numberOr currentUser.tenantId dash),
    .markup (lit "</option>")]

/-- The departments to choose from, in `setupCustomerForm` and `loadDomains`. -/
def tenantOptions (currentUser : CurrentUser) (tenantCache : List TenantItem) : Str :=
  if currentUser.role = lit "tenant" then (ownTenant currentUser).html
  else lit "<option value=\"\">select department</option>" ++ rows tenantOption tenantCache

/-- `loadDomains`. -/
def domainRow (currentUser : Option CurrentUser) (d : DomainItem) : Template :=
  [.markup (lit "\n    <div class=\"row\">\n      <div><b>"), .escaped d.domain,
    .markup (lit "</b><div class=\"tiny\">"), .escaped d.status, .markup (lit " · department "),
    .plain (number d.tenantId), .markup (lit "<br>TXT _shortq."), .escaped d.domain,
    .markup (lit " = shortq-verify="), .escaped d.verificationToken,
    .markup (lit "</div></div>\n      <button class=\"secondary\" onclick=\"verifyDomain("),
    .plain (number d.id), .markup (lit ")\">Verify</button>\n      "),
    .html (deleteButton (canDelete currentUser) (lit "delDomain") d.id (lit "Delete")
      (lit "Delete locked") (lit "Deletion access required")).html,
    .markup (lit "\n    </div>")]

def domains (currentUser : Option CurrentUser) (xs : List DomainItem) : Str :=
  textOr (rows (domainRow currentUser) xs) (lit "<div class=\"empty\">No custom domains.</div>")

def activeLabel (u : UserItem) : Inert :=
  ⟨if u.active then lit "active" else lit "inactive", inert_active u.active⟩

def deletionLabel (u : UserItem) : Inert :=
  ⟨if u.role = lit "superadmin" then lit "always allowed"
    else if u.deletionAccess then lit "enabled" else lit "locked",
    by simpa using inert_deletion (u.role = lit "superadmin") u.deletionAccess⟩

def dangerClass (u : UserItem) : Inert :=
  ⟨if u.deletionAccess then lit "danger" else lit "secondary", inert_danger u.deletionAccess⟩

def toggleLabel (u : UserItem) : Inert :=
  ⟨if u.deletionAccess then lit "Disable deletion" else lit "Enable deletion",
    inert_toggle u.deletionAccess⟩

def deletionToggle (currentUser : CurrentUser) (u : UserItem) : Template :=
  if currentUser.role = lit "superadmin" && u.role ≠ lit "superadmin" then
    [.markup (lit "<button class=\""), .plain (dangerClass u),
      .markup (lit "\" onclick=\"setDeletionAccess("), .plain (number u.id), .markup (lit ", "),
      .plain (flag !u.deletionAccess), .markup (lit ")\">"), .plain (toggleLabel u),
      .markup (lit "</button>")]
  else []

/-- `loadCustomers`. -/
def customerRow (currentUser : CurrentUser) (u : UserItem) : Template :=
  [.markup (lit "<div class=\"row\"><div><b>"), .escaped u.name,
    .markup (lit "</b><div class=\"tiny\">"), .escaped u.email, .markup (lit " · "),
    .escaped (roleLabel u.role), .markup (lit " · department "),
    .plain (numberOr u.tenantId dash), .markup (lit " · "), .plain (activeLabel u),
    .markup (lit " · deletion "), .plain (deletionLabel u),
    .markup (lit "</div></div><button class=\"secondary\" onclick=\"openUserReport("),
    .plain (number u.id), .markup (lit ")\">Report</button>"),
    .html (deletionToggle currentUser u).html, .markup (lit "</div>")]

def customers (currentUser : CurrentUser) (xs : List UserItem) : Str :=
  textOr (rows (customerRow currentUser) xs) (lit "<div class=\"empty\">No matching users.</div>")

/-- `loadAuditEvents`. -/
def auditRow (locale : LocaleText) (e : AuditItem) : Template :=
  [.markup (lit "<div class=\"row no-actions\"><div><b>"), .escaped e.action,
    .markup (lit " · "), .escaped e.outcome, .markup (lit "</b><div class=\"tiny\">"),
    .plain (locale.date e.createdAt), .markup (lit " · "), .escaped e.actorEmail,
    .markup (lit " via "), .escaped e.authType, .markup (lit " · "), .escaped e.targetType,
    .markup (lit " "), .escaped e.targetId, .markup (lit " · "),
    .escaped (textOr e.ipAddress (lit "-")), .markup (lit "</div></div></div>")]

def auditEvents (locale : LocaleText) (xs : List AuditItem) : Str :=
  textOr (rows (auditRow locale) xs)
    (lit "<div class=\"empty\">No matching audit events.</div>")

/-- `loadClicks`. -/
def breakdownCell (x : PointItem) : Template :=
  [.markup (lit "<div><b>"), .plain (number x.clicks), .markup (lit "</b><span>"),
    .escaped (textOr x.key (lit "unknown")), .markup (lit "</span></div>")]

def breakdown (xs : List PointItem) : Str := rows breakdownCell (xs.take 6)

def clickRow (locale : LocaleText) (x : ClickItem) : Template :=
  [.markup (lit "<div class=\"row no-actions\"><div><b>/"), .escaped x.slug,
    .markup (lit "</b><div class=\"tiny\">"), .plain (locale.date x.createdAt),
    .markup (lit " · "), .escaped (textOr x.countryCode (lit "unknown")), .markup (lit " · "),
    .escaped x.device, .markup (lit " · "), .escaped x.browser, .markup (lit " · "),
    .escaped x.routeType, .markup (lit " → "), .plain (number x.statusCode),
    .markup (lit "</div></div></div>")]

def clicks (locale : LocaleText) (xs : List ClickItem) : Str :=
  textOr (rows (clickRow locale) xs) (lit "<div class=\"empty\">No click events yet.</div>")

/-- `Object.entries` of the figures, without the zeros. -/
def statEntries (a : Overview.Analytics) : List (Str × ℤ) :=
  [(lit "total_links", a.totalLinks), (lit "total_clicks", a.totalClicks),
    (lit "today_clicks", a.todayClicks), (lit "total_tenants", a.totalTenants),
    (lit "total_users", a.totalUsers)].filter fun e => e.2 ≠ 0

/-- `k.replaceAll('_', ' ')`. -/
def spaced (k : Str) : Str := k.map fun b => if b = 95 then 32 else b

/-- `loadStats`. -/
def statCell (e : Str × ℤ) : Template :=
  [.markup (lit "<div><b>"), .plain (number e.2), .markup (lit "</b><span>" ++ spaced e.1),
    .markup (lit "</span></div>")]

def stats (a : Overview.Analytics) : Str :=
  textOr (rows statCell (statEntries a)) (lit "<div><b>0</b><span>No activity yet</span></div>")

end DashboardViews
