import ShortQ.AdminHandlers
import ShortQ.SignedTokens

/-! # Who sends a request

API keys, session cookies and bearer tokens, the routes behind them, and the system that serves
one request after the other. -/
namespace Authentication

open AccountRows
open AdminHandlers
open AuditLog
open AuditedHandlers
open GoText
open GoTime (Time)
open Hosts
open HttpRequest (Request)
open LinkScopes
open Models
open RowTable
open Schema
open SignedTokens
open TenantDomains
open Transaction

/-- The configuration, and the functions of other packages that the handlers call. -/
structure Deployment where
  server : Server
  mac : Str → Str
  SHA256Hex : Str → Str
  EqualFold : Str → Str → Bool
  devAuthBypass : Bool
  devAuthEmail : Str
  oidcAllowedDomain : Str
  oidcAllowedEmail : Str

def Deployment.toLower (d : Deployment) : Str → Str := d.server.unicode.toLower

def Deployment.allowedMicrosoftUser (d : Deployment) (email : Str) : Bool :=
  let email := d.toLower (trimSpace email)
  let allowedDomain := trimPrefix [64] (d.toLower (trimSpace d.oidcAllowedDomain))
  let allowed := d.toLower (trimSpace d.oidcAllowedEmail)
  (allowedDomain ≠ [] && ([64] ++ allowedDomain).isSuffixOf email) ||
    (allowed ≠ [] && email = allowed)

def Deployment.devAuthAllows (d : Deployment) (email : Str) : Bool :=
  d.devAuthBypass && d.EqualFold (trimSpace email) (trimSpace d.devAuthEmail)

/-! ## Requests -/

/-- The endpoints that answer a caller and write nothing but logs. -/
inductive Reading where
  | changePassword | me | analytics | analyticsTimeseries | analyticsBreakdown | linkReports
  | userReports | clicks | tenants | domains | customers | auditEvents | adminRuntime | exportLinks
  | methodNotAllowed
  deriving DecidableEq, Repr

structure MicrosoftClaims where
  email : Str
  preferredUsername : Str
  name : Str

/-- What a request asks for. A redirect may count a click, and unlock a link by its password; of
the callback the verified claims are given, none where the login is not completed. -/
inductive Route where
  | health | register | login | forgot | qr | logout | methodNotAllowed
  | redirect (db : Database) (unlocked : Option (Int64 × Time))
  | docs
  | index
  | microsoftLogin
  | microsoftCallback (verified : Option MicrosoftClaims) (tenant : Except Err ℤ)
  | sessionMode (mode : Option Str)
  | read (page : Reading)
  | listKeys
  | admin (q : AdminRequest)

structure Incoming where
  xAPIKey : Str
  authorization : Str
  session : Option Str
  request : Request
  /-- The clock, in seconds. -/
  now : Int64
  /-- The lookup of the sender. -/
  sender : Script
  calls : Calls
  route : Route

structure APIKey where
  id : ℤ
  name : Str
  start : Str
  scope : Str
  deriving DecidableEq, Repr

inductive Answer where
  | page
  | loginRedirect
  | ssoRequired
  | written (r : Response)
  | keys (keys : List APIKey)

/-- What became of a request: the principal the handler ran with, and the answer. -/
structure Reply where
  principal : Option Principal := none
  answer : Answer

/-- The tables, and the tokens that were handed out. -/
structure System where
  world : World
  granted : List Issue

/-! ## Store calls -/

def userOf (r : UserRow) : User := ⟨r.id, r.tenantId, r.role⟩

def userByAPIKey (io : Script) (s : Accounts) (hash : Str) : Except Err (UserRow × Str) :=
  io.call 0 (match s.keys.find fun k => k.keyHash = hash && k.revokedAt.isNone with
    | none => .error .noRows
    | some k =>
      match s.users.find fun u => u.id = k.userId && u.active with
      | none => .error .noRows
      | some u => .ok (u, k.scope))

def listAPIKeys (io : Script) (s : Accounts) (userId : ℤ) (scope : Str) :
    Except Err (List APIKey) :=
  io.call 0 (.ok (((s.keys.rows.filter fun k => k.userId = userId && k.revokedAt.isNone &&
    (scope ≠ lit "user" || k.scope = lit "user")).map fun k =>
      APIKey.mk k.id k.name k.keyPrefix k.scope).mergeSort fun a b => b.id ≤ a.id))

/-! ## Senders -/

def apiKeyFromRequest (q : Incoming) : Str :=
  let key := trimSpace q.xAPIKey
  if key ≠ [] then key
  else
    let authHeader := trimSpace q.authorization
    if authHeader = [] || (lit "Bearer ").isPrefixOf authHeader then [] else authHeader

def bearerOf (q : Incoming) : Str := trimPrefix (lit "Bearer ") q.authorization

def userFromSession (d : Deployment) (s : System) (q : Incoming) : Option (UserRow × Principal) :=
  match q.session.bind (ParseJWT d.mac q.now) with
  | none => none
  | some claims =>
    match userByID q.sender s.world.accounts claims.userId.toInt with
    | .error _ => none
    | .ok u =>
      if !u.active then none
      else if !d.allowedMicrosoftUser u.email && !d.devAuthAllows u.email then none
      else some (u, effectivePrincipal (userOf u) claims.mode (lit "session"))

/-- The sender with its principal, or the answer that turns the request away. -/
def withAuth (d : Deployment) (s : System) (q : Incoming) : Except Answer (UserRow × Principal) :=
  if apiKeyFromRequest q ≠ [] then
    match userByAPIKey q.sender s.world.accounts (d.SHA256Hex (apiKeyFromRequest q)) with
    | .error _ => .error (.written (errOut 401 "auth required"))
    | .ok (u, scope) =>
      if u.active && d.allowedMicrosoftUser u.email then
        let mode := if scope = lit "user" then lit "user" else defaultDashboardMode (userOf u)
        .ok (u, effectivePrincipal (userOf u) mode (lit "api_key"))
      else .error (.written (errOut 401 "auth required"))
  else
    match userFromSession d s q with
    | some sender => .ok sender
    | none =>
      match ParseJWT d.mac q.now (bearerOf q) with
      | none => .error .ssoRequired
      | some claims =>
        match userByID q.sender s.world.accounts claims.userId.toInt with
        | .error _ => .error (.written (errOut 401 "auth required"))
        | .ok u =>
          if u.active && d.allowedMicrosoftUser u.email then
            .ok (u, effectivePrincipal (userOf u) claims.mode (lit "bearer"))
          else .error (.written (errOut 401 "auth required"))

/-- What the handlers read of the sender. None where a row does not keep to its column. -/
def callerOf (q : Incoming) (u : UserRow) (p : Principal) : Option Caller :=
  if h : varchar 190 u.email = some u.email ∧
      p.authType ∈ [lit "session", lit "bearer", lit "api_key"] then
    some ⟨p, u.email, u.deletionAccess, q.request, h.1, h.2⟩
  else none

/-! ## Handlers -/

/-- The claims of a session of 24 hours. -/
def sessionClaims (q : Incoming) (u : UserRow) (mode : Str) : Claims :=
  ⟨Int64.ofInt u.id, u.email, mode, q.now + 86400⟩

def System.grant (s : System) (q : Incoming) (u : UserRow) (mode : Str) : System :=
  { s with granted := s.granted ++ [.jwt (sessionClaims q u mode)] }

def sessionMode (d : Deployment) (s : System) (q : Incoming) (mode : Option Str) : Reply × System :=
  match userFromSession d s q with
  | none => ({ answer := .ssoRequired }, s)
  | some (u, p) =>
    if !canSwitchMode p.actual then
      (⟨some p, .written (errOut 403 "admin account required")⟩, s)
    else
      match mode with
      | none => (⟨some p, .written (errOut 400 "bad json")⟩, s)
      | some mode =>
        if mode ≠ lit "admin" && mode ≠ lit "user" then
          (⟨some p, .written (errOut 400 "mode must be admin or user")⟩, s)
        else (⟨some p, .page⟩, s.grant q u mode)

def devAuthLogin (d : Deployment) (s : System) (q : Incoming) : Reply × System :=
  let email := d.toLower (trimSpace d.devAuthEmail)
  if email = [] then ({ answer := .written (errOut 500 "dev auth not configured") }, s)
  else
    match userByEmail q.sender d.server.unicode s.world.accounts email with
    | .error _ => ({ answer := .written (errOut 500 "dev auth user unavailable") }, s)
    | .ok u => ({ answer := .page }, s.grant q u (defaultDashboardMode (userOf u)))

def microsoftLogin (d : Deployment) (s : System) (q : Incoming) : Reply × System :=
  if d.devAuthBypass then devAuthLogin d s q else ({ answer := .loginRedirect }, s)

/-- `ensureSSOUser`, with the accounts it leaves. -/
def ensureSSOUser (d : Deployment) (s : System) (q : Incoming) (tenant : Except Err ℤ)
    (email name : Str) : Except Err UserRow × Accounts :=
  match userByEmail q.calls.before d.server.unicode s.world.accounts email with
  | .ok u => (.ok u, s.world.accounts)
  | .error e =>
    if e ≠ .noRows then (.error e, s.world.accounts)
    else
      match tenant with
      | .error e => (.error e, s.world.accounts)
      | .ok tenant =>
        let name := if trimSpace name = [] then email else name
        match createUser q.calls.io d.server.unicode s.world.domains.tenants s.world.accounts email
            name .customer (some tenant) q.calls.passwordHash with
        | (some e, accounts) => (.error e, accounts)
        | (none, accounts) =>
          (userByEmail q.calls.after d.server.unicode accounts email, accounts)

def provisionedEvent (q : Incoming) (u : UserRow) : AuditEvent where
  actorUserId := u.id
  actorEmail := u.email
  authType := lit "session"
  action := lit "user.provisioned"
  targetType := lit "user"
  targetId := formatInt u.id
  outcome := .success
  before := none
  after := some (userAudit (.ok u))
  ipAddress := HttpRequest.visitorIP q.request
  userAgent := q.request.userAgent

/-- `microsoftCallback` once the email is allowed. -/
def completeLogin (d : Deployment) (s : System) (q : Incoming) (tenant : Except Err ℤ)
    (email name : Str) : Reply × System :=
  let found := userByEmail q.sender d.server.unicode s.world.accounts email
  let (result, accounts) := ensureSSOUser d s q tenant email name
  let s := { s with world := { s.world with accounts := accounts } }
  match result with
  | .error _ => ({ answer := .written (errOut 500 "sso user setup failed") }, s)
  | .ok u =>
    match found with
    | .error .noRows =>
      match recordAudit q.calls.audit accounts s.world.audits (provisionedEvent q u) with
      | (some _, log) => ({ answer := .written (errOut 500 "audit log unavailable") },
          { s with world := { s.world with audits := log } })
      | (none, log) => ({ answer := .page },
          { s with world := { s.world with audits := log } }.grant q u
            (defaultDashboardMode (userOf u)))
    | _ => ({ answer := .page }, s.grant q u (defaultDashboardMode (userOf u)))

def microsoftCallback (d : Deployment) (s : System) (q : Incoming)
    (verified : Option MicrosoftClaims) (tenant : Except Err ℤ) : Reply × System :=
  match verified with
  | none => ({ answer := .written (errOut 401 "sso exchange failed") }, s)
  | some claims =>
    let email := d.toLower (trimSpace claims.email)
    let email := if email = [] then d.toLower (trimSpace claims.preferredUsername) else email
    if d.allowedMicrosoftUser email then completeLogin d s q tenant email claims.name
    else ({ answer := .written (errOut 403 "user not allowed") }, s)

def redirect (s : System) (db : Database) (unlocked : Option (Int64 × Time)) : Reply × System :=
  ({ answer := .page },
    { world := { s.world with db := db }
      granted := s.granted ++ unlocked.toList.map fun (linkId, expires) =>
        .linkAccess linkId expires })

/-- `apiKeys` on GET. -/
def listKeys (s : System) (q : Incoming) (c : Caller) : Answer :=
  match listAPIKeys q.calls.io s.world.accounts c.principal.actual.id (keyScopeOf c) with
  | .error e => .written ⟨500, .error [] (.store e)⟩
  | .ok keys => .keys keys

/-- What runs behind `withAuth`. -/
inductive Guarded where
  | read (page : Reading)
  | listKeys
  | admin (q : AdminRequest)

def guarded (d : Deployment) (s : System) (q : Incoming) (g : Guarded) : Option (Reply × System) :=
  match withAuth d s q with
  | .error answer => some ({ answer := answer }, s)
  | .ok (u, p) =>
    (callerOf q u p).map fun c =>
      match g with
      | .read _ => (⟨some p, .page⟩, s)
      | .listKeys => (⟨some p, listKeys s q c⟩, s)
      | .admin a =>
        let (response, world) := AdminHandlers.serve d.server s.world c q.calls a
        (⟨some p, .written response⟩, { s with world := world })

/-- One request. -/
def serve (d : Deployment) (s : System) (q : Incoming) : Option (Reply × System) :=
  match q.route with
  | .health | .qr | .logout => some ({ answer := .page }, s)
  | .register =>
    some (⟨none, .written (errOut 410 "password registration disabled; use Microsoft SSO")⟩, s)
  | .login => some (⟨none, .written (errOut 410 "password login disabled; use Microsoft SSO")⟩, s)
  | .forgot => some (⟨none, .written (errOut 410 "password reset disabled; use Microsoft SSO")⟩, s)
  | .methodNotAllowed => some (⟨none, .written ⟨405, .empty⟩⟩, s)
  | .redirect db unlocked => some (redirect s db unlocked)
  | .docs =>
    match userFromSession d s q with
    | none => some ({ answer := .loginRedirect }, s)
    | some (_, p) => some (⟨some p, .page⟩, s)
  | .index =>
    match userFromSession d s q with
    | none => some ({ answer := .loginRedirect }, s)
    | some _ => some ({ answer := .page }, s)
  | .microsoftLogin => some (microsoftLogin d s q)
  | .microsoftCallback verified tenant => some (microsoftCallback d s q verified tenant)
  | .sessionMode mode => some (sessionMode d s q mode)
  | .read page => guarded d s q (.read page)
  | .listKeys => guarded d s q .listKeys
  | .admin a => guarded d s q (.admin a)

/-- A request of the client that is watched, one of somebody else, or a change of the table of
users by hand. -/
inductive Event where
  | request (q : Incoming)
  | other (q : Incoming)
  | alterUsers (users : Table UserRow userClash)

/-- The tokens that somebody else is given are not the client's. -/
def next (d : Deployment) (s : System) : Event → Option System
  | .request q => (serve d s q).map Prod.snd
  | .other q => (serve d s q).map fun r => { r.2 with granted := s.granted }
  | .alterUsers users =>
    some { s with world := { s.world with accounts := { s.world.accounts with users := users } } }

end Authentication
