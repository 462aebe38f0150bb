import ShortQ.LinkHandlers

/-! # The endpoints of the administration

Users, domains and API keys. A path that names no number arrives as 0. -/
namespace AdminHandlers

open AccountRows
open AuditLog
open AuditedHandlers
open GoText
open Hosts
open LinkHandlers
open LinkValidation
open Models
open Schema
open TenantDomains
open Transaction

/-! The store calls on domains, each one statement. -/

/-- `CreateTenantDomain` up to its read. -/
def createDomainWrite (io : Script) (unicode : Unicode) (s : Domains) (u : User) (tenantId : ℤ)
    (domain token : Str) : Option Err × Domains :=
  match createTenantDomain unicode s u tenantId domain token with
  | (some e, after) => (some e, after)
  | (none, after) => statement io s (.ok after)

def verifyWrite (io : Script) (s : Domains) (id : ℤ) : Option Err × Domains :=
  statement io s (.ok (setTenantDomainVerified s id true (nowOf io)))

/-- `UpdateTenantDomain` up to its read. -/
def updateDomainWrite (io : Script) (s : Domains) (u : User) (id : ℤ) (url : Str) :
    Option Err × Domains :=
  match if url = [] then none else validHTTPURL url with
  | some text => (some (.rejected text), s)
  | none =>
    match domainScope u with
    | none => (some (.rejected (lit "tenant or superadmin only")), s)
    | some scope =>
      match statement io s (if (text url).isSome then .ok (updateTenantDomain s u id url)
        else .error .schema) with
      | (some e, s) => (some e, s)
      | (none, after) =>
        (if s.table.affected (fun d => d.id = id && scope d) = 0 then some .noRows else none, after)

def deleteDomainWrite (io : Script) (s : Domains) (u : User) (id : ℤ) : Option Err × Domains :=
  match domainScope u with
  | none => (some (.rejected (lit "tenant or superadmin only")), s)
  | some _ => statement io s (.ok (deleteTenantDomain s u id))

def readDomain (io : Script) (found : Option DomainRow) : Except Err DomainRow :=
  io.call 0 (match found with
    | some d => .ok d
    | none => .error .noRows)

/-! Users. -/

/-- What `models.User` keeps of a row. -/
def publicUser (r : UserRow) : UserRow := { r with passwordHash := [] }

/-- The two PATCH handlers of `customerByID`; `write` is their store call. -/
def changeUser (w : World) (c : Caller) (calls : Calls) (user : ℤ)
    (write : Option Err × Accounts) (failed : Err → Response) (action : Str) : Ending × World :=
  if c.user.role ≠ .superadmin then (.respond (errOut 403 "superadmin only"), w)
  else if user < 1 then (.respond (errOut 400 "invalid user id"), w)
  else
    match userByID calls.before w.accounts user with
    | .error _ => (.respond (errOut 404 "user not found"), w)
    | .ok before =>
      match write with
      | (some e, accounts) => (.respond (failed e), { w with accounts := accounts })
      | (none, accounts) =>
        let w := { w with accounts := accounts }
        match userByID calls.after accounts user with
        | .error e => (.respond (failed e), w)
        | .ok after =>
          (.record (c.event action (lit "user") (formatInt user) .success
            (some (userAudit (.ok before))) (some (userAudit (.ok after))))
            ⟨200, .user (publicUser after)⟩ id, w)

def setActive (w : World) (c : Caller) (calls : Calls) (user : ℤ) (active : Bool) :
    Ending × World :=
  changeUser w c calls user (setUserActiveWrite calls.io w.accounts user active)
    (fun _ => errOut 500 "user status update failed") (lit "user.active_changed")

def setDeletionAccess (w : World) (c : Caller) (calls : Calls) (user : ℤ) (enabled : Bool) :
    Ending × World :=
  changeUser w c calls user (setDeletionAccessWrite calls.io w.accounts user enabled)
    (fun e => ⟨500, .error [] (.store e)⟩) (lit "user.deletion_access_changed")

structure NewUser where
  email : Str
  name : Str
  password : Str
  role : Str
  tenantId : Option ℤ

/-- The role and the tenant a new user gets, or why there is none. -/
def NewUser.place (n : NewUser) (u : User) : Except String (Role × Option ℤ) :=
  let role := if n.role = [] then lit "customer" else n.role
  let role := if u.role = .tenant then lit "customer" else role
  let tenantId := if u.role = .tenant then u.tenantId else n.tenantId
  if u.role = .superadmin && role = lit "superadmin" then
    .error "superadmin creation disabled here"
  else if role = lit "customer" || role = lit "tenant" then
    if tenantId = none then .error "tenant_id required"
    else .ok (if role = lit "tenant" then .tenant else .customer, tenantId)
  else .error "role must be tenant or customer"

/-- `customers` on POST. Whether the new user can be read is not looked at. -/
def customers (server : Server) (w : World) (c : Caller) (calls : Calls) (n : NewUser) :
    Ending × World :=
  if c.user.role = .customer then (.respond (errOut 403 "tenant or superadmin only"), w)
  else
    match n.place c.user with
    | .error text => (.respond (errOut 400 text), w)
    | .ok (role, tenantId) =>
      if n.password.length < 8 then (.respond (errOut 400 "password min 8 chars"), w)
      else
        match createUser calls.io server.unicode w.domains.tenants w.accounts n.email n.name role
            tenantId calls.passwordHash with
        | (some e, accounts) =>
          (.respond ⟨400, .error [] (.store e)⟩, { w with accounts := accounts })
        | (none, accounts) =>
          let created := userByEmail calls.after server.unicode accounts n.email
          (.record (c.event (lit "user.created") (lit "user")
            (formatInt (created.toOption.elim 0 UserRow.id)) .success none
            (some (userAudit created))) ⟨201, .message (lit "user created")⟩ id,
            { w with accounts := accounts })

/-! Domains. -/

/-- `domains` on POST. -/
def createDomain (server : Server) (w : World) (c : Caller) (calls : Calls) (tenantId : ℤ)
    (domain : Str) : Ending × World :=
  let tenantId := if c.user.role = .tenant then c.user.tenantId.getD tenantId else tenantId
  match createDomainWrite calls.io server.unicode w.domains c.user tenantId domain calls.token with
  | (some e, domains) => (.respond ⟨400, .error [] (.store e)⟩, { w with domains := domains })
  | (none, domains) =>
    let w := { w with domains := domains }
    match readDomain calls.after (tenantDomainByDomain server.unicode domains
        (cleanDomain server.unicode domain)) with
    | .error e => (.respond ⟨400, .error [] (.store e)⟩, w)
    | .ok d =>
      (.record (c.event (lit "domain.created") (lit "domain") (formatInt d.id) .success none
        (some (domainAudit (.ok d)))) ⟨201, .domain d⟩ id, w)

/-- The check `domainByID` starts with. -/
def forAdmins (w : World) (c : Caller) (rest : Ending × World) : Ending × World :=
  if c.user.role ≠ .tenant && c.user.role ≠ .superadmin then
    (.respond (errOut 403 "tenant or superadmin only"), w)
  else rest

/-- `domainByID` on `/verify`; the second read is not looked at either. -/
def verifyDomainByID (server : Server) (w : World) (c : Caller) (calls : Calls) (domain : ℤ) :
    Ending × World :=
  forAdmins w c <|
    match readDomain calls.before (tenantDomainByID w.domains c.user domain) with
    | .error _ => (.respond (errOut 404 "domain not found"), w)
    | .ok d =>
      if !verifyDomain server.base d calls.texts then
        (.respond (errOut 400 "DNS not verified yet"), w)
      else
        match verifyWrite calls.io w.domains domain with
        | (some _, domains) =>
          (.respond (errOut 500 "domain activation failed"), { w with domains := domains })
        | (none, domains) =>
          (.record (c.event (lit "domain.verified") (lit "domain") (formatInt domain) .success
            (some (domainAudit (.ok d)))
            (some (domainAudit (readDomain calls.after (tenantDomainByID domains c.user domain)))))
            ⟨200, .message (lit "domain verified")⟩ id, { w with domains := domains })

/-- `domainByID` on PATCH and PUT. -/
def patchDomain (w : World) (c : Caller) (calls : Calls) (domain : ℤ) (notFoundUrl : Str) :
    Ending × World :=
  forAdmins w c <|
    match readDomain calls.before (tenantDomainByID w.domains c.user domain) with
    | .error _ => (.respond (errOut 404 "domain not found"), w)
    | .ok before =>
      match updateDomainWrite calls.io w.domains c.user domain (trimSpace notFoundUrl) with
      | (some e, domains) => (.respond ⟨400, .error [] (.store e)⟩, { w with domains := domains })
      | (none, domains) =>
        let w := { w with domains := domains }
        match readDomain calls.after (tenantDomainByID domains c.user domain) with
        | .error e => (.respond ⟨400, .error [] (.store e)⟩, w)
        | .ok after =>
          (.record (c.event (lit "domain.updated") (lit "domain") (formatInt domain) .success
            (some (domainAudit (.ok before))) (some (domainAudit (.ok after))))
            ⟨200, .domain after⟩ id, w)

/-- `domainByID` on DELETE. -/
def deleteDomain (w : World) (c : Caller) (calls : Calls) (domain : ℤ) : Ending × World :=
  forAdmins w c <| w.requireDelete c (lit "domain.deleted") (lit "domain") (formatInt domain) <|
    match readDomain calls.before (tenantDomainByID w.domains c.user domain) with
    | .error _ => (.respond (errOut 404 "domain not found"), w)
    | .ok before =>
      match deleteDomainWrite calls.io w.domains c.user domain with
      | (some _, domains) =>
        (.respond (errOut 404 "domain not found"), { w with domains := domains })
      | (none, domains) =>
        (.record (c.event (lit "domain.deleted") (lit "domain") (formatInt domain) .success
          (some (domainAudit (.ok before))) none) ⟨204, .empty⟩ id, { w with domains := domains })

/-! API keys. -/

def keyScopeOf (c : Caller) : Str :=
  if c.principal.mode = lit "user" then lit "user" else lit "account"

def revokeAfter (c : Caller) (calls : Calls) (key : ℤ) (w : World) : World :=
  { w with
    accounts := (revokeAPIKey calls.revoke w.accounts c.principal.actual.id key (keyScopeOf c)).2 }

/-- `apiKeys` on POST. Here a failed audit revokes the key. -/
def apiKeys (w : World) (c : Caller) (calls : Calls) (name : Str) : Ending × World :=
  if c.principal.authType ≠ lit "session" then
    (.respond (errOut 403 "API keys may only be created from an SSO session"), w)
  else
    let name := trimSpace name
    if name = [] || 120 < name.length then
      (.respond (errOut 400 "name must contain 1 to 120 characters"), w)
    else
      match calls.key with
      | .error text => (.respond ⟨500, .error [] (.rejected text)⟩, w)
      | .ok k =>
        match createAPIKey calls.io w.accounts c.principal.actual.id name k.hash k.start
            (keyScopeOf c) with
        | ((some e, _), accounts) =>
          (.respond ⟨500, .error [] (.store e)⟩, { w with accounts := accounts })
        | ((none, key), accounts) =>
          (.record (c.event (lit "api_key.created") (lit "api_key") k.start .success none
            (some (.key name k.start (keyScopeOf c))))
            ⟨201, .key key name k.start (keyScopeOf c)⟩ (revokeAfter c calls key),
            { w with accounts := accounts })

/-- `apiKeyByID`. -/
def apiKeyByID (w : World) (c : Caller) (calls : Calls) (key : ℤ) : Ending × World :=
  w.requireDelete c (lit "api_key.revoked") (lit "api_key") (formatInt key) <|
    match revokeAPIKey calls.io w.accounts c.principal.actual.id key (keyScopeOf c) with
    | (some _, accounts) =>
      (.respond (errOut 404 "API key not found"), { w with accounts := accounts })
    | (none, accounts) =>
      (.record (c.event (lit "api_key.revoked") (lit "api_key") (formatInt key) .success
        (some (.revoked key (keyScopeOf c))) none) ⟨204, .empty⟩ id,
          { w with accounts := accounts })

/-! Requests. -/

inductive AdminRequest where
  | link (q : LinkRequest)
  | createUser (n : NewUser)
  | setActive (user : ℤ) (active : Bool)
  | setDeletionAccess (user : ℤ) (enabled : Bool)
  | createDomain (tenantId : ℤ) (domain : Str)
  | verifyDomain (domain : ℤ)
  | patchDomain (domain : ℤ) (notFoundUrl : Str)
  | deleteDomain (domain : ℤ)
  | createKey (name : Str)
  | revokeKey (key : ℤ)

/-- A request up to its audit. -/
def handle (server : Server) (w : World) (c : Caller) (calls : Calls) :
    AdminRequest → Ending × World
  | .link q => LinkHandlers.handle server w c calls q
  | .createUser n => customers server w c calls n
  | .setActive user active => AdminHandlers.setActive w c calls user active
  | .setDeletionAccess user enabled => AdminHandlers.setDeletionAccess w c calls user enabled
  | .createDomain tenantId domain => AdminHandlers.createDomain server w c calls tenantId domain
  | .verifyDomain domain => verifyDomainByID server w c calls domain
  | .patchDomain domain notFoundUrl => AdminHandlers.patchDomain w c calls domain notFoundUrl
  | .deleteDomain domain => AdminHandlers.deleteDomain w c calls domain
  | .createKey name => apiKeys w c calls name
  | .revokeKey key => apiKeyByID w c calls key

def serve (server : Server) (w : World) (c : Caller) (calls : Calls) (q : AdminRequest) :
    Response × World := conclude calls (handle server w c calls q)

end AdminHandlers
