import ShortQ.AuditedHandlers

/-! # The link endpoints

The handlers that read and write links, each as one request on the whole database. The bodies
arrive decoded and an import arrives as the rows of its file; the redirect cache is left out. -/
namespace LinkHandlers

open AuditLog
open AuditedHandlers
open GoText
open GoTime (Time)
open Hosts
open LinkCalls
open LinkEdits (Patch)
open LinkPayload
open LinkScopes
open LinkStore
open Models
open Schema
open TenantDomains
open Transaction

/-- `ORDER BY verified_at DESC, id DESC`; NULL comes first. -/
def newer (a b : DomainRow) : Bool :=
  match a.verifiedAt, b.verifiedAt with
  | none, none => b.id ≤ a.id
  | none, some _ => true
  | some _, none => false
  | some x, some y => y.nanos < x.nanos || (x = y && b.id ≤ a.id)

def activeDomainForTenant (s : Domains) (tenantId : Option ℤ) : Option Str :=
  ((s.rows.filter fun d => some d.tenantId = tenantId && d.active).mergeSort newer).head?.map
    DomainRow.domain

def shortURL (server : Server) (s : Domains) (link : Link) : Str :=
  match activeDomainForTenant s link.tenantId with
  | some domain =>
    if domain ≠ [] then lit "https://" ++ domain ++ lit "/s/" ++ link.slug
    else server.baseUrl.rdropWhile (· = 47) ++ lit "/s/" ++ link.slug
  | none => server.baseUrl.rdropWhile (· = 47) ++ lit "/s/" ++ link.slug

def entry (server : Server) (s : Domains) (link : Link) : Entry := ⟨link, shortURL server s link⟩

/-! Numbers in a path, a query or a body. -/

/-- `strconv.ParseInt` in base ten. -/
def parseInt (s : Str) : Option ℤ :=
  match s with
  | 45 :: digits => (decimal digits).bind fun n => if n ≤ 2 ^ 63 then some (-n) else none
  | 43 :: digits => (decimal digits).bind fun n => if n < 2 ^ 63 then some n else none
  | digits => (decimal digits).bind fun n => if n < 2 ^ 63 then some n else none

def join (sep : Str) (texts : List Str) : Str := (texts.intersperse sep).flatten

def shortioLinkID (id : ℤ) : Str := lit "lnk_shortq_" ++ formatInt id

def parseShortioLinkID (raw : Str) : Option ℤ :=
  let raw := trimSpace (trim 47 raw)
  if raw = [] || raw.contains 47 then none
  else
    let digits :=
      if (lit "lnk_shortq_").isPrefixOf raw then some (raw.drop 11)
      else if (lit "lnk_").isPrefixOf raw then
        (cutLast 95 raw).bind fun (_, digits) => if digits = [] then none else some digits
      else some raw
    (digits.bind parseInt).filter fun id => 1 ≤ id

def parseShortioLinkIDs (raw : List Str) : Option (List ℤ) :=
  (raw.mapM parseShortioLinkID).filter fun ids => decide ids.Nodup

/-! The Short.io payload. -/

/-- A decoded JSON value; of a number, whether it is positive and its integer part. -/
inductive Any where
  | nil
  | text (s : Str)
  | number (positive : Bool) (integer : ℤ)
  | other
  deriving DecidableEq, Repr

structure ShortioPayload where
  originalUrl : Str := []
  domain : Str := []
  path : Option Str := none
  title : Str := []
  tags : List Str := []
  redirectType : Option ℤ := none
  expiresAt : Any := .nil
  ttl : Any := .nil
  expiredUrl : Option Str := none
  androidUrl : Option Str := none
  iphoneUrl : Option Str := none
  clicksLimit : Option ℤ := none
  skipQS : Option Bool := none
  password : Option Str := none
  utmSource : Str := []
  utmMedium : Str := []
  utmCampaign : Str := []
  utmTerm : Str := []
  utmContent : Str := []
  deriving DecidableEq, Repr

/-- `Format(time.RFC3339)` of an instant in UTC. -/
def formatSeconds (t : Time) : Str :=
  let (year, month, d) := GoTime.civil (t.nanos / GoTime.day)
  let clock := t.nanos % GoTime.day / GoTime.second
  (if year < 0 then [45] else []) ++ GoTime.digits 4 year.natAbs ++ lit "-" ++
    GoTime.digits 2 month ++ lit "-" ++ GoTime.digits 2 d ++ lit "T" ++
    GoTime.digits 2 (clock / 3600) ++ lit ":" ++ GoTime.digits 2 (clock / 60 % 60) ++ lit ":" ++
    GoTime.digits 2 (clock % 60) ++ lit "Z"

/-- `time.Parse("2006-01-02", s)`. -/
def parseDate (s : Str) : Option Time := do
  let (year, s) ← GoTime.fixed 4 s
  let s ← GoTime.expect 45 s
  let (month, s) ← GoTime.fixed 2 s
  let s ← GoTime.expect 45 s
  let (d, s) ← GoTime.fixed 2 s
  if s.isEmpty && 1 ≤ month && month ≤ 12 && 1 ≤ d && d ≤ GoTime.daysIn month year then
    some ⟨GoTime.daysFromEpoch year month d * GoTime.day⟩
  else none

def unixMilli (millis : ℤ) : Time := ⟨millis * 1000000⟩

def parseShortioTime : Any → Except Str Str
  | .nil => .ok []
  | .text s =>
    let v := trimSpace s
    if v = [] then .ok []
    else
      match parseInt v, GoTime.parseRFC3339 v, parseDate v with
      | some millis, _, _ => .ok (formatSeconds (unixMilli millis))
      | none, some t, _ => .ok (formatSeconds t)
      | none, none, some t => .ok (formatSeconds t)
      | none, none, none =>
        .error (lit "expiresAt/ttl must be milliseconds, RFC3339, or YYYY-MM-DD")
  | .number positive integer =>
    if positive then .ok (formatSeconds (unixMilli integer)) else .ok []
  | .other => .error (lit "expiresAt/ttl must be milliseconds, RFC3339, or YYYY-MM-DD")

def firstNonNil (a b : Any) : Any := if a = .nil then b else a

/-- The link every creation starts from. -/
def blankLink : Link :=
  { forwardQuery := true
    redirectCode := 302
    visibility := lit "private" }

def ShortioPayload.payload (p : ShortioPayload) (expires : Str) : Payload where
  url := some p.originalUrl
  title := some p.title
  redirectCode := p.redirectType
  maxClicks := p.clicksLimit
  tags := some p.tags
  utmSource := some p.utmSource
  utmMedium := some p.utmMedium
  utmCampaign := some p.utmCampaign
  utmTerm := some p.utmTerm
  utmContent := some p.utmContent
  password := p.password
  slug := p.path.map (trim 47)
  expiredUrl := p.expiredUrl
  androidUrl := p.androidUrl
  iosUrl := p.iphoneUrl
  forwardQuery := p.skipQS.map fun skip => !skip
  expiresAt := if expires = [] then none else some expires

def shortioCreatePayloadToLink (hash : SecretHash) (p : ShortioPayload) : Except Str (Link × Str) :=
  match parseShortioTime (firstNonNil p.expiresAt p.ttl) with
  | .error text => .error text
  | .ok expires =>
    match applyLinkPayload hash blankLink (p.payload expires) true with
    | .error text => .error text
    | .ok (link, passwordHash, _) => .ok (link, passwordHash)

def ensureShortioDomainAllowed (server : Server) (s : Domains) (u : User) (domain : Str) :
    Option Str :=
  let domain := trimSpace domain
  if domain = [] then some (lit "domain is required")
  else
    match tenantDomainByDomain server.unicode s domain with
    | none => some (lit "domain not found")
    | some d =>
      if d.active && u.tenantId = some d.tenantId then none else some (lit "domain not found")

def shortioLinkResponse (server : Server) (s : Domains) (link : Link) (domain : Str)
    (duplicate : Bool) : ShortioLink where
  originalUrl := link.targetUrl
  path := link.slug
  id := link.id
  shortUrl := shortURL server s link
  tags := link.tags
  createdAt := link.createdAt
  skipQS := !link.forwardQuery
  ownerId := link.userId
  hasPassword := link.passwordProtected
  duplicate := duplicate
  domain :=
    if trimSpace domain = [] then
      trimSpace (((GoUrl.Parse (shortURL server s link)).map hostnameOf).getD domain)
    else trimSpace domain

/-! Requests. -/

inductive LinkRequest where
  | list
  | page (limit cursor : Str)
  | byID (id : ℤ)
  | create (set : Payload)
  | edit (id : ℤ) (set : Payload)
  | delete (id : ℤ)
  | bulkEdit (ids : List ℤ) (set : Payload)
  | bulkDelete (ids : List ℤ) (set : Payload)
  | importRows (rows : List Link) (errorsByRow : List (ℕ × Str)) (dryRun : Bool)
  | shortioCreate (p : ShortioPayload)
  | shortioDelete (path : Str)
  | shortioDeleteBulk (linkIds : List Str)

/-- The link, if the result carries exactly one. -/
def single : Except Err (List Link) → Except Err Link
  | .ok [link] => .ok link
  | .ok _ => .error .noRows
  | .error e => .error e

/-- The handlers of the paths under `/api/v1/links` without a write. -/
def readLinks (server : Server) (w : World) (c : Caller) (calls : Calls) : LinkRequest → Response
  | .list =>
    match ListLinks calls.before w.db c.user with
    | .error e => ⟨500, .error [] (.store e)⟩
    | .ok links => ⟨200, .links (links.map (entry server w.domains))⟩
  | .page limit cursor =>
    match if limit = [] then some 100 else (parseInt limit).filter fun n => 1 ≤ n && n ≤ 500 with
    | none => errOut 400 "limit must be 1 to 500"
    | some limit =>
      match if cursor = [] then some 0 else (parseInt cursor).filter fun n => 1 ≤ n with
      | none => errOut 400 "cursor must be a positive link id"
      | some cursor =>
        match ListLinksPage calls.before w.db c.user limit cursor with
        | .error e => ⟨500, .error [] (.store e)⟩
        | .ok page => ⟨200, .page (page.items.map (entry server w.domains)) page.nextCursor⟩
  | .byID id =>
    match linkByID calls.before w.db c.user id with
    | .error _ => errOut 404 "link not found"
    | .ok link => ⟨200, .link (entry server w.domains link)⟩
  | _ => ⟨405, .empty⟩

def createLink (server : Server) (w : World) (c : Caller) (calls : Calls) (set : Payload) :
    Ending × World :=
  match applyLinkPayload (calls.hash 0) blankLink set true with
  | .error text => (.respond ⟨400, .error [] (.rejected text)⟩, w)
  | .ok (link, passwordHash, _) =>
    match w.run c calls (.createLink calls.random link passwordHash) with
    | (.error e, w) => (.respond ⟨400, .error [] (.store e)⟩, w)
    | (.ok links, w) =>
      match single (.ok links) with
      | .error e => (.respond ⟨400, .error [] (.store e)⟩, w)
      | .ok l =>
        (.record (c.event (lit "link.created") (lit "link") (formatInt l.id) .success none
          (some (linkAudit l))) ⟨201, .link (entry server w.domains l)⟩ id, w)

/-- The texts in which the two PATCH handlers differ. -/
structure EditTexts where
  notFound : String
  failed : ℕ
  lead : Str
  action : Str
  targetId : List Link → Str
  snapshot : List Link → Snapshot
  body : List Entry → Body

def snapshots (links : List Link) : Snapshot := .links (links.map linkRecord)

def editOne (id : ℤ) : EditTexts where
  notFound := "link not found"
  failed := 400
  lead := []
  action := lit "link.updated"
  targetId _ := formatInt id
  snapshot links := ((links.head?.map linkAudit).getD (snapshots links))
  body entries := ((entries.head?.map Body.link).getD .empty)

def editMany : EditTexts where
  notFound := "one or more links were not found"
  failed := 409
  lead := lit "no links updated: "
  action := lit "link.bulk_updated"
  targetId links := formatInt links.length
  snapshot := snapshots
  body := .updated

/-- `linkByID` and `bulkLinks` on PATCH. -/
def editLinks (server : Server) (w : World) (c : Caller) (calls : Calls) (p : Patch)
    (texts : EditTexts) : Ending × World :=
  match p.malformed with
  | some text => (.respond ⟨400, .error [] (.rejected text)⟩, w)
  | none =>
    match p.read calls.before w.db with
    | .error _ => (.respond (errOut 404 texts.notFound), w)
    | .ok current =>
      match p.merge calls.hash current with
      | .error text => (.respond ⟨400, .error [] (.rejected text)⟩, w)
      | .ok updates =>
        match p.write calls.io w.db updates with
        | (some e, db) => (.respond ⟨texts.failed, .error texts.lead (.store e)⟩,
            { w with db := db })
        | (none, db) =>
          let w := { w with db := db }
          match p.read calls.after db with
          | .error e => (.respond ⟨texts.failed, .error texts.lead (.store e)⟩, w)
          | .ok links =>
            (.record (c.event texts.action (lit "link") (texts.targetId links) .success
              (some (texts.snapshot current)) (some (texts.snapshot links)))
              ⟨200, texts.body (links.map (entry server w.domains))⟩ id, w)

/-- The texts in which the four DELETE handlers differ. -/
structure DeleteTexts where
  notFound : String
  action : Str
  targetId : Str
  snapshot : List Link → Snapshot
  ok : Response

/-- The handlers of DELETE: read, delete, audit. -/
def deleteLinks (w : World) (c : Caller) (calls : Calls) (readBack : ReadBack) (call : Call)
    (texts : DeleteTexts) : Ending × World :=
  w.requireDelete c texts.action (lit "link") texts.targetId <|
    match readBack.read calls.before w.db c.user with
    | .error _ => (.respond (errOut 404 texts.notFound), w)
    | .ok before =>
      match w.run c calls call with
      | (.error _, w) => (.respond (errOut 404 texts.notFound), w)
      | (.ok _, w) =>
        (.record (c.event texts.action (lit "link") texts.targetId .success
          (some (texts.snapshot before)) none) texts.ok id, w)

def missing : String := "one or more links were not found; no links deleted"

def oneSnapshot (links : List Link) : Snapshot :=
  (links.head?.map linkAudit).getD (snapshots links)

def deleteLink (w : World) (c : Caller) (calls : Calls) (id : ℤ) : Ending × World :=
  deleteLinks w c calls (.byID id) (.deleteLink id)
    ⟨"link not found", lit "link.deleted", formatInt id, oneSnapshot, ⟨204, .empty⟩⟩

def bulkDelete (w : World) (c : Caller) (calls : Calls) (ids : List ℤ) (set : Payload) :
    Ending × World :=
  match (Patch.mk c.user (.many ids) set).malformed with
  | some text => (.respond ⟨400, .error [] (.rejected text)⟩, w)
  | none =>
    deleteLinks w c calls (.byIDs ids) (.deleteLinksBulk ids)
      ⟨missing, lit "link.bulk_deleted", join [44] (ids.map formatInt), snapshots,
        ⟨200, .deleted ids.length⟩⟩

def shortioLinkByID (w : World) (c : Caller) (calls : Calls) (path : Str) : Ending × World :=
  match parseShortioLinkID path with
  | none => (.respond (errOut 400 "invalid link_id"), w)
  | some id =>
    deleteLinks w c calls (.byID id) (.deleteLink id)
      ⟨"link not found", lit "shortio.link.deleted", formatInt id, oneSnapshot,
        ⟨200, .shortioDeleted id⟩⟩

def shortioDeleteBulk (w : World) (c : Caller) (calls : Calls) (linkIds : List Str) :
    Ending × World :=
  if linkIds.length < 1 || 150 < linkIds.length then
    (.respond (errOut 400 "link_ids must contain 1 to 150 links"), w)
  else
    match parseShortioLinkIDs linkIds with
    | none => (.respond (errOut 400 "link_ids must be unique valid link ids"), w)
    | some ids =>
      deleteLinks w c calls (.byIDs ids) (.deleteLinksBulk ids)
        ⟨missing, lit "shortio.link.bulk_deleted", join [44] (ids.map shortioLinkID), snapshots,
          ⟨200, .shortioDeletedBulk ids⟩⟩

/-- `importLinks` from the rows on. -/
def importLinks (server : Server) (w : World) (c : Caller) (calls : Calls) (rows : List Link)
    (errorsByRow : List (ℕ × Str)) (dryRun : Bool) : Ending × World :=
  if errorsByRow ≠ [] then (.respond ⟨422, .refusedRows errorsByRow⟩, w)
  else if dryRun then (.respond ⟨200, .valid rows.length⟩, w)
  else
    match w.run c calls (.createLinksBulk calls.randoms rows) with
    | (.error e, w) => (.respond ⟨409, .error (lit "no links imported: ") (.store e)⟩, w)
    | (.ok links, w) =>
      (.record (c.event (lit "link.imported") (lit "link") (formatInt links.length) .success
        none (some (snapshots links))) ⟨201, .imported (links.map (entry server w.domains))⟩ id, w)

/-- `shortioLinks`. A refused creation answers with the link that has the slug, if the two agree
on the target. -/
def shortioLinks (server : Server) (w : World) (c : Caller) (calls : Calls) (p : ShortioPayload) :
    Ending × World :=
  match shortioCreatePayloadToLink (calls.hash 0) p with
  | .error text => (.respond ⟨400, .error [] (.rejected text)⟩, w)
  | .ok (link, passwordHash) =>
    match ensureShortioDomainAllowed server w.domains c.user p.domain with
    | some text => (.respond ⟨404, .error [] (.rejected text)⟩, w)
    | none =>
      match w.run c calls (.createLink calls.random link passwordHash) with
      | (.error e, w) =>
        let conflict : Ending := .respond ⟨409, .error [] (.store e)⟩
        if link.slug ≠ [] then
          match linkBySlug calls.lookup w.db link.slug with
          | .ok existing =>
            if existing.targetUrl = link.targetUrl then
              (.respond ⟨200, .shortioLink
                (shortioLinkResponse server w.domains existing p.domain true)⟩, w)
            else (conflict, w)
          | .error _ => (conflict, w)
        else (conflict, w)
      | (.ok links, w) =>
        match single (.ok links) with
        | .error e => (.respond ⟨409, .error [] (.store e)⟩, w)
        | .ok created =>
          (.record (c.event (lit "shortio.link.created") (lit "link") (formatInt created.id)
            .success none (some (linkAudit created)))
            ⟨200, .shortioLink (shortioLinkResponse server w.domains created p.domain false)⟩ id, w)

/-- A link request up to its audit. -/
def handle (server : Server) (w : World) (c : Caller) (calls : Calls) (q : LinkRequest) :
    Ending × World :=
  match q with
  | .create set => createLink server w c calls set
  | .edit id set => editLinks server w c calls ⟨c.user, .one id, set⟩ (editOne id)
  | .bulkEdit ids set => editLinks server w c calls ⟨c.user, .many ids, set⟩ editMany
  | .delete id => deleteLink w c calls id
  | .bulkDelete ids set => bulkDelete w c calls ids set
  | .importRows rows errorsByRow dryRun => importLinks server w c calls rows errorsByRow dryRun
  | .shortioCreate p => shortioLinks server w c calls p
  | .shortioDelete path => shortioLinkByID w c calls path
  | .shortioDeleteBulk linkIds => shortioDeleteBulk w c calls linkIds
  | q => (.respond (readLinks server w c calls q), w)

def serve (server : Server) (w : World) (c : Caller) (calls : Calls) (q : LinkRequest) :
    Response × World := conclude calls (handle server w c calls q)

end LinkHandlers
