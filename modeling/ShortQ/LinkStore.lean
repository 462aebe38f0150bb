import ShortQ.LinkValidation
import ShortQ.Schema
import ShortQ.Transaction

/-! # Reading and writing links

Statement slots number the calls of one transaction or one read; a write that reads its
result back takes a second script for that read. -/
namespace LinkStore

open GoText
open GoTime (Time)
open LinkValidation
open Models
open RowTable
open Schema
open Transaction

/-- `addLinkManageScope`. A tenant admin without a tenant is a nil dereference. -/
def addLinkManageScope (u : User) : Except Err (LinkRow → Bool) :=
  match u.role, u.tenantId with
  | .superadmin, _ => .ok fun _ => true
  | .tenant, none => .error .panic
  | .tenant, some t => .ok fun r => r.tenantId = some t
  | .customer, _ => .ok fun r => r.userId = u.id

def addLinkViewScope (u : User) (includeDeleted : Bool) : Except Err (LinkRow → Bool) :=
  match u.role, u.tenantId with
  | .superadmin, _ => .ok fun _ => true
  | .tenant, none => .error .panic
  | .tenant, some t => .ok fun r => r.tenantId = some t
  | .customer, some t => .ok fun r => r.userId = u.id ||
      (r.tenantId = some t && r.visibility = lit "department" &&
        (includeDeleted || r.deletedAt.isNone))
  | .customer, none => .ok fun r => r.userId = u.id

/-- The columns every write of a link sets. -/
structure LinkColumns where
  targetUrl : Str
  title : Str
  visibility : Str
  redirectCode : ℤ
  expiresAt : Option Time
  maxClicks : Option ℤ
  expiredUrl : Str
  iosUrl : Str
  androidUrl : Str
  forwardQuery : Bool
  utmSource : Str
  utmMedium : Str
  utmCampaign : Str
  utmTerm : Str
  utmContent : Str
  tags : List Str
  deriving DecidableEq, Repr

/-- A nullable column: none is a refused value, `some none` is NULL. -/
def nullable {α β : Type} (column : α → Option β) : Option α → Option (Option β)
  | none => some none
  | some a => (column a).map some

def checkVisibility (s : Str) : Option Str :=
  if s = lit "private" || s = lit "department" then some s else none

def linkColumns (link : Link) : Option LinkColumns := do
  let targetUrl ← text link.targetUrl
  let title ← varchar 180 link.title
  let visibility ← checkVisibility link.visibility
  let redirectCode ← smallint link.redirectCode
  let expiresAt ← nullable timestamptz link.expiresAt
  let expiredUrl ← text link.expiredUrl
  let iosUrl ← text link.iosUrl
  let androidUrl ← text link.androidUrl
  let utmSource ← varchar 255 link.utmSource
  let utmMedium ← varchar 255 link.utmMedium
  let utmCampaign ← varchar 255 link.utmCampaign
  let utmTerm ← varchar 255 link.utmTerm
  let utmContent ← varchar 255 link.utmContent
  some ⟨targetUrl, title, visibility, redirectCode, expiresAt, link.maxClicks, expiredUrl,
    iosUrl, androidUrl, link.forwardQuery, utmSource, utmMedium, utmCampaign, utmTerm,
    utmContent, (normalizeTags link.tags).map toValid⟩

/-- Every column takes its value. -/
structure TakenColumns (link : Link) (c : LinkColumns) : Prop where
  targetUrl : text link.targetUrl = some c.targetUrl
  title : varchar 180 link.title = some c.title
  visibility : checkVisibility link.visibility = some c.visibility
  redirectCode : smallint link.redirectCode = some c.redirectCode
  expiresAt : nullable timestamptz link.expiresAt = some c.expiresAt
  maxClicks : c.maxClicks = link.maxClicks
  expiredUrl : text link.expiredUrl = some c.expiredUrl
  iosUrl : text link.iosUrl = some c.iosUrl
  androidUrl : text link.androidUrl = some c.androidUrl
  forwardQuery : c.forwardQuery = link.forwardQuery
  utmSource : varchar 255 link.utmSource = some c.utmSource
  utmMedium : varchar 255 link.utmMedium = some c.utmMedium
  utmCampaign : varchar 255 link.utmCampaign = some c.utmCampaign
  utmTerm : varchar 255 link.utmTerm = some c.utmTerm
  utmContent : varchar 255 link.utmContent = some c.utmContent
  tags : c.tags = (normalizeTags link.tags).map toValid

theorem linkColumns_iff {link : Link} {c : LinkColumns} :
    linkColumns link = some c ↔ TakenColumns link c := by
  constructor
  · intro h
    unfold linkColumns at h
    obtain ⟨target, htarget, h⟩ := Option.bind_eq_some_iff.mp h
    obtain ⟨title, htitle, h⟩ := Option.bind_eq_some_iff.mp h
    obtain ⟨visibility, hvisibility, h⟩ := Option.bind_eq_some_iff.mp h
    obtain ⟨code, hcode, h⟩ := Option.bind_eq_some_iff.mp h
    obtain ⟨expires, hexpires, h⟩ := Option.bind_eq_some_iff.mp h
    obtain ⟨expired, hexpired, h⟩ := Option.bind_eq_some_iff.mp h
    obtain ⟨ios, hios, h⟩ := Option.bind_eq_some_iff.mp h
    obtain ⟨android, handroid, h⟩ := Option.bind_eq_some_iff.mp h
    obtain ⟨source, hsource, h⟩ := Option.bind_eq_some_iff.mp h
    obtain ⟨medium, hmedium, h⟩ := Option.bind_eq_some_iff.mp h
    obtain ⟨campaign, hcampaign, h⟩ := Option.bind_eq_some_iff.mp h
    obtain ⟨term, hterm, h⟩ := Option.bind_eq_some_iff.mp h
    obtain ⟨content, hcontent, h⟩ := Option.bind_eq_some_iff.mp h
    cases h
    exact ⟨htarget, htitle, hvisibility, hcode, hexpires, rfl, hexpired, hios, handroid, rfl,
      hsource, hmedium, hcampaign, hterm, hcontent, rfl⟩
  · intro h
    unfold linkColumns
    rw [h.targetUrl, h.title, h.visibility, h.redirectCode, h.expiresAt, h.expiredUrl, h.iosUrl,
      h.androidUrl, h.utmSource, h.utmMedium, h.utmCampaign, h.utmTerm, h.utmContent,
      ← h.maxClicks, ← h.forwardQuery, ← h.tags]
    rfl

theorem linkColumns_isSome {link : Link} : (linkColumns link).isSome ↔
    (text link.targetUrl).isSome ∧ (varchar 180 link.title).isSome ∧
      (checkVisibility link.visibility).isSome ∧ (smallint link.redirectCode).isSome ∧
      (nullable timestamptz link.expiresAt).isSome ∧ (text link.expiredUrl).isSome ∧
      (text link.iosUrl).isSome ∧ (text link.androidUrl).isSome ∧
      (varchar 255 link.utmSource).isSome ∧ (varchar 255 link.utmMedium).isSome ∧
      (varchar 255 link.utmCampaign).isSome ∧ (varchar 255 link.utmTerm).isSome ∧
      (varchar 255 link.utmContent).isSome := by
  constructor
  · intro h
    obtain ⟨c, hc⟩ := Option.isSome_iff_exists.mp h
    have htaken := linkColumns_iff.mp hc
    rw [htaken.targetUrl, htaken.title, htaken.visibility, htaken.redirectCode, htaken.expiresAt,
      htaken.expiredUrl, htaken.iosUrl, htaken.androidUrl, htaken.utmSource, htaken.utmMedium,
      htaken.utmCampaign, htaken.utmTerm, htaken.utmContent]
    simp
  · simp only [Option.isSome_iff_exists]
    rintro ⟨⟨target, htarget⟩, ⟨title, htitle⟩, ⟨visibility, hvisibility⟩, ⟨code, hcode⟩,
      ⟨expires, hexpires⟩, ⟨expired, hexpired⟩, ⟨ios, hios⟩, ⟨android, handroid⟩,
      ⟨source, hsource⟩, ⟨medium, hmedium⟩, ⟨campaign, hcampaign⟩, ⟨term, hterm⟩,
      ⟨content, hcontent⟩⟩
    exact ⟨⟨target, title, visibility, code, expires, link.maxClicks, expired, ios, android,
      link.forwardQuery, source, medium, campaign, term, content,
      (normalizeTags link.tags).map toValid⟩, linkColumns_iff.mpr ⟨htarget, htitle, hvisibility,
      hcode, hexpires, rfl, hexpired, hios, handroid, rfl, hsource, hmedium, hcampaign, hterm,
      hcontent, rfl⟩⟩

/-- `SET target_url=?, .., tags_json=?`, with `password_hash=?` when the password changed and
`updated_at=NOW()` where the statement has it. -/
def LinkColumns.assign (c : LinkColumns) (password : Option Str) (updatedAt : Option Time)
    (r : LinkRow) : LinkRow :=
  { r with
    targetUrl := c.targetUrl, title := c.title, visibility := c.visibility,
    redirectCode := c.redirectCode, expiresAt := c.expiresAt, maxClicks := c.maxClicks,
    expiredUrl := c.expiredUrl, iosUrl := c.iosUrl, androidUrl := c.androidUrl,
    forwardQuery := c.forwardQuery, utmSource := c.utmSource, utmMedium := c.utmMedium,
    utmCampaign := c.utmCampaign, utmTerm := c.utmTerm, utmContent := c.utmContent,
    tags := c.tags, passwordHash := password.getD r.passwordHash,
    updatedAt := updatedAt.getD r.updatedAt }

theorem keeps_assign (c : LinkColumns) (password : Option Str) (updatedAt : Option Time) :
    Table.Keeps linkClash (c.assign password updatedAt) := fun _ _ => ⟨Iff.rfl, Iff.rfl⟩

/-- `UPDATE links SET .. WHERE p`. -/
def assignWhere (tx : Database) (p : LinkRow → Bool) (c : LinkColumns) (password : Option Str)
    (updatedAt : Option Time) : Database :=
  { tx with
    links := tx.links.update p (c.assign password updatedAt)
      (keeps_assign c password updatedAt) }

def markDeleted (now : Time) (r : LinkRow) : LinkRow := { r with deletedAt := some now }

theorem keeps_markDeleted (now : Time) : Table.Keeps linkClash (markDeleted now) :=
  fun _ _ => ⟨Iff.rfl, Iff.rfl⟩

/-- `UPDATE links SET deleted_at=.. WHERE p`. -/
def deleteWhere (db : Database) (p : LinkRow → Bool) (now : Time) : Database :=
  { db with links := db.links.update p (markDeleted now) (keeps_markDeleted now) }

/-- The row an `INSERT` writes before its settings: clicks start at zero. -/
def blankRow (id : ℤ) (u : User) (slug : Str) (now : Time) : LinkRow where
  id := id
  userId := u.id
  tenantId := u.tenantId
  slug := slug
  targetUrl := []
  title := []
  visibility := []
  clicks := 0
  redirectCode := 302
  expiresAt := none
  maxClicks := none
  expiredUrl := []
  iosUrl := []
  androidUrl := []
  passwordHash := []
  forwardQuery := true
  utmSource := []
  utmMedium := []
  utmCampaign := []
  utmTerm := []
  utmContent := []
  tags := []
  createdAt := now
  updatedAt := now
  deletedAt := none

def insertGeo (tx : Database) (linkId : ℤ) (target : GeoTarget) : Except Err Database :=
  match bpchar 2 (country target), text (trimSpace target.targetUrl) with
  | some code, some url =>
    match tx.geoTargets.insert ⟨linkId, code, url⟩ with
    | some geo =>
      if (tx.link linkId).isSome then .ok { tx with geoTargets := geo } else .error .schema
    | none => .error .schema
  | _, _ => .error .schema

def insertGeos (io : Script) (linkId : ℤ) : ℕ → Database → List GeoTarget →
    Except Err Database
  | _, tx, [] => .ok tx
  | n, tx, target :: rest =>
    match io.call n (insertGeo tx linkId target) with
    | .error e => .error e
    | .ok tx => insertGeos io linkId (n + 1) tx rest

def deleteGeos (tx : Database) (linkId : ℤ) : Database :=
  { tx with
    geoTargets := tx.geoTargets.restrict
      (tx.geoTargets.rows.filter fun g => g.linkId ≠ linkId) List.filter_sublist }

def replaceGeoTargets (io : Script) (n : ℕ) (tx : Database) (linkId : ℤ)
    (targets : List GeoTarget) : Except Err Database :=
  match io.call n (.ok (deleteGeos tx linkId)) with
  | .error e => .error e
  | .ok tx => insertGeos io linkId (n + 1) tx targets

/-- `scanLink`, before the geo targets are read. -/
def scanLink (r : LinkRow) : Link where
  id := r.id
  userId := r.userId
  tenantId := r.tenantId
  slug := r.slug
  targetUrl := r.targetUrl
  title := r.title
  visibility := r.visibility
  clicks := r.clicks
  redirectCode := r.redirectCode
  expiresAt := r.expiresAt
  maxClicks := r.maxClicks
  expiredUrl := r.expiredUrl
  iosUrl := r.iosUrl
  androidUrl := r.androidUrl
  forwardQuery := r.forwardQuery
  utmSource := r.utmSource
  utmMedium := r.utmMedium
  utmCampaign := r.utmCampaign
  utmTerm := r.utmTerm
  utmContent := r.utmContent
  tags := r.tags
  geoTargets := []
  passwordProtected := 0 < r.passwordHash.length
  passwordHash := r.passwordHash
  createdAt := r.createdAt
  deletedAt := r.deletedAt

/-- `ORDER BY link_id, country_code` for one link. -/
def geoTargetsOf (db : Database) (linkId : ℤ) : List GeoTarget :=
  ((db.geoTargets.rows.filter fun g => g.linkId = linkId).mergeSort
    fun a b => decide (a.countryCode ≤ b.countryCode)).map fun g => ⟨g.countryCode, g.targetUrl⟩

def hydrateLink (db : Database) (link : Link) : Link :=
  { link with geoTargets := geoTargetsOf db link.id }

/-- `ErrNoRows`, or the one row with its geo targets (slots 0 and 1). -/
def readLink (io : Script) (db : Database) (p : LinkRow → Bool) : Except Err Link :=
  io.call 0 <|
    match db.links.find p with
    | none => .error .noRows
    | some r => io.call 1 (.ok (hydrateLink db (scanLink r)))

def linkBySlug (io : Script) (db : Database) (slug : Str) : Except Err Link :=
  readLink io db fun r => r.slug = slug && r.deletedAt.isNone

def linkByID (io : Script) (db : Database) (u : User) (id : ℤ) : Except Err Link :=
  match addLinkViewScope u false with
  | .error e => .error e
  | .ok scope => readLink io db fun r => r.id = id && (r.deletedAt.isNone && scope r)

/-- How many queries `LinksByIDs` and `hydrateLinks` make for a list of this length. -/
def chunks (count : ℕ) : ℕ := (count + 499) / 500

def firstFailure (io : Script) (first count : ℕ) : Option Str :=
  (List.range count).findSome? fun i => io.exec (first + i)

def linksByIDs (io : Script) (db : Database) (u : User) (ids : List ℤ) :
    Except Err (List Link) :=
  if ids = [] then .ok []
  else
    match addLinkViewScope u false with
    | .error e => .error e
    | .ok scope =>
      match firstFailure io 0 (chunks ids.length) with
      | some text => .error (.database text)
      | none =>
        match ids.mapM fun id =>
            db.links.find fun r => r.id = id && (r.deletedAt.isNone && scope r) with
        | none => .error .noRows
        | some rows =>
          match firstFailure io (chunks ids.length) (chunks ids.length) with
          | some text => .error (.database text)
          | none => .ok (rows.map fun r => hydrateLink db (scanLink r))

/-- The transaction of `CreateLink`; it works on a database whose sequence has already moved. -/
def createLinkTx (io : Script) (tx : Database) (id : ℤ) (u : User) (link : Link)
    (passwordHash : Str) : Except Err Database :=
  match linkColumns link, varchar 80 link.slug with
  | some columns, some slug =>
    let now := (timestamptz (io.now 0)).getD (io.now 0)
    match io.call 0 (match tx.links.insert
        (columns.assign (some passwordHash) none (blankRow id u slug now)) with
      | none => .error .schema
      | some links => .ok { tx with links := links }) with
    | .error e => .error e
    | .ok tx => replaceGeoTargets io 1 tx id link.geoTargets
  | _, _ => .error .schema

/-- The link `CreateLink` validates and writes; `random` is what `randomSlug` yields. -/
def createLinkInput (random : Str) (link : Link) (passwordHash : Str) : Link :=
  { link with
    slug := if link.slug = [] then random else link.slug
    redirectCode := if link.redirectCode = 0 then 302 else link.redirectCode
    visibility := if link.visibility = [] then lit "private" else link.visibility
    passwordProtected := 0 < passwordHash.length }

/-- `CreateLink` up to its commit. -/
def createLinkWrite (io : Script) (db : Database) (random : Str) (u : User) (link : Link)
    (passwordHash : Str) : Option Err × Database :=
  let link := createLinkInput random link passwordHash
  if !slugRe link.slug then
    (some (.rejected (lit "slug must be 3-80 letters, numbers, _ or -")), db)
  else
    match validateLink link with
    | some text => (some (.rejected text), db)
    | none =>
      let drawn := { db with nextLinkId := db.nextLinkId + 1 }
      inTx io drawn (createLinkTx io drawn db.nextLinkId u link passwordHash)

def createLink (io after : Script) (db : Database) (random : Str) (u : User) (link : Link)
    (passwordHash : Str) : Except Err Link × Database :=
  match createLinkWrite io db random u link passwordHash with
  | (some e, db) => (.error e, db)
  | (none, db) => (linkBySlug after db (createLinkInput random link passwordHash).slug, db)

/-- The rows a scoped statement on one live link names. -/
def liveInScope (id : ℤ) (scope : LinkRow → Bool) (r : LinkRow) : Bool :=
  r.id = id && (r.deletedAt.isNone && scope r)

/-- The transaction of `UpdateLink`: lock, write the columns, replace the geo targets. -/
def updateLinkTx (io : Script) (tx : Database) (u : User) (id : ℤ) (link : Link)
    (password : Option Str) : Except Err Database :=
  match addLinkManageScope u with
  | .error e => .error e
  | .ok scope =>
    match io.call 0 (if tx.links.affected (liveInScope id scope) = 0 then .error .noRows
        else .ok ()) with
    | .error e => .error e
    | .ok () =>
      match linkColumns link with
      | none => .error .schema
      | some columns =>
        match io.call 1 (.ok (assignWhere tx (liveInScope id scope) columns password none)) with
        | .error e => .error e
        | .ok tx => replaceGeoTargets io 2 tx id link.geoTargets

/-- The link `UpdateLink` validates and writes. -/
def updateLinkInput (link : Link) (passwordHash : Str) (passwordChanged : Bool) : Link :=
  { link with
    redirectCode := if link.redirectCode = 0 then 302 else link.redirectCode
    passwordProtected := if passwordChanged then 0 < passwordHash.length
      else link.passwordProtected }

/-- `UpdateLink` up to its commit. -/
def updateLinkWrite (io : Script) (db : Database) (u : User) (id : ℤ) (link : Link)
    (passwordHash : Str) (passwordChanged : Bool) : Option Err × Database :=
  let link := updateLinkInput link passwordHash passwordChanged
  match validateLink link with
  | some text => (some (.rejected text), db)
  | none =>
    inTx io db (updateLinkTx io db u id link (if passwordChanged then some passwordHash else none))

def updateLink (io after : Script) (db : Database) (u : User) (id : ℤ) (link : Link)
    (passwordHash : Str) (passwordChanged : Bool) : Except Err Link × Database :=
  match updateLinkWrite io db u id link passwordHash passwordChanged with
  | (some e, db) => (.error e, db)
  | (none, db) => (linkByID after db u id, db)

structure LinkUpdate where
  id : ℤ
  link : Link
  passwordHash : Str
  passwordChanged : Bool
  deriving DecidableEq, Repr

/-- The loop of `UpdateLinksBulk`; slot `n` is its statement for the first update. -/
def updateEach (io : Script) : ℕ → Database → List LinkUpdate → Except Err Database
  | _, tx, [] => .ok tx
  | n, tx, update :: rest =>
    match linkColumns update.link with
    | none => .error .schema
    | some columns =>
      let password := if update.passwordChanged then some update.passwordHash else none
      let now := some ((timestamptz (io.now 0)).getD (io.now 0))
      match io.call n (.ok (assignWhere tx (fun r => r.id = update.id) columns password now)) with
      | .error e => .error e
      | .ok tx =>
        match replaceGeoTargets io (n + 1) tx update.id update.link.geoTargets with
        | .error e => .error e
        | .ok tx => updateEach io (n + 2 + update.link.geoTargets.length) tx rest

def checkUpdates : List LinkUpdate → Option Str
  | [] => none
  | update :: rest =>
    match validateLink update.link with
    | some text => some (lit "link " ++ lit (toString update.id) ++ lit ": " ++ text)
    | none => checkUpdates rest

/-- The transaction of `UpdateLinksBulk`; slots 1 to 4 prepare its statements. -/
def updateLinksBulkTx (io : Script) (tx : Database) (u : User) (updates : List LinkUpdate) :
    Except Err Database :=
  match addLinkManageScope u with
  | .error e => .error e
  | .ok scope =>
    match io.call 0 (if tx.links.affected (fun r => r.deletedAt.isNone &&
        ((updates.map LinkUpdate.id).contains r.id && scope r)) = updates.length then .ok ()
        else .error .noRows) with
    | .error e => .error e
    | .ok () =>
      match firstFailure io 1 4 with
      | some text => .error (.database text)
      | none => updateEach io 5 tx updates

/-- `UpdateLinksBulk` up to its commit. -/
def updateLinksBulkWrite (io : Script) (db : Database) (u : User) (updates : List LinkUpdate) :
    Option Err × Database :=
  if updates = [] then (none, db)
  else
    match checkUpdates updates with
    | some text => (some (.rejected text), db)
    | none => inTx io db (updateLinksBulkTx io db u updates)

def updateLinksBulk (io after : Script) (db : Database) (u : User) (updates : List LinkUpdate) :
    Except Err (List Link) × Database :=
  match updateLinksBulkWrite io db u updates with
  | (some e, db) => (.error e, db)
  | (none, db) => (linksByIDs after db u (updates.map LinkUpdate.id), db)

/-- One statement outside a transaction commits itself. -/
def deleteLink (io : Script) (db : Database) (u : User) (id : ℤ) : Option Err × Database :=
  match addLinkManageScope u with
  | .error e => (some e, db)
  | .ok scope =>
    match io.exec 0 with
    | some text => (some (.database text), db)
    | none =>
      let p := liveInScope id scope
      let now := (timestamptz (io.now 0)).getD (io.now 0)
      match commitTx io db (deleteWhere db p now) with
      | (some e, db) => (some e, db)
      | (none, after) => (if db.links.affected p = 0 then some .noRows else none, after)

/-! What a write leaves alone. -/

theorem insertGeo_frame {tx tx' : Database} {linkId : ℤ} {target : GeoTarget}
    (h : insertGeo tx linkId target = .ok tx') :
    tx'.links = tx.links ∧ tx'.clicks = tx.clicks ∧ tx'.rollups = tx.rollups := by
  unfold insertGeo at h
  split at h
  · split at h
    · split at h
      · cases h
        exact ⟨rfl, rfl, rfl⟩
      · cases h
    · cases h
  · cases h

theorem insertGeos_frame {io : Script} {linkId : ℤ} {n : ℕ} {tx tx' : Database}
    {targets : List GeoTarget} (h : insertGeos io linkId n tx targets = .ok tx') :
    tx'.links = tx.links ∧ tx'.clicks = tx.clicks ∧ tx'.rollups = tx.rollups := by
  induction targets generalizing n tx with
  | nil =>
    cases h
    exact ⟨rfl, rfl, rfl⟩
  | cons target rest ih =>
    unfold insertGeos at h
    split at h
    · cases h
    · rename_i tx₁ hone
      obtain ⟨hl, hc, hr⟩ := insertGeo_frame (call_ok hone)
      obtain ⟨hl', hc', hr'⟩ := ih h
      exact ⟨hl'.trans hl, hc'.trans hc, hr'.trans hr⟩

theorem replaceGeoTargets_frame {io : Script} {linkId : ℤ} {n : ℕ} {tx tx' : Database}
    {targets : List GeoTarget} (h : replaceGeoTargets io n tx linkId targets = .ok tx') :
    tx'.links = tx.links ∧ tx'.clicks = tx.clicks ∧ tx'.rollups = tx.rollups := by
  unfold replaceGeoTargets at h
  split at h
  · cases h
  · rename_i tx₁ hdelete
    have htx : tx₁ = deleteGeos tx linkId := by
      have hok := call_ok hdelete
      cases hok
      rfl
    obtain ⟨hl, hc, hr⟩ := insertGeos_frame h
    exact ⟨hl.trans (by rw [htx]; rfl), hc.trans (by rw [htx]; rfl), hr.trans (by rw [htx]; rfl)⟩

/-- A created link is a new row whose clicks are zero. -/
theorem createLinkTx_links {io : Script} {tx tx' : Database} {id : ℤ} {u : User} {link : Link}
    {hash : Str} (h : createLinkTx io tx id u link hash = .ok tx') :
    (∃ row, row.clicks = 0 ∧ tx.links.insert row = some tx'.links) ∧
      tx'.clicks = tx.clicks ∧ tx'.rollups = tx.rollups := by
  unfold createLinkTx at h
  split at h
  · rename_i columns slug hcolumns hslug
    dsimp only at h
    split at h
    · cases h
    · rename_i tx₁ hcall
      have hinsert := call_ok hcall
      split at hinsert
      · cases hinsert
      · rename_i links hins
        cases hinsert
        obtain ⟨hl, hc, hr⟩ := replaceGeoTargets_frame h
        exact ⟨⟨_, rfl, by rw [hl]; exact hins⟩, hc, hr⟩
  · cases h

theorem updateLinkTx_links {io : Script} {tx tx' : Database} {u : User} {id : ℤ} {link : Link}
    {password : Option Str} (h : updateLinkTx io tx u id link password = .ok tx') :
    ∃ scope columns, addLinkManageScope u = .ok scope ∧ linkColumns link = some columns ∧
      0 < tx.links.affected (liveInScope id scope) ∧
      tx'.links = (assignWhere tx (liveInScope id scope) columns password none).links ∧
      tx'.clicks = tx.clicks ∧ tx'.rollups = tx.rollups := by
  unfold updateLinkTx at h
  split at h
  · cases h
  · rename_i scope hscope
    split at h
    · cases h
    · rename_i hlock
      have hfound := call_ok hlock
      split at hfound
      · cases hfound
      · rename_i hne
        split at h
        · cases h
        · rename_i columns hcolumns
          split at h
          · cases h
          · rename_i tx₁ hwrite
            have hassign := call_ok hwrite
            cases hassign
            obtain ⟨hl, hc, hr⟩ := replaceGeoTargets_frame h
            exact ⟨scope, columns, hscope, hcolumns, Nat.pos_of_ne_zero hne, hl, hc, hr⟩

theorem link_assignWhere (db : Database) (p : LinkRow → Bool) (c : LinkColumns)
    (password : Option Str) (updatedAt : Option Time) (id : ℤ) :
    (assignWhere db p c password updatedAt).link id =
      (db.link id).map fun r => if p r then c.assign password updatedAt r else r :=
  Table.find_update (keeps_assign c password updatedAt) fun _ => rfl

theorem deleteLink_state (io : Script) (db : Database) (u : User) (id : ℤ) :
    (deleteLink io db u id).2 = db ∨ ∃ p now, (deleteLink io db u id).2 = deleteWhere db p now := by
  unfold deleteLink
  split
  · exact Or.inl rfl
  split
  · exact Or.inl rfl
  · rename_i scope _ _ _
    dsimp only
    generalize (timestamptz (io.now 0)).getD (io.now 0) = now
    have hstate := commitTx_state io db (deleteWhere db (liveInScope id scope) now)
    split <;> rename_i hcommit <;> rw [hcommit] at hstate
    · exact hstate.symm.imp_right fun h => ⟨_, now, h⟩
    · exact hstate.symm.imp_right fun h => ⟨_, now, h⟩

/-! Rows are never removed, keep their id and slug, and stay deleted. -/

def Evolves (before after : Database) : Prop :=
  ∀ r ∈ before.links.rows, ∃ r' ∈ after.links.rows,
    r'.id = r.id ∧ r'.slug = r.slug ∧ (r.deletedAt.isSome → r'.deletedAt.isSome)

theorem Evolves.of_links {before after : Database} (h : after.links = before.links) :
    Evolves before after := by
  intro r hr
  exact ⟨r, by rw [h]; exact hr, rfl, rfl, id⟩

theorem Evolves.trans {a b c : Database} (h : Evolves a b) (k : Evolves b c) : Evolves a c := by
  intro r hr
  obtain ⟨r₁, hr₁, hid₁, hslug₁, hd₁⟩ := h r hr
  obtain ⟨r₂, hr₂, hid₂, hslug₂, hd₂⟩ := k r₁ hr₁
  exact ⟨r₂, hr₂, hid₂.trans hid₁, hslug₂.trans hslug₁, fun hd => hd₂ (hd₁ hd)⟩

theorem Evolves.of_update {db db' : Database} {p : LinkRow → Bool} {f : LinkRow → LinkRow}
    (hf : Table.Keeps linkClash f) (h : db'.links = db.links.update p f hf)
    (hrow : ∀ r, (f r).id = r.id ∧ (f r).slug = r.slug ∧
      (r.deletedAt.isSome → (f r).deletedAt.isSome)) : Evolves db db' := by
  intro r hr
  refine ⟨if p r then f r else r, ?_, ?_⟩
  · rw [h, Table.rows_update]
    exact List.mem_map_of_mem hr
  · by_cases hp : p r = true
    · rw [if_pos hp]
      exact hrow r
    · rw [if_neg hp]
      exact ⟨rfl, rfl, id⟩

theorem Evolves.of_insert {db db' : Database} {row : LinkRow}
    (h : db.links.insert row = some db'.links) : Evolves db db' := by
  intro r hr
  refine ⟨r, ?_, rfl, rfl, id⟩
  rw [(Table.insert_eq_some.mp h).2]
  exact List.mem_append_left _ hr

theorem Evolves.of_inTx {io : Script} {db : Database} {body : Except Err Database}
    (h : ∀ tx, body = .ok tx → Evolves db tx) : Evolves db (inTx io db body).2 := by
  rcases inTx_state io db body with heq | ⟨tx, hbody, heq⟩
  · exact .of_links (by rw [heq])
  · rw [heq]
    exact h tx hbody

theorem evolves_assignWhere (db : Database) (p : LinkRow → Bool) (c : LinkColumns)
    (password : Option Str) (updatedAt : Option Time) :
    Evolves db (assignWhere db p c password updatedAt) :=
  .of_update (keeps_assign c password updatedAt) rfl fun _ => ⟨rfl, rfl, id⟩

theorem evolves_createLinkWrite (io : Script) (db : Database) (random : Str) (u : User)
    (link : Link) (hash : Str) : Evolves db (createLinkWrite io db random u link hash).2 := by
  unfold createLinkWrite
  dsimp only
  split
  · exact .of_links rfl
  split
  · exact .of_links rfl
  · refine Evolves.trans (b := { db with nextLinkId := db.nextLinkId + 1 }) (.of_links rfl) ?_
    refine .of_inTx fun tx hbody => ?_
    obtain ⟨⟨row, -, hi⟩, -⟩ := createLinkTx_links hbody
    exact .of_insert hi

theorem evolves_updateLinkWrite (io : Script) (db : Database) (u : User) (id : ℤ) (link : Link)
    (hash : Str) (changed : Bool) :
    Evolves db (updateLinkWrite io db u id link hash changed).2 := by
  unfold updateLinkWrite
  dsimp only
  split
  · exact .of_links rfl
  · refine .of_inTx fun tx hbody => ?_
    obtain ⟨scope, columns, -, -, -, hl, -⟩ := updateLinkTx_links hbody
    exact (evolves_assignWhere db _ columns _ none).trans (.of_links hl)

theorem evolves_updateEach {io : Script} {n : ℕ} {tx tx' : Database} {updates : List LinkUpdate}
    (h : updateEach io n tx updates = .ok tx') : Evolves tx tx' := by
  induction updates generalizing n tx with
  | nil =>
    cases h
    exact .of_links rfl
  | cons update rest ih =>
    unfold updateEach at h
    split at h
    · cases h
    · rename_i columns hcolumns
      dsimp only at h
      split at h
      · cases h
      · rename_i tx₁ hwrite
        have hassign := call_ok hwrite
        cases hassign
        split at h
        · cases h
        · rename_i tx₂ hgeo
          have hlinks := (replaceGeoTargets_frame hgeo).1
          exact ((evolves_assignWhere tx _ columns _ _).trans (.of_links hlinks)).trans (ih h)

theorem evolves_updateLinksBulkWrite (io : Script) (db : Database) (u : User)
    (updates : List LinkUpdate) : Evolves db (updateLinksBulkWrite io db u updates).2 := by
  unfold updateLinksBulkWrite
  split
  · exact .of_links rfl
  split
  · exact .of_links rfl
  · refine .of_inTx fun tx hbody => ?_
    unfold updateLinksBulkTx at hbody
    split at hbody
    · cases hbody
    split at hbody
    · cases hbody
    split at hbody
    · cases hbody
    · exact evolves_updateEach hbody

theorem evolves_deleteLink (io : Script) (db : Database) (u : User) (id : ℤ) :
    Evolves db (deleteLink io db u id).2 := by
  rcases deleteLink_state io db u id with heq | ⟨p, now, heq⟩
  · exact .of_links (by rw [heq])
  · rw [heq]
    exact .of_update (keeps_markDeleted now) rfl fun _ => ⟨rfl, rfl, fun _ => rfl⟩

end LinkStore
