import ShortQ.AcceptedLinks
import ShortQ.JsonText
import ShortQ.PagedLists
import ShortQ.Placeholders

/-! # The statements of the store

The queries that are put together from conditions, and the arguments put together beside them. -/
namespace StoreStatements

open GoText
open GoTime (Time)
open Hosts (Unicode)
open LinkHandlers (join parseInt)
open LinkStore (chunks updateLinkInput)
open LinkValidation (isoCountryCodes normalizeTags validateLink)
open Models
open PagedLists (Query parseTimeRange queryLimit roleText)
open Placeholders
open Transaction (Err)

/-! ## Scopes -/

/-- `*u.TenantID`. -/
def tenantOf (u : User) : Except Err ℤ :=
  match u.tenantId with
  | none => .error .panic
  | some t => .ok t

def addLinkViewScope (q : Str) (args : List Arg) (u : User) (table : String)
    (includeDeleted : Bool) : Except Err Statement :=
  match u.role with
  | .superadmin => .ok (q, args)
  | .tenant => (tenantOf u).map fun t =>
      (q ++ lit " AND " ++ lit table ++ lit ".tenant_id=?", args ++ [.int t])
  | .customer =>
    match u.tenantId with
    | some t =>
      let deletedClause := if includeDeleted then [] else
        lit " AND " ++ lit table ++ lit ".deleted_at IS NULL"
      .ok (q ++ lit " AND (" ++ lit table ++ lit ".user_id=? OR (" ++ lit table ++
        lit ".tenant_id=? AND " ++ lit table ++ lit ".visibility='department'" ++ deletedClause ++
        lit "))", args ++ [.int u.id, .int t])
    | none => .ok (q ++ lit " AND " ++ lit table ++ lit ".user_id=?", args ++ [.int u.id])

def addLinkManageScope (q : Str) (args : List Arg) (u : User) (table : String) :
    Except Err Statement :=
  match u.role with
  | .superadmin => .ok (q, args)
  | .tenant => (tenantOf u).map fun t =>
      (q ++ lit " AND " ++ lit table ++ lit ".tenant_id=?", args ++ [.int t])
  | .customer => .ok (q ++ lit " AND " ++ lit table ++ lit ".user_id=?", args ++ [.int u.id])

/-! ## Listings -/

def usersSelect : Str :=
  lit ("SELECT id,tenant_id,email,name,role,deletion_access,active," ++ "created_at FROM users")

/-- A tenant lists its own customers. -/
def ownCustomers (scope : User) (g : List Str × List Arg) : Except Err (List Str × List Arg) :=
  match scope.role with
  | .tenant => (tenantOf scope).map fun t =>
      (g.1 ++ [lit "tenant_id=?", lit "role='customer'"], g.2 ++ [.int t])
  | _ => .ok g

/-- The conditions and their arguments are gathered beside each other. -/
def ListUsersPage (unicode : Unicode) (scope : User) (limit cursor : ℤ)
    (search role active : Str) : Except Err Statement := do
  let limit := if limit < 1 || 500 < limit then 10 else limit
  let q := usersSelect
  let g ← ownCustomers scope ([], [])
  let search := trimSpace (unicode.toLower search)
  let g := if search ≠ [] then
      (g.1 ++ [lit "(LOWER(name) LIKE ? OR LOWER(email) LIKE ?)"],
        g.2 ++ [.text (37 :: search ++ [37]), .text (37 :: search ++ [37])])
    else g
  let g := if role ≠ [] ∧ scope.role = .superadmin then
      (g.1 ++ [lit "role=?"], g.2 ++ [.text role]) else g
  let g := if active ≠ [] then
      (g.1 ++ [lit "active=?"], g.2 ++ [.bool (active = lit "true")]) else g
  let g := if 0 < cursor then (g.1 ++ [lit "id<?"], g.2 ++ [.int cursor]) else g
  let q := if g.1 ≠ [] then q ++ lit " WHERE " ++ join (lit " AND ") g.1 else q
  .ok (q ++ lit " ORDER BY id DESC LIMIT ?", g.2 ++ [.int (limit + 1)])

/-- The loop over the filters of a listing. -/
def addFilters (values : Query) (filters : List (String × String)) (s : Statement) : Statement :=
  filters.foldl (fun s filter =>
    let value := trimSpace (values (lit filter.1))
    if value ≠ [] then
      (s.1 ++ lit " AND " ++ lit filter.2 ++ lit "=?", s.2 ++ [.text value])
    else s) s

/-- A condition on a number that the query names, which is positive. -/
def addNumber (values : Query) (key text : String) (condition : Str) (s : Statement) :
    Except Err Statement :=
  if values (lit key) ≠ [] then
    match parseInt (values (lit key)) with
    | none => .error (.rejected (lit text))
    | some n =>
      if n < 1 then .error (.rejected (lit text)) else .ok (s.1 ++ condition, s.2 ++ [.int n])
  else .ok s

def auditSelect : Str :=
  lit ("SELECT id,actor_user_id,actor_email,auth_type,action,target_type," ++
    "target_id,outcome,before_json,after_json,ip_address,user_agent," ++
    "created_at FROM audit_events WHERE 1=1")

def auditFilters : List (String × String) :=
  [("actor", "actor_email"), ("action", "action"), ("target_type", "target_type"),
    ("outcome", "outcome")]

def ListAuditEvents (values : Query) : Except Err Statement := do
  let limit ← queryLimit values 500 "limit must be 1 to 500"
  let (q, args) ← addNumber values "cursor" "cursor must be positive" (lit " AND id<?")
    (auditSelect, [])
  let (q, args) := addFilters values auditFilters (q, args)
  let start := values (lit "from")
  let (q, args) := if start ≠ [] then (q ++ lit " AND created_at>=?", args ++ [.text start])
    else (q, args)
  let stop := values (lit "to")
  let (q, args) := if stop ≠ [] then (q ++ lit " AND created_at<?", args ++ [.text stop])
    else (q, args)
  .ok (q ++ lit " ORDER BY id DESC LIMIT ?", args ++ [.int (limit + 1)])

def clicksSelect : Str :=
  lit ("SELECT c.id,c.link_id,l.slug,c.ip,c.country_code,c.method," ++
    "c.status_code,COALESCE(c.resolved_url,''),c.route_type,c.user_agent," ++
    "c.browser,c.os,c.device,c.is_bot,c.referrer,c.referrer_host," ++
    "c.utm_source,c.utm_medium,c.utm_campaign,c.created_at " ++
    "FROM clicks c JOIN links l ON l.id=c.link_id WHERE l.deleted_at IS NULL")

def clickFilters : List (String × String) :=
  [("device", "c.device"), ("browser", "c.browser"), ("campaign", "c.utm_campaign"),
    ("route_type", "c.route_type")]

/-- The condition on the country, whose code has to exist. -/
def addCountry (values : Query) (s : Statement) : Except Err Statement :=
  let raw := toUpper (trimSpace (values (lit "country")))
  if raw ≠ [] then
    if !isoCountryCodes.contains raw then
      .error (.rejected (lit "country must be an ISO-3166 alpha-2 code"))
    else .ok (s.1 ++ lit " AND c.country_code=?", s.2 ++ [.text raw])
  else .ok s

def ListClicks (u : User) (values : Query) : Except Err Statement := do
  let limit ← queryLimit values 200 "limit must be 1 to 200"
  let (q, args) ← addLinkViewScope clicksSelect [] u "l" false
  let (q, args) ← addNumber values "link_id" "link_id must be a positive integer"
    (lit " AND c.link_id=?") (q, args)
  let (q, args) ← addCountry values (q, args)
  let (q, args) := addFilters values clickFilters (q, args)
  let (start, stop) ← parseTimeRange values
  let (q, args) := if !start.isZero then
      (q ++ lit " AND c.created_at>=?", args ++ [.time start.nanos]) else (q, args)
  let (q, args) := if !stop.isZero then
      (q ++ lit " AND c.created_at<?", args ++ [.time stop.nanos]) else (q, args)
  let (q, args) ← addNumber values "cursor" "cursor must be a positive click id"
    (lit " AND c.id<?") (q, args)
  .ok (q ++ lit " ORDER BY c.id DESC LIMIT ?", args ++ [.int limit])

def linkColumns : Str :=
  lit ("id,user_id,tenant_id,slug,target_url,title,visibility,clicks," ++
    "redirect_code,expires_at,max_clicks,\n" ++
    "COALESCE(expired_url,''),COALESCE(ios_url,'')," ++
    "COALESCE(android_url,''),forward_query,\n" ++
    "utm_source,utm_medium,utm_campaign,utm_term,utm_content," ++
    "COALESCE(tags_json,'[]'),password_hash,created_at,deleted_at")

def listLinks (u : User) (limit cursor : ℤ) : Except Err Statement := do
  let q := lit "SELECT " ++ linkColumns ++ lit " FROM links WHERE deleted_at IS NULL"
  let (q, args) ← addLinkViewScope q [] u "links" false
  let (q, args) := if 0 < cursor then (q ++ lit " AND id<?", args ++ [.int cursor]) else (q, args)
  let q := q ++ lit " ORDER BY id DESC"
  .ok (if 0 < limit then (q ++ lit " LIMIT ?", args ++ [.int limit]) else (q, args))

/-! ## Lists of ids -/

def trimSuffix (suffix s : Str) : Str :=
  if suffix.isSuffixOf s then s.take (s.length - suffix.length) else s

def placeholders (count : ℕ) : Str :=
  if count < 1 then lit "NULL"
  else trimSuffix (lit ",") (List.replicate count (lit "?,")).flatten

/-- The statement for the ids of one chunk. -/
def linksChunk (u : User) (ids : List ℤ) : Except Err Statement :=
  let args := ids.map Arg.int
  let q := lit "SELECT " ++ linkColumns ++ lit " FROM links WHERE deleted_at IS NULL AND id IN (" ++
    placeholders ids.length ++ lit ")"
  addLinkViewScope q args u "links" false

def chunk (ids : List ℤ) (i : ℕ) : List ℤ := (ids.drop (500 * i)).take 500

/-- The statements of the loop, 500 ids each. -/
def LinksByIDs (u : User) (ids : List ℤ) : Except Err (List Statement) :=
  (List.range (chunks ids.length)).mapM fun i => linksChunk u (chunk ids i)

def DeleteLinksBulk (u : User) (ids : List ℤ) : Except Err (List Statement) :=
  if ids.length = 0 then .ok []
  else
    let q := lit ("UPDATE links SET deleted_at=CURRENT_TIMESTAMP " ++
      "WHERE deleted_at IS NULL AND id IN (") ++ placeholders ids.length ++ lit ")"
    let args := ids.map Arg.int
    (addLinkManageScope q args u "links").map fun s => [s]

/-! ## Updates -/

/-- The columns of the update, in the order in which it sets them. -/
def updateSet : Str :=
  lit ("UPDATE links SET target_url=?,title=?,visibility=?,redirect_code=?" ++
    ",expires_at=?,max_clicks=?,expired_url=?,ios_url=?,android_url=?" ++
    ",forward_query=?,utm_source=?,utm_medium=?,utm_campaign=?,utm_term=?" ++
    ",utm_content=?,tags_json=?")

def timeArg (t : Option Time) : Arg := t.elim .null fun t => .time t.nanos

def countArg (n : Option ℤ) : Arg := n.elim .null .int

/-- `json.Marshal` of the tags. -/
def tagsJson (tags : List Str) : Str :=
  JsonText.render (.array (tags.map fun tag => .string tag (JsonValues.escapes tag)))

def updateArgs (link : Link) (tags : Str) : List Arg :=
  [.text link.targetUrl, .text link.title, .text link.visibility, .int link.redirectCode,
    timeArg link.expiresAt, countArg link.maxClicks, .text link.expiredUrl, .text link.iosUrl,
    .text link.androidUrl, .bool link.forwardQuery, .text link.utmSource, .text link.utmMedium,
    .text link.utmCampaign, .text link.utmTerm, .text link.utmContent, .bytes tags]

def UpdateLink (u : User) (id : ℤ) (link : Link) (passwordHash : Str) (passwordChanged : Bool) :
    Except Err (List Statement) := do
  let link := updateLinkInput link passwordHash passwordChanged
  match validateLink link with
  | some text => .error (.rejected text)
  | none =>
    let tags := tagsJson (normalizeTags link.tags)
    let (checkQ, checkArgs) ← addLinkManageScope
      (lit "SELECT id FROM links WHERE id=? AND deleted_at IS NULL") [.int id] u "links"
    let checkQ := checkQ ++ lit " FOR UPDATE"
    let q := updateSet
    let args := updateArgs link tags
    let (q, args) := if passwordChanged then
        (q ++ lit ",password_hash=?", args ++ [.bytes passwordHash]) else (q, args)
    let q := q ++ lit " WHERE id=? AND deleted_at IS NULL"
    let args := args ++ [.int id]
    let update ← addLinkManageScope q args u "links"
    .ok [(checkQ, checkArgs), update]

/-! ## What the conditions mean

Each value stands in the condition it is compared in. -/

def tenantArg (u : User) : Arg := u.tenantId.elim .null .int

def viewScope (u : User) (table : String) (includeDeleted : Bool) : List Part :=
  match u.role with
  | .superadmin => []
  | .tenant => condition (lit " AND " ++ lit table ++ lit ".tenant_id=") (tenantArg u)
  | .customer =>
    match u.tenantId with
    | some t =>
      condition (lit " AND (" ++ lit table ++ lit ".user_id=") (.int u.id) ++
        condition (lit " OR (" ++ lit table ++ lit ".tenant_id=") (.int t) ++
        [.sql (lit " AND " ++ lit table ++ lit ".visibility='department'" ++
          (if includeDeleted then [] else lit " AND " ++ lit table ++ lit ".deleted_at IS NULL") ++
          lit "))")]
    | none => condition (lit " AND " ++ lit table ++ lit ".user_id=") (.int u.id)

def manageScope (u : User) (table : String) : List Part :=
  match u.role with
  | .superadmin => []
  | .tenant => condition (lit " AND " ++ lit table ++ lit ".tenant_id=") (tenantArg u)
  | .customer => condition (lit " AND " ++ lit table ++ lit ".user_id=") (.int u.id)

def usersConditions (unicode : Unicode) (scope : User) (cursor : ℤ) (search role active : Str) :
    List (List Part) :=
  let pattern : Arg := .text (37 :: trimSpace (unicode.toLower search) ++ [37])
  (if scope.role = .tenant then
    [condition (lit "tenant_id=") (tenantArg scope), [.sql (lit "role='customer'")]] else []) ++
  (if trimSpace (unicode.toLower search) ≠ [] then
    [condition (lit "(LOWER(name) LIKE ") pattern ++
      condition (lit " OR LOWER(email) LIKE ") pattern ++ [.sql (lit ")")]] else []) ++
  (if role ≠ [] ∧ scope.role = .superadmin then [condition (lit "role=") (.text role)] else []) ++
  (if active ≠ [] then [condition (lit "active=") (.bool (active = lit "true"))] else []) ++
  (if 0 < cursor then [condition (lit "id<") (.int cursor)] else [])

def conjunction : List (List Part) → List Part
  | [] => []
  | first :: rest =>
    .sql (lit " WHERE ") :: first ++ rest.flatMap fun c => .sql (lit " AND ") :: c

def usersMeant (unicode : Unicode) (scope : User) (limit cursor : ℤ) (search role active : Str) :
    List Part :=
  [.sql usersSelect] ++ conjunction (usersConditions unicode scope cursor search role active) ++
    condition (lit " ORDER BY id DESC LIMIT ")
      (.int ((if limit < 1 || 500 < limit then 10 else limit) + 1))

def numberMeant (values : Query) (key : String) (text : Str) : List Part :=
  if values (lit key) ≠ [] then
    condition text ((parseInt (values (lit key))).elim .null .int) else []

def filterMeant (values : Query) (filter : String × String) : List Part :=
  if trimSpace (values (lit filter.1)) ≠ [] then
    condition (lit " AND " ++ lit filter.2 ++ lit "=") (.text (trimSpace (values (lit filter.1))))
  else []

def rawMeant (value : Str) (text : String) : List Part :=
  if value ≠ [] then condition (lit text) (.text value) else []

def timeMeant (t : Time) (text : String) : List Part :=
  if !t.isZero then condition (lit text) (.time t.nanos) else []

def limitOf (values : Query) (most : ℤ) (text : String) : ℤ :=
  match queryLimit values most text with
  | .ok limit => limit
  | .error _ => 0

def auditMeant (values : Query) : List Part :=
  [.sql auditSelect] ++ numberMeant values "cursor" (lit " AND id<") ++
    auditFilters.flatMap (filterMeant values) ++
    rawMeant (values (lit "from")) " AND created_at>=" ++
    rawMeant (values (lit "to")) " AND created_at<" ++
    condition (lit " ORDER BY id DESC LIMIT ")
      (.int (limitOf values 500 "limit must be 1 to 500" + 1))

def rangeOf (values : Query) : Time × Time :=
  match parseTimeRange values with
  | .ok range => range
  | .error _ => (GoTime.zero, GoTime.zero)

def clicksMeant (u : User) (values : Query) : List Part :=
  [.sql clicksSelect] ++ viewScope u "l" false ++
    numberMeant values "link_id" (lit " AND c.link_id=") ++
    rawMeant (toUpper (trimSpace (values (lit "country")))) " AND c.country_code=" ++
    clickFilters.flatMap (filterMeant values) ++
    timeMeant (rangeOf values).1 " AND c.created_at>=" ++
    timeMeant (rangeOf values).2 " AND c.created_at<" ++
    numberMeant values "cursor" (lit " AND c.id<") ++
    condition (lit " ORDER BY c.id DESC LIMIT ")
      (.int (limitOf values 200 "limit must be 1 to 200"))

def linksMeant (u : User) (limit cursor : ℤ) : List Part :=
  [.sql (lit "SELECT " ++ linkColumns ++ lit " FROM links WHERE deleted_at IS NULL")] ++
    viewScope u "links" false ++
    (if 0 < cursor then condition (lit " AND id<") (.int cursor) else []) ++
    [.sql (lit " ORDER BY id DESC")] ++
    (if 0 < limit then condition (lit " LIMIT ") (.int limit) else [])

/-- A list of ids, each in its own place. -/
def idsMeant : List ℤ → List Part
  | [] => []
  | [i] => [.value (.int i)]
  | i :: j :: rest => .value (.int i) :: .sql (lit ",") :: idsMeant (j :: rest)

def chunkMeant (u : User) (ids : List ℤ) : List Part :=
  [.sql (lit "SELECT " ++ linkColumns ++
      lit " FROM links WHERE deleted_at IS NULL AND id IN (")] ++ idsMeant ids ++
    [.sql (lit ")")] ++ viewScope u "links" false

def deleteMeant (u : User) (ids : List ℤ) : List Part :=
  [.sql (lit ("UPDATE links SET deleted_at=CURRENT_TIMESTAMP " ++
      "WHERE deleted_at IS NULL AND id IN ("))] ++ idsMeant ids ++ [.sql (lit ")")] ++
    manageScope u "links"

def checkMeant (u : User) (id : ℤ) : List Part :=
  condition (lit "SELECT id FROM links WHERE id=") (.int id) ++
    [.sql (lit " AND deleted_at IS NULL")] ++ manageScope u "links" ++ [.sql (lit " FOR UPDATE")]

/-- Each column with the field it is set to. -/
def setMeant (link : Link) : List (String × Arg) :=
  [("UPDATE links SET target_url=", .text link.targetUrl), (",title=", .text link.title),
    (",visibility=", .text link.visibility), (",redirect_code=", .int link.redirectCode),
    (",expires_at=", timeArg link.expiresAt), (",max_clicks=", countArg link.maxClicks),
    (",expired_url=", .text link.expiredUrl), (",ios_url=", .text link.iosUrl),
    (",android_url=", .text link.androidUrl), (",forward_query=", .bool link.forwardQuery),
    (",utm_source=", .text link.utmSource), (",utm_medium=", .text link.utmMedium),
    (",utm_campaign=", .text link.utmCampaign), (",utm_term=", .text link.utmTerm),
    (",utm_content=", .text link.utmContent),
    (",tags_json=", .bytes (tagsJson (normalizeTags link.tags)))]

def updateMeant (u : User) (id : ℤ) (link : Link) (passwordHash : Str) (passwordChanged : Bool) :
    List Part :=
  (setMeant (updateLinkInput link passwordHash passwordChanged)).flatMap
      (fun c => condition (lit c.1) c.2) ++
    (if passwordChanged then condition (lit ",password_hash=") (.bytes passwordHash) else []) ++
    condition (lit " WHERE id=") (.int id) ++ [.sql (lit " AND deleted_at IS NULL")] ++
    manageScope u "links"

/-! ## The texts are quiet -/

theorem quiet_chars (l : List Char) (h : quiet (l.flatMap String.utf8EncodeChar) = true) :
    quiet (lit (String.ofList l)) = true := by
  rw [Runes.lit_ofList]
  exact h

theorem quiet_lit {s t : String} (hs : quiet (lit s) = true) (ht : quiet (lit t) = true) :
    quiet (lit (s ++ t)) = true := by
  rw [Runes.lit_append]
  exact quiet_append hs ht

theorem quiet_usersSelect : quiet usersSelect = true :=
  quiet_lit (quiet_chars _ (by decide +kernel)) (quiet_chars _ (by decide +kernel))

theorem quiet_auditSelect : quiet auditSelect = true :=
  quiet_lit (quiet_lit (quiet_chars _ (by decide +kernel)) (quiet_chars _ (by decide +kernel)))
    (quiet_chars _ (by decide +kernel))

theorem quiet_clicksSelect : quiet clicksSelect = true :=
  quiet_lit (quiet_lit (quiet_lit (quiet_lit (quiet_chars _ (by decide +kernel))
    (quiet_chars _ (by decide +kernel))) (quiet_chars _ (by decide +kernel)))
    (quiet_chars _ (by decide +kernel))) (quiet_chars _ (by decide +kernel))

theorem quiet_linkColumns : quiet linkColumns = true :=
  quiet_lit (quiet_lit (quiet_lit (quiet_lit (quiet_lit (quiet_chars _ (by decide +kernel))
    (quiet_chars _ (by decide +kernel))) (quiet_chars _ (by decide +kernel)))
    (quiet_chars _ (by decide +kernel))) (quiet_chars _ (by decide +kernel)))
    (quiet_chars _ (by decide +kernel))

theorem quiet_linksWhere :
    quiet (lit "SELECT " ++ linkColumns ++ lit " FROM links WHERE deleted_at IS NULL") = true :=
  quiet_append (quiet_append (quiet_chars _ (by decide +kernel)) quiet_linkColumns)
    (quiet_chars _ (by decide +kernel))

theorem quiet_linksIn : quiet (lit "SELECT " ++ linkColumns ++
    lit " FROM links WHERE deleted_at IS NULL AND id IN (") = true :=
  quiet_append (quiet_append (quiet_chars _ (by decide +kernel)) quiet_linkColumns)
    (quiet_chars _ (by decide +kernel))

/-! ## The scopes as built -/

section Steps

theorem lit_mark (text : String) : lit (text ++ "?") = lit text ++ [63] := by
  rw [Runes.lit_append]
  rfl

variable {q : Str} {args : List Arg} {parts : List Part} {s : Statement}

theorem made_scoped_by {table column written : String} (h : Made (q, args) parts) (arg : Arg)
    (hwritten : lit written = lit column ++ [63]) :
    Made (q ++ lit " AND " ++ lit table ++ lit written, args ++ [arg])
      (parts ++ condition (lit " AND " ++ lit table ++ lit column) arg) := by
  have htext : lit " AND " ++ lit table ++ lit written =
      lit " AND " ++ lit table ++ lit column ++ [63] := by
    rw [hwritten]
    simp only [List.append_assoc]
  have hvalue := h.value arg htext
  simpa only [List.append_assoc] using hvalue

/-- A condition whose text goes on behind its value. -/
theorem made_between {before after written : Str} (h : Made s parts) (arg : Arg)
    (hwritten : written = before ++ 63 :: after) :
    Made (s.1 ++ written, s.2 ++ [arg]) (parts ++ condition before arg ++ [.sql after]) := by
  have htext : s.1 ++ written = s.1 ++ (before ++ [63]) ++ after := by
    simp [hwritten]
  rw [htext]
  exact (Made.value h arg rfl).text after

theorem tenantOf_ok {u : User} {t : ℤ} (h : tenantOf u = .ok t) : u.tenantId = some t := by
  unfold tenantOf at h
  cases htenant : u.tenantId with
  | none =>
    rw [htenant] at h
    cases h
  | some t' =>
    rw [htenant] at h
    cases h
    rfl

theorem map_tenantOf {α : Type} {u : User} {f : ℤ → α} {a : α}
    (h : (tenantOf u).map f = .ok a) : ∃ t, u.tenantId = some t ∧ a = f t := by
  cases ht : tenantOf u with
  | error e =>
    rw [ht] at h
    cases h
  | ok t =>
    rw [ht] at h
    cases h
    exact ⟨t, tenantOf_ok ht, rfl⟩

theorem made_viewScope {u : User} {table : String} {includeDeleted : Bool}
    (h : Made (q, args) parts) (hs : addLinkViewScope q args u table includeDeleted = .ok s) :
    Made s (parts ++ viewScope u table includeDeleted) := by
  unfold addLinkViewScope at hs
  unfold viewScope
  cases hrole : u.role with
  | superadmin =>
    rw [hrole] at hs
    cases hs
    rw [List.append_nil]
    exact h
  | tenant =>
    rw [hrole] at hs
    obtain ⟨t, htenant, rfl⟩ := map_tenantOf hs
    rw [tenantArg, htenant]
    exact made_scoped_by h _ (by decide)
  | customer =>
    rw [hrole] at hs
    cases htenant : u.tenantId with
    | none =>
      rw [htenant] at hs
      cases hs
      exact made_scoped_by h _ (by decide)
    | some t =>
      rw [htenant] at hs
      cases hs
      have howner : lit ".user_id=? OR (" = lit ".user_id=" ++ 63 :: lit " OR (" := by decide
      have htenant : lit ".tenant_id=? AND " = lit ".tenant_id=" ++ 63 :: lit " AND " := by decide
      cases h
      rw [Made, query_append, values_append, howner, htenant]
      simp only [query, values, condition, List.flatMap_cons, List.flatMap_nil,
        List.append_assoc, List.cons_append, List.nil_append, List.append_nil]

theorem made_manageScope {u : User} {table : String} (h : Made (q, args) parts)
    (hs : addLinkManageScope q args u table = .ok s) :
    Made s (parts ++ manageScope u table) := by
  unfold addLinkManageScope at hs
  unfold manageScope
  cases hrole : u.role with
  | superadmin =>
    rw [hrole] at hs
    cases hs
    rw [List.append_nil]
    exact h
  | tenant =>
    rw [hrole] at hs
    obtain ⟨t, htenant, rfl⟩ := map_tenantOf hs
    rw [tenantArg, htenant]
    exact made_scoped_by h _ (by decide)
  | customer =>
    rw [hrole] at hs
    cases hs
    exact made_scoped_by h _ (by decide)

/-- One optional condition. -/
theorem made_if (c : Prop) [Decidable c] {written : Str} (text : Str) (arg : Arg)
    (h : Made s parts) (hwritten : written = text ++ [63]) :
    Made (if c then (s.1 ++ written, s.2 ++ [arg]) else s)
      (parts ++ if c then condition text arg else []) := by
  by_cases hc : c
  · rw [if_pos hc, if_pos hc]
    exact h.value arg hwritten
  · rw [if_neg hc, if_neg hc, List.append_nil]
    exact h

theorem made_filter {values : Query} {filter : String × String} (h : Made s parts) :
    Made (if trimSpace (values (lit filter.1)) ≠ [] then
        (s.1 ++ lit " AND " ++ lit filter.2 ++ lit "=?",
          s.2 ++ [.text (trimSpace (values (lit filter.1)))])
      else s) (parts ++ filterMeant values filter) := by
  unfold filterMeant
  by_cases hvalue : trimSpace (values (lit filter.1)) ≠ []
  · rw [if_pos hvalue, if_pos hvalue]
    exact made_scoped_by h _ (by decide)
  · rw [if_neg hvalue, if_neg hvalue, List.append_nil]
    exact h

theorem made_filters {values : Query} {filters : List (String × String)} (h : Made s parts) :
    Made (addFilters values filters s) (parts ++ filters.flatMap (filterMeant values)) := by
  induction filters generalizing s parts with
  | nil =>
    rw [List.flatMap_nil, List.append_nil]
    exact h
  | cons filter filters ih =>
    rw [List.flatMap_cons, ← List.append_assoc]
    exact ih (made_filter h)

theorem made_number {values : Query} {key text : String} {written : Str} {s' : Statement}
    (before : Str) (h : Made s parts) (hwritten : written = before ++ [63])
    (hs : addNumber values key text written s = .ok s') :
    Made s' (parts ++ numberMeant values key before) := by
  unfold addNumber at hs
  unfold numberMeant
  by_cases hvalue : values (lit key) ≠ []
  · rw [if_pos hvalue] at hs ⊢
    cases hn : parseInt (values (lit key)) with
    | none =>
      rw [hn] at hs
      cases hs
    | some n =>
      rw [hn] at hs
      change (if n < 1 then _ else _) = _ at hs
      by_cases hsmall : n < 1
      · rw [if_pos hsmall] at hs
        cases hs
      · rw [if_neg hsmall] at hs
        cases hs
        exact h.value _ hwritten
  · rw [if_neg hvalue] at hs ⊢
    cases hs
    rw [List.append_nil]
    exact h

theorem made_country {values : Query} {s' : Statement} (h : Made s parts)
    (hs : addCountry values s = .ok s') : Made s' (parts ++
      rawMeant (toUpper (trimSpace (values (lit "country")))) " AND c.country_code=") := by
  unfold addCountry at hs
  dsimp only at hs
  unfold rawMeant
  by_cases hraw : toUpper (trimSpace (values (lit "country"))) ≠ []
  · rw [if_pos hraw] at hs ⊢
    by_cases hcode : isoCountryCodes.contains (toUpper (trimSpace (values (lit "country"))))
    · rw [hcode] at hs
      cases hs
      exact h.value _ (by decide)
    · rw [if_pos (by simpa using hcode)] at hs
      cases hs
  · rw [if_neg hraw] at hs ⊢
    cases hs
    rw [List.append_nil]
    exact h

theorem bind_ok {α β : Type} {x : Except Err α} {f : α → Except Err β} {b : β}
    (h : (x >>= f) = .ok b) : ∃ a, x = .ok a ∧ f a = .ok b := by
  cases x with
  | error e => cases h
  | ok a => exact ⟨a, rfl, h⟩

end Steps

/-! ## The statements as built -/

theorem ListAuditEvents_made {values : Query} {s : Statement}
    (h : ListAuditEvents values = .ok s) : Made s (auditMeant values) := by
  unfold ListAuditEvents at h
  obtain ⟨limit, hlimit, h⟩ := bind_ok h
  obtain ⟨⟨q, args⟩, hcursor, h⟩ := bind_ok h
  obtain rfl := Except.ok.inj h
  have hmade := made_number (lit " AND id<") (Made.nil auditSelect) (by decide) hcursor
  have hfilters := @made_filters _ _ values auditFilters hmade
  have hstart := made_if (values (lit "from") ≠ []) (lit " AND created_at>=")
    (.text (values (lit "from"))) hfilters (lit_mark " AND created_at>=")
  have hstop := made_if (values (lit "to") ≠ []) (lit " AND created_at<")
    (.text (values (lit "to"))) hstart (lit_mark " AND created_at<")
  have hlimit' : (limit : ℤ) = limitOf values 500 "limit must be 1 to 500" := by
    rw [limitOf, hlimit]
  rw [auditMeant, ← hlimit']
  exact hstop.value _ (lit_mark " ORDER BY id DESC LIMIT ")

theorem ListClicks_made {u : User} {values : Query} {s : Statement}
    (h : ListClicks u values = .ok s) : Made s (clicksMeant u values) := by
  unfold ListClicks at h
  obtain ⟨limit, hlimit, h⟩ := bind_ok h
  obtain ⟨⟨q, args⟩, hscope, h⟩ := bind_ok h
  have hmade := made_viewScope (Made.nil clicksSelect) hscope
  obtain ⟨⟨q₁, args₁⟩, hlink, h⟩ := bind_ok h
  have hlinked := made_number (lit " AND c.link_id=") hmade (by decide) hlink
  obtain ⟨⟨q₂, args₂⟩, hcountry, h⟩ := bind_ok h
  have hplaced := made_country hlinked hcountry
  have hfilters := @made_filters _ _ values clickFilters hplaced
  obtain ⟨⟨start, stop⟩, hrange, h⟩ := bind_ok h
  have hstart := made_if (!start.isZero) (lit " AND c.created_at>=") (.time start.nanos) hfilters
    (lit_mark " AND c.created_at>=")
  have hstop := made_if (!stop.isZero) (lit " AND c.created_at<") (.time stop.nanos) hstart
    (lit_mark " AND c.created_at<")
  obtain ⟨⟨q₃, args₃⟩, hcursor, h⟩ := bind_ok h
  have hended := made_number (lit " AND c.id<") hstop (by decide) hcursor
  obtain rfl := Except.ok.inj h
  have hlimit' : (limit : ℤ) = limitOf values 200 "limit must be 1 to 200" := by
    rw [limitOf, hlimit]
  have hrange' : rangeOf values = (start, stop) := by rw [rangeOf, hrange]
  rw [clicksMeant, hrange', ← hlimit']
  exact hended.value _ (lit_mark " ORDER BY c.id DESC LIMIT ")

theorem listLinks_made {u : User} {limit cursor : ℤ} {s : Statement}
    (h : listLinks u limit cursor = .ok s) : Made s (linksMeant u limit cursor) := by
  unfold listLinks at h
  obtain ⟨⟨q, args⟩, hscope, h⟩ := bind_ok h
  obtain rfl := Except.ok.inj h
  have hmade := made_viewScope (Made.nil _) hscope
  have hafter := made_if (0 < cursor) (lit " AND id<") (.int cursor) hmade (lit_mark " AND id<")
  have hordered := hafter.text (lit " ORDER BY id DESC")
  exact made_if (0 < limit) (lit " LIMIT ") (.int limit) hordered (lit_mark " LIMIT ")

/-! ## Conditions that are joined -/

/-- Conditions and arguments that were gathered beside each other. -/
def Gathered (g : List Str × List Arg) (conditions : List (List Part)) : Prop :=
  g = (conditions.map query, conditions.flatMap values)

theorem Gathered.append {g : List Str × List Arg} {cs : List (List Part)} (h : Gathered g cs)
    (ds : List (List Part)) :
    Gathered (g.1 ++ ds.map query, g.2 ++ ds.flatMap values) (cs ++ ds) := by
  cases h
  rw [Gathered, List.map_append, List.flatMap_append]

theorem gathered_if (c : Prop) [Decidable c] {g : List Str × List Arg}
    {cs : List (List Part)} (ds : List (List Part)) (h : Gathered g cs) {written : List Str}
    {args : List Arg} (hwritten : written = ds.map query) (hargs : args = ds.flatMap values) :
    Gathered (if c then (g.1 ++ written, g.2 ++ args) else g) (cs ++ if c then ds else []) := by
  by_cases hc : c
  · rw [if_pos hc, if_pos hc, hwritten, hargs]
    exact h.append ds
  · rw [if_neg hc, if_neg hc, List.append_nil]
    exact h

theorem query_condition (text : String) (arg : Arg) :
    query (condition (lit text) arg) = lit (text ++ "?") := (lit_mark text).symm

theorem join_cons (sep first : Str) (rest : List Str) :
    join sep (first :: rest) = first ++ rest.flatMap fun text => sep ++ text := by
  induction rest generalizing first with
  | nil => simp [join]
  | cons second rest ih =>
    have hcons : join sep (first :: second :: rest) =
        first ++ (sep ++ join sep (second :: rest)) := by
      simp [join]
    rw [hcons, ih, List.flatMap_cons, List.append_assoc]

theorem query_conjunction (cs : List (List Part)) : query (conjunction cs) =
    if cs.map query ≠ [] then lit " WHERE " ++ join (lit " AND ") (cs.map query) else [] := by
  cases cs with
  | nil => rfl
  | cons first rest =>
    have hrest : query (rest.flatMap fun c => .sql (lit " AND ") :: c) =
        (rest.map query).flatMap fun text => lit " AND " ++ text := by
      induction rest with
      | nil => rfl
      | cons second rest ih =>
        rw [List.flatMap_cons, query_append, ih, List.map_cons, List.flatMap_cons]
        rfl
    rw [List.map_cons, if_pos (List.cons_ne_nil _ _), join_cons, ← hrest, conjunction,
      query_append]
    rfl

theorem values_conjunction (cs : List (List Part)) :
    values (conjunction cs) = cs.flatMap values := by
  cases cs with
  | nil => rfl
  | cons first rest =>
    have hrest : values (rest.flatMap fun c => .sql (lit " AND ") :: c) =
        rest.flatMap values := by
      induction rest with
      | nil => rfl
      | cons second rest ih =>
        rw [List.flatMap_cons, values_append, ih, List.flatMap_cons]
        rfl
    rw [conjunction, values_append, hrest, List.flatMap_cons]
    rfl

theorem Gathered.made {g : List Str × List Arg} {cs : List (List Part)} (h : Gathered g cs)
    (text : Str) :
    Made (if g.1 ≠ [] then text ++ lit " WHERE " ++ join (lit " AND ") g.1 else text, g.2)
      ([.sql text] ++ conjunction cs) := by
  cases h
  rw [Made, query_append, values_append, query_conjunction, values_conjunction]
  have htext : query [.sql text] = text := List.append_nil text
  rw [htext]
  by_cases hcs : cs.map query ≠ []
  · rw [if_pos hcs, if_pos hcs, List.append_assoc]
    rfl
  · rw [if_neg hcs, if_neg hcs, List.append_nil]
    rfl

theorem gathered_tenant {u : User} {g : List Str × List Arg}
    (h : ownCustomers u ([], []) = .ok g) :
    Gathered g (if u.role = .tenant then
      [condition (lit "tenant_id=") (tenantArg u), [.sql (lit "role='customer'")]] else []) := by
  unfold ownCustomers at h
  cases hrole : u.role with
  | superadmin =>
    rw [hrole] at h
    cases h
    rfl
  | customer =>
    rw [hrole] at h
    cases h
    rfl
  | tenant =>
    rw [hrole] at h
    obtain ⟨t, htenant, rfl⟩ := map_tenantOf h
    rw [if_pos rfl, tenantArg, htenant]
    rfl

theorem gathered_condition (c : Prop) [Decidable c] {g : List Str × List Arg}
    {cs : List (List Part)} (text : String) (arg : Arg) (h : Gathered g cs) :
    Gathered (if c then (g.1 ++ [lit (text ++ "?")], g.2 ++ [arg]) else g)
      (cs ++ if c then [condition (lit text) arg] else []) :=
  gathered_if c [condition (lit text) arg] h
    (congrArg (fun text => [text]) (query_condition text arg).symm) rfl

theorem query_pattern (arg : Arg) :
    query (condition (lit "(LOWER(name) LIKE ") arg ++
      condition (lit " OR LOWER(email) LIKE ") arg ++ [.sql (lit ")")]) =
    lit "(LOWER(name) LIKE ? OR LOWER(email) LIKE ?)" := by
  change lit "(LOWER(name) LIKE " ++ [63] ++ (lit " OR LOWER(email) LIKE " ++ [63] ++ lit ")") = _
  decide

theorem ListUsersPage_made {unicode : Unicode} {scope : User} {limit cursor : ℤ}
    {search role active : Str} {s : Statement}
    (h : ListUsersPage unicode scope limit cursor search role active = .ok s) :
    Made s (usersMeant unicode scope limit cursor search role active) := by
  unfold ListUsersPage at h
  obtain ⟨g, htenant, h⟩ := bind_ok h
  obtain rfl := Except.ok.inj h
  have hpattern := gathered_if (trimSpace (unicode.toLower search) ≠ []) [_]
    (gathered_tenant htenant)
    (congrArg (fun text => [text]) (query_pattern
      (.text (37 :: trimSpace (unicode.toLower search) ++ [37]))).symm) rfl
  have hrole := gathered_condition (role ≠ [] ∧ scope.role = .superadmin) "role=" (.text role)
    hpattern
  have hactive := gathered_condition (active ≠ []) "active=" (.bool (active = lit "true")) hrole
  have hcursor := gathered_condition (0 < cursor) "id<" (.int cursor) hactive
  exact (hcursor.made usersSelect).value _ (lit_mark " ORDER BY id DESC LIMIT ")

/-! ## Lists of ids as built -/

theorem values_idsMeant (ids : List ℤ) : values (idsMeant ids) = ids.map Arg.int := by
  induction ids with
  | nil => rfl
  | cons i rest ih =>
    cases rest with
    | nil => rfl
    | cons j rest =>
      change Arg.int i :: values (idsMeant (j :: rest)) = _
      rw [ih]
      rfl

/-- The marks as written, with a comma behind each. -/
theorem query_idsMeant {ids : List ℤ} (h : ids ≠ []) :
    query (idsMeant ids) ++ lit "," = (List.replicate ids.length (lit "?,")).flatten := by
  induction ids with
  | nil => exact absurd rfl h
  | cons i rest ih =>
    cases rest with
    | nil =>
      change 63 :: lit "," = lit "?," ++ []
      decide
    | cons j rest =>
      have htail := ih (List.cons_ne_nil j rest)
      rw [List.length_cons, List.replicate_succ, List.flatten_cons, ← htail, idsMeant]
      rfl

theorem trimSuffix_append (s suffix : Str) : trimSuffix suffix (s ++ suffix) = s := by
  rw [trimSuffix, if_pos (by simp), List.length_append, Nat.add_sub_cancel, List.take_left]

theorem placeholders_length {ids : List ℤ} (h : ids ≠ []) :
    placeholders ids.length = query (idsMeant ids) := by
  have hcount : ¬ ids.length < 1 := by
    have := List.length_pos_iff.mpr h
    omega
  rw [placeholders, if_neg hcount, ← query_idsMeant h, trimSuffix_append]

theorem made_ids (before after : Str) {ids : List ℤ} (h : ids ≠ []) :
    Made (before ++ placeholders ids.length ++ after, ids.map Arg.int)
      ([.sql before] ++ idsMeant ids ++ [.sql after]) := by
  rw [Made, query_append, query_append, values_append, values_append, placeholders_length h,
    values_idsMeant]
  exact congrArg₂ Prod.mk (by simp [query]) (by simp [values])

theorem linksChunk_made {u : User} {ids : List ℤ} {s : Statement} (hids : ids ≠ [])
    (h : linksChunk u ids = .ok s) : Made s (chunkMeant u ids) :=
  made_viewScope (made_ids _ (lit ")") hids) h

theorem chunk_nonempty {ids : List ℤ} {i : ℕ} (h : i < chunks ids.length) : chunk ids i ≠ [] := by
  have hstart : 500 * i < ids.length := by
    unfold chunks at h
    omega
  intro hempty
  have hlength := congrArg List.length hempty
  rw [chunk, List.length_take, List.length_drop, List.length_nil] at hlength
  omega

theorem mapM_forall₂ {α β : Type} {f : α → Except Err β} {P : α → β → Prop} {as : List α}
    {bs : List β} (h : as.mapM f = .ok bs) (hP : ∀ a ∈ as, ∀ b, f a = .ok b → P a b) :
    List.Forall₂ P as bs := by
  induction as generalizing bs with
  | nil =>
    cases h
    exact .nil
  | cons a as ih =>
    rw [List.mapM_cons] at h
    obtain ⟨b, hb, h⟩ := bind_ok h
    obtain ⟨rest, hrest, h⟩ := bind_ok h
    cases h
    exact .cons (hP a List.mem_cons_self b hb)
      (ih hrest fun a' ha' => hP a' (List.mem_cons_of_mem a ha'))

/-- One statement for each chunk, in their order. -/
theorem LinksByIDs_made {u : User} {ids : List ℤ} {ss : List Statement}
    (h : LinksByIDs u ids = .ok ss) :
    List.Forall₂ (fun i s => Made s (chunkMeant u (chunk ids i)))
      (List.range (chunks ids.length)) ss :=
  mapM_forall₂ h fun _ hi _ hs => linksChunk_made (chunk_nonempty (List.mem_range.mp hi)) hs

theorem DeleteLinksBulk_made {u : User} {ids : List ℤ} {ss : List Statement}
    (h : DeleteLinksBulk u ids = .ok ss) :
    List.Forall₂ Made ss (if ids = [] then [] else [deleteMeant u ids]) := by
  unfold DeleteLinksBulk at h
  by_cases hids : ids = []
  · rw [if_pos (by rw [hids]; rfl)] at h
    rw [if_pos hids, ← Except.ok.inj h]
    exact .nil
  · rw [if_neg (by simpa using hids)] at h
    rw [if_neg hids]
    dsimp only at h
    cases hs : addLinkManageScope _ _ u "links" with
    | error e =>
      rw [hs] at h
      cases h
    | ok s =>
      rw [hs] at h
      cases h
      exact .cons (made_manageScope (made_ids _ (lit ")") hids) hs) .nil

/-! ## The update as built -/

/-- The columns an update sets, in their order. -/
def columns : List String :=
  ["UPDATE links SET target_url=", ",title=", ",visibility=", ",redirect_code=", ",expires_at=",
    ",max_clicks=", ",expired_url=", ",ios_url=", ",android_url=", ",forward_query=",
    ",utm_source=", ",utm_medium=", ",utm_campaign=", ",utm_term=", ",utm_content=",
    ",tags_json="]

theorem query_columns (set : List (String × Arg)) :
    query (set.flatMap fun c => condition (lit c.1) c.2) =
      (set.map Prod.fst).flatMap fun column => lit column ++ [63] := by
  induction set with
  | nil => rfl
  | cons c set ih =>
    rw [List.flatMap_cons, query_append, ih]
    rfl

theorem values_columns (set : List (String × Arg)) :
    values (set.flatMap fun c => condition (lit c.1) c.2) = set.map Prod.snd := by
  induction set with
  | nil => rfl
  | cons c set ih =>
    rw [List.flatMap_cons, values_append, ih]
    rfl

theorem updateSet_eq : updateSet = columns.flatMap fun column => lit column ++ [63] := by
  have hfirst : "UPDATE links SET target_url=?,title=?,visibility=?,redirect_code=?" =
      "UPDATE links SET target_url=" ++ "?" ++ (",title=" ++ "?") ++ (",visibility=" ++ "?") ++
        (",redirect_code=" ++ "?") := rfl
  have hsecond : ",expires_at=?,max_clicks=?,expired_url=?,ios_url=?,android_url=?" =
      ",expires_at=" ++ "?" ++ (",max_clicks=" ++ "?") ++ (",expired_url=" ++ "?") ++
        (",ios_url=" ++ "?") ++ (",android_url=" ++ "?") := rfl
  have hthird : ",forward_query=?,utm_source=?,utm_medium=?,utm_campaign=?,utm_term=?" =
      ",forward_query=" ++ "?" ++ (",utm_source=" ++ "?") ++ (",utm_medium=" ++ "?") ++
        (",utm_campaign=" ++ "?") ++ (",utm_term=" ++ "?") := rfl
  have hfourth : ",utm_content=?,tags_json=?" =
      ",utm_content=" ++ "?" ++ (",tags_json=" ++ "?") := rfl
  have hmark : lit "?" = [63] := rfl
  rw [updateSet, hfirst, hsecond, hthird, hfourth]
  simp only [Runes.lit_append, columns, List.flatMap_cons, List.flatMap_nil, List.append_assoc,
    List.append_nil, hmark]

theorem made_set (link : Link) :
    Made (updateSet, updateArgs link (tagsJson (normalizeTags link.tags)))
      ((setMeant link).flatMap fun c => condition (lit c.1) c.2) := by
  rw [Made, query_columns, values_columns, updateSet_eq]
  rfl

theorem made_check {u : User} {id : ℤ} {s : Statement}
    (h : addLinkManageScope (lit "SELECT id FROM links WHERE id=? AND deleted_at IS NULL")
      [.int id] u "links" = .ok s) :
    Made (s.1 ++ lit " FOR UPDATE", s.2) (checkMeant u id) := by
  have hstart : Made ([], []) [] := rfl
  have htext : lit "SELECT id FROM links WHERE id=? AND deleted_at IS NULL" =
      lit "SELECT id FROM links WHERE id=" ++ 63 :: lit " AND deleted_at IS NULL" := by decide
  exact (made_manageScope (made_between hstart (.int id) htext) h).text _

theorem UpdateLink_made {u : User} {id : ℤ} {link : Link} {passwordHash : Str}
    {passwordChanged : Bool} {ss : List Statement}
    (h : UpdateLink u id link passwordHash passwordChanged = .ok ss) :
    List.Forall₂ Made ss
      [checkMeant u id, updateMeant u id link passwordHash passwordChanged] := by
  unfold UpdateLink at h
  dsimp only at h
  cases hvalid : validateLink (updateLinkInput link passwordHash passwordChanged) with
  | some text =>
    rw [hvalid] at h
    cases h
  | none =>
    rw [hvalid] at h
    obtain ⟨⟨checkQ, checkArgs⟩, hcheck, h⟩ := bind_ok h
    obtain ⟨update, hupdate, h⟩ := bind_ok h
    obtain rfl := Except.ok.inj h
    have hset := made_set (updateLinkInput link passwordHash passwordChanged)
    have hmark : lit ",password_hash=?" = lit ",password_hash=" ++ [63] := by decide
    have hpassword := made_if passwordChanged (lit ",password_hash=") (.bytes passwordHash) hset
      hmark
    have htext : lit " WHERE id=? AND deleted_at IS NULL" =
        lit " WHERE id=" ++ 63 :: lit " AND deleted_at IS NULL" := by decide
    have hid := made_between hpassword (.int id) htext
    dsimp only at hid
    have hmade := made_manageScope hid hupdate
    exact .cons (made_check hcheck) (.cons hmade .nil)

/-! ## Nothing disturbs the placeholders -/

theorem quiet_column {table column : String} (htable : quiet (lit table) = true)
    (hcolumn : quiet (lit column) = true) :
    quiet (lit " AND " ++ lit table ++ lit column) = true :=
  quiet_append (quiet_append (by decide) htable) hcolumn

theorem viewScope_sound {u : User} {table : String} {includeDeleted : Bool}
    (htable : quiet (lit table) = true) : ∀ p ∈ viewScope u table includeDeleted, p.Sound := by
  unfold viewScope
  cases u.role with
  | superadmin => simp
  | tenant => exact sound_condition (quiet_column htable (by decide)) _
  | customer =>
    cases u.tenantId with
    | none => exact sound_condition (quiet_column htable (by decide)) _
    | some t =>
      apply sound_append
      · apply sound_append
        · exact sound_condition
            (quiet_append (quiet_append (by decide) htable) (by decide)) _
        · exact sound_condition
            (quiet_append (quiet_append (by decide) htable) (by decide)) _
      · apply sound_text
        apply quiet_append _ (by decide)
        apply quiet_append (quiet_column htable (by decide))
        cases includeDeleted with
        | true => rfl
        | false => exact quiet_column htable (by decide)

theorem manageScope_sound {u : User} {table : String} (htable : quiet (lit table) = true) :
    ∀ p ∈ manageScope u table, p.Sound := by
  unfold manageScope
  cases u.role with
  | superadmin => simp
  | tenant => exact sound_condition (quiet_column htable (by decide)) _
  | customer => exact sound_condition (quiet_column htable (by decide)) _

theorem numberMeant_sound {values : Query} {key : String} {text : Str}
    (h : quiet text = true) : ∀ p ∈ numberMeant values key text, p.Sound :=
  sound_if (sound_condition h _)

theorem rawMeant_sound {value : Str} {text : String} (h : quiet (lit text) = true) :
    ∀ p ∈ rawMeant value text, p.Sound :=
  sound_if (sound_condition h _)

theorem timeMeant_sound {t : Time} {text : String} (h : quiet (lit text) = true) :
    ∀ p ∈ timeMeant t text, p.Sound :=
  sound_if (sound_condition h _)

theorem filters_sound {values : Query} {filters : List (String × String)}
    (h : ∀ f ∈ filters, quiet (lit f.2) = true) :
    ∀ p ∈ filters.flatMap (filterMeant values), p.Sound := by
  intro p hp
  obtain ⟨f, hf, hp⟩ := List.mem_flatMap.mp hp
  have hquiet := quiet_append (quiet_append (by decide : quiet (lit " AND ") = true) (h f hf))
    (by decide : quiet (lit "=") = true)
  exact sound_if (sound_condition hquiet _) p hp

theorem idsMeant_sound (ids : List ℤ) : ∀ p ∈ idsMeant ids, p.Sound := by
  induction ids with
  | nil => simp [idsMeant]
  | cons i rest ih =>
    cases rest with
    | nil =>
      intro p hp
      rw [List.mem_singleton.mp hp]
      exact trivial
    | cons j rest =>
      intro p hp
      rcases List.mem_cons.mp hp with rfl | hp
      · exact trivial
      · rcases List.mem_cons.mp hp with rfl | hp
        · exact (by decide : quiet (lit ",") = true)
        · exact ih p hp

theorem conjunction_sound {cs : List (List Part)} (h : ∀ c ∈ cs, ∀ p ∈ c, p.Sound) :
    ∀ p ∈ conjunction cs, p.Sound := by
  cases cs with
  | nil => simp [conjunction]
  | cons first rest =>
    apply sound_append
    · intro p hp
      rcases List.mem_cons.mp hp with rfl | hp
      · exact (by decide : quiet (lit " WHERE ") = true)
      · exact h first List.mem_cons_self p hp
    · intro p hp
      obtain ⟨c, hc, hp⟩ := List.mem_flatMap.mp hp
      rcases List.mem_cons.mp hp with rfl | hp
      · exact (by decide : quiet (lit " AND ") = true)
      · exact h c (List.mem_cons_of_mem first hc) p hp

theorem usersConditions_sound {unicode : Unicode} {scope : User} {cursor : ℤ}
    {search role active : Str} :
    ∀ c ∈ usersConditions unicode scope cursor search role active, ∀ p ∈ c, p.Sound := by
  intro c hc
  simp only [usersConditions, List.mem_append] at hc
  rcases hc with (((hc | hc) | hc) | hc) | hc
  · split at hc
    · rcases List.mem_cons.mp hc with rfl | hc
      · exact sound_condition (by decide) _
      · rw [List.mem_singleton.mp hc]
        exact sound_text (by decide)
    · cases hc
  · split at hc
    · rw [List.mem_singleton.mp hc]
      exact sound_append (sound_append (sound_condition (by decide) _)
        (sound_condition (by decide) _)) (sound_text (by decide))
    · cases hc
  · split at hc
    · rw [List.mem_singleton.mp hc]
      exact sound_condition (by decide) _
    · cases hc
  · split at hc
    · rw [List.mem_singleton.mp hc]
      exact sound_condition (by decide) _
    · cases hc
  · split at hc
    · rw [List.mem_singleton.mp hc]
      exact sound_condition (by decide) _
    · cases hc

theorem usersMeant_sound {unicode : Unicode} {scope : User} {limit cursor : ℤ}
    {search role active : Str} :
    ∀ p ∈ usersMeant unicode scope limit cursor search role active, p.Sound := by
  apply sound_append
  · apply sound_append
    · exact sound_text quiet_usersSelect
    · exact conjunction_sound usersConditions_sound
  · exact sound_condition (by decide) _

theorem auditMeant_sound {values : Query} : ∀ p ∈ auditMeant values, p.Sound := by
  apply sound_append
  · apply sound_append
    · apply sound_append
      · apply sound_append
        · apply sound_append
          · exact sound_text quiet_auditSelect
          · exact numberMeant_sound (by decide)
        · exact filters_sound (by decide)
      · exact rawMeant_sound (by decide)
    · exact rawMeant_sound (by decide)
  · exact sound_condition (by decide) _

theorem clicksMeant_sound {u : User} {values : Query} :
    ∀ p ∈ clicksMeant u values, p.Sound := by
  apply sound_append
  · apply sound_append
    · apply sound_append
      · apply sound_append
        · apply sound_append
          · apply sound_append
            · apply sound_append
              · apply sound_append
                · exact sound_text quiet_clicksSelect
                · exact viewScope_sound (by decide)
              · exact numberMeant_sound (by decide)
            · exact rawMeant_sound (by decide)
          · exact filters_sound (by decide)
        · exact timeMeant_sound (by decide)
      · exact timeMeant_sound (by decide)
    · exact numberMeant_sound (by decide)
  · exact sound_condition (by decide) _

theorem linksMeant_sound {u : User} {limit cursor : ℤ} :
    ∀ p ∈ linksMeant u limit cursor, p.Sound := by
  apply sound_append
  · apply sound_append
    · apply sound_append
      · apply sound_append
        · exact sound_text quiet_linksWhere
        · exact viewScope_sound (by decide)
      · exact sound_if (sound_condition (by decide) _)
    · exact sound_text (by decide)
  · exact sound_if (sound_condition (by decide) _)

theorem chunkMeant_sound {u : User} {ids : List ℤ} : ∀ p ∈ chunkMeant u ids, p.Sound := by
  apply sound_append
  · apply sound_append
    · apply sound_append
      · exact sound_text quiet_linksIn
      · exact idsMeant_sound ids
    · exact sound_text (by decide)
  · exact viewScope_sound (by decide)

theorem quiet_deleteIn : quiet (lit ("UPDATE links SET deleted_at=CURRENT_TIMESTAMP " ++
    "WHERE deleted_at IS NULL AND id IN (")) = true :=
  quiet_lit (quiet_chars _ (by decide +kernel)) (quiet_chars _ (by decide +kernel))

theorem deleteMeant_sound {u : User} {ids : List ℤ} : ∀ p ∈ deleteMeant u ids, p.Sound := by
  apply sound_append
  · apply sound_append
    · apply sound_append
      · exact sound_text quiet_deleteIn
      · exact idsMeant_sound ids
    · exact sound_text (by decide)
  · exact manageScope_sound (by decide)

theorem checkMeant_sound {u : User} {id : ℤ} : ∀ p ∈ checkMeant u id, p.Sound := by
  apply sound_append
  · apply sound_append
    · apply sound_append
      · exact sound_condition (by decide) _
      · exact sound_text (by decide)
    · exact manageScope_sound (by decide)
  · exact sound_text (by decide)

theorem quiet_columns : ∀ column ∈ columns, quiet (lit column) = true := by
  decide

theorem setMeant_sound (link : Link) :
    ∀ p ∈ (setMeant link).flatMap fun c => condition (lit c.1) c.2, p.Sound := by
  intro p hp
  obtain ⟨c, hc, hp⟩ := List.mem_flatMap.mp hp
  have hcolumn : c.1 ∈ columns := List.mem_map_of_mem (f := Prod.fst) hc
  exact sound_condition (quiet_columns c.1 hcolumn) _ p hp

theorem updateMeant_sound {u : User} {id : ℤ} {link : Link} {passwordHash : Str}
    {passwordChanged : Bool} :
    ∀ p ∈ updateMeant u id link passwordHash passwordChanged, p.Sound := by
  apply sound_append
  · apply sound_append
    · apply sound_append
      · apply sound_append
        · exact setMeant_sound _
        · exact sound_if (sound_condition (by decide) _)
      · exact sound_condition (by decide) _
    · exact sound_text (by decide)
  · exact manageScope_sound (by decide)

/-! ## Alignment -/

theorem chunks_join (ids : List ℤ) :
    (List.range (chunks ids.length)).flatMap (chunk ids) = ids := by
  have hfront : ∀ n, (List.range n).flatMap (chunk ids) = ids.take (500 * n) := by
    intro n
    induction n with
    | zero => simp
    | succ n ih =>
      rw [List.range_succ, List.flatMap_append, ih, Nat.mul_succ, List.take_add,
        List.flatMap_singleton]
      rfl
  rw [hfront, List.take_of_length_le]
  unfold chunks
  omega

/-- `rebind` numbers the marks outside the sections of every statement, and whatever the filters,
scopes, cursors and ids, each value the store passes has the number of the condition it is
meant for. -/
theorem placeholders_aligned :
    (∀ query, ∃ sections, WellFormed sections ∧ written sections = query ∧
      rebind query = numbered 1 sections ∧
      ∀ other, WellFormed other → written other = query → other = sections) ∧
    (∀ unicode scope limit cursor search role active s,
      ListUsersPage unicode scope limit cursor search role active = .ok s →
        Aligned s (usersMeant unicode scope limit cursor search role active)) ∧
    (∀ values s, ListAuditEvents values = .ok s → Aligned s (auditMeant values)) ∧
    (∀ u values s, ListClicks u values = .ok s → Aligned s (clicksMeant u values)) ∧
    (∀ u limit cursor s, listLinks u limit cursor = .ok s →
      Aligned s (linksMeant u limit cursor)) ∧
    (∀ u ids ss, LinksByIDs u ids = .ok ss →
      (List.range (chunks ids.length)).flatMap (chunk ids) = ids ∧
      List.Forall₂ (fun i s => Aligned s (chunkMeant u (chunk ids i)))
        (List.range (chunks ids.length)) ss) ∧
    (∀ u id link passwordHash passwordChanged ss,
      UpdateLink u id link passwordHash passwordChanged = .ok ss →
        List.Forall₂ Aligned ss
          [checkMeant u id, updateMeant u id link passwordHash passwordChanged]) ∧
    (∀ u ids ss, DeleteLinksBulk u ids = .ok ss →
      List.Forall₂ Aligned ss (if ids = [] then [] else [deleteMeant u ids])) := by
  refine ⟨rebind_sections, ?_, ?_, ?_, ?_, ?_, ?_, ?_⟩
  · intro unicode scope limit cursor search role active s h
    exact (ListUsersPage_made h).aligned usersMeant_sound
  · intro values s h
    exact (ListAuditEvents_made h).aligned auditMeant_sound
  · intro u values s h
    exact (ListClicks_made h).aligned clicksMeant_sound
  · intro u limit cursor s h
    exact (listLinks_made h).aligned linksMeant_sound
  · intro u ids ss h
    refine ⟨chunks_join ids, (LinksByIDs_made h).imp ?_⟩
    intro i s hs
    exact hs.aligned chunkMeant_sound
  · intro u id link passwordHash passwordChanged ss h
    obtain _ | ⟨hcheck, _ | ⟨hupdate, hnil⟩⟩ := UpdateLink_made h
    cases hnil
    exact .cons (hcheck.aligned checkMeant_sound)
      (.cons (hupdate.aligned updateMeant_sound) .nil)
  · intro u ids ss h
    have hmade := DeleteLinksBulk_made h
    by_cases hids : ids = []
    · rw [if_pos hids] at hmade ⊢
      cases hmade
      exact .nil
    · rw [if_neg hids] at hmade ⊢
      obtain _ | ⟨hdelete, hnil⟩ := hmade
      cases hnil
      exact .cons (hdelete.aligned deleteMeant_sound) .nil

def customer : User := ⟨7, some 3, .customer⟩

/-- An edit that passes validation. -/
def edited : Link := { targetUrl := lit "https://example.com/", visibility := lit "private" }

theorem edited_valid : validateLink (updateLinkInput edited [] false) = none := by
  decide +kernel

/-- The parameters of a request for audit events or clicks. -/
def asked (key : Str) : Str :=
  ([("limit", "50"), ("cursor", "900"), ("actor", "admin@example.com"), ("outcome", "success"),
    ("link_id", "4"), ("country", "de"), ("device", "mobile"), ("campaign", "spring"),
    ("from", "2026-09-01T00:00:00Z"), ("to", "2026-09-08T00:00:00Z")].find? fun p =>
      lit p.1 = key).elim [] fun p => lit p.2

theorem country_asked (s : Statement) : addCountry asked s =
    .ok (s.1 ++ lit " AND c.country_code=?", s.2 ++ [.text (lit "DE")]) := by
  have hraw : toUpper (trimSpace (asked (lit "country"))) = lit "DE" := by decide
  have hcode : isoCountryCodes.contains (lit "DE") = true :=
    List.contains_iff_mem.mpr AcceptedLinks.iso_germany
  unfold addCountry
  simp only [hraw]
  rw [if_pos (by decide), hcode]
  rfl

theorem audit_asked : ∃ s, ListAuditEvents asked = .ok s := by
  have hlimit : queryLimit asked 500 "limit must be 1 to 500" = .ok 50 := by decide
  unfold ListAuditEvents
  rw [hlimit]
  exact ⟨_, rfl⟩

theorem clicks_asked : ∃ s, ListClicks customer asked = .ok s := by
  have hlimit : queryLimit asked 200 "limit must be 1 to 200" = .ok 50 := by decide
  unfold ListClicks
  rw [hlimit]
  simp only [country_asked]
  exact ⟨_, rfl⟩

theorem placeholders_aligned_customer :
    (∃ s, ListUsersPage Hosts.ascii customer 0 40 (lit "ann") (lit "customer") (lit "true") =
        .ok s ∧
      Aligned s (usersMeant Hosts.ascii customer 0 40 (lit "ann") (lit "customer")
        (lit "true"))) ∧
    (∃ s, ListAuditEvents asked = .ok s ∧ Aligned s (auditMeant asked)) ∧
    (∃ s, ListClicks customer asked = .ok s ∧ Aligned s (clicksMeant customer asked)) ∧
    (∃ s, listLinks customer 10 40 = .ok s ∧ Aligned s (linksMeant customer 10 40)) ∧
    (∃ ss, LinksByIDs customer [4, 9] = .ok ss ∧
      List.Forall₂ (fun i s => Aligned s (chunkMeant customer (chunk [4, 9] i))) [0] ss) ∧
    (∃ ss, UpdateLink customer 4 edited [] false = .ok ss ∧
      List.Forall₂ Aligned ss [checkMeant customer 4, updateMeant customer 4 edited [] false]) ∧
    ∃ ss, DeleteLinksBulk customer [4, 9] = .ok ss ∧
      List.Forall₂ Aligned ss [deleteMeant customer [4, 9]] := by
  obtain ⟨-, husers, haudit, hclicks, hlinks, hids, hupdate, hdelete⟩ := placeholders_aligned
  obtain ⟨audit, hasked⟩ := audit_asked
  obtain ⟨clicks, hasked'⟩ := clicks_asked
  refine ⟨⟨_, rfl, husers _ _ _ _ _ _ _ _ rfl⟩, ⟨audit, hasked, haudit _ _ hasked⟩,
    ⟨clicks, hasked', hclicks _ _ _ hasked'⟩, ⟨_, rfl, hlinks _ _ _ _ rfl⟩,
    ⟨_, rfl, (hids _ _ _ rfl).2⟩, ?_, ⟨_, rfl, hdelete customer [4, 9] _ rfl⟩⟩
  have hok : ∃ ss, UpdateLink customer 4 edited [] false = .ok ss := by
    unfold UpdateLink
    dsimp only
    rw [edited_valid]
    exact ⟨_, rfl⟩
  obtain ⟨ss, hss⟩ := hok
  exact ⟨ss, hss, hupdate _ _ _ _ _ _ hss⟩

end StoreStatements
