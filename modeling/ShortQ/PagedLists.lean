import ShortQ.CsvCells
import ShortQ.CursorPages
import ShortQ.LocalDays

/-! # The paged listings

`ListLinksPage`, `ListUsersPage`, `ListAuditEvents` and `ListClicks`, each read from its own state
and followed by its cursor. -/
namespace PagedLists

open AccountRows
open AuditLog
open AuditedHandlers (formatInt)
open CursorPages
open GoText
open GoTime (Time)
open Hosts
open LinkHandlers (parseInt)
open LinkScopes
open LinkStore
open LinkValidation
open Models
open RowTable
open Schema
open Transaction

/-- `WHERE p AND id<? ORDER BY id DESC LIMIT ?`; without a cursor it is zero. -/
def select {ρ : Type} (ident : ρ → ℤ) (rows : List ρ) (p : ρ → Bool) (cursor : ℤ) (limit : ℕ) :
    List ρ :=
  ((rows.filter fun r => p r && (!(0 < cursor) || ident r < cursor)).mergeSort
    fun a b => decide (ident b ≤ ident a)).take limit

/-- `url.Values` as `Get` reads them. -/
abbrev Query := Str → Str

/-- A text argument that the server refuses. -/
def argument (s : Str) : Except Err Str :=
  match text s with
  | some s => .ok s
  | none => .error .schema

/-! ## Users -/

structure UserPage where
  items : List UserRow
  nextCursor : ℤ

def roleText : Role → Str
  | .superadmin => lit "superadmin"
  | .tenant => lit "tenant"
  | .customer => lit "customer"

/-- `text LIKE pattern`, with the backslash as escape. -/
def like : List Rune → List Rune → Bool
  | [], [] => true
  | [], _ :: _ => false
  | p :: pattern, text =>
    if p.bytes = [37] then
      like pattern text || match text with
        | [] => false
        | _ :: rest => like (p :: pattern) rest
    else
      match text with
      | [] => false
      | c :: rest =>
        if p.bytes = [95] then like pattern rest
        else if p.bytes = [92] then
          match pattern with
          | [] => false
          | q :: pattern => q.bytes = c.bytes && like pattern rest
        else p.bytes = c.bytes && like pattern rest
  termination_by pattern text => pattern.length + text.length

/-- The conditions on `tenant_id` and `role`; `*scope.TenantID` of a missing tenant panics. -/
def userScope (scope : User) : Except Err (UserRow → Bool) :=
  match scope.role, scope.tenantId with
  | .tenant, none => .error .panic
  | .tenant, some t => .ok fun r => r.tenantId = some t && r.role = .customer
  | _, _ => .ok fun _ => true

/-- `lower` is the `LOWER` of the database. -/
def userFilter (lower : Str → Str) (unicode : Unicode) (scope : User) (search role active : Str) :
    Except Err (UserRow → Bool) := do
  let inScope ← userScope scope
  let search ← argument (trimSpace (unicode.toLower search))
  let role ← argument (if scope.role = .superadmin then role else [])
  let pattern := runes (37 :: search ++ [37])
  .ok fun r => inScope r &&
    (search = [] || (like pattern (runes (lower r.name)) ||
      like pattern (runes (lower r.email)))) &&
    (role = [] || roleText r.role = role) &&
    (active = [] || r.active = decide (active = lit "true"))

def ListUsersPage (io : Script) (lower : Str → Str) (unicode : Unicode) (s : Accounts)
    (scope : User) (limit cursor : ℤ) (search role active : Str) : Except Err UserPage := do
  let limit := if limit < 1 || 500 < limit then 10 else limit.toNat
  let p ← userFilter lower unicode scope search role active
  let out ← io.call 0 (.ok (select UserRow.id s.users.rows p cursor (limit + 1)))
  if limit < out.length then
    let items := out.take limit
    .ok ⟨items, (items.getLast?.map UserRow.id).getD 0⟩
  else .ok ⟨out, 0⟩

/-! ## Audit events -/

/-- The value of an identity column. -/
abbrev Identity := { i : ℤ // 0 < i ∧ i < 2 ^ 63 }

structure AuditRow where
  id : Identity
  event : AuditEvent
  createdAt : Time

def auditClash (a b : AuditRow) : Prop := a.id = b.id

structure AuditEventPage where
  items : List AuditRow
  nextCursor : ℤ

def outcomeText : Outcome → Str
  | .success => lit "success"
  | .denied => lit "denied"

/-- The limit of a query between one and `most`; 100 without one. -/
def queryLimit (values : Query) (most : ℤ) (text : String) : Except Err ℕ :=
  if values (lit "limit") = [] then .ok 100
  else
    match parseInt (values (lit "limit")) with
    | none => .error (.rejected (lit text))
    | some n => if n < 1 || most < n then .error (.rejected (lit text)) else .ok n.toNat

/-- The positive cursor of a query; zero without one. -/
def queryCursor (values : Query) (text : String) : Except Err ℤ :=
  if values (lit "cursor") = [] then .ok 0
  else
    match parseInt (values (lit "cursor")) with
    | none => .error (.rejected (lit text))
    | some n => if n < 1 then .error (.rejected (lit text)) else .ok n

/-- `AND column=?` for a parameter that is not blank. -/
def columnFilter {ρ : Type} (values : Query) (key : String) (column : ρ → Str) :
    Except Err (ρ → Bool) := do
  let value ← argument (trimSpace (values (lit key)))
  .ok fun r => value = [] || column r = value

/-- A bound that the server reads from text, with its own clock for words such as `now`. -/
def timeBound (timestamp : Str → Option Time) (raw : Str) : Except Err (Option Time) :=
  if raw = [] then .ok none
  else
    match timestamp raw with
    | some t => .ok (some t)
    | none => .error .schema

def inRange (start stop : Option Time) (t : Time) : Bool :=
  start.all (·.nanos ≤ t.nanos) && stop.all (t.nanos < ·.nanos)

def auditFilter (timestamp : Str → Option Time) (values : Query) :
    Except Err (AuditRow → Bool) := do
  let actor ← columnFilter values "actor" fun r : AuditRow => r.event.actorEmail
  let action ← columnFilter values "action" fun r : AuditRow => r.event.action
  let target ← columnFilter values "target_type" fun r : AuditRow => r.event.targetType
  let outcome ← columnFilter values "outcome" fun r : AuditRow => outcomeText r.event.outcome
  let start ← timeBound timestamp (values (lit "from"))
  let stop ← timeBound timestamp (values (lit "to"))
  .ok fun r => actor r && (action r && (target r && (outcome r && inRange start stop r.createdAt)))

def ListAuditEvents (io : Script) (timestamp : Str → Option Time)
    (events : Table AuditRow auditClash) (values : Query) : Except Err AuditEventPage := do
  let limit ← queryLimit values 500 "limit must be 1 to 500"
  let cursor ← queryCursor values "cursor must be positive"
  let p ← auditFilter timestamp values
  let items ← io.call 0 (.ok (select (fun r => r.id.val) events.rows p cursor (limit + 1)))
  if limit < items.length then
    .ok ⟨items.take limit, ((items.take limit).getLast?.map fun r => r.id.val).getD 0⟩
  else .ok ⟨items, 0⟩

/-! ## Clicks -/

/-- A click with its identity column. -/
structure ClickRecord where
  id : Identity
  row : ClickRow

def recordClash (a b : ClickRecord) : Prop := a.id = b.id

/-- An item of the listing, with the slug of its link. -/
structure ListedClick where
  record : ClickRecord
  slug : Str

structure ClickPage where
  items : List ListedClick
  nextCursor : ℤ

structure Clicks where
  links : Table LinkRow linkClash
  records : Table ClickRecord recordClash

def linkFilter (values : Query) : Except Err (ClickRecord → Bool) :=
  if values (lit "link_id") = [] then .ok fun _ => true
  else
    match parseInt (values (lit "link_id")) with
    | none => .error (.rejected (lit "link_id must be a positive integer"))
    | some n =>
      if n < 1 then .error (.rejected (lit "link_id must be a positive integer"))
      else .ok fun c => c.row.linkId = n

def countryFilter (values : Query) : Except Err (ClickRecord → Bool) :=
  let raw := toUpper (trimSpace (values (lit "country")))
  if raw = [] then .ok fun _ => true
  else if !isoCountryCodes.contains raw then
    .error (.rejected (lit "country must be an ISO-3166 alpha-2 code"))
  else .ok fun c => c.row.countryCode = raw

/-- One bound of `parseTimeRange`; a blank one stays the zero time, which bounds nothing. -/
def parseBound (values : Query) (key : String) : Except Err Time :=
  let raw := trimSpace (values (lit key))
  if raw = [] then .ok GoTime.zero
  else
    match GoTime.parseRFC3339 raw with
    | some t => .ok t
    | none =>
      match LocalDays.parseDate raw with
      | some day => .ok ⟨day * GoTime.day⟩
      | none => .error (.rejected (lit (key ++ " must be RFC3339 or YYYY-MM-DD")))

def parseTimeRange (values : Query) : Except Err (Time × Time) := do
  let start ← parseBound values "from"
  let stop ← parseBound values "to"
  if !start.isZero && (!stop.isZero && !(start.nanos < stop.nanos)) then
    .error (.rejected (lit "from must be before to"))
  else .ok (start, stop)

/-- The bound as the statement's argument. -/
def boundArgument (t : Time) : Except Err (Option Time) :=
  if t.isZero then .ok none
  else
    match timestamptz t with
    | some t => .ok (some t)
    | none => .error .schema

def clickFilter (values : Query) : Except Err (ClickRecord → Bool) := do
  let link ← linkFilter values
  let country ← countryFilter values
  let device ← columnFilter values "device" fun c : ClickRecord => c.row.device
  let browser ← columnFilter values "browser" fun c : ClickRecord => c.row.browser
  let campaign ← columnFilter values "campaign" fun c : ClickRecord => c.row.utmCampaign
  let route ← columnFilter values "route_type" fun c : ClickRecord => c.row.routeType
  let (start, stop) ← parseTimeRange values
  let start ← boundArgument start
  let stop ← boundArgument stop
  .ok fun c => link c && (country c && (device c && (browser c && (campaign c && (route c &&
    inRange start stop c.row.createdAt)))))

/-- The link a click joins, when it is not deleted and in scope. -/
def joinedLink (s : Clicks) (scope : LinkRow → Bool) (c : ClickRecord) : Option LinkRow :=
  s.links.find fun l => l.id = c.row.linkId && (l.deletedAt.isNone && scope l)

def ListClicks (io : Script) (s : Clicks) (u : User) (values : Query) : Except Err ClickPage := do
  let limit ← queryLimit values 200 "limit must be 1 to 200"
  let scope ← addLinkViewScope u false
  let p ← clickFilter values
  let cursor ← queryCursor values "cursor must be a positive click id"
  let found ← io.call 0 (.ok (select (fun c : ClickRecord => c.id.val) s.records.rows
    (fun c => (joinedLink s scope c).isSome && p c) cursor limit))
  let items := found.map fun c => ListedClick.mk c ((joinedLink s scope c).elim [] LinkRow.slug)
  .ok ⟨items, if items.length = limit then
    (items.getLast?.map fun i => i.record.id.val).getD 0 else 0⟩

/-! ## What a statement selects -/

section Select

variable {ρ : Type} {ident : ρ → ℤ} {rows : List ρ} {p : ρ → Bool} {cursor : ℤ}

/-- The ids a statement finds, before its limit. -/
def selected (ident : ρ → ℤ) (rows : List ρ) (p : ρ → Bool) (cursor : ℤ) : List ℤ :=
  ((rows.filter fun r => p r && (!(0 < cursor) || ident r < cursor)).mergeSort
    fun a b => decide (ident b ≤ ident a)).map ident

/-- The ids of the rows that meet the conditions. -/
def Matching (ident : ρ → ℤ) (rows : List ρ) (p : ρ → Bool) (i : ℤ) : Prop :=
  ∃ r ∈ rows, p r = true ∧ ident r = i

theorem map_select (limit : ℕ) :
    (select ident rows p cursor limit).map ident = (selected ident rows p cursor).take limit := by
  rw [select, selected, List.map_take]

theorem mem_selected {i : ℤ} :
    i ∈ selected ident rows p cursor ↔ Matching ident rows p i ∧ Below cursor i := by
  simp only [selected, List.mem_map, List.mem_mergeSort, List.mem_filter, Bool.and_eq_true,
    Bool.or_eq_true, Bool.not_eq_true', decide_eq_false_iff_not, decide_eq_true_eq]
  constructor
  · rintro ⟨r, ⟨hr, hp, hcursor⟩, rfl⟩
    refine ⟨⟨r, hr, hp, rfl⟩, fun hpos => ?_⟩
    rcases hcursor with hnot | hlt
    · exact absurd hpos hnot
    · exact hlt
  · rintro ⟨⟨r, hr, hp, rfl⟩, hbelow⟩
    refine ⟨r, ⟨hr, hp, ?_⟩, rfl⟩
    by_cases hpos : 0 < cursor
    · exact Or.inr (hbelow hpos)
    · exact Or.inl hpos

theorem selected_descending (h : rows.Pairwise fun a b => ident a ≠ ident b) :
    (selected ident rows p cursor).Pairwise (· > ·) := by
  have hsorted := @List.pairwise_mergeSort _ (fun a b : ρ => decide (ident b ≤ ident a))
    (fun a b c hab hbc => by
      simp only [decide_eq_true_eq] at hab hbc ⊢
      omega)
    (fun a b => by
      simp only [Bool.or_eq_true, decide_eq_true_eq]
      omega)
    (rows.filter fun r => p r && (!(0 < cursor) || ident r < cursor))
  have hdistinct := ((List.mergeSort_perm (rows.filter fun r => p r && (!(0 < cursor) ||
    ident r < cursor)) fun a b => decide (ident b ≤ ident a)).pairwise_iff
      fun {a b} (hne : ident a ≠ ident b) => hne.symm).mpr (h.filter _)
  rw [selected, List.pairwise_map]
  refine (hsorted.and hdistinct).imp fun {a b} hab => ?_
  have hle := of_decide_eq_true hab.1
  have hne := hab.2
  omega

end Select

/-! ## Every listing serves its pages -/

/-- The pages of a listing come to an end, hold at most `limit` items each with their ids
descending from page to page, and show every id that matches throughout once. -/
def Completes {α : Type} (fetch : ℕ → ℤ → Option (List α × ℤ)) (limit : ℕ) (ident : α → ℤ)
    (matching : ℕ → ℤ → Prop) : Prop :=
  ∃ n pages, follow fetch n 0 0 = some pages ∧ Traversed limit ident matching 0 0 pages ∧
    ∀ i, (∀ k < pages.length, matching k i) → (pages.flatten.map ident).count i = 1

theorem completes_of_serves {α : Type} {fetch : ℕ → ℤ → Option (List α × ℤ)} {limit : ℕ}
    {ident : α → ℤ} {matching : ℕ → ℤ → Prop} {valid : ℤ → Prop}
    (hfetch : ∀ n cursor, valid cursor → ∃ items next, fetch n cursor = some (items, next) ∧
      Serves limit (matching n) cursor (items.map ident) next)
    (hmatching : ∀ n i, matching n i → 0 < i ∧ valid i) (hzero : valid 0) :
    Completes fetch limit ident matching := by
  obtain ⟨n, pages, hfollow, htraversed⟩ := follow_all hfetch hmatching hzero
  exact ⟨n, pages, hfollow, htraversed, fun i hall => htraversed.once hall⟩

def linkLimit (limit : ℤ) : ℕ := if limit < 1 || 500 < limit then 100 else limit.toNat

def fetchLinks (io : ℕ → Script) (dbs : ℕ → Database) (u : User) (limit : ℤ) (n : ℕ) (cursor : ℤ) :
    Option (List Link × ℤ) :=
  match ListLinksPage (io n) (dbs n) u limit cursor with
  | .error _ => none
  | .ok page => some (page.items, page.nextCursor)

/-- A live link that the user may see. -/
def Visible (db : Database) (u : User) (i : ℤ) : Prop :=
  ∃ r ∈ db.links.rows, r.id = i ∧ r.deletedAt = none ∧ View u r

theorem linkLimit_pos (limit : ℤ) : 0 < linkLimit limit := by
  unfold linkLimit
  split
  · decide
  · rename_i h
    simp only [Bool.or_eq_true, decide_eq_true_eq] at h
    omega

theorem fetchLinks_serves {io : ℕ → Script} (hio : ∀ n, (io n).Healthy) {dbs : ℕ → Database}
    {u : User} (hu : Placed u) (hids : ∀ n, ∀ r ∈ (dbs n).links.rows, 0 < r.id) (limit : ℤ) (n : ℕ)
    (cursor : ℤ) : ∃ items next, fetchLinks io dbs u limit n cursor = some (items, next) ∧
      Serves (linkLimit limit) (Visible (dbs n) u) cursor (items.map Link.id) next := by
  obtain ⟨scope, hscope, -⟩ := viewScope_eq hu
  have hlimit := linkLimit_pos limit
  have hcast : (if limit < 1 || 500 < limit then (100 : ℤ) else limit) = linkLimit limit := by
    unfold linkLimit
    split
    · rfl
    · rename_i h
      simp only [Bool.or_eq_true, decide_eq_true_eq] at h
      omega
  have hall : ∀ i, i ∈ (listed (dbs n) scope cursor).map LinkRow.id ↔
      Visible (dbs n) u i ∧ Below cursor i := by
    intro i
    rw [List.mem_map]
    constructor
    · rintro ⟨r, hr, rfl⟩
      obtain ⟨hrow, hlive, hview, hbelow⟩ := (mem_listed hscope).mp hr
      exact ⟨⟨r, hrow, rfl, hlive, hview⟩, hbelow⟩
    · rintro ⟨⟨r, hrow, rfl, hlive, hview⟩, hbelow⟩
      exact ⟨r, (mem_listed hscope).mpr ⟨hrow, hlive, hview, hbelow⟩, rfl⟩
  have hdesc : ((listed (dbs n) scope cursor).map LinkRow.id).Pairwise (· > ·) := by
    rw [List.pairwise_map]
    exact listed_descending (dbs n) scope cursor
  have hpos : ∀ i, Visible (dbs n) u i → 0 < i := by
    rintro i ⟨r, hr, rfl, -, -⟩
    exact hids n r hr
  have hserves := serves_lookAhead hall hdesc hpos hlimit
  have hlinks : listLinks (io n) (dbs n) u (linkLimit limit + 1) cursor =
      .ok (((listed (dbs n) scope cursor).take (linkLimit limit + 1)).map
        fun r => hydrateLink (dbs n) (scanLink r)) := by
    rw [listLinks_healthy (hio n) hscope, limited, if_pos (by omega)]
    rfl
  have hmap (rows : List LinkRow) : (rows.map fun r => hydrateLink (dbs n) (scanLink r)).map
      Link.id = rows.map LinkRow.id := by
    rw [List.map_map]
    rfl
  have hlast (rows : List LinkRow) : ((rows.map fun r =>
      hydrateLink (dbs n) (scanLink r)).getLast?.map
      Link.id).getD 0 = (rows.map LinkRow.id).getLast?.getD 0 := by
    have hids := congrArg List.getLast? (hmap rows)
    rw [List.getLast?_map] at hids
    rw [hids]
  unfold fetchLinks ListLinksPage
  simp only [hcast, hlinks, ← List.map_take] at hserves ⊢
  generalize (listed (dbs n) scope cursor).take (linkLimit limit + 1) = got at hserves ⊢
  simp only [List.length_map, Int.toNat_natCast, Nat.cast_lt, hlast] at hserves ⊢
  by_cases hmore : linkLimit limit < got.length
  · rw [if_pos hmore] at hserves
    rw [if_pos hmore]
    refine ⟨_, _, rfl, ?_⟩
    rw [hmap]
    exact hserves
  · rw [if_neg hmore] at hserves
    rw [if_neg hmore]
    refine ⟨_, _, rfl, ?_⟩
    rw [hmap]
    exact hserves

/-- A page that is read holds what a page read without failures holds. -/
theorem fetchLinks_read {io : ℕ → Script} {dbs : ℕ → Database} {u : User} {limit : ℤ} {n : ℕ}
    {cursor : ℤ} {items : List Link} {next : ℤ}
    (h : fetchLinks io dbs u limit n cursor = some (items, next)) :
    Placed u ∧ fetchLinks (fun _ => {}) dbs u limit n cursor = some (items, next) := by
  unfold fetchLinks ListLinksPage at h ⊢
  generalize (if limit < 1 || 500 < limit then 100 else limit : ℤ) = limit at h ⊢
  dsimp only at h ⊢
  cases hlinks : listLinks (io n) (dbs n) u (limit + 1) cursor with
  | error e =>
    rw [hlinks] at h
    cases h
  | ok links =>
    obtain ⟨scope, hscope, hsame⟩ := listLinks_ok hlinks
    have hhealthy : Script.Healthy {} := ⟨rfl, fun _ => rfl, rfl, rfl⟩
    rw [hlinks] at h
    rw [listLinks_healthy hhealthy hscope, ← hsame]
    exact ⟨placed_of_viewScope hscope, h⟩

/-- `exportLinks` follows the same cursor. -/
theorem exportPages_eq (io : ℕ → Script) (dbs : ℕ → Database) (u : User) (fuel n : ℕ) (cursor : ℤ) :
    CsvLinks.exportPages io dbs u fuel n cursor =
      (follow (fetchLinks io dbs u 500) fuel n cursor).map List.flatten := by
  induction fuel generalizing n cursor with
  | zero => rfl
  | succ fuel ih =>
    simp only [CsvLinks.exportPages, follow, fetchLinks]
    cases hpage : ListLinksPage (io n) (dbs n) u 500 cursor with
    | error e => rfl
    | ok page =>
      dsimp only
      by_cases hlast : page.nextCursor = 0
      · rw [if_pos hlast, if_pos hlast, Option.map_some, List.flatten_singleton]
      · rw [if_neg hlast, if_neg hlast, ih]
        cases follow (fetchLinks io dbs u 500) fuel (n + 1) page.nextCursor with
        | none => rfl
        | some pages => rfl

def fetchUsers (io : ℕ → Script) (lower : Str → Str) (unicode : Unicode) (users : ℕ → Accounts)
    (scope : User) (limit : ℤ) (search role active : Str) (n : ℕ) (cursor : ℤ) :
    Option (List UserRow × ℤ) :=
  match ListUsersPage (io n) lower unicode (users n) scope limit cursor search role active with
  | .error _ => none
  | .ok page => some (page.items, page.nextCursor)

def userLimit (limit : ℤ) : ℕ := if limit < 1 || 500 < limit then 10 else limit.toNat

/-- The two ways of ending a page of a listing that reads one row more. -/
theorem serves_select {ρ : Type} {ident : ρ → ℤ} {rows : List ρ} {p : ρ → Bool}
    (hdistinct : rows.Pairwise fun a b => ident a ≠ ident b)
    (hpos : ∀ r ∈ rows, 0 < ident r) {limit : ℕ} (hlimit : 0 < limit) (cursor : ℤ) :
    if limit < (select ident rows p cursor (limit + 1)).length then
      Serves limit (Matching ident rows p) cursor
        (((select ident rows p cursor (limit + 1)).take limit).map ident)
        ((((select ident rows p cursor (limit + 1)).take limit).getLast?.map ident).getD 0)
    else Serves limit (Matching ident rows p) cursor
      ((select ident rows p cursor (limit + 1)).map ident) 0 := by
  have hpositive : ∀ i, Matching ident rows p i → 0 < i := by
    rintro i ⟨r, hr, -, rfl⟩
    exact hpos r hr
  have hserves := serves_lookAhead (fun i => mem_selected)
    (@selected_descending _ ident rows p cursor hdistinct) hpositive hlimit
  rw [← map_select, ← List.map_take, List.length_map, List.getLast?_map] at hserves
  exact hserves

theorem serves_select_exact {ρ : Type} {ident : ρ → ℤ} {rows : List ρ} {p : ρ → Bool}
    (hdistinct : rows.Pairwise fun a b => ident a ≠ ident b)
    (hpos : ∀ r ∈ rows, 0 < ident r) {limit : ℕ} (hlimit : 0 < limit) (cursor : ℤ) :
    Serves limit (Matching ident rows p) cursor ((select ident rows p cursor limit).map ident)
      (if (select ident rows p cursor limit).length = limit then
        ((select ident rows p cursor limit).getLast?.map ident).getD 0 else 0) := by
  have hpositive : ∀ i, Matching ident rows p i → 0 < i := by
    rintro i ⟨r, hr, -, rfl⟩
    exact hpos r hr
  have hserves := serves_exact (fun i => mem_selected)
    (@selected_descending _ ident rows p cursor hdistinct) hpositive hlimit
  rw [← map_select, List.length_map, List.getLast?_map] at hserves
  exact hserves

theorem fetchUsers_serves {io : ℕ → Script} (hio : ∀ n, (io n).Healthy) {lower : Str → Str}
    {unicode : Unicode} {users : ℕ → Accounts} {scope : User} {search role active : Str}
    {p : UserRow → Bool} (hp : userFilter lower unicode scope search role active = .ok p)
    (hids : ∀ n, ∀ r ∈ (users n).users.rows, 0 < r.id) (limit : ℤ) (n : ℕ) (cursor : ℤ) :
    ∃ items next,
      fetchUsers io lower unicode users scope limit search role active n cursor =
        some (items, next) ∧
      Serves (userLimit limit) (Matching UserRow.id (users n).users.rows p) cursor
        (items.map UserRow.id) next := by
  have hlimit : 0 < userLimit limit := by
    unfold userLimit
    split
    · decide
    · rename_i h
      simp only [Bool.or_eq_true, decide_eq_true_eq] at h
      omega
  have hdistinct : (users n).users.rows.Pairwise fun a b => a.id ≠ b.id :=
    (users n).users.distinct.imp fun hab heq => hab (Or.inl heq)
  have hserves := @serves_select _ UserRow.id _ p hdistinct (hids n) _ hlimit cursor
  have hpage : ListUsersPage (io n) lower unicode (users n) scope limit cursor search role active =
      if userLimit limit < (select UserRow.id (users n).users.rows p cursor
        (userLimit limit + 1)).length then
        .ok ⟨(select UserRow.id (users n).users.rows p cursor (userLimit limit + 1)).take
          (userLimit limit), (((select UserRow.id (users n).users.rows p cursor
            (userLimit limit + 1)).take (userLimit limit)).getLast?.map UserRow.id).getD 0⟩
      else .ok ⟨select UserRow.id (users n).users.rows p cursor (userLimit limit + 1), 0⟩ := by
    unfold ListUsersPage
    rw [hp]
    simp only [bind, Except.bind, call_healthy (hio n)]
    rfl
  unfold fetchUsers
  rw [hpage]
  generalize select UserRow.id (users n).users.rows p cursor (userLimit limit + 1) =
    out at hserves ⊢
  by_cases hmore : userLimit limit < out.length
  · rw [if_pos hmore] at hserves ⊢
    exact ⟨_, _, rfl, hserves⟩
  · rw [if_neg hmore] at hserves ⊢
    exact ⟨_, _, rfl, hserves⟩

/-! ## Listings that read their cursor from the query -/

/-- The query of a client that follows the cursor. -/
def withCursor (values : Query) (cursor : ℤ) : Query := fun key =>
  if key = lit "cursor" then if cursor = 0 then [] else formatInt cursor else values key

/-- A cursor that a page may name, or none. -/
def Followed (cursor : ℤ) : Prop := 0 ≤ cursor ∧ cursor < 2 ^ 63

theorem withCursor_other {values : Query} {cursor : ℤ} {key : Str} (h : key ≠ lit "cursor") :
    withCursor values cursor key = values key := if_neg h

theorem queryCursor_withCursor {cursor : ℤ} (h : Followed cursor) (values : Query) (text : String) :
    queryCursor (withCursor values cursor) text = .ok cursor := by
  unfold queryCursor withCursor
  rw [if_pos rfl]
  by_cases hzero : cursor = 0
  · rw [if_pos hzero, if_pos rfl, hzero]
  · obtain ⟨n, rfl⟩ := Int.eq_ofNat_of_zero_le h.1
    have hlt : n < 2 ^ 63 := by exact_mod_cast h.2
    have hformat : formatInt (n : ℤ) = lit (Nat.repr n) := rfl
    rw [if_neg hzero, hformat, if_neg (DecimalText.repr_ne_nil n), CsvCells.parseInt_repr hlt]
    have hpos : ¬ (n : ℤ) < 1 := by omega
    dsimp only
    rw [if_neg hpos]

theorem queryLimit_withCursor (values : Query) (cursor most : ℤ) (text : String) :
    queryLimit (withCursor values cursor) most text = queryLimit values most text := by
  unfold queryLimit
  rw [withCursor_other (by decide)]

theorem queryLimit_pos {values : Query} {most : ℤ} {text : String} {limit : ℕ}
    (h : queryLimit values most text = .ok limit) : 0 < limit := by
  unfold queryLimit at h
  split at h
  · obtain rfl := Except.ok.inj h
    decide
  · split at h
    · cases h
    · split at h
      · cases h
      · rename_i hrange
        simp only [Bool.or_eq_true, decide_eq_true_eq] at hrange
        obtain rfl := Except.ok.inj h
        omega

theorem columnFilter_withCursor {ρ : Type} (values : Query) (cursor : ℤ) {key : String}
    (column : ρ → Str) (h : lit key ≠ lit "cursor") :
    columnFilter (withCursor values cursor) key column = columnFilter values key column := by
  unfold columnFilter
  rw [withCursor_other h]

theorem auditFilter_withCursor (timestamp : Str → Option Time) (values : Query) (cursor : ℤ) :
    auditFilter timestamp (withCursor values cursor) = auditFilter timestamp values := by
  unfold auditFilter
  rw [columnFilter_withCursor _ _ _ (by decide), columnFilter_withCursor _ _ _ (by decide),
    columnFilter_withCursor _ _ _ (by decide), columnFilter_withCursor _ _ _ (by decide),
    withCursor_other (by decide), withCursor_other (by decide)]

theorem parseBound_withCursor (values : Query) (cursor : ℤ) {key : String}
    (h : lit key ≠ lit "cursor") :
    parseBound (withCursor values cursor) key = parseBound values key := by
  unfold parseBound
  rw [withCursor_other h]

theorem clickFilter_withCursor (values : Query) (cursor : ℤ) :
    clickFilter (withCursor values cursor) = clickFilter values := by
  unfold clickFilter linkFilter countryFilter parseTimeRange
  rw [columnFilter_withCursor _ _ _ (by decide), columnFilter_withCursor _ _ _ (by decide),
    columnFilter_withCursor _ _ _ (by decide), columnFilter_withCursor _ _ _ (by decide),
    withCursor_other (by decide), withCursor_other (by decide),
    parseBound_withCursor _ _ (by decide), parseBound_withCursor _ _ (by decide)]

/-- `timestamp n` reads the bounds of query `n`. -/
def fetchAuditEvents (io : ℕ → Script) (timestamp : ℕ → Str → Option Time)
    (events : ℕ → Table AuditRow auditClash) (values : Query) (n : ℕ) (cursor : ℤ) :
    Option (List AuditRow × ℤ) :=
  match ListAuditEvents (io n) (timestamp n) (events n) (withCursor values cursor) with
  | .error _ => none
  | .ok page => some (page.items, page.nextCursor)

theorem fetchAuditEvents_serves {io : ℕ → Script} (hio : ∀ n, (io n).Healthy)
    {timestamp : ℕ → Str → Option Time} {values : Query} {limit : ℕ} {p : ℕ → AuditRow → Bool}
    (hlimit : queryLimit values 500 "limit must be 1 to 500" = .ok limit)
    (hp : ∀ n, auditFilter (timestamp n) values = .ok (p n))
    (events : ℕ → Table AuditRow auditClash) (n : ℕ) {cursor : ℤ} (hcursor : Followed cursor) :
    ∃ items next, fetchAuditEvents io timestamp events values n cursor = some (items, next) ∧
      Serves limit (Matching (fun r => r.id.val) (events n).rows (p n)) cursor
        (items.map fun r => r.id.val) next := by
  have hdistinct : (events n).rows.Pairwise fun a b => a.id.val ≠ b.id.val :=
    (events n).distinct.imp fun hab heq => hab (Subtype.ext heq)
  have hserves := @serves_select _ (fun r => r.id.val) _ (p n) hdistinct
    (fun r _ => r.id.property.1) _ (queryLimit_pos hlimit) cursor
  have hpage : ListAuditEvents (io n) (timestamp n) (events n) (withCursor values cursor) =
      if limit < (select (fun r => r.id.val) (events n).rows (p n) cursor (limit + 1)).length then
        .ok ⟨(select (fun r => r.id.val) (events n).rows (p n) cursor (limit + 1)).take limit,
          (((select (fun r => r.id.val) (events n).rows (p n) cursor (limit + 1)).take
            limit).getLast?.map fun r => r.id.val).getD 0⟩
      else .ok ⟨select (fun r => r.id.val) (events n).rows (p n) cursor (limit + 1), 0⟩ := by
    unfold ListAuditEvents
    rw [queryLimit_withCursor, hlimit, queryCursor_withCursor hcursor, auditFilter_withCursor, hp n]
    simp only [bind, Except.bind, call_healthy (hio n)]
  unfold fetchAuditEvents
  rw [hpage]
  generalize select (fun r : AuditRow => r.id.val) (events n).rows (p n) cursor (limit + 1) = out
    at hserves ⊢
  by_cases hmore : limit < out.length
  · rw [if_pos hmore] at hserves ⊢
    exact ⟨_, _, rfl, hserves⟩
  · rw [if_neg hmore] at hserves ⊢
    exact ⟨_, _, rfl, hserves⟩

def fetchClicks (io : ℕ → Script) (clicks : ℕ → Clicks) (u : User) (values : Query) (n : ℕ)
    (cursor : ℤ) : Option (List ListedClick × ℤ) :=
  match ListClicks (io n) (clicks n) u (withCursor values cursor) with
  | .error _ => none
  | .ok page => some (page.items, page.nextCursor)

/-- A click that meets the conditions, on a live link that the user may see. -/
def clickMatches (s : Clicks) (scope : LinkRow → Bool) (p : ClickRecord → Bool)
    (c : ClickRecord) : Bool := (joinedLink s scope c).isSome && p c

theorem fetchClicks_serves {io : ℕ → Script} (hio : ∀ n, (io n).Healthy) {u : User}
    {scope : LinkRow → Bool} (hscope : addLinkViewScope u false = .ok scope) {values : Query}
    {limit : ℕ} {p : ClickRecord → Bool}
    (hlimit : queryLimit values 200 "limit must be 1 to 200" = .ok limit)
    (hp : clickFilter values = .ok p) (clicks : ℕ → Clicks) (n : ℕ) {cursor : ℤ}
    (hcursor : Followed cursor) :
    ∃ items next, fetchClicks io clicks u values n cursor = some (items, next) ∧
      Serves limit (Matching (fun c => c.id.val) (clicks n).records.rows
        (clickMatches (clicks n) scope p)) cursor (items.map fun i => i.record.id.val) next := by
  have hdistinct : (clicks n).records.rows.Pairwise fun a b => a.id.val ≠ b.id.val :=
    (clicks n).records.distinct.imp fun hab heq => hab (Subtype.ext heq)
  have hserves := @serves_select_exact _ (fun c => c.id.val) _ (clickMatches (clicks n) scope p)
    hdistinct (fun c _ => c.id.property.1) _ (queryLimit_pos hlimit) cursor
  have hitems (found : List ClickRecord) :
      (found.map fun c => ListedClick.mk c
        ((joinedLink (clicks n) scope c).elim [] LinkRow.slug)).map (fun i => i.record.id.val) =
          found.map fun c => c.id.val := by
    rw [List.map_map]
    rfl
  have hlast (found : List ClickRecord) :
      (found.map fun c => ListedClick.mk c
        ((joinedLink (clicks n) scope c).elim [] LinkRow.slug)).getLast?.map
          (fun i => i.record.id.val) = found.getLast?.map fun c => c.id.val := by
    have hids := congrArg List.getLast? (hitems found)
    rw [List.getLast?_map, @List.getLast?_map _ _ (fun c : ClickRecord => c.id.val)] at hids
    exact hids
  unfold fetchClicks ListClicks
  rw [queryLimit_withCursor, hlimit, hscope, clickFilter_withCursor, hp,
    queryCursor_withCursor hcursor]
  simp only [bind, Except.bind, call_healthy (hio n)]
  refine ⟨_, _, rfl, ?_⟩
  rw [hitems, hlast, List.length_map]
  exact hserves

/-! ## The traversals -/

/-- Whatever happens to the tables between two pages, every listing comes to an end and shows each
row that matches throughout once; `exportLinks` writes the rows of such a traversal. -/
theorem listings_complete {io : ℕ → Script} (hio : ∀ n, (io n).Healthy) {u : User} (hu : Placed u) :
    (∀ (dbs : ℕ → Database) (limit : ℤ), (∀ n, ∀ r ∈ (dbs n).links.rows, 0 < r.id) →
      Completes (fetchLinks io dbs u limit) (linkLimit limit) Link.id fun n => Visible (dbs n) u) ∧
    (∀ (lower : Str → Str) (unicode : Unicode) (users : ℕ → Accounts) (limit : ℤ)
      (search role active : Str) (p : UserRow → Bool),
      userFilter lower unicode u search role active = .ok p →
      (∀ n, ∀ r ∈ (users n).users.rows, 0 < r.id) →
      Completes (fetchUsers io lower unicode users u limit search role active) (userLimit limit)
        UserRow.id fun n => Matching UserRow.id (users n).users.rows p) ∧
    (∀ (timestamp : ℕ → Str → Option Time) (events : ℕ → Table AuditRow auditClash)
      (values : Query) (limit : ℕ) (p : ℕ → AuditRow → Bool),
      queryLimit values 500 "limit must be 1 to 500" = .ok limit →
      (∀ n, auditFilter (timestamp n) values = .ok (p n)) →
      Completes (fetchAuditEvents io timestamp events values) limit (fun r => r.id.val)
        fun n => Matching (fun r => r.id.val) (events n).rows (p n)) ∧
    (∀ (clicks : ℕ → Clicks) (values : Query) (limit : ℕ) (scope : LinkRow → Bool)
      (p : ClickRecord → Bool), addLinkViewScope u false = .ok scope →
      queryLimit values 200 "limit must be 1 to 200" = .ok limit → clickFilter values = .ok p →
      Completes (fetchClicks io clicks u values) limit (fun i => i.record.id.val)
        fun n => Matching (fun c => c.id.val) (clicks n).records.rows
          (clickMatches (clicks n) scope p)) ∧
    (∀ dbs : ℕ → Database, (∀ n, ∀ r ∈ (dbs n).links.rows, 0 < r.id) →
      ∃ (n : ℕ) (pages : List (List Link)), CsvLinks.exportLinks n io dbs u =
        some (CsvLinks.csvFile pages.flatten) ∧
        (pages.flatten.map Link.id).Pairwise (· > ·) ∧
        ∀ i, (∀ k < pages.length, Visible (dbs k) u i) →
          (pages.flatten.map Link.id).count i = 1) := by
  have hlinks (dbs : ℕ → Database) (limit : ℤ) (hids : ∀ n, ∀ r ∈ (dbs n).links.rows, 0 < r.id) :
      Completes (fetchLinks io dbs u limit) (linkLimit limit) Link.id fun n =>
        Visible (dbs n) u := by
    refine @completes_of_serves _ _ _ _ _ (fun _ => True)
      (fun n cursor _ => fetchLinks_serves hio hu hids limit n cursor) ?_ trivial
    rintro n i ⟨r, hr, rfl, -, -⟩
    exact ⟨hids n r hr, trivial⟩
  refine ⟨hlinks, ?_, ?_, ?_, ?_⟩
  · intro lower unicode users limit search role active p hp hids
    refine @completes_of_serves _ _ _ _ _ (fun _ => True)
      (fun n cursor _ => fetchUsers_serves hio hp hids limit n cursor) ?_ trivial
    rintro n i ⟨r, hr, -, rfl⟩
    exact ⟨hids n r hr, trivial⟩
  · intro timestamp events values limit p hlimit hp
    refine completes_of_serves
      (fun n cursor hcursor => fetchAuditEvents_serves hio hlimit hp events n hcursor) ?_
      ⟨le_refl 0, by decide⟩
    rintro n i ⟨r, -, -, rfl⟩
    exact ⟨r.id.property.1, le_of_lt r.id.property.1, r.id.property.2⟩
  · intro clicks values limit scope p hscope hlimit hp
    refine completes_of_serves
      (fun n cursor hcursor => fetchClicks_serves hio hscope hlimit hp clicks n hcursor) ?_
      ⟨le_refl 0, by decide⟩
    rintro n i ⟨c, -, -, rfl⟩
    exact ⟨c.id.property.1, le_of_lt c.id.property.1, c.id.property.2⟩
  · intro dbs hids
    obtain ⟨n, pages, hfollow, htraversed, honce⟩ := hlinks dbs 500 hids
    refine ⟨n, pages, ?_, htraversed.descending, honce⟩
    rw [CsvLinks.exportLinks, exportPages_eq, hfollow]
    rfl

/-! Listings of a tenant's administrator, two rows a page, while the tables change. -/

/-- The rows at each page, by number: row 4 goes and row 7 comes after the first page, row 8 comes
after the second. -/
def standing : ℕ → List (Fin 9)
  | 0 => [0, 1, 2, 3, 4, 5, 6]
  | 1 => [0, 1, 2, 3, 5, 6, 7]
  | _ => [0, 1, 2, 3, 5, 6, 7, 8]

/-- The rows that match at every page. Row 1 never matches. -/
def kept : List (Fin 9) := [0, 2, 3, 5, 6]

theorem standing_nodup (n : ℕ) : (standing n).Pairwise (· ≠ ·) := by
  have hlater : (standing 2).Pairwise (· ≠ ·) := by decide
  match n with
  | 0 => decide
  | 1 => decide
  | _ + 2 => exact hlater

theorem kept_stands : ∀ i ∈ kept, ∀ n, i ∈ standing n := by
  have hfirst : ∀ i ∈ kept, i ∈ standing 0 := by decide
  have hsecond : ∀ i ∈ kept, i ∈ standing 1 := by decide
  have hlater : ∀ i ∈ kept, i ∈ standing 2 := by decide
  intro i hi n
  match n with
  | 0 => exact hfirst i hi
  | 1 => exact hsecond i hi
  | _ + 2 => exact hlater i hi

def changing {ρ : Type} {clash : ρ → ρ → Prop} (row : Fin 9 → ρ)
    (h : ∀ i j, i ≠ j → ¬ clash (row i) (row j)) (n : ℕ) : Table ρ clash :=
  ⟨(standing n).map row, (standing_nodup n).map row fun _ _ => h _ _⟩

def rowId (i : Fin 9) : Identity := ⟨i.val + 1, by omega⟩

theorem rowId_ne {i j : Fin 9} (h : i ≠ j) : rowId i ≠ rowId j := by
  intro heq
  have hval := congrArg Subtype.val heq
  simp only [rowId] at hval
  omega

/-- Row 1 belongs to another tenant. -/
def owner (i : Fin 9) : Option ℤ := some (if i = 1 then 2 else 1)

def linkRow (i : Fin 9) : LinkRow :=
  { sampleLink with id := rowId i, tenantId := owner i, slug := lit "docs" ++ formatInt i.val }

def changingLinks (n : ℕ) : Database :=
  { Database.empty with links := changing linkRow (by decide) n }

def customerRow (i : Fin 9) : UserRow :=
  ⟨rowId i, owner i, lit "user" ++ formatInt i.val, lit "User", .customer, false, true, []⟩

def changingUsers (n : ℕ) : Accounts := ⟨changing customerRow (by decide) n, 10, .empty, 1⟩

/-- Row 1 is of another action. -/
def auditRow (i : Fin 9) : AuditRow where
  id := rowId i
  event :=
    { actorUserId := 20, actorEmail := lit "admin@example.com", authType := lit "session"
      action := if i = 1 then lit "link.create" else lit "link.update", targetType := lit "link"
      targetId := lit "1", outcome := .success, before := none, after := none, ipAddress := []
      userAgent := [] }
  createdAt := GoTime.zero

def changingEvents : ℕ → Table AuditRow auditClash := changing auditRow fun _ _ => rowId_ne

/-- Row 1 took another route. -/
def clickRecord (i : Fin 9) : ClickRecord where
  id := rowId i
  row :=
    { linkId := 1, eventId := none, ip := [], userAgent := [], referrer := []
      countryCode := lit "DE", method := lit "GET", statusCode := 302, resolvedUrl := []
      routeType := if i = 1 then lit "ios" else lit "default", browser := [], os := [], device := []
      isBot := false, referrerHost := [], utmSource := [], utmMedium := [], utmCampaign := []
      createdAt := GoTime.zero }

def changingClicks (n : ℕ) : Clicks :=
  ⟨(Database.single sampleLink).links, changing clickRecord (fun _ _ => rowId_ne) n⟩

def auditQuery : Query := fun key =>
  if key = lit "limit" then lit "2" else if key = lit "action" then lit "link.update" else []

def clickQuery : Query := fun key =>
  if key = lit "limit" then lit "2" else if key = lit "route_type" then lit "default" else []

def tenantAdmin : User := ⟨20, some 1, .tenant⟩

theorem changingLinks_ids (n : ℕ) :
    ∀ r ∈ (changingLinks n).links.rows, 0 < r.id ∧ r.id < 2 ^ 53 := by
  intro r hr
  obtain ⟨i, -, rfl⟩ := List.mem_map.mp hr
  have hsmall : (rowId i).val < 2 ^ 53 := by
    simp only [rowId]
    omega
  exact ⟨(rowId i).property.1, hsmall⟩

theorem changingLinks_visible {i : Fin 9} (hi : i ∈ kept) (n : ℕ) :
    Visible (changingLinks n) tenantAdmin (rowId i).val := by
  have howned : ∀ i ∈ kept, (linkRow i).tenantId = some 1 := by decide
  exact ⟨linkRow i, List.mem_map_of_mem (kept_stands i hi n), rfl, rfl, howned i hi⟩

/-- Three pages or more that show each row of `kept` once. -/
def Walked {α : Type} (fetch : ℕ → ℤ → Option (List α × ℤ)) (ident : α → ℤ) : Prop :=
  ∃ n pages, follow fetch n 0 0 = some pages ∧ 3 ≤ pages.length ∧
    ∀ i ∈ kept, (pages.flatten.map ident).count (rowId i).val = 1

theorem walked_of_completes {α : Type} {fetch : ℕ → ℤ → Option (List α × ℤ)} {ident : α → ℤ}
    {matching : ℕ → ℤ → Prop} (h : Completes fetch 2 ident matching)
    (hkept : ∀ i ∈ kept, ∀ n, matching n (rowId i).val) : Walked fetch ident := by
  obtain ⟨n, pages, hfollow, htraversed, honce⟩ := h
  have hshown : ∀ i ∈ kept, (pages.flatten.map ident).count (rowId i).val = 1 :=
    fun i hi => honce _ fun k _ => hkept i hi k
  have hlength := @Traversed.length_le _ _ _ _ _ _ _ htraversed (kept.map fun i => (rowId i).val)
    (by decide) fun i hi => by
      obtain ⟨j, hj, rfl⟩ := List.mem_map.mp hi
      exact List.count_pos_iff.mp (by rw [hshown j hj]; exact Nat.one_pos)
  have hkeptLength : (kept.map fun i => (rowId i).val).length = 5 := rfl
  exact ⟨n, pages, hfollow, by omega, hshown⟩

theorem matching_changing {ρ : Type} (row : Fin 9 → ρ) {ident : ρ → ℤ} {p : ρ → Bool}
    (hp : ∀ i ∈ kept, p (row i) = true) {i : Fin 9} (hi : i ∈ kept)
    (hident : ident (row i) = (rowId i).val) (n : ℕ) :
    Matching ident ((standing n).map row) p (rowId i).val :=
  ⟨row i, List.mem_map_of_mem (kept_stands i hi n), hp i hi, hident⟩

/-- All four listings and the export, over tables that lose and gain rows between the pages. -/
theorem listings_complete_changing :
    Walked (fetchLinks (fun _ => {}) changingLinks tenantAdmin 2) Link.id ∧
    Walked (fetchUsers (fun _ => {}) id ⟨fun _ => []⟩ changingUsers tenantAdmin 2 [] []
      (lit "true")) UserRow.id ∧
    Walked (fetchAuditEvents (fun _ => {}) (fun _ _ => none) changingEvents auditQuery)
      (fun r => r.id.val) ∧
    Walked (fetchClicks (fun _ => {}) changingClicks tenantAdmin clickQuery)
      (fun i => i.record.id.val) ∧
    ∃ (n : ℕ) (pages : List (List Link)),
      CsvLinks.exportLinks n (fun _ => {}) changingLinks tenantAdmin =
        some (CsvLinks.csvFile pages.flatten) ∧ (pages.flatten.map Link.id).Pairwise (· > ·) ∧
          ∀ i ∈ kept, (pages.flatten.map Link.id).count (rowId i).val = 1 := by
  have hids : ∀ n, ∀ r ∈ (changingLinks n).links.rows, 0 < r.id :=
    fun n r hr => (changingLinks_ids n r hr).1
  obtain ⟨hlinks, husers, haudit, hclicks, hexport⟩ := @listings_complete (fun _ => {})
    (fun _ => ⟨rfl, fun _ => rfl, rfl, rfl⟩) tenantAdmin (fun _ => rfl)
  refine ⟨walked_of_completes (hlinks changingLinks 2 hids) fun i hi =>
    changingLinks_visible hi, ?_, ?_, ?_, ?_⟩
  · refine walked_of_completes (husers id ⟨fun _ => []⟩ changingUsers 2 [] [] (lit "true") _ rfl ?_)
      fun i hi n => matching_changing customerRow (by decide) hi rfl n
    intro n r hr
    obtain ⟨i, -, rfl⟩ := List.mem_map.mp hr
    exact (rowId i).property.1
  · exact walked_of_completes (haudit _ changingEvents auditQuery 2 (fun _ => _) rfl fun _ => rfl)
      fun i hi n => matching_changing auditRow (by decide) hi rfl n
  · have hjoined : ∀ i ∈ kept, (joinedLink (changingClicks 0) (fun r => r.tenantId = some 1)
        (clickRecord i)).isSome = true := by decide
    refine walked_of_completes (hclicks changingClicks clickQuery 2 _ _ rfl rfl rfl)
      fun i hi n => ?_
    refine matching_changing clickRecord
      (fun j hj => Bool.and_eq_true_iff.mpr ⟨hjoined j hj, ?_⟩) hi rfl n
    revert j
    decide
  · obtain ⟨n, pages, hfile, hdescending, honce⟩ := hexport changingLinks hids
    exact ⟨n, pages, hfile, hdescending, fun i hi => honce _ fun k _ => changingLinks_visible hi k⟩

end PagedLists
