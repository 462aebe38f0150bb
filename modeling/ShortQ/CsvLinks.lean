import Mathlib.Data.List.ReduceOption
import ShortQ.CsvText
import ShortQ.JsonText
import ShortQ.LinkHandlers

/-! # Links as a CSV file

`exportLinks`, `safeCSVCell` and `importLinks`. -/
namespace CsvLinks

open AuditLog
open AuditedHandlers
open GoText
open GoTime (Time)
open Hosts
open JsonValues
open LinkHandlers (formatSeconds parseInt)
open LinkScopes
open LinkValidation
open Models
open Schema
open Transaction

def csvLinkHeaders : List Str :=
  ["slug", "url", "title", "visibility", "redirect_code", "expires_at", "max_clicks", "expired_url",
    "ios_url", "android_url", "forward_query", "utm_source", "utm_medium", "utm_campaign",
    "utm_term", "utm_content", "tags", "geo_targets"].map lit

/-! ## The export -/

/-- A spreadsheet would read the cell as a formula. -/
def formula (value : Str) : Bool :=
  match value.dropWhile fun b => b = 32 || b = 9 || b = 13 || b = 10 with
  | [] => false
  | b :: _ => b = 61 || b = 43 || b = 45 || b = 64

def safeCSVCell (value : Str) : Str := if formula value then 39 :: value else value

def formatBool (b : Bool) : Str := if b then lit "true" else lit "false"

def GeoTarget.json (target : GeoTarget) : Json :=
  .object [(lit "country_code", .string target.countryCode false),
    (lit "target_url", .string target.targetUrl false)]

def geoCell (targets : List GeoTarget) : Str :=
  JsonText.render (.array (targets.map GeoTarget.json))

def exportCells (link : Link) : List Str :=
  [link.slug, link.targetUrl, link.title, link.visibility, formatInt link.redirectCode,
    link.expiresAt.elim [] formatSeconds, link.maxClicks.elim [] formatInt, link.expiredUrl,
    link.iosUrl, link.androidUrl, formatBool link.forwardQuery, link.utmSource, link.utmMedium,
    link.utmCampaign, link.utmTerm, link.utmContent, LinkHandlers.join [59] link.tags,
    geoCell link.geoTargets]

def exportRow (link : Link) : List Str := (exportCells link).map safeCSVCell

/-- The pages from one cursor on; page `n` is read from the state `dbs n`. None is a failed query,
or more pages than the first argument. -/
def exportPages (reads : ℕ → Script) (dbs : ℕ → Database) (u : User) :
    ℕ → ℕ → ℤ → Option (List Link)
  | 0, _, _ => none
  | fuel + 1, n, cursor =>
    match ListLinksPage (reads n) (dbs n) u 500 cursor with
    | .error _ => none
    | .ok page =>
      if page.nextCursor = 0 then some page.items
      else (exportPages reads dbs u fuel (n + 1) page.nextCursor).map (page.items ++ ·)

def csvFile (links : List Link) : Str := CsvText.write (csvLinkHeaders :: links.map exportRow)

/-- The finished file of at most `n` pages; after a failed query it is never flushed. -/
def exportLinks (n : ℕ) (reads : ℕ → Script) (dbs : ℕ → Database) (u : User) : Option Str :=
  (exportPages reads dbs u n 0 0).map csvFile

/-! ## The import -/

/-- `strings.ToLower`, as far as a result made of ASCII letters can tell. -/
def lowerRune (r : Rune) : Str :=
  match r.value with
  | none => [0xEF, 0xBF, 0xBD]
  | some v =>
    if 65 ≤ v && v ≤ 90 then [UInt8.ofNat (v + 32)]
    else if v = 0x130 then lit "i"
    else if v = 0x212A then lit "k"
    else r.bytes

def toLower (s : Str) : Str := (runes s).flatMap lowerRune

/-- The last column of a name. -/
def column (header : List Str) (name : Str) : Option ℕ :=
  ((header.zipIdx.filter fun p => toLower (trimSpace p.1) = name).getLast?).map Prod.snd

def value (header row : List Str) (name : String) : Str :=
  match column header (lit name) with
  | none => []
  | some index => trimSpace (row.getD index [])

/-- `strconv.Atoi` without its error: zero for a malformed number, the nearest bound for one out of
range. -/
def atoi (s : Str) : ℤ :=
  match s with
  | 45 :: digits => (decimal digits).elim 0 fun n => -(min n (2 ^ 63) : ℕ)
  | 43 :: digits => (decimal digits).elim 0 fun n => (min n (2 ^ 63 - 1) : ℕ)
  | digits => (decimal digits).elim 0 fun n => (min n (2 ^ 63 - 1) : ℕ)

def parseBool (s : Str) : Option Bool :=
  if ["1", "t", "T", "true", "TRUE", "True"].any fun w => lit w = s then some true
  else if ["0", "f", "F", "false", "FALSE", "False"].any fun w => lit w = s then some false
  else none

/-- A cell that is empty leaves the default in place. -/
def optional {α : Type} (raw : Str) (parse : Str → Option α) (text : String) :
    Option α × Option Str :=
  if raw = [] then (none, none)
  else
    match parse raw with
    | some a => (some a, none)
    | none => (none, some (lit text))

def importTags (raw : Str) : List Str := ((raw.splitOn 59).map trimSpace).filter (· ≠ [])

inductive GeoField where
  | countryCode | targetUrl
  deriving DecidableEq

def GeoField.name : GeoField → Str
  | .countryCode => lit "country_code"
  | .targetUrl => lit "target_url"

/-- A member of the wrong type is passed over, and the whole text is refused in the end. -/
def GeoField.store (current : GeoTarget × Bool) (f : GeoField) (v : Json) : GeoTarget × Bool :=
  match f with
  | .countryCode =>
    match stringValue current.1.countryCode v with
    | some text => ({ current.1 with countryCode := text }, current.2)
    | none => (current.1, false)
  | .targetUrl =>
    match stringValue current.1.targetUrl v with
    | some text => ({ current.1 with targetUrl := text }, current.2)
    | none => (current.1, false)

def geoTarget : Json → GeoTarget × Bool
  | .null => (⟨[], []⟩, true)
  | .object members => members.foldl (fun current m =>
      match fieldNamed [.countryCode, .targetUrl] GeoField.name m.1 with
      | none => current
      | some f => f.store current m.2) (⟨[], []⟩, true)
  | _ => (⟨[], []⟩, false)

/-- The targets that `json.Unmarshal` leaves, and whether it reports no error. -/
def geoTargets (raw : Str) : List GeoTarget × Bool :=
  match JsonText.scan raw with
  | none => ([], false)
  | some .null => ([], true)
  | some (.array items) =>
    (items.map fun v => (geoTarget v).1, items.all fun v => (geoTarget v).2)
  | some _ => ([], false)

/-- One row: the link and the last error that its columns have. -/
def importRow (header row : List Str) : Link × Option Str :=
  let value := value header row
  let urlValue := value "url"
  let targetValue := value "target_url"
  let mismatch := if urlValue ≠ [] && targetValue ≠ [] && urlValue ≠ targetValue then
    some (lit "url and target_url must match when both are provided") else none
  let visibility := value "visibility"
  let code := value "redirect_code"
  let (expiresAt, expiresError) := optional (value "expires_at") GoTime.parseRFC3339
    "expires_at must be RFC3339"
  let (maxClicks, clicksError) := optional (value "max_clicks") parseInt
    "max_clicks must be an integer"
  let (forwardQuery, queryError) := optional (value "forward_query") parseBool
    "forward_query must be true or false"
  let geo := value "geo_targets"
  let targets := if geo = [] then ([], true) else geoTargets geo
  let geoError := if targets.2 then none else some (lit "geo_targets must be JSON")
  let link : Link :=
    { slug := value "slug"
      targetUrl := if targetValue = [] then urlValue else targetValue
      title := value "title"
      visibility := if visibility = [] then lit "private" else visibility
      redirectCode := if code = [] then 302 else atoi code
      expiresAt := expiresAt
      maxClicks := maxClicks
      expiredUrl := value "expired_url"
      iosUrl := value "ios_url"
      androidUrl := value "android_url"
      forwardQuery := forwardQuery.getD true
      utmSource := value "utm_source"
      utmMedium := value "utm_medium"
      utmCampaign := value "utm_campaign"
      utmTerm := value "utm_term"
      utmContent := value "utm_content"
      tags := importTags (value "tags")
      geoTargets := targets.1 }
  (link, ([mismatch, expiresError, clicksError, queryError, geoError,
    ValidateLink link].reduceOption).getLast?)

/-- The rows by their line in the file, with the errors they have. -/
def errorsByRow (header : List Str) (rows : List (List Str)) : List (ℕ × Str) :=
  (rows.zipIdx 2).filterMap fun row => (importRow header row.1).2.map fun text => (row.2, text)

def maxImportBytes : ℕ := 10 * 2 ^ 20

/-- `importLinks` of a body that is no form. -/
def importLinks (server : Server) (w : World) (c : Caller) (calls : Calls) (dryRun : Bool)
    (body : Str) : Ending × World :=
  if maxImportBytes < body.length then (.respond (errOut 400 "invalid or empty CSV"), w)
  else
    match CsvText.read body with
    | none => (.respond (errOut 400 "invalid or empty CSV"), w)
    | some [] => (.respond (errOut 400 "invalid or empty CSV"), w)
    | some (header :: rows) =>
      if 10000 < rows.length then
        (.respond (errOut 400 "CSV may contain at most 10000 links"), w)
      else if (column header (lit "url")).isNone && (column header (lit "target_url")).isNone then
        (.respond (errOut 400 "CSV requires a url or target_url column"), w)
      else
        LinkHandlers.importLinks server w c calls (rows.map fun row => (importRow header row).1)
          (errorsByRow header rows) dryRun

end CsvLinks
