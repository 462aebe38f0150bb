import ShortQ.AuditTrail
import ShortQ.CsvTags
import ShortQ.ImportWrites
import ShortQ.LinkResponses

/-! # Importing a CSV file

What a dry run accepts, and what the import of the same file makes of its rows. -/
namespace CsvImports

open AcceptedLinks
open AuditedHandlers
open AuditLog
open CsvLinks
open CsvTags
open GoText
open GoTime (Time)
open Hosts
open ImportWrites
open LinkCalls
open LinkHandlers (parseInt)
open LinkPayload (geoRow)
open LinkScopes
open LinkStore
open LinkValidation
open LinkWrites
open Models
open Runes
open Schema
open Transaction
open WriteSuccess
open WrittenLinks

/-! ## The rows of a file -/

/-- The header and the rows of a file that is read row by row. -/
def table (body : Str) : Option (List Str × List (List Str)) :=
  if maxImportBytes < body.length then none
  else
    match CsvText.read body with
    | some (header :: rows) =>
      if 10000 < rows.length || (column header (lit "url")).isNone &&
          (column header (lit "target_url")).isNone then none
      else some (header, rows)
    | _ => none

/-- The response to an import, its audit included. -/
def serveImport (server : Server) (w : World) (c : Caller) (calls : Calls) (dryRun : Bool)
    (body : Str) : Response × World :=
  conclude calls (CsvLinks.importLinks server w c calls dryRun body)

theorem importLinks_cases (server : Server) (w : World) (c : Caller) (calls : Calls) (dryRun : Bool)
    (body : Str) :
    (table body = none ∧ ∃ text, CsvLinks.importLinks server w c calls dryRun body =
        (.respond (errOut 400 text), w)) ∨
      ∃ header rows, table body = some (header, rows) ∧
        CsvLinks.importLinks server w c calls dryRun body =
          LinkHandlers.importLinks server w c calls (rows.map fun row => (importRow header row).1)
            (errorsByRow header rows) dryRun := by
  unfold table CsvLinks.importLinks
  by_cases hlong : maxImportBytes < body.length
  · rw [if_pos hlong, if_pos hlong]
    exact Or.inl ⟨rfl, _, rfl⟩
  · rw [if_neg hlong, if_neg hlong]
    cases CsvText.read body with
    | none => exact Or.inl ⟨rfl, _, rfl⟩
    | some lines =>
      cases lines with
      | nil => exact Or.inl ⟨rfl, _, rfl⟩
      | cons header rows =>
        dsimp only
        by_cases hmany : 10000 < rows.length
        · rw [if_pos hmany, if_pos (by simp [hmany])]
          exact Or.inl ⟨rfl, _, rfl⟩
        · rw [if_neg hmany]
          by_cases hcolumn : ((column header (lit "url")).isNone &&
              (column header (lit "target_url")).isNone) = true
          · rw [if_pos hcolumn, if_pos (by simp [hcolumn])]
            exact Or.inl ⟨rfl, _, rfl⟩
          · rw [if_neg hcolumn, if_neg (by simp [hmany]; simpa using hcolumn)]
            exact Or.inr ⟨header, rows, rfl, rfl⟩

/-- The errors name each line with an error once, by its number, and no other. -/
theorem mem_errorsByRow {header : List Str} {rows : List (List Str)} {line : ℕ} {text : Str} :
    (line, text) ∈ errorsByRow header rows ↔ ∃ (k : ℕ) (row : List Str), rows[k]? = some row ∧
      line = k + 2 ∧ (importRow header row).2 = some text := by
  simp only [errorsByRow, List.mem_filterMap, Option.map_eq_some_iff, Prod.mk.injEq, Prod.exists,
    List.mem_zipIdx_iff_le_and_getElem?_sub]
  constructor
  · rintro ⟨row, number, ⟨hle, hrow⟩, x, hx, rfl, rfl⟩
    exact ⟨number - 2, row, hrow, by omega, hx⟩
  · rintro ⟨k, row, hrow, rfl, hx⟩
    exact ⟨row, k + 2, ⟨by omega, hrow⟩, text, hx, rfl, rfl⟩

theorem errorsByRow_nil {header : List Str} {rows : List (List Str)} :
    errorsByRow header rows = [] ↔ ∀ row ∈ rows, (importRow header row).2 = none := by
  constructor
  · intro h row hrow
    by_contra herror
    obtain ⟨text, htext⟩ := Option.ne_none_iff_exists'.mp herror
    obtain ⟨k, hk⟩ := List.mem_iff_getElem?.mp hrow
    have hmem := mem_errorsByRow.mpr ⟨k, row, hk, rfl, htext⟩
    rw [h] at hmem
    cases hmem
  · intro h
    rw [List.eq_nil_iff_forall_not_mem]
    rintro ⟨line, text⟩ hmem
    obtain ⟨k, row, hrow, -, htext⟩ := mem_errorsByRow.mp hmem
    rw [h row (List.mem_of_getElem? hrow)] at htext
    cases htext

/-- The link of a row. -/
def rowLink (header row : List Str) : Link := (importRow header row).1

/-- No column of the row has an error. -/
structure Sound (header row : List Str) : Prop where
  urls : value header row "url" = [] ∨ value header row "target_url" = [] ∨
    value header row "url" = value header row "target_url"
  expires : value header row "expires_at" = [] ∨
    (GoTime.parseRFC3339 (value header row "expires_at")).isSome
  limit : value header row "max_clicks" = [] ∨ (parseInt (value header row "max_clicks")).isSome
  query : value header row "forward_query" = [] ∨
    (parseBool (value header row "forward_query")).isSome
  geo : value header row "geo_targets" = [] ∨ (geoTargets (value header row "geo_targets")).2 = true
  valid : ValidateLink (rowLink header row) = none

theorem optional_none {α : Type} {raw : Str} {parse : Str → Option α} {text : String} :
    (optional raw parse text).2 = none ↔ raw = [] ∨ (parse raw).isSome := by
  unfold CsvLinks.optional
  by_cases hraw : raw = []
  · simp [hraw]
  · rw [if_neg hraw]
    cases parse raw <;> simp [hraw]

theorem optional_value {α : Type} {raw : Str} {parse : Str → Option α} {text : String} :
    (optional raw parse text).1 = if raw = [] then none else parse raw := by
  unfold CsvLinks.optional
  by_cases hraw : raw = []
  · rw [if_pos hraw, if_pos hraw]
  · rw [if_neg hraw, if_neg hraw]
    cases parse raw <;> rfl

theorem importRow_none {header row : List Str} :
    (importRow header row).2 = none ↔ Sound header row := by
  have herrors : (importRow header row).2 = ([
      if value header row "url" ≠ [] && value header row "target_url" ≠ [] &&
          value header row "url" ≠ value header row "target_url" then
        some (lit "url and target_url must match when both are provided") else none,
      (optional (value header row "expires_at") GoTime.parseRFC3339
        "expires_at must be RFC3339").2,
      (optional (value header row "max_clicks") parseInt "max_clicks must be an integer").2,
      (optional (value header row "forward_query") parseBool
        "forward_query must be true or false").2,
      if (if value header row "geo_targets" = [] then ([], true)
          else geoTargets (value header row "geo_targets")).2 then none
        else some (lit "geo_targets must be JSON"),
      ValidateLink (rowLink header row)].reduceOption).getLast? := rfl
  rw [herrors, List.getLast?_eq_none_iff, List.reduceOption, List.filterMap_eq_nil_iff]
  simp only [List.forall_mem_cons, id_eq, optional_none, List.not_mem_nil, false_imp_iff,
    implies_true, and_true]
  constructor
  · rintro ⟨hurls, hexpires, hlimit, hquery, hgeo, hvalid⟩
    refine ⟨?_, hexpires, hlimit, hquery, ?_, hvalid⟩
    · by_contra hno
      push Not at hno
      rw [if_pos (by simp [hno])] at hurls
      cases hurls
    · by_cases hraw : value header row "geo_targets" = []
      · exact Or.inl hraw
      · rw [if_neg hraw] at hgeo
        apply Or.inr
        by_contra hbad
        rw [if_neg hbad] at hgeo
        cases hgeo
  · intro h
    refine ⟨?_, h.expires, h.limit, h.query, ?_, h.valid⟩
    · rw [if_neg]
      have hurls := h.urls
      simp only [Bool.and_eq_true, decide_eq_true_eq]
      tauto
    · rcases h.geo with hraw | hgood
      · rw [if_pos hraw]
        rfl
      · by_cases hraw : value header row "geo_targets" = []
        · rw [if_pos hraw]
          rfl
        · rw [if_neg hraw, if_pos hgood]

theorem rowLink_eq (header row : List Str) : rowLink header row =
    { slug := value header row "slug"
      targetUrl := if value header row "target_url" = [] then value header row "url"
        else value header row "target_url"
      title := value header row "title"
      visibility := if value header row "visibility" = [] then lit "private"
        else value header row "visibility"
      redirectCode := if value header row "redirect_code" = [] then 302
        else atoi (value header row "redirect_code")
      expiresAt := if value header row "expires_at" = [] then none
        else GoTime.parseRFC3339 (value header row "expires_at")
      maxClicks := if value header row "max_clicks" = [] then none
        else parseInt (value header row "max_clicks")
      expiredUrl := value header row "expired_url"
      iosUrl := value header row "ios_url"
      androidUrl := value header row "android_url"
      forwardQuery := (if value header row "forward_query" = [] then none
        else parseBool (value header row "forward_query")).getD true
      utmSource := value header row "utm_source"
      utmMedium := value header row "utm_medium"
      utmCampaign := value header row "utm_campaign"
      utmTerm := value header row "utm_term"
      utmContent := value header row "utm_content"
      tags := importTags (value header row "tags")
      geoTargets := if value header row "geo_targets" = [] then []
        else (geoTargets (value header row "geo_targets")).1 } := by
  rw [← @optional_value _ _ _ "expires_at must be RFC3339",
    ← @optional_value _ _ _ "max_clicks must be an integer",
    ← @optional_value _ _ _ "forward_query must be true or false"]
  have hgeo : (if value header row "geo_targets" = [] then []
      else (geoTargets (value header row "geo_targets")).1) =
      (if value header row "geo_targets" = [] then ([], true)
        else geoTargets (value header row "geo_targets")).1 := by
    split <;> rfl
  rw [hgeo]
  rfl

/-! ## What the columns take -/

def utmNames : List String :=
  ["utm_source", "utm_medium", "utm_campaign", "utm_term", "utm_content"]

def urlNames : List String := ["url", "target_url", "expired_url", "ios_url", "android_url"]

/-- The columns of the store take the cells of the row. -/
structure Storable (header row : List Str) : Prop where
  urls : ∀ name ∈ urlNames, (text (value header row name)).isSome
  title : (varchar 180 (value header row "title")).isSome
  utm : ∀ name ∈ utmNames, (varchar 255 (value header row name)).isSome
  expires : ∀ t, GoTime.parseRFC3339 (value header row "expires_at") = some t →
    (timestamptz t).isSome
  geo : ∀ target ∈ (geoTargets (value header row "geo_targets")).1,
    (text (trimSpace target.targetUrl)).isSome

/-- The link of a row as the loop of the store leaves it. -/
def rowInput (random : Str) (header row : List Str) : Link :=
  importInput random (rowLink header row)

theorem private_ne : lit "private" ≠ [] := by decide

theorem visibility_ne (header row : List Str) : (rowLink header row).visibility ≠ [] := by
  rw [rowLink_eq]
  dsimp only
  split
  · exact private_ne
  · assumption

theorem validateLink_input {random : Str} {header row : List Str}
    (h : ValidateLink (rowLink header row) = none) :
    validateLink (rowInput random header row) = none := by
  unfold ValidateLink at h
  split at h
  · cases h
  · unfold rowInput importInput
    rw [if_neg (visibility_ne header row)]
    exact h

/-- Of the checks of the store only the one of a generated slug is new. -/
theorem checked_input {random : Str} {header row : List Str} (h : Sound header row)
    (hrandom : value header row "slug" = [] → slugRe random = true) :
    Checked (rowInput random header row) := by
  refine ⟨?_, validateLink_input h.valid⟩
  have hvalid := h.valid
  unfold ValidateLink at hvalid
  split at hvalid
  · cases hvalid
  · rename_i hslug
    rw [rowLink_eq] at hslug
    change slugRe (if (rowLink header row).slug = [] then random
      else (rowLink header row).slug) = true
    rw [rowLink_eq]
    dsimp only at hslug ⊢
    by_cases hempty : value header row "slug" = []
    · rw [if_pos hempty]
      exact hrandom hempty
    · rw [if_neg hempty]
      simpa [hempty] using hslug

theorem checkVisibility_accepted {link : Link} (h : Accepted link) (hne : link.visibility ≠ []) :
    (checkVisibility link.visibility).isSome := by
  rcases h.visibility with heq | heq | heq
  · exact absurd heq hne
  · rw [heq]
    decide
  · rw [heq]
    decide

theorem smallint_accepted {link : Link} (h : Accepted link) :
    (smallint link.redirectCode).isSome := by
  rcases h.code with heq | heq | heq | heq <;> rw [heq] <;> decide

theorem geoRow_taken {target : GeoTarget} (h : country target ∈ isoCountryCodes) :
    (geoRow 0 target).isSome ↔ (text (trimSpace target.targetUrl)).isSome := by
  unfold geoRow
  rw [bpchar_iso h]
  cases text (trimSpace target.targetUrl) <;> exact Iff.rfl

theorem nullable_taken {a : Option Time} :
    (nullable timestamptz a).isSome ↔ ∀ t, a = some t → (timestamptz t).isSome := by
  cases a with
  | none => simp [nullable]
  | some t => simp [nullable]

theorem expires_of_empty {raw : Str} (h : raw = []) : GoTime.parseRFC3339 raw = none := by
  rw [h]
  decide

theorem geoTargets_of_empty {raw : Str} (h : raw = []) : (geoTargets raw).1 = [] := by
  rw [h]
  decide

/-- A sound row is taken by the columns exactly when its cells are. -/
theorem taken_input {random : Str} {header row : List Str} (h : Sound header row) :
    Taken (rowInput random header row) ↔ Storable header row := by
  have haccepted := validateLink_none.mp (@validateLink_input random header row h.valid)
  have hvisibility : (rowInput random header row).visibility ≠ [] := by
    unfold rowInput importInput
    rw [if_neg (visibility_ne header row)]
    exact visibility_ne header row
  have htarget : (text (rowInput random header row).targetUrl).isSome ↔
      (text (value header row "url")).isSome ∧ (text (value header row "target_url")).isSome := by
    have hempty : (text []).isSome := by decide
    change (text (rowLink header row).targetUrl).isSome ↔ _
    rw [rowLink_eq]
    dsimp only
    by_cases hnone : value header row "target_url" = []
    · rw [if_pos hnone, hnone]
      simp [hempty]
    · rw [if_neg hnone]
      rcases h.urls with hurl | hurl | hurl
      · rw [hurl]
        simp [hempty]
      · exact absurd hurl hnone
      · rw [hurl, and_self]
  have hexpires : (nullable timestamptz (rowInput random header row).expiresAt).isSome ↔
      ∀ t, GoTime.parseRFC3339 (value header row "expires_at") = some t →
        (timestamptz t).isSome := by
    rw [nullable_taken]
    change (∀ t, (rowLink header row).expiresAt = some t → _) ↔ _
    rw [rowLink_eq]
    dsimp only
    by_cases hraw : value header row "expires_at" = []
    · rw [if_pos hraw, expires_of_empty hraw]
    · rw [if_neg hraw]
  have hgeo : (∀ target ∈ (rowInput random header row).geoTargets, (geoRow 0 target).isSome) ↔
      ∀ target ∈ (geoTargets (value header row "geo_targets")).1,
        (text (trimSpace target.targetUrl)).isSome := by
    have hsame : (rowInput random header row).geoTargets =
        (geoTargets (value header row "geo_targets")).1 := by
      change (rowLink header row).geoTargets = _
      rw [rowLink_eq]
      dsimp only
      by_cases hraw : value header row "geo_targets" = []
      · rw [if_pos hraw, geoTargets_of_empty hraw]
      · rw [if_neg hraw]
    rw [← hsame]
    constructor
    · intro hall target hmem
      exact (geoRow_taken (haccepted.geo target hmem).1).mp (hall target hmem)
    · intro hall target hmem
      exact (geoRow_taken (haccepted.geo target hmem).1).mpr (hall target hmem)
  rw [Taken, linkColumns_isSome, htarget, hexpires, hgeo]
  have htitle : (rowInput random header row).title = value header row "title" := by
    change (rowLink header row).title = _
    rw [rowLink_eq]
  constructor
  · rintro ⟨⟨⟨hurl, htarget⟩, htitle', -, -, hexpires, hexpired, hios, handroid, hsource, hmedium,
      hcampaign, hterm, hcontent⟩, hgeo⟩
    rw [htitle] at htitle'
    refine ⟨?_, htitle', ?_, hexpires, hgeo⟩
    · simp only [urlNames, List.forall_mem_cons, List.not_mem_nil, false_imp_iff, implies_true,
        and_true]
      exact ⟨hurl, htarget, hexpired, hios, handroid⟩
    · simp only [utmNames, List.forall_mem_cons, List.not_mem_nil, false_imp_iff, implies_true,
        and_true]
      exact ⟨hsource, hmedium, hcampaign, hterm, hcontent⟩
  · intro hstorable
    have hurls := hstorable.urls
    have hutm := hstorable.utm
    simp only [urlNames, utmNames, List.forall_mem_cons, List.not_mem_nil, false_imp_iff,
      implies_true, and_true] at hurls hutm
    rw [htitle]
    exact ⟨⟨⟨hurls.1, hurls.2.1⟩, hstorable.title, checkVisibility_accepted haccepted hvisibility,
      smallint_accepted haccepted, hstorable.expires, hurls.2.2.1, hurls.2.2.2.1, hurls.2.2.2.2,
      hutm.1, hutm.2.1, hutm.2.2.1, hutm.2.2.2.1, hutm.2.2.2.2⟩, hstorable.geo⟩

/-! ## The import of checked rows -/

theorem importedIDs_eq (db : Database) (links : List Link) : importedIDs db links =
    (List.range links.length).map fun i : ℕ => db.nextLinkId + (i : ℤ) := by
  unfold importedIDs
  simp [List.map_eq_flatMap, List.flatMap_assoc]

theorem createLinksBulk_spec {io after : Script} {db : Database} {randoms : ℕ → Str} {u : User}
    {links found : List Link} (hdb : Intact db)
    (h : (createLinksBulk io after db randoms u links).1 = .ok found) :
    (∀ link ∈ inputs randoms 0 links, Checked link) ∧
      Imported db (createLinksBulk io after db randoms u links).2 u db.nextLinkId
        (inputs randoms 0 links) ∧
      ReadOff (createLinksBulk io after db randoms u links).2 u (inputs randoms 0 links) found := by
  have hlength : (inputs randoms 0 links).length = links.length := by
    rw [inputs, List.length_map, List.length_zipIdx]
  unfold createLinksBulk at h ⊢
  cases hwrite : createLinksBulkWrite io db randoms u links with
  | mk failure written =>
    rw [hwrite] at h
    cases failure with
    | some e => cases h
    | none =>
      dsimp only at h ⊢
      obtain ⟨hchecked, -, himported⟩ := @imported_write io db randoms u links hdb (by rw [hwrite])
      rw [hwrite] at himported
      refine ⟨hchecked, himported, @readOff_imported after _ _ _ _ _ _ himported ?_⟩
      rw [hlength, ← importedIDs_eq]
      exact h

theorem createLinksBulk_ok_iff {io after : Script} (hio : io.Healthy) (hafter : after.Healthy)
    {db : Database} {randoms : ℕ → Str} {u : User} {links : List Link} (hdb : Intact db)
    (hunused : Unused db (inputs randoms 0 links)) :
    (∃ found, (createLinksBulk io after db randoms u links).1 = .ok found) ↔
      (((inputs randoms 0 links).map Link.slug).Nodup ∧
        ∀ link ∈ inputs randoms 0 links, Checked link ∧ Taken link) ∧
      (links ≠ [] → Placed u) := by
  have hlength : (inputs randoms 0 links).length = links.length := by
    rw [inputs, List.length_map, List.length_zipIdx]
  rw [← @createLinksBulkWrite_ok_iff io hio db randoms u links hdb hunused]
  unfold createLinksBulk
  cases hwrite : createLinksBulkWrite io db randoms u links with
  | mk failure written =>
    cases failure with
    | some e => simp
    | none =>
      dsimp only
      obtain ⟨-, -, himported⟩ := @imported_write io db randoms u links hdb (by rw [hwrite])
      rw [hwrite] at himported
      rw [eq_self, true_and]
      constructor
      · rintro ⟨found, hfound⟩ hne
        rcases linksByIDs_ok_iff.mp ⟨found, hfound⟩ with hnil | ⟨hplaced, -⟩
        · have hids := congrArg List.length hnil
          rw [importedIDs_eq, List.length_map, List.length_range] at hids
          exact absurd (List.length_eq_zero_iff.mp hids) hne
        · exact hplaced
      · intro hplaced
        by_cases hnil : links = []
        · subst hnil
          exact linksByIDs_ok_iff.mpr (Or.inl rfl)
        · obtain ⟨found, hfound⟩ := read_imported hafter (hplaced hnil) himported
          rw [hlength, ← importedIDs_eq] at hfound
          exact ⟨found, hfound⟩

theorem recordAudit_none_iff {io : Script} (hio : io.Healthy) {accounts : AccountRows.Accounts}
    {log : List AuditEvent} {e : AuditEvent}
    (hactor : ∃ user ∈ accounts.users.rows, user.id = e.actorUserId) :
    (recordAudit io accounts log e).1 = none ↔ (auditRow e).isSome := by
  unfold recordAudit statement
  rw [call_healthy hio]
  cases hrow : auditRow e with
  | none => simp
  | some row =>
    have hsame : row.actorUserId = e.actorUserId := (AuditTrail.auditRow_fields hrow).2.1
    have hfound : (accounts.users.find (·.id = row.actorUserId)).isSome := by
      obtain ⟨user, huser, hid⟩ := hactor
      rw [hsame]
      exact List.find?_isSome.mpr ⟨user, huser, by simpa using hid⟩
    dsimp only
    rw [if_pos hfound]
    dsimp only
    simp only [commitTx, hio.2.2.2, Option.isSome_some]

/-- What a request can rely on: connections that do not fail and a user that is stored. -/
structure Serves (w : World) (c : Caller) (calls : Calls) : Prop where
  io : calls.io.Healthy
  after : calls.after.Healthy
  audit : calls.audit.Healthy
  actor : ∃ user ∈ w.accounts.users.rows, user.id = c.principal.actual.id

def importEvent (c : Caller) (found : List Link) : AuditEvent :=
  c.event (lit "link.imported") (lit "link") (formatInt found.length) .success none
    (some (LinkHandlers.snapshots found))

theorem importLinks_run (server : Server) (w : World) (c : Caller) (calls : Calls)
    (links : List Link) : LinkHandlers.importLinks server w c calls links [] false =
      match createLinksBulk calls.io calls.after w.db calls.randoms c.user links with
      | (.error e, db) =>
        (.respond ⟨409, .error (lit "no links imported: ") (.store e)⟩, { w with db := db })
      | (.ok found, db) =>
        (.record (importEvent c found)
          ⟨201, .imported (found.map (LinkHandlers.entry server w.domains))⟩ id,
          { w with db := db }) := by
  unfold LinkHandlers.importLinks World.run
  rw [run_createLinksBulk, if_neg (fun h => h rfl), if_neg Bool.false_ne_true]
  cases createLinksBulk calls.io calls.after w.db calls.randoms c.user links with
  | mk result db => cases result <;> rfl

theorem importEvent_stored {c : Caller} {found : List Link} :
    (auditRow (importEvent c found)).isSome ↔
      c.readable ∧ Recordable (some (LinkHandlers.snapshots found)) := by
  have hplain : Plain (lit "link.imported") ∧ Plain (lit "link") := by
    unfold Plain
    decide
  have hnone : Recordable none := fun x hx => by cases hx
  have hid : Plain (formatInt (found.length : ℤ)) := AuditTrail.plain_toString _
  rw [importEvent, auditRow_isSome hplain.1 hplain.2 hid]
  exact ⟨fun h => ⟨h.1, h.2.2⟩, fun h => ⟨h.1, hnone, h.2⟩⟩

/-- The import of rows without errors is answered with 201 exactly when no slug repeats, the columns
take every link, and the user and the audit log allow it. -/
theorem imported_iff {server : Server} {w : World} {c : Caller} {calls : Calls} {links : List Link}
    (hserves : Serves w c calls) (hdb : Intact w.db)
    (hunused : Unused w.db (inputs calls.randoms 0 links)) :
    (conclude calls (LinkHandlers.importLinks server w c calls links [] false)).1.status = 201 ↔
      ((((inputs calls.randoms 0 links).map Link.slug).Nodup ∧
        ∀ link ∈ inputs calls.randoms 0 links, Checked link ∧ Taken link) ∧
      (links ≠ [] → Placed c.user)) ∧ c.readable ∧ Auditable (inputs calls.randoms 0 links) := by
  rw [← @createLinksBulk_ok_iff calls.io calls.after hserves.io hserves.after w.db calls.randoms
    c.user links hdb hunused, importLinks_run]
  cases hcall : createLinksBulk calls.io calls.after w.db calls.randoms c.user links with
  | mk result db =>
    cases result with
    | error e =>
      constructor
      · intro h
        cases h
      · rintro ⟨⟨found, hfound⟩, -⟩
        cases hfound
    | ok found =>
      obtain ⟨hchecked, -, hread⟩ := @createLinksBulk_spec calls.io calls.after w.db calls.randoms
        c.user links found hdb (by rw [hcall])
      have hstored := @recordAudit_none_iff calls.audit hserves.audit w.accounts w.audits
        (importEvent c found) hserves.actor
      rw [importEvent_stored, recordable_iff hread fun link hlink => (hchecked link hlink).1]
        at hstored
      dsimp only [conclude]
      cases hrecord : recordAudit calls.audit w.accounts w.audits (importEvent c found) with
      | mk failure log =>
        rw [hrecord] at hstored
        cases failure with
        | some e =>
          constructor
          · intro h
            cases h
          · rintro ⟨-, hall⟩
            cases hstored.mpr hall
        | none => exact iff_of_true rfl ⟨⟨found, rfl⟩, hstored.mp rfl⟩

/-! ## A dry run and the import -/

/-- The slug of a row, or the one that is generated for it. -/
def chosen (random slug : Str) : Str := if slug = [] then random else slug

/-- The store has none of the slugs, and the generated ones are slugs and collide with nothing. -/
structure Fresh (db : Database) (randoms : ℕ → Str) (slugs : List Str) : Prop where
  formed : ∀ k : ℕ, slugs[k]? = some [] → slugRe (randoms k) = true
  unused : ∀ (k : ℕ) s, slugs[k]? = some s → ∀ r ∈ db.links.rows, r.slug ≠ chosen (randoms k) s
  apart : ∀ (j k : ℕ) s, j ≠ k → slugs[j]? = some [] → slugs[k]? = some s →
    randoms j ≠ chosen (randoms k) s

/-- No slug stands in two rows. -/
def Distinct (slugs : List Str) : Prop := slugs.Pairwise fun a b => a ≠ [] → a ≠ b

instance (slugs : List Str) : Decidable (Distinct slugs) :=
  inferInstanceAs (Decidable (slugs.Pairwise fun a b => a ≠ [] → a ≠ b))

theorem pairwise_getElem? {α : Type} {R : α → α → Prop} {l : List α} :
    l.Pairwise R ↔ ∀ (j k : ℕ) a b, j < k → l[j]? = some a → l[k]? = some b → R a b := by
  rw [List.pairwise_iff_getElem]
  constructor
  · intro h j k a b hlt ha hb
    obtain ⟨hj, rfl⟩ := List.getElem?_eq_some_iff.mp ha
    obtain ⟨hk, rfl⟩ := List.getElem?_eq_some_iff.mp hb
    exact h j k hj hk hlt
  · intro h j k hj hk hlt
    exact h j k _ _ hlt (List.getElem?_eq_getElem hj) (List.getElem?_eq_getElem hk)

/-- With generated slugs that collide with nothing, only a repeated slug stands twice. -/
theorem nodup_chosen {db : Database} {randoms : ℕ → Str} {slugs taken : List Str}
    (hfresh : Fresh db randoms slugs)
    (htaken : ∀ k : ℕ, taken[k]? = (slugs[k]?).map (chosen (randoms k))) :
    taken.Nodup ↔ Distinct slugs := by
  unfold List.Nodup Distinct
  rw [pairwise_getElem?, pairwise_getElem?]
  constructor
  · intro h j k a b hlt ha hb hne heq
    subst heq
    refine h j k a a hlt ?_ ?_ rfl
    · rw [htaken, ha, Option.map_some, chosen, if_neg hne]
    · rw [htaken, hb, Option.map_some, chosen, if_neg hne]
  · intro h j k a b hlt ha hb heq
    subst heq
    rw [htaken] at ha hb
    obtain ⟨s, hs, hleft⟩ := Option.map_eq_some_iff.mp ha
    obtain ⟨t, ht, hright⟩ := Option.map_eq_some_iff.mp hb
    by_cases hsnil : s = []
    · subst hsnil
      exact hfresh.apart j k t (Nat.ne_of_lt hlt) hs ht (hleft.trans hright.symm)
    · by_cases htnil : t = []
      · subst htnil
        exact hfresh.apart k j s (Nat.ne_of_gt hlt) ht hs (hright.trans hleft.symm)
      · unfold chosen at hleft hright
        rw [if_neg hsnil] at hleft
        rw [if_neg htnil] at hright
        exact h j k s t hlt hs ht hsnil (hleft.trans hright.symm)

def slugCells (header : List Str) (rows : List (List Str)) : List Str :=
  rows.map fun row => value header row "slug"

theorem slug_rowInput (random : Str) (header row : List Str) :
    (rowInput random header row).slug = chosen random (value header row "slug") := by
  change chosen random (rowLink header row).slug = _
  rw [rowLink_eq]

theorem inputs_rows (randoms : ℕ → Str) (header : List Str) (rows : List (List Str)) (k : ℕ) :
    (inputs randoms 0 (rows.map (rowLink header)))[k]? =
      (rows[k]?).map (rowInput (randoms k) header) := by
  rw [inputs_getElem?, List.getElem?_map, Option.map_map, Nat.zero_add]
  rfl

theorem mem_inputs {randoms : ℕ → Str} {header : List Str} {rows : List (List Str)} {link : Link} :
    link ∈ inputs randoms 0 (rows.map (rowLink header)) ↔
      ∃ (k : ℕ) (row : List Str), rows[k]? = some row ∧ rowInput (randoms k) header row = link := by
  rw [List.mem_iff_getElem?]
  simp only [inputs_rows, Option.map_eq_some_iff]

theorem unused_rows {db : Database} {randoms : ℕ → Str} {header : List Str}
    {rows : List (List Str)} (h : Fresh db randoms (slugCells header rows)) :
    Unused db (inputs randoms 0 (rows.map (rowLink header))) := by
  intro r hr link hlink
  obtain ⟨k, row, hrow, rfl⟩ := mem_inputs.mp hlink
  rw [slug_rowInput]
  refine h.unused k _ ?_ r hr
  rw [slugCells, List.getElem?_map, hrow]
  rfl

/-- An expiry of the row can be written in RFC 3339. -/
def WritableCell (header row : List Str) : Prop :=
  ∀ t, GoTime.parseRFC3339 (value header row "expires_at") = some t →
    (GoTime.formatRFC3339 t).isSome

/-- The audit log takes the tags of the file; it records no tags where an expiry has a year that
RFC 3339 cannot write. -/
def AuditableCells (header : List Str) (rows : List (List Str)) : Prop :=
  (∀ row ∈ rows, WritableCell header row) →
    ∀ row ∈ rows, ∀ tag ∈ normalizeTags (importTags (value header row "tags")), (0 : UInt8) ∉ tag

theorem writable_rowInput (random : Str) (header row : List Str) :
    Writable (rowInput random header row) ↔ WritableCell header row := by
  unfold Writable WritableCell
  change (∀ t, (rowLink header row).expiresAt = some t → _) ↔ _
  rw [rowLink_eq]
  dsimp only
  by_cases hraw : value header row "expires_at" = []
  · rw [if_pos hraw, expires_of_empty hraw]
  · rw [if_neg hraw]

theorem tags_rowInput (random : Str) (header row : List Str) :
    (rowInput random header row).tags = importTags (value header row "tags") := by
  change (rowLink header row).tags = _
  rw [rowLink_eq]

theorem auditable_rows {randoms : ℕ → Str} {header : List Str} {rows : List (List Str)} :
    Auditable (inputs randoms 0 (rows.map (rowLink header))) ↔ AuditableCells header rows := by
  have hall {P : Link → Prop} {Q : List Str → Prop}
      (h : ∀ k row, P (rowInput (randoms k) header row) ↔ Q row) :
      (∀ link ∈ inputs randoms 0 (rows.map (rowLink header)), P link) ↔ ∀ row ∈ rows, Q row := by
    constructor
    · intro hlinks row hrow
      obtain ⟨k, hk⟩ := List.mem_iff_getElem?.mp hrow
      exact (h k row).mp (hlinks _ (mem_inputs.mpr ⟨k, row, hk, rfl⟩))
    · intro hrows link hlink
      obtain ⟨k, row, hrow, rfl⟩ := mem_inputs.mp hlink
      exact (h k row).mpr (hrows row (List.mem_of_getElem? hrow))
  unfold Auditable AuditableCells
  rw [hall fun k row => writable_rowInput (randoms k) header row]
  refine imp_congr_right fun _ => hall fun k row => ?_
  rw [tags_rowInput]

/-- A dry run answers valid exactly when the file is read and no row has an error. -/
theorem dry_run_valid {server : Server} {w : World} {c : Caller} {calls : Calls} {body : Str}
    {n : ℕ} (h : (serveImport server w c calls true body).1 = ⟨200, .valid n⟩) :
    ∃ header rows, table body = some (header, rows) ∧ rows.length = n ∧
      ∀ row ∈ rows, Sound header row := by
  unfold serveImport at h
  rcases importLinks_cases server w c calls true body with
    ⟨-, text, heq⟩ | ⟨header, rows, htable, heq⟩
  · rw [heq] at h
    cases h
  · rw [heq] at h
    unfold LinkHandlers.importLinks at h
    by_cases hrefused : errorsByRow header rows ≠ []
    · rw [if_pos hrefused] at h
      cases h
    · rw [if_neg hrefused, if_pos rfl] at h
      have hlength : (rows.map fun row => (importRow header row).1).length = n :=
        Body.valid.inj (congrArg Response.body h)
      rw [List.length_map] at hlength
      refine ⟨header, rows, htable, hlength, fun row hrow => importRow_none.mp ?_⟩
      exact errorsByRow_nil.mp (not_not.mp hrefused) row hrow

/-- The import of a file whose rows have no errors. -/
theorem serveImport_sound {server : Server} {w : World} {c : Caller} {calls : Calls} {body : Str}
    {header : List Str} {rows : List (List Str)} (htable : table body = some (header, rows))
    (hsound : ∀ row ∈ rows, Sound header row) : serveImport server w c calls false body =
      conclude calls
        (LinkHandlers.importLinks server w c calls (rows.map (rowLink header)) [] false) := by
  unfold serveImport
  rcases importLinks_cases server w c calls false body with
    ⟨hnone, -⟩ | ⟨header', rows', hsome, heq⟩
  · rw [htable] at hnone
    cases hnone
  · rw [htable, Option.some.injEq, Prod.mk.injEq] at hsome
    obtain ⟨rfl, rfl⟩ := hsome
    rw [heq, errorsByRow_nil.mpr fun row hrow => importRow_none.mpr (hsound row hrow)]
    rfl

/-- Every row of the file has a row of the user in the store, and there are no others. -/
structure CreatesAll (before after : Database) (u : User) (randoms : ℕ → Str) (header : List Str)
    (rows : List (List Str)) : Prop where
  row : ∀ (k : ℕ) row, rows[k]? = some row →
    Holds after u (before.nextLinkId + k) (rowInput (randoms k) header row)
  count : after.links.rows.length = before.links.rows.length + rows.length

theorem conclude_database {calls : Calls} {e : AuditEvent} {r : Response} {w : World} :
    (conclude calls (.record e r id, w)).2.db = w.db := by
  unfold conclude
  dsimp only
  cases recordAudit calls.audit w.accounts w.audits e with
  | mk failure log => cases failure <;> rfl

theorem createsAll_of_import {server : Server} {w : World} {c : Caller} {calls : Calls}
    {header : List Str} {rows : List (List Str)} (hdb : Intact w.db)
    (h : (conclude calls (LinkHandlers.importLinks server w c calls (rows.map (rowLink header))
      [] false)).1.status = 201) :
    CreatesAll w.db (conclude calls (LinkHandlers.importLinks server w c calls
      (rows.map (rowLink header)) [] false)).2.db c.user calls.randoms header rows := by
  rw [importLinks_run] at h ⊢
  cases hcall : createLinksBulk calls.io calls.after w.db calls.randoms c.user
      (rows.map (rowLink header)) with
  | mk result db =>
    rw [hcall] at h
    cases result with
    | error e => cases h
    | ok found =>
      dsimp only
      rw [conclude_database]
      obtain ⟨-, himported, -⟩ := @createLinksBulk_spec calls.io calls.after w.db calls.randoms
        c.user (rows.map (rowLink header)) found hdb (by rw [hcall])
      rw [hcall] at himported
      constructor
      · intro k row hrow
        refine himported.holds k _ ?_
        rw [inputs_rows, hrow]
        rfl
      · rw [himported.count, inputs, List.length_map, List.length_zipIdx, List.length_map]

/-- What an import needs beyond the checks of a dry run. -/
structure Importable (c : Caller) (header : List Str) (rows : List (List Str)) : Prop where
  distinct : Distinct (slugCells header rows)
  storable : ∀ row ∈ rows, Storable header row
  placed : rows ≠ [] → Placed c.user
  readable : c.readable
  auditable : AuditableCells header rows

/-- A file for which a dry run answers valid is imported, with a link for each row, exactly when no
slug repeats in it, the columns take its cells and the audit log takes the request. -/
theorem dry_run_predicts_iff (server : Server) (w₀ w : World) (c₀ c : Caller) (calls₀ calls : Calls)
    (body : Str) (n : ℕ) (hdry : (serveImport server w₀ c₀ calls₀ true body).1 = ⟨200, .valid n⟩)
    (header : List Str) (rows : List (List Str)) (htable : table body = some (header, rows))
    (hserves : Serves w c calls) (hdb : Intact w.db)
    (hfresh : Fresh w.db calls.randoms (slugCells header rows)) :
    ((serveImport server w c calls false body).1.status = 201 ∧
        CreatesAll w.db (serveImport server w c calls false body).2.db c.user calls.randoms header
          rows) ↔ Importable c header rows := by
  obtain ⟨header', rows', htable', -, hsound⟩ := dry_run_valid hdry
  rw [htable, Option.some.injEq, Prod.mk.injEq] at htable'
  obtain ⟨rfl, rfl⟩ := htable'
  rw [serveImport_sound htable hsound]
  have hslugs : ((inputs calls.randoms 0 (rows.map (rowLink header))).map Link.slug).Nodup ↔
      Distinct (slugCells header rows) := by
    refine nodup_chosen hfresh fun k => ?_
    rw [List.getElem?_map, inputs_rows, slugCells, List.getElem?_map, Option.map_map,
      Option.map_map]
    exact congrArg (fun f => Option.map f rows[k]?) (funext fun row => slug_rowInput _ header row)
  have hlinks : (∀ link ∈ inputs calls.randoms 0 (rows.map (rowLink header)),
      Checked link ∧ Taken link) ↔ ∀ row ∈ rows, Storable header row := by
    constructor
    · intro hall row hrow
      obtain ⟨k, hk⟩ := List.mem_iff_getElem?.mp hrow
      exact (taken_input (hsound row hrow)).mp (hall _ (mem_inputs.mpr ⟨k, row, hk, rfl⟩)).2
    · intro hall link hlink
      obtain ⟨k, row, hrow, rfl⟩ := mem_inputs.mp hlink
      have hmem := List.mem_of_getElem? hrow
      refine ⟨checked_input (hsound row hmem) fun hempty => hfresh.formed k ?_,
        (taken_input (hsound row hmem)).mpr (hall row hmem)⟩
      rw [slugCells, List.getElem?_map, hrow, Option.map_some, hempty]
  have hempty : rows.map (rowLink header) ≠ [] ↔ rows ≠ [] := by simp
  have hiff := @imported_iff server w c calls (rows.map (rowLink header)) hserves hdb
    (unused_rows hfresh)
  rw [hslugs, hlinks, hempty, auditable_rows] at hiff
  constructor
  · intro h
    obtain ⟨⟨⟨hdistinct, hstorable⟩, hplaced⟩, hreadable, hauditable⟩ := hiff.mp h.1
    exact ⟨hdistinct, hstorable, hplaced, hreadable, hauditable⟩
  · intro h
    have hstatus := hiff.mpr ⟨⟨⟨h.distinct, h.storable⟩, h.placed⟩, h.readable, h.auditable⟩
    exact ⟨hstatus, createsAll_of_import hdb hstatus⟩

theorem fresh_of_named {db : Database} {randoms : ℕ → Str} {slugs : List Str} (hnamed : [] ∉ slugs)
    (hunused : ∀ r ∈ db.links.rows, r.slug ∉ slugs) : Fresh db randoms slugs := by
  have hnot (k : ℕ) : slugs[k]? ≠ some [] := fun h => hnamed (List.mem_of_getElem? h)
  constructor
  · intro k h
    exact absurd h (hnot k)
  · intro k s hs r hr heq
    have hmem := List.mem_of_getElem? hs
    have hne : s ≠ [] := fun h => hnamed (h ▸ hmem)
    rw [chosen, if_neg hne] at heq
    exact hunused r hr (heq ▸ hmem)
  · intro j k s _ h
    exact absurd h (hnot j)

def superadmin : Caller where
  principal := AuditTrail.binary.principal
  email := AuditTrail.binary.email
  deletionAccess := true
  request := LinkResponses.request
  stored := by decide
  auth := by decide

/-! A superadmin imports three rows, one of them without a slug, into a store that has two other
links. -/

def stocked : World :=
  { AuditTrail.staffed with
    db := (Call.write {} Database.empty superadmin.user (.createLinksBulk (fun _ => [])
      [{ slug := lit "mail", targetUrl := lit "https://example.com/mail" },
        { slug := lit "desk", targetUrl := lit "https://example.com/desk" }])).2 }

theorem slugs_stocked : stocked.db.links.rows.map LinkRow.slug = [lit "mail", lit "desk"] := by
  decide +kernel

/-- The generated slug of a row is made of its number. -/
def numbered : Calls :=
  { LinkResponses.healthy with randoms := fun k => lit "random" ++ formatInt k }

def threeRows : Str :=
  lit "slug,url,title,tags,max_clicks,forward_query\n" ++
    lit "docs,https://example.com/,Docs,guide,100,true\n" ++
    lit ",https://example.com/any,,,,\n" ++
    lit "help,https://example.com/help,Help,mail,,false\n"

def headings : List Str :=
  [lit "slug", lit "url", lit "title", lit "tags", lit "max_clicks", lit "forward_query"]

def cells : List (List Str) :=
  [[lit "docs", lit "https://example.com/", lit "Docs", lit "guide", lit "100", lit "true"],
    [[], lit "https://example.com/any", [], [], [], []],
    [lit "help", lit "https://example.com/help", lit "Help", lit "mail", [], lit "false"]]

theorem slugs_cells : slugCells headings cells = [lit "docs", [], lit "help"] := by decide

theorem slug_cell {k : ℕ} {s : Str} (h : (slugCells headings cells)[k]? = some s) :
    k = 0 ∧ s = lit "docs" ∨ k = 1 ∧ s = [] ∨ k = 2 ∧ s = lit "help" := by
  rw [slugs_cells] at h
  rcases k with _ | _ | _ | k
  · exact Or.inl ⟨rfl, (Option.some.inj h).symm⟩
  · exact Or.inr (Or.inl ⟨rfl, (Option.some.inj h).symm⟩)
  · exact Or.inr (Or.inr ⟨rfl, (Option.some.inj h).symm⟩)
  · cases h

theorem fresh_cells : Fresh stocked.db numbered.randoms (slugCells headings cells) := by
  constructor
  · intro k h
    obtain ⟨rfl, hs⟩ | ⟨rfl, -⟩ | ⟨rfl, hs⟩ := slug_cell h
    · cases hs
    · decide
    · cases hs
  · intro k s hs r hr heq
    have hstored : r.slug ∈ [lit "mail", lit "desk"] :=
      slugs_stocked ▸ List.mem_map_of_mem hr
    rw [heq] at hstored
    revert hstored
    obtain ⟨rfl, rfl⟩ | ⟨rfl, rfl⟩ | ⟨rfl, rfl⟩ := slug_cell hs <;> decide
  · intro j k s hne hempty hs
    obtain ⟨-, hs'⟩ | ⟨rfl, -⟩ | ⟨-, hs'⟩ := slug_cell hempty
    · cases hs'
    · obtain ⟨rfl, rfl⟩ | ⟨rfl, rfl⟩ | ⟨rfl, rfl⟩ := slug_cell hs
      · decide
      · exact absurd rfl hne
      · decide
    · cases hs'

theorem importable_cells : Importable superadmin headings cells := by
  have hrows : ∀ row ∈ cells, (∀ name ∈ urlNames, (text (value headings row name)).isSome) ∧
      (varchar 180 (value headings row "title")).isSome ∧
      (∀ name ∈ utmNames, (varchar 255 (value headings row name)).isSome) ∧
      value headings row "expires_at" = [] ∧ value headings row "geo_targets" = [] := by
    decide
  constructor
  · rw [slugs_cells]
    decide
  · intro row hrow
    obtain ⟨hurls, htitle, hutm, hexpires, hgeo⟩ := hrows row hrow
    refine ⟨hurls, htitle, hutm, ?_, ?_⟩
    · rw [hexpires, expires_of_empty rfl]
      intro t ht
      cases ht
    · rw [hgeo]
      intro target htarget
      cases htarget
  · intro _ htenant
    cases htenant
  · exact Or.inl (by decide)
  · intro _ row hrow tag htag
    have hplain : ∀ row ∈ cells, ∀ x ∈ importTags (value headings row "tags"),
        (0 : UInt8) ∉ trimSpace x := by
      decide
    obtain ⟨-, -, x, hx, rfl⟩ := mem_normalizeTags.mp htag
    exact hplain row hrow x hx

/-- The import gives each row its link, the second one under a generated slug. -/
theorem dry_run_predicts_numbered :
    (serveImport LinkResponses.deployed stocked superadmin numbered false threeRows).1.status =
        201 ∧
      CreatesAll stocked.db (serveImport LinkResponses.deployed stocked superadmin numbered false
        threeRows).2.db superadmin.user numbered.randoms headings cells :=
  (dry_run_predicts_iff LinkResponses.deployed stocked stocked superadmin superadmin numbered
    numbered threeRows 3 (by decide +kernel) headings cells (by decide +kernel)
    ⟨⟨rfl, fun _ => rfl, rfl, rfl⟩, ⟨rfl, fun _ => rfl, rfl, rfl⟩, ⟨rfl, fun _ => rfl, rfl, rfl⟩,
      _, List.mem_singleton_self _, rfl⟩ (intact_call _ _ _ intact_empty) fresh_cells).mpr
    importable_cells

/-! A superadmin imports into an empty store. -/

def emptyStore : World := { AuditTrail.staffed with db := Database.empty }

theorem serves_superadmin : Serves emptyStore superadmin LinkResponses.healthy :=
  ⟨⟨rfl, fun _ => rfl, rfl, rfl⟩, ⟨rfl, fun _ => rfl, rfl, rfl⟩, ⟨rfl, fun _ => rfl, rfl, rfl⟩,
    _, List.mem_singleton_self _, rfl⟩

def twoRows : Str := lit "slug,url\ndocs,https://example.com/\ndocs,https://example.com/\n"

def columns : List Str := [lit "slug", lit "url"]

def docs : List Str := [lit "docs", lit "https://example.com/"]

/-- The dry run accepts two rows with one slug, and the import refuses them. -/
theorem repeated_slug_refused :
    (serveImport LinkResponses.deployed emptyStore superadmin LinkResponses.healthy true
        twoRows).1 = ⟨200, .valid 2⟩ ∧
      Serves emptyStore superadmin LinkResponses.healthy ∧ Intact emptyStore.db ∧
      table twoRows = some (columns, [docs, docs]) ∧
      Fresh emptyStore.db LinkResponses.healthy.randoms (slugCells columns [docs, docs]) ∧
      (serveImport LinkResponses.deployed emptyStore superadmin LinkResponses.healthy false
        twoRows).1.status = 409 ∧
      (serveImport LinkResponses.deployed emptyStore superadmin LinkResponses.healthy false
        twoRows).2.db.links.rows = [] :=
  ⟨by decide +kernel, serves_superadmin, intact_empty, by decide +kernel,
    fresh_of_named (by decide +kernel) fun r hr => (by cases hr), by decide +kernel,
    by decide +kernel⟩

end CsvImports
