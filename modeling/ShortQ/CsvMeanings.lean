import ShortQ.CsvImports
import ShortQ.PartialEdits

/-! # What the cells of an imported row mean

The link that an import creates for a row carries the values of its cells, except where a cell is
replaced: a redirect code that is no number, a tag that is too long or no text, an expiry finer than
the column, a country in small letters. -/
namespace CsvMeanings

open AcceptedLinks
open AuditedHandlers
open AuditLog
open CsvImports
open CsvLinks
open CsvTags
open GoText
open GoTime (Time)
open Hosts
open ImportWrites
open LinkCalls
open LinkHandlers (parseInt)
open LinkPayload (byCountry geoRow)
open LinkStore
open LinkValidation
open LinkWrites
open Models
open PartialEdits (byCountry_eq varchar_trimmed)
open Runes
open Schema
open Transaction
open WrittenLinks

/-- The geo targets that a row lists. -/
def listedTargets (header row : List Str) : List GeoTarget :=
  if value header row "geo_targets" = [] then []
  else (geoTargets (value header row "geo_targets")).1

/-- The link carries what the cells of the row say; empty cells stand for the defaults. -/
structure Carries (header row : List Str) (link : Link) : Prop where
  slug : value header row "slug" ≠ [] → link.slug = value header row "slug"
  url : value header row "url" ≠ [] → link.targetUrl = value header row "url"
  target : value header row "target_url" ≠ [] → link.targetUrl = value header row "target_url"
  title : link.title = value header row "title"
  visibility : link.visibility =
    if value header row "visibility" = [] then lit "private" else value header row "visibility"
  code : if value header row "redirect_code" = [] then link.redirectCode = 302
    else parseInt (value header row "redirect_code") = some link.redirectCode
  expires : if value header row "expires_at" = [] then link.expiresAt = none
    else link.expiresAt.isSome ∧
      GoTime.parseRFC3339 (value header row "expires_at") = link.expiresAt
  limit : if value header row "max_clicks" = [] then link.maxClicks = none
    else link.maxClicks.isSome ∧ parseInt (value header row "max_clicks") = link.maxClicks
  expired : link.expiredUrl = value header row "expired_url"
  ios : link.iosUrl = value header row "ios_url"
  android : link.androidUrl = value header row "android_url"
  query : if value header row "forward_query" = [] then link.forwardQuery = true
    else parseBool (value header row "forward_query") = some link.forwardQuery
  source : link.utmSource = value header row "utm_source"
  medium : link.utmMedium = value header row "utm_medium"
  campaign : link.utmCampaign = value header row "utm_campaign"
  term : link.utmTerm = value header row "utm_term"
  content : link.utmContent = value header row "utm_content"
  tags : ∀ tag, tag ∈ link.tags ↔ tag ∈ importTags (value header row "tags")
  geo : ∀ target, target ∈ link.geoTargets ↔ target ∈ listedTargets header row
  password : link.passwordProtected = false

/-- No cell of the row is replaced on its way into the store. -/
structure Exact (header row : List Str) : Prop where
  code : value header row "redirect_code" = [] ∨
    ∃ i, parseInt (value header row "redirect_code") = some i ∧ i ≠ 0
  expires : ∀ t, GoTime.parseRFC3339 (value header row "expires_at") = some t →
    (⟨micros t * 1000⟩ : Time) = t
  tags : ∀ tag ∈ importTags (value header row "tags"), tag.length ≤ 40 ∧ validUtf8 tag = true
  geo : ∀ target ∈ listedTargets header row,
    country target = target.countryCode ∧ trimSpace target.targetUrl = target.targetUrl

/-! ## Cells -/

theorem trimSpace_value (header row : List Str) (name : String) :
    trimSpace (value header row name) = value header row name := by
  unfold value
  split
  · decide
  · exact trimSpace_trimSpace _

theorem mem_importTags {raw tag : Str} (h : tag ∈ importTags raw) :
    tag ≠ [] ∧ trimSpace tag = tag := by
  unfold importTags at h
  rw [List.mem_filter, decide_eq_true_eq] at h
  obtain ⟨piece, -, rfl⟩ := List.mem_map.mp h.1
  exact ⟨h.2, trimSpace_trimSpace piece⟩

/-- The store keeps a list of trimmed tags exactly when all are short and text. -/
theorem tags_kept_iff {tags : List Str} (htight : ∀ t ∈ tags, t ≠ [] ∧ trimSpace t = t) :
    (∀ t, t ∈ (normalizeTags tags).map toValid ↔ t ∈ tags) ↔
      ∀ t ∈ tags, t.length ≤ 40 ∧ validUtf8 t = true := by
  constructor
  · intro hsame t ht
    obtain ⟨kept, hkept, heq⟩ := List.mem_map.mp ((hsame t).mpr ht)
    have hvalid : validUtf8 t = true := heq ▸ valid_toValid kept
    obtain ⟨hne, hlength, x, hx, htrim⟩ := mem_normalizeTags.mp hkept
    have hmem : kept ∈ tags := by
      rw [← htrim, (htight x hx).2]
      exact hx
    obtain ⟨other, -, hother⟩ := List.mem_map.mp ((hsame kept).mpr hmem)
    have hkeptvalid : validUtf8 kept = true := hother ▸ valid_toValid other
    rw [toValid_of_valid hkeptvalid] at heq
    exact ⟨heq ▸ hlength, hvalid⟩
  · intro hall t
    constructor
    · intro ht
      obtain ⟨kept, hkept, rfl⟩ := List.mem_map.mp ht
      obtain ⟨-, -, x, hx, rfl⟩ := mem_normalizeTags.mp hkept
      rw [(htight x hx).2, toValid_of_valid (hall x hx).2]
      exact hx
    · intro ht
      refine List.mem_map.mpr ⟨t, mem_normalizeTags.mpr ?_, toValid_of_valid (hall t ht).2⟩
      exact ⟨(htight t ht).1, (hall t ht).1, t, ht, (htight t ht).2⟩

/-- Both read a number alike, but for one that is out of range. -/
theorem number_cases (s : Str) :
    (∃ digits, parseInt s = (decimal digits).bind (fun n : ℕ =>
        if n ≤ 2 ^ 63 then some (-(n : ℤ)) else none) ∧
      atoi s = (decimal digits).elim (0 : ℤ) fun n => -((min n (2 ^ 63) : ℕ) : ℤ)) ∨
    ∃ digits, parseInt s = (decimal digits).bind (fun n : ℕ =>
        if n < 2 ^ 63 then some (n : ℤ) else none) ∧
      atoi s = (decimal digits).elim (0 : ℤ) fun n => ((min n (2 ^ 63 - 1) : ℕ) : ℤ) := by
  cases s with
  | nil => exact Or.inr ⟨[], rfl, rfl⟩
  | cons b digits =>
    by_cases hminus : b = 45
    · subst hminus
      exact Or.inl ⟨digits, rfl, rfl⟩
    by_cases hplus : b = 43
    · subst hplus
      exact Or.inr ⟨digits, rfl, rfl⟩
    · refine Or.inr ⟨b :: digits, ?_, ?_⟩
      · unfold parseInt
        split
        · rename_i heq
          exact absurd (List.cons.inj heq).1 hminus
        · rename_i heq
          exact absurd (List.cons.inj heq).1 hplus
        · rfl
      · unfold atoi
        split
        · rename_i heq
          exact absurd (List.cons.inj heq).1 hminus
        · rename_i heq
          exact absurd (List.cons.inj heq).1 hplus
        · rfl

theorem atoi_of_parseInt {s : Str} {i : ℤ} (h : parseInt s = some i) : atoi s = i := by
  rcases number_cases s with ⟨digits, hparse, hatoi⟩ | ⟨digits, hparse, hatoi⟩
  all_goals
    rw [hparse] at h
    obtain ⟨n, hn, hrange⟩ := Option.bind_eq_some_iff.mp h
    rw [hatoi, hn, Option.elim_some]
    split at hrange
    · cases hrange
      omega
    · cases hrange

/-- The code is the one written, unless it is zero or no number. -/
theorem code_written_iff {raw : Str} {code : ℤ}
    (hcode : code = if atoi raw = 0 then 302 else atoi raw) :
    parseInt raw = some code ↔ ∃ i, parseInt raw = some i ∧ i ≠ 0 := by
  cases hparse : parseInt raw with
  | none =>
    constructor
    · intro h
      cases h
    · rintro ⟨i, h, -⟩
      cases h
  | some i =>
    rw [atoi_of_parseInt hparse] at hcode
    rw [Option.some.injEq]
    by_cases hzero : i = 0
    · rw [if_pos hzero] at hcode
      subst hzero
      constructor
      · intro h
        omega
      · rintro ⟨j, hj, hne⟩
        exact absurd (Option.some.inj hj).symm hne
    · rw [if_neg hzero] at hcode
      exact iff_of_true hcode.symm ⟨i, rfl, hzero⟩

/-! ## The created link -/

section

variable {db : Database} {header row : List Str} {random : Str} {columns : LinkColumns}

theorem code_input (random : Str) (header row : List Str) :
    (rowInput random header row).redirectCode =
      if value header row "redirect_code" = [] then 302
      else if atoi (value header row "redirect_code") = 0 then 302
      else atoi (value header row "redirect_code") := by
  change (if (rowLink header row).redirectCode = 0 then 302
    else (rowLink header row).redirectCode) = _
  rw [rowLink_eq]
  dsimp only
  by_cases hraw : value header row "redirect_code" = []
  · rw [if_pos hraw, if_pos hraw]
    rfl
  · rw [if_neg hraw, if_neg hraw]

theorem code_iff (hcolumns : TakenColumns (rowInput random header row) columns) :
    (if value header row "redirect_code" = [] then columns.redirectCode = 302
        else parseInt (value header row "redirect_code") = some columns.redirectCode) ↔
      (value header row "redirect_code" = [] ∨
        ∃ i, parseInt (value header row "redirect_code") = some i ∧ i ≠ 0) := by
  have hcode := smallint_some hcolumns.redirectCode
  rw [code_input] at hcode
  by_cases hraw : value header row "redirect_code" = []
  · rw [if_pos hraw] at hcode ⊢
    exact iff_of_true hcode (Or.inl hraw)
  · rw [if_neg hraw] at hcode ⊢
    rw [or_iff_right hraw]
    exact code_written_iff hcode

theorem expires_iff (h : Sound header row)
    (hcolumns : TakenColumns (rowInput random header row) columns) :
    (if value header row "expires_at" = [] then columns.expiresAt = none
        else columns.expiresAt.isSome ∧
          GoTime.parseRFC3339 (value header row "expires_at") = columns.expiresAt) ↔
      ∀ t, GoTime.parseRFC3339 (value header row "expires_at") = some t →
        (⟨micros t * 1000⟩ : Time) = t := by
  have hexpires : nullable timestamptz (if value header row "expires_at" = [] then none
      else GoTime.parseRFC3339 (value header row "expires_at")) = some columns.expiresAt := by
    have hgiven := hcolumns.expiresAt
    change nullable timestamptz (rowLink header row).expiresAt = _ at hgiven
    rw [rowLink_eq] at hgiven
    exact hgiven
  by_cases hraw : value header row "expires_at" = []
  · rw [if_pos hraw] at hexpires ⊢
    refine iff_of_true (Option.some.inj hexpires).symm fun t ht => ?_
    rw [expires_of_empty hraw] at ht
    cases ht
  · rw [if_neg hraw] at hexpires ⊢
    obtain ⟨t, ht⟩ := Option.isSome_iff_exists.mp (h.expires.resolve_left hraw)
    rw [ht] at hexpires ⊢
    obtain ⟨u, hu, hsome⟩ := Option.map_eq_some_iff.mp hexpires
    rw [← hsome, PartialEdits.timestamptz_some hu]
    constructor
    · rintro ⟨-, heq⟩ t' ht'
      rw [← Option.some.inj ht']
      exact (Option.some.inj heq).symm
    · intro hall
      exact ⟨rfl, congrArg some (hall t rfl).symm⟩

theorem limit_carried (h : Sound header row)
    (hcolumns : TakenColumns (rowInput random header row) columns) :
    if value header row "max_clicks" = [] then columns.maxClicks = none
      else columns.maxClicks.isSome ∧
        parseInt (value header row "max_clicks") = columns.maxClicks := by
  have hlimit : columns.maxClicks = if value header row "max_clicks" = [] then none
      else parseInt (value header row "max_clicks") := by
    rw [hcolumns.maxClicks]
    change (rowLink header row).maxClicks = _
    rw [rowLink_eq]
  by_cases hraw : value header row "max_clicks" = []
  · rw [if_pos hraw] at hlimit ⊢
    exact hlimit
  · rw [if_neg hraw] at hlimit ⊢
    rw [hlimit]
    exact ⟨h.limit.resolve_left hraw, rfl⟩

theorem query_carried (h : Sound header row)
    (hcolumns : TakenColumns (rowInput random header row) columns) :
    if value header row "forward_query" = [] then columns.forwardQuery = true
      else parseBool (value header row "forward_query") = some columns.forwardQuery := by
  have hquery : columns.forwardQuery = (if value header row "forward_query" = [] then none
      else parseBool (value header row "forward_query")).getD true := by
    rw [hcolumns.forwardQuery]
    change (rowLink header row).forwardQuery = _
    rw [rowLink_eq]
  by_cases hraw : value header row "forward_query" = []
  · rw [if_pos hraw] at hquery ⊢
    exact hquery
  · rw [if_neg hraw] at hquery ⊢
    obtain ⟨b, hb⟩ := Option.isSome_iff_exists.mp (h.query.resolve_left hraw)
    rw [hquery, hb]
    rfl

theorem tags_iff (hcolumns : TakenColumns (rowInput random header row) columns) :
    (∀ tag, tag ∈ columns.tags ↔ tag ∈ importTags (value header row "tags")) ↔
      ∀ tag ∈ importTags (value header row "tags"), tag.length ≤ 40 ∧ validUtf8 tag = true := by
  rw [hcolumns.tags, tags_rowInput]
  exact tags_kept_iff fun t ht => mem_importTags ht

theorem geoTargets_input (random : Str) (header row : List Str) :
    (rowInput random header row).geoTargets = listedTargets header row := by
  change (rowLink header row).geoTargets = _
  rw [rowLink_eq]
  rfl

theorem geo_iff {id : ℤ} {rows : List GeoRow}
    (hvalid : validateLink (rowInput random header row) = none)
    (hrows : (rowInput random header row).geoTargets.mapM (geoRow id) = some rows) :
    (∀ target, target ∈ byCountry rows ↔ target ∈ listedTargets header row) ↔
      ∀ target ∈ listedTargets header row,
        country target = target.countryCode ∧ trimSpace target.targetUrl = target.targetUrl := by
  have hgeo := (validateLink_none.mp hvalid).geo
  rw [geoTargets_input] at hgeo hrows
  have hiso : ∀ target ∈ listedTargets header row, country target ∈ isoCountryCodes :=
    fun target htarget => (hgeo target htarget).1
  have hmem (target : GeoTarget) : target ∈ byCountry rows ↔ ∃ given ∈ listedTargets header row,
      (⟨country given, trimSpace given.targetUrl⟩ : GeoTarget) = target := by
    rw [byCountry_eq hrows hiso, List.mem_mergeSort, List.mem_map]
  constructor
  · intro hsame target htarget
    obtain ⟨given, hgiven, heq⟩ := (hmem target).mp ((hsame target).mpr htarget)
    rw [← heq]
    exact ⟨country_iso (hiso given hgiven), trimSpace_trimSpace _⟩
  · intro hall target
    rw [hmem]
    have hid : ∀ given ∈ listedTargets header row,
        (⟨country given, trimSpace given.targetUrl⟩ : GeoTarget) = given := by
      intro given hgiven
      obtain ⟨hcountry, hurl⟩ := hall given hgiven
      rw [hcountry, hurl]
    constructor
    · rintro ⟨given, hgiven, rfl⟩
      rw [hid given hgiven]
      exact hgiven
    · intro htarget
      exact ⟨target, htarget, hid target htarget⟩

theorem text_cell {name : String} {t : Str} (h : text (value header row name) = some t) :
    t = value header row name := text_some h

theorem varchar_cell {name : String} {n : ℕ} {t : Str}
    (h : varchar n (value header row name) = some t) : t = value header row name :=
  varchar_trimmed h (trimSpace_value header row name)

theorem target_carried (h : Sound header row)
    (hcolumns : TakenColumns (rowInput random header row) columns) :
    (value header row "url" ≠ [] → columns.targetUrl = value header row "url") ∧
      (value header row "target_url" ≠ [] → columns.targetUrl = value header row "target_url") := by
  have htarget : columns.targetUrl = if value header row "target_url" = [] then
      value header row "url" else value header row "target_url" := by
    rw [text_some hcolumns.targetUrl]
    change (rowLink header row).targetUrl = _
    rw [rowLink_eq]
  rw [htarget]
  by_cases hnone : value header row "target_url" = []
  · rw [if_pos hnone]
    exact ⟨fun _ => rfl, fun hne => absurd hnone hne⟩
  · rw [if_neg hnone]
    refine ⟨fun hne => ?_, fun _ => rfl⟩
    rcases h.urls with hurl | hurl | hurl
    · exact absurd hurl hne
    · exact absurd hurl hnone
    · exact hurl.symm

theorem visibility_carried (hcolumns : TakenColumns (rowInput random header row) columns) :
    columns.visibility = if value header row "visibility" = [] then lit "private"
      else value header row "visibility" := by
  have hkept : columns.visibility = (rowInput random header row).visibility := by
    have htaken := hcolumns.visibility
    unfold checkVisibility at htaken
    split at htaken
    · exact (Option.some.inj htaken).symm
    · cases htaken
  rw [hkept]
  unfold rowInput importInput
  rw [if_neg (visibility_ne header row), rowLink_eq]

/-- The created link carries its row exactly when no cell of the row is replaced. -/
theorem carries_iff {id : ℤ} {u : User} {now : Time} (h : Sound header row)
    (hcolumns : TakenColumns (rowInput random header row) columns)
    (hvalid : validateLink (rowInput random header row) = none)
    (hrows : (rowInput random header row).geoTargets.mapM (geoRow id) = some (geoRows db id)) :
    Carries header row (readBack db (columns.assign none none
        (blankRow id u (rowInput random header row).slug now))) ↔ Exact header row := by
  constructor
  · intro hcarries
    exact ⟨(code_iff hcolumns).mp hcarries.code, (expires_iff h hcolumns).mp hcarries.expires,
      (tags_iff hcolumns).mp hcarries.tags, (geo_iff hvalid hrows).mp hcarries.geo⟩
  · intro hexact
    constructor
    · intro hslug
      change (rowInput random header row).slug = _
      rw [slug_rowInput, chosen, if_neg hslug]
    · exact (target_carried h hcolumns).1
    · exact (target_carried h hcolumns).2
    · exact varchar_cell hcolumns.title
    · exact visibility_carried hcolumns
    · exact (code_iff hcolumns).mpr hexact.code
    · exact (expires_iff h hcolumns).mpr hexact.expires
    · exact limit_carried h hcolumns
    · exact text_cell hcolumns.expiredUrl
    · exact text_cell hcolumns.iosUrl
    · exact text_cell hcolumns.androidUrl
    · exact query_carried h hcolumns
    · exact varchar_cell hcolumns.utmSource
    · exact varchar_cell hcolumns.utmMedium
    · exact varchar_cell hcolumns.utmCampaign
    · exact varchar_cell hcolumns.utmTerm
    · exact varchar_cell hcolumns.utmContent
    · exact (tags_iff hcolumns).mpr hexact.tags
    · exact (geo_iff hvalid hrows).mpr hexact.geo
    · rfl

end

/-! ## The import of a file -/

/-- No link has been written. -/
def Unchanged (before after : Database) : Prop :=
  after.links = before.links ∧ after.geoTargets = before.geoTargets

theorem importLinks_database {server : Server} {w : World} {c : Caller} {calls : Calls}
    {links : List Link} :
    (conclude calls (LinkHandlers.importLinks server w c calls links [] false)).2.db =
      (createLinksBulkWrite calls.io w.db calls.randoms c.user links).2 := by
  rw [importLinks_run]
  unfold createLinksBulk
  cases createLinksBulkWrite calls.io w.db calls.randoms c.user links with
  | mk failure written =>
    cases failure with
    | some e => rfl
    | none =>
      dsimp only
      cases linksByIDs calls.after written c.user (importedIDs w.db links) with
      | error e => rfl
      | ok found =>
        dsimp only
        rw [conclude_database]

/-- An import whose file is not read or has an error in a row changes nothing. Any other one writes
nothing, or writes a link for each row, and this link carries the values of its row exactly when no
cell of the row is replaced. -/
theorem import_carries_iff (server : Server) (w : World) (c : Caller) (calls : Calls) (body : Str)
    (hdb : Intact w.db) :
    (table body = none → (serveImport server w c calls false body).2 = w) ∧
      ∀ header rows, table body = some (header, rows) →
        ((∃ row ∈ rows, ¬ Sound header row) →
          serveImport server w c calls false body =
            (⟨422, .refusedRows (errorsByRow header rows)⟩, w)) ∧
        (Unchanged w.db (serveImport server w c calls false body).2.db ∨
          ∀ (k : ℕ) row, rows[k]? = some row → ∃ r,
            (serveImport server w c calls false body).2.db.link (w.db.nextLinkId + k) = some r ∧
            (Carries header row (readBack (serveImport server w c calls false body).2.db r) ↔
              Exact header row)) := by
  constructor
  · intro hnone
    unfold serveImport
    rcases importLinks_cases server w c calls false body with
      ⟨-, text, heq⟩ | ⟨header, rows, hsome, -⟩
    · rw [heq]
      rfl
    · rw [hnone] at hsome
      cases hsome
  · intro header rows htable
    have hreported : (∃ row ∈ rows, ¬ Sound header row) →
        serveImport server w c calls false body =
          (⟨422, .refusedRows (errorsByRow header rows)⟩, w) := by
      rintro ⟨row, hrow, hunsound⟩
      unfold serveImport
      rcases importLinks_cases server w c calls false body with
        ⟨hnone, -⟩ | ⟨header', rows', hsome, heq⟩
      · rw [htable] at hnone
        cases hnone
      · rw [htable, Option.some.injEq, Prod.mk.injEq] at hsome
        obtain ⟨rfl, rfl⟩ := hsome
        have hrefused : errorsByRow header rows ≠ [] := fun hnone =>
          hunsound (importRow_none.mp (errorsByRow_nil.mp hnone row hrow))
        rw [heq]
        unfold LinkHandlers.importLinks
        rw [if_pos hrefused]
        rfl
    refine ⟨hreported, ?_⟩
    by_cases hsound : ∀ row ∈ rows, Sound header row
    · rw [serveImport_sound htable hsound, importLinks_database]
      rcases createLinksBulkWrite_cases calls.io calls.randoms c.user
        (rows.map (rowLink header)) hdb with hsame | ⟨hchecked, himported⟩
      · exact Or.inl hsame
      · refine Or.inr fun k row hrow => ?_
        have hinput : (inputs calls.randoms 0 (rows.map (rowLink header)))[k]? =
            some (rowInput (calls.randoms k) header row) := by
          rw [inputs_rows, hrow]
          rfl
        obtain ⟨columns, now, hcolumns, hlink, hgeo⟩ := himported.holds k _ hinput
        have hvalid := (hchecked _ (List.mem_of_getElem? hinput)).2
        exact ⟨_, hlink, carries_iff (hsound row (List.mem_of_getElem? hrow))
          (linkColumns_iff.mp hcolumns) hvalid hgeo⟩
    · push Not at hsound
      obtain ⟨row, hrow, hunsound⟩ := hsound
      rw [hreported ⟨row, hrow, hunsound⟩]
      exact Or.inl ⟨rfl, rfl⟩

/-- The import of `threeRows`: each of its rows has its link. -/
theorem import_carries_numbered : table threeRows = some (headings, cells) ∧
    ∀ (k : ℕ) row, cells[k]? = some row → ∃ r,
      (serveImport LinkResponses.deployed stocked superadmin numbered false threeRows).2.db.link
          (stocked.db.nextLinkId + k) = some r ∧
        (Carries headings row (readBack (serveImport LinkResponses.deployed stocked superadmin
          numbered false threeRows).2.db r) ↔ Exact headings row) := by
  have htable : table threeRows = some (headings, cells) := by decide +kernel
  have hstored : (serveImport LinkResponses.deployed stocked superadmin numbered false
      threeRows).2.db.links.rows.length = 5 ∧ stocked.db.links.rows.length = 2 := by
    decide +kernel
  obtain ⟨-, himport⟩ := import_carries_iff LinkResponses.deployed stocked superadmin numbered
    threeRows (intact_call _ _ _ intact_empty)
  obtain ⟨-, hsame | hrows⟩ := himport headings cells htable
  · rw [hsame.1, hstored.2] at hstored
    exact absurd hstored.1 (by decide)
  · exact ⟨htable, hrows⟩

/-! A redirect code that is no number. -/

def codeFile : Str := lit "slug,url,redirect_code\ndocs,https://example.com/,abc\n"

def codeHeader : List Str := [lit "slug", lit "url", lit "redirect_code"]

def codeRow : List Str := [lit "docs", lit "https://example.com/", lit "abc"]

/-- The row is imported with the default code, and no error is reported. -/
theorem code_replaced :
    table codeFile = some (codeHeader, [codeRow]) ∧
      (serveImport LinkResponses.deployed emptyStore superadmin LinkResponses.healthy false
        codeFile).1.status = 201 ∧
      (serveImport LinkResponses.deployed emptyStore superadmin LinkResponses.healthy false
        codeFile).2.db.links.rows.map (fun r => (r.slug, r.redirectCode)) = [(lit "docs", 302)] ∧
      ∀ link, ¬ Carries codeHeader codeRow link := by
  have hcell : value codeHeader codeRow "redirect_code" = lit "abc" := by decide
  refine ⟨by decide +kernel, by decide +kernel, by decide +kernel, fun link hcarries => ?_⟩
  have hcode := hcarries.code
  rw [hcell, if_neg (by decide)] at hcode
  have hnone : parseInt (lit "abc") = none := by decide
  rw [hnone] at hcode
  cases hcode

end CsvMeanings
