import ShortQ.CsvMeanings
import ShortQ.PagedLists

/-! # Export and import

What comes back of a link when the exported file is imported elsewhere. -/
namespace CsvRoundTrips

open AcceptedLinks
open AuditLog
open AuditedHandlers
open CsvCells
open CsvImports
open CsvLinks
open CsvTags
open CsvText
open CursorPages
open GoText
open GoTime (Time)
open Hosts
open ImportWrites
open JsonValues
open LinkCalls
open LinkHandlers (formatSeconds parseInt)
open LinkPayload (byCountry geoRow)
open LinkScopes
open LinkStore
open LinkValidation
open LinkWrites
open Models
open PagedLists
open PartialEdits
open Runes
open Schema
open Transaction
open WrittenLinks

/-! ## The cells of an exported link -/

/-- The row of a link as the import reads it. -/
def exported (link : Link) : List Str := (exportRow link).map crlf

/-- The cell of a column, out and back. -/
theorem value_exported {link : Link} {name : String} {i : ℕ} {x : Str}
    (hcolumn : column csvLinkHeaders (lit name) = some i)
    (hcell : (exportCells link)[i]? = some x) :
    CsvLinks.value csvLinkHeaders (exported link) name = cell x := by
  have hget : (exported link).getD i [] = crlf (safeCSVCell x) := by
    rw [List.getD_eq_getElem?_getD, exported, exportRow, List.getElem?_map, List.getElem?_map,
      hcell]
    rfl
  unfold CsvLinks.value
  rw [hcolumn]
  dsimp only
  rw [hget, cell]

theorem value_missing (link : Link) :
    CsvLinks.value csvLinkHeaders (exported link) "target_url" = [] := by
  have hcolumn : column csvLinkHeaders (lit "target_url") = none := by decide
  unfold CsvLinks.value
  rw [hcolumn]

/-- The link that a row of the file becomes. -/
def arrived (link : Link) : Link where
  slug := cell link.slug
  targetUrl := cell link.targetUrl
  title := cell link.title
  visibility := link.visibility
  redirectCode := link.redirectCode
  expiresAt := link.expiresAt.bind fun t => GoTime.parseRFC3339 (cell (formatSeconds t))
  maxClicks := link.maxClicks.bind fun m => parseInt (cell (formatInt m))
  expiredUrl := cell link.expiredUrl
  iosUrl := cell link.iosUrl
  androidUrl := cell link.androidUrl
  forwardQuery := link.forwardQuery
  utmSource := cell link.utmSource
  utmMedium := cell link.utmMedium
  utmCampaign := cell link.utmCampaign
  utmTerm := cell link.utmTerm
  utmContent := cell link.utmContent
  tags := importTags (cell (joined link.tags))
  geoTargets := link.geoTargets

theorem arrived_tags (link : Link) :
    (arrived link).tags = importTags (cell (joined link.tags)) := by
  simp only [arrived]

/-- A geo target as it is stored. -/
structure StoredTarget (t : GeoTarget) : Prop where
  iso : t.countryCode ∈ isoCountryCodes
  trimmed : trimSpace t.targetUrl = t.targetUrl
  text : (text t.targetUrl).isSome

theorem StoredTarget.valid {t : GeoTarget} (h : StoredTarget t) :
    validUtf8 t.countryCode = true ∧ validUtf8 t.targetUrl = true := by
  refine ⟨valid_of_text ?_, valid_of_text fun hnone => ?_⟩
  · rw [text_iso h.iso]
    exact Option.some_ne_none _
  · have htext := h.text
    rw [hnone] at htext
    cases htext

theorem StoredTarget.normal {t : GeoTarget} (h : StoredTarget t) :
    (⟨country t, trimSpace t.targetUrl⟩ : GeoTarget) = t := by
  rw [country_iso h.iso, h.trimmed]

/-- What is known of a stored link that no password protects. -/
structure Sendable (link : Link) : Prop where
  slug : slugRe link.slug = true
  accepted : Accepted link
  visibility : link.visibility = lit "private" ∨ link.visibility = lit "department"
  columns : (linkColumns link).isSome
  tags : TagList link.tags
  targets : ∀ t ∈ link.geoTargets, StoredTarget t
  sorted : (link.geoTargets.mergeSort fun a b => decide (a.countryCode ≤ b.countryCode)) =
    link.geoTargets

theorem Sendable.code_ne {link : Link} (h : Sendable link) : link.redirectCode ≠ 0 := by
  have haccepted := h.accepted.code
  omega

theorem Sendable.visibility_ne {link : Link} (h : Sendable link) : link.visibility ≠ [] := by
  rcases h.visibility with heq | heq <;> rw [heq] <;> decide

theorem sendable_readBack {db : Database} {r : LinkRow} (h : WrittenRow db r)
    (hopen : r.passwordHash = []) : Sendable (readBack db r) := by
  have haccepted := validateLink_none.mp (h.valid hopen)
  have hnormal := (geo_normal h).2
  obtain ⟨link, columns, hvalid, hcolumns, hassign, hgeo⟩ := h.settings
  have htaken := linkColumns_iff.mp hcolumns
  have hiso : ∀ target ∈ link.geoTargets, country target ∈ isoCountryCodes :=
    fun target htarget => ((validateLink_none.mp hvalid).geo target htarget).1
  have htargets : ∀ t ∈ (readBack db r).geoTargets, StoredTarget t := by
    intro t ht
    change t ∈ byCountry (geoRows db r.id) at ht
    rw [byCountry_eq hgeo hiso, List.mem_mergeSort] at ht
    obtain ⟨given, hgiven, rfl⟩ := List.mem_map.mp ht
    refine ⟨hiso given hgiven, trimSpace_trimSpace _, ?_⟩
    obtain ⟨g, hg⟩ := mapM_ok_iff.mp ⟨_, hgeo⟩ given hgiven
    simp only [geoRow, Option.bind_eq_bind, Option.bind_eq_some_iff] at hg
    obtain ⟨code, -, url, hurl, -⟩ := hg
    rw [hurl]
    rfl
  refine ⟨h.slug, haccepted, ?_, ?_, ?_, htargets, ?_⟩
  · rw [← hassign]
    exact checkVisibility_some htaken.visibility
  · rw [linkColumns_readBack hcolumns hassign]
    rfl
  · rw [← hassign]
    change TagList columns.tags
    rw [htaken.tags]
    exact tagList_stored link.tags
  · have hid : (readBack db r).geoTargets.map
        (fun t => (⟨country t, trimSpace t.targetUrl⟩ : GeoTarget)) =
          (readBack db r).geoTargets := by
      rw [List.map_congr_left (g := id) fun t ht => (htargets t ht).normal, List.map_id]
    have hsorted := LinkPayload.Value.geo.inj hnormal
    rw [hid] at hsorted
    exact hsorted

theorem cell_nil : cell [] = [] := by decide

section

variable {link : Link}

theorem geoCell_ne (targets : List GeoTarget) : cell (geoCell targets) ≠ [] := by
  rw [(survives_geoCell targets).cell, geoCell, JsonText.render]
  exact fun h => absurd h (by simp)

/-- A value that is missing leaves an empty cell, and an empty cell is no value. -/
theorem optional_cell {α β : Type} {a : Option α} {format : α → Str} {parse : Str → Option β}
    (hformat : ∀ x, a = some x → cell (format x) ≠ []) :
    (if cell (a.elim [] format) = [] then none else parse (cell (a.elim [] format))) =
        (a.bind fun x => parse (cell (format x))) ∧
      ((cell (a.elim [] format) = [] ∨ (parse (cell (a.elim [] format))).isSome) ↔
        ∀ x, a = some x → (parse (cell (format x))).isSome) := by
  cases a with
  | none =>
    rw [Option.elim_none, if_pos cell_nil]
    exact ⟨rfl, iff_of_true (Or.inl cell_nil) fun x hx => (by cases hx)⟩
  | some x =>
    have hne := hformat x rfl
    rw [Option.elim_some, if_neg hne, or_iff_right hne]
    refine ⟨rfl, fun h y hy => ?_, fun h => h x rfl⟩
    rw [← Option.some.inj hy]
    exact h

theorem expiry_read (link : Link) :
    (if cell (link.expiresAt.elim [] formatSeconds) = [] then none
        else GoTime.parseRFC3339 (cell (link.expiresAt.elim [] formatSeconds))) =
      (arrived link).expiresAt ∧
    ((cell (link.expiresAt.elim [] formatSeconds) = [] ∨
        (GoTime.parseRFC3339 (cell (link.expiresAt.elim [] formatSeconds))).isSome) ↔
      ∀ t, link.expiresAt = some t → 0 ≤ utcYear t ∧ utcYear t ≤ 9999) := by
  obtain ⟨hvalue, hread⟩ := @optional_cell _ _ link.expiresAt formatSeconds GoTime.parseRFC3339
    fun t _ => (expiry_cell t).1
  refine ⟨hvalue, hread.trans (forall₂_congr fun t _ => ?_)⟩
  rw [(expiry_cell t).2]
  split <;> simp_all

theorem limit_read (h : Sendable link) :
    (if cell (link.maxClicks.elim [] formatInt) = [] then none
        else parseInt (cell (link.maxClicks.elim [] formatInt))) = (arrived link).maxClicks ∧
    ((cell (link.maxClicks.elim [] formatInt) = [] ∨
        (parseInt (cell (link.maxClicks.elim [] formatInt))).isSome) ↔
      ∀ m, link.maxClicks = some m → m ≤ int64Max) := by
  obtain ⟨hvalue, hread⟩ := @optional_cell _ _ link.maxClicks formatInt parseInt
    fun m hm => (limit_cell (h.accepted.limit m hm)).1
  refine ⟨hvalue, hread.trans (forall₂_congr fun m hm => ?_)⟩
  rw [(limit_cell (h.accepted.limit m hm)).2]
  split <;> simp_all

/-- What the import makes of an exported row. -/
theorem rowLink_exported (h : Sendable link) :
    rowLink csvLinkHeaders (exported link) = arrived link := by
  have hcode := code_cell h.accepted.code
  have hbool := bool_cell link.forwardQuery
  have hgeo := geoTargets_geoCell fun t ht => (h.targets t ht).valid
  rw [rowLink_eq, value_missing,
    @value_exported link "slug" 0 link.slug (by decide) rfl,
    @value_exported link "url" 1 link.targetUrl (by decide) rfl,
    @value_exported link "title" 2 link.title (by decide) rfl,
    @value_exported link "visibility" 3 link.visibility (by decide) rfl,
    @value_exported link "redirect_code" 4 (formatInt link.redirectCode) (by decide) rfl,
    @value_exported link "expires_at" 5 (link.expiresAt.elim [] formatSeconds) (by decide) rfl,
    @value_exported link "max_clicks" 6 (link.maxClicks.elim [] formatInt) (by decide) rfl,
    @value_exported link "expired_url" 7 link.expiredUrl (by decide) rfl,
    @value_exported link "ios_url" 8 link.iosUrl (by decide) rfl,
    @value_exported link "android_url" 9 link.androidUrl (by decide) rfl,
    @value_exported link "forward_query" 10 (formatBool link.forwardQuery) (by decide) rfl,
    @value_exported link "utm_source" 11 link.utmSource (by decide) rfl,
    @value_exported link "utm_medium" 12 link.utmMedium (by decide) rfl,
    @value_exported link "utm_campaign" 13 link.utmCampaign (by decide) rfl,
    @value_exported link "utm_term" 14 link.utmTerm (by decide) rfl,
    @value_exported link "utm_content" 15 link.utmContent (by decide) rfl,
    @value_exported link "tags" 16 (joined link.tags) (by decide) rfl,
    @value_exported link "geo_targets" 17 (geoCell link.geoTargets) (by decide) rfl,
    if_pos rfl, visibility_cell h.visibility, if_neg h.visibility_ne, if_neg hcode.1, hcode.2,
    (expiry_read link).1, (limit_read h).1, if_neg hbool.1, hbool.2, if_neg (geoCell_ne _),
    (survives_geoCell _).cell, hgeo]
  rfl

/-- A row of the file has no error exactly when its expiry and its limit are read and the store
would accept the link. -/
theorem sound_exported (h : Sendable link) : Sound csvLinkHeaders (exported link) ↔
    (∀ t, link.expiresAt = some t → 0 ≤ utcYear t ∧ utcYear t ≤ 9999) ∧
      (∀ m, link.maxClicks = some m → m ≤ int64Max) ∧ ValidateLink (arrived link) = none := by
  rw [← rowLink_exported h, ← (expiry_read link).2, ← (limit_read h).2,
    ← @value_exported link "expires_at" 5 (link.expiresAt.elim [] formatSeconds) (by decide) rfl,
    ← @value_exported link "max_clicks" 6 (link.maxClicks.elim [] formatInt) (by decide) rfl]
  constructor
  · intro hsound
    exact ⟨hsound.expires, hsound.limit, hsound.valid⟩
  · rintro ⟨hexpires, hlimit, hvalid⟩
    refine ⟨Or.inr (Or.inl (value_missing link)), hexpires, hlimit, Or.inr ?_, Or.inr ?_, hvalid⟩
    · rw [@value_exported link "forward_query" 10 (formatBool link.forwardQuery) (by decide) rfl,
        (bool_cell link.forwardQuery).2]
      rfl
    · rw [@value_exported link "geo_targets" 17 (geoCell link.geoTargets) (by decide) rfl,
        (survives_geoCell _).cell, geoTargets_geoCell fun t ht => (h.targets t ht).valid]

end

/-! ## What comes back -/

/-- The other link has the settings of the link, its tags apart. -/
structure SameSettings (link other : Link) : Prop where
  slug : other.slug = link.slug
  targetUrl : other.targetUrl = link.targetUrl
  title : other.title = link.title
  visibility : other.visibility = link.visibility
  redirectCode : other.redirectCode = link.redirectCode
  expiresAt : other.expiresAt = link.expiresAt
  maxClicks : other.maxClicks = link.maxClicks
  expiredUrl : other.expiredUrl = link.expiredUrl
  iosUrl : other.iosUrl = link.iosUrl
  androidUrl : other.androidUrl = link.androidUrl
  forwardQuery : other.forwardQuery = link.forwardQuery
  utmSource : other.utmSource = link.utmSource
  utmMedium : other.utmMedium = link.utmMedium
  utmCampaign : other.utmCampaign = link.utmCampaign
  utmTerm : other.utmTerm = link.utmTerm
  utmContent : other.utmContent = link.utmContent
  geoTargets : other.geoTargets = link.geoTargets

theorem SameSettings.symm {a b : Link} (h : SameSettings a b) : SameSettings b a :=
  ⟨h.slug.symm, h.targetUrl.symm, h.title.symm, h.visibility.symm, h.redirectCode.symm,
    h.expiresAt.symm, h.maxClicks.symm, h.expiredUrl.symm, h.iosUrl.symm, h.androidUrl.symm,
    h.forwardQuery.symm, h.utmSource.symm, h.utmMedium.symm, h.utmCampaign.symm, h.utmTerm.symm,
    h.utmContent.symm, h.geoTargets.symm⟩

theorem SameSettings.trans {a b c : Link} (h : SameSettings a b) (k : SameSettings b c) :
    SameSettings a c :=
  ⟨k.slug.trans h.slug, k.targetUrl.trans h.targetUrl, k.title.trans h.title,
    k.visibility.trans h.visibility, k.redirectCode.trans h.redirectCode,
    k.expiresAt.trans h.expiresAt, k.maxClicks.trans h.maxClicks, k.expiredUrl.trans h.expiredUrl,
    k.iosUrl.trans h.iosUrl, k.androidUrl.trans h.androidUrl, k.forwardQuery.trans h.forwardQuery,
    k.utmSource.trans h.utmSource, k.utmMedium.trans h.utmMedium,
    k.utmCampaign.trans h.utmCampaign, k.utmTerm.trans h.utmTerm, k.utmContent.trans h.utmContent,
    k.geoTargets.trans h.geoTargets⟩

/-- A created link with the settings and the tags of the exported one. -/
structure Restores (link created : Link) : Prop extends SameSettings link created where
  tags : ∀ tag, tag ∈ created.tags ↔ tag ∈ link.tags

/-- The texts of a link that stand in cells of their own. -/
def texts (link : Link) : List Str :=
  [link.slug, link.targetUrl, link.title, link.expiredUrl, link.iosUrl, link.androidUrl,
    link.utmSource, link.utmMedium, link.utmCampaign, link.utmTerm, link.utmContent]

/-- No cell of the link is changed on its way. -/
structure Portable (link : Link) : Prop where
  texts : ∀ x ∈ texts link, Survives x
  expires : ∀ t, link.expiresAt = some t → t.nanos % GoTime.second = 0 ∧ 0 ≤ utcYear t ∧
    utcYear t ≤ 9999
  limit : ∀ m, link.maxClicks = some m → m ≤ int64Max
  tags : CsvTags.Portable link.tags
  audited : ∀ tag ∈ link.tags, (0 : UInt8) ∉ tag

section

variable {link : Link}

theorem same_arrived_iff (h : Sendable link)
    (hyears : ∀ t, link.expiresAt = some t → 0 ≤ utcYear t ∧ utcYear t ≤ 9999)
    (hlimits : ∀ m, link.maxClicks = some m → m ≤ int64Max) :
    SameSettings link (arrived link) ↔ (∀ x ∈ texts link, Survives x) ∧
      ∀ t, link.expiresAt = some t → t.nanos % GoTime.second = 0 := by
  have hexpires : (arrived link).expiresAt = link.expiresAt ↔
      ∀ t, link.expiresAt = some t → t.nanos % GoTime.second = 0 := by
    change (link.expiresAt.bind fun t => GoTime.parseRFC3339 (cell (formatSeconds t))) = _ ↔ _
    cases hexpiry : link.expiresAt with
    | none => simp
    | some t =>
      rw [Option.bind_some, (expiry_cell t).2, if_pos (hyears t hexpiry)]
      have hsecond : GoTime.second = 1000000000 := rfl
      constructor
      · intro heq t' ht'
        rw [← Option.some.inj ht']
        have hnanos := congrArg Time.nanos (Option.some.inj heq)
        dsimp only at hnanos
        rw [hsecond] at hnanos ⊢
        omega
      · intro hall
        have hwhole := hall t rfl
        have hnanos : t.nanos / GoTime.second * GoTime.second = t.nanos := by
          rw [hsecond] at hwhole ⊢
          omega
        rw [hnanos]
  have hlimit : (arrived link).maxClicks = link.maxClicks := by
    change (link.maxClicks.bind fun m => parseInt (cell (formatInt m))) = _
    cases hclicks : link.maxClicks with
    | none => rfl
    | some m =>
      rw [Option.bind_some, (limit_cell (h.accepted.limit m hclicks)).2,
        if_pos (hlimits m hclicks)]
  rw [← hexpires]
  simp only [texts, List.forall_mem_cons, List.not_mem_nil, false_imp_iff, implies_true, and_true,
    ← cell_eq_self]
  constructor
  · intro hsame
    exact ⟨⟨hsame.slug, hsame.targetUrl, hsame.title, hsame.expiredUrl, hsame.iosUrl,
      hsame.androidUrl, hsame.utmSource, hsame.utmMedium, hsame.utmCampaign, hsame.utmTerm,
      hsame.utmContent⟩, hsame.expiresAt⟩
  · rintro ⟨⟨hslug, htarget, htitle, hexpired, hios, handroid, hsource, hmedium, hcampaign, hterm,
      hcontent⟩, hexpiry⟩
    exact ⟨hslug, htarget, htitle, rfl, rfl, hexpiry, hlimit, hexpired, hios, handroid, rfl,
      hsource, hmedium, hcampaign, hterm, hcontent, rfl⟩

theorem mem_normalized (h : Sendable link) (hp : CsvTags.Portable link.tags) {t : Str} :
    t ∈ normalizeTags link.tags ↔ t ∈ link.tags := by
  rw [mem_normalizeTags]
  constructor
  · rintro ⟨-, -, x, hx, rfl⟩
    rw [(h.tags.tight x hx).trimmed]
    exact hx
  · intro ht
    exact ⟨(h.tags.tight t ht).nonempty, (hp.each t ht).2.2, t, ht, (h.tags.tight t ht).trimmed⟩

/-- The tags that the store keeps of portable ones. -/
theorem normalizeTags_arrived (h : Sendable link) (hp : CsvTags.Portable link.tags) :
    normalizeTags (arrived link).tags = normalizeTags link.tags := by
  have hmem := (tags_restored_iff h.tags).mpr hp
  rw [arrived_tags, importTags_joined h.tags.tight fun t ht => (hp.each t ht).1]
  rw [importTags_joined h.tags.tight fun t ht => (hp.each t ht).1,
    normalizeTags_valid (valid_pieces h.tags.valid)] at hmem
  apply List.Perm.eq_of_pairwise (fun a b _ _ (hab : a ≤ b) (hba : b ≤ a) =>
    List.le_antisymm hab hba) (sorted_normalizeTags _) (sorted_normalizeTags _)
  rw [List.perm_ext_iff_of_nodup (nodup_normalizeTags _) (nodup_normalizeTags _)]
  intro t
  rw [hmem, mem_normalized h hp]

/-- The checks of the store depend on the settings only, and on the tags that it keeps. -/
theorem accepted_of_same {other : Link} (hsame : SameSettings link other)
    (htags : normalizeTags other.tags = normalizeTags link.tags)
    (hopen : other.passwordProtected = false) (h : Accepted link) : Accepted other := by
  have hdynamic : dynamic link = false → dynamic other = false := by
    unfold dynamic
    rw [hsame.expiresAt, hsame.maxClicks, hsame.iosUrl, hsame.androidUrl, hsame.geoTargets,
      hsame.forwardQuery, hopen]
    simp only [Bool.or_eq_false_iff]
    tauto
  constructor
  · rw [hsame.visibility]
    exact h.visibility
  · rw [hsame.targetUrl]
    exact h.target
  · unfold optionalUrls
    rw [hsame.expiredUrl, hsame.iosUrl, hsame.androidUrl]
    exact h.optional
  · rw [hsame.redirectCode]
    exact h.code
  · rw [hsame.redirectCode]
    exact fun hcode => hdynamic (h.static hcode)
  · rw [hsame.maxClicks]
    exact h.limit
  · rw [hsame.geoTargets]
    exact h.geo
  · rw [hsame.geoTargets]
    exact h.distinct
  · rw [htags]
    exact h.tags

theorem columns_of_same {other : Link} (hsame : SameSettings link other)
    (h : (linkColumns link).isSome) : (linkColumns other).isSome := by
  rw [linkColumns_isSome] at h ⊢
  rw [hsame.targetUrl, hsame.title, hsame.visibility, hsame.redirectCode, hsame.expiresAt,
    hsame.expiredUrl, hsame.iosUrl, hsame.androidUrl, hsame.utmSource, hsame.utmMedium,
    hsame.utmCampaign, hsame.utmTerm, hsame.utmContent]
  exact h

theorem slug_token : ∀ b : UInt8, slugByte b = true → tokenByte b = true :=
  forall_byte (by decide +kernel)

theorem cell_slug_ne {slug : Str} (h : slugRe slug = true) : cell slug ≠ [] := by
  simp only [slugRe, Bool.and_eq_true, decide_eq_true_eq, List.all_eq_true] at h
  cases hformula : formula slug with
  | true =>
    obtain ⟨y, hy⟩ := trimSpace_quote (crlf slug)
    rw [cell_of_formula hformula, hy]
    exact List.cons_ne_nil _ _
  | false =>
    have hsurvives : Survives slug := by
      refine survives_token (fun b hb => slug_token b (h.2 b hb)) fun b rest heq => ?_
      have hplain := slug_token b (h.2 b (heq ▸ List.mem_cons_self))
      rw [heq, formula_cons (tokenByte_spec b hplain).2.2.2] at hformula
      exact hformula
    rw [hsurvives.cell]
    rintro rfl
    exact absurd h.1.1 (by decide)

/-- The loop of the store finds nothing to fill in. -/
theorem importInput_arrived (h : Sendable link) (random : Str) :
    importInput random (arrived link) = arrived link := by
  have hcode : (arrived link).redirectCode ≠ 0 := h.code_ne
  have hvisibility : (arrived link).visibility ≠ [] := h.visibility_ne
  have hslug : (arrived link).slug ≠ [] := cell_slug_ne h.slug
  unfold importInput
  rw [if_neg hslug, if_neg hcode, if_neg hvisibility]

/-- A whole second is a whole number of microseconds. -/
theorem timestamptz_second {s : ℤ} {t : Time}
    (h : timestamptz ⟨s * GoTime.second⟩ = some t) : t = ⟨s * GoTime.second⟩ := by
  have hmicros : micros ⟨s * GoTime.second⟩ * 1000 = s * GoTime.second := by
    have hsecond : GoTime.second = 1000000000 := rfl
    unfold micros
    dsimp only
    rw [hsecond]
    omega
  rw [timestamptz_some h, hmicros]

/-- The column keeps the expiry that was read. -/
theorem expiry_stored {expires : Option Time}
    (h : nullable timestamptz (arrived link).expiresAt = some expires) :
    expires = (arrived link).expiresAt := by
  change nullable timestamptz (link.expiresAt.bind _) = _ at h
  change _ = link.expiresAt.bind _
  cases hexpiry : link.expiresAt with
  | none =>
    rw [hexpiry] at h
    exact (Option.some.inj h).symm
  | some t =>
    rw [hexpiry, Option.bind_some, (expiry_cell t).2] at h
    rw [Option.bind_some, (expiry_cell t).2]
    split at h
    · rename_i hyear
      rw [if_pos hyear]
      obtain ⟨kept, hkept, hsome⟩ := Option.map_eq_some_iff.mp h
      rw [← hsome, timestamptz_second hkept]
    · rename_i hyear
      rw [if_neg hyear]
      exact (Option.some.inj h).symm

/-- The row of an imported link has the settings of the link that arrived. -/
theorem same_created (h : Sendable link) {columns : LinkColumns} {db : Database} {linkId : ℤ}
    {u : User} {now : Time} (hcolumns : TakenColumns (arrived link) columns)
    (hgeo : link.geoTargets.mapM (geoRow linkId) = some (geoRows db linkId)) :
    SameSettings (arrived link) (readBack db (columns.assign none none
      (blankRow linkId u (arrived link).slug now))) := by
  have hvisibility : columns.visibility = link.visibility := by
    have htaken := hcolumns.visibility
    change checkVisibility link.visibility = _ at htaken
    unfold checkVisibility at htaken
    split at htaken
    · exact (Option.some.inj htaken).symm
    · cases htaken
  have htargets : byCountry (geoRows db linkId) = link.geoTargets := by
    rw [byCountry_eq hgeo fun t ht => (h.accepted.geo t ht).1,
      List.map_congr_left (g := id) fun t ht => (h.targets t ht).normal, List.map_id]
    exact h.sorted
  exact {
    slug := rfl
    targetUrl := text_some hcolumns.targetUrl
    title := varchar_trimmed hcolumns.title (trimSpace_cell link.title)
    visibility := hvisibility
    redirectCode := smallint_some hcolumns.redirectCode
    expiresAt := expiry_stored hcolumns.expiresAt
    maxClicks := hcolumns.maxClicks
    expiredUrl := text_some hcolumns.expiredUrl
    iosUrl := text_some hcolumns.iosUrl
    androidUrl := text_some hcolumns.androidUrl
    forwardQuery := hcolumns.forwardQuery
    utmSource := varchar_trimmed hcolumns.utmSource (trimSpace_cell link.utmSource)
    utmMedium := varchar_trimmed hcolumns.utmMedium (trimSpace_cell link.utmMedium)
    utmCampaign := varchar_trimmed hcolumns.utmCampaign (trimSpace_cell link.utmCampaign)
    utmTerm := varchar_trimmed hcolumns.utmTerm (trimSpace_cell link.utmTerm)
    utmContent := varchar_trimmed hcolumns.utmContent (trimSpace_cell link.utmContent)
    geoTargets := htargets }

/-- What an accepted row gives back. -/
theorem restores_iff (h : Sendable link)
    (hyears : ∀ t, link.expiresAt = some t → 0 ≤ utcYear t ∧ utcYear t ≤ 9999)
    (hlimits : ∀ m, link.maxClicks = some m → m ≤ int64Max) {columns : LinkColumns}
    {db : Database} {linkId : ℤ} {u : User} {now : Time}
    (hcolumns : TakenColumns (arrived link) columns)
    (hgeo : link.geoTargets.mapM (geoRow linkId) = some (geoRows db linkId)) :
    Restores link (readBack db (columns.assign none none
        (blankRow linkId u (arrived link).slug now))) ↔
      (∀ x ∈ texts link, Survives x) ∧
        (∀ t, link.expiresAt = some t → t.nanos % GoTime.second = 0) ∧
        CsvTags.Portable link.tags := by
  have hsame := @same_created link h columns db linkId u now hcolumns hgeo
  have htags : (readBack db (columns.assign none none
      (blankRow linkId u (arrived link).slug now))).tags =
        (normalizeTags (arrived link).tags).map toValid := hcolumns.tags
  rw [← and_assoc, ← same_arrived_iff h hyears hlimits, ← tags_restored_iff h.tags,
    ← arrived_tags, ← htags]
  constructor
  · intro hrestores
    exact ⟨hrestores.toSameSettings.trans hsame.symm, hrestores.tags⟩
  · rintro ⟨harrived, hkept⟩
    exact ⟨harrived.trans hsame, hkept⟩

/-! ## A portable link -/

theorem Portable.same (hp : Portable link) (h : Sendable link) : SameSettings link (arrived link) :=
  (same_arrived_iff h (fun t ht => (hp.expires t ht).2) hp.limit).mpr
    ⟨hp.texts, fun t ht => (hp.expires t ht).1⟩

theorem Portable.checked (hp : Portable link) (h : Sendable link) : Checked (arrived link) := by
  have hsame := hp.same h
  refine ⟨?_, validateLink_none.mpr ?_⟩
  · rw [hsame.slug]
    exact h.slug
  · exact accepted_of_same hsame (normalizeTags_arrived h hp.tags) rfl h.accepted

theorem Portable.sound (hp : Portable link) (h : Sendable link) :
    Sound csvLinkHeaders (exported link) := by
  refine (sound_exported h).mpr ⟨fun t ht => (hp.expires t ht).2, hp.limit, ?_⟩
  have hcode : (arrived link).redirectCode ≠ 0 := h.code_ne
  obtain ⟨hslug, hvalid⟩ := hp.checked h
  generalize arrived link = other at hcode hslug hvalid ⊢
  unfold ValidateLink
  rw [hslug, if_neg hcode, if_neg (by simp)]
  exact hvalid

theorem Portable.taken (hp : Portable link) (h : Sendable link) : Taken (arrived link) := by
  refine ⟨columns_of_same (hp.same h) h.columns, fun target htarget => ?_⟩
  have hstored := h.targets target htarget
  rw [geoRow_taken (h.accepted.geo target htarget).1, hstored.trimmed]
  exact hstored.text

end

/-! ## The file -/

theorem table_csvFile {links : List Link} (hcount : links.length ≤ 10000) :
    table (csvFile links) = if (csvFile links).length ≤ maxImportBytes then
      some (csvLinkHeaders, links.map exported) else none := by
  have hheaders : csvLinkHeaders.map crlf = csvLinkHeaders := by decide
  have hcolumn : (column csvLinkHeaders (lit "url")).isNone = false := by decide
  have hread : CsvText.read (csvFile links) = some (csvLinkHeaders :: links.map exported) := by
    have hwidth : ∀ row ∈ csvLinkHeaders :: links.map exportRow, row.length = 18 := by
      rw [List.forall_mem_cons]
      refine ⟨by decide, fun row hrow => ?_⟩
      obtain ⟨link, -, rfl⟩ := List.mem_map.mp hrow
      rfl
    rw [csvFile, read_write (by decide) hwidth, List.map_cons, hheaders, List.map_map]
    rfl
  unfold table
  by_cases hsize : (csvFile links).length ≤ maxImportBytes
  · rw [if_pos hsize, if_neg (Nat.not_lt.mpr hsize), hread]
    dsimp only
    rw [if_neg]
    rw [List.length_map, hcolumn]
    simp [hcount]
  · rw [if_neg hsize, if_pos (Nat.lt_of_not_le hsize)]

/-- An import that is accepted has read its file and found no error. -/
theorem created_sound {server : Server} {w : World} {c : Caller} {calls : Calls} {body : Str}
    (h : (serveImport server w c calls false body).1.status = 201) :
    ∃ header rows, table body = some (header, rows) ∧ ∀ row ∈ rows, Sound header row := by
  unfold serveImport at h
  rcases importLinks_cases server w c calls false body with
    ⟨-, text, heq⟩ | ⟨header, rows, htable, heq⟩
  · rw [heq] at h
    cases h
  · refine ⟨header, rows, htable, fun row hrow => importRow_none.mp ?_⟩
    refine errorsByRow_nil.mp ?_ row hrow
    by_contra hrefused
    rw [heq] at h
    unfold LinkHandlers.importLinks at h
    rw [if_pos hrefused] at h
    cases h

theorem inputs_exported {links : List Link} (hlinks : ∀ link ∈ links, Sendable link)
    (randoms : ℕ → Str) :
    inputs randoms 0 ((links.map exported).map (rowLink csvLinkHeaders)) = links.map arrived := by
  apply List.ext_getElem?
  intro k
  rw [inputs_rows, List.getElem?_map, List.getElem?_map, Option.map_map]
  cases hlink : links[k]? with
  | none => rw [Option.map_none, Option.map_none]
  | some link =>
    have hsendable := hlinks link (List.mem_of_getElem? hlink)
    change some (importInput _ (rowLink csvLinkHeaders (exported link))) = some (arrived link)
    rw [rowLink_exported hsendable, importInput_arrived hsendable]

/-! ## The export -/

/-- The exported links are visible ones, by descending number. -/
structure Exported (db : Database) (u : User) (links : List Link) : Prop where
  shown : ∀ link ∈ links, Shown db u link
  descending : (links.map Link.id).Pairwise (· > ·)

theorem Exported.slugs {db : Database} {u : User} {links : List Link} (h : Exported db u links) :
    (links.map Link.slug).Nodup := by
  have hids : links.Pairwise fun a b => a.id ≠ b.id :=
    (List.pairwise_map.mp h.descending).imp fun hgt => ne_of_gt hgt
  refine List.pairwise_map.mpr (hids.imp_of_mem fun {a b} ha hb hne heq => ?_)
  obtain ⟨r, hr, -, -, rfl⟩ := h.shown a ha
  obtain ⟨q, hq, -, -, rfl⟩ := h.shown b hb
  have hsame := db.links.eq_of_clash linkClash_symm hr hq (Or.inr heq)
  exact hne (congrArg LinkRow.id hsame)

theorem Exported.sendable {db : Database} {u : User} {links : List Link} (h : Exported db u links)
    (hdb : Intact db) (hopen : ∀ link ∈ links, link.passwordProtected = false) :
    ∀ link ∈ links, Sendable link := by
  intro link hlink
  have hprotected := hopen link hlink
  obtain ⟨r, hr, -, -, rfl⟩ := h.shown link hlink
  refine sendable_readBack (hdb.written r hr) ?_
  have hlength : ¬ 0 < r.passwordHash.length := of_decide_eq_false hprotected
  exact List.length_eq_zero_iff.mp (by omega)

theorem exported_pages {reads : ℕ → Script} {db : Database} {u : User} {n : ℕ} {links : List Link}
    (hids : ∀ r ∈ db.links.rows, 0 < r.id)
    (h : exportPages reads (fun _ => db) u n 0 0 = some links) : Exported db u links := by
  rw [exportPages_eq] at h
  obtain ⟨pages, hfollow, rfl⟩ := Option.map_eq_some_iff.mp h
  constructor
  · intro link hlink
    obtain ⟨k, cursor, items, next, hfetch, hmem⟩ := mem_follow hfollow hlink
    unfold fetchLinks at hfetch
    split at hfetch
    · cases hfetch
    · rename_i page hpage
      cases hfetch
      exact shown_of_listLinksPage hpage link hmem
  · refine (@traversed_follow Link (fetchLinks reads (fun _ => db) u 500) Link.id (linkLimit 500)
      (fun _ => Visible db u) (fun k cursor items next hfetch => ?_) ?_ n 0 0 pages
      hfollow).descending
    · obtain ⟨hplaced, hread⟩ := fetchLinks_read hfetch
      obtain ⟨items', next', hfetch', hserves⟩ := @fetchLinks_serves (fun _ => {})
        (fun _ => ⟨rfl, fun _ => rfl, rfl, rfl⟩) (fun _ => db) u hplaced (fun _ => hids) 500 k
        cursor
      rw [hread, Option.some.injEq, Prod.mk.injEq] at hfetch'
      obtain ⟨rfl, rfl⟩ := hfetch'
      exact hserves
    · rintro k i ⟨r, hr, rfl, -, -⟩
      exact hids r hr

/-! ## Export and import -/

/-- Each exported link has come back as a created one. -/
def RestoresAll (before after : Database) (links : List Link) : Prop :=
  ∀ (k : ℕ) link, links[k]? = some link →
    ∃ r, after.link (before.nextLinkId + k) = some r ∧ Restores link (readBack after r)

/-- The file has the size of an import, no cell of it is changed, and the user and the audit log
take the request. -/
structure Returns (c : Caller) (links : List Link) : Prop where
  size : (csvFile links).length ≤ maxImportBytes
  portable : ∀ link ∈ links, Portable link
  placed : links ≠ [] → Placed c.user
  readable : c.readable

section

variable {server : Server} {w : World} {c : Caller} {calls : Calls} {links : List Link}

/-- An accepted import has read the file and found no error in it. -/
theorem read_of_created (hcount : links.length ≤ 10000)
    (h : (serveImport server w c calls false (csvFile links)).1.status = 201) :
    (csvFile links).length ≤ maxImportBytes ∧
      table (csvFile links) = some (csvLinkHeaders, links.map exported) ∧
      ∀ row ∈ links.map exported, Sound csvLinkHeaders row := by
  obtain ⟨header, rows, htable, hsound⟩ := created_sound h
  have hread := htable
  rw [table_csvFile hcount] at hread
  split at hread
  · rename_i hsize
    cases hread
    exact ⟨hsize, htable, hsound⟩
  · cases hread

/-- What an accepted import of the file has written for a link. -/
theorem created_link (hw : Intact w.db) (hcount : links.length ≤ 10000)
    (hlinks : ∀ link ∈ links, Sendable link)
    (h : (serveImport server w c calls false (csvFile links)).1.status = 201) {k : ℕ} {link : Link}
    (hlink : links[k]? = some link) :
    ∃ columns now, TakenColumns (arrived link) columns ∧
      (serveImport server w c calls false (csvFile links)).2.db.link (w.db.nextLinkId + k) =
        some (columns.assign none none
          (blankRow (w.db.nextLinkId + k) c.user (arrived link).slug now)) ∧
      link.geoTargets.mapM (geoRow (w.db.nextLinkId + k)) =
        some (geoRows (serveImport server w c calls false (csvFile links)).2.db
          (w.db.nextLinkId + k)) := by
  obtain ⟨-, htable, hsound⟩ := read_of_created hcount h
  rw [serveImport_sound htable hsound] at h ⊢
  have hrow : (links.map exported)[k]? = some (exported link) := by
    rw [List.getElem?_map, hlink, Option.map_some]
  have hsendable := hlinks link (List.mem_of_getElem? hlink)
  have hinput : rowInput (calls.randoms k) csvLinkHeaders (exported link) = arrived link := by
    rw [rowInput, rowLink_exported hsendable, importInput_arrived hsendable]
  have hholds := (createsAll_of_import hw h).row k _ hrow
  rw [hinput] at hholds
  obtain ⟨columns, now, hcolumns, hstored, hgeo⟩ := hholds
  exact ⟨columns, now, linkColumns_iff.mp hcolumns, hstored, hgeo⟩

/-- When a file without errors is accepted. -/
theorem accepted_iff (hserves : CsvImports.Serves w c calls) (hw : Intact w.db)
    (hlinks : ∀ link ∈ links, Sendable link)
    (hunused : ∀ link ∈ links, ∀ r ∈ w.db.links.rows, r.slug ≠ link.slug)
    (htable : table (csvFile links) = some (csvLinkHeaders, links.map exported))
    (hsound : ∀ row ∈ links.map exported, Sound csvLinkHeaders row)
    (hsame : ∀ link ∈ links, SameSettings link (arrived link)) :
    (serveImport server w c calls false (csvFile links)).1.status = 201 ↔
      ((((links.map arrived).map Link.slug).Nodup ∧
        ∀ link ∈ links.map arrived, Checked link ∧ Taken link) ∧
      (links ≠ [] → Placed c.user)) ∧ c.readable ∧ Auditable (links.map arrived) := by
  have hempty : (links.map exported).map (rowLink csvLinkHeaders) ≠ [] ↔ links ≠ [] := by simp
  have hfree : Unused w.db (inputs calls.randoms 0
      ((links.map exported).map (rowLink csvLinkHeaders))) := by
    rw [inputs_exported hlinks]
    intro r hr other hother
    obtain ⟨link, hlink, rfl⟩ := List.mem_map.mp hother
    rw [(hsame link hlink).slug]
    exact hunused link hlink r hr
  rw [serveImport_sound htable hsound, imported_iff hserves hw hfree, hempty,
    inputs_exported hlinks]

/-- The log records the tags of the file, whose expiries all can be written. -/
theorem auditable_arrived (hlinks : ∀ link ∈ links, Sendable link)
    (hyears : ∀ link ∈ links, ∀ t, link.expiresAt = some t → 0 ≤ utcYear t ∧ utcYear t ≤ 9999)
    (hsame : ∀ link ∈ links, SameSettings link (arrived link))
    (htags : ∀ link ∈ links, CsvTags.Portable link.tags) :
    Auditable (links.map arrived) ↔ ∀ link ∈ links, ∀ tag ∈ link.tags, (0 : UInt8) ∉ tag := by
  have hwritable : ∀ link ∈ links.map arrived, Writable link := by
    intro other hother
    obtain ⟨link, hlink, rfl⟩ := List.mem_map.mp hother
    intro t ht
    rw [(hsame link hlink).expiresAt] at ht
    rw [formatRFC3339_isSome, Bool.and_eq_true, decide_eq_true_eq, decide_eq_true_eq]
    exact hyears link hlink t ht
  have hkept : ∀ link ∈ links, ∀ tag,
      tag ∈ normalizeTags (arrived link).tags ↔ tag ∈ link.tags := by
    intro link hlink tag
    rw [normalizeTags_arrived (hlinks link hlink) (htags link hlink),
      mem_normalized (hlinks link hlink) (htags link hlink)]
  constructor
  · intro h link hlink tag htag
    exact h hwritable (arrived link) (List.mem_map_of_mem hlink) tag
      ((hkept link hlink tag).mpr htag)
  · intro h _ other hother tag htag
    obtain ⟨link, hlink, rfl⟩ := List.mem_map.mp hother
    exact h link hlink tag ((hkept link hlink tag).mp htag)

/-- An accepted file that gives every link back was not changed on its way. -/
theorem returns_of_restored (hserves : CsvImports.Serves w c calls) (hw : Intact w.db)
    (hcount : links.length ≤ 10000) (hlinks : ∀ link ∈ links, Sendable link)
    (hunused : ∀ link ∈ links, ∀ r ∈ w.db.links.rows, r.slug ≠ link.slug)
    (hstatus : (serveImport server w c calls false (csvFile links)).1.status = 201)
    (hrestores : RestoresAll w.db (serveImport server w c calls false (csvFile links)).2.db
      links) : Returns c links := by
  obtain ⟨hsize, htable, hsound⟩ := read_of_created hcount hstatus
  have hcells : ∀ link ∈ links,
      (∀ t, link.expiresAt = some t → 0 ≤ utcYear t ∧ utcYear t ≤ 9999) ∧
        ∀ m, link.maxClicks = some m → m ≤ int64Max := by
    intro link hlink
    obtain ⟨hyears, hlimits, -⟩ :=
      (sound_exported (hlinks link hlink)).mp (hsound _ (List.mem_map_of_mem hlink))
    exact ⟨hyears, hlimits⟩
  have hback : ∀ link ∈ links, (∀ x ∈ texts link, Survives x) ∧
      (∀ t, link.expiresAt = some t → t.nanos % GoTime.second = 0) ∧
      CsvTags.Portable link.tags := by
    intro link hlink
    obtain ⟨k, hk⟩ := List.mem_iff_getElem?.mp hlink
    obtain ⟨columns, now, hcolumns, hstored, hgeo⟩ := created_link hw hcount hlinks hstatus hk
    obtain ⟨r, hr, hrestored⟩ := hrestores k link hk
    rw [hstored, Option.some.injEq] at hr
    subst hr
    obtain ⟨hyears, hlimits⟩ := hcells link hlink
    exact (restores_iff (hlinks link hlink) hyears hlimits hcolumns hgeo).mp hrestored
  have hsame : ∀ link ∈ links, SameSettings link (arrived link) := by
    intro link hlink
    obtain ⟨hyears, hlimits⟩ := hcells link hlink
    obtain ⟨htexts, hwhole, -⟩ := hback link hlink
    exact (same_arrived_iff (hlinks link hlink) hyears hlimits).mpr ⟨htexts, hwhole⟩
  rw [accepted_iff hserves hw hlinks hunused htable hsound hsame] at hstatus
  obtain ⟨⟨-, hplaced⟩, hreadable, hauditable⟩ := hstatus
  rw [auditable_arrived hlinks (fun link hlink => (hcells link hlink).1) hsame
    fun link hlink => (hback link hlink).2.2] at hauditable
  refine ⟨hsize, fun link hlink => ?_, hplaced, hreadable⟩
  obtain ⟨hyears, hlimits⟩ := hcells link hlink
  obtain ⟨htexts, hwhole, htags⟩ := hback link hlink
  exact ⟨htexts, fun t ht => ⟨hwhole t ht, hyears t ht⟩, hlimits, htags, hauditable link hlink⟩

/-- A file whose cells all stay as they are is accepted and gives every link back. -/
theorem restored_of_returns (hserves : CsvImports.Serves w c calls) (hw : Intact w.db)
    (hcount : links.length ≤ 10000) (hlinks : ∀ link ∈ links, Sendable link)
    (hslugs : (links.map Link.slug).Nodup)
    (hunused : ∀ link ∈ links, ∀ r ∈ w.db.links.rows, r.slug ≠ link.slug)
    (h : Returns c links) :
    (serveImport server w c calls false (csvFile links)).1.status = 201 ∧
      RestoresAll w.db (serveImport server w c calls false (csvFile links)).2.db links := by
  have htable := table_csvFile hcount
  rw [if_pos h.size] at htable
  have hsound : ∀ row ∈ links.map exported, Sound csvLinkHeaders row := by
    intro row hrow
    obtain ⟨link, hlink, rfl⟩ := List.mem_map.mp hrow
    exact (h.portable link hlink).sound (hlinks link hlink)
  have hsame : ∀ link ∈ links, SameSettings link (arrived link) :=
    fun link hlink => (h.portable link hlink).same (hlinks link hlink)
  have hstatus : (serveImport server w c calls false (csvFile links)).1.status = 201 := by
    rw [accepted_iff hserves hw hlinks hunused htable hsound hsame,
      auditable_arrived hlinks (fun link hlink t ht => ((h.portable link hlink).expires t ht).2)
        hsame fun link hlink => (h.portable link hlink).tags]
    refine ⟨⟨⟨?_, ?_⟩, h.placed⟩, h.readable, fun link hlink => (h.portable link hlink).audited⟩
    · have hkept : (links.map arrived).map Link.slug = links.map Link.slug := by
        rw [List.map_map]
        exact List.map_congr_left fun link hlink => (hsame link hlink).slug
      rw [hkept]
      exact hslugs
    · intro other hother
      obtain ⟨link, hlink, rfl⟩ := List.mem_map.mp hother
      exact ⟨(h.portable link hlink).checked (hlinks link hlink),
        (h.portable link hlink).taken (hlinks link hlink)⟩
  refine ⟨hstatus, fun k link hk => ?_⟩
  have hlink := List.mem_of_getElem? hk
  have hp := h.portable link hlink
  obtain ⟨columns, now, hcolumns, hstored, hgeo⟩ := created_link hw hcount hlinks hstatus hk
  refine ⟨_, hstored, ?_⟩
  exact (restores_iff (hlinks link hlink) (fun t ht => (hp.expires t ht).2) hp.limit hcolumns
    hgeo).mpr ⟨hp.texts, fun t ht => (hp.expires t ht).1, hp.tags⟩

end

/-- The file of a user's links, none of them protected, is accepted by an import into a store that
has none of their slugs and gives every link back exactly when no cell of the file is changed on
its way, and the size limit, the user and the audit log allow it. -/
theorem csv_inverse_iff (reads : ℕ → Script) (n : ℕ) (db : Database) (u : User) (links : List Link)
    (hdb : Intact db) (hexport : exportPages reads (fun _ => db) u n 0 0 = some links)
    (hcount : links.length ≤ 10000) (hopen : ∀ link ∈ links, link.passwordProtected = false)
    (server : Server) (w : World) (c : Caller) (calls : Calls)
    (hserves : CsvImports.Serves w c calls) (hw : Intact w.db)
    (hunused : ∀ link ∈ links, ∀ r ∈ w.db.links.rows, r.slug ≠ link.slug) :
    exportLinks n reads (fun _ => db) u = some (csvFile links) ∧
      ((serveImport server w c calls false (csvFile links)).1.status = 201 ∧
          RestoresAll w.db (serveImport server w c calls false (csvFile links)).2.db links ↔
        Returns c links) := by
  have hexported := exported_pages (fun r hr => (hdb.numbered r hr).1) hexport
  have hlinks := hexported.sendable hdb hopen
  refine ⟨by rw [exportLinks, hexport]; rfl, fun h => ?_, fun h => ?_⟩
  · exact returns_of_restored hserves hw hcount hlinks hunused h.1 h.2
  · exact restored_of_returns hserves hw hcount hlinks hexported.slugs hunused h

/-- All links stand on one page when they are few. -/
theorem exportPages_single {reads : ℕ → Script} (h : ∀ n, (reads n).Healthy) {db : Database}
    {u : User} {scope : LinkRow → Bool} (hscope : addLinkViewScope u false = .ok scope)
    (hfew : (listed db scope 0).length ≤ 500) :
    exportPages reads (fun _ => db) u 1 0 0 = some ((listed db scope 0).map (readBack db)) := by
  have hlimited : limited (500 + 1) (listed db scope 0) = listed db scope 0 :=
    List.take_of_length_le (by
      have : ((500 + 1 : ℤ).toNat) = 501 := rfl
      omega)
  have hpage : ListLinksPage (reads 0) db u 500 0 =
      .ok ⟨(listed db scope 0).map (readBack db), 0⟩ := by
    unfold ListLinksPage
    rw [if_neg (by decide)]
    dsimp only
    rw [listLinks_healthy (h 0) hscope, hlimited]
    dsimp only
    rw [if_neg (by rw [List.length_map]; omega)]
    rfl
  simp only [exportPages, hpage, if_true]

/-! Two links, one with settings of every kind, are exported and imported into another store. -/

def shared : Database :=
  (Call.write {} campaign.db BulkEdits.administrator.user (.createLinksBulk (fun _ => [])
    [{ slug := lit "handbook", targetUrl := lit "https://example.com/handbook",
       title := lit "Hand, book", redirectCode := 307, utmTerm := lit "new" }])).2

def handbookRow : LinkRow := (shared.link 2).getD campaignRow

theorem rows_shared : shared.links.rows = [campaignRow, handbookRow] := by decide +kernel

def sent : List Link := [readBack shared handbookRow, readBack shared campaignRow]

theorem intact_shared : Intact shared := intact_call _ _ _ intact_campaign

theorem sent_exported :
    exportPages (fun _ => {}) (fun _ => shared) BulkEdits.administrator.user 1 0 0 = some sent := by
  have hscope : addLinkViewScope BulkEdits.administrator.user false = .ok fun _ => true := rfl
  have hkept : shared.links.rows.filter (inView (fun _ => true) 0) =
      [campaignRow, handbookRow] := by
    rw [rows_shared]
    decide +kernel
  have hlisted : listed shared (fun _ => true) 0 = [handbookRow, campaignRow] := by
    have hperm : (listed shared (fun _ => true) 0).Perm [handbookRow, campaignRow] := by
      rw [listed, hkept]
      exact (List.mergeSort_perm _ _).trans (List.Perm.swap _ _ _)
    refine hperm.eq_of_pairwise (fun a b _ _ hab hba => ?_)
      (listed_descending shared (fun _ => true) 0) (by decide +kernel)
    exact absurd hab (not_lt_of_gt hba)
  rw [exportPages_single (fun _ => ⟨rfl, fun _ => rfl, rfl, rfl⟩) hscope (by rw [hlisted]; decide),
    hlisted]
  rfl

theorem portable_sent : ∀ link ∈ sent, Portable link := by
  have hfacts : ∀ link ∈ sent, (∀ x ∈ texts link, Survives x) ∧
      (∀ t ∈ link.expiresAt, t.nanos % GoTime.second = 0 ∧ 0 ≤ utcYear t ∧ utcYear t ≤ 9999) ∧
      (∀ m ∈ link.maxClicks, m ≤ int64Max) ∧
      (∀ tag ∈ link.tags, ((59 : UInt8) ∉ tag ∧ crlf tag = tag ∧ tag.length ≤ 40) ∧
        (0 : UInt8) ∉ tag ∧ formula tag = false) := by
    decide +kernel
  intro link hlink
  obtain ⟨htexts, hexpires, hlimit, htags⟩ := hfacts link hlink
  refine ⟨htexts, fun t ht => hexpires t ht, fun m hm => hlimit m hm,
    ⟨fun tag htag => (htags tag htag).1, fun tag rest heq hformula => ?_⟩,
    fun tag htag => (htags tag htag).2.1⟩
  have hplain := (htags tag (heq ▸ List.mem_cons_self)).2.2
  rw [hformula] at hplain
  cases hplain

theorem returns_sent : Returns superadmin sent :=
  ⟨by decide +kernel, portable_sent, fun _ htenant => (by cases htenant), Or.inl (by decide)⟩

/-- Both links come back. -/
theorem csv_inverse_sent :
    exportLinks 1 (fun _ => {}) (fun _ => shared) BulkEdits.administrator.user =
        some (csvFile sent) ∧
      (serveImport LinkResponses.deployed stocked superadmin numbered false
        (csvFile sent)).1.status = 201 ∧
      RestoresAll stocked.db (serveImport LinkResponses.deployed stocked superadmin numbered false
        (csvFile sent)).2.db sent := by
  have hunused : ∀ link ∈ sent, ∀ r ∈ stocked.db.links.rows, r.slug ≠ link.slug := by
    intro link hlink r hr heq
    have hstored : r.slug ∈ [lit "mail", lit "desk"] := slugs_stocked ▸ List.mem_map_of_mem hr
    have hsent : ∀ link ∈ sent, link.slug ∉ [lit "mail", lit "desk"] := by decide +kernel
    exact hsent link hlink (heq ▸ hstored)
  obtain ⟨hfile, hinverse⟩ := csv_inverse_iff (fun _ => {}) 1 shared BulkEdits.administrator.user
    sent intact_shared sent_exported (by decide) (by decide +kernel) LinkResponses.deployed stocked
    superadmin numbered ⟨⟨rfl, fun _ => rfl, rfl, rfl⟩, ⟨rfl, fun _ => rfl, rfl, rfl⟩,
      ⟨rfl, fun _ => rfl, rfl, rfl⟩, _, List.mem_singleton_self _, rfl⟩
    (intact_call _ _ _ intact_empty) hunused
  exact ⟨hfile, hinverse.mpr returns_sent⟩

/-! A link whose slug begins with a hyphen, and one that expires within a second. -/

def dashed : Link := { slug := lit "-docs", targetUrl := lit "https://example.com/" }

/-- It expires in the last millisecond of 2026. -/
def dated : Link :=
  { slug := lit "docs", targetUrl := lit "https://example.com/",
    expiresAt := some ⟨1798761599 * GoTime.second + 999000000⟩ }

/-- A store with this link only. -/
def alone (link : Link) : Database :=
  (Call.write {} Database.empty superadmin.user (.createLinksBulk (fun _ => []) [link])).2

def stored (link : Link) : List Link := (alone link).links.rows.map (readBack (alone link))

/-- The first file is refused, since an apostrophe stands before the slug; the second one is
accepted, and its link expires earlier. -/
theorem csv_not_inverse :
    (∀ link ∈ [dashed, dated], Intact (alone link) ∧
      exportPages (fun _ => {}) (fun _ => alone link) superadmin.user 1 0 0 = some (stored link) ∧
      (stored link).map Link.slug = [link.slug] ∧
      (stored link).map Link.expiresAt = [link.expiresAt] ∧
      ∀ exported ∈ stored link, exported.passwordProtected = false) ∧
    CsvImports.Serves emptyStore superadmin LinkResponses.healthy ∧ Intact emptyStore.db ∧
    emptyStore.db.links.rows = [] ∧
    (serveImport LinkResponses.deployed emptyStore superadmin LinkResponses.healthy false
        (csvFile (stored dashed))).1 =
      ⟨422, .refusedRows [(2, lit "slug must be 3-80 letters, numbers, _ or -")]⟩ ∧
    (serveImport LinkResponses.deployed emptyStore superadmin LinkResponses.healthy false
        (csvFile (stored dated))).1.status = 201 ∧
    (serveImport LinkResponses.deployed emptyStore superadmin LinkResponses.healthy false
        (csvFile (stored dated))).2.db.links.rows.map LinkRow.expiresAt =
      [some ⟨1798761599 * GoTime.second⟩] := by
  have hfacts : ∀ link ∈ [dashed, dated],
      exportPages (fun _ => {}) (fun _ => alone link) superadmin.user 1 0 0 = some (stored link) ∧
      (stored link).map Link.slug = [link.slug] ∧
      (stored link).map Link.expiresAt = [link.expiresAt] ∧
      ∀ exported ∈ stored link, exported.passwordProtected = false := by
    decide +kernel
  exact ⟨fun link hlink => ⟨intact_call _ _ _ intact_empty, hfacts link hlink⟩, serves_superadmin,
    intact_empty, rfl, by decide +kernel⟩

end CsvRoundTrips
