import ShortQ.ClickWire
import ShortQ.CsvCells
import ShortQ.ImportWrites
import ShortQ.LabelledRuns
import ShortQ.PartialEdits
import ShortQ.RedirectEvents
import ShortQ.WrittenLinks

/-! # Cache hits

`RedisCache.Set` and `RedisCache.Get` on the bytes that Redis holds, and that a hit is handled like
the row it was made from. -/
namespace CachedHits

open GoText
open JsonValues
open LabelledRuns
open Models
open RedirectCache
open RedirectEvents
open RedirectHandler
open Runes (toValid_of_valid)
open Transaction (Err Script)

/-! ## The entry as JSON -/

inductive Field where
  | version | id | tenantId | slug | targetUrl | redirectCode | expiresAt | expiredUrl | iosUrl
  | androidUrl | forwardQuery | utmSource | utmMedium | utmCampaign | utmTerm | utmContent
  | geoTargets
  deriving DecidableEq, Repr

/-- The fields in the order of the struct. -/
def Field.all : List Field :=
  [.version, .id, .tenantId, .slug, .targetUrl, .redirectCode, .expiresAt, .expiredUrl, .iosUrl,
    .androidUrl, .forwardQuery, .utmSource, .utmMedium, .utmCampaign, .utmTerm, .utmContent,
    .geoTargets]

def Field.name : Field → Str
  | .version => lit "version"
  | .id => lit "id"
  | .tenantId => lit "tenant_id"
  | .slug => lit "slug"
  | .targetUrl => lit "target_url"
  | .redirectCode => lit "redirect_code"
  | .expiresAt => lit "expires_at"
  | .expiredUrl => lit "expired_url"
  | .iosUrl => lit "ios_url"
  | .androidUrl => lit "android_url"
  | .forwardQuery => lit "forward_query"
  | .utmSource => lit "utm_source"
  | .utmMedium => lit "utm_medium"
  | .utmCampaign => lit "utm_campaign"
  | .utmTerm => lit "utm_term"
  | .utmContent => lit "utm_content"
  | .geoTargets => lit "geo_targets"

def fieldOf (key : Str) : Option Field := fieldNamed Field.all Field.name key

/-- A text with `omitempty`. -/
def nonempty (s : Str) : Option Json := if s = [] then none else some (.string s false)

/-- One field as it is written, unless it is omitted; the text of the instant is given. -/
def encode (c : CachedRedirect) (expiresAt : Option Str) : Field → Option Json
  | .version => some (.number (some c.version))
  | .id => some (.number (some c.id))
  | .tenantId => c.tenantId.map fun t => .number (some t)
  | .slug => some (.string c.slug false)
  | .targetUrl => some (.string c.targetUrl false)
  | .redirectCode => some (.number (some c.redirectCode))
  | .expiresAt => expiresAt.map fun s => .string s false
  | .expiredUrl => nonempty c.expiredUrl
  | .iosUrl => nonempty c.iosUrl
  | .androidUrl => nonempty c.androidUrl
  | .forwardQuery => some (.bool c.forwardQuery)
  | .utmSource => nonempty c.utmSource
  | .utmMedium => nonempty c.utmMedium
  | .utmCampaign => nonempty c.utmCampaign
  | .utmTerm => nonempty c.utmTerm
  | .utmContent => nonempty c.utmContent
  | .geoTargets =>
    if c.geoTargets = [] then none else some (.array (c.geoTargets.map CsvLinks.GeoTarget.json))

def members (c : CachedRedirect) (expiresAt : Option Str) : List (Str × Json) :=
  Field.all.filterMap fun f => (encode c expiresAt f).map fun v => (f.name, v)

/-- `RedisCache.Set`: the bytes to store, or none where `json.Marshal` refuses the instant. -/
def Set (c : CachedRedirect) : Option Str :=
  (LinkStore.nullable GoTime.formatRFC3339 c.expiresAt).map fun expiresAt =>
    JsonText.render (.object (members c expiresAt))

/-- A pointer: null is nil. -/
def pointer {α : Type} (read : Json → Option α) : Json → Option (Option α)
  | .null => some none
  | v => (read v).map some

def geoTargetsValue : Json → Option (List GeoTarget)
  | .null => some []
  | .array items =>
    let read := items.map CsvLinks.geoTarget
    if read.all Prod.snd then some (read.map Prod.fst) else none
  | _ => none

def assign (c : CachedRedirect) (f : Field) (v : Json) : Option CachedRedirect :=
  match f with
  | .version => (intValue c.version v).map fun x => { c with version := x }
  | .id => (intValue c.id v).map fun x => { c with id := x }
  | .tenantId => (pointer (intValue 0) v).map fun x => { c with tenantId := x }
  | .slug => (stringValue c.slug v).map fun x => { c with slug := x }
  | .targetUrl => (stringValue c.targetUrl v).map fun x => { c with targetUrl := x }
  | .redirectCode => (intValue c.redirectCode v).map fun x => { c with redirectCode := x }
  | .expiresAt =>
    (pointer (ClickWire.timeValue GoTime.zero) v).map fun x => { c with expiresAt := x }
  | .expiredUrl => (stringValue c.expiredUrl v).map fun x => { c with expiredUrl := x }
  | .iosUrl => (stringValue c.iosUrl v).map fun x => { c with iosUrl := x }
  | .androidUrl => (stringValue c.androidUrl v).map fun x => { c with androidUrl := x }
  | .forwardQuery => (boolValue c.forwardQuery v).map fun x => { c with forwardQuery := x }
  | .utmSource => (stringValue c.utmSource v).map fun x => { c with utmSource := x }
  | .utmMedium => (stringValue c.utmMedium v).map fun x => { c with utmMedium := x }
  | .utmCampaign => (stringValue c.utmCampaign v).map fun x => { c with utmCampaign := x }
  | .utmTerm => (stringValue c.utmTerm v).map fun x => { c with utmTerm := x }
  | .utmContent => (stringValue c.utmContent v).map fun x => { c with utmContent := x }
  | .geoTargets => (geoTargetsValue v).map fun x => { c with geoTargets := x }

/-- The zero `CachedRedirect`. -/
def blank : CachedRedirect where
  version := 0
  id := 0
  tenantId := none
  slug := []
  targetUrl := []
  redirectCode := 0
  expiresAt := none
  expiredUrl := []
  iosUrl := []
  androidUrl := []
  forwardQuery := false
  utmSource := []
  utmMedium := []
  utmCampaign := []
  utmTerm := []
  utmContent := []
  geoTargets := []

/-- `RedisCache.Get` of the stored bytes: none is an error, `some none` a miss. -/
def Get (data : Str) : Option (Option CachedRedirect) :=
  ((JsonText.scan data).bind (storeObject fieldOf assign blank)).map fun value =>
    if value.version ≠ SchemaVersion then none else some value

/-! ## What is read is what was written -/

/-- The values the columns of a link can hold. -/
structure Columns (link : Link) : Prop where
  id : -int64Max - 1 ≤ link.id ∧ link.id ≤ int64Max
  tenantId : ∀ t, link.tenantId = some t → -int64Max - 1 ≤ t ∧ t ≤ int64Max
  redirectCode : -int64Max - 1 ≤ link.redirectCode ∧ link.redirectCode ≤ int64Max
  texts : ∀ s ∈ [link.slug, link.targetUrl, link.expiredUrl, link.iosUrl, link.androidUrl,
    link.utmSource, link.utmMedium, link.utmCampaign, link.utmTerm, link.utmContent],
    validUtf8 s = true
  geo : ∀ g ∈ link.geoTargets, validUtf8 g.countryCode = true ∧ validUtf8 g.targetUrl = true

/-- Rows that the calls of the store have written are of this kind. -/
theorem columns_of_written {db : Schema.Database} {r : Schema.LinkRow}
    (h : WrittenLinks.WrittenRow db r) (hid : -int64Max - 1 ≤ r.id ∧ r.id ≤ int64Max)
    (htenant : ∀ t, r.tenantId = some t → -int64Max - 1 ≤ t ∧ t ≤ int64Max) :
    Columns (LinkWrites.readBack db r) := by
  obtain ⟨link, columns, hvalid, hcolumns, hassign, hgeo⟩ := h.settings
  have htaken := LinkStore.linkColumns_iff.mp hcolumns
  have haccepted := AcceptedLinks.validateLink_none.mp hvalid
  have htext {s t : Str} (ht : Schema.text s = some t) : validUtf8 t = true := by
    rw [AcceptedLinks.text_some ht]
    apply PartialEdits.valid_of_text
    rw [ht]
    exact Option.some_ne_none t
  have hvarchar {n : ℕ} {s t : Str} (ht : Schema.varchar n s = some t) : validUtf8 t = true :=
    htext (ImportWrites.text_of_varchar (PartialEdits.varchar_idem ht))
  constructor
  · exact hid
  · exact htenant
  · have hsmall : Schema.smallint r.redirectCode = some r.redirectCode := by
      rw [← hassign]
      exact PartialEdits.smallint_idem htaken.redirectCode
    obtain ⟨hrange, -⟩ := Option.ite_none_right_eq_some.mp hsmall
    simp only [Bool.and_eq_true, decide_eq_true_eq] at hrange
    change -int64Max - 1 ≤ r.redirectCode ∧ r.redirectCode ≤ int64Max
    unfold int64Max
    omega
  · have hslug := htext (ImportWrites.text_of_varchar (ImportWrites.slug_taken h.slug))
    have hrest : ∀ s ∈ [r.targetUrl, r.expiredUrl, r.iosUrl, r.androidUrl, r.utmSource,
        r.utmMedium, r.utmCampaign, r.utmTerm, r.utmContent], validUtf8 s = true := by
      rw [← hassign]
      simp only [LinkStore.LinkColumns.assign, List.forall_mem_cons]
      exact ⟨htext htaken.targetUrl, htext htaken.expiredUrl, htext htaken.iosUrl,
        htext htaken.androidUrl, hvarchar htaken.utmSource, hvarchar htaken.utmMedium,
        hvarchar htaken.utmCampaign, hvarchar htaken.utmTerm, hvarchar htaken.utmContent, by simp⟩
    intro s hs
    rcases List.mem_cons.mp hs with rfl | hs
    · exact hslug
    · exact hrest s hs
  · intro g hg
    change g ∈ LinkStore.geoTargetsOf db r.id at hg
    rw [LinkWrites.geoTargetsOf_eq] at hg
    obtain ⟨row, hrow, rfl⟩ := List.mem_map.mp hg
    rw [List.mem_mergeSort] at hrow
    obtain ⟨target, htarget, hstored⟩ := LinkScopes.mem_mapM hgeo row hrow
    have hiso := (haccepted.geo target htarget).1
    have hcode := (AcceptedLinks.geoRow_accepted hstored hiso).1
    simp only [LinkPayload.geoRow, Option.bind_eq_bind, Option.bind_eq_some_iff] at hstored
    obtain ⟨code, -, url, hurl, heq⟩ := hstored
    cases heq
    refine ⟨?_, htext hurl⟩
    rw [hcode]
    exact htext (AcceptedLinks.text_iso hiso)

section

variable {c : CachedRedirect} {e : Option Str}

/-- The value with one field taken from the entry, unless the field was omitted. -/
def kept (c d : CachedRedirect) : Field → CachedRedirect
  | .version => { d with version := c.version }
  | .id => { d with id := c.id }
  | .tenantId => { d with tenantId := c.tenantId.or d.tenantId }
  | .slug => { d with slug := c.slug }
  | .targetUrl => { d with targetUrl := c.targetUrl }
  | .redirectCode => { d with redirectCode := c.redirectCode }
  | .expiresAt => { d with expiresAt := c.expiresAt.or d.expiresAt }
  | .expiredUrl => { d with expiredUrl := if c.expiredUrl = [] then d.expiredUrl else c.expiredUrl }
  | .iosUrl => { d with iosUrl := if c.iosUrl = [] then d.iosUrl else c.iosUrl }
  | .androidUrl => { d with androidUrl := if c.androidUrl = [] then d.androidUrl else c.androidUrl }
  | .forwardQuery => { d with forwardQuery := c.forwardQuery }
  | .utmSource => { d with utmSource := if c.utmSource = [] then d.utmSource else c.utmSource }
  | .utmMedium => { d with utmMedium := if c.utmMedium = [] then d.utmMedium else c.utmMedium }
  | .utmCampaign =>
    { d with utmCampaign := if c.utmCampaign = [] then d.utmCampaign else c.utmCampaign }
  | .utmTerm => { d with utmTerm := if c.utmTerm = [] then d.utmTerm else c.utmTerm }
  | .utmContent => { d with utmContent := if c.utmContent = [] then d.utmContent else c.utmContent }
  | .geoTargets => { d with geoTargets := if c.geoTargets = [] then d.geoTargets else c.geoTargets }

/-- No field is lost. -/
theorem kept_all (c : CachedRedirect) : Field.all.foldl (kept c) blank = c := by
  have htext (s : Str) : (if s = [] then [] else s) = s := by
    by_cases hs : s = []
    · rw [if_pos hs, hs]
    · rw [if_neg hs]
  have hgeo (l : List GeoTarget) : (if l = [] then [] else l) = l := by
    by_cases hl : l = []
    · rw [if_pos hl, hl]
    · rw [if_neg hl]
  simp only [Field.all, List.foldl_cons, List.foldl_nil, kept, blank, htext, hgeo, Option.or_none]

theorem fieldOf_name (f : Field) : fieldOf (toValid f.name) = some f := by
  cases f <;> decide

/-- One member on its way through the text. -/
def reread (d : CachedRedirect) (f : Field) : Option Json → Option CachedRedirect
  | none => some d
  | some v => assign d f (JsonText.marshalled v)

theorem storeObject_members (c : CachedRedirect) (e : Option Str) (fs : List Field)
    (d : CachedRedirect) :
    storeObject fieldOf assign d (.object (JsonText.marshalledMembers
        (fs.filterMap fun f => (encode c e f).map fun v => (f.name, v)))) =
      fs.foldlM (fun d f => reread d f (encode c e f)) d := by
  rw [JsonText.marshalledMembers_eq]
  induction fs generalizing d with
  | nil => rfl
  | cons f fs ih =>
    rw [List.foldlM_cons]
    cases hencode : encode c e f with
    | none =>
      rw [List.filterMap_cons_none (by rw [hencode]; rfl)]
      exact ih d
    | some v =>
      rw [List.filterMap_cons_some (by rw [hencode]; rfl), List.map_cons, storeObject,
        List.foldlM_cons]
      simp only [fieldOf_name]
      exact congrArg _ (funext ih)

theorem reread_text {d : CachedRedirect} {s t : Str} (h : validUtf8 s = true)
    {f : Field} {set : Str → CachedRedirect}
    (hassign : ∀ v, assign d f v = (stringValue t v).map set)
    (hset : set t = d) :
    reread d f (nonempty s) = some (set (if s = [] then t else s)) := by
  unfold nonempty
  by_cases hs : s = []
  · rw [if_pos hs, if_pos hs, hset]
    rfl
  · rw [if_neg hs, if_neg hs, reread, hassign, JsonText.marshalled, jsonString,
      toValid_of_valid h]
    rfl

theorem stampByte_plain : ∀ b : UInt8, TimeText.stampByte b = true →
    b < 0x80 ∧ JsonText.escapedRune (Runes.single b) = false :=
  Runes.forall_byte (by decide +kernel)

/-- Each field arrives. -/
theorem reread_field {link : Link} (h : Columns link) (hc : fromLink link = some c)
    (he : LinkStore.nullable GoTime.formatRFC3339 c.expiresAt = some e) (d : CachedRedirect)
    (f : Field) : reread d f (encode c e f) = some (kept c d f) := by
  have hint {current v : ℤ} (hv : -int64Max - 1 ≤ v ∧ v ≤ int64Max) :
      intValue current (.number (some v)) = some v := if_pos hv
  have htext {t s : Str} (hs : s ∈ [link.slug, link.targetUrl, link.expiredUrl, link.iosUrl,
      link.androidUrl, link.utmSource, link.utmMedium, link.utmCampaign, link.utmTerm,
      link.utmContent]) : stringValue t (JsonText.marshalled (.string s false)) = some s := by
    rw [JsonText.marshalled, jsonString, toValid_of_valid (h.texts s hs)]
    rfl
  obtain ⟨-, hsome⟩ := Option.ite_none_left_eq_some.mp hc
  obtain rfl := Option.some.inj hsome
  cases f with
  | version => rfl
  | id => simp only [encode, reread, assign, JsonText.marshalled, hint h.id, kept, Option.map_some]
  | redirectCode =>
    simp only [encode, reread, assign, JsonText.marshalled, hint h.redirectCode, kept,
      Option.map_some]
  | tenantId =>
    cases ht : link.tenantId with
    | none => simp [encode, reread, kept]
    | some t =>
      simp [encode, reread, assign, pointer, JsonText.marshalled, hint (h.tenantId t ht), kept]
  | slug => simp [encode, reread, assign, htext, kept]
  | targetUrl => simp [encode, reread, assign, htext, kept]
  | forwardQuery => rfl
  | expiresAt =>
    cases ht : link.expiresAt with
    | none =>
      rw [ht] at he
      cases he
      simp [encode, reread, kept]
    | some t =>
      rw [ht] at he
      obtain ⟨s, hs, rfl⟩ := Option.map_eq_some_iff.mp he
      have hplain : jsonString s = .string s false := by
        apply JsonText.jsonString_plain
        intro b hb
        exact stampByte_plain b (TimeText.stampByte_of_mem hs hb)
      simp [encode, reread, assign, pointer, JsonText.marshalled, hplain, ClickWire.timeValue,
        TimeText.parse_formatRFC3339 hs, kept]
  | geoTargets =>
    by_cases hnil : link.geoTargets = []
    · simp [encode, reread, kept, hnil]
    · have hread := CsvCells.map_geoTarget h.geo
      simp only [encode, if_neg hnil, reread, assign, geoTargetsValue, JsonText.marshalled, hread,
        kept]
      simp [List.all_map, Function.comp_def]
  | expiredUrl =>
    exact @reread_text d link.expiredUrl d.expiredUrl (h.texts _ (by simp)) .expiredUrl
      (fun x => { d with expiredUrl := x })
      (fun _ => rfl) rfl
  | iosUrl =>
    exact @reread_text d link.iosUrl d.iosUrl (h.texts _ (by simp)) .iosUrl
      (fun x => { d with iosUrl := x })
      (fun _ => rfl) rfl
  | androidUrl =>
    exact @reread_text d link.androidUrl d.androidUrl (h.texts _ (by simp)) .androidUrl
      (fun x => { d with androidUrl := x })
      (fun _ => rfl) rfl
  | utmSource =>
    exact @reread_text d link.utmSource d.utmSource (h.texts _ (by simp)) .utmSource
      (fun x => { d with utmSource := x })
      (fun _ => rfl) rfl
  | utmMedium =>
    exact @reread_text d link.utmMedium d.utmMedium (h.texts _ (by simp)) .utmMedium
      (fun x => { d with utmMedium := x })
      (fun _ => rfl) rfl
  | utmCampaign =>
    exact @reread_text d link.utmCampaign d.utmCampaign (h.texts _ (by simp)) .utmCampaign
      (fun x => { d with utmCampaign := x })
      (fun _ => rfl) rfl
  | utmTerm =>
    exact @reread_text d link.utmTerm d.utmTerm (h.texts _ (by simp)) .utmTerm
      (fun x => { d with utmTerm := x })
      (fun _ => rfl) rfl
  | utmContent =>
    exact @reread_text d link.utmContent d.utmContent (h.texts _ (by simp)) .utmContent
      (fun x => { d with utmContent := x })
      (fun _ => rfl) rfl

theorem depth_encode (c : CachedRedirect) (e : Option Str) (f : Field) {v : Json}
    (h : encode c e f = some v) : JsonText.depth v ≤ 2 := by
  have hscalar {o : Option Json} (ho : o = some v)
      (hdepth : ∀ w, o = some w → JsonText.depth w = 0) :
      JsonText.depth v ≤ 2 := by
    rw [hdepth v ho]
    exact Nat.zero_le 2
  have htext (s : Str) : ∀ w, nonempty s = some w → JsonText.depth w = 0 := by
    intro w hw
    obtain ⟨-, hw⟩ := Option.ite_none_left_eq_some.mp hw
    obtain rfl := Option.some.inj hw
    rfl
  cases f with
  | geoTargets =>
    obtain ⟨-, hv⟩ := Option.ite_none_left_eq_some.mp h
    obtain rfl := Option.some.inj hv
    rw [JsonText.depth]
    apply Nat.succ_le_succ
    apply JsonText.depthItems_le
    intro w hw
    obtain ⟨target, -, rfl⟩ := List.mem_map.mp hw
    exact (CsvCells.depth_geo target).le
  | tenantId =>
    obtain ⟨t, -, rfl⟩ := Option.map_eq_some_iff.mp h
    exact Nat.zero_le 2
  | expiresAt =>
    obtain ⟨t, -, rfl⟩ := Option.map_eq_some_iff.mp h
    exact Nat.zero_le 2
  | version | id | slug | targetUrl | redirectCode | forwardQuery =>
    obtain rfl := Option.some.inj h
    exact Nat.zero_le 2
  | expiredUrl | iosUrl | androidUrl | utmSource | utmMedium | utmCampaign | utmTerm | utmContent =>
    exact hscalar h (htext _)

/-- What is stored for a row is what `Get` finds. -/
theorem Get_Set {link : Link} {data : Str} (h : Columns link) (hc : fromLink link = some c)
    (hdata : Set c = some data) : Get data = some (some c) := by
  obtain ⟨e, he, rfl⟩ := Option.map_eq_some_iff.mp hdata
  have hdepth : JsonText.depth (.object (members c e)) ≤ JsonText.maxNestingDepth := by
    have hmembers : JsonText.depthMembers (members c e) ≤ 2 := by
      apply JsonText.depthMembers_le
      intro m hm
      obtain ⟨f, -, hf⟩ := List.mem_filterMap.mp hm
      obtain ⟨v, hv, rfl⟩ := Option.map_eq_some_iff.mp hf
      exact depth_encode c e f hv
    rw [JsonText.depth, JsonText.maxNestingDepth]
    omega
  have hstore : ∀ fs d, List.foldlM (fun d f => reread d f (encode c e f)) d fs =
      some (fs.foldl (kept c) d) := by
    intro fs
    induction fs with
    | nil =>
      intro d
      rfl
    | cons f fs ih =>
      intro d
      rw [List.foldlM_cons, reread_field h hc he]
      exact ih _
  have hversion : c.version = SchemaVersion := by
    obtain ⟨-, hsome⟩ := Option.ite_none_left_eq_some.mp hc
    obtain rfl := Option.some.inj hsome
    rfl
  rw [Get, JsonText.scan_render _ hdepth, JsonText.marshalled, Option.bind_some, members,
    storeObject_members, hstore, kept_all, Option.map_some, if_neg (not_not.mpr hversion)]

end

/-! ## The same handling -/

/-- What `FromLink` takes. -/
structure Cacheable (link : Link) : Prop where
  unprotected : link.passwordProtected = false
  hash : link.passwordHash = []
  unlimited : link.maxClicks = none

theorem cacheable_of_fromLink {link : Link} {c : CachedRedirect} (h : fromLink link = some c) :
    Cacheable link := by
  obtain ⟨hopen, -⟩ := Option.ite_none_left_eq_some.mp h
  simp only [Bool.or_eq_true, decide_eq_true_eq, not_or, Bool.not_eq_true,
    Option.isSome_eq_false_iff,
    Option.isNone_iff_eq_none, ne_eq, not_not, List.length_eq_zero_iff] at hopen
  exact ⟨hopen.1.1, hopen.1.2, hopen.2⟩

/-- The handler reads nothing of a link that the entry does not hold. -/
theorem redirectSlug_hit (site : Site) (v : Visit) {link hit : Link} {c : CachedRedirect}
    (hc : fromLink link = some c) (hhit : c.link = some hit) :
    redirectSlug site v (.ok hit) = redirectSlug site v (.ok link) := by
  obtain ⟨hprotected, -, hlimit⟩ := cacheable_of_fromLink hc
  obtain ⟨-, hsome⟩ := Option.ite_none_left_eq_some.mp hc
  obtain rfl := Option.some.inj hsome
  have hhit := Option.some.inj hhit
  have hevent (target route : Str) (status : ℤ) :
      redirectEvent site v hit target route status =
        redirectEvent site v link target route status := by
    rw [← hhit]
    rfl
  have hdestination : destination site v hit = destination site v link := by
    rw [← hhit]
    rfl
  have hexpired : linkExpired v.expiryAt hit = linkExpired v.expiryAt link := by
    rw [← hhit]
    simp [linkExpired, hlimit]
  have hresponse : expiredResponse hit = expiredResponse link := by
    rw [← hhit]
    rfl
  obtain ⟨htenant, hopen, hurl, hcode, hnone⟩ : hit.tenantId = link.tenantId ∧
      hit.passwordProtected = false ∧ hit.expiredUrl = link.expiredUrl ∧
      hit.redirectCode = link.redirectCode ∧ hit.maxClicks = none := by
    rw [← hhit]
    exact ⟨rfl, rfl, rfl, rfl, rfl⟩
  simp only [redirectSlug, hprotected, hlimit, hevent, hdestination, hexpired, hresponse, htenant,
    hopen, hurl, hcode, hnone, Bool.false_and, Bool.false_eq_true, if_false]

/-! ## What is put in the cache -/

/-- The cache holds and is given nothing but entries of links without a password and a limit. -/
structure Clean (s : System) : Prop where
  held : ∀ c, s.cache = some c → ∃ link, fromLink link = some c
  given : ∀ r link c, s.requests r = .resolving (.set link c) → fromLink link = some c

theorem Clean.advance {s : System} (h : Clean s) (r : ℕ) {x : RedirectHandler.Request}
    (hx : ∀ link c, x = .resolving (.set link c) → fromLink link = some c) :
    Clean (s.advance r x) := by
  constructor
  · exact h.held
  · intro q link c hq
    by_cases hqr : q = r
    · subst hqr
      apply hx
      rw [← hq]
      exact (Function.update_self q x s.requests).symm
    · apply h.given q
      rw [← hq]
      exact (Function.update_of_ne hqr x s.requests).symm

theorem Clean.of_same {s t : System} (h : Clean s) (hcache : t.cache = s.cache)
    (hrequests : t.requests = s.requests) : Clean t := by
  constructor
  · rw [hcache]
    exact h.held
  · rw [hrequests]
    exact h.given

theorem set_of_afterLoad {result : Except Err Link} {link : Link} {c : CachedRedirect}
    (h : Resolve.afterLoad result = .set link c) : fromLink link = some c := by
  cases result with
  | error e => cases h
  | ok loaded =>
    rw [Resolve.afterLoad] at h
    split at h
    · cases h
    · rename_i heq
      cases h
      exact heq

theorem clean_check {s t : System} {r : ℕ} {link : Link} {domainTenant : Option ℤ} {access : Bool}
    {now : GoTime.Time} {event : ClickEvent} {target : Str} (h : Clean s)
    (hstep : check s r link domainTenant access now event target = some t) : Clean t := by
  unfold check at hstep
  split at hstep
  · cases hstep
    apply h.advance
    intro l c heq
    cases heq
  split at hstep
  · cases hstep
    apply h.advance
    intro l c heq
    cases heq
  split at hstep
  · cases hstep
  split at hstep
  · cases hstep
    refine (h.advance r ?_).of_same rfl rfl
    intro l c heq
    cases heq
  · cases hstep

theorem afterGet_ne_set (got : Option (Option CachedRedirect)) (link : Link) (c : CachedRedirect) :
    Resolve.afterGet got ≠ .set link c := by
  intro h
  unfold Resolve.afterGet at h
  split at h
  · split at h
    · cases h
    · cases h
  · cases h

theorem clean_next {slug : Str} {s t : System} {e : RedirectHandler.Event} (h : Clean s)
    (hstep : next slug s e = some t) : Clean t := by
  cases e with
  | start r cached =>
    simp only [next] at hstep
    split at hstep
    · cases hstep
      apply h.advance
      intro link c heq
      cases cached with
      | true => cases heq
      | false => cases heq
    · cases hstep
  | get r ok =>
    simp only [next] at hstep
    split at hstep
    · cases hstep
      apply h.advance
      intro link c heq
      exact absurd (RedirectHandler.Request.resolving.inj heq) (afterGet_ne_set _ link c)
    · cases hstep
  | load r io =>
    simp only [next] at hstep
    split at hstep
    · cases hstep
      apply h.advance
      intro link c heq
      cases heq
    · cases hstep
      apply h.advance
      intro link c heq
      exact set_of_afterLoad (RedirectHandler.Request.resolving.inj heq)
    · cases hstep
  | set r call =>
    simp only [next] at hstep
    split at hstep
    · rename_i link cached hset
      have hgiven := h.given r link cached hset
      have hadvanced : Clean (s.advance r (.resolving (.done (.ok link)))) := by
        apply h.advance
        intro link' c heq
        cases heq
      split at hstep
      · cases hstep
        constructor
        · intro c hc
          dsimp only at hc
          split at hc
          · cases hc
            exact ⟨link, hgiven⟩
          · exact h.held c hc
        · exact hadvanced.given
      · cases hstep
    · cases hstep
  | check r domainTenant access now event target =>
    simp only [next] at hstep
    split at hstep
    · cases hstep
      apply h.advance
      intro link c heq
      cases heq
    · exact clean_check h hstep
    · cases hstep
  | record r published io =>
    simp only [next] at hstep
    split at hstep
    · cases hstep
      refine (h.advance r ?_).of_same rfl rfl
      intro l c heq
      cases heq
    · cases hstep
  | respond r =>
    simp only [next] at hstep
    split at hstep
    · cases hstep
      apply h.advance
      intro link c heq
      cases heq
    · cases hstep

/-- No request has begun, and nothing is cached. -/
structure Untouched (s : System) : Prop where
  cache : s.cache = none
  idle : ∀ r, s.requests r = .idle

theorem clean_run {slug : Str} {s t : System} {es : List RedirectHandler.Event} (h : Untouched s)
    (hrun : Execution (next slug) s es t) : Clean t := by
  apply hrun.invariant
  · constructor
    · intro c hc
      rw [h.cache] at hc
      cases hc
    · intro r link c hr
      rw [h.idle] at hr
      cases hr
  · intro u e v hu hstep
    exact clean_next hu hstep

/-- A hit on the entry of a row is handled like the row itself, whatever the visit brings, and in no
run does a link with a password or a click limit reach the cache. -/
theorem hit_is_read (link : Link) (h : Columns link) :
    (∀ c data, fromLink link = some c → Set c = some data → ∃ hit,
      Resolve.afterGet (Get data) = .done (.ok hit) ∧
      ∀ (site : Site) (v : Visit), redirectSlug site v (.ok hit) = redirectSlug site v (.ok link)) ∧
    ∀ (slug : Str) (s t : System) (es : List RedirectHandler.Event), Untouched s →
      Execution (next slug) s es t →
      (∀ r l c, t.requests r = .resolving (.set l c) → Cacheable l ∧ fromLink l = some c) ∧
      ∀ c, t.cache = some c → ∃ l, Cacheable l ∧ fromLink l = some c := by
  constructor
  · intro c data hc hdata
    obtain ⟨hit, hhit⟩ := link_of_fromLink hc
    refine ⟨hit, ?_, fun site v => redirectSlug_hit site v hc hhit⟩
    rw [Get_Set h hc hdata, Resolve.afterGet, hhit]
  · intro slug s t es hs hrun
    have hclean := clean_run hs hrun
    constructor
    · intro r l c hset
      have hc := hclean.given r l c hset
      exact ⟨cacheable_of_fromLink hc, hc⟩
    · intro c hheld
      obtain ⟨l, hc⟩ := hclean.held c hheld
      exact ⟨l, cacheable_of_fromLink hc, hc⟩

/-- A link that expires, with a country of its own. -/
def summerLink : Link where
  id := 7
  tenantId := some 3
  slug := lit "docs"
  targetUrl := lit "https://example.org/?a=1"
  redirectCode := 307
  expiresAt := some ⟨1798761600 * GoTime.second + 500000000⟩
  forwardQuery := true
  utmSource := lit "café"
  geoTargets := [⟨lit "DE", lit "https://example.de/"⟩]

def summerEntry : CachedRedirect where
  version := 1
  id := 7
  tenantId := some 3
  slug := lit "docs"
  targetUrl := lit "https://example.org/?a=1"
  redirectCode := 307
  expiresAt := some ⟨1798761600 * GoTime.second + 500000000⟩
  expiredUrl := []
  iosUrl := []
  androidUrl := []
  forwardQuery := true
  utmSource := lit "café"
  utmMedium := []
  utmCampaign := []
  utmTerm := []
  utmContent := []
  geoTargets := [⟨lit "DE", lit "https://example.de/"⟩]

def summerData : Str := lit
  ("\x7b\"version\":1,\"id\":7,\"tenant_id\":3,\"slug\":\"docs\"," ++
   "\"target_url\":\"https://example.org/?a=1\",\"redirect_code\":307," ++
   "\"expires_at\":\"2027-01-01T00:00:00.5Z\",\"forward_query\":true," ++
   "\"utm_source\":\"café\",\"geo_targets\":[\x7b\"country_code\":\"DE\"," ++
   "\"target_url\":\"https://example.de/\"\x7d]\x7d")

def quiet : System where
  db := Schema.Database.single Schema.sampleLink
  cache := none
  issued := []
  requests := fun _ => .idle

/-- The link is read back from its bytes, and a run that fills the cache holds a link like it. -/
theorem hit_is_read_summer :
    (∃ hit, Resolve.afterGet (Get summerData) = .done (.ok hit) ∧ ∀ (site : Site) (v : Visit),
      redirectSlug site v (.ok hit) = redirectSlug site v (.ok summerLink)) ∧
    ∃ (t : System) (c : CachedRedirect), t.cache = some c ∧
      ∃ l, Cacheable l ∧ fromLink l = some c := by
  have h : Columns summerLink :=
    ⟨by decide, by decide, by decide, by decide, by decide⟩
  constructor
  · have hdata : Set summerEntry = some summerData := by
      unfold summerData
      simp only [Runes.lit_append]
      decide +kernel
    exact (hit_is_read summerLink h).1 summerEntry summerData (by decide +kernel) hdata
  · obtain ⟨t, hrun, c, hc⟩ : ∃ t : System, Execution (next (lit "docs")) quiet
        [.start 0 true, .get 0 true, .load 0 {}, .set 0 ⟨true, true⟩] t ∧ ∃ c, t.cache = some c :=
      ⟨_, ((((Execution.refl _).tail rfl).tail rfl).tail rfl).tail rfl, _, rfl⟩
    have hrun := (hit_is_read summerLink h).2 (lit "docs") quiet t _ ⟨rfl, fun _ => rfl⟩ hrun
    exact ⟨t, c, hc, hrun.2 c hc⟩

end CachedHits
