import ShortQ.ClickWire
import ShortQ.ImportWrites
import ShortQ.LinkEditor
import ShortQ.RedirectAccounts
import ShortQ.UrlRoundTrip

/-! # Clicks on the wire

The event of a redirect through `MarshalEvent` and `DecodeEvent`, in its first copy and in those of
`Retry`. -/
namespace WireFormat

open ClickWire
open GoText
open GoUrl
open JsonValues
open LinkValidation
open LinkWrites (readBack)
open Models
open RedirectAccounts
open RedirectEvents
open Runes
open Schema
open UrlEscapes
open UrlHosts (rereads)
open UrlRoundTrip
open WrittenLinks (Intact)

/-! ## What scrubbing leaves of a text -/

/-- A byte below 0x80 stands between two texts, each valid by itself. -/
theorem valid_around {b : UInt8} (hb : b < 0x80) (s t : Str) :
    validUtf8 (s ++ b :: t) = (validUtf8 s && validUtf8 t) := by
  rw [validUtf8, runes_append_ascii hb, List.all_append, List.all_cons]
  rfl

theorem valid_cut {sep : UInt8} (hsep : sep < 0x80) {s : Str} (h : validUtf8 s = true) :
    validUtf8 (cut sep s).1 = true := by
  have hjoin := cut_join sep s
  cases hafter : (cut sep s).2 with
  | none =>
    rw [hafter, Option.elim_none, List.append_nil] at hjoin
    rwa [← hjoin]
  | some after =>
    rw [hafter, Option.elim_some] at hjoin
    rw [hjoin, valid_around hsep, Bool.and_eq_true] at h
    exact h.1

theorem valid_splitQuery {rest : Str} (h : validUtf8 rest = true) :
    validUtf8 (splitQuery rest).1 = true := by
  obtain ⟨tail, hjoin, -, rfl | ⟨query, rfl⟩⟩ := splitQuery_join rest
  · rw [List.append_nil] at hjoin
    rwa [← hjoin]
  · rw [hjoin, valid_around (by decide), Bool.and_eq_true] at h
    exact h.1

/-- The scheme is ASCII, and what follows it is as valid as the whole. -/
theorem valid_getScheme {raw name rest : Str} (h : getScheme raw = some (name, rest)) :
    (name = [] ∨ schemeName name = true) ∧ (validUtf8 raw = true → validUtf8 rest = true) ∧
      ∀ b ∈ rest, b ∈ raw := by
  by_cases hname : name = []
  · subst hname
    have hrest : rest = raw := by
      unfold getScheme at h
      dsimp only at h
      split at h
      · split at h
        · cases h
        · rename_i hcons
          split at h
          · rw [hcons] at h
            cases h
          · cases h
            rfl
      · cases h
        rfl
    exact ⟨Or.inl rfl, fun hraw => hrest ▸ hraw, fun b hb => hrest ▸ hb⟩
  · obtain ⟨rfl, hvalid⟩ := getScheme_eq_some h hname
    rw [valid_around (by decide), Bool.and_eq_true]
    refine ⟨Or.inr hvalid, fun hraw => hraw.2, fun b hb => ?_⟩
    exact List.mem_append_right _ (List.mem_cons_of_mem _ hb)

theorem text_self_iff {s : Str} : text s = some s ↔ validUtf8 s = true ∧ 0 ∉ s := by
  simp [text]

/-- What is written of a URL of the text: its scheme is ASCII and its opaque part a text. -/
structure TextUrl (raw : Str) (u : URL) : Prop where
  scheme : Plain u.scheme
  zero : 0 ∉ u.opaquePart
  valid : validUtf8 raw = true → validUtf8 u.opaquePart = true

theorem lower_schemeByte :
    ∀ b : UInt8, schemeByte b = true → lowerByte b < 128 ∧ lowerByte b ≠ 0 :=
  forall_byte (by decide +kernel)

theorem textUrl_of_parse {raw : Str} {u : URL} (h : parse raw false = some u) :
    TextUrl raw u := by
  unfold parse at h
  split at h
  · cases h
  rename_i hclean
  have hzero : (0 : UInt8) ∉ raw := by
    intro hmem
    have hany : raw.any isControl = true := List.any_eq_true.mpr ⟨0, hmem, by decide⟩
    simp [hany] at hclean
  split at h
  · cases h
    exact ⟨by simp [Plain], by simp, fun _ => rfl⟩
  rw [Option.bind_eq_bind, Option.bind_eq_some_iff] at h
  obtain ⟨⟨name, rest⟩, hget, h⟩ := h
  obtain ⟨hname, hrest, hsub⟩ := valid_getScheme hget
  have hscheme : Plain (toLowerAscii name) := by
    intro b hb
    obtain ⟨a, ha, rfl⟩ := List.mem_map.mp hb
    rcases hname with rfl | hname
    · cases ha
    · exact lower_schemeByte a ((schemeName_iff.mp hname).1 a ha)
  have hbefore : 0 ∉ (splitQuery rest).1 := by
    obtain ⟨tail, hjoin, -⟩ := splitQuery_join rest
    exact fun hmem => hzero (hsub 0 (hjoin ▸ List.mem_append_left tail hmem))
  dsimp only at h
  split at h
  · cases h
    exact ⟨hscheme, hbefore, fun hraw => valid_splitQuery (hrest hraw)⟩
  split at h
  · cases h
  split at h
  · rw [Option.bind_eq_bind, Option.bind_eq_some_iff] at h
    obtain ⟨⟨user, host⟩, -, hset⟩ := h
    obtain ⟨p, -, rfl⟩ := Option.map_eq_some_iff.mp hset
    exact ⟨hscheme, List.not_mem_nil, fun _ => rfl⟩
  · obtain ⟨p, -, rfl⟩ := Option.map_eq_some_iff.mp h
    exact ⟨hscheme, List.not_mem_nil, fun _ => rfl⟩

theorem textUrl_of_Parse {raw : Str} {u : URL} (h : Parse raw = some u) : TextUrl raw u := by
  unfold Parse at h
  dsimp only at h
  rw [Option.bind_eq_bind, Option.bind_eq_some_iff] at h
  obtain ⟨v, hv, h⟩ := h
  obtain ⟨hscheme, hzero, hvalid⟩ := textUrl_of_parse hv
  have hvalid' (hraw : validUtf8 raw = true) := hvalid (@valid_cut 35 (by decide) _ hraw)
  split at h
  · cases h
    exact ⟨hscheme, hzero, hvalid'⟩
  · cases h
    exact ⟨hscheme, hzero, hvalid'⟩
  · obtain ⟨f, -, rfl⟩ := Option.map_eq_some_iff.mp h
    exact ⟨hscheme, hzero, hvalid'⟩

theorem plain_escape {mode : Mode} (hmode : mode = .host ∨ mode = .path) :
    ∀ c, ∀ b ∈ escapeByte mode c, b < 128 ∧ b ≠ 0 := by
  have halnum : ∀ b : UInt8, isAlnum b = true → b < 128 ∧ b ≠ 0 := forall_byte (by decide +kernel)
  rcases hmode with rfl | rfl
  · exact forall_escapeByte (fun h => by cases h) (by decide) halnum (by decide)
  · exact forall_escapeByte (fun h => by cases h) (by decide) halnum (by decide)

theorem plain_validEncoded : ∀ b : UInt8, validEncoded .path [b] = true → b < 128 ∧ b ≠ 0 :=
  forall_byte (by decide +kernel)

theorem plain_EscapedPath (u : URL) : Plain u.EscapedPath := by
  unfold URL.EscapedPath
  split
  · rename_i hraw
    simp only [Bool.and_eq_true, decide_eq_true_eq] at hraw
    intro b hb
    apply plain_validEncoded
    have hall := List.all_eq_true.mp hraw.1.2 b hb
    simpa [validEncoded] using hall
  split
  · exact fun b hb => List.mem_singleton.mp hb ▸ (by decide)
  · exact fun b hb => forall_escape (plain_escape (Or.inr rfl)) _ b hb

theorem plain_authority {u : URL} (h : u.user = none) : Plain u.authority := by
  unfold URL.authority
  split
  · exact List.forall_mem_nil _
  split
  · exact List.forall_mem_nil _
  · intro b hb
    rw [h, Option.elim_none, List.append_nil, List.mem_append] at hb
    rcases hb with hb | hb
    · split at hb
      · revert b
        decide
      · cases hb
    · exact forall_escape (plain_escape (Or.inl rfl)) _ b hb

/-- Beside its opaque part a URL is written in ASCII. -/
theorem scrubURL_closed {P : Str → Prop} (happend : ∀ s t, P s → P t → P (s ++ t))
    (hplain : ∀ s, Plain s → P s) {raw : Str}
    (hpart : ∀ u, Parse raw = some u → P u.opaquePart) : P (scrubURL raw) := by
  have hnil : P [] := hplain [] (List.forall_mem_nil _)
  unfold scrubURL
  cases hparse : Parse raw with
  | none => exact hnil
  | some u =>
    dsimp only
    have hown := hpart u hparse
    generalize hv : ({ u with user := none, rawQuery := [], fragment := [] } : URL) = v
    have hscheme : P v.scheme := hplain _ (hv ▸ (textUrl_of_Parse hparse).scheme)
    have hrest : P v.opaquePart := hv ▸ hown
    have hauthority := hplain _ (plain_authority (hv ▸ rfl : v.user = none))
    have hpath := hplain _ (plain_EscapedPath v)
    have hquery : v.rawQuery = [] := hv ▸ rfl
    have hfragment : v.fragment = [] := hv ▸ rfl
    have hmark (p : Prop) [Decidable p] {s : Str} (hs : Plain s) : P (if p then s else []) := by
      split
      · exact hplain s hs
      · exact hnil
    unfold URL.String
    dsimp only
    rw [hquery, hfragment]
    refine happend _ _ (happend _ _ (happend _ _ ?_ ?_) (hmark _ (by unfold Plain; decide))) hnil
    · split
      · exact hnil
      · exact happend _ _ hscheme (hplain _ (by unfold Plain; decide))
    · split
      · exact hrest
      · refine happend _ _ (happend _ _ hauthority ?_) hpath
        split
        · exact hplain _ (by unfold Plain; decide)
        · exact hmark _ (by unfold Plain; decide)

theorem zero_scrubURL (raw : Str) : 0 ∉ scrubURL raw := by
  refine scrubURL_closed (P := fun s => 0 ∉ s) (fun s t hs ht hmem => ?_) (fun s hs hmem => ?_)
    fun u hparse => (textUrl_of_Parse hparse).zero
  · exact (List.mem_append.mp hmem).elim hs ht
  · exact (hs 0 hmem).2 rfl

/-- What is scrubbed of a text is one that every text column takes. -/
theorem text_scrubURL {raw : Str} (h : validUtf8 raw = true) :
    text (scrubURL raw) = some (scrubURL raw) := by
  refine text_self_iff.mpr ⟨?_, zero_scrubURL raw⟩
  refine scrubURL_closed (P := fun s => validUtf8 s = true) (fun s t => valid_append)
    (fun s hs => valid_ascii fun b hb => (hs b hb).1)
    fun u hparse => (textUrl_of_Parse hparse).valid h

theorem valid_scrubURL {raw : Str} (h : validUtf8 raw = true) :
    validUtf8 (scrubURL raw) = true := (text_self_iff.mp (text_scrubURL h)).1

/-- A URL with a scheme and a host that its text reads back is scrubbed for good. -/
theorem scrubURL_absolute {raw : Str} {u : URL} (h : Parse raw = some u) (hscheme : u.scheme ≠ [])
    (hhost : u.host ≠ []) (hreads : rereads u.host = true) :
    scrubURL (scrubURL raw) = scrubURL raw := by
  have habsolute := absolute_of_Parse h hscheme hhost
  have hscrubbed : scrubURL raw =
      ({ u with user := none, rawQuery := [], fragment := [] } : URL).String := by
    rw [scrubURL, h]
  generalize hv : ({ u with user := none, rawQuery := [], fragment := [] } : URL) = v at hscrubbed
  have hclean : Absolute v := by
    subst hv
    exact ⟨habsolute.scheme, habsolute.lower, habsolute.hierarchical, habsolute.host,
      habsolute.hostText, habsolute.path, habsolute.rawPath, by simp⟩
  have hsame : v.host = u.host := hv ▸ rfl
  have hreread : ({ reread v with user := none, rawQuery := [], fragment := [] } : URL) =
      reread v := by
    subst hv
    rfl
  rw [hscrubbed, scrubURL, Parse_String hclean, hsame, if_pos hreads]
  dsimp only
  rw [hreread, String_reread hclean]

/-- No text, no URL, or one with a scheme and a host that its text reads back. -/
def Ordinary (raw : Str) : Prop :=
  raw = [] ∨ Parse raw = none ∨
    ∃ u, Parse raw = some u ∧ u.scheme ≠ [] ∧ u.host ≠ [] ∧ rereads u.host = true

theorem scrubURL_ordinary {raw : Str} (h : Ordinary raw) :
    scrubURL (scrubURL raw) = scrubURL raw := by
  have hempty : scrubURL [] = [] := by decide
  rcases h with rfl | hnone | ⟨u, hparse, hscheme, hhost, hreads⟩
  · rw [hempty, hempty]
  · have hscrubbed : scrubURL raw = [] := by rw [scrubURL, hnone]
    rw [hscrubbed, hempty]
  · exact scrubURL_absolute hparse hscheme hhost hreads

/-! ## The payload crosses -/

/-- One field of another payload. -/
def copied (p q : EventPayload) : Field → EventPayload
  | .version => { q with version := p.version }
  | .eventId => { q with eventId := p.eventId }
  | .occurredAt => { q with occurredAt := p.occurredAt }
  | .linkId => { q with linkId := p.linkId }
  | .slug => { q with slug := p.slug }
  | .ip => { q with ip := p.ip }
  | .countryCode => { q with countryCode := p.countryCode }
  | .method => { q with method := p.method }
  | .statusCode => { q with statusCode := p.statusCode }
  | .resolvedUrl => { q with resolvedUrl := p.resolvedUrl }
  | .routeType => { q with routeType := p.routeType }
  | .userAgent => { q with userAgent := p.userAgent }
  | .browser => { q with browser := p.browser }
  | .os => { q with os := p.os }
  | .device => { q with device := p.device }
  | .isBot => { q with isBot := p.isBot }
  | .referrer => { q with referrer := p.referrer }
  | .referrerHost => { q with referrerHost := p.referrerHost }
  | .utmSource => { q with utmSource := p.utmSource }
  | .utmMedium => { q with utmMedium := p.utmMedium }
  | .utmCampaign => { q with utmCampaign := p.utmCampaign }
  | .increment => { q with increment := p.increment }

/-- The texts of an event. -/
def texts (e : ClickEvent) : List Str :=
  [e.eventId, e.slug, e.ip, e.countryCode, e.method, e.resolvedUrl, e.routeType, e.userAgent,
    e.browser, e.os, e.device, e.referrer, e.referrerHost, e.utmSource, e.utmMedium, e.utmCampaign]

/-- What `json.Marshal` writes out as it is. -/
structure Sendable (e : ClickEvent) (written : Str) : Prop where
  texts : ∀ s ∈ texts e, validUtf8 s = true
  linkId : -int64Max - 1 ≤ e.linkId ∧ e.linkId ≤ int64Max
  statusCode : -int64Max - 1 ≤ e.statusCode ∧ e.statusCode ≤ int64Max
  written : GoTime.formatRFC3339 e.occurredAt = some written

theorem intValue_range {current v : ℤ} (hv : -int64Max - 1 ≤ v ∧ v ≤ int64Max) :
      intValue current (.number (some v)) = some v := if_pos hv

theorem stringValue_jsonString {current s : Str} (h : validUtf8 s = true) :
    stringValue current (jsonString s) = some s := by
  rw [jsonString, toValid_of_valid h]
  rfl

/-- Each field arrives. -/
theorem assign_encode {e : ClickEvent} {written : Str} (h : Sendable e written) (q : EventPayload)
    (f : Field) :
    q.assign f ((payloadOf e).encode written f) = some (copied (payloadOf e) q f) := by
  have htext := h.texts
  simp only [texts, List.forall_mem_cons] at htext
  obtain ⟨heventId, hslug, hip, hcountryCode, hmethod, hresolvedUrl, hrouteType, huserAgent,
    hbrowser, hos, hdevice, hreferrer, hreferrerHost, hsource, hmedium, hcampaign, -⟩ := htext
  cases f with
  | version => rfl
  | isBot => rfl
  | increment => rfl
  | linkId => exact congrArg (Option.map _) (intValue_range h.linkId)
  | statusCode => exact congrArg (Option.map _) (intValue_range h.statusCode)
  | occurredAt => exact congrArg (Option.map _) (TimeText.parse_formatRFC3339 h.written)
  | eventId | slug | ip | countryCode | method | resolvedUrl | routeType | userAgent | browser | os
  | device | referrer | referrerHost | utmSource | utmMedium | utmCampaign =>
    simp only [EventPayload.assign, EventPayload.encode, payloadOf, copied,
      stringValue_jsonString, valid_scrubURL, heventId, hslug, hip, hcountryCode, hmethod,
      hresolvedUrl, hrouteType, huserAgent, hbrowser, hos, hdevice, hreferrer, hreferrerHost,
      hsource, hmedium, hcampaign, Option.map_some]

/-- The event as the worker has it. -/
def received (e : ClickEvent) : ClickEvent :=
  { e with
    id := 0
    resolvedUrl := scrubURL e.resolvedUrl
    referrer := scrubURL e.referrer
    createdAt := GoTime.zero }

theorem decodePayload_encodePayload {e : ClickEvent} {written : Str} (h : Sendable e written) :
    (encodePayload (payloadOf e)).bind decodePayload = some (payloadOf e) := by
  have hfields (fs : List Field) (q : EventPayload) :
      fs.foldlM (fun q f => q.assign f ((payloadOf e).encode written f)) q =
        some (fs.foldl (copied (payloadOf e)) q) := by
    induction fs generalizing q with
    | nil => rfl
    | cons f fs ih =>
      rw [List.foldlM_cons, assign_encode h, Option.bind_eq_bind, Option.bind_some, ih]
      rfl
  have htime : (payloadOf e).occurredAt = e.occurredAt := rfl
  rw [encodePayload, htime, h.written, Option.map_some, Option.bind_some, decodePayload,
    foldlM_members, hfields]
  rfl

theorem decodeEvent_marshalEvent {e : ClickEvent} {written : Str} (h : Sendable e written)
    (haccepted : (payloadOf e).accepted = true) :
    (marshalEvent e).bind decodeEvent = some (received e) := by
  have hcross := decodePayload_encodePayload h
  obtain ⟨json, hjson, hdecoded⟩ := Option.bind_eq_some_iff.mp hcross
  rw [marshalEvent, hjson, Option.map_some, Option.bind_some]
  simp only [decodeEvent, Option.bind_eq_bind, Option.bind_some, hdecoded, haccepted]
  rfl

/-- A text without white space has nothing to trim. -/
theorem trimSpace_solid {s : Str} (h : ∀ b ∈ s, b < 0x80 ∧ isSpace (single b) = false) :
    trimSpace s = s := by
  have hall : ∀ r ∈ runes s, isSpace r = false := by
    rw [runes_ascii fun b hb => (h b hb).1]
    intro r hr
    obtain ⟨b, hb, rfl⟩ := List.mem_map.mp hr
    exact (h b hb).2
  rw [trimSpace_eq_self]
  exact ⟨fun r hr => hall r (List.mem_of_mem_head? hr),
    fun r hr => hall r (List.mem_of_mem_getLast? hr)⟩

theorem slugByte_solid : ∀ b : UInt8, slugByte b = true → b < 0x80 ∧ isSpace (single b) = false :=
  forall_byte (by decide +kernel)

theorem tokenByte_solid : ∀ b : UInt8, HttpRequest.tokenByte b = true →
    b < 0x80 ∧ isSpace (single b) = false :=
  forall_byte (by decide +kernel)

/-- Digits of the two halves of a byte. -/
theorem hexDigit_spec :
    ∀ d < 16, isHex (JsonText.hexDigit d) = true ∧ JsonText.hexDigit d ≠ 45 := by
  decide

theorem hexBytes_spec (bytes : List UInt8) :
    ∀ b ∈ hexBytes bytes, isHex b = true ∧ b ≠ 45 := by
  intro b hb
  obtain ⟨c, -, hb⟩ := List.mem_flatMap.mp hb
  have hc := c.toNat_lt
  rcases List.mem_cons.mp hb with rfl | hb
  · exact hexDigit_spec _ (by omega)
  · rw [List.mem_singleton.mp hb]
    exact hexDigit_spec _ (by omega)

theorem filter_hexBytes (bytes : List UInt8) :
    (hexBytes bytes).filter (· ≠ 45) = hexBytes bytes :=
  List.filter_eq_self.mpr fun b hb => decide_eq_true (hexBytes_spec bytes b hb).2

/-- A drawn event id is of the UUID form. -/
theorem validUUID_newEventID (value : Fin 16 → UInt8) : validUUID (newEventID value) = true := by
  unfold newEventID
  dsimp only
  generalize Function.update (Function.update value 6 _) 8 _ = w
  have hhex (bytes : List UInt8) : (hexBytes bytes).all isHex = true :=
    List.all_eq_true.mpr fun b hb => (hexBytes_spec bytes b hb).1
  have hdash : List.filter (fun b : UInt8 => decide (b ≠ 45)) [45] = [] := by decide
  simp only [validUUID, List.filter_append, filter_hexBytes, hdash, List.append_nil,
    List.all_append, hhex, Bool.and_true, Bool.and_eq_true, decide_eq_true_eq]
  refine ⟨⟨⟨⟨⟨rfl, rfl⟩, rfl⟩, rfl⟩, rfl⟩, rfl⟩

/-! ## The events of the handler -/

theorem code_of_intact {db : Database} {r : LinkRow} (hdb : Intact db) (hr : r ∈ db.links.rows)
    {status : ℤ} (hstatus : status = 410 ∨ status = r.redirectCode) :
    100 ≤ status ∧ status ≤ 599 := by
  obtain ⟨link, columns, hvalid, hcolumns, hassign, -⟩ := (hdb.written r hr).settings
  have hcode := (AcceptedLinks.validateLink_none.mp hvalid).code
  have htaken := (LinkStore.linkColumns_iff.mp hcolumns).redirectCode
  have hown : columns.redirectCode = r.redirectCode := by
    rw [← hassign]
    rfl
  have hsame := (Option.ite_none_right_eq_some.mp htaken).2
  have hsame := Option.some.inj hsame
  omega

/-- What the worker checks holds of every event of a stored link. -/
theorem accepted_redirectEvent {site : Site} {v : Visit} {db : Database} {r : LinkRow}
    (hdb : Intact db) (hr : r ∈ db.links.rows) {target route : Str} {status : ℤ} {increment : Bool}
    (hroute : route ∈ lit "expired" :: routes) (hstatus : status = 410 ∨ status = r.redirectCode)
    (hzero : v.occurredAt.isZero = false) :
    (payloadOf (message (redirectEvent site v (readBack db r) target route status)
      increment)).accepted = true := by
  have hslug : trimSpace r.slug ≠ [] := by
    have hformed := (hdb.written r hr).slug
    simp only [slugRe, Bool.and_eq_true, decide_eq_true_eq, List.all_eq_true] at hformed
    rw [trimSpace_solid fun b hb => slugByte_solid b (hformed.2 b hb)]
    intro hnil
    simp [hnil] at hformed
  have hmethod : trimSpace v.request.method ≠ [] := by
    obtain ⟨hmethod, htoken⟩ := v.request.token
    rwa [trimSpace_solid fun b hb => tokenByte_solid b (List.all_eq_true.mp htoken b hb)]
  have hname : trimSpace route ≠ [] := by
    revert route
    decide
  have hcode := code_of_intact hdb hr hstatus
  have hid := (hdb.numbered r hr).1
  simp only [EventPayload.accepted, Bool.and_eq_true, Bool.not_eq_true', decide_eq_true_eq,
    Bool.or_eq_false_iff, decide_eq_false_iff_not, List.isEmpty_eq_false_iff]
  exact ⟨⟨⟨⟨⟨rfl, validUUID_newEventID v.value⟩, hzero⟩, not_le.mpr hid⟩,
    ⟨⟨hslug, hmethod⟩, hname⟩⟩, not_lt.mpr hcode.1, not_lt.mpr hcode.2⟩

/-- A delivery of a message, and the copies that `Retry` makes of it one after the other. -/
inductive RetryCopy (m : Publishing) : Delivery → Prop
  | delivered : RetryCopy m (wrap m)
  | copied {d : Delivery} {attempt : ℤ} {copy : Publishing} :
    RetryCopy m d → retryPublishing d attempt = some copy → RetryCopy m (wrap copy)

theorem RetryCopy.body {m : Publishing} {d : Delivery} (h : RetryCopy m d) : d.body = m.body := by
  induction h with
  | delivered => rfl
  | copied _ hcopy ih =>
    obtain ⟨-, hsome⟩ := Option.ite_none_left_eq_some.mp hcopy
    obtain rfl := Option.some.inj hsome
    exact ih

theorem Sendable.received {e : ClickEvent} {written : Str} (h : Sendable e written) :
    Sendable (received e) written := by
  have htexts := h.texts
  refine ⟨?_, h.linkId, h.statusCode, h.written⟩
  simp only [WireFormat.texts, WireFormat.received, List.forall_mem_cons] at htexts ⊢
  obtain ⟨heventId, hslug, hip, hcountryCode, hmethod, hresolvedUrl, hrouteType, huserAgent,
    hbrowser, hos, hdevice, hreferrer, hrest⟩ := htexts
  exact ⟨heventId, hslug, hip, hcountryCode, hmethod, valid_scrubURL hresolvedUrl, hrouteType,
    huserAgent, hbrowser, hos, hdevice, valid_scrubURL hreferrer, hrest⟩

theorem received_eq_iff (e : ClickEvent) : received (received e) = received e ↔
    scrubURL (scrubURL e.resolvedUrl) = scrubURL e.resolvedUrl ∧
      scrubURL (scrubURL e.referrer) = scrubURL e.referrer := by
  simp [received]

/-- What JSON takes of every event of a stored link. -/
theorem sendable_redirectEvent {site : Site} {v : Visit} {db : Database} {r : LinkRow}
    (hdb : Intact db) (hr : r ∈ db.links.rows) (hmax : r.id ≤ int64Max) {target route : Str}
    {status : ℤ} {increment : Bool} {e : ClickEvent}
    (he : e = message (redirectEvent site v (readBack db r) target route status) increment)
    (hstatus : status = 410 ∨ status = r.redirectCode)
    (htexts : ∀ s ∈ texts e, validUtf8 s = true)
    (hyear : 0 ≤ CsvCells.utcYear v.occurredAt ∧ CsvCells.utcYear v.occurredAt ≤ 9999) :
    ∃ written, Sendable e written := by
  have hwritten : (GoTime.formatRFC3339 v.occurredAt).isSome = true := by
    rw [ImportWrites.formatRFC3339_isSome, Bool.and_eq_true, decide_eq_true_eq, decide_eq_true_eq]
    exact hyear
  obtain ⟨written, hwritten⟩ := Option.isSome_iff_exists.mp hwritten
  have hcode := code_of_intact hdb hr hstatus
  have hid := (hdb.numbered r hr).1
  subst he
  refine ⟨written, htexts, ?_, ?_, hwritten⟩
  · change -int64Max - 1 ≤ r.id ∧ r.id ≤ int64Max
    unfold int64Max at hmax ⊢
    omega
  · change -int64Max - 1 ≤ status ∧ status ≤ int64Max
    unfold int64Max
    omega

/-- The event of a click on a stored link arrives at the worker, in whichever copy, as it was but
for the scrubbing of its two URLs. Sent on, it arrives with both scrubbed once more. -/
theorem wire_format_agreed {site : Site} {v : Visit} {db : Database} {r : LinkRow}
    (hdb : Intact db) (hr : r ∈ db.links.rows) (hmax : r.id ≤ int64Max) {target route : Str}
    {status : ℤ} {increment : Bool} {e : ClickEvent}
    (he : e = message (redirectEvent site v (readBack db r) target route status) increment)
    (hroute : route ∈ lit "expired" :: routes) (hstatus : status = 410 ∨ status = r.redirectCode)
    (htexts : ∀ s ∈ texts e, validUtf8 s = true) (hzero : v.occurredAt.isZero = false)
    (hyear : 0 ≤ CsvCells.utcYear v.occurredAt ∧ CsvCells.utcYear v.occurredAt ≤ 9999) :
    ∃ m again, publishing e = some m ∧ decodeEvent m.body = some (received e) ∧
      (∀ d, RetryCopy m d → decodeEvent d.body = some (received e)) ∧
      marshalEvent (received e) = some again ∧
      decodeEvent again = some (received (received e)) ∧
      (decodeEvent again = some (received e) ↔
        scrubURL (scrubURL e.resolvedUrl) = scrubURL e.resolvedUrl ∧
          scrubURL (scrubURL e.referrer) = scrubURL e.referrer) ∧
      (Ordinary e.resolvedUrl → Ordinary e.referrer → decodeEvent again = some (received e)) := by
  have haccepted : (payloadOf e).accepted = true := by
    rw [he]
    exact accepted_redirectEvent hdb hr hroute hstatus hzero
  obtain ⟨written, hsendable⟩ := sendable_redirectEvent hdb hr hmax he hstatus htexts hyear
  obtain ⟨body, hbody, hdecoded⟩ :=
    Option.bind_eq_some_iff.mp (decodeEvent_marshalEvent hsendable haccepted)
  obtain ⟨again, hagain, hredecoded⟩ :=
    Option.bind_eq_some_iff.mp (decodeEvent_marshalEvent hsendable.received haccepted)
  have hsame := received_eq_iff e
  rw [← Option.some.injEq, ← hredecoded] at hsame
  refine ⟨_, again, congrArg (Option.map _) hbody, hdecoded, ?_, hagain, hredecoded, hsame, ?_⟩
  · intro d hd
    rw [hd.body]
    exact hdecoded
  · intro hresolved hreferrer
    exact hsame.mpr ⟨scrubURL_ordinary hresolved, scrubURL_ordinary hreferrer⟩

/-! ## Two visits to one link -/

def row : LinkRow := { sampleLink with expiresAt := some LinkEditor.newYear }

def visitFrom (referer : Str) (h : referer.all HttpRequest.headerByte = true) : Visit :=
  { visit 1 with
    request := { (visit 1).request with
      referer := referer
      headers := by
        intro value hvalue
        simp only [List.mem_cons, List.not_mem_nil, or_false] at hvalue
        rcases hvalue with rfl | rfl | rfl | rfl
        · rfl
        · rfl
        · decide
        · exact h } }

def click (v : Visit) : ClickEvent :=
  message (redirectEvent site v (readBack LinkEditor.expiring.db row) row.targetUrl (lit "default")
    302) true

/-- A visitor comes from a page whose address carries a query. -/
theorem wire_format_agreed_search : ∃ m again,
    publishing (click (visitFrom (lit "https://u:p@a.example/x?q=1") (by decide))) = some m ∧
      (decodeEvent m.body).map (·.referrer) = some (lit "https://a.example/x") ∧
      decodeEvent again = decodeEvent m.body := by
  obtain ⟨m, again, hm, hdecoded, -, -, -, hsame, -⟩ :=
    @wire_format_agreed site (visitFrom (lit "https://u:p@a.example/x?q=1") (by decide)) _ row
      LinkEditor.intact_expiring (List.mem_singleton.mpr rfl) (by decide) row.targetUrl
      (lit "default") 302 true _ rfl (by decide) (Or.inr rfl) (by decide +kernel) (by decide)
      (by decide)
  refine ⟨m, again, hm, ?_, ?_⟩
  · rw [hdecoded]
    decide +kernel
  · rw [hdecoded]
    exact hsame.mpr ⟨by decide +kernel, by decide +kernel⟩

/-- What is scrubbed of this referrer reads as an authority with a user again, and a click after
the year 9999 is no message at all. -/
theorem wire_format_rescrubbed :
    Intact LinkEditor.expiring.db ∧ row ∈ LinkEditor.expiring.db.links.rows ∧
      (∀ s ∈ texts (click (visitFrom (lit "//u@//v@x/y") (by decide))), validUtf8 s = true) ∧
      (∃ m got again last,
        publishing (click (visitFrom (lit "//u@//v@x/y") (by decide))) = some m ∧
        decodeEvent m.body = some got ∧ marshalEvent got = some again ∧
        decodeEvent again = some last ∧ last ≠ got) ∧
      marshalEvent (click { visit 1 with occurredAt := ⟨253402300800 * GoTime.second⟩ }) =
        none := by
  refine ⟨LinkEditor.intact_expiring, List.mem_singleton.mpr rfl, by decide +kernel, ?_, ?_⟩
  · have hsent : ((publishing (click (visitFrom (lit "//u@//v@x/y") (by decide)))).bind fun m =>
        (decodeEvent m.body).bind fun got => (marshalEvent got).bind fun again =>
          (decodeEvent again).map fun last => (got.referrer, last.referrer)) =
        some (lit "//v@x/y", lit "//x/y") := by decide +kernel
    obtain ⟨m, hm, hsent⟩ := Option.bind_eq_some_iff.mp hsent
    obtain ⟨got, hgot, hsent⟩ := Option.bind_eq_some_iff.mp hsent
    obtain ⟨again, hagain, hsent⟩ := Option.bind_eq_some_iff.mp hsent
    obtain ⟨last, hlast, hreferrers⟩ := Option.map_eq_some_iff.mp hsent
    refine ⟨m, got, again, last, hm, hgot, hagain, hlast, ?_⟩
    rintro rfl
    obtain ⟨hfirst, hsecond⟩ := Prod.mk.inj hreferrers
    exact absurd (hfirst.symm.trans hsecond) (by decide)
  · have hwritten : (GoTime.formatRFC3339 ⟨253402300800 * GoTime.second⟩) = none := by
      decide +kernel
    rw [marshalEvent, encodePayload]
    exact congrArg (Option.map _) (congrArg (Option.map _) hwritten)

end WireFormat
