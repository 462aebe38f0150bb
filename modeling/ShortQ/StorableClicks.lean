import ShortQ.AuditLog
import ShortQ.CachedHits
import ShortQ.PersistencePaths

/-! # Which clicks the tables take

The event of `redirectEvent` against the columns of `clicks`. -/
namespace StorableClicks

open AuditLog (text_plain varchar_of_text)
open ClickBatch
open ClickStore
open ClickWire
open GoText
open GoUrl
open HttpRequest
open JsonValues
open LinkWrites (readBack)
open Models
open RedirectAccounts (message routes)
open RedirectEvents
open RedirectTargets
open Runes
open Schema
open Transaction (Script)
open UrlEscapes
open UrlQuery
open WireFormat
open WrittenLinks (Intact)

/-! ## What the columns always take -/

theorem text_bytes {r : Rune} (h : Whole r) (hzero : 0 ∉ r.bytes) :
    text r.bytes = some r.bytes := by
  have hbytes : bytesOf [r] = r.bytes := by simp [bytesOf]
  refine text_self_iff.mpr ⟨hbytes ▸ valid_bytesOf (by simpa using h), hzero⟩

theorem text_flatMap {f : Rune → Str} {rs : List Rune} (h : ∀ r ∈ rs, text (f r) = some (f r)) :
    text (rs.flatMap f) = some (rs.flatMap f) := by
  induction rs with
  | nil => rfl
  | cons r rs ih =>
    have hfirst := text_self_iff.mp (h r List.mem_cons_self)
    have hrest := text_self_iff.mp (ih fun q hq => h q (List.mem_cons_of_mem r hq))
    rw [List.flatMap_cons, text_self_iff]
    refine ⟨valid_append hfirst.1 hrest.1, fun hmem => ?_⟩
    exact (List.mem_append.mp hmem).elim hfirst.2 hrest.2

/-- The upper case of a header value is a text. -/
theorem text_toUpper (letters : Letters) {s : Str} (h : 0 ∉ s) :
    text (letters.toUpper s) = some (letters.toUpper s) := by
  refine text_flatMap fun r hr => ?_
  have hreplaced : text [0xEF, 0xBF, 0xBD] = some [0xEF, 0xBF, 0xBD] := by decide
  rcases whole_or_invalid s r hr with hnone | hwhole
  · rw [hnone]
    exact hreplaced
  · have hown : 0 ∉ r.bytes := fun hmem => h (by
      rw [← bytesOf_runes s]
      exact List.mem_flatMap.mpr ⟨r, hr, hmem⟩)
    cases hvalue : r.value with
    | none => exact hreplaced
    | some v =>
      dsimp only
      split
      · unfold upperRune
        rw [hvalue]
        dsimp only
        split
        · rename_i hletter
          simp only [Bool.and_eq_true, decide_eq_true_eq] at hletter
          have hsmall : ∀ n : Fin 128, 97 ≤ n.val → text [UInt8.ofNat (n.val - 32)] =
              some [UInt8.ofNat (n.val - 32)] := by decide +kernel
          exact hsmall ⟨v, by omega⟩ hletter.1
        split
        · decide
        split
        · decide
        · exact text_bytes hwhole hown
      · obtain ⟨q, hq, hbytes, hzero⟩ := letters.single v
        rw [← hbytes] at hzero ⊢
        exact text_bytes hq hzero

theorem bpchar_country (letters : Letters) (r : Request) :
    bpchar 2 (countryFromRequest letters r) ≠ none := by
  have hzero : 0 ∉ trimSpace r.ipCountry := by
    intro hmem
    have hheader := List.all_eq_true.mp (r.headers r.ipCountry (by simp)) 0
      ((trimSpace_sublist r.ipCountry).subset hmem)
    revert hheader
    decide
  unfold countryFromRequest
  dsimp only
  split
  · rename_i hlength
    have htext := text_toUpper letters hzero
    have hshort := length_runes_le (letters.toUpper (trimSpace r.ipCountry))
    rw [hlength] at hshort
    rw [bpchar, varchar_of_text htext hshort]
    exact Option.some_ne_none _
  · decide

/-- The names of the traits are short. -/
theorem varchar_traits (letters : Letters) (ua : Str) :
    varchar 80 (clientTraits letters ua).browser = some (clientTraits letters ua).browser ∧
    varchar 80 (clientTraits letters ua).os = some (clientTraits letters ua).os ∧
    varchar 32 (clientTraits letters ua).device = some (clientTraits letters ua).device := by
  refine ⟨?_, ?_, ?_⟩
  all_goals
    unfold clientTraits
    dsimp only
    repeat' split
    all_goals decide

theorem hexDigit_brace : ∀ d < 16, JsonText.hexDigit d ≠ 123 := by decide

/-- A drawn event id is read as a UUID. -/
theorem uuid_newEventID (value : Fin 16 → UInt8) :
    ∃ u, nullableUuid (newEventID value) = some (some u) := by
  unfold newEventID
  dsimp only
  generalize Function.update (Function.update value 6 _) 8 _ = w
  have hpair (left n : ℕ) (b : UInt8) (rest : Str) :
      uuidBytes (left + 1) n
          (JsonText.hexDigit (b.toNat / 16) :: JsonText.hexDigit (b.toNat % 16) :: rest) =
        uuidBytes left (n * 256 + (unhex (JsonText.hexDigit (b.toNat / 16))).toNat * 16 +
          (unhex (JsonText.hexDigit (b.toNat % 16))).toNat)
          (if left % 2 = 0 && 0 < left && rest.head? = some 45 then rest.tail else rest) := by
    have hb := b.toNat_lt
    have hhigh := (hexDigit_spec (b.toNat / 16) (by omega)).1
    have hlow := (hexDigit_spec (b.toNat % 16) (by omega)).1
    rw [uuidBytes, hhigh, hlow]
    rfl
  have hdash (b : UInt8) : JsonText.hexDigit (b.toNat / 16) ≠ 45 :=
    (hexDigit_spec (b.toNat / 16) (by have := b.toNat_lt; omega)).2
  have hbrace (b : UInt8) : JsonText.hexDigit (b.toNat / 16) ≠ 123 :=
    hexDigit_brace (b.toNat / 16) (by have := b.toNat_lt; omega)
  simp [nullableUuid, uuid, hexBytes, hpair, hdash, hbrace, uuidBytes]

/-! ## Destinations are texts -/

theorem ascii_escape {mode : Mode}
    (hmode : mode = .queryComponent ∨ mode = .userPassword ∨ mode = .fragment) :
    ∀ c, ∀ b ∈ escapeByte mode c, b < 128 := by
  have halnum : ∀ b : UInt8, isAlnum b = true → b < 128 := forall_byte (by decide +kernel)
  rcases hmode with rfl | rfl | rfl
  · exact forall_escapeByte (fun _ => by decide) (by decide) halnum (by decide)
  · exact forall_escapeByte (fun h => by cases h) (by decide) halnum (by decide)
  · exact forall_escapeByte (fun h => by cases h) (by decide) halnum (by decide)

theorem valid_escape {mode : Mode}
    (hmode : mode = .queryComponent ∨ mode = .userPassword ∨ mode = .fragment) (s : Str) :
    validUtf8 (escape mode s) = true :=
  valid_ascii fun b hb => forall_escape (ascii_escape hmode) s b hb

theorem valid_Encode (values : Values) : validUtf8 (Values.Encode values) = true := by
  refine valid_ascii fun b hb => ?_
  rcases mem_joined hb with rfl | ⟨piece, hpiece, hmem⟩
  · decide
  · obtain ⟨pair, -, rfl⟩ := List.mem_map.mp hpiece
    rcases List.mem_append.mp hmem with hkey | hvalue
    · exact forall_escape (ascii_escape (Or.inl rfl)) pair.1 b hkey
    · rcases List.mem_cons.mp hvalue with rfl | hvalue
      · decide
      · exact forall_escape (ascii_escape (Or.inl rfl)) pair.2 b hvalue

theorem valid_userString (user : Str × Option Str) : validUtf8 (userString user) = true := by
  have hescape := valid_escape (Or.inr (Or.inl rfl))
  unfold userString
  split
  · rfl
  · rfl
  · exact hescape _
  · exact valid_append (valid_append (hescape _) (by decide)) (hescape _)

theorem valid_authority (u : URL) : validUtf8 u.authority = true := by
  have hhost : validUtf8 (escape .host u.host) = true :=
    valid_ascii fun b hb => (forall_escape (plain_escape (Or.inl rfl)) u.host b hb).1
  unfold URL.authority
  split
  · rfl
  split
  · rfl
  · refine valid_append (valid_append ?_ ?_) hhost
    · split
      · decide
      · rfl
    · cases u.user with
      | none => rfl
      | some user => exact valid_append (valid_userString user) (by decide)

theorem valid_EscapedFragment (u : URL) : validUtf8 u.EscapedFragment = true := by
  have hencoded : ∀ b : UInt8, validEncoded .fragment [b] = true → b < 128 :=
    forall_byte (by decide +kernel)
  unfold URL.EscapedFragment
  split
  · rename_i hraw
    simp only [Bool.and_eq_true, decide_eq_true_eq] at hraw
    refine valid_ascii fun b hb => hencoded b ?_
    have hall := List.all_eq_true.mp hraw.1.2 b hb
    simpa [validEncoded] using hall
  · exact valid_escape (Or.inr (Or.inr rfl)) _

/-- A URL with another query is written as a text. -/
theorem valid_String {u : URL} (hscheme : Plain u.scheme) (hpart : validUtf8 u.opaquePart = true)
    (hquery : validUtf8 u.rawQuery = true) : validUtf8 u.String = true := by
  have hpath : validUtf8 u.EscapedPath = true :=
    valid_ascii fun b hb => (plain_EscapedPath u b hb).1
  have hscheme' : validUtf8 u.scheme = true := valid_ascii fun b hb => (hscheme b hb).1
  have hmark (p : Prop) [Decidable p] {s : Str} (hs : validUtf8 s = true) :
      validUtf8 (if p then s else []) = true := by
    split
    · exact hs
    · rfl
  have hcons {b : UInt8} (hb : b < 0x80) {s : Str} (hs : validUtf8 s = true) :
      validUtf8 (b :: s) = true := (valid_around hb [] s).trans hs
  unfold URL.String
  dsimp only
  refine valid_append (valid_append (valid_append ?_ ?_) (hmark _ (hcons (by decide) hquery))) ?_
  · split
    · rfl
    · exact valid_append hscheme' (by decide)
  · split
    · exact hpart
    · refine valid_append (valid_append (valid_authority u) ?_) hpath
      split
      · decide
      · exact hmark _ (by decide)
  · split
    · rfl
    · exact hcons (by decide) (valid_EscapedFragment u)

theorem valid_mergeTargetQuery {limit : Option ℕ} {utm : AList fun _ : Str => Str} {raw : Str}
    {l : Link} {inbound : Values} (h : validUtf8 raw = true) :
    validUtf8 (mergeTargetQuery limit utm raw l inbound) = true := by
  unfold mergeTargetQuery
  cases hparse : Parse raw with
  | none => exact h
  | some u =>
    have htext := textUrl_of_Parse hparse
    exact valid_String htext.scheme (htext.valid h) (valid_Encode _)

theorem valid_destination {site : Site} {v : Visit} {l : Link}
    (htexts : ∀ s ∈ [l.targetUrl, l.iosUrl, l.androidUrl], validUtf8 s = true)
    (hgeo : ∀ g ∈ l.geoTargets, validUtf8 g.targetUrl = true) :
    validUtf8 (destination site v l).1 = true := by
  refine valid_mergeTargetQuery ?_
  change validUtf8 (resolveTarget site.letters l (countryFromRequest site.letters v.request)
    v.request.userAgent).1 = true
  unfold resolveTarget
  split
  · rename_i geo hfound
    exact hgeo geo (List.mem_of_find?_eq_some hfound)
  · dsimp only
    split
    · exact htexts _ (by simp)
    split
    · exact htexts _ (by simp)
    · exact htexts _ (by simp)

/-! ## The columns that may refuse -/

/-- The UTM values of a destination, read from its query. -/
def utmTexts (site : Site) (target : Str) : List Str :=
  let values := (Parse target).elim ∅ fun u => (ParseQuery site.limit u.rawQuery).1
  [Values.Get values (lit "utm_source"), Values.Get values (lit "utm_medium"),
    Values.Get values (lit "utm_campaign")]

/-- What of the request and of the destination fits into the columns. -/
structure Fits (site : Site) (r : Request) (target : Str) : Prop where
  method : r.method.length ≤ 10
  userAgent : validUtf8 r.userAgent = true
  referer : validUtf8 r.referer = true
  host : varchar 255 ((Parse r.referer).elim [] Hostname) ≠ none
  utm : ∀ s ∈ utmTexts site target, varchar 255 s ≠ none

theorem text_header (r : Request) {s : Str}
    (h : s ∈ [r.connectingIP, r.ipCountry, r.userAgent, r.referer]) :
    text s ≠ none ↔ validUtf8 s = true := by
  have hzero : 0 ∉ s := by
    intro hmem
    have hheader := List.all_eq_true.mp (r.headers s h) 0 hmem
    revert hheader
    decide
  simp [text, hzero]

/-- A method has no blanks that could be dropped. -/
theorem varchar_method (r : Request) : varchar 10 r.method ≠ none ↔ r.method.length ≤ 10 := by
  have htoken := List.all_eq_true.mp r.token.2
  have hplain : Plain r.method := fun b hb => by
    have hbyte : ∀ b : UInt8, tokenByte b = true → b < 128 ∧ b ≠ 0 :=
      forall_byte (by decide +kernel)
    exact hbyte b (htoken b hb)
  have hlength : (runes r.method).length = r.method.length := by
    rw [runes_plain hplain, List.length_map]
  constructor
  · intro h
    by_contra hlong
    refine h ?_
    have hdrop : ¬ ((runes r.method).drop 10).all (·.bytes = [32]) = true := by
      intro hall
      have hsome : (runes r.method).drop 10 ≠ [] := by
        intro hnil
        have hzero := congrArg List.length hnil
        rw [List.length_drop, hlength, List.length_nil] at hzero
        omega
      obtain ⟨q, hq⟩ := List.exists_mem_of_ne_nil _ hsome
      have hblank := List.all_eq_true.mp hall q hq
      have hmem := List.mem_of_mem_drop hq
      rw [runes_plain hplain] at hmem
      obtain ⟨b, hb, rfl⟩ := List.mem_map.mp hmem
      have hspace : b = 32 := by simpa [single] using hblank
      have hnot := htoken b hb
      rw [hspace] at hnot
      revert hnot
      decide
    rw [varchar, if_neg (by simp [text_plain hplain]), if_neg (by omega), if_neg hdrop]
  · intro h
    rw [varchar_of_text (text_plain hplain) (by omega)]
    exact Option.some_ne_none _

theorem varchar_route : ∀ route ∈ lit "expired" :: routes, varchar 24 route = some route := by
  decide +kernel

theorem smallint_status {db : Database} {r : LinkRow} (hdb : Intact db) (hr : r ∈ db.links.rows)
    {status : ℤ} (hstatus : status = 410 ∨ status = r.redirectCode) :
    smallint status = some status := by
  obtain ⟨hlow, hhigh⟩ := code_of_intact hdb hr hstatus
  rw [smallint, if_pos]
  simp only [Bool.and_eq_true, decide_eq_true_eq]
  omega

section

variable {site : Site} {v : Visit} {db : Database} {r : LinkRow} {target route : Str} {status : ℤ}
  {increment : Bool}

/-- An event that is taken fits. -/
theorem fits_of_storable (h : Storable (message (redirectEvent site v (readBack db r) target route
    status) increment)) : Fits site v.request target := by
  obtain ⟨row, hrow⟩ := Option.isSome_iff_exists.mp h
  have htaken := clickRow_iff.mp hrow
  have hsome {o : Option Str} {x : Str} (ho : o = some x) : o ≠ none := ho ▸ Option.some_ne_none x
  refine ⟨(varchar_method v.request).mp (hsome htaken.method),
    (text_header v.request (by simp)).mp (hsome htaken.userAgent),
    (text_header v.request (by simp)).mp (hsome htaken.referrer), hsome htaken.referrerHost, ?_⟩
  simp only [utmTexts, List.forall_mem_cons]
  exact ⟨hsome htaken.utmSource, hsome htaken.utmMedium, hsome htaken.utmCampaign, by simp⟩

/-- Whatever else the event holds, its column takes. -/
theorem storable_of_fits (hdb : Intact db) (hr : r ∈ db.links.rows)
    (htarget : validUtf8 target = true) (hroute : route ∈ lit "expired" :: routes)
    (hstatus : status = 410 ∨ status = r.redirectCode)
    (htime : (timestamptz v.occurredAt).isSome = true) (h : Fits site v.request target) :
    Storable (message (redirectEvent site v (readBack db r) target route status) increment) := by
  obtain ⟨hbrowser, hos, hdevice⟩ := varchar_traits site.letters v.request.userAgent
  have hip := visitorIP_short v.request
  obtain ⟨u, hu⟩ := uuid_newEventID v.value
  obtain ⟨stamp, hstamp⟩ := Option.isSome_iff_exists.mp htime
  obtain ⟨country, hcountry⟩ := Option.ne_none_iff_exists'.mp
    (bpchar_country site.letters v.request)
  obtain ⟨method, hmethod⟩ := Option.ne_none_iff_exists'.mp
    ((varchar_method v.request).mpr h.method)
  obtain ⟨userAgent, huserAgent⟩ := Option.ne_none_iff_exists'.mp
    ((text_header v.request (by simp)).mpr h.userAgent)
  obtain ⟨referrer, hreferrer⟩ := Option.ne_none_iff_exists'.mp
    ((text_header v.request (by simp)).mpr h.referer)
  obtain ⟨host, hhost⟩ := Option.ne_none_iff_exists'.mp h.host
  have hutm := h.utm
  simp only [utmTexts, List.forall_mem_cons] at hutm
  obtain ⟨hsource, hmedium, hcampaign, -⟩ := hutm
  obtain ⟨source, hsource⟩ := Option.ne_none_iff_exists'.mp hsource
  obtain ⟨medium, hmedium⟩ := Option.ne_none_iff_exists'.mp hmedium
  obtain ⟨campaign, hcampaign⟩ := Option.ne_none_iff_exists'.mp hcampaign
  refine Option.isSome_iff_exists.mpr ⟨⟨r.id, some u, visitorIP v.request, userAgent, referrer,
    country, method, status, scrubURL target, route,
    (clientTraits site.letters v.request.userAgent).browser,
    (clientTraits site.letters v.request.userAgent).os,
    (clientTraits site.letters v.request.userAgent).device,
    (clientTraits site.letters v.request.userAgent).bot, host, source, medium, campaign, stamp⟩,
    clickRow_iff.mpr ?_⟩
  constructor
  · exact rfl
  · exact hu
  · simp only [message, redirectEvent]
    exact varchar_of_text (text_plain hip.2) ((length_runes_le _).trans (hip.1.trans (by decide)))
  · exact huserAgent
  · exact hreferrer
  · simp only [message, redirectEvent]
    exact hcountry
  · exact hmethod
  · exact smallint_status hdb hr hstatus
  · exact (congrArg text (PersistencePaths.analyticsResolvedURL_eq target)).trans
      (text_scrubURL htarget)
  · exact varchar_route route hroute
  · exact hbrowser
  · exact hos
  · exact hdevice
  · exact rfl
  · exact hhost
  · exact hsource
  · exact hmedium
  · exact hcampaign
  · exact hstamp

end

/-- The event that a redirect leaves behind, as `Record` passes it on. -/
def handed : Handled → Option ClickEvent
  | .recording event increment _ _ => some (message event increment)
  | .replied _ => none

/-- Where the visitor is sent, or would be after the link's end. -/
def asked (site : Site) (v : Visit) (l : Link) : Str :=
  if RedirectHandler.linkExpired v.expiryAt l then l.expiredUrl else (destination site v l).1

theorem handed_cases {site : Site} {v : Visit} {l : Link} {e : ClickEvent}
    (h : handed (redirectSlug site v (.ok l)) = some e) :
    ∃ route status increment, route ∈ lit "expired" :: routes ∧
      (status = 410 ∨ status = l.redirectCode) ∧
      e = message (redirectEvent site v l (asked site v l) route status) increment := by
  unfold redirectSlug at h
  dsimp only at h
  split at h
  · cases h
  split at h
  · cases h
  split at h
  · rename_i hexpired
    cases h
    refine ⟨_, _, false, List.mem_cons_self, Or.inl rfl, ?_⟩
    rw [asked, if_pos hexpired]
  · rename_i hlive
    cases h
    refine ⟨_, _, true, List.mem_cons_of_mem _ (RedirectAccounts.route_resolveTarget site.letters l
      (countryFromRequest site.letters v.request) v.request.userAgent), Or.inr rfl, ?_⟩
    rw [asked, if_neg hlive]
    rfl

/-- The event's data is refused nowhere: each column takes its value, `RecordClick` succeeds while
the link is stored, and `RecordClicks` takes a batch of which the other events are storable too. -/
structure Taken (e : ClickEvent) : Prop where
  columns : (clickRow e e.occurredAt).isSome = true ∧ (rollupKey e e.occurredAt).isSome = true
  single : ∀ (io : Script) (db : Database) (maxClicks : Option ℤ), io.Healthy →
    LinkExists db e.linkId → (recordClick io db e e.increment maxClicks).1.2 = none
  batch : ∀ (io : Script) (db : Database) (events : List ClickEvent), io.Healthy →
    (∀ x ∈ events, x.occurredAt.isZero = false ∧ LinkUnlimited db x.linkId) →
    (∀ x ∈ events, x ≠ e → Storable x) → (recordClicks io db events).1.2 = none

theorem recordClick_taken {io : Script} {db : Database} {e : ClickEvent} {maxClicks : Option ℤ}
    (hio : io.Healthy) (ht : e.occurredAt.isZero = false) (hstorable : Storable e)
    (hlink : LinkExists db e.linkId) : (recordClick io db e e.increment maxClicks).1.2 = none := by
  obtain ⟨row, hrow⟩ := Option.isSome_iff_exists.mp hstorable
  cases hi : db.clicks.insert row with
  | none => rw [recordClick_duplicate hio ht hrow hi]
  | some clicks =>
    by_cases ha : e.increment = true → 0 < db.links.affected (underLimit e.linkId maxClicks)
    · rw [recordClick_new hio ht hrow hi hlink ha]
    · push Not at ha
      rw [ha.1, recordClick_limited hio ht hrow hi hlink (by omega)]

theorem taken_of_storable {e : ClickEvent} (ht : e.occurredAt.isZero = false)
    (hstorable : Storable e) : Taken e := by
  constructor
  · obtain ⟨row, hrow⟩ := Option.isSome_iff_exists.mp hstorable
    exact ⟨hstorable, by rw [rollupKey_of_clickRow hrow]; rfl⟩
  · intro io db maxClicks hio hlink
    exact recordClick_taken hio ht hstorable hlink
  · intro io db events hio hevents hothers
    rw [recordClicks_succeeds_iff hio,
      recordBatch_succeeds_iff hio fun x hx => (hevents x hx).1]
    intro earlier x later heq
    have hx : x ∈ events := heq ▸ List.mem_append_right _ List.mem_cons_self
    have hunlimited := (hevents x hx).2
    refine ⟨?_, fun _ => ⟨?_, fun _ => hunlimited⟩⟩
    · by_cases hsame : x = e
      · rw [hsame]
        exact hstorable
      · exact hothers x hx hsame
    · obtain ⟨found, hfound, -⟩ := hunlimited
      exact Option.isSome_iff_exists.mpr ⟨found, hfound⟩

/-- The tables take the click of a stored link exactly when the request and the destination fit. -/
theorem clicks_storable_iff {site : Site} {v : Visit} {db : Database} {r : LinkRow}
    {e : ClickEvent} (hdb : Intact db) (hr : r ∈ db.links.rows) (hmax : r.id ≤ int64Max)
    (htenant : ∀ t, r.tenantId = some t → -int64Max - 1 ≤ t ∧ t ≤ int64Max)
    (he : handed (redirectSlug site v (.ok (readBack db r))) = some e)
    (htime : (timestamptz v.occurredAt).isSome = true) (hclock : v.occurredAt.isZero = false) :
    Taken e ↔ Fits site v.request (asked site v (readBack db r)) := by
  have hid : -int64Max - 1 ≤ r.id ∧ r.id ≤ int64Max := by
    have hpositive := (hdb.numbered r hr).1
    unfold int64Max at hmax ⊢
    omega
  obtain ⟨-, -, -, htexts, hgeo⟩ := CachedHits.columns_of_written (hdb.written r hr) hid htenant
  have htarget : validUtf8 (asked site v (readBack db r)) = true := by
    unfold asked
    split
    · exact htexts _ (by simp)
    · refine valid_destination (fun s hs => htexts s ?_) fun g hg => (hgeo g hg).2
      simp only [List.mem_cons, List.not_mem_nil, or_false] at hs ⊢
      tauto
  obtain ⟨route, status, increment, hroute, hstatus, rfl⟩ := handed_cases he
  constructor
  · intro h
    exact fits_of_storable h.columns.1
  · intro h
    exact taken_of_storable hclock (storable_of_fits hdb hr htarget hroute hstatus htime h)

/-- A visit to the link of `campaign`, with parameters of its own and from another page. -/
def forwarded : Visit :=
  { RedirectAccounts.visit 1 with
    request := { (RedirectAccounts.visit 1).request with
      userAgent := lit "Mozilla/5.0 (X11; Linux x86_64) Firefox/140.0"
      referer := lit "https://news.example/today?page=2"
      rawQuery := lit "ref=42&utm_campaign=spring"
      headers := by decide } }

theorem clicks_storable_forwarded : ∃ e,
    handed (redirectSlug RedirectAccounts.site forwarded
      (.ok (readBack PartialEdits.campaign.db PartialEdits.campaignRow))) = some e ∧ Taken e := by
  have hsome : (handed (redirectSlug RedirectAccounts.site forwarded
      (.ok (readBack PartialEdits.campaign.db PartialEdits.campaignRow)))).isSome = true := by
    decide +kernel
  obtain ⟨e, he⟩ := Option.isSome_iff_exists.mp hsome
  refine ⟨e, he, (clicks_storable_iff PartialEdits.intact_campaign (List.mem_singleton.mpr rfl)
    (by decide) (by decide) he (by decide) (by decide)).mpr ⟨by decide, by decide, by decide,
      by decide +kernel, ?_⟩⟩
  decide +kernel

/-- The host of a referrer may be longer than its column. -/
theorem clicks_refused_host : ∃ e,
    handed (redirectSlug RedirectAccounts.site
      (visitFrom (lit "https://" ++ List.replicate 256 97) (by decide +kernel))
      (.ok (readBack LinkEditor.expiring.db row))) = some e ∧
    clickRow e e.occurredAt = none ∧
    (ClickStore.recordClick {} LinkEditor.expiring.db e e.increment none).1.2 = some .schema := by
  have hrefused : ((handed (redirectSlug RedirectAccounts.site
      (visitFrom (lit "https://" ++ List.replicate 256 97) (by decide +kernel))
      (.ok (readBack LinkEditor.expiring.db row)))).map fun e =>
        (e.occurredAt.isZero, (clickRow e e.occurredAt).isSome)) = some (false, false) := by
    decide +kernel
  obtain ⟨e, he, hpair⟩ := Option.map_eq_some_iff.mp hrefused
  obtain ⟨htime, hnone⟩ := Prod.mk.inj hpair
  have hrow : clickRow e e.occurredAt = none := Option.not_isSome_iff_eq_none.mp (by simp [hnone])
  refine ⟨e, he, hrow, ?_⟩
  rw [ClickStore.recordClick_unstorable ClickBatch.healthy_default htime hrow]

end StorableClicks
