import ShortQ.BrowserNumbers
import ShortQ.FormControls
import ShortQ.PartialEdits

/-! # The link editor

`editLink` fills a form with a link, and `linkPayloadFromForm` makes a PATCH of the form. A user who
changes nothing sends the link through the controls and back. -/
namespace LinkEditor

open AcceptedLinks
open AuditLog
open AuditedHandlers
open BrowserNumbers
open BulkEdits
open CsvCells
open CsvLinks (geoCell geoTargets GeoTarget.json)
open CsvTags
open FormControls
open GoText
open GoTime (Time)
open Hosts
open JsonValues
open LinkCalls
open LinkEdits
open LinkHandlers
open LinkPayload
open LinkScopes
open LinkStore
open LinkValidation
open LinkWrites
open Models
open PartialEdits
open Runes
open Schema
open Transaction
open WriteSuccess
open WrittenLinks

/-- The controls of `editLinkForm`; a checkbox is checked or not. -/
structure Form where
  url : Str
  title : Str
  visibility : Str
  redirectCode : Str
  expiresAt : Str
  maxClicks : Str
  expiredUrl : Str
  iosUrl : Str
  androidUrl : Str
  geoTargets : Str
  tags : Str
  utmSource : Str
  utmMedium : Str
  utmCampaign : Str
  password : Str
  clearPassword : Bool
  forwardQuery : Bool
  deriving DecidableEq, Repr

/-- A limit as the page has it, a JavaScript number. -/
def limitText (m : ℤ) : Str := JsonText.integerText (m.sign * printed m.natAbs)

/-- `JSON.stringify` differs from `geoCell` in the escapes of `&`, `<` and `>`, which are read
alike. -/
def editLink (link : Link) : Form where
  url := urlControl link.targetUrl
  title := stripNewlines link.title
  visibility := select [lit "private", lit "department"]
    (if link.visibility = [] then lit "private" else link.visibility)
  redirectCode := select [lit "302", lit "307", lit "301", lit "308"]
    (JsonText.integerText (if link.redirectCode = 0 then 302 else link.redirectCode))
  expiresAt := link.expiresAt.elim [] fun t => dateControl ((toISOString t).take 16)
  maxClicks := link.maxClicks.elim [] fun m => if m = 0 then [] else limitText m
  expiredUrl := urlControl link.expiredUrl
  iosUrl := urlControl link.iosUrl
  androidUrl := urlControl link.androidUrl
  geoTargets := textarea (geoCell link.geoTargets)
  tags := stripNewlines (join (lit "; ") link.tags)
  utmSource := stripNewlines link.utmSource
  utmMedium := stripNewlines link.utmMedium
  utmCampaign := stripNewlines link.utmCampaign
  password := []
  clearPassword := false
  forwardQuery := link.forwardQuery

/-- A number of the payload in an integer field of the request. -/
def integer (raw : Str) : Option ℤ := (JsonText.scan raw).bind (intValue 0)

def expiryField (offset : Offset) (raw : Str) : Option Str :=
  if raw = [] then some [] else (datetimeLocal raw).map fun t => toISOString (offset.instant t)

/-- The number has the text that it was read from. -/
def limitField (raw : Str) : Option (Option ℤ) :=
  if raw = [] then some none else (integer raw).map some

def tagsField (raw : Str) : List Str :=
  if raw = [] then [] else ((raw.splitOn 59).map jsTrim).filter (· ≠ [])

def geoField (raw : Str) : Option (List GeoTarget) :=
  if raw = [] then some [] else if (geoTargets raw).2 then some (geoTargets raw).1 else none

/-- The payload of a change, as the server decodes it: none where the script throws or a number
does not fit. The form has no `utm_term` and no `utm_content`. -/
def linkPayloadFromForm (offset : Offset) (form : Form) : Option Payload := do
  let code ← integer (if form.redirectCode = [] then lit "302" else form.redirectCode)
  let expiresAt ← expiryField offset form.expiresAt
  let maxClicks ← limitField form.maxClicks
  let geoTargets ← geoField form.geoTargets
  some {
    url := some form.url
    title := some form.title
    visibility := some (if form.visibility = [] then lit "private" else form.visibility)
    redirectCode := some code
    forwardQuery := some form.forwardQuery
    expiredUrl := some form.expiredUrl
    iosUrl := some form.iosUrl
    androidUrl := some form.androidUrl
    utmSource := some form.utmSource
    utmMedium := some form.utmMedium
    utmCampaign := some form.utmCampaign
    expiresAt := some expiresAt
    maxClicks := maxClicks
    clearMaxClicks := maxClicks.isNone
    tags := some (tagsField form.tags)
    geoTargets := some geoTargets
    password := if form.password = [] then none else some form.password
    clearPassword := form.clearPassword }

/-! ## Tags -/

theorem stripNewlines_append (s t : Str) :
    stripNewlines (s ++ t) = stripNewlines s ++ stripNewlines t := List.filter_append ..

theorem join_cons (t next : Str) (rest : List Str) :
    join (lit "; ") (t :: next :: rest) = t ++ 59 :: 32 :: join (lit "; ") (next :: rest) := by
  change (List.intersperse (lit "; ") (t :: next :: rest)).flatten = _
  rw [List.intersperse_cons_cons]
  rfl

/-- The blank of the separator belongs to the tag after it. -/
theorem join_eq (t : Str) (rest : List Str) :
    stripNewlines (join (lit "; ") (t :: rest)) =
      joined (stripNewlines t :: rest.map fun s => 32 :: stripNewlines s) := by
  induction rest generalizing t with
  | nil =>
    have hone (sep x : Str) : join sep [x] = x := List.append_nil x
    rw [hone, List.map_nil]
    exact (hone _ _).symm
  | cons next rest ih =>
    have hcons : stripNewlines (59 :: 32 :: join (lit "; ") (next :: rest)) =
        59 :: 32 :: stripNewlines (join (lit "; ") (next :: rest)) := rfl
    have hfront (x : Str) (xs : List Str) : 32 :: joined (x :: xs) = joined ((32 :: x) :: xs) := by
      cases xs with
      | nil => rfl
      | cons y ys => rw [joined_cons, joined_cons, List.cons_append]
    rw [join_cons, stripNewlines_append, hcons, ih, hfront, List.map_cons, joined_cons]

theorem tagsField_eq (raw : Str) :
    tagsField raw = ((raw.splitOn 59).map jsTrim).filter (· ≠ []) := by
  unfold tagsField
  split
  · rename_i hnil
    rw [hnil]
    decide
  · rfl

/-- What the form makes of tags without the separator. -/
theorem tagsField_join {tags : List Str} (h : ∀ t ∈ tags, (59 : UInt8) ∉ t) :
    tagsField (stripNewlines (join (lit "; ") tags)) =
      (tags.map fun t => jsTrim (stripNewlines t)).filter (· ≠ []) := by
  rw [tagsField_eq]
  cases tags with
  | nil => decide
  | cons t rest =>
    have hnosep : ∀ p ∈ stripNewlines t :: rest.map fun s => 32 :: stripNewlines s,
        (59 : UInt8) ∉ p := by
      intro p hp hmem
      rcases List.mem_cons.mp hp with rfl | hp
      · exact h t List.mem_cons_self ((stripNewlines_sublist t).subset hmem)
      · obtain ⟨s, hs, rfl⟩ := List.mem_map.mp hp
        rcases List.mem_cons.mp hmem with heq | hmem
        · exact absurd heq (by decide)
        · exact h s (List.mem_cons_of_mem _ hs) ((stripNewlines_sublist s).subset hmem)
    have hblank : (jsTrim ∘ fun s => 32 :: stripNewlines s) =
        fun s => jsTrim (stripNewlines s) := by
      funext s
      exact jsTrim_space _
    rw [join_eq, joined_eq, List.splitOn_intercalate 59 hnosep (List.cons_ne_nil _ _),
      List.map_cons, List.map_map, hblank]
    rfl

theorem mem_tagsField {raw x : Str} (h : x ∈ tagsField raw) :
    ∃ p ∈ raw.splitOn 59, jsTrim p = x := by
  rw [tagsField_eq, List.mem_filter] at h
  exact List.mem_map.mp h.1

/-- A tag that the form gives back as it is. -/
structure PlainTag (t : Str) : Prop where
  separator : (59 : UInt8) ∉ t
  newline : (10 : UInt8) ∉ t ∧ (13 : UInt8) ∉ t
  trimmed : jsTrim t = t

theorem tagsField_plain {tags : List Str} (h : ∀ t ∈ tags, PlainTag t) (hne : ∀ t ∈ tags, t ≠ []) :
    tagsField (stripNewlines (join (lit "; ") tags)) = tags := by
  rw [tagsField_join fun t ht => (h t ht).separator]
  have hsame : (tags.map fun t => jsTrim (stripNewlines t)) = tags := by
    conv_rhs => rw [← List.map_id tags]
    apply List.map_congr_left
    intro t ht
    rw [stripNewlines_eq_self.mpr (h t ht).newline]
    exact (h t ht).trimmed
  rw [hsame, List.filter_eq_self]
  intro t ht
  simpa using hne t ht

/-- The store writes the tags of the form as they were exactly when each is plain and they were as
the store writes them. -/
theorem tags_kept_iff {tags : List Str} :
    normalizeTags (tagsField (stripNewlines (join (lit "; ") tags))) = tags ↔
      normalizeTags tags = tags ∧ ∀ t ∈ tags, PlainTag t := by
  constructor
  · intro h
    have hkept : ∀ t ∈ tags, Kept (tagsField (stripNewlines (join (lit "; ") tags))) t := by
      intro t ht
      rw [← h] at ht
      exact mem_normalizeTags.mp ht
    have hsep : ∀ t ∈ tags, (59 : UInt8) ∉ t := by
      intro t ht hmem
      obtain ⟨-, -, x, hx, rfl⟩ := hkept t ht
      obtain ⟨p, hp, rfl⟩ := mem_tagsField hx
      exact notMem_splitOn hp ((jsTrim_sublist p).subset ((trimSpace_sublist _).subset hmem))
    rw [tagsField_join hsep] at hkept
    have hsub (s : Str) : (trimSpace (jsTrim (stripNewlines s))).Sublist s :=
      (trimSpace_sublist _).trans ((jsTrim_sublist _).trans (stripNewlines_sublist s))
    have hcovered : ∀ t ∈ tags, ∃ s ∈ tags, trimSpace (jsTrim (stripNewlines s)) = t := by
      intro t ht
      obtain ⟨-, -, x, hx, hxt⟩ := hkept t ht
      obtain ⟨s, hs, rfl⟩ := List.mem_map.mp (List.mem_filter.mp hx).1
      exact ⟨s, hs, hxt⟩
    have hfixed := fixed_of_covered (fun s => (hsub s).length_le)
      (fun s => (hsub s).eq_of_length) hcovered
    refine ⟨?_, fun t ht => ?_⟩
    · rw [← h, normalizeTags_idem]
    · have hone := hfixed t ht
      rw [comp_fixed (h := fun s => jsTrim (stripNewlines s)) trimSpace_sublist
          (fun s => (jsTrim_sublist _).trans (stripNewlines_sublist s)),
        comp_fixed jsTrim_sublist stripNewlines_sublist, stripNewlines_eq_self] at hone
      exact ⟨hsep t ht, hone.1.1, hone.1.2⟩
  · rintro ⟨hnormal, hplain⟩
    rw [tagsField_plain hplain, hnormal]
    intro t ht
    rw [← hnormal] at ht
    exact (mem_normalizeTags.mp ht).1

theorem valid_intercalate {pieces : List Str}
    (h : validUtf8 (List.intercalate [59] pieces) = true) : ∀ p ∈ pieces, validUtf8 p = true := by
  induction pieces with
  | nil =>
    intro p hp
    cases hp
  | cons p rest ih =>
    cases rest with
    | nil =>
      intro q hq
      obtain rfl := List.mem_singleton.mp hq
      have hone : List.intercalate [59] [q] = q := List.append_nil q
      rw [hone] at h
      exact h
    | cons next rest =>
      have hcons := joined_cons p next rest
      rw [joined_eq, joined_eq] at hcons
      rw [hcons, validUtf8, runes_append_ascii (by decide), List.all_append, List.all_cons,
        Bool.and_eq_true, Bool.and_eq_true] at h
      intro q hq
      rcases List.mem_cons.mp hq with rfl | hq
      · exact h.1
      · exact ih h.2.2 q hq

theorem valid_join {tags : List Str} (h : ∀ t ∈ tags, validUtf8 t = true) :
    validUtf8 (join (lit "; ") tags) = true := by
  induction tags with
  | nil => rfl
  | cons t rest ih =>
    rw [List.forall_mem_cons] at h
    cases rest with
    | nil =>
      have hone : join (lit "; ") [t] = t := List.append_nil t
      rw [hone]
      exact h.1
    | cons next rest =>
      rw [join_cons]
      exact valid_append h.1 (valid_append (s := [59, 32]) (by decide) (ih h.2))

/-- The tags of the form are text. -/
theorem valid_tagsField {tags : List Str} (h : ∀ t ∈ tags, validUtf8 t = true) :
    ∀ x ∈ tagsField (stripNewlines (join (lit "; ") tags)), validUtf8 x = true := by
  intro x hx
  obtain ⟨p, hp, rfl⟩ := mem_tagsField hx
  apply valid_jsTrim
  have hpieces : validUtf8 (List.intercalate [59]
      ((stripNewlines (join (lit "; ") tags)).splitOn 59)) = true := by
    rw [List.intercalate_splitOn]
    exact valid_stripNewlines (valid_join h)
  exact valid_intercalate hpieces p hp

/-! ## The other fields -/

theorem integer_text (v : ℤ) : integer (JsonText.integerText v) =
    if -int64Max - 1 ≤ v ∧ v ≤ int64Max then some v else none := by
  have hscan := JsonText.scan_render (.number (some v)) (Nat.zero_le _)
  have hsame : JsonText.marshalled (.number (some v)) = .number (some v) := rfl
  rw [JsonText.render, hsame] at hscan
  rw [integer, hscan]
  rfl

theorem integerText_ne_nil (v : ℤ) : JsonText.integerText v ≠ [] := by
  obtain ⟨b, rest, htext, -⟩ := JsonText.integerText_opens v
  rw [htext]
  exact List.cons_ne_nil _ _

theorem geo_valid {db : Database} {r : LinkRow} (h : WrittenRow db r) :
    ∀ t ∈ (readBack db r).geoTargets,
      validUtf8 t.countryCode = true ∧ validUtf8 t.targetUrl = true := by
  obtain ⟨link, columns, hvalid, -, -, hgeo⟩ := h.settings
  intro t ht
  obtain ⟨g, hg, rfl⟩ := List.mem_map.mp ht
  rw [List.mem_mergeSort] at hg
  obtain ⟨given, hgiven, hrow⟩ := mem_mapM hgeo g hg
  have hiso := ((validateLink_none.mp hvalid).geo given hgiven).1
  simp only [geoRow, Option.bind_eq_bind, Option.bind_eq_some_iff] at hrow
  obtain ⟨code, hcode, url, hurl, hg⟩ := hrow
  cases hg
  rw [bpchar_iso hiso] at hcode
  cases hcode
  constructor
  · have htaken : ¬ text (country given) = none := by
      rw [text_iso hiso]
      exact Option.some_ne_none _
    exact valid_of_text htaken
  · have htaken : ¬ text (trimSpace given.targetUrl) = none := by
      rw [hurl]
      exact Option.some_ne_none _
    change validUtf8 url = true
    rw [text_some hurl]
    exact valid_of_text htaken

theorem geoField_geoCell {targets : List GeoTarget}
    (h : ∀ t ∈ targets, validUtf8 t.countryCode = true ∧ validUtf8 t.targetUrl = true) :
    geoField (textarea (geoCell targets)) = some targets := by
  have hne : geoCell targets ≠ [] := by
    obtain ⟨b, rest, htext, -⟩ := JsonText.render_opens (.array (targets.map GeoTarget.json))
    rw [geoCell, htext]
    exact List.cons_ne_nil _ _
  rw [textarea_of_notMem (notMem_geoCell targets), geoField, if_neg hne, geoTargets_geoCell h]
  rfl

/-- The expiry of the payload. -/
def expiryText (offset : Offset) (e : Option Time) : Str :=
  e.elim [] fun t => if 1 ≤ utcYear t ∧ utcYear t ≤ 9999 then
    toISOString (offset.instant (wholeMinute t)) else []

theorem expiryField_editLink (offset : Offset) (link : Link) :
    expiryField offset (editLink link).expiresAt = some (expiryText offset link.expiresAt) := by
  unfold editLink expiryText
  cases link.expiresAt with
  | none => rfl
  | some t =>
    dsimp only [Option.elim_some]
    have hdate := datetimeLocal_take t
    by_cases hyear : 1 ≤ utcYear t ∧ utcYear t ≤ 9999
    · rw [if_pos hyear] at hdate ⊢
      have hne : (toISOString t).take 16 ≠ [] := by
        intro hnil
        rw [hnil] at hdate
        cases hdate
      rw [dateControl, hdate, Option.isSome_some, if_pos rfl, expiryField, if_neg hne, hdate]
      rfl
    · rw [if_neg hyear] at hdate ⊢
      rw [dateControl, hdate]
      rfl

theorem instant_seconds (offset : Offset) (t : Time) :
    (offset.instant (wholeMinute t)).nanos % GoTime.second = 0 := by
  have hunit : GoTime.second = 1000000000 := rfl
  unfold Offset.instant wholeMinute
  rw [hunit]
  dsimp only
  omega

theorem micros_of_seconds {t : Time} (h : t.nanos % GoTime.second = 0) :
    (⟨micros t * 1000⟩ : Time) = t := by
  have hunit : GoTime.second = 1000000000 := rfl
  rw [hunit] at h
  cases t with
  | mk nanos =>
    congr 1
    unfold micros
    dsimp only at h ⊢
    omega

theorem copiedTime_expiryText {offset : Offset} {t : Time}
    (hyear : 1 ≤ utcYear t ∧ utcYear t ≤ 9999)
    (hsent : 0 ≤ utcYear (offset.instant (wholeMinute t)) ∧
      utcYear (offset.instant (wholeMinute t)) ≤ 9999) :
    copiedTime none (some (expiryText offset (some t))) =
      some (offset.instant (wholeMinute t)) := by
  have hparse := parse_toISOString (instant_seconds offset t)
  rw [if_pos hsent] at hparse
  have hne : ¬ trimSpace (toISOString (offset.instant (wholeMinute t))) = [] := by
    rw [trimSpace_toISOString hsent]
    intro hnil
    rw [hnil] at hparse
    cases hparse
  rw [expiryText, Option.elim_some, if_pos hyear, copiedTime, if_neg hne, hparse]

/-- An expiry comes back in a browser on UTC, and there for every minute that a control can hold. -/
theorem expiry_kept_iff {offset : Offset} {e : Option Time} :
    normal (.time (copiedTime none (some (expiryText offset e)))) = .time e ↔
      ∀ t, e = some t → offset.minutes = 0 ∧ wholeMinute t = t ∧ 1 ≤ utcYear t ∧
        utcYear t ≤ 9999 := by
  cases e with
  | none =>
    refine iff_of_true rfl ?_
    intro t ht
    cases ht
  | some t =>
    constructor
    · rintro hsame u ⟨⟩
      have htime := Value.time.inj hsame
      by_cases hyear : 1 ≤ utcYear t ∧ utcYear t ≤ 9999
      · by_cases hsent : 0 ≤ utcYear (offset.instant (wholeMinute t)) ∧
            utcYear (offset.instant (wholeMinute t)) ≤ 9999
        · rw [copiedTime_expiryText hyear hsent, Option.map_some,
            micros_of_seconds (instant_seconds offset t), Option.some.injEq] at htime
          -- the offset moves the expiry by whole minutes, and the control by less than one
          have hnanos := congrArg Time.nanos htime
          have hunit : GoTime.second = 1000000000 := rfl
          unfold Offset.instant wholeMinute at hnanos
          rw [hunit] at hnanos
          dsimp only at hnanos
          refine ⟨by omega, ?_, hyear⟩
          cases t with
          | mk nanos =>
            unfold wholeMinute
            rw [hunit]
            congr 1
            dsimp only at hnanos ⊢
            omega
        · have hparse := parse_toISOString (instant_seconds offset t)
          rw [if_neg hsent] at hparse
          rw [expiryText, Option.elim_some, if_pos hyear, copiedTime, hparse, ite_self] at htime
          cases htime
      · rw [expiryText, Option.elim_some, if_neg hyear] at htime
        cases htime
    · intro h
      obtain ⟨hoffset, hwhole, hyear⟩ := h t rfl
      have hinstant : offset.instant (wholeMinute t) = t := by
        rw [hwhole, Offset.instant, hoffset, Int.zero_mul, Int.sub_zero]
      have hseconds := instant_seconds offset t
      have hcopied := @copiedTime_expiryText offset t hyear
      rw [hinstant] at hseconds hcopied
      rw [hcopied ⟨by omega, hyear.2⟩]
      exact congrArg Value.time (congrArg some (micros_of_seconds hseconds))

theorem limitField_some {m : ℤ} (h : 1 ≤ m) :
    limitField (if m = 0 then [] else limitText m) =
      if (printed m.natAbs : ℤ) ≤ int64Max then some (some (printed m.natAbs : ℤ)) else none := by
  have hsign : m.sign * printed m.natAbs = printed m.natAbs := by
    rw [Int.sign_eq_one_of_pos (by omega), Int.one_mul]
  have hlower : -int64Max - 1 ≤ (printed m.natAbs : ℤ) := by
    have hmax : int64Max = 9223372036854775807 := rfl
    omega
  rw [if_neg (by omega), limitField, limitText, if_neg (integerText_ne_nil _), integer_text, hsign]
  by_cases hfits : (printed m.natAbs : ℤ) ≤ int64Max
  · rw [if_pos hfits, if_pos ⟨hlower, hfits⟩]
    rfl
  · rw [if_neg hfits, if_neg fun hboth => hfits hboth.2]
    rfl

/-- A limit of at most 53 bits is written with its own digits. -/
theorem printed_limit {m : ℤ} (h : 1 ≤ m ∧ m < 2 ^ 53) :
    (printed m.natAbs : ℤ) = m ∧ m ≤ int64Max := by
  have hmax : int64Max = 9223372036854775807 := rfl
  have hsmall : m.natAbs < 2 ^ 53 := by omega
  rw [printed_small hsmall, hmax]
  omega

/-- A limit comes back when it is written with its own digits. -/
theorem limit_kept_iff {link : Link} (h : ∀ m, link.maxClicks = some m → 1 ≤ m) :
    limitField (editLink link).maxClicks = some link.maxClicks ↔
      ∀ m, link.maxClicks = some m → (printed m.natAbs : ℤ) = m ∧ m ≤ int64Max := by
  unfold editLink
  dsimp only
  cases hlimit : link.maxClicks with
  | none =>
    refine iff_of_true rfl ?_
    intro m hm
    cases hm
  | some m =>
    rw [Option.elim_some, limitField_some (h m hlimit)]
    constructor
    · rintro hsame k ⟨⟩
      split at hsame
      · rename_i hfits
        have heq := Option.some.inj (Option.some.inj hsame)
        rw [heq] at hfits
        exact ⟨heq, hfits⟩
      · cases hsame
    · intro hkept
      obtain ⟨heq, hfits⟩ := hkept m rfl
      rw [heq, if_pos hfits]

/-! ## The payload -/

/-- What the form of a stored link asks for. -/
def editorPayload (offset : Offset) (link : Link) (limit : Option ℤ) : Payload where
  url := some (urlControl link.targetUrl)
  title := some (stripNewlines link.title)
  visibility := some link.visibility
  redirectCode := some link.redirectCode
  forwardQuery := some link.forwardQuery
  expiredUrl := some (urlControl link.expiredUrl)
  iosUrl := some (urlControl link.iosUrl)
  androidUrl := some (urlControl link.androidUrl)
  utmSource := some (stripNewlines link.utmSource)
  utmMedium := some (stripNewlines link.utmMedium)
  utmCampaign := some (stripNewlines link.utmCampaign)
  expiresAt := some (expiryText offset link.expiresAt)
  maxClicks := limit
  clearMaxClicks := limit.isNone
  tags := some (tagsField (stripNewlines (join (lit "; ") link.tags)))
  geoTargets := some link.geoTargets

theorem code_readBack {db : Database} {r : LinkRow} (h : WrittenRow db r) :
    (readBack db r).redirectCode = 301 ∨ (readBack db r).redirectCode = 302 ∨
      (readBack db r).redirectCode = 307 ∨ (readBack db r).redirectCode = 308 := by
  obtain ⟨link, columns, hvalid, hcolumns, hassign, -⟩ := h.settings
  rw [← hassign]
  change columns.redirectCode = 301 ∨ columns.redirectCode = 302 ∨ columns.redirectCode = 307 ∨
    columns.redirectCode = 308
  rw [smallint_some (linkColumns_iff.mp hcolumns).redirectCode]
  exact (validateLink_none.mp hvalid).code

theorem limit_readBack {db : Database} {r : LinkRow} (h : WrittenRow db r) :
    ∀ m, (readBack db r).maxClicks = some m → 1 ≤ m := by
  obtain ⟨link, columns, hvalid, hcolumns, hassign, -⟩ := h.settings
  rw [← hassign]
  change ∀ m, columns.maxClicks = some m → 1 ≤ m
  rw [(linkColumns_iff.mp hcolumns).maxClicks]
  exact (validateLink_none.mp hvalid).limit

theorem codeField {link : Link} (h : link.redirectCode = 301 ∨ link.redirectCode = 302 ∨
    link.redirectCode = 307 ∨ link.redirectCode = 308) :
    integer (if (editLink link).redirectCode = [] then lit "302"
      else (editLink link).redirectCode) = some link.redirectCode := by
  have hcontrol : (editLink link).redirectCode = JsonText.integerText link.redirectCode := by
    unfold editLink
    dsimp only
    rcases h with heq | heq | heq | heq <;> rw [heq] <;> decide
  have hmax : int64Max = 9223372036854775807 := rfl
  rw [hcontrol, if_neg (integerText_ne_nil _), integer_text, if_pos (by omega)]

theorem visibilityField {link : Link}
    (h : link.visibility = lit "private" ∨ link.visibility = lit "department") :
    (if (editLink link).visibility = [] then lit "private" else (editLink link).visibility) =
      link.visibility := by
  have hcontrol : (editLink link).visibility = link.visibility := by
    unfold editLink
    dsimp only
    rcases h with heq | heq <;> rw [heq] <;> decide
  rw [hcontrol]
  rcases h with heq | heq <;> rw [heq] <;> decide

theorem payload_iff {db : Database} {r : LinkRow} (h : WrittenRow db r) {offset : Offset}
    {p : Payload} : linkPayloadFromForm offset (editLink (readBack db r)) = some p ↔
      ∃ limit, limitField (editLink (readBack db r)).maxClicks = some limit ∧
        p = editorPayload offset (readBack db r) limit := by
  have hgeo : geoField (editLink (readBack db r)).geoTargets = some (readBack db r).geoTargets :=
    geoField_geoCell (geo_valid h)
  unfold linkPayloadFromForm
  rw [codeField (code_readBack h), expiryField_editLink, hgeo,
    visibilityField (visibility_readBack h)]
  simp only [Option.bind_eq_bind, Option.bind_some, Option.bind_eq_some_iff]
  constructor
  · rintro ⟨limit, hlimit, hp⟩
    exact ⟨limit, hlimit, (Option.some.inj hp).symm⟩
  · rintro ⟨limit, hlimit, rfl⟩
    exact ⟨limit, hlimit, rfl⟩

/-! ## What is saved -/

/-- The settings that are edited as one line of text. -/
def texts (link : Link) : List Str :=
  [link.targetUrl, link.title, link.expiredUrl, link.iosUrl, link.androidUrl, link.utmSource,
    link.utmMedium, link.utmCampaign]

/-- The browser is on UTC or the link never expires, the texts are single lines, the digits of the
limit are those of its double, and the tags are plain and as the store writes them. -/
structure Steady (offset : Offset) (link : Link) : Prop where
  lines : ∀ s ∈ texts link, Line s
  expiry : ∀ t, link.expiresAt = some t → offset.minutes = 0 ∧ wholeMinute t = t ∧
    1 ≤ utcYear t ∧ utcYear t ≤ 9999
  limit : ∀ m, link.maxClicks = some m → (printed m.natAbs : ℤ) = m ∧ m ≤ int64Max
  tags : Normalized link
  plain : ∀ t ∈ link.tags, PlainTag t

theorem Steady.nonempty {offset : Offset} {link : Link} (h : Steady offset link) :
    ∀ t ∈ link.tags, t ≠ [] := by
  intro t ht
  rw [← h.tags] at ht
  exact (mem_normalizeTags.mp ht).1

theorem Steady.copiedTime {offset : Offset} {link : Link} (h : Steady offset link) :
    copiedTime link.expiresAt (some (expiryText offset link.expiresAt)) = link.expiresAt := by
  cases hexpiry : link.expiresAt with
  | none => rfl
  | some t =>
    obtain ⟨hoffset, hwhole, hyear⟩ := h.expiry t hexpiry
    have hinstant : offset.instant (wholeMinute t) = t := by
      rw [hwhole, Offset.instant, hoffset, Int.zero_mul, Int.sub_zero]
    have hcopied := @copiedTime_expiryText offset t hyear
    rw [hinstant] at hcopied
    exact hcopied ⟨by omega, hyear.2⟩

/-- Merged with such a payload the link is itself. -/
theorem Steady.assign {offset : Offset} {link : Link} (h : Steady offset link)
    (hvisibility : link.visibility = lit "private" ∨ link.visibility = lit "department") :
    (editorPayload offset link link.maxClicks).assign false link = link := by
  have hlines := h.lines
  simp only [texts, List.forall_mem_cons] at hlines
  obtain ⟨hurl, htitle, hexpired, hios, handroid, hsource, hmedium, hcampaign, -⟩ := hlines
  have hlimit : (if link.maxClicks.isNone = true then none
      else link.maxClicks.or link.maxClicks) = link.maxClicks := by
    cases link.maxClicks <;> rfl
  have hshown : trimSpace link.visibility = link.visibility ∧ link.visibility ≠ [] := by
    rcases hvisibility with heq | heq <;> rw [heq] <;> decide
  unfold Payload.assign editorPayload
  simp only [copied, Option.map_some, Option.map_none, Option.getD_some, Option.getD_none,
    Bool.false_eq_true, if_false, Option.isSome_none, urlLine_iff.mpr hurl, line_iff.mpr htitle,
    urlLine_iff.mpr hexpired, urlLine_iff.mpr hios, urlLine_iff.mpr handroid,
    line_iff.mpr hsource, line_iff.mpr hmedium, line_iff.mpr hcampaign, h.copiedTime, hlimit,
    hshown.1, if_neg hshown.2, tagsField_plain h.plain h.nonempty]

theorem Steady.apply {offset : Offset} {link : Link} (h : Steady offset link)
    (hvisibility : link.visibility = lit "private" ∨ link.visibility = lit "department")
    (hash : SecretHash) :
    applyLinkPayload hash link (editorPayload offset link link.maxClicks) false =
      .ok (link, [], false) := by
  have hmatch : (editorPayload offset link link.maxClicks).mismatch = false := rfl
  have hdate : (editorPayload offset link link.maxClicks).badDate = false := by
    change (decide (trimSpace (expiryText offset link.expiresAt) ≠ []) &&
      (GoTime.parseRFC3339 (expiryText offset link.expiresAt)).isNone) = false
    cases hexpiry : link.expiresAt with
    | none =>
      have htext : expiryText offset none = [] := rfl
      rw [htext]
      rfl
    | some t =>
      have hcopied := h.copiedTime
      rw [hexpiry, LinkPayload.copiedTime] at hcopied
      split at hcopied
      · cases hcopied
      · rw [hcopied]
        exact Bool.and_false _
  unfold applyLinkPayload
  rw [h.assign hvisibility, hmatch, hdate, if_neg (by decide), if_neg (by simp; tauto),
    if_neg (by decide)]
  rfl

/-- Settings of such a link are kept as they are. -/
theorem Steady.normal {offset : Offset} {db : Database} {r : LinkRow}
    (h : Steady offset (readBack db r)) (hrow : WrittenRow db r) {limit : Option ℤ} {f : Setting}
    (hnamed : (editorPayload offset (readBack db r) limit).names f = true) :
    normal (value (readBack db r) f) = value (readBack db r) f := by
  have hlines := h.lines
  simp only [texts, List.forall_mem_cons] at hlines
  obtain ⟨hurl, htitle, hexpired, hios, handroid, hsource, hmedium, hcampaign, -⟩ := hlines
  have hvisibility : trimSpace (readBack db r).visibility = (readBack db r).visibility := by
    rcases visibility_readBack hrow with heq | heq <;> rw [heq] <;> decide
  by_cases hpassword : f = .password
  · subst hpassword
    cases hnamed
  by_cases hgeo : f = .geoTargets
  · subst hgeo
    exact (geo_normal hrow).2
  by_cases htags : f = .tags
  · subst htags
    exact congrArg Value.tags h.tags
  apply (stored_normal (stored_own hrow hpassword hgeo htags) ?_).symm
  cases f with
  | targetUrl => exact hurl.trimmed
  | title => exact htitle.trimmed
  | visibility => exact hvisibility
  | expiredUrl => exact hexpired.trimmed
  | iosUrl => exact hios.trimmed
  | androidUrl => exact handroid.trimmed
  | utmSource => exact hsource.trimmed
  | utmMedium => exact hmedium.trimmed
  | utmCampaign => exact hcampaign.trimmed
  | utmTerm => cases hnamed
  | utmContent => cases hnamed
  | tags => exact absurd rfl htags
  | geoTargets => exact absurd rfl hgeo
  | _ => trivial

theorem decoded_editorPayload {offset : Offset} {db : Database} {r : LinkRow} {limit : Option ℤ}
    (h : WrittenRow db r) : PartialEdits.Decoded (editorPayload offset (readBack db r) limit) := by
  intro tags htags
  cases htags
  exact valid_tagsField (tags_valid h)

/-- The form as `editLink` filled it is sent, accepted, and leaves every setting as it was. -/
def Unedited (server : Server) (w : World) (c : Caller) (calls : Calls) (reader : Script) (id : ℤ)
    (offset : Offset) (before : Link) : Prop :=
  ∃ p after, linkPayloadFromForm offset (editLink before) = some p ∧
    Performed (handle server w c calls (.edit id p)).1 ∧
    linkByID reader (handle server w c calls (.edit id p)).2.db c.user id = .ok after ∧
    ∀ f, value after f = value before f

/-- A payload that asks for what the link has is the payload of such a link. -/
theorem steady_of_asked {offset : Offset} {link : Link} {limit : Option ℤ}
    (hpositive : ∀ m, link.maxClicks = some m → 1 ≤ m)
    (hlimit : limitField (editLink link).maxClicks = some limit)
    (hasked : ∀ f, (editorPayload offset link limit).names f = true →
      PartialEdits.normal ((editorPayload offset link limit).asked f) = value link f) :
    limit = link.maxClicks ∧ Steady offset link := by
  have hsame : limit = link.maxClicks := by
    cases limit with
    | none => exact Value.limit.inj (hasked .maxClicks rfl)
    | some m => exact Value.limit.inj (hasked .maxClicks rfl)
  refine ⟨hsame, ?_⟩
  obtain ⟨htags, hplain⟩ := tags_kept_iff.mp (Value.tags.inj (hasked .tags rfl))
  constructor
  · have hurl := hasked .targetUrl rfl
    have htitle := hasked .title rfl
    have hexpired := hasked .expiredUrl rfl
    have hios := hasked .iosUrl rfl
    have handroid := hasked .androidUrl rfl
    have hsource := hasked .utmSource rfl
    have hmedium := hasked .utmMedium rfl
    have hcampaign := hasked .utmCampaign rfl
    simp only [PartialEdits.normal, Payload.asked, value, Payload.assign, editorPayload, copied,
      Option.map_some, Option.map_none, Option.getD_some, Option.getD_none, Value.text.injEq,
      urlLine_iff, line_iff] at hurl htitle hexpired hios handroid hsource hmedium hcampaign
    simp only [texts, List.forall_mem_cons]
    exact ⟨hurl, htitle, hexpired, hios, handroid, hsource, hmedium, hcampaign,
      fun _ hs => absurd hs List.not_mem_nil⟩
  · exact expiry_kept_iff.mp (hasked .expiresAt rfl)
  · rw [hsame] at hlimit
    exact (limit_kept_iff hpositive).mp hlimit
  · exact htags
  · exact hplain

/-- A link that is stored again as it was has passed the checks. -/
theorem valid_of_performed {server : Server} {w : World} {c : Caller} {calls : Calls}
    {reader : Script} {id : ℤ} {before : Link} {p : Payload} (hworks : Works calls)
    (hread : linkByID reader w.db c.user id = .ok before) (hcode : before.redirectCode ≠ 0)
    (happly : applyLinkPayload (calls.hash 0) before p false = .ok (before, [], false))
    (hperformed : Performed (handle server w c calls (.edit id p)).1) :
    validateLink before = none := by
  rcases edit_cases server w c p hworks id with ⟨update, hedits, -, -⟩ | ⟨-, hnot⟩
  · obtain ⟨-, -, hmerges, -, hfits⟩ := edits_one_iff.mp hedits
    obtain ⟨link, hseen, hmerged⟩ := hmerges.merged
    obtain ⟨hshown, hid⟩ := shown_of_linkByID hread
    obtain rfl : before = link := (hid ▸ seen_of_shown hshown).unique hseen
    rw [happly, Except.ok.injEq, Prod.mk.injEq, Prod.mk.injEq] at hmerged
    obtain ⟨hlink, hhash, hchanged⟩ := hmerged
    have hvalid := hfits.valid
    rw [← hlink, ← hhash, ← hchanged, updateLinkInput_same hcode] at hvalid
    exact hvalid
  · exact absurd hperformed hnot

/-- Opening the editor and saving without edits changes nothing exactly when the link passes the
checks as it is, the browser is on UTC or the link never expires, every text is one trimmed line,
the limit has the digits of its double, and the tags are plain and as the store writes them. -/
theorem unedited_iff (server : Server) (w : World) (c : Caller) (calls : Calls) (reader : Script)
    (id : ℤ) (offset : Offset) (before : Link) (hworks : Works calls) (hreader : reader.Healthy)
    (hintact : Intact w.db) (hread : linkByID reader w.db c.user id = .ok before)
    (hmanaged : Managed w.db c.user id) :
    Unedited server w c calls reader id offset before ↔
      validateLink before = none ∧ Steady offset before := by
  obtain ⟨hshown, hid⟩ := shown_of_linkByID hread
  obtain ⟨r, hr, -, -, rfl⟩ := hid ▸ seen_of_shown hshown
  have hrow := hintact.written r (mem_link hr).1
  have hcode : (readBack w.db r).redirectCode ≠ 0 := by
    rcases code_readBack hrow with heq | heq | heq | heq <;> rw [heq] <;> decide
  constructor
  · rintro ⟨p, after, hpayload, hperformed, hafter, hsame⟩
    obtain ⟨limit, hlimit, rfl⟩ := (payload_iff hrow).mp hpayload
    obtain ⟨found, hfound, -, hsettings⟩ :=
      edited hworks hreader hintact hread (decoded_editorPayload hrow) hperformed
    rw [hafter, Except.ok.injEq] at hfound
    subst hfound
    obtain ⟨rfl, hsteady⟩ := steady_of_asked (limit_readBack hrow) hlimit fun f hnamed => by
      rw [← hsame f, hsettings f, if_pos hnamed]
    exact ⟨valid_of_performed hworks hread hcode
      (hsteady.apply (visibility_readBack hrow) (calls.hash 0)) hperformed, hsteady⟩
  · rintro ⟨hvalid, hsteady⟩
    have hlimit := (limit_kept_iff (limit_readBack hrow)).mpr hsteady.limit
    have hperformed := @same_performed server w c calls reader id _
      (editorPayload offset (readBack w.db r) (readBack w.db r).maxClicks) hworks hintact hread
      hvalid hmanaged rfl (hsteady.apply (visibility_readBack hrow) (calls.hash 0))
    obtain ⟨after, hafter, -, hsettings⟩ :=
      edited hworks hreader hintact hread (decoded_editorPayload hrow) hperformed
    refine ⟨_, after, (payload_iff hrow).mpr ⟨_, hlimit, rfl⟩, hperformed, hafter, fun f => ?_⟩
    rw [hsettings f]
    by_cases hnamed : (editorPayload offset (readBack w.db r) (readBack w.db r).maxClicks).names f =
        true
    · rw [if_pos hnamed, ← value_assign_named hnamed, hsteady.assign (visibility_readBack hrow)]
      exact hsteady.normal hrow hnamed
    · have htags : f ≠ .tags := by
        rintro rfl
        exact hnamed rfl
      rw [if_neg hnamed, if_neg htags]

/-! An administrator opens a link that expires with the year. -/

/-- 2027-01-01T00:00:00Z. -/
def newYear : Time := ⟨1798761600 * GoTime.second⟩

def expiring : World :=
  { LinkResponses.colleagues with
    db := Database.single { sampleLink with expiresAt := some newYear } }

def expiringLink : Link := readBack expiring.db { sampleLink with expiresAt := some newYear }

def utc : Offset where
  minutes := 0
  bounded := by decide

/-- UTC+07:00. -/
def jakarta : Offset where
  minutes := 420
  bounded := by decide

theorem intact_expiring : Intact expiring.db := by
  constructor
  · intro r hr
    obtain rfl := List.mem_singleton.mp hr
    refine ⟨(by decide : slugRe sampleLink.slug = true),
      { scanLink sampleLink with expiresAt := some newYear },
      ⟨sampleLink.targetUrl, [], sampleLink.visibility, 302, some newYear, none, [], [], [],
        false, [], [], [], [], [], []⟩, by decide +kernel, ?_, rfl, rfl⟩
    apply linkColumns_iff.mpr
    constructor
    · decide
    · decide
    · decide
    · decide
    · decide
    · rfl
    · decide
    · decide
    · decide
    · rfl
    · decide
    · decide
    · decide
    · decide
    · decide
    · exact (congrArg (List.map toValid) normalizeTags_nil).symm
  · intro g hg
    cases hg
  · intro r hr
    obtain rfl := List.mem_singleton.mp hr
    exact ⟨zero_lt_one, Int.lt_succ_self 1⟩
  · exact zero_lt_two

theorem steady_campaign : Steady utc PartialEdits.campaignLink := by
  refine ⟨?_, ?_, ?_, PartialEdits.normalizeTags_pair, ?_⟩
  · have hline : ∀ s ∈ texts PartialEdits.campaignLink,
        trimSpace s = s ∧ (10 : UInt8) ∉ s ∧ (13 : UInt8) ∉ s := by
      decide
    exact fun s hs => ⟨(hline s hs).1, (hline s hs).2⟩
  · rintro t ⟨⟩
    decide
  · rintro m ⟨⟩
    decide
  · have hplain : ∀ t ∈ PartialEdits.campaignLink.tags,
        (59 : UInt8) ∉ t ∧ ((10 : UInt8) ∉ t ∧ (13 : UInt8) ∉ t) ∧ jsTrim t = t := by
      decide
    exact fun t ht => ⟨(hplain t ht).1, (hplain t ht).2.1, (hplain t ht).2.2⟩

theorem unedited_iff_campaign :
    Unedited LinkResponses.deployed PartialEdits.campaign administrator LinkResponses.healthy {} 1
      utc PartialEdits.campaignLink :=
  (unedited_iff LinkResponses.deployed PartialEdits.campaign administrator LinkResponses.healthy {}
    1 utc PartialEdits.campaignLink works_healthy ⟨rfl, fun _ => rfl, rfl, rfl⟩
    PartialEdits.intact_campaign rfl PartialEdits.campaign_managed).mpr
    ⟨validateLink_none.mpr PartialEdits.accepted_campaign, steady_campaign⟩

/-- Seven hours east of UTC the link expires seven hours earlier after a save without edits. -/
theorem expiry_shifted :
    Intact expiring.db ∧
      linkByID {} expiring.db administrator.user 1 = .ok expiringLink ∧
      ((linkPayloadFromForm jakarta (editLink expiringLink)).bind fun p => p.expiresAt) =
        some (lit "2026-12-31T17:00:00.000Z") ∧
      ((linkPayloadFromForm jakarta (editLink expiringLink)).map fun p =>
        (linkByID {} (handle LinkResponses.deployed expiring administrator LinkResponses.healthy
          (.edit 1 p)).2.db administrator.user 1).toOption.map fun after => after.expiresAt) =
        some (some (some ⟨1798736400 * GoTime.second⟩)) ∧
      ¬ Unedited LinkResponses.deployed expiring administrator LinkResponses.healthy {} 1 jakarta
        expiringLink := by
  have hrun : ((linkPayloadFromForm jakarta (editLink expiringLink)).map fun p =>
      (linkByID {} (handle LinkResponses.deployed expiring administrator LinkResponses.healthy
        (.edit 1 p)).2.db administrator.user 1).toOption.map fun after => after.expiresAt) =
      some (some (some ⟨1798736400 * GoTime.second⟩)) := by decide +kernel
  refine ⟨intact_expiring, rfl, by decide +kernel, hrun, ?_⟩
  rintro ⟨p, after, hp, -, hafter, hsame⟩
  rw [hp, Option.map_some, hafter] at hrun
  have hshifted : after.expiresAt = some ⟨1798736400 * GoTime.second⟩ :=
    Option.some.inj (Option.some.inj hrun)
  have hkept := Value.time.inj (hsame .expiresAt)
  rw [hshifted] at hkept
  revert hkept
  decide

end LinkEditor
