import ShortQ.BulkEdits
import ShortQ.CsvTags
import ShortQ.WrittenLinks

/-! # What an edit leaves alone

A PATCH reads a link, merges its payload and writes every column again. The settings that the
payload does not name come back as they were, provided that the tags do. -/
namespace PartialEdits

open AcceptedLinks
open AuditLog
open AuditedHandlers
open BulkEdits
open CsvTags
open GoText
open GoTime (Time)
open Hosts
open LinkCalls
open LinkEdits
open LinkHandlers
open LinkPayload
open LinkScopes
open LinkStore
open LinkValidation
open LinkWrites
open Models
open Runes
open Schema
open Transaction
open WriteSuccess
open WrittenLinks

/-! ## A column stores its own values -/

theorem text_idem {s t : Str} (h : text s = some t) : text t = some t := by
  have hsame := text_some h
  rw [hsame] at h ⊢
  exact h

theorem text_take {s : Str} (n : ℕ) (h : text s = some s) :
    text (bytesOf ((runes s).take n)) = some (bytesOf ((runes s).take n)) := by
  have hvalid : validUtf8 s = true ∧ s.contains 0 = false := by
    unfold text at h
    split at h
    · rename_i hboth
      simpa using hboth
    · cases h
  have hprefix : validUtf8 (bytesOf ((runes s).take n)) = true :=
    valid_bytesOf fun r hr => whole_of_valid hvalid.1 r (List.mem_of_mem_take hr)
  have hzero : (bytesOf ((runes s).take n)).contains 0 = false := by
    rw [List.contains_eq_mem, decide_eq_false_iff_not] at hvalid ⊢
    intro hmem
    apply hvalid.2
    obtain ⟨r, hr, hb⟩ := List.mem_flatMap.mp hmem
    rw [← bytesOf_runes s]
    exact List.mem_flatMap.mpr ⟨r, List.mem_of_mem_take hr, hb⟩
  rw [text, hprefix, hzero]
  rfl

theorem varchar_idem {n : ℕ} {s t : Str} (h : varchar n s = some t) : varchar n t = some t := by
  have htext : text s = some s := by
    cases hnone : text s with
    | none =>
      rw [varchar, if_pos hnone] at h
      cases h
    | some s' => rw [text_some hnone]
  unfold varchar at h
  rw [if_neg (by simp [htext])] at h
  split at h
  · rename_i hshort
    cases h
    exact varchar_of_text htext hshort
  · split at h
    · cases h
      refine varchar_of_text (text_take n htext) ?_
      rw [runes_take, List.length_take]
      exact Nat.min_le_left _ _
    · cases h

theorem valid_of_text {s : Str} (h : ¬ text s = none) : validUtf8 s = true := by
  by_contra hinvalid
  apply h
  rw [text, if_neg (by simp [hinvalid])]

theorem space_of_bytes {s : Str} {r : Rune} (hvalid : validUtf8 s = true)
    (hlast : (runes s).getLast? = some r) (hbytes : r.bytes = [32]) : isSpace r = true := by
  obtain ⟨a, bs, hr, -, hwhole⟩ := whole_of_valid hvalid r (List.mem_of_getLast? hlast)
  rw [hbytes, List.cons.injEq] at hr
  obtain ⟨rfl, rfl⟩ := hr
  rw [← hwhole []]
  decide

/-- A text without white space around it is not cut. -/
theorem varchar_trimmed {n : ℕ} {s t : Str} (h : varchar n s = some t) (htrim : trimSpace s = s) :
    t = s := by
  unfold varchar at h
  split at h
  · cases h
  rename_i hstored
  split at h
  · exact (Option.some.inj h).symm
  split at h
  · rename_i hlong hspaces
    have hne : (runes s).drop n ≠ [] := by
      rw [ne_eq, List.drop_eq_nil_iff]
      omega
    obtain ⟨r, hr⟩ := Option.isSome_iff_exists.mp (List.getLast?_isSome.mpr hne)
    have hlast : (runes s).getLast? = some r := by
      rw [← hr, List.getLast?_drop, if_neg (by omega)]
    have hspace := (List.all_eq_true.mp hspaces) r (List.mem_of_getLast? hr)
    have hsolid := (trimSpace_eq_self.mp htrim).2 r hlast
    have hblank : isSpace r = true := space_of_bytes (valid_of_text hstored) hlast
        (by simpa using hspace)
    rw [hblank] at hsolid
    cases hsolid
  · cases h

theorem checkVisibility_idem {s t : Str} (h : checkVisibility s = some t) :
    checkVisibility t = some t := by
  rcases checkVisibility_some h with rfl | rfl <;> decide

theorem smallint_idem {i j : ℤ} (h : smallint i = some j) : smallint j = some j := by
  have hsame := smallint_some h
  rw [hsame] at h ⊢
  exact h

theorem timestamptz_idem {t u : Time} (h : timestamptz t = some u) : timestamptz u = some u := by
  unfold timestamptz at h
  split at h
  · rename_i hrange
    cases h
    have hmicros : micros ⟨micros t * 1000⟩ = micros t := by
      unfold micros
      dsimp only
      omega
    rw [timestamptz, hmicros, if_pos hrange]
  · cases h

theorem timestamptz_some {t u : Time} (h : timestamptz t = some u) : u = ⟨micros t * 1000⟩ := by
  unfold timestamptz at h
  split at h
  · exact (Option.some.inj h).symm
  · cases h

/-! ## Normal values -/

/-- The form in which a value is kept. A text is trimmed before. -/
def normal : Value → Value
  | .text s => .text s
  | .code i => .code (if i = 0 then 302 else i)
  | .time t => .time (t.map fun t => ⟨micros t * 1000⟩)
  | .limit m => .limit m
  | .flag b => .flag b
  | .tags tags => .tags (normalizeTags tags)
  | .geo targets => .geo ((targets.map fun t => ⟨country t, trimSpace t.targetUrl⟩).mergeSort
      fun a b => decide (a.countryCode ≤ b.countryCode))

/-- The texts are trimmed, and the tags are text. -/
def Clean : Value → Prop
  | .text s => trimSpace s = s
  | .tags tags => ∀ tag ∈ tags, validUtf8 tag = true
  | .geo targets => ∀ target ∈ targets, country target ∈ isoCountryCodes
  | _ => True

theorem normalizeTags_valid {tags : List Str} (h : ∀ tag ∈ tags, validUtf8 tag = true) :
    (normalizeTags tags).map toValid = normalizeTags tags := by
  have hsame : ∀ tag ∈ normalizeTags tags, toValid tag = id tag := by
    intro tag htag
    obtain ⟨-, -, x, hx, rfl⟩ := mem_normalizeTags.mp htag
    exact toValid_of_valid (valid_trimSpace (h x hx))
  rw [List.map_congr_left hsame, List.map_id]

theorem byCountry_eq {linkId : ℤ} {targets : List GeoTarget} {rows : List GeoRow}
    (h : targets.mapM (geoRow linkId) = some rows)
    (hiso : ∀ target ∈ targets, country target ∈ isoCountryCodes) :
    byCountry rows = (targets.map fun t => ⟨country t, trimSpace t.targetUrl⟩).mergeSort
      fun a b => decide (a.countryCode ≤ b.countryCode) := by
  have hrows : rows.map (fun g => (⟨g.countryCode, g.targetUrl⟩ : GeoTarget)) =
      targets.map fun t => ⟨country t, trimSpace t.targetUrl⟩ := by
    refine map_of_mapM (fun target htarget g hg => ?_) h
    rw [(geoRow_accepted hg (hiso target htarget)).1]
    simp only [geoRow, Option.bind_eq_bind, Option.bind_eq_some_iff] at hg
    obtain ⟨code, -, url, hurl, hg⟩ := hg
    cases hg
    rw [text_some hurl]
  rw [byCountry, ← hrows]
  exact List.map_mergeSort fun _ _ _ _ => rfl

theorem stored_normal {id : ℤ} {f : Setting} {v v' : Value} (h : stored id f v = some v')
    (hclean : Clean v) : v' = normal v := by
  cases v with
  | text s =>
    have htext : ∀ {n : ℕ}, (varchar n s).map Value.text = some v' → v' = normal (.text s) := by
      intro n hstored
      obtain ⟨t, ht, rfl⟩ := Option.map_eq_some_iff.mp hstored
      exact congrArg Value.text (varchar_trimmed ht hclean)
    have hlong : (text s).map Value.text = some v' → v' = normal (.text s) := by
      intro hstored
      obtain ⟨t, ht, rfl⟩ := Option.map_eq_some_iff.mp hstored
      exact congrArg Value.text (text_some ht)
    cases f with
    | title => exact htext h
    | utmSource => exact htext h
    | utmMedium => exact htext h
    | utmCampaign => exact htext h
    | utmTerm => exact htext h
    | utmContent => exact htext h
    | visibility =>
      obtain ⟨t, ht, rfl⟩ := Option.map_eq_some_iff.mp h
      unfold checkVisibility at ht
      split at ht
      · exact congrArg Value.text (Option.some.inj ht).symm
      · cases ht
    | _ => exact hlong h
  | code i =>
    have hcode : (smallint (if i = 0 then 302 else i)).map Value.code = some v' := by
      cases f <;> exact h
    obtain ⟨j, hj, rfl⟩ := Option.map_eq_some_iff.mp hcode
    exact congrArg Value.code (smallint_some hj)
  | time t =>
    have htime : (nullable timestamptz t).map Value.time = some v' := by
      cases f <;> exact h
    obtain ⟨u, hu, rfl⟩ := Option.map_eq_some_iff.mp htime
    cases t with
    | none =>
      cases hu
      rfl
    | some t =>
      obtain ⟨u', hu', rfl⟩ := Option.map_eq_some_iff.mp hu
      rw [timestamptz_some hu']
      rfl
  | tags tags =>
    have htags : some (Value.tags ((normalizeTags tags).map toValid)) = some v' := by
      cases f <;> exact h
    rw [normalizeTags_valid hclean] at htags
    exact (Option.some.inj htags).symm
  | geo targets =>
    have hgeo : (targets.mapM (geoRow id)).map (fun rows => Value.geo (byCountry rows)) =
        some v' := by
      cases f <;> exact h
    obtain ⟨rows, hrows, rfl⟩ := Option.map_eq_some_iff.mp hgeo
    exact congrArg Value.geo (byCountry_eq hrows hclean)
  | limit m => cases f <;> exact (Option.some.inj h).symm
  | flag b => cases f <;> exact (Option.some.inj h).symm

/-! ## The link as it was read -/

/-- The columns take a link that was read from them. -/
theorem linkColumns_readBack {db : Database} {r : LinkRow} {link : Link} {columns : LinkColumns}
    (hcolumns : linkColumns link = some columns) (hassign : columns.assign none none r = r) :
    linkColumns (readBack db r) =
      some { columns with tags := (normalizeTags columns.tags).map toValid } := by
  have htaken := linkColumns_iff.mp hcolumns
  have htime : nullable timestamptz columns.expiresAt = some columns.expiresAt := by
    have hgiven := htaken.expiresAt
    cases hlink : link.expiresAt with
    | none =>
      rw [hlink] at hgiven
      rw [← Option.some.inj hgiven]
      rfl
    | some t =>
      rw [hlink] at hgiven
      obtain ⟨u, hu, hsome⟩ := Option.map_eq_some_iff.mp hgiven
      rw [← hsome]
      exact congrArg (Option.map some) (timestamptz_idem hu)
  rw [← hassign]
  apply linkColumns_iff.mpr
  constructor
  · exact text_idem htaken.targetUrl
  · exact varchar_idem htaken.title
  · exact checkVisibility_idem htaken.visibility
  · exact smallint_idem htaken.redirectCode
  · exact htime
  · rfl
  · exact text_idem htaken.expiredUrl
  · exact text_idem htaken.iosUrl
  · exact text_idem htaken.androidUrl
  · rfl
  · exact varchar_idem htaken.utmSource
  · exact varchar_idem htaken.utmMedium
  · exact varchar_idem htaken.utmCampaign
  · exact varchar_idem htaken.utmTerm
  · exact varchar_idem htaken.utmContent
  · rfl

/-- A setting of a row other than tags, geo targets and password is its own stored form. -/
theorem stored_own {db : Database} {r : LinkRow} (h : WrittenRow db r) {f : Setting}
    (hpassword : f ≠ .password) (hgeo : f ≠ .geoTargets) (htags : f ≠ .tags) :
    stored r.id f (value (readBack db r) f) = some (value (readBack db r) f) := by
  obtain ⟨link, columns, hvalid, hcolumns, hassign, -⟩ := h.settings
  have hcode : (readBack db r).redirectCode ≠ 0 := by
    rw [← hassign]
    change columns.redirectCode ≠ 0
    rw [smallint_some (linkColumns_iff.mp hcolumns).redirectCode]
    exact redirectCode_of_valid hvalid
  have htaken := linkColumns_iff.mp (@linkColumns_readBack db _ _ _ hcolumns hassign)
  rw [stored_of_taken htaken hcode r.id db r none none hpassword hgeo]
  conv_rhs => rw [← hassign]
  cases f with
  | tags => exact absurd rfl htags
  | _ => rfl

theorem tags_valid {db : Database} {r : LinkRow} (h : WrittenRow db r) :
    ∀ tag ∈ r.tags, validUtf8 tag = true := by
  obtain ⟨link, columns, -, hcolumns, hassign, -⟩ := h.settings
  rw [← hassign]
  change ∀ tag ∈ columns.tags, validUtf8 tag = true
  rw [(linkColumns_iff.mp hcolumns).tags]
  exact (tagList_stored link.tags).valid

/-- Geo targets of a row, with their countries and URLs as they are kept. -/
theorem geo_normal {db : Database} {r : LinkRow} (h : WrittenRow db r) :
    Clean (value (readBack db r) .geoTargets) ∧
      normal (value (readBack db r) .geoTargets) = value (readBack db r) .geoTargets := by
  obtain ⟨link, columns, hvalid, -, -, hgeo⟩ := h.settings
  have haccepted := validateLink_none.mp hvalid
  have hiso : ∀ target ∈ link.geoTargets, country target ∈ isoCountryCodes :=
    fun target htarget => (haccepted.geo target htarget).1
  have hsame := byCountry_eq hgeo hiso
  have hkept : ∀ target ∈ byCountry (geoRows db r.id), country target ∈ isoCountryCodes ∧
      (⟨country target, trimSpace target.targetUrl⟩ : GeoTarget) = target := by
    intro target htarget
    rw [hsame, List.mem_mergeSort] at htarget
    obtain ⟨given, hgiven, rfl⟩ := List.mem_map.mp htarget
    have hcountry := hiso given hgiven
    rw [country_iso hcountry, trimSpace_trimSpace]
    exact ⟨hcountry, rfl⟩
  refine ⟨fun target htarget => (hkept target htarget).1, congrArg Value.geo ?_⟩
  change List.mergeSort ((byCountry (geoRows db r.id)).map _) _ = byCountry (geoRows db r.id)
  have hid : (byCountry (geoRows db r.id)).map
      (fun t => (⟨country t, trimSpace t.targetUrl⟩ : GeoTarget)) =
        byCountry (geoRows db r.id) := by
    rw [List.map_congr_left (g := id) fun target htarget => (hkept target htarget).2, List.map_id]
  rw [hid, hsame]
  apply List.mergeSort_of_pairwise
  apply List.pairwise_mergeSort
  · intro a b c hab hbc
    simp only [decide_eq_true_eq] at hab hbc ⊢
    exact List.le_trans hab hbc
  · intro a b
    simp only [Bool.or_eq_true, decide_eq_true_eq]
    exact List.le_total _ _

/-! ## After an edit -/

/-- The tags of a payload are text, as the JSON decoder leaves them. -/
def Decoded (p : Payload) : Prop := ∀ tags, p.tags = some tags → ∀ tag ∈ tags, validUtf8 tag = true

/-- What an edit never changes, and the password, which it changes only on demand. -/
structure SameRow (hash : SecretHash) (p : Payload) (before after : Link) : Prop where
  id : after.id = before.id
  slug : after.slug = before.slug
  owner : after.userId = before.userId
  tenant : after.tenantId = before.tenantId
  clicks : after.clicks = before.clicks
  createdAt : after.createdAt = before.createdAt
  deletedAt : after.deletedAt = before.deletedAt
  password : if p.passwordChanged then p.secret hash = .ok after.passwordHash
    else after.passwordHash = before.passwordHash

/-- The settings that the payload names hold its normal values, and nothing else has changed. -/
structure OnlyNamed (hash : SecretHash) (p : Payload) (before after : Link) : Prop
    extends SameRow hash p before after where
  settings : ∀ f, value after f = if p.names f then normal (p.asked f) else value before f

/-- The tags are as the store would write them again. -/
def Normalized (link : Link) : Prop := normalizeTags link.tags = link.tags

instance : DecidablePred Normalized := fun link =>
  inferInstanceAs (Decidable (normalizeTags link.tags = link.tags))

theorem clean_copied {v : Option Str} : trimSpace (copied [] v) = copied [] v := by
  cases v with
  | none => decide
  | some s => exact trimSpace_trimSpace s

/-- A named value reaches the store trimmed. -/
theorem clean_asked {p : Payload} (hdecoded : Decoded p)
    (hgeo : ∀ targets, p.geoTargets = some targets → ∀ t ∈ targets, country t ∈ isoCountryCodes)
    (f : Setting) : Clean (p.asked f) := by
  cases f with
  | targetUrl =>
    change trimSpace (copied (copied [] p.url) p.targetUrl) = copied (copied [] p.url) p.targetUrl
    cases p.targetUrl with
    | none => exact clean_copied
    | some s => exact trimSpace_trimSpace s
  | visibility =>
    change trimSpace (if copied [] p.visibility = [] then lit "private" else copied [] p.visibility)
      = if copied [] p.visibility = [] then lit "private" else copied [] p.visibility
    split
    · decide
    · exact clean_copied
  | tags =>
    intro tag htag
    cases htags : p.tags with
    | none =>
      simp only [Payload.assign, htags] at htag
      cases htag
    | some tags =>
      simp only [Payload.assign, htags] at htag
      exact hdecoded tags htags tag htag
  | geoTargets =>
    intro target htarget
    cases htargets : p.geoTargets with
    | none =>
      simp only [Payload.assign, htargets] at htarget
      cases htarget
    | some targets =>
      simp only [Payload.assign, htargets] at htarget
      exact hgeo targets htargets target htarget
  | title => exact clean_copied
  | expiredUrl => exact clean_copied
  | iosUrl => exact clean_copied
  | androidUrl => exact clean_copied
  | utmSource => exact clean_copied
  | utmMedium => exact clean_copied
  | utmCampaign => exact clean_copied
  | utmTerm => exact clean_copied
  | utmContent => exact clean_copied
  | _ => trivial

theorem kept_readBack {db : Database} {r : LinkRow} (h : WrittenRow db r) :
    kept (readBack db r) = readBack db r := by
  obtain ⟨link, columns, -, hcolumns, hassign, -⟩ := h.settings
  have hvisibility : (readBack db r).visibility ≠ [] := by
    rw [← hassign]
    change columns.visibility ≠ []
    rcases checkVisibility_some (linkColumns_iff.mp hcolumns).visibility with h | h <;> rw [h] <;>
      decide
  rw [kept, if_neg hvisibility]

/-- What the edit of a link makes of each of its settings. -/
theorem settings_of_stores {before after : Database} {hash : SecretHash} {p : Payload} {id : ℤ}
    {update : LinkUpdate} {r r' : LinkRow} (hrow : WrittenRow before r) (hid : r.id = id)
    (hdecoded : Decoded p)
    (happly : applyLinkPayload hash (readBack before r) p false =
      .ok (update.link, update.passwordHash, update.passwordChanged))
    (hvalid : validateLink
      (updateLinkInput update.link update.passwordHash update.passwordChanged) = none)
    (hstored : ∀ f, f ≠ .password → stored id f (value update.link f) =
      some (value (readBack after r') f)) {f : Setting} (hf : f ≠ .password) :
    value (readBack after r') f =
      if p.names f then normal (p.asked f)
      else if f = .tags then normal (value (readBack before r) f)
      else value (readBack before r) f := by
  subst hid
  have hlink := (applyLinkPayload_ok happly).1
  have haccepted := validateLink_none.mp hvalid
  have hwritten := hstored f hf
  rw [hlink] at hwritten
  by_cases hnamed : p.names f = true
  · rw [if_pos hnamed]
    rw [value_assign_named hnamed] at hwritten
    refine stored_normal hwritten (clean_asked hdecoded ?_ f)
    intro targets htargets target htarget
    have hgeo := haccepted.geo
    simp only [updateLinkInput, hlink, Payload.assign, htargets, Option.getD_some] at hgeo
    exact (hgeo target htarget).1
  · rw [if_neg hnamed]
    rw [value_assign_unnamed hnamed, kept_readBack hrow] at hwritten
    by_cases htags : f = .tags
    · subst htags
      rw [if_pos rfl]
      exact stored_normal hwritten (tags_valid hrow)
    · rw [if_neg htags]
      by_cases hgeo : f = .geoTargets
      · subst hgeo
        obtain ⟨hclean, hnormal⟩ := geo_normal hrow
        exact (stored_normal hwritten hclean).trans hnormal
      · rw [stored_own hrow hf hgeo htags] at hwritten
        exact (Option.some.inj hwritten).symm

/-- The flag of the password follows its hash. -/
theorem password_setting {before after : Database} {hash : SecretHash} {p : Payload}
    {r r' : LinkRow} {secret : Str} (hsecret : p.secret hash = .ok secret)
    (hafter : r'.passwordHash = if p.passwordChanged then secret else r.passwordHash) :
    value (readBack after r') .password =
      if p.names .password then normal (p.asked .password)
      else value (readBack before r) .password := by
  change Value.flag (decide (0 < r'.passwordHash.length)) =
    if p.passwordChanged then normal (p.asked .password)
    else Value.flag (decide (0 < r.passwordHash.length))
  rw [hafter]
  by_cases hchanged : p.passwordChanged = true
  · rw [if_pos hchanged, if_pos hchanged]
    have hwritten := secret_written hsecret
    have hflag : decide (0 < secret.length) = p.password.isSome := by
      rw [Bool.eq_iff_iff, decide_eq_true_eq, List.length_pos_iff]
      exact hwritten
    rw [hflag]
    simp only [Payload.passwordChanged, Bool.or_eq_true] at hchanged
    simp only [Payload.asked, value, Payload.assign, normal]
    by_cases hpassword : p.password.isSome = true
    · rw [if_pos hpassword, hpassword]
    · rw [if_neg hpassword, if_pos (hchanged.resolve_left hpassword), Bool.not_eq_true] at *
      rw [hpassword]
  · rw [if_neg hchanged, if_neg hchanged]

/-- An edit that is performed, read back: the tags are normalised even where the payload does not
name them. -/
theorem edited {server : Server} {w : World} {c : Caller} {calls : Calls} {reader : Script}
    {id : ℤ} {before : Link} {p : Payload} (hworks : Works calls) (hreader : reader.Healthy)
    (hintact : Intact w.db) (hread : linkByID reader w.db c.user id = .ok before)
    (hdecoded : Decoded p) (hperformed : Performed (handle server w c calls (.edit id p)).1) :
    ∃ after, linkByID reader (handle server w c calls (.edit id p)).2.db c.user id = .ok after ∧
      SameRow (calls.hash 0) p before after ∧ ∀ f, value after f =
        if p.names f then normal (p.asked f)
        else if f = .tags then normal (value before f) else value before f := by
  rcases edit_cases server w c p hworks id with ⟨update, hedits, -, hstores⟩ | ⟨-, hnot⟩
  · obtain ⟨-, hplaced, hmerges, hmanaged, hfits⟩ := edits_one_iff.mp hedits
    obtain ⟨link, hseen, happly⟩ := hmerges.merged
    obtain ⟨hshown, hid⟩ := shown_of_linkByID hread
    obtain rfl : before = link := (hid ▸ seen_of_shown hshown).unique hseen
    obtain ⟨r, hr, -, -, rfl⟩ := hseen
    obtain ⟨q, columns, updatedAt, hq, hcolumns, hafter⟩ := hstores.row
    obtain rfl : q = r := Option.some.inj (hq.symm.trans hr)
    obtain ⟨hmem, hrid⟩ := mem_link hr
    obtain ⟨m, hm, hmid, hlive, hmanage⟩ := managed_of_stores hstores hmanaged
    obtain ⟨after, hfound⟩ := (@linkByID_ok_iff reader _ c.user id).mpr
      ⟨hplaced, hreader.2.1 0, hreader.2.1 1, m, hm, hmid, hlive, manage_view hmanage⟩
    obtain ⟨hnow, hnowid⟩ := shown_of_linkByID hfound
    obtain ⟨r', hr', -, -, rfl⟩ := hnowid ▸ seen_of_shown hnow
    obtain rfl := Option.some.inj (hafter.symm.trans hr')
    obtain ⟨-, hsecret, hchanged⟩ := applyLinkPayload_ok happly
    obtain ⟨r'', hr'', hstored⟩ := hstores.stored (redirectCode_of_valid hfits.valid)
    obtain rfl := Option.some.inj (hafter.symm.trans hr'')
    have hhash : (columns.assign (if update.passwordChanged then some update.passwordHash else none)
        updatedAt q).passwordHash =
          if p.passwordChanged then update.passwordHash else q.passwordHash := by
      rw [← hchanged]
      unfold LinkColumns.assign
      dsimp only
      split <;> rfl
    refine ⟨_, hfound, ⟨rfl, rfl, rfl, rfl, rfl, rfl, rfl, ?_⟩, fun f => ?_⟩
    · by_cases hnew : p.passwordChanged = true
      · rw [if_pos hnew] at hhash ⊢
        exact hsecret.trans (congrArg Except.ok hhash.symm)
      · rw [if_neg hnew] at hhash ⊢
        exact hhash
    · by_cases hf : f = .password
      · subst hf
        rw [if_neg (by decide : ¬ Setting.password = .tags)]
        exact password_setting hsecret hhash
      · refine settings_of_stores (hintact.written q hmem) hrid hdecoded happly hfits.valid ?_ hf
        intro f hf
        rw [stored_updateLinkInput id update.link update.passwordHash update.passwordChanged hf]
        exact hstored f hf
  · exact absurd hperformed hnot

theorem geo_taken {db : Database} {r : LinkRow} (h : WrittenRow db r) (id : ℤ) :
    ((readBack db r).geoTargets.mapM (geoRow id)).isSome := by
  obtain ⟨link, columns, hvalid, -, -, hgeo⟩ := h.settings
  apply Option.isSome_iff_exists.mpr
  apply mapM_ok_iff.mpr
  intro target htarget
  obtain ⟨g, hg, rfl⟩ := List.mem_map.mp htarget
  rw [List.mem_mergeSort] at hg
  obtain ⟨given, hgiven, hrow⟩ := mem_mapM hgeo g hg
  have hiso := ((validateLink_none.mp hvalid).geo given hgiven).1
  simp only [geoRow, Option.bind_eq_bind, Option.bind_eq_some_iff] at hrow
  obtain ⟨code, hcode, url, hurl, hg⟩ := hrow
  cases hg
  rw [bpchar_iso hiso] at hcode
  cases hcode
  have htrimmed := text_some hurl
  have hkept : text (trimSpace url) = some url := by
    rw [htrimmed, trimSpace_trimSpace, hurl, htrimmed]
  exact ⟨⟨id, country given, url⟩, by
    simp only [geoRow, country_iso hiso, bpchar_iso hiso, hkept, Option.bind_eq_bind,
      Option.bind_some]⟩

theorem assign_empty {db : Database} {r : LinkRow} (h : WrittenRow db r) :
    ({} : Payload).assign false (readBack db r) = readBack db r := kept_readBack h

theorem visibility_readBack {db : Database} {r : LinkRow} (h : WrittenRow db r) :
    (readBack db r).visibility = lit "private" ∨ (readBack db r).visibility = lit "department" := by
  obtain ⟨link, columns, -, hcolumns, hassign, -⟩ := h.settings
  rw [← hassign]
  exact checkVisibility_some (linkColumns_iff.mp hcolumns).visibility

theorem updateLinkInput_same {link : Link} (h : link.redirectCode ≠ 0) :
    updateLinkInput link [] false = link := by
  unfold updateLinkInput
  rw [if_neg h]
  rfl

/-- A payload that merges to the link as it was read is accepted when that link passes the
checks. -/
theorem same_performed {server : Server} {w : World} {c : Caller} {calls : Calls} {reader : Script}
    {id : ℤ} {before : Link} {p : Payload} (hworks : Works calls) (hintact : Intact w.db)
    (hread : linkByID reader w.db c.user id = .ok before) (hvalid : validateLink before = none)
    (hmanaged : Managed w.db c.user id) (hslug : p.slug = none)
    (happly : applyLinkPayload (calls.hash 0) before p false = .ok (before, [], false)) :
    Performed (handle server w c calls (.edit id p)).1 := by
  rcases edit_cases server w c p hworks id with ⟨-, -, hperformed, -⟩ | ⟨hno, -⟩
  · exact hperformed
  · exfalso
    apply hno
    have hplaced := (linkByID_ok_iff.mp ⟨before, hread⟩).1
    obtain ⟨hshown, hid⟩ := shown_of_linkByID hread
    have hseen := hid ▸ seen_of_shown hshown
    have hseen' := hseen
    obtain ⟨r, hr, -, -, rfl⟩ := hseen'
    have hrow := hintact.written r (mem_link hr).1
    obtain ⟨link, columns, -, hcolumns, hassign, -⟩ := hrow.settings
    refine ⟨⟨id, readBack w.db r, [], false⟩, edits_one_iff.mpr ⟨hslug, hplaced,
      ⟨rfl, _, hseen, happly⟩, hmanaged, ?_⟩⟩
    dsimp only
    rw [updateLinkInput_same (redirectCode_of_valid hvalid)]
    refine ⟨hvalid, ?_, geo_taken hrow id⟩
    rw [linkColumns_readBack hcolumns hassign]
    rfl

/-- The empty payload is accepted for a link that passes the checks as it was read. -/
theorem empty_performed {server : Server} {w : World} {c : Caller} {calls : Calls} {reader : Script}
    {id : ℤ} {before : Link} (hworks : Works calls) (hintact : Intact w.db)
    (hread : linkByID reader w.db c.user id = .ok before) (hvalid : validateLink before = none)
    (hmanaged : Managed w.db c.user id) : Performed (handle server w c calls (.edit id {})).1 := by
  apply same_performed hworks hintact hread hvalid hmanaged rfl
  obtain ⟨hshown, hid⟩ := shown_of_linkByID hread
  obtain ⟨r, hr, -, -, rfl⟩ := hid ▸ seen_of_shown hshown
  have hrow := hintact.written r (mem_link hr).1
  have hvisibility := visibility_readBack hrow
  unfold applyLinkPayload
  rw [assign_empty hrow, if_neg (by decide), if_neg (by simp; tauto), if_neg (by decide)]
  rfl

theorem onlyNamed_iff {hash : SecretHash} {p : Payload} {before after : Link}
    (hsame : SameRow hash p before after) (hsettings : ∀ f, value after f =
      if p.names f then normal (p.asked f)
      else if f = .tags then normal (value before f) else value before f) :
    OnlyNamed hash p before after ↔ p.tags.isSome ∨ Normalized before := by
  constructor
  · intro h
    by_cases hnamed : p.names .tags = true
    · exact Or.inl hnamed
    · apply Or.inr
      have htags := (h.settings .tags).symm.trans (hsettings .tags)
      rw [if_neg hnamed, if_neg hnamed, if_pos rfl] at htags
      exact (Value.tags.inj htags).symm
  · intro h
    refine ⟨hsame, fun f => ?_⟩
    rw [hsettings f]
    by_cases hnamed : p.names f = true
    · rw [if_pos hnamed, if_pos hnamed]
    · rw [if_neg hnamed, if_neg hnamed]
      by_cases htags : f = .tags
      · subst htags
        rw [if_pos rfl]
        exact congrArg Value.tags (h.resolve_left hnamed)
      · rw [if_neg htags]

/-- Two links with the same row and the same settings are one. -/
theorem link_ext {hash : SecretHash} {before after : Link} (h : OnlyNamed hash {} before after) :
    after = before := by
  have hvalue := h.settings
  have htarget := Value.text.inj (hvalue .targetUrl)
  have htitle := Value.text.inj (hvalue .title)
  have hvisibility := Value.text.inj (hvalue .visibility)
  have hcode := Value.code.inj (hvalue .redirectCode)
  have hexpires := Value.time.inj (hvalue .expiresAt)
  have hlimit := Value.limit.inj (hvalue .maxClicks)
  have hexpired := Value.text.inj (hvalue .expiredUrl)
  have hios := Value.text.inj (hvalue .iosUrl)
  have handroid := Value.text.inj (hvalue .androidUrl)
  have hforward := Value.flag.inj (hvalue .forwardQuery)
  have hsource := Value.text.inj (hvalue .utmSource)
  have hmedium := Value.text.inj (hvalue .utmMedium)
  have hcampaign := Value.text.inj (hvalue .utmCampaign)
  have hterm := Value.text.inj (hvalue .utmTerm)
  have hcontent := Value.text.inj (hvalue .utmContent)
  have htags := Value.tags.inj (hvalue .tags)
  have hgeo := Value.geo.inj (hvalue .geoTargets)
  have hprotected := Value.flag.inj (hvalue .password)
  obtain ⟨⟨hid, hslug, howner, htenant, hclicks, hcreated, hdeleted, hpassword⟩, -⟩ := h
  have hhash : after.passwordHash = before.passwordHash := hpassword
  cases after
  cases before
  subst hid hslug howner htenant hclicks hcreated hdeleted hhash htarget htitle hvisibility hcode
    hexpires hlimit hexpired hios handroid hforward hsource hmedium hcampaign hterm hcontent htags
    hgeo hprotected
  rfl

/-- For a link that passes the checks and a user who may change it, an accepted edit changes only
what its payload names, and the empty edit is accepted and changes nothing, exactly when the
payload names the tags or these are stored as the store would write them again. -/
theorem only_named_iff (server : Server) (w : World) (c : Caller) (calls : Calls) (reader : Script)
    (id : ℤ) (before : Link) (hworks : Works calls) (hreader : reader.Healthy)
    (hintact : Intact w.db) (hread : linkByID reader w.db c.user id = .ok before)
    (hvalid : validateLink before = none) (hmanaged : Managed w.db c.user id) :
    (∀ p, Decoded p → Performed (handle server w c calls (.edit id p)).1 →
      ((∃ after, linkByID reader (handle server w c calls (.edit id p)).2.db c.user id = .ok after ∧
          OnlyNamed (calls.hash 0) p before after) ↔ p.tags.isSome ∨ Normalized before)) ∧
      Performed (handle server w c calls (.edit id {})).1 ∧
      (linkByID reader (handle server w c calls (.edit id {})).2.db c.user id = .ok before ↔
        Normalized before) := by
  have hedited : ∀ p, Decoded p → Performed (handle server w c calls (.edit id p)).1 →
      ((∃ after, linkByID reader (handle server w c calls (.edit id p)).2.db c.user id = .ok after ∧
          OnlyNamed (calls.hash 0) p before after) ↔ p.tags.isSome ∨ Normalized before) := by
    intro p hdecoded hperformed
    obtain ⟨after, hafter, hsame, hsettings⟩ :=
      edited hworks hreader hintact hread hdecoded hperformed
    constructor
    · rintro ⟨found, hfound, honly⟩
      rw [hafter, Except.ok.injEq] at hfound
      subst hfound
      exact (onlyNamed_iff hsame hsettings).mp honly
    · intro h
      exact ⟨after, hafter, (onlyNamed_iff hsame hsettings).mpr h⟩
  have hempty : Performed (handle server w c calls (.edit id {})).1 :=
    empty_performed hworks hintact hread hvalid hmanaged
  have hdecoded : Decoded {} := by
    intro tags htags
    cases htags
  refine ⟨hedited, hempty, ?_, ?_⟩
  · intro hsame
    obtain ⟨after, hafter, -, hsettings⟩ := edited hworks hreader hintact hread hdecoded hempty
    rw [hsame, Except.ok.injEq] at hafter
    subst hafter
    exact (Value.tags.inj (hsettings .tags)).symm
  · intro hnormal
    obtain ⟨after, hafter, honly⟩ := (hedited {} hdecoded hempty).mpr (Or.inr hnormal)
    rw [hafter, link_ext honly]

/-! An administrator edits the one link of a store. -/

theorem normalizeTags_nil : normalizeTags [] = [] := by
  unfold normalizeTags
  exact List.mergeSort_nil

/-- A tag that is kept stands alone. -/
theorem normalizeTags_single {tag : Str} (h : trimSpace tag = tag) (hne : tag ≠ [])
    (hlength : tag.length ≤ 40) : normalizeTags [tag] = [tag] := by
  have hkeep : keepTag [] tag = [tag] := by
    unfold keepTag
    rw [h, if_neg (by simp [hne, hlength])]
    rfl
  rw [normalizeTags_eq, List.foldl_cons, hkeep, List.foldl_nil, List.mergeSort_singleton]

theorem normalizeTags_pair : normalizeTags [lit "guide", lit "mail"] =
    [lit "guide", lit "mail"] := by
  have hkept : [lit "guide", lit "mail"].foldl keepTag [] = [lit "guide", lit "mail"] := by decide
  rw [normalizeTags_eq, hkept]
  exact List.mergeSort_of_pairwise (by decide)

/-- A link with settings of every kind that a temporary redirect can have. -/
def campaignRow : LinkRow :=
  { sampleLink with
    title := lit "Docs"
    visibility := lit "department"
    expiresAt := some ⟨1798761600 * GoTime.second⟩
    maxClicks := some 100
    expiredUrl := lit "https://example.com/over"
    iosUrl := lit "https://example.com/ios"
    forwardQuery := true
    utmSource := lit "mail"
    tags := [lit "guide", lit "mail"] }

def campaign : World :=
  { LinkResponses.colleagues with
    db := { Database.single campaignRow with
      geoTargets := ⟨[⟨1, lit "DE", lit "https://example.com/de"⟩], List.pairwise_singleton _ _⟩ } }

def campaignLink : Link := readBack campaign.db campaignRow

theorem geoTargets_campaign :
    campaignLink.geoTargets = [⟨lit "DE", lit "https://example.com/de"⟩] := by
  change (List.mergeSort [_] _).map _ = _
  rw [List.mergeSort_singleton]
  rfl

theorem accepted_campaign : Accepted campaignLink := by
  have hcountry : country ⟨lit "DE", lit "https://example.com/de"⟩ = lit "DE" :=
    country_iso iso_germany
  constructor
  · decide
  · decide
  · have hurls : ∀ entry ∈ optionalUrls campaignLink,
        entry.2 = [] ∨ validHTTPURL entry.2 = none := by
      decide
    exact hurls
  · decide
  · intro hpermanent
    revert hpermanent
    decide
  · rintro m ⟨⟩
    decide
  · rw [geoTargets_campaign]
    intro target htarget
    obtain rfl := List.mem_singleton.mp htarget
    exact ⟨hcountry ▸ iso_germany, by decide⟩
  · rw [geoTargets_campaign]
    exact List.nodup_singleton _
  · have htags : campaignLink.tags = [lit "guide", lit "mail"] := rfl
    rw [htags, normalizeTags_pair]
    decide

theorem columns_campaign : linkColumns campaignLink =
    some ⟨campaignRow.targetUrl, campaignRow.title, campaignRow.visibility, 302,
      campaignRow.expiresAt, campaignRow.maxClicks, campaignRow.expiredUrl, campaignRow.iosUrl,
      campaignRow.androidUrl, true, campaignRow.utmSource, campaignRow.utmMedium,
      campaignRow.utmCampaign, campaignRow.utmTerm, campaignRow.utmContent, campaignRow.tags⟩ := by
  apply linkColumns_iff.mpr
  constructor
  · decide
  · decide
  · decide
  · decide
  · decide
  · rfl
  · decide
  · decide
  · decide
  · rfl
  · decide
  · decide
  · decide
  · decide
  · decide
  · have htags : campaignRow.tags = (normalizeTags campaignRow.tags).map toValid := by
      rw [show campaignRow.tags = [lit "guide", lit "mail"] from rfl, normalizeTags_pair]
      decide
    exact htags

theorem intact_campaign : Intact campaign.db := by
  constructor
  · intro r hr
    obtain rfl := List.mem_singleton.mp hr
    refine ⟨(by decide : slugRe campaignRow.slug = true), campaignLink, _,
      validateLink_none.mpr accepted_campaign, columns_campaign, rfl, ?_⟩
    have hcountry : country ⟨lit "DE", lit "https://example.com/de"⟩ = lit "DE" :=
      country_iso iso_germany
    have hrow : geoRow campaignRow.id ⟨lit "DE", lit "https://example.com/de"⟩ =
        some ⟨1, lit "DE", lit "https://example.com/de"⟩ := by
      rw [geoRow, hcountry]
      decide
    rw [geoTargets_campaign, List.mapM_cons, hrow]
    decide
  · intro g hg
    obtain rfl := List.mem_singleton.mp hg
    exact ⟨campaignRow, List.mem_singleton_self _, rfl⟩
  · intro r hr
    obtain rfl := List.mem_singleton.mp hr
    exact ⟨zero_lt_one, Int.lt_succ_self 1⟩
  · exact zero_lt_two

theorem campaign_managed : Managed campaign.db administrator.user 1 :=
  ⟨_, List.mem_singleton_self _, rfl, rfl, trivial⟩

theorem only_named_iff_campaign :
    (∀ p, Decoded p → Performed (handle LinkResponses.deployed campaign administrator
        LinkResponses.healthy (.edit 1 p)).1 →
      ∃ after, linkByID {} (handle LinkResponses.deployed campaign administrator
          LinkResponses.healthy (.edit 1 p)).2.db administrator.user 1 = .ok after ∧
        OnlyNamed (LinkResponses.healthy.hash 0) p campaignLink after) ∧
      Performed (handle LinkResponses.deployed campaign administrator
        LinkResponses.healthy (.edit 1 {})).1 ∧
      linkByID {} (handle LinkResponses.deployed campaign administrator
        LinkResponses.healthy (.edit 1 {})).2.db administrator.user 1 = .ok campaignLink := by
  have hnormal : Normalized campaignLink := normalizeTags_pair
  obtain ⟨hedited, hperformed, hempty⟩ := only_named_iff LinkResponses.deployed campaign
    administrator LinkResponses.healthy {} 1 campaignLink works_healthy
    ⟨rfl, fun _ => rfl, rfl, rfl⟩ intact_campaign rfl (validateLink_none.mpr accepted_campaign)
    campaign_managed
  exact ⟨fun p hdecoded hp => (hedited p hdecoded hp).mpr (Or.inr hnormal), hperformed,
    hempty.mpr hnormal⟩

/-- The sample link with the stored form of some tags. -/
theorem intact_tagged {given stored : List Str} (h : (normalizeTags given).map toValid = stored)
    (hlength : given.length ≤ 20) :
    Intact (Database.single { sampleLink with tags := stored }) := by
  subst h
  have haccepted : Accepted (scanLink sampleLink) := validateLink_none.mp (by decide +kernel)
  constructor
  · intro r hr
    obtain rfl := List.mem_singleton.mp hr
    refine ⟨(by decide : slugRe sampleLink.slug = true),
      { scanLink sampleLink with tags := given }, _, ?_, rfl, rfl, rfl⟩
    exact validateLink_none.mpr ⟨haccepted.visibility, haccepted.target, haccepted.optional,
      haccepted.code, haccepted.static, haccepted.limit, haccepted.geo, haccepted.distinct,
      (length_normalizeTags given).trans hlength⟩
  · intro g hg
    cases hg
  · intro r hr
    obtain rfl := List.mem_singleton.mp hr
    exact ⟨zero_lt_one, Int.lt_succ_self 1⟩
  · exact zero_lt_two

/-- A world whose one link has these tags. -/
def tagged (stored : List Str) : World :=
  { LinkResponses.colleagues with db := Database.single { sampleLink with tags := stored } }

def taggedLink (stored : List Str) : Link :=
  readBack (tagged stored).db { sampleLink with tags := stored }

theorem tagged_valid {stored : List Str} (h : Intact (tagged stored).db) :
    validateLink (taggedLink stored) = none :=
  (h.written _ (List.mem_singleton_self _)).valid rfl

theorem tagged_managed (stored : List Str) :
    Managed (tagged stored).db administrator.user 1 :=
  ⟨_, List.mem_singleton_self _, rfl, rfl, trivial⟩

/-- Fourteen bytes of another encoding, as a column holds them. -/
def garbled : Str := (List.replicate 14 replacement.bytes).flatten

theorem normalizeTags_garbled : normalizeTags [garbled] = [] := by
  rw [List.eq_nil_iff_forall_not_mem]
  intro t ht
  obtain ⟨-, hlength, x, hx, htrim⟩ := mem_normalizeTags.mp ht
  obtain rfl := List.mem_singleton.mp hx
  have hsame : trimSpace garbled = garbled := by decide
  rw [← htrim, hsame] at hlength
  revert hlength
  decide

/-- A tag that grew in its column to more than 40 bytes is lost in an edit that names nothing. -/
theorem tag_lost :
    Intact (tagged [garbled]).db ∧
      linkByID {} (tagged [garbled]).db administrator.user 1 = .ok (taggedLink [garbled]) ∧
      validateLink (taggedLink [garbled]) = none ∧
      Performed (handle LinkResponses.deployed (tagged [garbled]) administrator
        LinkResponses.healthy (.edit 1 {})).1 ∧
      ∃ after, linkByID {} (handle LinkResponses.deployed (tagged [garbled]) administrator
          LinkResponses.healthy (.edit 1 {})).2.db administrator.user 1 = .ok after ∧
        (taggedLink [garbled]).tags = [garbled] ∧ after.tags = [] := by
  have hstored : (normalizeTags [List.replicate 14 0xE9]).map toValid = [garbled] := by
    rw [normalizeTags_single (by decide) (by decide) (by decide)]
    decide
  have hintact : Intact (tagged [garbled]).db := intact_tagged hstored (by decide)
  have hread : linkByID {} (tagged [garbled]).db administrator.user 1 =
      .ok (taggedLink [garbled]) := rfl
  have hhealthy : Script.Healthy {} := ⟨rfl, fun _ => rfl, rfl, rfl⟩
  have hperformed := @empty_performed LinkResponses.deployed _ _ _ _ _ _ works_healthy hintact hread
    (tagged_valid hintact) (tagged_managed [garbled])
  have hdecoded : Decoded {} := by
    intro tags htags
    cases htags
  obtain ⟨after, hafter, -, hsettings⟩ :=
    edited works_healthy hhealthy hintact hread hdecoded hperformed
  refine ⟨hintact, hread, tagged_valid hintact, hperformed, after, hafter, rfl, ?_⟩
  rw [← normalizeTags_garbled]
  exact Value.tags.inj (hsettings .tags)

end PartialEdits
