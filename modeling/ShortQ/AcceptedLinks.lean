import ShortQ.LinkWrites
import ShortQ.Runes

/-! # Accepted links

What `validateLink` accepts, field by field, and that it accepts again what the columns make
of an accepted link. -/
namespace AcceptedLinks

open GoText
open LinkCalls
open LinkPayload
open LinkScopes
open LinkStore
open LinkValidation
open LinkWrites
open Models
open Runes
open Schema

/-- What `validateLink` asks of a link. -/
structure Accepted (link : Link) : Prop where
  visibility : link.visibility = [] ∨ link.visibility = lit "private" ∨
    link.visibility = lit "department"
  target : validHTTPURL link.targetUrl = none
  optional : ∀ entry ∈ optionalUrls link, entry.2 = [] ∨ validHTTPURL entry.2 = none
  code : link.redirectCode = 301 ∨ link.redirectCode = 302 ∨ link.redirectCode = 307 ∨
    link.redirectCode = 308
  static : permanent link.redirectCode = true → dynamic link = false
  limit : ∀ m, link.maxClicks = some m → 1 ≤ m
  geo : ∀ target ∈ link.geoTargets, country target ∈ isoCountryCodes ∧
    validHTTPURL target.targetUrl = none
  distinct : (link.geoTargets.map country).Nodup
  tags : (normalizeTags link.tags).length ≤ 20

theorem checkOptional_none {entries : List (Str × Str)} :
    checkOptional entries = none ↔ ∀ entry ∈ entries, entry.2 = [] ∨
      validHTTPURL entry.2 = none := by
  induction entries with
  | nil => simp [checkOptional]
  | cons entry rest ih =>
    obtain ⟨name, raw⟩ := entry
    rw [List.forall_mem_cons, ← ih, checkOptional]
    by_cases hempty : raw = []
    · simp [hempty]
    · rw [if_neg hempty]
      cases hvalid : validHTTPURL raw <;> simp [hempty]

theorem refused_country (codes seen : List Str) (c : Str) :
    (!codes.contains c || seen.contains c) = true ↔ ¬ (c ∈ codes ∧ c ∉ seen) := by
  simp only [Bool.or_eq_true, Bool.not_eq_true', List.contains_eq_mem, decide_eq_false_iff_not,
    decide_eq_true_eq]
  tauto

theorem checkGeo_none {seen : List Str} {targets : List GeoTarget} :
    checkGeo seen targets = none ↔
      (∀ target ∈ targets, country target ∈ isoCountryCodes ∧
        validHTTPURL target.targetUrl = none) ∧
      (targets.map country).Nodup ∧ ∀ target ∈ targets, country target ∉ seen := by
  induction targets generalizing seen with
  | nil => exact ⟨fun _ => ⟨by simp, by simp, by simp⟩, fun _ => rfl⟩
  | cons target rest ih =>
    rw [checkGeo, List.forall_mem_cons, List.forall_mem_cons, List.map_cons, List.nodup_cons]
    by_cases hcountry : country target ∈ isoCountryCodes ∧ country target ∉ seen
    · rw [if_neg (by rw [refused_country]; exact not_not_intro hcountry)]
      cases hvalid : validHTTPURL target.targetUrl with
      | some text => exact ⟨fun h => (by cases h), fun h => (by cases h.1.1.2)⟩
      | none =>
        dsimp only
        rw [ih]
        constructor
        · rintro ⟨hall, hnodup, hother⟩
          refine ⟨⟨⟨hcountry.1, rfl⟩, hall⟩, ⟨?_, hnodup⟩, hcountry.2, fun t ht hseen =>
            hother t ht (List.mem_cons_of_mem _ hseen)⟩
          rintro hmem
          obtain ⟨t, ht, heq⟩ := List.mem_map.mp hmem
          exact hother t ht (heq ▸ List.mem_cons_self)
        · rintro ⟨⟨-, hall⟩, ⟨hfirst, hnodup⟩, -, hother⟩
          refine ⟨hall, hnodup, fun t ht hseen => ?_⟩
          rcases List.mem_cons.mp hseen with heq | hseen
          · exact hfirst (heq ▸ List.mem_map_of_mem ht)
          · exact hother t ht hseen
    · rw [if_pos (by rw [refused_country]; exact hcountry)]
      exact ⟨fun h => (by cases h), fun h => absurd ⟨h.1.1.1, h.2.2.1⟩ hcountry⟩

theorem validateLink_none {link : Link} : validateLink link = none ↔ Accepted link := by
  constructor
  · intro h
    unfold validateLink at h
    split at h
    · cases h
    rename_i hvisibility
    split at h
    · cases h
    rename_i htarget
    split at h
    · cases h
    rename_i hoptional
    split at h
    · cases h
    rename_i hcode
    split at h
    · cases h
    rename_i hstatic
    split at h
    · cases h
    rename_i hlimit
    split at h
    · cases h
    rename_i hgeo
    split at h
    · cases h
    rename_i htags
    obtain ⟨htargets, hnodup, -⟩ := checkGeo_none.mp hgeo
    constructor
    · simp only [ne_eq, decide_not, Bool.and_eq_true, Bool.not_eq_true',
        decide_eq_false_iff_not] at hvisibility
      tauto
    · exact htarget
    · exact checkOptional_none.mp hoptional
    · simp only [ne_eq, decide_not, Bool.and_eq_true, Bool.not_eq_true',
        decide_eq_false_iff_not] at hcode
      tauto
    · intro hpermanent
      simpa [hpermanent] using hstatic
    · intro m hm
      simpa [hm] using hlimit
    · exact htargets
    · exact hnodup
    · exact Nat.le_of_not_lt htags
  · intro h
    have hgeo : checkGeo [] link.geoTargets = none :=
      checkGeo_none.mpr ⟨h.geo, h.distinct, by simp⟩
    have hlimit : ¬ link.maxClicks.any (· < 1) = true := by
      cases hm : link.maxClicks with
      | none => simp
      | some m =>
        have := h.limit m hm
        simpa using this
    have hstatic : ¬ (dynamic link && permanent link.redirectCode) = true := by
      intro hboth
      rw [Bool.and_eq_true] at hboth
      rw [h.static hboth.2] at hboth
      cases hboth.1
    unfold validateLink
    rw [if_neg (by have := h.visibility; simp; tauto), h.target]
    dsimp only
    rw [checkOptional_none.mpr h.optional]
    dsimp only
    rw [if_neg (by have := h.code; simp; tauto), if_neg hstatic, if_neg hlimit, hgeo]
    dsimp only
    rw [if_neg (Nat.not_lt.mpr h.tags)]

/-! Country codes. -/

def upperCase (b : UInt8) : Bool := 65 ≤ b && b ≤ 90

theorem iso_checks : (isoCountryCodes.all (fun c => decide (c.length = 2) && c.all upperCase) &&
    isoCountryCodes.contains (lit "DE")) = true := by
  unfold isoCountryCodes
  simp only [lit_append]
  refine (congrArg (fun s => (fields s).all (fun c => decide (c.length = 2) && c.all upperCase) &&
      (fields s).contains (lit "DE"))
    (congrArg₂ _ (congrArg₂ _ (congrArg₂ _ (congrArg₂ _ (congrArg₂ _ (congrArg₂ _ (congrArg₂ _
      (congrArg₂ _ (lit_ofList _) (lit_ofList _)) (lit_ofList _)) (lit_ofList _)) (lit_ofList _))
      (lit_ofList _)) (lit_ofList _)) (lit_ofList _)) (lit_ofList _))).trans ?_
  decide +kernel

theorem iso_germany : lit "DE" ∈ isoCountryCodes := by
  have hcontains := (Bool.and_eq_true_iff.mp iso_checks).2
  rwa [List.contains_iff_mem] at hcontains

/-- A country code is two capital letters. -/
theorem iso_spec {c : Str} (h : c ∈ isoCountryCodes) :
    c.length = 2 ∧ ∀ b ∈ c, 65 ≤ b.toNat ∧ b.toNat ≤ 90 := by
  have hc := List.all_eq_true.mp (Bool.and_eq_true_iff.mp iso_checks).1 c h
  simp only [Bool.and_eq_true, decide_eq_true_eq, List.all_eq_true, upperCase] at hc
  refine ⟨hc.1, fun b hb => ?_⟩
  obtain ⟨hlow, hhigh⟩ := hc.2 b hb
  exact ⟨hlow, hhigh⟩

theorem runes_iso {c : Str} (h : c ∈ isoCountryCodes) : runes c = c.map single := by
  refine runes_ascii fun b hb => ?_
  have hbound := ((iso_spec h).2 b hb).2
  exact UInt8.lt_iff_toNat_lt.mpr (by change b.toNat < 128; omega)

theorem country_iso {c url : Str} (h : c ∈ isoCountryCodes) : country ⟨c, url⟩ = c := by
  have htrim : trimSpace c = c := by
    refine trimSpace_of_solid fun r hr => ?_
    rw [runes_iso h] at hr
    obtain ⟨b, hb, rfl⟩ := List.mem_map.mp hr
    have hbound := (iso_spec h).2 b hb
    simp only [isSpace, single, Bool.or_eq_true, Bool.and_eq_true, decide_eq_true_eq]
    omega
  have hupper : ∀ b ∈ c, upperRune (single b) = [b] := by
    intro b hb
    have hbound := (iso_spec h).2 b hb
    simp only [upperRune, single]
    rw [if_neg (by simp; omega), if_neg (by omega), if_neg (by omega)]
  rw [country, htrim, toUpper, runes_iso h, List.flatMap_map, List.flatMap_congr hupper,
    List.flatMap_singleton']

theorem text_iso {c : Str} (h : c ∈ isoCountryCodes) : text c = some c := by
  have hvalid : validUtf8 c = true := by
    rw [validUtf8, runes_iso h, List.all_map]
    exact List.all_eq_true.mpr fun _ _ => rfl
  have hzero : c.contains 0 = false := by
    rw [List.contains_eq_mem, decide_eq_false_iff_not]
    intro hb
    have hbound := ((iso_spec h).2 0 hb).1
    simp at hbound
  rw [text, hvalid, hzero]
  rfl

theorem bpchar_iso {c : Str} (h : c ∈ isoCountryCodes) : bpchar 2 c = some c := by
  have hlen : (runes c).length = 2 := by rw [runes_iso h, List.length_map, (iso_spec h).1]
  rw [bpchar, varchar, text_iso h, if_neg (by simp), if_pos (by omega), Option.map_some, hlen]
  simp

/-! The stored form of an accepted link. -/

theorem text_some {s t : Str} (h : text s = some t) : t = s := by
  unfold text at h
  split at h
  · exact (Option.some.inj h).symm
  · cases h

theorem varchar_short {n : ℕ} {s t : Str} (h : varchar n s = some t)
    (hlen : (runes s).length ≤ n) : t = s := by
  unfold varchar at h
  by_cases hnone : text s = none
  · rw [if_pos hnone] at h
    cases h
  · rw [if_neg hnone, if_pos hlen] at h
    exact (Option.some.inj h).symm

theorem validHTTPURL_trimSpace (raw : Str) : validHTTPURL (trimSpace raw) = validHTTPURL raw := by
  rw [validHTTPURL, trimSpace_trimSpace, validHTTPURL]

theorem length_normalizeTags (tags : List Str) : (normalizeTags tags).length ≤ tags.length := by
  have hfold (out : List Str) : (tags.foldl (fun out tag =>
      let tag := trimSpace tag
      if tag = [] || tag.length > 40 || out.contains tag then out else out ++ [tag]) out).length ≤
        out.length + tags.length := by
    induction tags generalizing out with
    | nil => simp
    | cons tag rest ih =>
      rw [List.foldl_cons, List.length_cons]
      refine (ih _).trans ?_
      dsimp only
      split
      · omega
      · rw [List.length_append, List.length_singleton]
        omega
  unfold normalizeTags
  rw [List.length_mergeSort]
  simpa using hfold []

/-- One stored geo target keeps the country and an accepted URL. -/
theorem geoRow_accepted {linkId : ℤ} {target : GeoTarget} {g : GeoRow}
    (h : geoRow linkId target = some g) (hiso : country target ∈ isoCountryCodes) :
    g.countryCode = country target ∧ validHTTPURL g.targetUrl = validHTTPURL target.targetUrl := by
  simp only [geoRow, Option.bind_eq_bind, Option.bind_eq_some_iff] at h
  obtain ⟨code, hcode, url, hurl, hg⟩ := h
  cases hg
  rw [bpchar_iso hiso] at hcode
  cases hcode
  exact ⟨rfl, by rw [text_some hurl, validHTTPURL_trimSpace]⟩

theorem map_of_mapM {α β γ : Type} {f : α → Option β} {g : β → γ} {k : α → γ} {l : List α}
    (hg : ∀ a ∈ l, ∀ b, f a = some b → g b = k a) {bs : List β} (h : l.mapM f = some bs) :
    bs.map g = l.map k := by
  induction l generalizing bs with
  | nil =>
    cases h
    rfl
  | cons a l ih =>
    simp only [List.mapM_cons, Option.bind_eq_bind, Option.pure_def] at h
    obtain ⟨b, hb, h⟩ := Option.bind_eq_some_iff.mp h
    obtain ⟨rest, hrest, h⟩ := Option.bind_eq_some_iff.mp h
    cases h
    rw [List.map_cons, List.map_cons, hg a List.mem_cons_self b hb,
      ih (fun a ha => hg a (List.mem_cons_of_mem _ ha)) hrest]

/-- The stored geo targets, in the order of their countries. -/
theorem byCountry_accepted {linkId : ℤ} {targets : List GeoTarget} {rows : List GeoRow}
    (h : targets.mapM (geoRow linkId) = some rows)
    (hgeo : ∀ target ∈ targets, country target ∈ isoCountryCodes ∧
      validHTTPURL target.targetUrl = none) (hnodup : (targets.map country).Nodup) :
    (∀ target ∈ byCountry rows, country target ∈ isoCountryCodes ∧
      validHTTPURL target.targetUrl = none) ∧ ((byCountry rows).map country).Nodup := by
  have hsorted : (byCountry rows).Perm (rows.map fun g => ⟨g.countryCode, g.targetUrl⟩) :=
    (List.mergeSort_perm _ _).map _
  have hrow : ∀ g ∈ rows, g.countryCode ∈ isoCountryCodes ∧ validHTTPURL g.targetUrl = none := by
    intro g hg
    obtain ⟨target, htarget, hsome⟩ := mem_mapM h g hg
    obtain ⟨hiso, hvalid⟩ := hgeo target htarget
    obtain ⟨hcode, hurl⟩ := geoRow_accepted hsome hiso
    exact ⟨hcode ▸ hiso, hurl.trans hvalid⟩
  constructor
  · intro target htarget
    obtain ⟨g, hg, rfl⟩ := List.mem_map.mp (hsorted.mem_iff.mp htarget)
    rw [country_iso (hrow g hg).1]
    exact hrow g hg
  · rw [(hsorted.map country).nodup_iff, List.map_map]
    have hcodes : rows.map (country ∘ fun g => ⟨g.countryCode, g.targetUrl⟩) =
        targets.map country := by
      refine map_of_mapM (fun target htarget g hsome => ?_) h
      have hiso := (hgeo target htarget).1
      have hcode := (geoRow_accepted hsome hiso).1
      rw [Function.comp_apply, country_iso (hcode ▸ hiso), hcode]
    rw [hcodes]
    exact hnodup

theorem nullable_isSome {α β : Type} {column : α → Option β} {a : Option α} {b : Option β}
    (h : nullable column a = some b) : b.isSome = a.isSome := by
  cases a with
  | none =>
    cases h
    rfl
  | some a =>
    obtain ⟨b', -, rfl⟩ := Option.map_eq_some_iff.mp h
    rfl

theorem smallint_some {i j : ℤ} (h : smallint i = some j) : j = i := by
  unfold smallint at h
  split at h
  · exact (Option.some.inj h).symm
  · cases h

theorem checkVisibility_some {s t : Str} (h : checkVisibility s = some t) :
    t = lit "private" ∨ t = lit "department" := by
  unfold checkVisibility at h
  split at h
  · rename_i heq
    cases h
    simpa using heq
  · cases h

theorem byCountry_isEmpty {linkId : ℤ} {targets : List GeoTarget} {rows : List GeoRow}
    (h : targets.mapM (geoRow linkId) = some rows) :
    (byCountry rows).isEmpty = targets.isEmpty := by
  have hlen : (byCountry rows).length = targets.length := by
    rw [byCountry, List.length_map, List.length_mergeSort]
    have hmap := congrArg List.length (map_of_mapM (k := fun _ => ()) (g := fun _ => ())
      (fun _ _ _ _ => rfl) h)
    simpa using hmap
  cases targets with
  | nil =>
    rw [List.length_nil, List.length_eq_zero_iff] at hlen
    rw [hlen]
  | cons target rest =>
    obtain ⟨first, others, heq⟩ := List.exists_cons_of_length_eq_add_one hlen
    rw [heq]
    rfl

/-- The row of an accepted link is accepted, unless a permanent code meets a password that the
write leaves in place. -/
theorem accepted_stored {link : Link} {columns : LinkColumns} (h : Accepted link)
    (hcolumns : linkColumns link = some columns) {db : Database} {r : LinkRow}
    {password : Option Str} {updatedAt : Option GoTime.Time}
    (hgeo : link.geoTargets.mapM (geoRow r.id) = some (geoRows db r.id))
    (hpassword : permanent link.redirectCode = true → password.getD r.passwordHash = []) :
    Accepted (readBack db (columns.assign password updatedAt r)) := by
  have htaken := linkColumns_iff.mp hcolumns
  have hcode := smallint_some htaken.redirectCode
  obtain ⟨htargets, hnodup⟩ := byCountry_accepted hgeo h.geo h.distinct
  constructor
  · exact Or.inr (checkVisibility_some htaken.visibility)
  · change validHTTPURL columns.targetUrl = none
    rw [text_some htaken.targetUrl]
    exact h.target
  · change ∀ entry ∈ [(lit "expired_url", columns.expiredUrl), (lit "ios_url", columns.iosUrl),
      (lit "android_url", columns.androidUrl)], entry.2 = [] ∨ validHTTPURL entry.2 = none
    rw [text_some htaken.expiredUrl, text_some htaken.iosUrl, text_some htaken.androidUrl]
    exact h.optional
  · change columns.redirectCode = 301 ∨ columns.redirectCode = 302 ∨ columns.redirectCode = 307 ∨
      columns.redirectCode = 308
    rw [hcode]
    exact h.code
  · intro hpermanent
    change permanent columns.redirectCode = true at hpermanent
    rw [hcode] at hpermanent
    have hstatic := h.static hpermanent
    simp only [dynamic, Bool.or_eq_false_iff, readBack, hydrateLink, scanLink,
      LinkColumns.assign, geoTargetsOf_eq, byCountry_isEmpty hgeo,
      nullable_isSome htaken.expiresAt, htaken.maxClicks, text_some htaken.iosUrl,
      text_some htaken.androidUrl, htaken.forwardQuery, hpassword hpermanent] at hstatic ⊢
    tauto
  · intro m hm
    exact h.limit m (htaken.maxClicks.symm.trans hm)
  · exact htargets
  · exact hnodup
  · refine (length_normalizeTags _).trans ?_
    change columns.tags.length ≤ 20
    rw [htaken.tags, List.length_map]
    exact h.tags

end AcceptedLinks
