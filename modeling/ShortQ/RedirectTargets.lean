import ShortQ.LinkValidation
import ShortQ.UrlQuery
import ShortQ.UrlRoundTrip

/-! # Redirect targets

`mergeTargetQuery`: the query of the destination, under the UTM values of the link, under the
query of the visitor. -/
namespace RedirectTargets

open GoText
open GoUrl
open LinkValidation
open Models
open UrlHosts
open UrlQuery
open UrlRoundTrip

/-- The map literal of `mergeTargetQuery`. -/
def utmValues (l : Link) : AList fun _ : Str => Str where
  entries := [⟨lit "utm_source", l.utmSource⟩, ⟨lit "utm_medium", l.utmMedium⟩,
    ⟨lit "utm_campaign", l.utmCampaign⟩, ⟨lit "utm_term", l.utmTerm⟩,
    ⟨lit "utm_content", l.utmContent⟩]
  nodupKeys := (by decide : [lit "utm_source", lit "utm_medium", lit "utm_campaign",
    lit "utm_term", lit "utm_content"].Nodup)

def setUtm (query : Values) (utm : List (Sigma fun _ : Str => Str)) : Values :=
  utm.foldl (fun query entry =>
    if entry.2 = [] then query else Values.Set query entry.1 entry.2) query

/-- The inner loop of the forwarding: `Add` for each value. -/
def addValues (query : Values) (key : Str) (values : List Str) : Values :=
  values.foldl (fun query value => Values.Add query key value) query

def forward (query : Values) (inbound : List (Sigma fun _ : Str => List Str)) : Values :=
  inbound.foldl (fun query entry => addValues (Values.Del query entry.1) entry.1 entry.2) query

/-- The query of the destination after both loops. `utm` is the map of UTM values in the order
of its iteration. -/
def mergeQuery (utm : AList fun _ : Str => Str) (query : Values) (l : Link) (inbound : Values) :
    Values :=
  if l.forwardQuery then forward (setUtm query utm.entries) inbound.entries
  else setUtm query utm.entries

def mergeTargetQuery (limit : Option ℕ) (utm : AList fun _ : Str => Str) (raw : Str) (l : Link)
    (inbound : Values) : Str :=
  match Parse raw with
  | none => raw
  | some destination =>
    let query := mergeQuery utm (ParseQuery limit destination.rawQuery).1 l inbound
    { destination with rawQuery := Values.Encode query }.String

/-- A destination: a URL that `Parse` reads, absolute and with a well-formed query. -/
structure Destination (limit : Option ℕ) (raw : Str) (u : URL) (own : Values) : Prop where
  parsed : Parse raw = some u
  scheme : u.scheme ≠ []
  host : u.host ≠ []
  query : ParseQuery limit u.rawQuery = (own, true)

/-- What the store accepts as a destination is absolute. -/
theorem destination_of_valid {limit : Option ℕ} {raw : Str} {u : URL} {own : Values}
    (hvalid : validHTTPURL raw = none) (htrim : trimSpace raw = raw) (hparsed : Parse raw = some u)
    (hquery : ParseQuery limit u.rawQuery = (own, true)) : Destination limit raw u own := by
  unfold validHTTPURL at hvalid
  rw [htrim] at hvalid
  split at hvalid
  · rename_i v hv
    split at hvalid
    · cases hvalid
    · rename_i hchecks
      simp only [Bool.or_eq_true, decide_eq_true_eq, Bool.and_eq_true, not_or, not_and,
        not_not] at hchecks
      have hscheme : v.scheme ≠ [] := by
        intro hempty
        have hhttps := hchecks.2 (hempty ▸ by decide)
        rw [hempty] at hhttps
        exact absurd hhttps (by decide)
      have hsame := scheme_host_of_request hv hscheme hchecks.1 hparsed
      exact ⟨hparsed, hsame.1 ▸ hscheme, hsame.2 ▸ hchecks.1, hquery⟩
  · cases hvalid

theorem Destination.absolute {limit : Option ℕ} {raw : Str} {u : URL} {own : Values}
    (h : Destination limit raw u own) : Absolute u :=
  absolute_of_Parse h.parsed h.scheme h.host

/-! ## The two loops -/

theorem lookup_setUtm (utm : List (Sigma fun _ : Str => Str)) (hnodup : utm.NodupKeys)
    (query : Values) (k : Str) : (setUtm query utm).lookup k =
      if (utm.dlookup k).getD [] = [] then query.lookup k
      else some [(utm.dlookup k).getD []] := by
  induction utm generalizing query with
  | nil => simp [setUtm]
  | cons entry rest ih =>
    obtain ⟨name, value⟩ := entry
    rw [List.nodupKeys_cons] at hnodup
    have hstep : setUtm query (⟨name, value⟩ :: rest) =
        setUtm (if value = [] then query else Values.Set query name value) rest := rfl
    rw [hstep, ih hnodup.2]
    by_cases hk : k = name
    · subst hk
      have hrest : rest.dlookup k = none := List.dlookup_eq_none.mpr hnodup.1
      rw [hrest, List.dlookup_cons_eq]
      by_cases hvalue : value = [] <;> simp [hvalue]
    · rw [List.dlookup_cons_ne _ _ hk]
      by_cases hvalue : value = [] <;> simp [hvalue, hk]

theorem lookup_addValues (values : List Str) (query : Values) (key k : Str) :
    (addValues query key values).lookup k =
      if k = key ∧ values ≠ [] then some (Values.list query key ++ values) else query.lookup k := by
  induction values generalizing query with
  | nil => simp [addValues]
  | cons value rest ih =>
    have hstep : addValues query key (value :: rest) =
        addValues (Values.Add query key value) key rest := rfl
    rw [hstep, ih]
    by_cases hk : k = key
    · cases rest with
      | nil => simp [hk]
      | cons next rest => simp [hk, list_Add]
    · simp [hk]

theorem lookup_forward (inbound : List (Sigma fun _ : Str => List Str)) (hnodup : inbound.NodupKeys)
    (query : Values) (k : Str) : (forward query inbound).lookup k =
      match inbound.dlookup k with
      | none => query.lookup k
      | some values => if values = [] then none else some values := by
  induction inbound generalizing query with
  | nil => simp [forward]
  | cons entry rest ih =>
    obtain ⟨key, values⟩ := entry
    rw [List.nodupKeys_cons] at hnodup
    have hstep : forward query (⟨key, values⟩ :: rest) =
        forward (addValues (Values.Del query key) key values) rest := rfl
    rw [hstep, ih hnodup.2, lookup_addValues]
    by_cases hk : k = key
    · subst hk
      have hrest : rest.dlookup k = none := List.dlookup_eq_none.mpr hnodup.1
      have hdeleted : Values.list (Values.Del query k) k = [] := by
        rw [Values.list, lookup_Del, if_pos rfl]
        rfl
      rw [hrest, List.dlookup_cons_eq, hdeleted]
      by_cases hvalues : values = [] <;> simp [hvalues]
    · rw [List.dlookup_cons_ne _ _ hk]
      simp [hk]

/-! ## Precedence -/

/-- The values of one name, by precedence. -/
def precedence (l : Link) (own inbound : Values) (k : Str) : List Str :=
  if l.forwardQuery = true ∧ k ∈ inbound then Values.list inbound k
  else if ((utmValues l).lookup k).getD [] ≠ [] then [((utmValues l).lookup k).getD []]
  else Values.list own k

theorem lookup_mergeQuery {utm : AList fun _ : Str => Str} {l : Link} {inbound : Values}
    (own : Values) (k : Str) : (mergeQuery utm own l inbound).lookup k =
      if l.forwardQuery = true ∧ k ∈ inbound then
        if Values.list inbound k = [] then none else some (Values.list inbound k)
      else if (utm.lookup k).getD [] = [] then own.lookup k
      else some [(utm.lookup k).getD []] := by
  have hutm := lookup_setUtm utm.entries utm.nodupKeys own k
  unfold mergeQuery
  by_cases hforward : l.forwardQuery = true
  · rw [if_pos hforward, lookup_forward _ inbound.nodupKeys, hutm]
    change (match inbound.lookup k with | none => _ | some values => _) = _
    by_cases hk : k ∈ inbound
    · obtain ⟨values, hvalues⟩ := Option.isSome_iff_exists.mp (AList.lookup_isSome.mpr hk)
      simp [hforward, hk, hvalues, Values.list]
    · rw [AList.lookup_eq_none.mpr hk]
      have hno : ¬ (l.forwardQuery = true ∧ k ∈ inbound) := fun h => hk h.2
      rw [if_neg hno]
      rfl
  · have hno : ¬ (l.forwardQuery = true ∧ k ∈ inbound) := fun h => hforward h.1
    rw [if_neg hforward, hutm, if_neg hno]
    rfl

theorem list_mergeQuery {utm : AList fun _ : Str => Str} {l : Link} {inbound : Values}
    (hutm : utm.entries.Perm (utmValues l).entries) (own : Values) (k : Str) :
    Values.list (mergeQuery utm own l inbound) k = precedence l own inbound k := by
  rw [Values.list, lookup_mergeQuery, AList.perm_lookup hutm]
  unfold precedence
  by_cases hk : l.forwardQuery = true ∧ k ∈ inbound
  · rw [if_pos hk, if_pos hk]
    by_cases hempty : Values.list inbound k = [] <;> simp [hempty]
  · rw [if_neg hk, if_neg hk]
    by_cases hvalue : ((utmValues l).lookup k).getD [] = []
    · rw [if_pos hvalue, if_neg (not_not.mpr hvalue)]
      rfl
    · rw [if_neg hvalue, if_pos hvalue]
      rfl

/-- Neither loop shows the order of its iteration. -/
theorem mergeTargetQuery_perm (limit : Option ℕ) (raw : Str) (l : Link)
    {utm utm' : AList fun _ : Str => Str} {inbound inbound' : Values}
    (hutm : utm.entries.Perm utm'.entries) (hinbound : inbound.entries.Perm inbound'.entries) :
    mergeTargetQuery limit utm raw l inbound = mergeTargetQuery limit utm' raw l inbound' := by
  unfold mergeTargetQuery
  cases Parse raw with
  | none => rfl
  | some destination =>
    dsimp only
    congr 2
    apply Encode_congr
    intro key
    have hlist : Values.list inbound key = Values.list inbound' key := by
      rw [Values.list, Values.list, AList.perm_lookup hinbound]
    have hmem : key ∈ inbound ↔ key ∈ inbound' := AList.mem_of_perm hinbound
    simp only [lookup_mergeQuery, AList.perm_lookup hutm, hlist, hmem]

theorem Absolute.withQuery {u : URL} (h : Absolute u) (v : Values) :
    Absolute { u with rawQuery := Values.Encode v } :=
  { h with query := fun _ hb => mem_Encode hb }

theorem mergeTargetQuery_eq {limit : Option ℕ} {raw : Str} {u : URL} {own inbound : Values}
    {utm : AList fun _ : Str => Str} {l : Link} (h : Destination limit raw u own) :
    mergeTargetQuery limit utm raw l inbound =
      { u with rawQuery := Values.Encode (mergeQuery utm own l inbound) }.String := by
  rw [mergeTargetQuery, h.parsed]
  dsimp only
  rw [h.query]

/-- What is read from the text of a merged URL. -/
structure ReadBack (limit : Option ℕ) (u : URL) (l : Link) (own inbound : Values) (text : Str)
    (v : URL) (read : Values) : Prop where
  parsed : Parse text = some v
  query : ParseQuery limit v.rawQuery = (read, true)
  values : ∀ k, Values.list read k = precedence l own inbound k
  names : ∀ k, k ∈ read ↔ precedence l own inbound k ≠ []
  scheme : v.scheme = u.scheme
  host : v.host = u.host
  path : v.path = u.path
  fragment : v.fragment = u.fragment

theorem readBack_of_rereads {limit : Option ℕ} {raw : Str} {u : URL} {own inbound : Values}
    {utm : AList fun _ : Str => Str} {l : Link} (h : Destination limit raw u own)
    (hutm : utm.entries.Perm (utmValues l).entries)
    (assumed : Restored limit (mergeQuery utm own l inbound)) (hhost : rereads u.host = true) :
    ∃ v read, ReadBack limit u l own inbound (mergeTargetQuery limit utm raw l inbound) v read := by
  obtain ⟨read, hread, hlists⟩ := assumed
  have hmerged := Absolute.withQuery h.absolute (mergeQuery utm own l inbound)
  exact ⟨reread { u with rawQuery := Values.Encode (mergeQuery utm own l inbound) }, read,
    { parsed := by
        rw [mergeTargetQuery_eq h, Parse_String hmerged]
        exact if_pos hhost
      query := hread
      values := fun k => (hlists k).1.trans (list_mergeQuery hutm own k)
      names := fun k => (hlists k).2.trans (by rw [list_mergeQuery hutm])
      scheme := rfl
      host := rfl
      path := rfl
      fragment := rfl }⟩

/-- The merged URL is read back with the query that precedence gives and with all else as it was,
whatever the order of either iteration, exactly when the host of the destination is one that is
read again from its escaped form. -/
theorem merged_query_iff (limit : Option ℕ) (raw : Str) (u : URL) (own inbound : Values) (l : Link)
    (utm : AList fun _ : Str => Str) (h : Destination limit raw u own)
    (hutm : utm.entries.Perm (utmValues l).entries)
    (assumed : Restored limit (mergeQuery utm own l inbound)) :
    ((∃ v read, ReadBack limit u l own inbound (mergeTargetQuery limit utm raw l inbound) v read) ∧
      ∀ utm' : AList fun _ : Str => Str, ∀ inbound' : Values, utm'.entries.Perm utm.entries →
        inbound'.entries.Perm inbound.entries →
          mergeTargetQuery limit utm' raw l inbound' = mergeTargetQuery limit utm raw l inbound) ↔
      rereads u.host = true := by
  constructor
  · rintro ⟨⟨v, read, hback⟩, -⟩
    have hparsed := hback.parsed
    rw [mergeTargetQuery_eq h, Parse_String (Absolute.withQuery h.absolute _)] at hparsed
    by_contra hhost
    rw [if_neg hhost] at hparsed
    cases hparsed
  · intro hhost
    refine ⟨readBack_of_rereads h hutm assumed hhost, ?_⟩
    intro utm' inbound' hutm' hinbound
    exact mergeTargetQuery_perm limit raw l hutm' hinbound

def page : URL where
  scheme := lit "https"
  host := lit "example.org"
  path := lit "/path"
  rawQuery := lit "keep=yes&utm_source=old"
  fragment := lit "top"

def pageQuery : Values where
  entries := [⟨lit "utm_source", [lit "old"]⟩, ⟨lit "keep", [lit "yes"]⟩]
  nodupKeys := (by decide : [lit "utm_source", lit "keep"].Nodup)

def campaign : Link where
  forwardQuery := true
  utmSource := lit "configured"
  utmCampaign := lit "launch"

def visit : Values where
  entries := [⟨lit "utm_source", [lit "incoming"]⟩, ⟨lit "ref", [lit "42"]⟩]
  nodupKeys := (by decide : [lit "utm_source", lit "ref"].Nodup)

theorem page_destination : Destination (some 10000)
    (lit "https://example.org/path?keep=yes&utm_source=old#top") page pageQuery where
  parsed := by decide
  scheme := by decide
  host := by decide
  query := Prod.ext (AList.ext (by decide)) (by decide)

/-- The visitor's source wins over the configured and the written one, and the other names stay. -/
theorem merged_query_iff_visit :
    (∃ v read, ReadBack (some 10000) page campaign pageQuery visit
      (mergeTargetQuery (some 10000) (utmValues campaign)
        (lit "https://example.org/path?keep=yes&utm_source=old#top") campaign visit) v read) ∧
      ∀ utm' : AList fun _ : Str => Str, ∀ inbound' : Values,
        utm'.entries.Perm (utmValues campaign).entries → inbound'.entries.Perm visit.entries →
          mergeTargetQuery (some 10000) utm'
            (lit "https://example.org/path?keep=yes&utm_source=old#top") campaign inbound' =
          mergeTargetQuery (some 10000) (utmValues campaign)
            (lit "https://example.org/path?keep=yes&utm_source=old#top") campaign visit :=
  (merged_query_iff (some 10000) _ page pageQuery visit campaign (utmValues campaign)
    page_destination (List.Perm.refl _)
    (restored_of_within fun n hn => by
      cases hn
      decide)).mpr (by decide)

/-- The store accepts an address with a raw letter in its zone; the merged URL cannot be read. -/
theorem zone_letter_lost : validHTTPURL (lit "http://[fe80::1%25é]/") = none ∧
    ∃ u, Destination none (lit "http://[fe80::1%25é]/") u ∅ ∧
      Restored none (mergeQuery (utmValues {}) ∅ {} ∅) ∧
      Parse (mergeTargetQuery none (utmValues {}) (lit "http://[fe80::1%25é]/") {} ∅) = none ∧
      ¬ ∃ v read, ReadBack none u {} ∅ ∅
        (mergeTargetQuery none (utmValues {}) (lit "http://[fe80::1%25é]/") {} ∅) v read := by
  have hunread :
      Parse (mergeTargetQuery none (utmValues {}) (lit "http://[fe80::1%25é]/") {} ∅) = none := by
    decide
  refine ⟨by decide, { scheme := lit "http", host := lit "[fe80::1%é]", path := lit "/" },
    ⟨by decide, by decide, by decide, rfl⟩, restored_of_within (by simp), hunread, ?_⟩
  rintro ⟨v, read, hback⟩
  rw [hback.parsed] at hunread
  cases hunread

end RedirectTargets
