import ShortQ.LinkHandlers
import ShortQ.WriteSuccess
import ShortQ.WrittenLinks

/-! # When an import of links succeeds

An import into a store without its slugs succeeds exactly when no slug repeats and every link is
accepted by the checks and by the columns. Then each link has a row of its own. -/
namespace ImportWrites

open AcceptedLinks
open AuditLog
open GoText
open GoTime (Time)
open LinkCalls
open LinkInvariants
open LinkPayload
open LinkScopes
open LinkStore
open LinkValidation
open LinkWrites
open Models
open RowTable
open Runes
open Schema
open Transaction
open WriteSuccess
open WrittenLinks

/-- The links as the loop of `CreateLinksBulk` leaves them. -/
def inputs (randoms : ℕ → Str) (n : ℕ) (links : List Link) : List Link :=
  (links.zipIdx n).map fun q => importInput (randoms q.2) q.1

theorem inputs_cons (randoms : ℕ → Str) (n : ℕ) (link : Link) (rest : List Link) :
    inputs randoms n (link :: rest) =
      importInput (randoms n) link :: inputs randoms (n + 1) rest := rfl

theorem inputs_getElem? (randoms : ℕ → Str) (n k : ℕ) (links : List Link) :
    (inputs randoms n links)[k]? = (links[k]?).map (importInput (randoms (n + k))) := by
  rw [inputs, List.getElem?_map, List.getElem?_zipIdx, Option.map_map]
  rfl

/-- What the checks before the transaction ask of a link. -/
def Checked (link : Link) : Prop := slugRe link.slug = true ∧ validateLink link = none

theorem checkImport_ok_iff {randoms : ℕ → Str} {seen : List Str} {n : ℕ} {links out : List Link} :
    checkImport randoms seen n links = .ok out ↔ out = inputs randoms n links ∧
      (∀ link ∈ out, Checked link) ∧ (out.map Link.slug).Nodup ∧
        ∀ link ∈ out, link.slug ∉ seen := by
  induction links generalizing seen n out with
  | nil =>
    rw [checkImport, Except.ok.injEq, eq_comm]
    constructor
    · rintro rfl
      exact ⟨rfl, by simp, List.nodup_nil, by simp⟩
    · intro h
      exact h.1
  | cons link rest ih =>
    rw [inputs_cons, checkImport]
    generalize importInput (randoms n) link = first
    by_cases hslug : slugRe first.slug = true
    · rw [if_neg (by simp [hslug])]
      by_cases hseen : first.slug ∈ seen
      · rw [if_pos (by simpa using hseen)]
        constructor
        · intro h
          cases h
        · rintro ⟨rfl, -, -, hfresh⟩
          exact absurd hseen (hfresh first List.mem_cons_self)
      · rw [if_neg (by simpa using hseen)]
        cases hvalid : validateLink first with
        | some text =>
          constructor
          · intro h
            cases h
          · rintro ⟨rfl, hall, -⟩
            rw [(hall first List.mem_cons_self).2] at hvalid
            cases hvalid
        | none =>
          dsimp only
          constructor
          · intro h
            cases hrest : checkImport randoms (first.slug :: seen) (n + 1) rest with
            | error text =>
              rw [hrest] at h
              cases h
            | ok others =>
              rw [hrest] at h
              cases h
              obtain ⟨rfl, hall, hnodup, hfresh⟩ := ih.mp hrest
              refine ⟨rfl, List.forall_mem_cons.mpr ⟨⟨hslug, hvalid⟩, hall⟩, ?_,
                List.forall_mem_cons.mpr ⟨hseen, fun l hl hmem =>
                  hfresh l hl (List.mem_cons_of_mem _ hmem)⟩⟩
              rw [List.map_cons, List.nodup_cons]
              refine ⟨fun hmem => ?_, hnodup⟩
              obtain ⟨l, hl, heq⟩ := List.mem_map.mp hmem
              exact hfresh l hl (heq ▸ List.mem_cons_self)
          · rintro ⟨rfl, hall, hnodup, hfresh⟩
            rw [List.forall_mem_cons] at hall hfresh
            rw [List.map_cons, List.nodup_cons] at hnodup
            have hrest := ih.mpr ⟨rfl, hall.2, hnodup.2, fun l hl hmem => by
              rcases List.mem_cons.mp hmem with heq | hmem
              · exact hnodup.1 (List.mem_map.mpr ⟨l, hl, heq⟩)
              · exact hfresh.2 l hl hmem⟩
            rw [hrest]
    · rw [if_pos (by simpa using hslug)]
      constructor
      · intro h
        cases h
      · rintro ⟨rfl, hall, -⟩
        exact absurd (hall first List.mem_cons_self).1 hslug

/-! ## One link -/

/-- The columns of its row and of its geo targets take the link. -/
def Taken (link : Link) : Prop :=
  (linkColumns link).isSome ∧ ∀ target ∈ link.geoTargets, (geoRow 0 target).isSome

theorem geoRow_isSome (id : ℤ) (target : GeoTarget) :
    (geoRow id target).isSome = (geoRow 0 target).isSome := by
  unfold geoRow
  cases bpchar 2 (country target) with
  | none => rfl
  | some code =>
    cases text (trimSpace target.targetUrl) <;> rfl

theorem mapM_geoRow {id : ℤ} {targets : List GeoTarget} :
    (targets.mapM (geoRow id)).isSome ↔ ∀ target ∈ targets, (geoRow 0 target).isSome := by
  rw [Option.isSome_iff_exists, mapM_ok_iff]
  simp only [← Option.isSome_iff_exists, geoRow_isSome id]

theorem fits_of_taken {link : Link} (hvalid : validateLink link = none) (h : Taken link) (id : ℤ) :
    Fits id link := ⟨hvalid, h.1, mapM_geoRow.mpr h.2⟩

/-- No row of the database has the id or the slug. -/
def Vacant (db : Database) (id : ℤ) (slug : Str) : Prop :=
  ∀ r ∈ db.links.rows, r.id ≠ id ∧ r.slug ≠ slug

theorem slugByte_plain : ∀ b : UInt8, slugByte b = true → b < 128 ∧ b ≠ 0 :=
  forall_byte (by decide +kernel)

theorem slug_taken {slug : Str} (h : slugRe slug = true) : varchar 80 slug = some slug := by
  simp only [slugRe, Bool.and_eq_true, decide_eq_true_eq, List.all_eq_true] at h
  obtain ⟨⟨-, hlength⟩, hbytes⟩ := h
  have hplain : Plain slug := fun b hb => slugByte_plain b (hbytes b hb)
  exact varchar_of_text (text_plain hplain) ((length_runes_le slug).trans hlength)

theorem importLink_ok {io : Script} (hio : io.Healthy) {tx : Database} {id : ℤ} {u : User}
    {link : Link} (n : ℕ) (hown : Owned tx) (hvacant : Vacant tx id link.slug)
    (hchecked : Checked link) (h : Taken link) : ∃ tx', importLink io n tx id u link = .ok tx' := by
  obtain ⟨columns, hcolumns⟩ := Option.isSome_iff_exists.mp h.1
  obtain ⟨rows, hrows⟩ := Option.isSome_iff_exists.mp (fits_of_taken hchecked.2 h id).geo
  rw [importLink, hcolumns, slug_taken hchecked.1]
  dsimp only
  generalize (timestamptz (io.now 0)).getD (io.now 0) = now
  have hfresh : ∀ r ∈ tx.links.rows,
      ¬ linkClash r (columns.assign none none (blankRow id u link.slug now)) := by
    intro r hr hclash
    rcases hclash with hid | hslug
    · exact (hvacant r hr).1 hid
    · exact (hvacant r hr).2 hslug
  cases hinsert : tx.links.insert (columns.assign none none (blankRow id u link.slug now)) with
  | none =>
    obtain ⟨r, hr, hclash⟩ := Table.insert_eq_none.mp hinsert
    exact absurd hclash (hfresh r hr)
  | some links =>
    rw [call_healthy hio]
    dsimp only
    have hlinks := (Table.insert_eq_some.mp hinsert).2
    have hmem : columns.assign none none (blankRow id u link.slug now) ∈ links.rows := by
      rw [hlinks]
      exact List.mem_append_right _ (List.mem_singleton_self _)
    have hlink : (({ tx with links := links } : Database).link id).isSome := by
      have hfound := @link_mem { tx with links := links } _ hmem
      change ({ tx with links := links } : Database).link id = _ at hfound
      rw [hfound]
      rfl
    have hempty : geoRows { tx with links := links } id = [] :=
      @geoRows_of_fresh tx id hown fun r hr => (hvacant r hr).1
    exact insertGeos_ok hio hlink hrows ((fits_of_taken hchecked.2 h id).codes hrows)
      (by simp [hempty])

theorem taken_of_created {before after : Database} {id : ℤ} {u : User} {link : Link}
    {password : Option Str} (h : Created before after id u link password) : Taken link := by
  obtain ⟨columns, slug, now, hcolumns, -⟩ := h.row
  constructor
  · rw [hcolumns]
    rfl
  · exact mapM_geoRow.mp (Option.isSome_iff_exists.mpr ⟨_, h.geo⟩)

/-- The row of an imported link. -/
def Holds (db : Database) (u : User) (id : ℤ) (link : Link) : Prop :=
  ∃ columns now, linkColumns link = some columns ∧
    db.link id = some (columns.assign none none (blankRow id u link.slug now)) ∧
    link.geoTargets.mapM (geoRow id) = some (geoRows db id)

theorem holds_of_created {before after : Database} {id : ℤ} {u : User} {link : Link}
    (h : Created before after id u link none) (hslug : slugRe link.slug = true) :
    Holds after u id link := by
  obtain ⟨columns, slug, now, hcolumns, hvarchar, hrows⟩ := h.row
  obtain rfl := slug_stored hvarchar hslug
  refine ⟨columns, now, hcolumns, ?_, h.geo⟩
  have hmem : columns.assign none none (blankRow id u link.slug now) ∈ after.links.rows := by
    rw [hrows]
    exact List.mem_append_right _ (List.mem_singleton_self _)
  exact link_mem hmem

theorem Holds.frame {before after : Database} {u : User} {id : ℤ} {link : Link}
    (h : Holds before u id link) (k : ∀ r ∈ before.links.rows, Untouched before after r) :
    Holds after u id link := by
  obtain ⟨columns, now, hcolumns, hrow, hgeo⟩ := h
  obtain ⟨hmem, hid⟩ := mem_link hrow
  have hkeep := k _ hmem
  refine ⟨columns, now, hcolumns, ?_, ?_⟩
  · exact link_of_untouched hkeep
  · have hsame : geoRows after id = geoRows before id := hkeep.2
    rw [hgeo, hsame]

/-! ## The loop -/

theorem importEach_ok {io : Script} (hio : io.Healthy) {u : User} {links : List Link} {n : ℕ}
    {id : ℤ} {tx : Database} (hown : Owned tx)
    (hids : ∀ r ∈ tx.links.rows, r.id < id)
    (hslugs : ∀ r ∈ tx.links.rows, ∀ link ∈ links, r.slug ≠ link.slug)
    (hnodup : (links.map Link.slug).Nodup) (hchecked : ∀ link ∈ links, Checked link)
    (h : ∀ link ∈ links, Taken link) : ∃ tx', importEach io u n id tx links = .ok tx' := by
  induction links generalizing n id tx with
  | nil => exact ⟨tx, rfl⟩
  | cons link rest ih =>
    rw [List.forall_mem_cons] at hchecked h
    rw [List.map_cons, List.nodup_cons] at hnodup
    have hvacant : Vacant tx id link.slug := fun r hr =>
      ⟨ne_of_lt (hids r hr), hslugs r hr link List.mem_cons_self⟩
    obtain ⟨tx₁, hone⟩ := @importLink_ok io hio tx id u link n hown hvacant hchecked.1 h.1
    have hcreated := created_importLink hone hown
    obtain ⟨columns, slug, now, -, hvarchar, hrows⟩ := hcreated.row
    obtain rfl := slug_stored hvarchar hchecked.1.1
    rw [importEach, hone]
    dsimp only
    refine ih hcreated.owned ?_ ?_ hnodup.2 hchecked.2 h.2
    · intro r hr
      rw [hrows] at hr
      rcases List.mem_append.mp hr with hr | hr
      · have hlt := hids r hr
        omega
      · obtain rfl := List.mem_singleton.mp hr
        change id < id + 1
        omega
    · intro r hr other hother
      rw [hrows] at hr
      rcases List.mem_append.mp hr with hr | hr
      · exact hslugs r hr other (List.mem_cons_of_mem _ hother)
      · obtain rfl := List.mem_singleton.mp hr
        intro heq
        exact hnodup.1 (List.mem_map.mpr ⟨other, hother, heq.symm⟩)

/-- What a finished loop has written. -/
structure Imported (before after : Database) (u : User) (id : ℤ) (links : List Link) : Prop where
  taken : ∀ link ∈ links, Taken link
  holds : ∀ (k : ℕ) link, links[k]? = some link → Holds after u (id + k) link
  frame : ∀ r ∈ before.links.rows, Untouched before after r
  count : after.links.rows.length = before.links.rows.length + links.length

theorem imported_importEach {io : Script} {u : User} {n : ℕ} {id : ℤ} {tx tx' : Database}
    {links : List Link} (h : importEach io u n id tx links = .ok tx') (hown : Owned tx)
    (hslugs : ∀ link ∈ links, slugRe link.slug = true) : Imported tx tx' u id links := by
  induction links generalizing n id tx with
  | nil =>
    cases h
    refine ⟨by simp, by simp, fun r hr => .of_same rfl rfl hr, rfl⟩
  | cons link rest ih =>
    unfold importEach at h
    split at h
    · cases h
    · rename_i tx₁ hone
      rw [List.forall_mem_cons] at hslugs
      have hcreated := created_importLink hone hown
      have hrest := ih h hcreated.owned hslugs.2
      have hframe (r : LinkRow) (hr : r ∈ tx.links.rows) : Untouched tx tx' r :=
        (hcreated.frame r hr).trans (hrest.frame r (hcreated.frame r hr).1)
      constructor
      · exact List.forall_mem_cons.mpr ⟨taken_of_created hcreated, hrest.taken⟩
      · intro k l hl
        cases k with
        | zero =>
          obtain rfl : link = l := by simpa using hl
          have hid : id + ((0 : ℕ) : ℤ) = id := by omega
          rw [hid]
          exact (holds_of_created hcreated hslugs.1).frame hrest.frame
        | succ k =>
          have hid : id + ((k + 1 : ℕ) : ℤ) = id + 1 + k := by omega
          rw [hid]
          exact hrest.holds k l (by simpa using hl)
      · exact hframe
      · obtain ⟨columns, slug, now, -, -, hrows⟩ := hcreated.row
        rw [hrest.count, hrows, List.length_append, List.length_singleton, List.length_cons]
        omega

/-! ## The call -/

/-- None of the slugs is in use. -/
def Unused (db : Database) (links : List Link) : Prop :=
  ∀ r ∈ db.links.rows, ∀ link ∈ links, r.slug ≠ link.slug

/-- A finished transaction has written the links as the checks left them. -/
theorem imported_write {io : Script} {db : Database} {randoms : ℕ → Str} {u : User}
    {links : List Link} (hdb : Intact db)
    (h : (createLinksBulkWrite io db randoms u links).1 = none) :
    (∀ link ∈ inputs randoms 0 links, Checked link) ∧
      ((inputs randoms 0 links).map Link.slug).Nodup ∧
      Imported db (createLinksBulkWrite io db randoms u links).2 u db.nextLinkId
        (inputs randoms 0 links) := by
  unfold createLinksBulkWrite at h ⊢
  by_cases hnil : links = []
  · subst hnil
    rw [if_pos rfl]
    exact ⟨by simp [inputs], by simp [inputs],
      ⟨by simp [inputs], by simp [inputs], fun r hr => .of_same rfl rfl hr, rfl⟩⟩
  · rw [if_neg hnil] at h ⊢
    cases hchecked : checkImport randoms [] 0 links with
    | error text =>
      rw [hchecked] at h
      cases h
    | ok out =>
      rw [hchecked] at h
      obtain ⟨rfl, hall, hnodup, -⟩ := checkImport_ok_iff.mp hchecked
      dsimp only at h ⊢
      refine ⟨hall, hnodup, ?_⟩
      have hbody := inTx_none h
      generalize (inTx io _ _).2 = written at hbody ⊢
      unfold createLinksBulkTx at hbody
      split at hbody
      · cases hbody
      · have hloop := imported_importEach hbody hdb.owned fun link hlink => (hall link hlink).1
        exact ⟨hloop.taken, hloop.holds, hloop.frame, hloop.count⟩

/-- Whatever the connection does, an import writes nothing or every link. -/
theorem createLinksBulkWrite_cases (io : Script) {db : Database} (randoms : ℕ → Str) (u : User)
    (links : List Link) (hdb : Intact db) :
    ((createLinksBulkWrite io db randoms u links).2.links = db.links ∧
        (createLinksBulkWrite io db randoms u links).2.geoTargets = db.geoTargets) ∨
      (∀ link ∈ inputs randoms 0 links, Checked link) ∧
        Imported db (createLinksBulkWrite io db randoms u links).2 u db.nextLinkId
          (inputs randoms 0 links) := by
  unfold createLinksBulkWrite
  by_cases hnil : links = []
  · rw [if_pos hnil]
    exact Or.inl ⟨rfl, rfl⟩
  · rw [if_neg hnil]
    cases hchecked : checkImport randoms [] 0 links with
    | error text => exact Or.inl ⟨rfl, rfl⟩
    | ok out =>
      obtain ⟨rfl, hall, -, -⟩ := checkImport_ok_iff.mp hchecked
      dsimp only
      rcases inTx_state io { db with nextLinkId := db.nextLinkId + (inputs randoms 0 links).length }
        (createLinksBulkTx io
          { db with nextLinkId := db.nextLinkId + (inputs randoms 0 links).length } db.nextLinkId u
          (inputs randoms 0 links)) with heq | ⟨tx, hbody, heq⟩
      · rw [heq]
        exact Or.inl ⟨rfl, rfl⟩
      · rw [heq]
        unfold createLinksBulkTx at hbody
        split at hbody
        · cases hbody
        · have hloop := imported_importEach hbody hdb.owned fun link hlink => (hall link hlink).1
          exact Or.inr ⟨hall, hloop.taken, hloop.holds, hloop.frame, hloop.count⟩

theorem createLinksBulkWrite_ok_iff {io : Script} (hio : io.Healthy) {db : Database}
    {randoms : ℕ → Str} {u : User} {links : List Link} (hdb : Intact db)
    (hunused : Unused db (inputs randoms 0 links)) :
    (createLinksBulkWrite io db randoms u links).1 = none ↔
      ((inputs randoms 0 links).map Link.slug).Nodup ∧
        ∀ link ∈ inputs randoms 0 links, Checked link ∧ Taken link := by
  constructor
  · intro h
    obtain ⟨hchecked, hnodup, himported⟩ := imported_write hdb h
    exact ⟨hnodup, fun link hlink => ⟨hchecked link hlink, himported.taken link hlink⟩⟩
  · rintro ⟨hnodup, hall⟩
    unfold createLinksBulkWrite
    by_cases hnil : links = []
    · rw [if_pos hnil]
    · rw [if_neg hnil]
      have hchecked : checkImport randoms [] 0 links = .ok (inputs randoms 0 links) :=
        checkImport_ok_iff.mpr ⟨rfl, fun link hlink => (hall link hlink).1, hnodup, by simp⟩
      rw [hchecked]
      dsimp only
      have hids : ∀ r ∈ db.links.rows, r.id < db.nextLinkId := fun r hr => (hdb.numbered r hr).2
      obtain ⟨tx', hloop⟩ := @importEach_ok io hio u (inputs randoms 0 links) 2 db.nextLinkId
        { db with nextLinkId := db.nextLinkId + (inputs randoms 0 links).length } hdb.owned hids
        hunused hnodup (fun link hlink => (hall link hlink).1) fun link hlink => (hall link hlink).2
      rw [createLinksBulkTx, firstFailure_healthy hio, inTx_healthy hio]
      dsimp only
      rw [hloop]

/-- A healthy import that fails leaves every row as it was. -/
theorem createLinksBulkWrite_unchanged {io : Script} (hio : io.Healthy) {db : Database}
    {randoms : ℕ → Str} {u : User} {links : List Link}
    (h : (createLinksBulkWrite io db randoms u links).1 ≠ none) :
    (createLinksBulkWrite io db randoms u links).2.links = db.links ∧
      (createLinksBulkWrite io db randoms u links).2.geoTargets = db.geoTargets := by
  unfold createLinksBulkWrite at h ⊢
  split
  · exact ⟨rfl, rfl⟩
  · rename_i hne
    rw [if_neg hne] at h
    split
    · exact ⟨rfl, rfl⟩
    · rename_i out hout
      rw [hout] at h
      rw [inTx_unchanged hio h]
      exact ⟨rfl, rfl⟩

/-- A link is in the view of the user who creates it. -/
theorem view_created {u : User} {r : LinkRow} (howner : r.userId = u.id)
    (htenant : r.tenantId = u.tenantId) : View u r := by
  unfold View
  cases u.role with
  | superadmin => trivial
  | tenant => exact htenant
  | customer => exact Or.inl howner

/-- The new links are found again by the user who imports them. -/
theorem read_imported {after : Script} (hafter : after.Healthy) {before db : Database} {u : User}
    (hu : Placed u) {id : ℤ} {links : List Link} (h : Imported before db u id links) :
    ∃ found, linksByIDs after db u ((List.range links.length).map fun i : ℕ => id + (i : ℤ)) =
      .ok found := by
  apply linksByIDs_ok_iff.mpr
  refine Or.inr ⟨hu, firstFailure_healthy hafter _ _, firstFailure_healthy hafter _ _, ?_⟩
  intro i hi
  obtain ⟨k, hk, rfl⟩ := List.mem_map.mp hi
  rw [List.mem_range] at hk
  obtain ⟨columns, now, -, hrow, -⟩ := h.holds k links[k] (List.getElem?_eq_getElem hk)
  refine ⟨_, (mem_link hrow).1, (mem_link hrow).2, rfl, ?_⟩
  exact view_created rfl rfl

/-- The imported link as a read shows it. -/
def Made (db : Database) (u : User) (link found : Link) : Prop :=
  ∃ id columns now, linkColumns link = some columns ∧
    found = readBack db (columns.assign none none (blankRow id u link.slug now)) ∧
    db.link id = some (columns.assign none none (blankRow id u link.slug now)) ∧
    link.geoTargets.mapM (geoRow id) = some (geoRows db id)

/-- The links that were read are those that were imported, in their order. -/
structure ReadOff (db : Database) (u : User) (links found : List Link) : Prop where
  length : found.length = links.length
  made : ∀ (k : ℕ) link f, links[k]? = some link → found[k]? = some f → Made db u link f

theorem readOff_imported {after : Script} {before db : Database} {u : User} {id : ℤ}
    {links found : List Link} (h : Imported before db u id links)
    (hread : linksByIDs after db u ((List.range links.length).map fun i : ℕ => id + (i : ℤ)) =
      .ok found) : ReadOff db u links found := by
  obtain ⟨hshown, hids⟩ := shown_of_linksByIDs hread
  constructor
  · have hlength := congrArg List.length hids
    rw [List.length_map, List.length_map, List.length_range] at hlength
    exact hlength
  · intro k link f hlink hf
    have hid : f.id = id + (k : ℤ) := by
      have hk : k < links.length := (List.getElem?_eq_some_iff.mp hlink).1
      have hat := congrArg (fun l : List ℤ => l[k]?) hids
      simp only [List.getElem?_map, hf, Option.map_some, List.getElem?_range hk] at hat
      exact Option.some.inj hat
    obtain ⟨r, hr, -, -, heq⟩ := hshown f (List.mem_of_getElem? hf)
    have hrid : f.id = r.id := congrArg Link.id heq
    obtain ⟨columns, now, hcolumns, hrow, hgeo⟩ := h.holds k link hlink
    have hsame : columns.assign none none (blankRow (id + k) u link.slug now) = r := by
      apply Option.some.inj
      rw [← hrow, ← hid, hrid]
      exact link_mem hr
    exact ⟨id + k, columns, now, hcolumns, hsame ▸ heq, hrow, hgeo⟩

theorem ReadOff.of_found {db : Database} {u : User} {links found : List Link}
    (h : ReadOff db u links found) {f : Link} (hf : f ∈ found) :
    ∃ link ∈ links, Made db u link f := by
  obtain ⟨k, hk⟩ := List.mem_iff_getElem?.mp hf
  have hlt : k < links.length := h.length ▸ (List.getElem?_eq_some_iff.mp hk).1
  exact ⟨links[k], List.getElem_mem hlt, h.made k _ f (List.getElem?_eq_getElem hlt) hk⟩

theorem ReadOff.of_link {db : Database} {u : User} {links found : List Link}
    (h : ReadOff db u links found) {link : Link} (hlink : link ∈ links) :
    ∃ f ∈ found, Made db u link f := by
  obtain ⟨k, hk⟩ := List.mem_iff_getElem?.mp hlink
  have hlt : k < found.length := h.length ▸ (List.getElem?_eq_some_iff.mp hk).1
  exact ⟨found[k], List.getElem_mem hlt, h.made k link _ hk (List.getElem?_eq_getElem hlt)⟩

/-! ## The audit of an import -/

theorem notMem_of_text {s t : Str} (h : text s = some t) : (0 : UInt8) ∉ t := by
  have hsame := text_some h
  unfold text at h
  split at h
  · rename_i hclean
    rw [hsame]
    simpa using (Bool.and_eq_true_iff.mp hclean).2
  · cases h

theorem text_of_varchar {n : ℕ} {s t : Str} (h : varchar n s = some t) : text s = some s := by
  cases hnone : text s with
  | none =>
    rw [varchar, if_pos hnone] at h
    cases h
  | some s' => rw [text_some hnone]

theorem notMem_of_varchar {n : ℕ} {s t : Str} (h : varchar n s = some t) : (0 : UInt8) ∉ t := by
  have hclean := notMem_of_text (text_of_varchar h)
  have hsub : ∀ b ∈ t, b ∈ s := by
    unfold varchar at h
    split at h
    · cases h
    split at h
    · cases h
      exact fun b hb => hb
    split at h
    · cases h
      intro b hb
      obtain ⟨r, hr, hbytes⟩ := List.mem_flatMap.mp hb
      rw [← bytesOf_runes s]
      exact List.mem_flatMap.mpr ⟨r, List.mem_of_mem_take hr, hbytes⟩
    · cases h
  exact fun hmem => hclean (hsub 0 hmem)

/-- An expiry can be written in RFC 3339. -/
def Writable (link : Link) : Prop := ∀ t, link.expiresAt = some t → (GoTime.formatRFC3339 t).isSome

/-- JSON takes the record of the imported links. -/
def Auditable (links : List Link) : Prop :=
  (∀ link ∈ links, Writable link) →
    ∀ link ∈ links, ∀ tag ∈ normalizeTags link.tags, (0 : UInt8) ∉ tag

theorem formatRFC3339_isSome (t : Time) : (GoTime.formatRFC3339 t).isSome =
    (decide (0 ≤ (GoTime.civil t.utcDay).1) && decide ((GoTime.civil t.utcDay).1 ≤ 9999)) := by
  unfold GoTime.formatRFC3339 GoTime.Time.utcDay
  generalize GoTime.civil (t.nanos / GoTime.day) = date
  obtain ⟨year, month, d⟩ := date
  dsimp only
  by_cases hyear : (decide (0 ≤ year) && decide (year ≤ 9999)) = true
  · rw [if_pos hyear, hyear]
    rfl
  · rw [if_neg hyear]
    rw [Bool.not_eq_true] at hyear
    rw [hyear]
    rfl

/-- A column keeps the day of a time. -/
theorem writable_timestamptz {t u : Time} (h : timestamptz t = some u) :
    (GoTime.formatRFC3339 u).isSome = (GoTime.formatRFC3339 t).isSome := by
  rw [formatRFC3339_isSome, formatRFC3339_isSome, utcDay_timestamptz h]

theorem single_of_mem {s : Str} {r : Rune} {b : UInt8} (hb : b < 0x80) (hr : r ∈ runes s)
    (h : b ∈ r.bytes) : r = single b := by
  induction s using rune_induction with
  | nil => cases hr
  | cons a rest ih =>
    rw [runes_cons] at hr
    rcases List.mem_cons.mp hr with rfl | hr
    · exact eq_single_of_mem hb h
    · exact ih hr

theorem zero_of_toValid {s : Str} : (0 : UInt8) ∈ toValid s ↔ (0 : UInt8) ∈ s := by
  constructor
  · intro h
    rcases mem_toValid h with hmem | hmem
    · exact hmem
    · exact absurd hmem (by decide)
  · intro h
    obtain ⟨r, hr, hbytes⟩ := List.mem_flatMap.mp ((bytesOf_runes s).symm ▸ h)
    obtain rfl := single_of_mem (by decide) hr hbytes
    exact List.mem_flatMap.mpr ⟨single 0, hr, by decide⟩

/-- The texts of a record of an imported link that may hold NUL are its tags. -/
theorem texts_made {db : Database} {u : User} {link found : Link} (h : Made db u link found)
    (hslug : slugRe link.slug = true) :
    (∀ t ∈ (linkRecord found).texts, (0 : UInt8) ∉ t) ↔
      ∀ tag ∈ normalizeTags link.tags, (0 : UInt8) ∉ tag := by
  obtain ⟨id, columns, now, hcolumns, rfl, -, -⟩ := h
  have htaken := linkColumns_iff.mp hcolumns
  have hplain : (0 : UInt8) ∉ link.slug := by
    simp only [slugRe, Bool.and_eq_true, List.all_eq_true] at hslug
    intro hmem
    exact (slugByte_plain 0 (hslug.2 0 hmem)).2 rfl
  have hvisibility : (0 : UInt8) ∉ columns.visibility := by
    rcases checkVisibility_some htaken.visibility with heq | heq <;> rw [heq] <;> decide
  have htexts : (linkRecord (readBack db (columns.assign none none
      (blankRow id u link.slug now)))).texts =
      [link.slug, columns.targetUrl, columns.title, columns.visibility] ++
        (normalizeTags link.tags).map toValid := by
    rw [← htaken.tags]
    rfl
  rw [htexts]
  constructor
  · intro hall tag htag hmem
    exact hall (toValid tag) (List.mem_append_right _ (List.mem_map_of_mem htag))
      (zero_of_toValid.mpr hmem)
  · intro hall t ht
    rcases List.mem_append.mp ht with ht | ht
    · simp only [List.mem_cons, List.not_mem_nil, or_false] at ht
      rcases ht with rfl | rfl | rfl | rfl
      · exact hplain
      · exact notMem_of_text htaken.targetUrl
      · exact notMem_of_varchar htaken.title
      · exact hvisibility
    · obtain ⟨tag, htag, rfl⟩ := List.mem_map.mp ht
      exact fun hmem => hall tag htag (zero_of_toValid.mp hmem)

theorem times_made {db : Database} {u : User} {link found : Link} (h : Made db u link found) :
    (∀ t, found.expiresAt = some t → (GoTime.formatRFC3339 t).isSome) ↔ Writable link := by
  obtain ⟨id, columns, now, hcolumns, rfl, -, -⟩ := h
  have hexpires := (linkColumns_iff.mp hcolumns).expiresAt
  change (∀ t, columns.expiresAt = some t → _) ↔ ∀ t, link.expiresAt = some t → _
  cases hlink : link.expiresAt with
  | none =>
    rw [hlink] at hexpires
    rw [← Option.some.inj hexpires]
  | some t =>
    rw [hlink] at hexpires
    obtain ⟨stored, hstored, hsome⟩ := Option.map_eq_some_iff.mp hexpires
    rw [← hsome]
    simp only [Option.some.injEq, forall_eq', writable_timestamptz hstored]

/-- What the audit records of an import can be stored exactly when its tags allow it. -/
theorem recordable_iff {db : Database} {u : User} {links found : List Link}
    (h : ReadOff db u links found) (hslugs : ∀ link ∈ links, slugRe link.slug = true) :
    Recordable (some (LinkHandlers.snapshots found)) ↔ Auditable links := by
  have htimes : (LinkHandlers.snapshots found).times.all
      (fun t => (GoTime.formatRFC3339 t).isSome) =
      true ↔ ∀ link ∈ links, Writable link := by
    rw [List.all_eq_true]
    change (∀ t ∈ (found.map linkRecord).flatMap fun l => l.expiresAt.toList, _) ↔ _
    constructor
    · intro hall link hlink
      obtain ⟨f, hf, hmade⟩ := h.of_link hlink
      refine (times_made hmade).mp fun t ht => hall t ?_
      exact List.mem_flatMap.mpr ⟨linkRecord f, List.mem_map_of_mem hf, by simp [linkRecord, ht]⟩
    · intro hall t ht
      obtain ⟨l, hl, ht⟩ := List.mem_flatMap.mp ht
      obtain ⟨f, hf, rfl⟩ := List.mem_map.mp hl
      obtain ⟨link, hlink, hmade⟩ := h.of_found hf
      exact (times_made hmade).mpr (hall link hlink) t (by simpa [linkRecord] using ht)
  have htexts : (∀ t ∈ (LinkHandlers.snapshots found).texts, (0 : UInt8) ∉ t) ↔
      ∀ link ∈ links, ∀ tag ∈ normalizeTags link.tags, (0 : UInt8) ∉ tag := by
    change (∀ t ∈ (found.map linkRecord).flatMap LinkRecord.texts, _) ↔ _
    constructor
    · intro hall link hlink
      obtain ⟨f, hf, hmade⟩ := h.of_link hlink
      refine (texts_made hmade (hslugs link hlink)).mp fun t ht => hall t ?_
      exact List.mem_flatMap.mpr ⟨linkRecord f, List.mem_map_of_mem hf, ht⟩
    · intro hall t ht
      obtain ⟨l, hl, ht⟩ := List.mem_flatMap.mp ht
      obtain ⟨f, hf, rfl⟩ := List.mem_map.mp hl
      obtain ⟨link, hlink, hmade⟩ := h.of_found hf
      exact (texts_made hmade (hslugs link hlink)).mpr (hall link hlink) t ht
  unfold Recordable Auditable
  rw [← htimes, ← htexts]
  unfold marshalled
  by_cases hall : (LinkHandlers.snapshots found).times.all
      (fun t => (GoTime.formatRFC3339 t).isSome) = true
  · rw [Option.filter_some, if_pos hall]
    simp [hall]
  · rw [Option.filter_some, if_neg hall]
    simp [hall]

end ImportWrites
