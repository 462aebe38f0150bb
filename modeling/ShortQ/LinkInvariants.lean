import ShortQ.AcceptedLinks
import ShortQ.LinkEdits

/-! # Stored links stay valid

Every write stores a link that has been checked, except that an update which leaves the
password alone has been checked against the password its request had read. -/
namespace LinkInvariants

open GoText (Str lit runes)
open AcceptedLinks
open LabelledRuns
open LinkCalls
open LinkEdits
open LinkPayload
open LinkScopes
open LinkStore
open LinkValidation
open LinkWrites
open Models
open RowTable
open Schema
open Transaction

/-- The row with its geo targets passes the checks of the store. -/
def ValidRow (db : Database) (r : LinkRow) : Prop :=
  slugRe r.slug = true ∧ validateLink (readBack db r) = none

/-- The foreign key of `link_geo_targets`. -/
def Owned (db : Database) : Prop :=
  ∀ g ∈ db.geoTargets.rows, ∃ r ∈ db.links.rows, r.id = g.linkId

structure ValidLinks (db : Database) : Prop where
  rows : ∀ r ∈ db.links.rows, ValidRow db r
  owned : Owned db

theorem validLinks_empty : ValidLinks Database.empty := by
  constructor
  · intro r hr
    cases hr
  · intro g hg
    cases hg

theorem ValidRow.untouched {before after : Database} {r : LinkRow} (h : ValidRow before r)
    (k : Untouched before after r) : ValidRow after r := by
  have hread : readBack after r = readBack before r := by
    simp only [readBack, hydrateLink, scanLink, geoTargetsOf_eq, k.2]
  exact ⟨h.1, by rw [hread]; exact h.2⟩

theorem ValidLinks.of_same {before after : Database} (h : ValidLinks before)
    (k : SameLinks before after) : ValidLinks after := by
  constructor
  · intro r hr
    rw [k.1] at hr
    exact (h.rows r hr).untouched (.of_same k.1 k.2 hr)
  · intro g hg
    rw [k.2] at hg
    rw [k.1]
    exact h.owned g hg

/-! Geo targets belong to links. -/

theorem Owned.evolves {before after : Database} (h : Owned before) (k : Evolves before after)
    (hgeo : after.geoTargets = before.geoTargets) : Owned after := by
  intro g hg
  rw [hgeo] at hg
  obtain ⟨r, hr, hid⟩ := h g hg
  obtain ⟨r', hr', hid', -⟩ := k r hr
  exact ⟨r', hr', hid'.trans hid⟩

theorem Owned.insertGeos {io : Script} {linkId : ℤ} {n : ℕ} {tx tx' : Database}
    {targets : List GeoTarget} (hown : Owned tx)
    (h : LinkStore.insertGeos io linkId n tx targets = .ok tx') : Owned tx' := by
  induction targets generalizing n tx with
  | nil =>
    cases h
    exact hown
  | cons target rest ih =>
    unfold LinkStore.insertGeos at h
    split at h
    · cases h
    · rename_i tx₁ hone
      refine ih ?_ h
      have hinsert := call_ok hone
      unfold insertGeo at hinsert
      split at hinsert
      · rename_i code url hcode hurl
        split at hinsert
        · rename_i geo hgeo
          split at hinsert
          · rename_i hsome
            cases hinsert
            obtain ⟨r, hr⟩ := Option.isSome_iff_exists.mp hsome
            intro g hg
            rw [(Table.insert_eq_some.mp hgeo).2] at hg
            rcases List.mem_append.mp hg with hg | hg
            · exact hown g hg
            · obtain rfl := List.mem_singleton.mp hg
              exact ⟨r, mem_link hr⟩
          · cases hinsert
        · cases hinsert
      · cases hinsert

theorem Owned.replaceGeoTargets {io : Script} {linkId : ℤ} {n : ℕ} {tx tx' : Database}
    {targets : List GeoTarget} (hown : Owned tx)
    (h : LinkStore.replaceGeoTargets io n tx linkId targets = .ok tx') : Owned tx' := by
  unfold LinkStore.replaceGeoTargets at h
  split at h
  · cases h
  · rename_i tx₁ hdelete
    have hok := call_ok hdelete
    cases hok
    have hdeleted : Owned (deleteGeos tx linkId) := fun g hg => hown g (List.mem_filter.mp hg).1
    exact hdeleted.insertGeos h

theorem geoRows_of_fresh {tx : Database} {id : ℤ} (hown : Owned tx)
    (h : ∀ r ∈ tx.links.rows, r.id ≠ id) : geoRows tx id = [] := by
  rw [geoRows, List.filter_eq_nil_iff]
  intro g hg hid
  obtain ⟨r, hr, heq⟩ := hown g hg
  exact h r hr (heq.trans (by simpa using hid))

/-! Creating links. -/

theorem slug_stored {s t : Str} (h : varchar 80 s = some t) (hslug : slugRe s = true) : t = s := by
  simp only [slugRe, Bool.and_eq_true, decide_eq_true_eq] at hslug
  exact varchar_short h ((Runes.length_runes_le s).trans hslug.1.2)

/-- One new row holds the columns of a link and the geo targets are its; the others stay. -/
structure Created (before after : Database) (id : ℤ) (u : User) (link : Link)
    (password : Option Str) : Prop where
  row : ∃ columns slug now, linkColumns link = some columns ∧ varchar 80 link.slug = some slug ∧
    after.links.rows = before.links.rows ++ [columns.assign password none (blankRow id u slug now)]
  geo : link.geoTargets.mapM (geoRow id) = some (geoRows after id)
  frame : ∀ r ∈ before.links.rows, Untouched before after r
  owned : Owned after
  next : after.nextLinkId = before.nextLinkId

theorem next_insertGeos {io : Script} {linkId : ℤ} {n : ℕ} {tx tx' : Database}
    {targets : List GeoTarget} (h : insertGeos io linkId n tx targets = .ok tx') :
    tx'.nextLinkId = tx.nextLinkId := by
  induction targets generalizing n tx with
  | nil =>
    cases h
    rfl
  | cons target rest ih =>
    unfold insertGeos at h
    split at h
    · cases h
    · rename_i tx₁ hone
      rw [ih h]
      have hinsert := call_ok hone
      unfold insertGeo at hinsert
      split at hinsert
      · split at hinsert
        · split at hinsert <;> cases hinsert
          rfl
        · cases hinsert
      · cases hinsert

theorem next_replaceGeoTargets {io : Script} {linkId : ℤ} {n : ℕ} {tx tx' : Database}
    {targets : List GeoTarget} (h : replaceGeoTargets io n tx linkId targets = .ok tx') :
    tx'.nextLinkId = tx.nextLinkId := by
  unfold replaceGeoTargets at h
  split at h
  · cases h
  · rename_i tx₁ hdelete
    have hok := call_ok hdelete
    cases hok
    have hnext := next_insertGeos h
    exact hnext

theorem created_createLinkTx {io : Script} {tx tx' : Database} {id : ℤ} {u : User} {link : Link}
    {hash : Str} (h : createLinkTx io tx id u link hash = .ok tx') (hown : Owned tx) :
    Created tx tx' id u link (some hash) := by
  have hframe := (writes_createLinkTx h).frame
  unfold createLinkTx at h
  split at h
  · rename_i columns slug hcolumns hvarchar
    dsimp only at h
    split at h
    · cases h
    · rename_i tx₁ hcall
      have hinsert := call_ok hcall
      split at hinsert
      · cases hinsert
      · rename_i links hins
        cases hinsert
        have hrows := congrArg Table.rows (replaceGeoTargets_frame h).1
        rw [(Table.insert_eq_some.mp hins).2] at hrows
        have hinserted : Owned { tx with links := links } := hown.evolves (.of_insert hins) rfl
        have hnext := next_replaceGeoTargets h
        constructor
        · exact ⟨columns, slug, _, hcolumns, hvarchar, hrows⟩
        · exact replaceGeoTargets_rows h
        · intro r hr
          exact hframe r hr (by simp)
        · exact hinserted.replaceGeoTargets h
        · exact hnext
  · cases h

theorem created_importLink {io : Script} {n : ℕ} {tx tx' : Database} {id : ℤ} {u : User}
    {link : Link} (h : importLink io n tx id u link = .ok tx') (hown : Owned tx) :
    Created tx tx' id u link none := by
  have hframe (r : LinkRow) (hr : r ∈ tx.links.rows) := untouched_importLink h hr
  unfold importLink at h
  split at h
  · rename_i columns slug hcolumns hvarchar
    dsimp only at h
    split at h
    · cases h
    · rename_i tx₁ hcall
      have hinsert := call_ok hcall
      split at hinsert
      · cases hinsert
      · rename_i links hins
        cases hinsert
        obtain ⟨hfresh, htable⟩ := Table.insert_eq_some.mp hins
        have hrows := congrArg Table.rows (insertGeos_frame h).1
        rw [htable] at hrows
        have hinserted : Owned { tx with links := links } := hown.evolves (.of_insert hins) rfl
        have hnext := next_insertGeos h
        constructor
        · exact ⟨columns, slug, _, hcolumns, hvarchar, hrows⟩
        · have hempty : geoRows tx id = [] :=
            geoRows_of_fresh hown fun r hr heq => hfresh r hr (Or.inl heq)
          obtain ⟨gs, hgs, hgeo⟩ := insertGeos_rows h
          rw [hgs, hgeo]
          change some gs = some (geoRows tx id ++ gs)
          rw [hempty, List.nil_append]
        · exact hframe
        · exact hinserted.insertGeos h
        · exact hnext
  · cases h

/-- The table after the insert of an accepted link. -/
theorem validLinks_created {tx tx' : Database} {id : ℤ} {u : User} {link : Link}
    {password : Option Str} (h : Created tx tx' id u link password) (hlinks : ValidLinks tx)
    (hslug : slugRe link.slug = true) (hvalid : validateLink link = none)
    (hpassword : permanent link.redirectCode = true → password.getD [] = []) : ValidLinks tx' := by
  obtain ⟨columns, slug, now, hcolumns, hvarchar, hrows⟩ := h.row
  refine ⟨fun r hr => ?_, h.owned⟩
  rw [hrows] at hr
  rcases List.mem_append.mp hr with hr | hr
  · exact (hlinks.rows r hr).untouched (h.frame r hr)
  · obtain rfl := List.mem_singleton.mp hr
    refine ⟨?_, validateLink_none.mpr
      (accepted_stored (validateLink_none.mp hvalid) hcolumns h.geo hpassword)⟩
    change slugRe slug = true
    rw [slug_stored hvarchar hslug]
    exact hslug

theorem validLinks_createLinkTx {io : Script} {tx tx' : Database} {id : ℤ} {u : User}
    {link : Link} {hash : Str} (h : createLinkTx io tx id u link hash = .ok tx')
    (hlinks : ValidLinks tx) (hslug : slugRe link.slug = true)
    (hvalid : validateLink link = none)
    (hpassword : permanent link.redirectCode = true → hash = []) : ValidLinks tx' :=
  validLinks_created (created_createLinkTx h hlinks.owned) hlinks hslug hvalid hpassword

theorem validLinks_importLink {io : Script} {n : ℕ} {tx tx' : Database} {id : ℤ} {u : User}
    {link : Link} (h : importLink io n tx id u link = .ok tx') (hlinks : ValidLinks tx)
    (hslug : slugRe link.slug = true) (hvalid : validateLink link = none) : ValidLinks tx' :=
  validLinks_created (created_importLink h hlinks.owned) hlinks hslug hvalid fun _ => rfl

theorem checkImport_ok {randoms : ℕ → Str} {seen : List Str} {index : ℕ} {links out : List Link}
    (h : checkImport randoms seen index links = .ok out) :
    ∀ link ∈ out, slugRe link.slug = true ∧ validateLink link = none := by
  induction links generalizing seen index out with
  | nil =>
    cases h
    simp
  | cons link rest ih =>
    unfold checkImport at h
    dsimp only at h
    split at h
    · cases h
    rename_i hslug
    split at h
    · cases h
    split at h
    · cases h
    rename_i hvalid
    split at h
    · cases h
    rename_i out' hrest
    cases h
    intro l hl
    rcases List.mem_cons.mp hl with rfl | hl
    · exact ⟨by simpa using hslug, hvalid⟩
    · exact ih hrest l hl

theorem validLinks_importEach {io : Script} {u : User} {n : ℕ} {id : ℤ} {tx tx' : Database}
    {links : List Link} (h : importEach io u n id tx links = .ok tx') (hlinks : ValidLinks tx)
    (hall : ∀ link ∈ links, slugRe link.slug = true ∧ validateLink link = none) :
    ValidLinks tx' := by
  induction links generalizing n id tx with
  | nil =>
    cases h
    exact hlinks
  | cons link rest ih =>
    unfold importEach at h
    split at h
    · cases h
    · rename_i tx₁ hone
      obtain ⟨hslug, hvalid⟩ := hall link List.mem_cons_self
      exact ih h (validLinks_importLink hone hlinks hslug hvalid) fun l hl =>
        hall l (List.mem_cons_of_mem _ hl)

/-! Deleting links. -/

theorem validLinks_deleteWhere {db : Database} (h : ValidLinks db) (p : LinkRow → Bool)
    (now : GoTime.Time) : ValidLinks (deleteWhere db p now) := by
  constructor
  · intro r hr
    rw [deleteWhere, Table.rows_update] at hr
    obtain ⟨q, hq, rfl⟩ := List.mem_map.mp hr
    by_cases hp : p q = true
    · rw [if_pos hp]
      exact h.rows q hq
    · rw [if_neg hp]
      exact h.rows q hq
  · exact h.owned.evolves (.of_update (keeps_markDeleted now) rfl fun _ => ⟨rfl, rfl, fun _ => rfl⟩)
      rfl

/-! Updating links. -/

/-- A write that stores accepted links under the given ids and leaves the others alone. -/
theorem ValidLinks.stored {before after : Database} (h : ValidLinks before) {ids : List ℤ}
    (hframe : ∀ r ∈ before.links.rows, r.id ∉ ids → Untouched before after r)
    (hids : ∀ r ∈ after.links.rows, ∃ q ∈ before.links.rows, q.id = r.id)
    (hstores : ∀ id ∈ ids, ∃ link password, Stores before after id link password ∧
      validateLink link = none ∧ ∀ r, before.link id = some r →
        permanent link.redirectCode = true → password.getD r.passwordHash = [])
    (hown : Owned after) : ValidLinks after := by
  refine ⟨fun r hr => ?_, hown⟩
  obtain ⟨q, hq, hid⟩ := hids r hr
  by_cases hmem : q.id ∈ ids
  · obtain ⟨link, password, hstores, hvalid, hpassword⟩ := hstores q.id hmem
    obtain ⟨q', columns, updatedAt, hq', hcolumns, hafter⟩ := hstores.row
    obtain rfl : q = q' := Option.some.inj ((link_mem hq).symm.trans hq')
    obtain rfl : columns.assign password updatedAt q = r := by
      have hr' := link_mem hr
      rw [← hid, hafter] at hr'
      exact Option.some.inj hr'
    exact ⟨(h.rows q hq).1, validateLink_none.mpr (accepted_stored (validateLink_none.mp hvalid)
      hcolumns hstores.geo (hpassword q (link_mem hq)))⟩
  · have hkeep := hframe q hq hmem
    obtain rfl := after.links.eq_of_clash linkClash_symm hkeep.1 hr (Or.inl hid)
    exact (h.rows q hq).untouched hkeep

theorem subrows_assignWhere {tx : Database} {p : LinkRow → Bool} {columns : LinkColumns}
    {password : Option Str} {updatedAt : Option GoTime.Time} :
    ∀ r ∈ (assignWhere tx p columns password updatedAt).links.rows,
      ∃ q ∈ tx.links.rows, q.id = r.id := by
  intro r hr
  rw [assignWhere, Table.rows_update] at hr
  obtain ⟨q, hq, rfl⟩ := List.mem_map.mp hr
  refine ⟨q, hq, ?_⟩
  by_cases hp : p q = true
  · rw [if_pos hp]
    rfl
  · rw [if_neg hp]

/-- A loop of updates adds no rows and keeps geo targets with their links. -/
theorem updateEach_rows {io : Script} {n : ℕ} {tx tx' : Database} {updates : List LinkUpdate}
    (h : updateEach io n tx updates = .ok tx') :
    (∀ r ∈ tx'.links.rows, ∃ q ∈ tx.links.rows, q.id = r.id) ∧ (Owned tx → Owned tx') ∧
      tx'.nextLinkId = tx.nextLinkId := by
  induction updates generalizing n tx with
  | nil =>
    cases h
    exact ⟨fun r hr => ⟨r, hr, rfl⟩, id, rfl⟩
  | cons update rest ih =>
    unfold updateEach at h
    split at h
    · cases h
    rename_i columns hcolumns
    dsimp only at h
    split at h
    · cases h
    rename_i tx₁ hwrite
    have hassign := call_ok hwrite
    cases hassign
    split at h
    · cases h
    rename_i tx₂ hgeo
    obtain ⟨hsub, hown, hnext⟩ := ih h
    have hone := next_replaceGeoTargets hgeo
    refine ⟨fun r hr => ?_, fun howned => ?_, hnext.trans hone⟩
    · obtain ⟨q, hq, hid⟩ := hsub r hr
      rw [(replaceGeoTargets_frame hgeo).1] at hq
      obtain ⟨q', hq', hid'⟩ := subrows_assignWhere q hq
      exact ⟨q', hq', hid'.trans hid⟩
    · refine hown (Owned.replaceGeoTargets ?_ hgeo)
      exact howned.evolves (evolves_assignWhere tx _ columns _ _) rfl

theorem updateLinkTx_rows {io : Script} {tx tx' : Database} {u : User} {id : ℤ} {link : Link}
    {password : Option Str} (h : updateLinkTx io tx u id link password = .ok tx') :
    (∀ r ∈ tx'.links.rows, ∃ q ∈ tx.links.rows, q.id = r.id) ∧ (Owned tx → Owned tx') ∧
      tx'.nextLinkId = tx.nextLinkId := by
  obtain ⟨scope, columns, -, -, -, hrows, -⟩ := updateLinkTx_links h
  unfold updateLinkTx at h
  split at h
  · cases h
  split at h
  · cases h
  split at h
  · cases h
  split at h
  · cases h
  rename_i tx₁ hwrite
  have hassign := call_ok hwrite
  cases hassign
  have hnext := next_replaceGeoTargets h
  refine ⟨fun r hr => ?_, fun hown => ?_, hnext⟩
  · rw [hrows] at hr
    exact subrows_assignWhere r hr
  · exact Owned.replaceGeoTargets (hown.evolves (evolves_assignWhere tx _ _ _ _) rfl) h

theorem validLinks_updateLinkTx {io : Script} {tx tx' : Database} {u : User} {id : ℤ}
    {link : Link} {password : Option Str} (h : updateLinkTx io tx u id link password = .ok tx')
    (hlinks : ValidLinks tx) (hvalid : validateLink link = none)
    (hpassword : ∀ r, tx.link id = some r → permanent link.redirectCode = true →
      password.getD r.passwordHash = []) : ValidLinks tx' := by
  obtain ⟨hsub, hown, -⟩ := updateLinkTx_rows h
  refine hlinks.stored (writes_updateLinkTx h).frame hsub (fun i hi => ?_) (hown hlinks.owned)
  obtain rfl := List.mem_singleton.mp hi
  exact ⟨link, password, stores_updateLinkTx h, hvalid, hpassword⟩

theorem validLinks_updateLinksBulkTx {io : Script} {tx tx' : Database} {u : User}
    {updates : List LinkUpdate} (h : updateLinksBulkTx io tx u updates = .ok tx')
    (hlinks : ValidLinks tx) (hvalid : ∀ update ∈ updates, validateLink update.link = none)
    (hpassword : ∀ update ∈ updates, ∀ r, tx.link update.id = some r →
      permanent update.link.redirectCode = true →
      (if update.passwordChanged then some update.passwordHash else none).getD
        r.passwordHash = []) : ValidLinks tx' := by
  have hstores := (stores_updateLinksBulkTx h).2
  have hframe := (writes_updateLinksBulkTx h).frame
  unfold updateLinksBulkTx at h
  split at h
  · cases h
  split at h
  · cases h
  split at h
  · cases h
  obtain ⟨hsub, hown, -⟩ := updateEach_rows h
  refine hlinks.stored hframe hsub (fun id hid => ?_) (hown hlinks.owned)
  obtain ⟨update, hu, rfl⟩ := List.mem_map.mp hid
  exact ⟨update.link, _, hstores update hu, hvalid update hu, hpassword update hu⟩

/-! Runs. -/

theorem ValidLinks.inTx {db drawn : Database} {io : Script} {body : Except Err Database}
    (h : ValidLinks db) (hdrawn : SameLinks db drawn)
    (hbody : ∀ tx, body = .ok tx → ValidLinks tx) :
    ValidLinks (Transaction.inTx io drawn body).2 := by
  rcases inTx_state io drawn body with heq | ⟨tx, hok, heq⟩
  · rw [heq]
    exact h.of_same hdrawn
  · rw [heq]
    exact hbody tx hok

theorem validLinks_call {c : Call} (hc : Call.other c = true) {io : Script} {db : Database}
    {u : User} (h : ValidLinks db) : ValidLinks (c.write io db u).2 := by
  cases c with
  | createLink random link hash =>
    simp only [Call.write, createLinkWrite]
    split
    · exact h
    rename_i hslug
    split
    · exact h
    rename_i hvalid
    have hdrawn : ValidLinks { db with nextLinkId := db.nextLinkId + 1 } := h.of_same ⟨rfl, rfl⟩
    refine h.inTx ⟨rfl, rfl⟩ fun tx hbody =>
      validLinks_createLinkTx hbody hdrawn (by simpa using hslug) hvalid fun hpermanent => ?_
    have hstatic := (validateLink_none.mp hvalid).static hpermanent
    simp only [dynamic, Bool.or_eq_false_iff, createLinkInput, decide_eq_false_iff_not] at hstatic
    exact List.length_eq_zero_iff.mp (by omega)
  | createLinksBulk randoms links =>
    simp only [Call.write, createLinksBulkWrite]
    split
    · exact h
    split
    · exact h
    rename_i checked hchecked
    have hdrawn : ValidLinks { db with nextLinkId := db.nextLinkId + checked.length } :=
      h.of_same ⟨rfl, rfl⟩
    refine h.inTx ⟨rfl, rfl⟩ fun tx hbody => ?_
    unfold createLinksBulkTx at hbody
    split at hbody
    · cases hbody
    · exact validLinks_importEach hbody hdrawn (checkImport_ok hchecked)
  | updateLink => cases hc
  | updateLinksBulk => cases hc
  | deleteLink id =>
    rcases deleteLink_state io db u id with heq | ⟨p, now, heq⟩
    · rw [Call.write, heq]
      exact h
    · rw [Call.write, heq]
      exact validLinks_deleteWhere h p now
  | deleteLinksBulk ids =>
    simp only [Call.write, deleteLinksBulk]
    split
    · exact h
    split
    · exact h
    · refine h.inTx ⟨rfl, rfl⟩ fun tx hbody => ?_
      have hok := call_ok hbody
      split at hok
      · cases hok
        exact validLinks_deleteWhere h _ _
      · cases hok

/-- An update that leaves the password alone and has a permanent code, but was checked against
no password, finds none stored either. -/
def Guarded (s : Config) : Label → Prop
  | .write r _ => ∀ links updates, s.phase r = .merged links updates → ∀ update ∈ updates,
      update.passwordChanged = false → update.link.passwordProtected = false →
      permanent update.link.redirectCode = true →
      ∀ row, s.db.link update.id = some row → row.passwordHash = []
  | _ => True

/-- A payload that sets a password marks the link as protected. -/
theorem hash_of_merged {set : Payload} {links : List Link} {update : LinkUpdate}
    (h : Merged set links update)
    (hopen : update.link.passwordProtected = false) : update.passwordHash = [] := by
  obtain ⟨link, -, -, hassign⟩ := h.link
  obtain ⟨hash, hsecret⟩ := h.secret
  by_contra hne
  have hsome := (secret_written hsecret).mp hne
  rw [hassign, Payload.assign] at hopen
  simp [hsome] at hopen

/-- What the single update checks of the password. -/
theorem updateLinkInput_open {link : Link} {hash : Str} {changed : Bool}
    (hcode : permanent (updateLinkInput link hash changed).redirectCode = true)
    (h : (updateLinkInput link hash changed).passwordProtected = false) :
    permanent link.redirectCode = true ∧
      if changed then hash = [] else link.passwordProtected = false := by
  constructor
  · by_cases hzero : link.redirectCode = 0
    · simp [updateLinkInput, hzero, permanent] at hcode
    · simpa [updateLinkInput, hzero] using hcode
  · cases changed with
    | true => simpa [updateLinkInput] using h
    | false => exact h

theorem validLinks_write {patches : ℕ → Option Patch} {s : Config} {r : ℕ} {p : Patch}
    {links : List Link} {updates : List LinkUpdate} {io : Script} (hwf : Wellformed patches s)
    (hp : patches r = some p) (hphase : s.phase r = .merged links updates)
    (h : ValidLinks s.db) (hguard : Guarded s (.write r io)) :
    ValidLinks (p.write io s.db updates).2 := by
  obtain ⟨-, hids, hmerged⟩ := hwf.merged r p links updates hp (by rw [hphase]; rfl)
  have hpassword (update : LinkUpdate) (hu : update ∈ updates)
      (hopen : update.link.passwordProtected = false)
      (hpermanent : permanent update.link.redirectCode = true) (row : LinkRow)
      (hrow : s.db.link update.id = some row) :
      (if update.passwordChanged then some update.passwordHash else none).getD
        row.passwordHash = [] := by
    cases hchanged : update.passwordChanged with
    | true => exact hash_of_merged (hmerged update hu) hopen
    | false => exact hguard links updates hphase update hu hchanged hopen hpermanent row hrow
  have hopen {link : Link} (hvalid : validateLink link = none)
      (hpermanent : permanent link.redirectCode = true) : link.passwordProtected = false := by
    have hstatic := (validateLink_none.mp hvalid).static hpermanent
    simp only [dynamic, Bool.or_eq_false_iff] at hstatic
    exact hstatic.1.1.2
  unfold Patch.write
  split
  · rename_i id update hroute
    rw [hroute, List.map_singleton] at hids
    obtain rfl : update.id = id := List.singleton_inj.mp hids
    dsimp only [updateLinkWrite]
    split
    · exact h
    · rename_i hvalid
      refine h.inTx ⟨rfl, rfl⟩ fun tx hbody =>
        validLinks_updateLinkTx hbody h hvalid fun row hrow hpermanent => ?_
      obtain ⟨hcode, hlink⟩ := updateLinkInput_open hpermanent (hopen hvalid hpermanent)
      cases hchanged : update.passwordChanged with
      | true =>
        rw [hchanged] at hlink
        exact hlink
      | false =>
        rw [hchanged] at hlink
        exact hguard _ _ hphase update List.mem_cons_self hchanged hlink hcode row hrow
  · exact h
  · unfold updateLinksBulkWrite
    split
    · exact h
    split
    · exact h
    · rename_i hvalid
      have hall := checkUpdates_none hvalid
      exact h.inTx ⟨rfl, rfl⟩ fun tx hbody => validLinks_updateLinksBulkTx hbody h hall
        fun update hu row hrow hpermanent =>
          hpassword update hu (hopen (hall update hu) hpermanent) hpermanent row hrow

theorem validLinks_step {patches : ℕ → Option Patch} {s t : Config} {l : Label}
    (hwf : Wellformed patches s) (h : ValidLinks s.db) (hguard : Guarded s l)
    (hstep : next patches s l = some t) : ValidLinks t.db := by
  cases l with
  | read r io =>
    have hdb : t.db = s.db := by
      simp only [next] at hstep
      split at hstep
      · split at hstep
        · cases hstep
          rfl
        · split at hstep <;> cases hstep <;> rfl
      · cases hstep
    rw [hdb]
    exact h
  | merge r hash =>
    have hdb : t.db = s.db := by
      simp only [next] at hstep
      split at hstep
      · split at hstep <;> cases hstep <;> rfl
      · cases hstep
    rw [hdb]
    exact h
  | write r io =>
    simp only [next] at hstep
    split at hstep
    · rename_i p links updates hp hphase
      have hwrite := validLinks_write hwf hp hphase h hguard
      split at hstep <;> rename_i hresult <;> rw [hresult] at hwrite <;> cases hstep <;>
        exact hwrite
    · cases hstep
  | respond r io =>
    have hdb : t.db = s.db := by
      simp only [next] at hstep
      split at hstep <;> cases hstep
      rfl
    rw [hdb]
    exact h
  | call u c io =>
    simp only [next] at hstep
    split at hstep
    · rename_i hother
      cases hstep
      exact validLinks_call hother h
    · cases hstep

/-- Every stored link is a valid link after any run in which updates that leave the password
alone make no protected link permanent. -/
theorem stored_links_valid {patches : ℕ → Option Patch} {db : Database} {ls : List Label}
    {t : Config} (hdb : ValidLinks db) (hrun : Execution (next patches) (initial db) ls t)
    (hguard : ∀ xs l ys u, ls = xs ++ l :: ys → Execution (next patches) (initial db) xs u →
      Guarded u l) :
    ∀ r ∈ t.db.links.rows, slugRe r.slug = true ∧ validateLink (readBack t.db r) = none := by
  have hinv : Wellformed patches t ∧ ValidLinks t.db := by
    refine hrun.invariant_of (I := fun s => Wellformed patches s ∧ ValidLinks s.db) (P := Guarded)
      ⟨wellformed_initial patches db, hdb⟩ ?_ hguard
    intro s l u hs hl hstep
    exact ⟨wellformed_step hs.1 hstep, validLinks_step hs.1 hs.2 hl hstep⟩
  exact hinv.2.rows

/-! Two updates of one link. -/

def owner : User := ⟨1, some 1, .customer⟩

def creation : Label :=
  .call owner (.createLink [] { slug := lit "docs", targetUrl := lit "https://example.com/" } []) {}

def bcrypt : SecretHash :=
  ⟨fun _ => .ok (lit "$2a$12$R9h/cIPz0gi.URNNX3kh2OPST9/PgBkqquzi.Ss7KIUgO2t0jWMUW"),
    fun _ _ h => by cases h; decide⟩

def makePermanent : Patch := ⟨owner, .one 1, { redirectCode := some 301 }⟩

def protect : Patch := ⟨owner, .one 1, { password := some (lit "abc123xyz") }⟩

def pair : ℕ → Option Patch
  | 0 => some protect
  | 1 => some makePermanent
  | _ => none

/-- A link without a password becomes permanent. -/
theorem stored_links_valid_permanent : ∃ t, Execution (next pair) (initial Database.empty)
    ([creation, .read 1 {}, .merge 1 fun _ => bcrypt] ++ [.write 1 {}]) t ∧
      ∀ r ∈ t.db.links.rows, slugRe r.slug = true ∧ validateLink (readBack t.db r) = none := by
  have hbefore : (replay (next pair) (initial Database.empty)
      [creation, .read 1 {}, .merge 1 fun _ => bcrypt]).map (fun u =>
        u.db.links.rows.map LinkRow.passwordHash) = some [[]] := by decide +kernel
  have hrun : (replay (next pair) (initial Database.empty)
      ([creation, .read 1 {}, .merge 1 fun _ => bcrypt] ++ [.write 1 {}])).map (fun t =>
        t.db.links.rows.map LinkRow.redirectCode) = some [301] := by decide +kernel
  obtain ⟨t, ht, -⟩ := Option.map_eq_some_iff.mp hrun
  refine ⟨t, execution_of_replay ht, stored_links_valid validLinks_empty (execution_of_replay ht)
    ?_⟩
  intro xs l ys u heq hu
  cases l with
  | write r io =>
    intro links updates _ update _ _ _ _ row hrow
    have hxs : xs = [creation, .read 1 {}, .merge 1 fun _ => bcrypt] := by
      rcases List.eq_nil_or_concat ys with rfl | ⟨zs, z, rfl⟩
      · exact (List.append_inj' heq rfl).1.symm
      · have hmem : Label.write r io ∈ [creation, .read 1 {}, .merge 1 fun _ => bcrypt] := by
          have heq' : [creation, .read 1 {}, .merge 1 fun _ => bcrypt] ++ [.write 1 {}] =
              (xs ++ .write r io :: zs) ++ [z] := by simpa using heq
          rw [(List.append_inj' heq' rfl).1]
          simp
        simp [creation] at hmem
    subst hxs
    rw [hu.replay_eq, Option.map_some, Option.some.injEq] at hbefore
    have hmem : row.passwordHash ∈ u.db.links.rows.map LinkRow.passwordHash :=
      List.mem_map_of_mem (mem_link hrow).1
    rw [hbefore] at hmem
    exact List.mem_singleton.mp hmem
  | _ => trivial

/-- The second update was read before the password was set, and makes the link permanent. -/
theorem protected_permanent_link : ∃ t, Execution (next pair) (initial Database.empty)
    [creation, .read 0 {}, .read 1 {}, .merge 0 fun _ => bcrypt, .merge 1 fun _ => bcrypt,
      .write 0 {}, .write 1 {}] t ∧
      ∃ r ∈ t.db.links.rows, ¬ validateLink (readBack t.db r) = none := by
  have hrun : (replay (next pair) (initial Database.empty)
      [creation, .read 0 {}, .read 1 {}, .merge 0 fun _ => bcrypt, .merge 1 fun _ => bcrypt,
        .write 0 {}, .write 1 {}]).map (fun t =>
        t.db.links.rows.map fun r => (validateLink (readBack t.db r)).isSome) = some [true] := by
    decide +kernel
  obtain ⟨t, ht, hrows⟩ := Option.map_eq_some_iff.mp hrun
  obtain ⟨r, hmem, hr⟩ := List.map_eq_singleton_iff.mp hrows
  refine ⟨t, execution_of_replay ht, r, by simp [hmem], fun hnone => ?_⟩
  rw [hnone] at hr
  cases hr

end LinkInvariants
