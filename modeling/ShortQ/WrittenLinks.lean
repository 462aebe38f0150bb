import ShortQ.LinkInvariants

/-! # Rows as they are written

Every row of `links` holds the columns of an accepted link, whoever wrote it last and whatever ran
in between; only its password may have come from another request. -/
namespace WrittenLinks

open GoText (Str lit)
open AcceptedLinks
open LabelledRuns
open LinkCalls
open LinkEdits
open LinkInvariants
open LinkPayload
open LinkStore
open LinkValidation
open LinkWrites
open Models
open RowTable
open Schema
open Transaction

/-- The settings are the columns of an accepted link, and the geo targets are its. -/
structure WrittenRow (db : Database) (r : LinkRow) : Prop where
  slug : slugRe r.slug = true
  settings : ∃ link columns, validateLink link = none ∧ linkColumns link = some columns ∧
    columns.assign none none r = r ∧ link.geoTargets.mapM (geoRow r.id) = some (geoRows db r.id)

/-- What the tables and the checks of the store keep in every state. -/
structure Intact (db : Database) : Prop where
  written : ∀ r ∈ db.links.rows, WrittenRow db r
  owned : Owned db
  numbered : ∀ r ∈ db.links.rows, 0 < r.id ∧ r.id < db.nextLinkId
  next : 0 < db.nextLinkId

theorem intact_empty : Intact Database.empty := by
  constructor
  · intro r hr
    cases hr
  · intro g hg
    cases hg
  · intro r hr
    cases hr
  · decide

theorem WrittenRow.untouched {before after : Database} {r : LinkRow} (h : WrittenRow before r)
    (k : Untouched before after r) : WrittenRow after r := by
  obtain ⟨link, columns, hvalid, hcolumns, hassign, hgeo⟩ := h.settings
  exact ⟨h.slug, link, columns, hvalid, hcolumns, hassign, by rw [k.2]; exact hgeo⟩

/-- A link that is not protected is valid as it is read back. -/
theorem WrittenRow.valid {db : Database} {r : LinkRow} (h : WrittenRow db r)
    (hopen : r.passwordHash = []) : validateLink (readBack db r) = none := by
  obtain ⟨link, columns, hvalid, hcolumns, hassign, hgeo⟩ := h.settings
  rw [← hassign]
  exact validateLink_none.mpr (accepted_stored (validateLink_none.mp hvalid) hcolumns hgeo
    fun _ => hopen)

/-! One transaction. -/

theorem Intact.drawn {db : Database} (h : Intact db) (count : ℕ) :
    Intact { db with nextLinkId := db.nextLinkId + count } := by
  constructor
  · intro r hr
    exact (h.written r hr).untouched (.of_same rfl rfl hr)
  · exact h.owned
  · intro r hr
    have hid := h.numbered r hr
    dsimp only
    omega
  · have hnext := h.next
    dsimp only
    omega

theorem Intact.created {before after : Database} {id : ℤ} {u : User} {link : Link}
    {password : Option Str} (h : Intact before) (k : Created before after id u link password)
    (hslug : slugRe link.slug = true) (hvalid : validateLink link = none)
    (hid : 0 < id ∧ id < before.nextLinkId) : Intact after := by
  obtain ⟨columns, slug, now, hcolumns, hvarchar, hrows⟩ := k.row
  constructor
  · intro r hr
    rw [hrows] at hr
    rcases List.mem_append.mp hr with hr | hr
    · exact (h.written r hr).untouched (k.frame r hr)
    · obtain rfl := List.mem_singleton.mp hr
      refine ⟨?_, link, columns, hvalid, hcolumns, rfl, k.geo⟩
      change slugRe slug = true
      rw [slug_stored hvarchar hslug]
      exact hslug
  · exact k.owned
  · intro r hr
    rw [hrows] at hr
    rw [k.next]
    rcases List.mem_append.mp hr with hr | hr
    · exact h.numbered r hr
    · obtain rfl := List.mem_singleton.mp hr
      exact hid
  · rw [k.next]
    exact h.next

/-- A write that stores accepted links under the given ids and leaves the others alone. -/
theorem Intact.stored {before after : Database} (h : Intact before) {ids : List ℤ}
    (hframe : ∀ r ∈ before.links.rows, r.id ∉ ids → Untouched before after r)
    (hids : ∀ r ∈ after.links.rows, ∃ q ∈ before.links.rows, q.id = r.id)
    (hstores : ∀ id ∈ ids, ∃ link password, Stores before after id link password ∧
      validateLink link = none)
    (hown : Owned after) (hnext : after.nextLinkId = before.nextLinkId) : Intact after := by
  constructor
  · intro r hr
    obtain ⟨q, hq, hid⟩ := hids r hr
    by_cases hmem : q.id ∈ ids
    · obtain ⟨link, password, hstores, hvalid⟩ := hstores q.id hmem
      obtain ⟨q', columns, updatedAt, hq', hcolumns, hafter⟩ := hstores.row
      obtain rfl : q = q' := Option.some.inj ((link_mem hq).symm.trans hq')
      obtain rfl : columns.assign password updatedAt q = r := by
        have hr' := link_mem hr
        rw [← hid, hafter] at hr'
        exact Option.some.inj hr'
      exact ⟨(h.written q hq).slug, link, columns, hvalid, hcolumns, rfl, hstores.geo⟩
    · have hkeep := hframe q hq hmem
      obtain rfl := after.links.eq_of_clash linkClash_symm hkeep.1 hr (Or.inl hid)
      exact (h.written q hq).untouched hkeep
  · exact hown
  · intro r hr
    obtain ⟨q, hq, hid⟩ := hids r hr
    rw [← hid, hnext]
    exact h.numbered q hq
  · rw [hnext]
    exact h.next

theorem Intact.deleteWhere {db : Database} (h : Intact db) (p : LinkRow → Bool)
    (now : GoTime.Time) : Intact (LinkStore.deleteWhere db p now) := by
  have hrow : ∀ r ∈ (LinkStore.deleteWhere db p now).links.rows, ∃ q ∈ db.links.rows,
      r = q ∨ r = markDeleted now q := by
    intro r hr
    rw [LinkStore.deleteWhere, Table.rows_update] at hr
    obtain ⟨q, hq, rfl⟩ := List.mem_map.mp hr
    refine ⟨q, hq, ?_⟩
    by_cases hp : p q = true
    · exact Or.inr (if_pos hp)
    · exact Or.inl (if_neg hp)
  constructor
  · intro r hr
    obtain ⟨q, hq, rfl | rfl⟩ := hrow r hr
    · exact ⟨(h.written _ hq).slug, (h.written _ hq).settings⟩
    · obtain ⟨link, columns, hvalid, hcolumns, hassign, hgeo⟩ := (h.written q hq).settings
      exact ⟨(h.written q hq).slug, link, columns, hvalid, hcolumns,
        congrArg (markDeleted now) hassign, hgeo⟩
  · exact h.owned.evolves (.of_update (keeps_markDeleted now) rfl fun _ => ⟨rfl, rfl, fun _ => rfl⟩)
      rfl
  · intro r hr
    obtain ⟨q, hq, hr'⟩ := hrow r hr
    have hid : r.id = q.id := by
      rcases hr' with rfl | rfl <;> rfl
    rw [hid]
    exact h.numbered q hq
  · exact h.next

theorem intact_importEach {io : Script} {u : User} {n : ℕ} {id : ℤ} {tx tx' : Database}
    {links : List Link} (h : importEach io u n id tx links = .ok tx') (hdb : Intact tx)
    (hall : ∀ link ∈ links, slugRe link.slug = true ∧ validateLink link = none)
    (hid : 0 < id ∧ id + links.length ≤ tx.nextLinkId) : Intact tx' := by
  induction links generalizing n id tx with
  | nil =>
    cases h
    exact hdb
  | cons link rest ih =>
    unfold importEach at h
    split at h
    · cases h
    · rename_i tx₁ hone
      rw [List.length_cons] at hid
      have hcreated := created_importLink hone hdb.owned
      obtain ⟨hslug, hvalid⟩ := hall link List.mem_cons_self
      apply ih h (hdb.created hcreated hslug hvalid (by omega))
      · intro l hl
        exact hall l (List.mem_cons_of_mem _ hl)
      · rw [hcreated.next]
        omega

/-! One call. -/

theorem Intact.inTx {drawn : Database} {io : Script} {body : Except Err Database}
    (h : Intact drawn) (hbody : ∀ tx, body = .ok tx → Intact tx) :
    Intact (Transaction.inTx io drawn body).2 := by
  rcases inTx_state io drawn body with heq | ⟨tx, hok, heq⟩
  · rw [heq]
    exact h
  · rw [heq]
    exact hbody tx hok

theorem intact_call (c : Call) (io : Script) {db : Database} (u : User) (h : Intact db) :
    Intact (c.write io db u).2 := by
  cases c with
  | createLink random link hash =>
    simp only [Call.write, createLinkWrite]
    split
    · exact h
    rename_i hslug
    split
    · exact h
    rename_i hvalid
    have hdrawn := h.drawn 1
    refine Intact.inTx hdrawn fun tx hbody => ?_
    refine hdrawn.created (created_createLinkTx hbody hdrawn.owned) (by simpa using hslug) hvalid ?_
    have hnext := h.next
    dsimp only
    omega
  | createLinksBulk randoms links =>
    simp only [Call.write, createLinksBulkWrite]
    split
    · exact h
    split
    · exact h
    rename_i checked hchecked
    have hdrawn := h.drawn checked.length
    refine Intact.inTx hdrawn fun tx hbody => ?_
    unfold createLinksBulkTx at hbody
    split at hbody
    · cases hbody
    · exact intact_importEach hbody hdrawn (checkImport_ok hchecked) ⟨h.next, le_refl _⟩
  | updateLink id link hash changed =>
    simp only [Call.write, updateLinkWrite]
    split
    · exact h
    rename_i hvalid
    refine Intact.inTx h fun tx hbody => ?_
    obtain ⟨hsub, hown, hnext⟩ := updateLinkTx_rows hbody
    apply h.stored (writes_updateLinkTx hbody).frame hsub _ (hown h.owned) hnext
    intro i hi
    obtain rfl := List.mem_singleton.mp hi
    exact ⟨_, _, stores_updateLinkTx hbody, hvalid⟩
  | updateLinksBulk updates =>
    simp only [Call.write, updateLinksBulkWrite]
    split
    · exact h
    split
    · exact h
    rename_i hvalid
    refine Intact.inTx h fun tx hbody => ?_
    have hstores := (stores_updateLinksBulkTx hbody).2
    have hframe := (writes_updateLinksBulkTx hbody).frame
    unfold updateLinksBulkTx at hbody
    split at hbody
    · cases hbody
    split at hbody
    · cases hbody
    split at hbody
    · cases hbody
    obtain ⟨hsub, hown, hnext⟩ := updateEach_rows hbody
    apply h.stored hframe hsub _ (hown h.owned) hnext
    intro id hid
    obtain ⟨update, hu, rfl⟩ := List.mem_map.mp hid
    exact ⟨update.link, _, hstores update hu, checkUpdates_none hvalid update hu⟩
  | deleteLink id =>
    rcases deleteLink_state io db u id with heq | ⟨p, now, heq⟩
    · rw [Call.write, heq]
      exact h
    · rw [Call.write, heq]
      exact h.deleteWhere p now
  | deleteLinksBulk ids =>
    rcases deleteLinksBulk_state io db u ids with heq | ⟨p, now, heq⟩
    · rw [Call.write, heq]
      exact h
    · rw [Call.write, heq]
      exact h.deleteWhere p now

/-! Runs. -/

theorem intact_patch (p : Patch) (io : Script) {db : Database} (updates : List LinkUpdate)
    (h : Intact db) : Intact (p.write io db updates).2 := by
  unfold Patch.write
  split
  · exact intact_call (.updateLink _ _ _ _) io p.user h
  · exact h
  · exact intact_call (.updateLinksBulk _) io p.user h

theorem intact_step {patches : ℕ → Option Patch} {s t : Config} {l : Label} (h : Intact s.db)
    (hstep : next patches s l = some t) : Intact t.db := by
  cases l with
  | read r io =>
    simp only [next] at hstep
    split at hstep
    · split at hstep
      · cases hstep
        exact h
      · split at hstep <;> cases hstep <;> exact h
    · cases hstep
  | merge r hash =>
    simp only [next] at hstep
    split at hstep
    · split at hstep <;> cases hstep <;> exact h
    · cases hstep
  | write r io =>
    simp only [next] at hstep
    split at hstep
    · rename_i p links updates hp hphase
      have hwrite := intact_patch p io updates h
      split at hstep <;> rename_i hresult <;> rw [hresult] at hwrite <;> cases hstep <;>
        exact hwrite
    · cases hstep
  | respond r io =>
    simp only [next] at hstep
    split at hstep <;> cases hstep
    exact h
  | call u c io =>
    simp only [next] at hstep
    split at hstep <;> cases hstep
    exact intact_call c io u h

/-- Requests may interleave in any way. -/
theorem intact_run {patches : ℕ → Option Patch} {db : Database} {ls : List Label} {t : Config}
    (h : Intact db) (hrun : Execution (next patches) (initial db) ls t) : Intact t.db :=
  hrun.invariant (I := fun s => Intact s.db) h fun _ _ _ hs hstep => intact_step hs hstep

end WrittenLinks
