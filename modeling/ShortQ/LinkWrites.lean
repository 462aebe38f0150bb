import ShortQ.LinkCalls
import ShortQ.LinkPayload

/-! # What one update stores

After a committed update every setting of the row is the stored form of the link that was
written, except the password, which is written only when it has changed. -/
namespace LinkWrites

open GoText
open GoTime (Time)
open LinkCalls
open LinkPayload
open LinkStore
open LinkValidation
open Models
open RowTable
open Schema
open Transaction

theorem geoTargetsOf_eq (db : Database) (linkId : ℤ) :
    geoTargetsOf db linkId = byCountry (geoRows db linkId) := rfl

theorem insertGeo_rows {tx tx' : Database} {linkId : ℤ} {target : GeoTarget}
    (h : insertGeo tx linkId target = .ok tx') :
    ∃ g, geoRow linkId target = some g ∧ geoRows tx' linkId = geoRows tx linkId ++ [g] := by
  unfold insertGeo at h
  split at h
  · rename_i code url hcode hurl
    split at h
    · rename_i geo hinsert
      split at h
      · cases h
        refine ⟨⟨linkId, code, url⟩, by simp [geoRow, hcode, hurl], ?_⟩
        simp [geoRows, (Table.insert_eq_some.mp hinsert).2, List.filter_append]
      · cases h
    · cases h
  · cases h

theorem insertGeos_rows {io : Script} {linkId : ℤ} {n : ℕ} {tx tx' : Database}
    {targets : List GeoTarget} (h : insertGeos io linkId n tx targets = .ok tx') :
    ∃ gs, targets.mapM (geoRow linkId) = some gs ∧
      geoRows tx' linkId = geoRows tx linkId ++ gs := by
  induction targets generalizing n tx with
  | nil =>
    cases h
    exact ⟨[], rfl, by simp⟩
  | cons target rest ih =>
    unfold insertGeos at h
    split at h
    · cases h
    · rename_i tx₁ hone
      obtain ⟨g, hg, hrows⟩ := insertGeo_rows (call_ok hone)
      obtain ⟨gs, hgs, hrest⟩ := ih h
      refine ⟨g :: gs, by simp [List.mapM_cons, hg, hgs], ?_⟩
      rw [hrest, hrows, List.append_assoc, List.singleton_append]

theorem replaceGeoTargets_rows {io : Script} {linkId : ℤ} {n : ℕ} {tx tx' : Database}
    {targets : List GeoTarget} (h : replaceGeoTargets io n tx linkId targets = .ok tx') :
    targets.mapM (geoRow linkId) = some (geoRows tx' linkId) := by
  unfold replaceGeoTargets at h
  split at h
  · cases h
  · rename_i tx₁ hdelete
    have hok := call_ok hdelete
    cases hok
    obtain ⟨gs, hgs, hrows⟩ := insertGeos_rows h
    have hempty : geoRows (deleteGeos tx linkId) linkId = [] := by
      simp [geoRows, deleteGeos, Table.restrict, List.filter_filter]
    rw [hempty, List.nil_append] at hrows
    rw [hrows, hgs]

/-- The row of one link is assigned the columns of a link and the geo targets are its. -/
structure Stores (before after : Database) (id : ℤ) (link : Link) (password : Option Str) :
    Prop where
  row : ∃ r columns updatedAt, before.link id = some r ∧ linkColumns link = some columns ∧
    after.link id = some (columns.assign password updatedAt r)
  geo : link.geoTargets.mapM (geoRow id) = some (geoRows after id)

theorem link_mem {db : Database} {r : LinkRow} (h : r ∈ db.links.rows) :
    db.link r.id = some r := by
  unfold Database.link Table.find
  have hsome : (db.links.rows.find? fun x => decide (x.id = r.id)).isSome :=
    List.find?_isSome.mpr ⟨r, h, by simp⟩
  obtain ⟨r', hr'⟩ := Option.isSome_iff_exists.mp hsome
  have hid : r'.id = r.id := by simpa using List.find?_some hr'
  rw [hr', db.links.eq_of_clash linkClash_symm (List.mem_of_find?_eq_some hr') h (Or.inl hid)]

theorem mem_link {db : Database} {id : ℤ} {r : LinkRow} (h : db.link id = some r) :
    r ∈ db.links.rows ∧ r.id = id :=
  ⟨List.mem_of_find?_eq_some h, by simpa using List.find?_some h⟩

theorem link_congr {db db' : Database} (h : db'.links = db.links) (id : ℤ) :
    db'.link id = db.link id := by
  rw [Database.link, h, Database.link]

/-- Rows and geo targets of a link that another link's update leaves alone. -/
theorem link_of_untouched {before after : Database} {r : LinkRow}
    (h : Untouched before after r) : after.link r.id = some r := link_mem h.1

theorem stores_updateLinkTx {io : Script} {tx tx' : Database} {u : User} {id : ℤ} {link : Link}
    {password : Option Str} (h : updateLinkTx io tx u id link password = .ok tx') :
    Stores tx tx' id link password := by
  unfold updateLinkTx at h
  split at h
  · cases h
  rename_i scope hscope
  split at h
  · cases h
  rename_i hlock
  have hfound := call_ok hlock
  split at hfound
  · cases hfound
  rename_i hne
  split at h
  · cases h
  rename_i columns hcolumns
  split at h
  · cases h
  rename_i tx₁ hwrite
  have hassign := call_ok hwrite
  cases hassign
  obtain ⟨r, hr, hp⟩ := mem_affected (Nat.pos_of_ne_zero hne)
  have hid : r.id = id := ((liveInScope_manage hscope).mp hp).1
  subst hid
  constructor
  · refine ⟨r, columns, none, link_mem hr, hcolumns, ?_⟩
    rw [link_congr (replaceGeoTargets_frame h).1, link_assignWhere, link_mem hr,
      Option.map_some, if_pos hp]
  · exact replaceGeoTargets_rows h

/-- A later transaction on other links leaves what was stored. -/
theorem Stores.untouched {a b c : Database} {id : ℤ} {link : Link} {password : Option Str}
    (h : Stores a b id link password) (k : ∀ r ∈ b.links.rows, r.id = id → Untouched b c r) :
    Stores a c id link password := by
  obtain ⟨r, columns, updatedAt, hr, hcolumns, hafter⟩ := h.row
  obtain ⟨hmem, hid⟩ := mem_link hafter
  have hkeep := k _ hmem hid
  constructor
  · refine ⟨r, columns, updatedAt, hr, hcolumns, ?_⟩
    rw [← hid]
    exact link_of_untouched hkeep
  · rw [h.geo, ← hid, hkeep.2]

/-- The loop of a bulk update stores every update, when no link is named twice. -/
theorem stores_updateEach {io : Script} {n : ℕ} {tx tx' : Database} {updates : List LinkUpdate}
    (h : updateEach io n tx updates = .ok tx') (hnodup : (updates.map LinkUpdate.id).Nodup)
    (hrows : ∀ update ∈ updates, (tx.link update.id).isSome) :
    ∀ update ∈ updates, Stores tx tx' update.id update.link
      (if update.passwordChanged then some update.passwordHash else none) := by
  induction updates generalizing n tx with
  | nil => simp
  | cons update rest ih =>
    rw [List.map_cons, List.nodup_cons] at hnodup
    unfold updateEach at h
    split at h
    · cases h
    rename_i columns hcolumns
    dsimp only at h
    split at h
    · cases h
    rename_i tx₁ hwrite
    have hassign := call_ok hwrite
    split at h
    · cases h
    rename_i tx₂ hgeo
    obtain ⟨r, hr⟩ := Option.isSome_iff_exists.mp (hrows update List.mem_cons_self)
    have hlink (id : ℤ) : tx₂.link id = (tx.link id).map fun r => if r.id = update.id then
        columns.assign (if update.passwordChanged then some update.passwordHash else none)
          (some ((timestamptz (io.now 0)).getD (io.now 0))) r else r := by
      cases hassign
      rw [link_congr (replaceGeoTargets_frame hgeo).1, link_assignWhere]
      simp
    have hother : ∀ r ∈ tx.links.rows, r.id ≠ update.id → Untouched tx tx₂ r := by
      intro r hr hne
      have hone : Untouched tx tx₁ r := by
        cases hassign
        exact untouched_assignWhere hr (by simpa using hne)
      exact hone.trans (untouched_replaceGeoTargets hgeo hone.1 hne)
    intro next hnext
    rcases List.mem_cons.mp hnext with rfl | hnext
    · have hstores : Stores tx tx₂ next.id next.link
          (if next.passwordChanged then some next.passwordHash else none) := by
        refine ⟨⟨r, columns, some ((timestamptz (io.now 0)).getD (io.now 0)), hr, hcolumns, ?_⟩,
          replaceGeoTargets_rows hgeo⟩
        rw [hlink, hr, Option.map_some, if_pos (mem_link hr).2]
      exact hstores.untouched fun r hr hid =>
        untouched_updateEach h hr (by rw [hid]; exact hnodup.1)
    · have hne : next.id ≠ update.id := fun heq =>
        hnodup.1 (heq ▸ List.mem_map_of_mem hnext)
      have hsome : ∀ u ∈ rest, (tx₂.link u.id).isSome := by
        intro u hu
        rw [hlink, Option.isSome_map]
        exact hrows u (List.mem_cons_of_mem _ hu)
      have hstores := ih h hnodup.2 hsome next hnext
      obtain ⟨r', columns', updatedAt, hr', hcolumns', hafter⟩ := hstores.row
      refine ⟨⟨r', columns', updatedAt, ?_, hcolumns', hafter⟩, hstores.geo⟩
      rw [hlink] at hr'
      obtain ⟨q, hq, hq'⟩ := Option.map_eq_some_iff.mp hr'
      rw [if_neg (by rw [(mem_link hq).2]; exact hne)] at hq'
      rw [hq, hq']

theorem stores_updateLinksBulkTx {io : Script} {tx tx' : Database} {u : User}
    {updates : List LinkUpdate} (h : updateLinksBulkTx io tx u updates = .ok tx') :
    (updates.map LinkUpdate.id).Nodup ∧ ∀ update ∈ updates,
      Stores tx tx' update.id update.link
        (if update.passwordChanged then some update.passwordHash else none) := by
  have hwrites := writes_updateLinksBulkTx h
  unfold updateLinksBulkTx at h
  split at h
  · cases h
  rename_i scope hscope
  split at h
  · cases h
  rename_i hlock
  have hfound := call_ok hlock
  split at hfound
  · rename_i hcount
    split at h
    · cases h
    · have hcount' : tx.links.affected (liveAmong (updates.map LinkUpdate.id) scope) =
          (updates.map LinkUpdate.id).length := by
        rw [List.length_map]
        exact hcount
      have hnodup := (all_among hscope hcount').1
      refine ⟨hnodup, stores_updateEach h hnodup fun update hu => ?_⟩
      obtain ⟨r, hr, hid, -⟩ := hwrites.targets update.id (List.mem_map_of_mem hu)
      rw [← hid, link_mem hr]
      rfl
  · cases hfound

/-! The stored settings. -/

/-- The link that a row and its geo targets are read as. -/
def readBack (db : Database) (r : LinkRow) : Link := hydrateLink db (scanLink r)

/-- The columns hold the stored forms of the settings. -/
theorem stored_of_taken {link : Link} {columns : LinkColumns} (h : TakenColumns link columns)
    (hcode : link.redirectCode ≠ 0) (id : ℤ) (db : Database) (r : LinkRow) (password : Option Str)
    (updatedAt : Option Time) {f : Setting} (hpassword : f ≠ .password) (hgeo : f ≠ .geoTargets) :
    stored id f (value link f) =
      some (value (readBack db (columns.assign password updatedAt r)) f) := by
  cases f with
  | password => exact absurd rfl hpassword
  | geoTargets => exact absurd rfl hgeo
  | targetUrl => exact congrArg (Option.map Value.text) h.targetUrl
  | title => exact congrArg (Option.map Value.text) h.title
  | visibility => exact congrArg (Option.map Value.text) h.visibility
  | redirectCode =>
    change (smallint (if link.redirectCode = 0 then 302 else link.redirectCode)).map Value.code = _
    rw [if_neg hcode, h.redirectCode]
    rfl
  | expiresAt => exact congrArg (Option.map Value.time) h.expiresAt
  | maxClicks => exact congrArg (fun m => some (Value.limit m)) h.maxClicks.symm
  | expiredUrl => exact congrArg (Option.map Value.text) h.expiredUrl
  | iosUrl => exact congrArg (Option.map Value.text) h.iosUrl
  | androidUrl => exact congrArg (Option.map Value.text) h.androidUrl
  | forwardQuery => exact congrArg (fun b => some (Value.flag b)) h.forwardQuery.symm
  | utmSource => exact congrArg (Option.map Value.text) h.utmSource
  | utmMedium => exact congrArg (Option.map Value.text) h.utmMedium
  | utmCampaign => exact congrArg (Option.map Value.text) h.utmCampaign
  | utmTerm => exact congrArg (Option.map Value.text) h.utmTerm
  | utmContent => exact congrArg (Option.map Value.text) h.utmContent
  | tags => exact congrArg (fun t => some (Value.tags t)) h.tags.symm

/-- After a write each setting but the password is the stored form of what was written. -/
theorem Stores.stored {before after : Database} {id : ℤ} {link : Link} {password : Option Str}
    (h : Stores before after id link password) (hcode : link.redirectCode ≠ 0) :
    ∃ r, after.link id = some r ∧ ∀ f, f ≠ .password →
      stored id f (value link f) = some (value (readBack after r) f) := by
  obtain ⟨r, columns, updatedAt, hr, hcolumns, hafter⟩ := h.row
  refine ⟨_, hafter, fun f hf => ?_⟩
  by_cases hgeo : f = .geoTargets
  · subst hgeo
    simp only [LinkPayload.stored, value, readBack, hydrateLink, scanLink, geoTargetsOf_eq]
    rw [(mem_link hafter).2, h.geo]
    rfl
  · exact stored_of_taken (linkColumns_iff.mp hcolumns) hcode id after r password updatedAt hf hgeo

theorem Stores.password {before after : Database} {id : ℤ} {link : Link}
    {password : Option Str} (h : Stores before after id link password) :
    ∃ r r', before.link id = some r ∧ after.link id = some r' ∧
      r'.passwordHash = password.getD r.passwordHash := by
  obtain ⟨r, columns, updatedAt, hr, -, hafter⟩ := h.row
  exact ⟨r, _, hr, hafter, rfl⟩

theorem redirectCode_of_valid {link : Link} (h : validateLink link = none) :
    link.redirectCode ≠ 0 := by
  intro hzero
  unfold validateLink at h
  split at h
  · cases h
  split at h
  · cases h
  split at h
  · cases h
  rw [if_pos (by simp [hzero])] at h
  cases h

end LinkWrites
