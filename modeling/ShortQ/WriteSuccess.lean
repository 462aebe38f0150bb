import ShortQ.AcceptedLinks

/-! # When an update of links succeeds

On a connection that never fails an update succeeds exactly when the link is accepted by the
checks and by the columns and its row is live and may be changed. -/
namespace WriteSuccess

open AcceptedLinks
open GoText
open GoTime (Time)
open LinkCalls
open LinkPayload
open LinkScopes
open LinkStore
open LinkValidation
open LinkWrites
open Models
open RowTable
open Schema
open Transaction

/-- A link that passes the checks and that every column of its row and its geo targets takes. -/
structure Fits (id : ℤ) (link : Link) : Prop where
  valid : validateLink link = none
  columns : (linkColumns link).isSome
  geo : (link.geoTargets.mapM (geoRow id)).isSome

/-- The live row that the user may change. -/
def Managed (db : Database) (u : User) (id : ℤ) : Prop :=
  ∃ r ∈ db.links.rows, r.id = id ∧ r.deletedAt = none ∧ Manage u r

theorem insertGeo_ok {tx : Database} {linkId : ℤ} {target : GeoTarget} {g : GeoRow}
    (hlink : (tx.link linkId).isSome) (hrow : geoRow linkId target = some g)
    (hfresh : ∀ old ∈ geoRows tx linkId, old.countryCode ≠ g.countryCode) :
    ∃ tx', insertGeo tx linkId target = .ok tx' := by
  simp only [geoRow, Option.bind_eq_bind, Option.bind_eq_some_iff] at hrow
  obtain ⟨code, hcode, url, hurl, hg⟩ := hrow
  cases hg
  unfold insertGeo
  rw [hcode, hurl]
  dsimp only
  cases hinsert : tx.geoTargets.insert ⟨linkId, code, url⟩ with
  | some geo =>
    dsimp only
    rw [if_pos hlink]
    exact ⟨_, rfl⟩
  | none =>
    obtain ⟨old, hold, hclash⟩ := Table.insert_eq_none.mp hinsert
    have hmem : old ∈ geoRows tx linkId := List.mem_filter.mpr ⟨hold, by simpa using hclash.1⟩
    exact absurd hclash.2 (hfresh old hmem)

theorem insertGeos_ok {io : Script} (hio : io.Healthy) {linkId : ℤ} {targets : List GeoTarget}
    {n : ℕ} {tx : Database} {rows : List GeoRow} (hlink : (tx.link linkId).isSome)
    (hrows : targets.mapM (geoRow linkId) = some rows)
    (hnodup : (rows.map GeoRow.countryCode).Nodup)
    (hfresh : ∀ old ∈ geoRows tx linkId, old.countryCode ∉ rows.map GeoRow.countryCode) :
    ∃ tx', insertGeos io linkId n tx targets = .ok tx' := by
  induction targets generalizing n tx rows with
  | nil => exact ⟨tx, rfl⟩
  | cons target rest ih =>
    simp only [List.mapM_cons, Option.bind_eq_bind, Option.pure_def] at hrows
    obtain ⟨g, hg, hrows⟩ := Option.bind_eq_some_iff.mp hrows
    obtain ⟨others, hothers, hrows⟩ := Option.bind_eq_some_iff.mp hrows
    cases hrows
    rw [List.map_cons, List.nodup_cons] at hnodup
    have hnew : ∀ old ∈ geoRows tx linkId, old.countryCode ≠ g.countryCode :=
      fun old hold heq => hfresh old hold (heq ▸ List.mem_cons_self)
    obtain ⟨tx₁, hone⟩ := insertGeo_ok hlink hg hnew
    obtain ⟨g', hg', hadded⟩ := insertGeo_rows hone
    obtain rfl : g' = g := Option.some.inj (hg'.symm.trans hg)
    have hlink₁ : (tx₁.link linkId).isSome := by
      rw [link_congr (insertGeo_frame hone).1]
      exact hlink
    have hfresh₁ : ∀ old ∈ geoRows tx₁ linkId,
        old.countryCode ∉ others.map GeoRow.countryCode := by
      intro old hold hmem
      rw [hadded, List.mem_append, List.mem_singleton] at hold
      rcases hold with hold | rfl
      · exact hfresh old hold (List.mem_cons_of_mem _ hmem)
      · exact hnodup.1 hmem
    obtain ⟨tx', hrest⟩ := ih (n := n + 1) hlink₁ hothers hnodup.2 hfresh₁
    refine ⟨tx', ?_⟩
    rw [insertGeos, call_healthy hio, hone]
    exact hrest

theorem Fits.codes {id : ℤ} {link : Link} (h : Fits id link) {rows : List GeoRow}
    (hrows : link.geoTargets.mapM (geoRow id) = some rows) :
    (rows.map GeoRow.countryCode).Nodup := by
  have haccepted := validateLink_none.mp h.valid
  have hcodes : rows.map GeoRow.countryCode = link.geoTargets.map country :=
    map_of_mapM (fun target htarget g hg => (geoRow_accepted hg (haccepted.geo target htarget).1).1)
      hrows
  rw [hcodes]
  exact haccepted.distinct

theorem replaceGeoTargets_ok {io : Script} (hio : io.Healthy) {id : ℤ} {link : Link}
    (h : Fits id link) (n : ℕ) {tx : Database} (hlink : (tx.link id).isSome) :
    ∃ tx', replaceGeoTargets io n tx id link.geoTargets = .ok tx' := by
  obtain ⟨rows, hrows⟩ := Option.isSome_iff_exists.mp h.geo
  have hempty : geoRows (deleteGeos tx id) id = [] := by
    simp [geoRows, deleteGeos, Table.restrict, List.filter_filter]
  have hkept : ((deleteGeos tx id).link id).isSome := hlink
  obtain ⟨tx', hinsert⟩ := insertGeos_ok (n := n + 1) hio hkept hrows (h.codes hrows)
    (by simp [hempty])
  refine ⟨tx', ?_⟩
  rw [replaceGeoTargets, call_healthy hio]
  exact hinsert

/-! ## One link -/

theorem link_of_managed {db : Database} {u : User} {id : ℤ} (h : Managed db u id) :
    ∃ r, db.link id = some r ∧ r.deletedAt = none ∧ Manage u r := by
  obtain ⟨r, hr, rfl, hlive, hmanage⟩ := h
  exact ⟨r, link_mem hr, hlive, hmanage⟩

theorem updateLinkTx_ok {io : Script} (hio : io.Healthy) {tx : Database} {u : User} {id : ℤ}
    {link : Link} (hu : Placed u) (hmanaged : Managed tx u id) (h : Fits id link)
    (password : Option Str) : ∃ tx', updateLinkTx io tx u id link password = .ok tx' := by
  obtain ⟨scope, hscope, -⟩ := manageScope_eq hu
  obtain ⟨columns, hcolumns⟩ := Option.isSome_iff_exists.mp h.columns
  obtain ⟨r, hr, hlive, hmanage⟩ := link_of_managed hmanaged
  have hfound : tx.links.affected (liveInScope id scope) ≠ 0 := by
    have hp : liveInScope id scope r = true :=
      (liveInScope_manage hscope).mpr ⟨(mem_link hr).2, hlive, hmanage⟩
    exact Nat.ne_of_gt (List.countP_pos_iff.mpr ⟨r, (mem_link hr).1, hp⟩)
  have hlink : ((assignWhere tx (liveInScope id scope) columns password none).link id).isSome := by
    rw [link_assignWhere, Option.isSome_map, hr]
    rfl
  obtain ⟨tx', hgeo⟩ := replaceGeoTargets_ok hio h 2 hlink
  refine ⟨tx', ?_⟩
  simp only [updateLinkTx, hscope, call_healthy hio, if_neg hfound, hcolumns]
  exact hgeo

theorem inTx_healthy {σ : Type} {io : Script} (hio : io.Healthy) (before : σ)
    (body : Except Err σ) : inTx io before body =
      match body with
      | .error e => (some e, before)
      | .ok tx => (none, tx) := by
  cases body <;> simp only [inTx, hio.1, commitTx, hio.2.2.2]

/-- A healthy transaction that does not commit leaves the state as it was. -/
theorem inTx_unchanged {σ : Type} {io : Script} (hio : io.Healthy) {before : σ}
    {body : Except Err σ} (h : (inTx io before body).1 ≠ none) :
    (inTx io before body).2 = before := by
  rw [inTx_healthy hio] at h ⊢
  cases body with
  | error e => rfl
  | ok tx => exact absurd rfl h

theorem updateLinkWrite_ok_iff {io : Script} (hio : io.Healthy) {db : Database} {u : User} {id : ℤ}
    {link : Link} {hash : Str} {changed : Bool} :
    (updateLinkWrite io db u id link hash changed).1 = none ↔
      Placed u ∧ Managed db u id ∧ Fits id (updateLinkInput link hash changed) := by
  unfold updateLinkWrite
  dsimp only
  cases hvalid : validateLink (updateLinkInput link hash changed) with
  | some text =>
    constructor
    · intro h
      cases h
    · intro h
      rw [h.2.2.valid] at hvalid
      cases hvalid
  | none =>
    dsimp only
    constructor
    · intro h
      have hbody := inTx_none h
      obtain ⟨scope, columns, hscope, hcolumns, -⟩ := updateLinkTx_links hbody
      have hstores := stores_updateLinkTx hbody
      refine ⟨placed_of_manageScope hscope, ?_, hvalid, ?_, ?_⟩
      · exact (writes_updateLinkTx hbody).targets id (List.mem_singleton_self id)
      · rw [hcolumns]
        rfl
      · rw [hstores.geo]
        rfl
    · intro h
      obtain ⟨tx', hbody⟩ := updateLinkTx_ok hio h.1 h.2.1 h.2.2
        (if changed then some hash else none)
      rw [hbody, inTx_healthy hio]

theorem updateLinkWrite_unchanged {io : Script} (hio : io.Healthy) {db : Database} {u : User}
    {id : ℤ} {link : Link} {hash : Str} {changed : Bool}
    (h : (updateLinkWrite io db u id link hash changed).1 ≠ none) :
    (updateLinkWrite io db u id link hash changed).2 = db := by
  unfold updateLinkWrite at h ⊢
  dsimp only at h ⊢
  split
  · rfl
  · rename_i hvalid
    rw [hvalid] at h
    exact inTx_unchanged hio h

/-! ## Several links -/

theorem checkUpdates_none_iff {updates : List LinkUpdate} :
    checkUpdates updates = none ↔ ∀ update ∈ updates, validateLink update.link = none := by
  induction updates with
  | nil => simp [checkUpdates]
  | cons update rest ih =>
    rw [List.forall_mem_cons, ← ih, checkUpdates]
    cases validateLink update.link <;> simp

theorem updateEach_ok {io : Script} (hio : io.Healthy) {updates : List LinkUpdate} {n : ℕ}
    {tx : Database} (hfits : ∀ update ∈ updates, Fits update.id update.link)
    (hrows : ∀ update ∈ updates, (tx.link update.id).isSome) :
    ∃ tx', updateEach io n tx updates = .ok tx' := by
  induction updates generalizing n tx with
  | nil => exact ⟨tx, rfl⟩
  | cons update rest ih =>
    rw [List.forall_mem_cons] at hfits hrows
    obtain ⟨columns, hcolumns⟩ := Option.isSome_iff_exists.mp hfits.1.columns
    rw [updateEach, hcolumns]
    dsimp only
    generalize (if update.passwordChanged then some update.passwordHash else none) = password
    generalize some ((timestamptz (io.now 0)).getD (io.now 0)) = now
    rw [call_healthy hio]
    have hkeeps (id : ℤ) : ((assignWhere tx (fun r => decide (r.id = update.id)) columns password
        now).link id).isSome = (tx.link id).isSome := by
      rw [link_assignWhere, Option.isSome_map]
    obtain ⟨tx₂, hgeo⟩ := replaceGeoTargets_ok hio hfits.1 (n + 1)
      ((hkeeps update.id).trans hrows.1)
    dsimp only
    rw [hgeo]
    refine ih hfits.2 fun next hnext => ?_
    rw [link_congr (replaceGeoTargets_frame hgeo).1, hkeeps]
    exact hrows.2 next hnext

theorem updateLinksBulkTx_ok {io : Script} (hio : io.Healthy) {tx : Database} {u : User}
    {updates : List LinkUpdate} (hu : Placed u) (hnodup : (updates.map LinkUpdate.id).Nodup)
    (hmanaged : ∀ update ∈ updates, Managed tx u update.id)
    (hfits : ∀ update ∈ updates, Fits update.id update.link) :
    ∃ tx', updateLinksBulkTx io tx u updates = .ok tx' := by
  obtain ⟨scope, hscope, -⟩ := manageScope_eq hu
  have hcount : tx.links.affected (liveAmong (updates.map LinkUpdate.id) scope) =
      (updates.map LinkUpdate.id).length := by
    apply Table.affected_of_listed LinkRow.id (fun a b => Or.inl) hnodup
    · intro r hp
      exact ((liveAmong_manage hscope).mp hp).2.1
    · intro id hid
      obtain ⟨update, hupdate, rfl⟩ := List.mem_map.mp hid
      obtain ⟨r, hr, hrid, hlive, hmanage⟩ := hmanaged update hupdate
      exact ⟨r, hr, hrid, (liveAmong_manage hscope).mpr ⟨hlive, hrid ▸ hid, hmanage⟩⟩
  rw [List.length_map] at hcount
  obtain ⟨tx', heach⟩ := updateEach_ok (n := 5) hio hfits fun update hupdate => by
    obtain ⟨r, hr, -⟩ := link_of_managed (hmanaged update hupdate)
    rw [hr]
    rfl
  refine ⟨tx', ?_⟩
  unfold updateLinksBulkTx
  rw [hscope]
  dsimp only
  change tx.links.affected (fun r => r.deletedAt.isNone &&
    ((updates.map LinkUpdate.id).contains r.id && scope r)) = updates.length at hcount
  rw [call_healthy hio, if_pos hcount]
  dsimp only
  rw [firstFailure_healthy hio]
  exact heach

theorem updateLinksBulkWrite_ok_iff {io : Script} (hio : io.Healthy) {db : Database} {u : User}
    {updates : List LinkUpdate} (hne : updates ≠ []) :
    (updateLinksBulkWrite io db u updates).1 = none ↔
      Placed u ∧ (updates.map LinkUpdate.id).Nodup ∧
        ∀ update ∈ updates, Managed db u update.id ∧ Fits update.id update.link := by
  unfold updateLinksBulkWrite
  rw [if_neg hne]
  cases hvalid : checkUpdates updates with
  | some text =>
    constructor
    · intro h
      cases h
    · intro h
      rw [checkUpdates_none_iff.mpr fun update hu => (h.2.2 update hu).2.valid] at hvalid
      cases hvalid
  | none =>
    dsimp only
    constructor
    · intro h
      have hbody := inTx_none h
      have hwrites := writes_updateLinksBulkTx hbody
      obtain ⟨hnodup, hstores⟩ := stores_updateLinksBulkTx hbody
      refine ⟨?_, hnodup, fun update hupdate => ⟨hwrites.targets _ (List.mem_map_of_mem hupdate),
        checkUpdates_none_iff.mp hvalid update hupdate, ?_, ?_⟩⟩
      · unfold updateLinksBulkTx at hbody
        split at hbody
        · cases hbody
        · rename_i scope hscope
          exact placed_of_manageScope hscope
      · obtain ⟨r, columns, updatedAt, -, hcolumns, -⟩ := (hstores update hupdate).row
        rw [hcolumns]
        rfl
      · rw [(hstores update hupdate).geo]
        rfl
    · intro h
      obtain ⟨tx', hbody⟩ := updateLinksBulkTx_ok hio h.1 h.2.1
        (fun update hu => (h.2.2 update hu).1)
        fun update hu => (h.2.2 update hu).2
      rw [hbody, inTx_healthy hio]

theorem updateLinksBulkWrite_unchanged {io : Script} (hio : io.Healthy) {db : Database} {u : User}
    {updates : List LinkUpdate} (h : (updateLinksBulkWrite io db u updates).1 ≠ none) :
    (updateLinksBulkWrite io db u updates).2 = db := by
  unfold updateLinksBulkWrite at h ⊢
  split
  · rfl
  · rename_i hne
    rw [if_neg hne] at h
    split
    · rfl
    · rename_i hvalid
      rw [hvalid] at h
      exact inTx_unchanged hio h

end WriteSuccess
