import ShortQ.LinkCalls

/-! # What no call changes of a link

A link keeps its id, its slug, its owner and its tenant, and its row is never removed. A new link is
one of the user who calls. -/
namespace LinkLineage

open GoText (Str)
open LinkCalls
open LinkStore
open Models
open RowTable
open Schema
open Transaction

/-- The columns that are written once. -/
def SameLink (a b : LinkRow) : Prop :=
  a.id = b.id ∧ a.slug = b.slug ∧ a.userId = b.userId ∧ a.tenantId = b.tenantId

/-- Every row has a successor. -/
def Lineage (before after : Database) : Prop :=
  ∀ r ∈ before.links.rows, ∃ r' ∈ after.links.rows, SameLink r' r

theorem Lineage.of_links {before after : Database} (h : after.links = before.links) :
    Lineage before after := by
  intro r hr
  exact ⟨r, by rw [h]; exact hr, rfl, rfl, rfl, rfl⟩

/-- The columns that are written once, with those of the owner last. -/
def stem (r : LinkRow) : ℤ × Str × ℤ × Option ℤ := (r.id, r.slug, r.userId, r.tenantId)

/-- The rows keep their order and what is written once, and what is new belongs to the user. -/
def Grown (u : User) (a b : Database) : Prop :=
  ∃ fresh, b.links.rows.map stem = a.links.rows.map stem ++ fresh ∧
    ∀ k ∈ fresh, k.2.2 = (u.id, u.tenantId)

section Grown

variable {u : User} {a b c : Database}

theorem Grown.of_links (h : b.links = a.links) : Grown u a b :=
  ⟨[], by rw [h, List.append_nil], fun _ hk => absurd hk List.not_mem_nil⟩

theorem Grown.trans (h : Grown u a b) (k : Grown u b c) : Grown u a c := by
  obtain ⟨first, hfirst, howned⟩ := h
  obtain ⟨second, hsecond, howned'⟩ := k
  refine ⟨first ++ second, by rw [hsecond, hfirst, List.append_assoc], fun x hx => ?_⟩
  exact (List.mem_append.mp hx).elim (howned x) (howned' x)

theorem Grown.of_update {p : LinkRow → Bool} {f : LinkRow → LinkRow}
    (hf : Table.Keeps linkClash f) (h : b.links = a.links.update p f hf)
    (hrow : ∀ r, stem (f r) = stem r) : Grown u a b := by
  refine ⟨[], ?_, fun _ hk => absurd hk List.not_mem_nil⟩
  rw [h, Table.rows_update, List.map_map, List.append_nil]
  refine List.map_congr_left fun r _ => ?_
  by_cases hp : p r = true
  · rw [Function.comp_apply, if_pos hp, hrow]
  · rw [Function.comp_apply, if_neg hp]

theorem Grown.of_insert {row : LinkRow} (h : a.links.insert row = some b.links)
    (howner : row.userId = u.id) (htenant : row.tenantId = u.tenantId) : Grown u a b := by
  refine ⟨[stem row], ?_, fun k hk => ?_⟩
  · rw [(Table.insert_eq_some.mp h).2, List.map_append, List.map_singleton]
  · rw [List.mem_singleton.mp hk, stem, howner, htenant]

theorem Grown.of_inTx {io : Script} {drawn : Database} {body : Except Err Database}
    (hdrawn : drawn.links = a.links) (h : ∀ tx, body = .ok tx → Grown u drawn tx) :
    Grown u a (inTx io drawn body).2 := by
  rcases inTx_state io drawn body with heq | ⟨tx, hbody, heq⟩
  · exact .of_links (by rw [heq, hdrawn])
  · rw [heq]
    exact (Grown.of_links hdrawn).trans (h tx hbody)

theorem Grown.lineage (h : Grown u a b) : Lineage a b := by
  obtain ⟨fresh, hstems, -⟩ := h
  intro r hr
  have hmem : stem r ∈ b.links.rows.map stem := by
    rw [hstems]
    exact List.mem_append_left fresh (List.mem_map_of_mem hr)
  obtain ⟨r', hr', hstem⟩ := List.mem_map.mp hmem
  simp only [stem, Prod.mk.injEq] at hstem
  exact ⟨r', hr', hstem⟩

end Grown

theorem grown_assignWhere (u : User) (db : Database) (p : LinkRow → Bool) (c : LinkColumns)
    (password : Option Str) (updatedAt : Option GoTime.Time) :
    Grown u db (assignWhere db p c password updatedAt) :=
  .of_update (keeps_assign c password updatedAt) rfl fun _ => rfl

theorem grown_deleteWhere (u : User) (db : Database) (p : LinkRow → Bool) (now : GoTime.Time) :
    Grown u db (deleteWhere db p now) :=
  .of_update (keeps_markDeleted now) rfl fun _ => rfl

theorem grown_createLinkTx {io : Script} {tx tx' : Database} {id : ℤ} {u : User} {link : Link}
    {hash : Str} (h : createLinkTx io tx id u link hash = .ok tx') : Grown u tx tx' := by
  unfold createLinkTx at h
  split at h
  · dsimp only at h
    split at h
    · cases h
    rename_i tx₁ hcall
    have hinsert := call_ok hcall
    split at hinsert
    · cases hinsert
    rename_i links hins
    cases hinsert
    have hone : Grown u tx { tx with links := links } := .of_insert hins rfl rfl
    exact hone.trans (.of_links (replaceGeoTargets_frame h).1)
  · cases h

theorem grown_importLink {io : Script} {n : ℕ} {tx tx' : Database} {id : ℤ} {u : User}
    {link : Link} (h : importLink io n tx id u link = .ok tx') : Grown u tx tx' := by
  unfold importLink at h
  split at h
  · dsimp only at h
    split at h
    · cases h
    rename_i tx₁ hcall
    have hinsert := call_ok hcall
    split at hinsert
    · cases hinsert
    rename_i links hins
    cases hinsert
    have hone : Grown u tx { tx with links := links } := .of_insert hins rfl rfl
    exact hone.trans (.of_links (insertGeos_frame h).1)
  · cases h

theorem grown_importEach {io : Script} {u : User} {n : ℕ} {id : ℤ} {tx tx' : Database}
    {links : List Link} (h : importEach io u n id tx links = .ok tx') : Grown u tx tx' := by
  induction links generalizing n id tx with
  | nil =>
    cases h
    exact .of_links rfl
  | cons link rest ih =>
    unfold importEach at h
    split at h
    · cases h
    · rename_i tx₁ hone
      exact (grown_importLink hone).trans (ih h)

theorem grown_updateEach {io : Script} {u : User} {n : ℕ} {tx tx' : Database}
    {updates : List LinkUpdate} (h : updateEach io n tx updates = .ok tx') : Grown u tx tx' := by
  induction updates generalizing n tx with
  | nil =>
    cases h
    exact .of_links rfl
  | cons update rest ih =>
    unfold updateEach at h
    split at h
    · cases h
    rename_i columns hcolumns
    dsimp only at h
    split at h
    · cases h
    rename_i tx₁ hwrite
    have hassign := call_ok hwrite
    cases hassign
    split at h
    · cases h
    rename_i tx₂ hgeo
    have hlinks := (replaceGeoTargets_frame hgeo).1
    exact ((grown_assignWhere u tx _ columns _ _).trans (.of_links hlinks)).trans (ih h)

theorem grown_call (c : Call) (io : Script) (db : Database) (u : User) :
    Grown u db (c.write io db u).2 := by
  cases c with
  | createLink random link hash =>
    simp only [Call.write, createLinkWrite]
    split
    · exact .of_links rfl
    split
    · exact .of_links rfl
    · exact .of_inTx rfl fun tx hbody => grown_createLinkTx hbody
  | createLinksBulk randoms links =>
    simp only [Call.write, createLinksBulkWrite]
    split
    · exact .of_links rfl
    split
    · exact .of_links rfl
    · refine .of_inTx rfl fun tx hbody => ?_
      unfold createLinksBulkTx at hbody
      split at hbody
      · cases hbody
      · exact grown_importEach hbody
  | updateLink id link hash changed =>
    simp only [Call.write, updateLinkWrite]
    split
    · exact .of_links rfl
    · refine .of_inTx rfl fun tx hbody => ?_
      obtain ⟨scope, columns, -, -, -, hlinks, -⟩ := updateLinkTx_links hbody
      exact (grown_assignWhere u db _ columns _ none).trans (.of_links hlinks)
  | updateLinksBulk updates =>
    simp only [Call.write, updateLinksBulkWrite]
    split
    · exact .of_links rfl
    split
    · exact .of_links rfl
    · refine .of_inTx rfl fun tx hbody => ?_
      unfold updateLinksBulkTx at hbody
      split at hbody
      · cases hbody
      split at hbody
      · cases hbody
      split at hbody
      · cases hbody
      · exact grown_updateEach hbody
  | deleteLink id =>
    rcases deleteLink_state io db u id with heq | ⟨p, now, heq⟩
    · exact .of_links (by rw [Call.write, heq])
    · rw [Call.write, heq]
      exact grown_deleteWhere u db p now
  | deleteLinksBulk ids =>
    rcases deleteLinksBulk_state io db u ids with heq | ⟨p, now, heq⟩
    · exact .of_links (by rw [Call.write, heq])
    · rw [Call.write, heq]
      exact grown_deleteWhere u db p now

theorem lineage_call (c : Call) (io : Script) (db : Database) (u : User) :
    Lineage db (c.write io db u).2 := (grown_call c io db u).lineage

end LinkLineage
