import ShortQ.LinkHandlers
import ShortQ.LinkInvariants
import ShortQ.LinkLineage

/-! # Which links a response shows

Every endpoint answers with links of the view of its user but one: a refused Short.io creation
looks the slug up without a scope. -/
namespace LinkResponses

open AuditLog
open AuditedHandlers
open GoText
open Hosts
open LinkCalls
open LinkEdits (Patch)
open LinkHandlers
open LinkInvariants (slug_stored)
open LinkLineage
open LinkPayload
open LinkScopes
open LinkStore
open LinkValidation
open Models
open RowTable
open Schema
open Transaction

/-- The links whose attributes a body shows. -/
def ids : Body → List ℤ
  | .links links => links.map fun e => e.link.id
  | .page links _ => links.map fun e => e.link.id
  | .link e => [e.link.id]
  | .imported links => links.map fun e => e.link.id
  | .updated links => links.map fun e => e.link.id
  | .shortioLink link => [link.id]
  | .shortioDeleted id => [id]
  | .shortioDeletedBulk ids => ids
  | _ => []

def Visible (u : User) (db : Database) (id : ℤ) : Prop :=
  ∃ r ∈ db.links.rows, r.id = id ∧ View u r

/-- The links a handler shows unless its audit fails. -/
def shown : Ending → List ℤ
  | .respond r => ids r.body
  | .record _ ok _ => ids ok.body

/-- Every link a handler shows is one the user may see, in the state it leaves. -/
def InView (u : User) (out : Ending × World) : Prop := ∀ id ∈ shown out.1, Visible u out.2.db id

theorem Visible.of_shown {db : Database} {u : User} {link : Link} (h : Shown db u link) :
    Visible u db link.id := by
  obtain ⟨r, hr, -, hview, rfl⟩ := h
  exact ⟨r, hr, rfl, hview⟩

theorem Visible.view {db : Database} {u : User} {r : LinkRow} (hr : r ∈ db.links.rows)
    (h : Visible u db r.id) : View u r := by
  obtain ⟨r', hr', hid, hview⟩ := h
  obtain rfl := db.links.eq_of_clash linkClash_symm hr' hr (Or.inl hid)
  exact hview

theorem manage_congr {u : User} {a b : LinkRow} (h : SameLink a b) :
    Manage u a ↔ Manage u b := by
  obtain ⟨-, -, howner, htenant⟩ := h
  unfold Manage
  rw [howner, htenant]

/-- A link that the user has managed is still in view after any call. -/
theorem Visible.of_manage {before after : Database} {u : User} {r : LinkRow}
    (hr : r ∈ before.links.rows) (h : Manage u r) (hlineage : Lineage before after) :
    Visible u after r.id := by
  obtain ⟨r', hr', hsame⟩ := hlineage r hr
  exact ⟨r', hr', hsame.1, manage_view ((manage_congr hsame).mpr h)⟩

theorem inView_nil {u : User} {out : Ending × World} (h : shown out.1 = []) : InView u out := by
  intro id hid
  rw [h] at hid
  cases hid

/-- The audit that ends a handler shows no link of its own. -/
theorem inView_conclude {u : User} {calls : Calls} {out : Ending × World} (h : InView u out) :
    ∀ id ∈ ids (conclude calls out).1.body, Visible u (conclude calls out).2.db id := by
  obtain ⟨ending, w⟩ := out
  cases ending with
  | respond r => exact h
  | record e ok undo =>
    unfold conclude
    dsimp only
    split
    · intro id hid
      cases hid
    · exact h

theorem inView_requireDelete {w : World} {c : Caller} {action targetType targetId : Str}
    {rest : Ending × World} (h : InView c.user rest) :
    InView c.user (w.requireDelete c action targetType targetId rest) := by
  unfold World.requireDelete
  split
  · exact h
  · exact inView_nil rfl

/-! The reads. -/

theorem shown_entries {server : Server} {w : World} {db : Database} {u : User} {links : List Link}
    (h : ∀ link ∈ links, Shown db u link) :
    ∀ id ∈ (links.map (entry server w.domains)).map fun e => e.link.id, Visible u db id := by
  intro id hid
  rw [List.map_map] at hid
  obtain ⟨link, hlink, rfl⟩ := List.mem_map.mp hid
  exact .of_shown (h link hlink)

theorem inView_readLinks (server : Server) (w : World) (c : Caller) (calls : Calls)
    (q : LinkRequest) : InView c.user (.respond (readLinks server w c calls q), w) := by
  unfold readLinks
  split
  · split
    · exact inView_nil rfl
    · rename_i links hlinks
      exact shown_entries (shown_of_listLinks hlinks)
  · split
    · exact inView_nil rfl
    split
    · exact inView_nil rfl
    split
    · exact inView_nil rfl
    · rename_i page hpage
      exact shown_entries (shown_of_listLinksPage hpage)
  · split
    · exact inView_nil rfl
    · rename_i link hlink
      intro id hid
      obtain rfl := List.mem_singleton.mp hid
      exact .of_shown (shown_of_linkByID hlink).1
  · exact inView_nil rfl

/-! Creating a link. -/

/-- The row a creation inserts belongs to its user, and its slug is not in use before. -/
theorem created_row {io : Script} {tx tx' : Database} {id : ℤ} {u : User} {link : Link} {hash : Str}
    (hslug : slugRe link.slug = true) (h : createLinkTx io tx id u link hash = .ok tx') :
    (∀ r ∈ tx.links.rows, r.slug ≠ link.slug) ∧
      ∃ row, tx'.links.rows = tx.links.rows ++ [row] ∧ Manage u row := by
  unfold createLinkTx at h
  split at h
  · rename_i columns slug hcolumns hvarchar
    obtain rfl := slug_stored hvarchar hslug
    dsimp only at h
    split at h
    · cases h
    rename_i tx₁ hcall
    have hinsert := call_ok hcall
    split at hinsert
    · cases hinsert
    rename_i links hins
    cases hinsert
    obtain ⟨hfresh, hrows⟩ := Table.insert_eq_some.mp hins
    constructor
    · intro r hr heq
      exact hfresh r hr (Or.inr heq)
    · refine ⟨_, by rw [(replaceGeoTargets_frame h).1, hrows], ?_⟩
      unfold Manage
      split
      · trivial
      · rfl
      · rfl
  · cases h

/-- After a creation, whether or not it says so, the links are as before or one of the user's is
new; a slug in use leaves the links alone. -/
theorem createLink_rows (io : Script) (db : Database) (random : Str) (u : User) (link : Link)
    (hash : Str) :
    ((createLinkWrite io db random u link hash).1 ≠ none ∧
        (createLinkWrite io db random u link hash).2.links = db.links) ∨
      ((∀ r ∈ db.links.rows, r.slug ≠ (createLinkInput random link hash).slug) ∧
        ∃ row, (createLinkWrite io db random u link hash).2.links.rows = db.links.rows ++ [row] ∧
          Manage u row) := by
  unfold createLinkWrite
  dsimp only
  split
  · exact Or.inl ⟨by simp, rfl⟩
  rename_i hslug
  have hslug : slugRe (createLinkInput random link hash).slug = true := by simpa using hslug
  split
  · exact Or.inl ⟨by simp, rfl⟩
  generalize hbody : createLinkTx io { db with nextLinkId := db.nextLinkId + 1 } db.nextLinkId u
    (createLinkInput random link hash) hash = body
  generalize hdrawn : { db with nextLinkId := db.nextLinkId + 1 } = drawn at hbody ⊢
  have hlinks : drawn.links = db.links := by rw [← hdrawn]
  cases body with
  | error e =>
    refine Or.inl ⟨?_, ?_⟩
    · unfold inTx
      split <;> simp
    · rcases inTx_state io drawn (.error e) with heq | ⟨tx, hok, -⟩
      · rw [heq, hlinks]
      · cases hok
  | ok tx =>
    have hrow := created_row hslug hbody
    rw [hlinks] at hrow
    by_cases hnone : (inTx io drawn (.ok tx)).1 = none
    · right
      rw [← Except.ok.inj (inTx_none hnone)]
      exact hrow
    · rcases inTx_state io drawn (.ok tx) with heq | ⟨tx', hok, heq⟩
      · exact Or.inl ⟨hnone, by rw [heq, hlinks]⟩
      · obtain rfl := Except.ok.inj hok
        right
        rw [heq]
        exact hrow

/-- The live row of a slug is one the user may see, or it had the slug before the creation. -/
theorem slug_visible {io : Script} {db : Database} {random : Str} {u : User} {link : Link}
    {hash : Str} {r : LinkRow}
    (hr : r ∈ (createLinkWrite io db random u link hash).2.links.rows)
    (hslug : r.slug = (createLinkInput random link hash).slug) :
    View u r ∨ ((createLinkWrite io db random u link hash).1 ≠ none ∧ r ∈ db.links.rows) := by
  rcases createLink_rows io db random u link hash with ⟨hfail, hlinks⟩ | ⟨hfresh, row, hrows, hown⟩
  · rw [hlinks] at hr
    exact Or.inr ⟨hfail, hr⟩
  · rw [hrows] at hr
    rcases List.mem_append.mp hr with hr | hr
    · exact absurd hslug (hfresh r hr)
    · obtain rfl := List.mem_singleton.mp hr
      exact Or.inl (manage_view hown)

theorem linkBySlug_ok {io : Script} {db : Database} {slug : Str} {link : Link}
    (h : linkBySlug io db slug = .ok link) :
    ∃ r ∈ db.links.rows, r.slug = slug ∧ r.deletedAt = none ∧
      link = hydrateLink db (scanLink r) := by
  obtain ⟨r, hr, hp, hlink⟩ := readLink_ok h
  simp only [Bool.and_eq_true, decide_eq_true_eq, Option.isNone_iff_eq_none] at hp
  exact ⟨r, hr, hp.1, hp.2, hlink⟩

/-- What a creation returns is the user's. -/
theorem visible_created {w : World} {c : Caller} {calls : Calls} {random : Str} {link : Link}
    {hash : Str} {created : Link}
    (h : single (w.run c calls (.createLink random link hash)).1 = .ok created) :
    Visible c.user (w.run c calls (.createLink random link hash)).2.db created.id := by
  simp only [World.run, run_createLink] at h ⊢
  unfold LinkStore.createLink at h ⊢
  split at h
  · cases h
  rename_i db hwrite
  dsimp only at h ⊢
  cases hread : linkBySlug calls.after db (createLinkInput random link hash).slug with
  | error e =>
    rw [hread] at h
    cases h
  | ok l =>
    rw [hread] at h
    obtain rfl := Except.ok.inj h
    obtain ⟨r, hr, hslug, -, rfl⟩ := linkBySlug_ok hread
    have hout := slug_visible (by rw [hwrite]; exact hr) hslug
    rw [hwrite] at hout
    rcases hout with hview | ⟨hfail, -⟩
    · exact ⟨r, hr, rfl, hview⟩
    · exact absurd rfl hfail

theorem inView_createLink (server : Server) (w : World) (c : Caller) (calls : Calls)
    (set : Payload) : InView c.user (LinkHandlers.createLink server w c calls set) := by
  unfold LinkHandlers.createLink
  split
  · exact inView_nil rfl
  rename_i link hash changed _
  split
  · exact inView_nil rfl
  rename_i links w' hrun
  split
  · exact inView_nil rfl
  rename_i created hsingle
  intro id hid
  obtain rfl := List.mem_singleton.mp hid
  have hvisible := @visible_created w c calls calls.random link hash created
    (by rw [hrun]; exact hsingle)
  rw [hrun] at hvisible
  exact hvisible

/-! Imports, edits and deletions. -/

theorem inView_importLinks (server : Server) (w : World) (c : Caller) (calls : Calls)
    (rows : List Link) (errorsByRow : List (ℕ × Str)) (dryRun : Bool) :
    InView c.user (importLinks server w c calls rows errorsByRow dryRun) := by
  unfold importLinks
  split
  · exact inView_nil rfl
  split
  · exact inView_nil rfl
  split
  · exact inView_nil rfl
  rename_i links w' hrun
  simp only [World.run, run_createLinksBulk] at hrun
  unfold createLinksBulk at hrun
  split at hrun
  · cases hrun
  · obtain ⟨hread, rfl⟩ := Prod.mk.inj hrun
    exact shown_entries (shown_of_linksByIDs hread).1

theorem shown_of_patch {io : Script} {db : Database} {p : Patch} {links : List Link}
    (h : p.read io db = .ok links) : ∀ link ∈ links, Shown db p.user link := by
  unfold Patch.read at h
  split at h
  · rename_i id hroute
    cases hread : linkByID io db p.user id with
    | error e =>
      rw [hread] at h
      cases h
    | ok found =>
      rw [hread] at h
      obtain rfl := Except.ok.inj h
      intro link hlink
      rw [List.mem_singleton.mp hlink]
      exact (shown_of_linkByID hread).1
  · exact (shown_of_linksByIDs h).1

theorem inView_editLinks (server : Server) (w : World) (c : Caller) (calls : Calls) (p : Patch)
    (texts : EditTexts) (hp : p.user = c.user)
    (hbody : ∀ entries, ∀ id ∈ ids (texts.body entries), id ∈ entries.map fun e => e.link.id) :
    InView c.user (editLinks server w c calls p texts) := by
  unfold editLinks
  split
  · exact inView_nil rfl
  split
  · exact inView_nil rfl
  split
  · exact inView_nil rfl
  split
  · exact inView_nil rfl
  dsimp only
  split
  · exact inView_nil rfl
  rename_i links hread
  intro id hid
  rw [← hp]
  exact shown_entries (shown_of_patch hread) id (hbody _ id hid)

theorem editOne_ids (id : ℤ) (entries : List Entry) :
    ∀ i ∈ ids ((editOne id).body entries), i ∈ entries.map fun e => e.link.id := by
  cases entries with
  | nil => simp [editOne, ids]
  | cons e rest =>
    intro i hi
    obtain rfl := List.mem_singleton.mp hi
    exact List.mem_cons_self

theorem inView_deleteLinks (w : World) (c : Caller) (calls : Calls) (readBack : ReadBack)
    (call : Call) (texts : DeleteTexts) (hok : ∀ id ∈ ids texts.ok.body, id ∈ call.targets) :
    InView c.user (deleteLinks w c calls readBack call texts) := by
  refine inView_requireDelete ?_
  split
  · exact inView_nil rfl
  split
  · exact inView_nil rfl
  rename_i links w' hrun
  intro id hid
  obtain ⟨hresult, rfl⟩ := Prod.mk.inj hrun
  have hwrites := (call.writes calls.io w.db c.user).2 (write_of_run hresult)
  obtain ⟨r, hr, rfl, -, hmanage⟩ := hwrites.targets id (hok id hid)
  dsimp only
  rw [run_database]
  exact .of_manage hr hmanage (lineage_call call calls.io w.db c.user)

theorem inView_bulkDelete (w : World) (c : Caller) (calls : Calls) (list : List ℤ)
    (set : Payload) : InView c.user (bulkDelete w c calls list set) := by
  unfold bulkDelete
  split
  · exact inView_nil rfl
  · exact inView_deleteLinks w c calls _ _ _ fun id hid => by cases hid

theorem inView_shortioLinkByID (w : World) (c : Caller) (calls : Calls) (path : Str) :
    InView c.user (shortioLinkByID w c calls path) := by
  unfold shortioLinkByID
  split
  · exact inView_nil rfl
  · exact inView_deleteLinks w c calls _ _ _ fun id hid => hid

theorem inView_shortioDeleteBulk (w : World) (c : Caller) (calls : Calls) (linkIds : List Str) :
    InView c.user (shortioDeleteBulk w c calls linkIds) := by
  unfold shortioDeleteBulk
  split
  · exact inView_nil rfl
  split
  · exact inView_nil rfl
  · exact inView_deleteLinks w c calls _ _ _ fun id hid => hid

/-! The Short.io creation. -/

/-- The slug of the payload belongs to a live link with the same target that the user may not
see, and the unscoped lookup finds it. -/
def Conflict (server : Server) (w : World) (c : Caller) (calls : Calls) (p : ShortioPayload) :
    Prop :=
  ∃ link hash, shortioCreatePayloadToLink (calls.hash 0) p = .ok (link, hash) ∧
    ensureShortioDomainAllowed server w.domains c.user p.domain = none ∧ link.slug ≠ [] ∧
    calls.lookup.exec 0 = none ∧ calls.lookup.exec 1 = none ∧
    ∃ r ∈ w.db.links.rows, r.slug = link.slug ∧ r.deletedAt = none ∧
      r.targetUrl = link.targetUrl ∧ ¬ View c.user r

theorem createLinkInput_slug {random : Str} {link : Link} {hash : Str} (h : link.slug ≠ []) :
    (createLinkInput random link hash).slug = link.slug := if_neg h

/-- A payload with a slug that is in use is refused and leaves the links alone. -/
theorem refused_of_used {io after : Script} {db : Database} {u : User} {random : Str} {link : Link}
    {hash : Str} (hslug : link.slug ≠ []) {r : LinkRow} (hr : r ∈ db.links.rows)
    (hused : r.slug = link.slug) :
    (∃ e, ((Call.createLink random link hash).run io after db u).1 = .error e) ∧
      ((Call.createLink random link hash).run io after db u).2.links = db.links := by
  rcases createLink_rows io db random u link hash with ⟨hfail, hlinks⟩ | ⟨hfresh, -⟩
  · rw [run_database]
    refine ⟨?_, hlinks⟩
    cases hwrite : createLinkWrite io db random u link hash with
    | mk result written =>
      rw [hwrite] at hfail
      cases result with
      | none => exact absurd rfl hfail
      | some e => exact ⟨e, by rw [Call.run, Call.write, hwrite]⟩
  · exact absurd (hused.trans (createLinkInput_slug hslug).symm) (hfresh r hr)

theorem linkBySlug_found {io : Script} {db : Database} {slug : Str} {r : LinkRow}
    (hio : io.exec 0 = none ∧ io.exec 1 = none) (hr : r ∈ db.links.rows) (hslug : r.slug = slug)
    (hlive : r.deletedAt = none) : linkBySlug io db slug = .ok (hydrateLink db (scanLink r)) := by
  obtain ⟨link, hlink⟩ := (@readLink_ok_iff io db fun r => r.slug = slug && r.deletedAt.isNone).mpr
    ⟨hio.1, ⟨r, hr, by simp [hslug, hlive]⟩, hio.2⟩
  have hread : linkBySlug io db slug = .ok link := hlink
  obtain ⟨r', hr', hslug', -, rfl⟩ := linkBySlug_ok hread
  obtain rfl := db.links.eq_of_clash linkClash_symm hr' hr (Or.inr (hslug'.trans hslug.symm))
  exact hread

/-- A conflict is answered with a link out of view. -/
theorem conflict_shown {server : Server} {w : World} {c : Caller} {calls : Calls}
    {p : ShortioPayload} (h : Conflict server w c calls p) :
    ∃ r w' id, shortioLinks server w c calls p = (.respond r, w') ∧ id ∈ ids r.body ∧
      ¬ Visible c.user w'.db id := by
  obtain ⟨link, hash, hlink, hdomain, hslug, hio, hio', r, hr, hused, hlive, htarget, hnot⟩ := h
  obtain ⟨⟨e, hrefused⟩, hlinks⟩ := @refused_of_used calls.io calls.after w.db c.user
    calls.random link hash hslug r hr hused
  generalize hafter : ((Call.createLink calls.random link hash).run calls.io calls.after w.db
    c.user).2 = after at hlinks
  have hrun : w.run c calls (.createLink calls.random link hash) =
      (.error e, { w with db := after }) := by
    rw [World.run, hrefused, hafter]
  have hrow : r ∈ after.links.rows := by rw [hlinks]; exact hr
  have hfound := linkBySlug_found ⟨hio, hio'⟩ hrow hused hlive
  have htarget' : (hydrateLink after (scanLink r)).targetUrl = link.targetUrl := htarget
  refine ⟨⟨200, .shortioLink (shortioLinkResponse server w.domains
    (hydrateLink after (scanLink r)) p.domain true)⟩, { w with db := after }, r.id, ?_,
    List.mem_singleton.mpr rfl, fun hview => hnot (hview.view hrow)⟩
  simp only [shortioLinks, hlink, hdomain, hrun, ne_eq, hslug, not_false_eq_true, if_true, hfound,
    htarget']

/-- Without a conflict the endpoint with the unscoped lookup keeps to the view. -/
theorem inView_shortioLinks {server : Server} {w : World} {c : Caller} {calls : Calls}
    {p : ShortioPayload} (hno : ¬ Conflict server w c calls p) :
    InView c.user (shortioLinks server w c calls p) := by
  unfold shortioLinks
  split
  · exact inView_nil rfl
  rename_i link hash hlink
  split
  · exact inView_nil rfl
  rename_i hdomain
  split
  · -- the creation is refused
    rename_i e w' hrun
    dsimp only
    split
    · rename_i hslug
      split
      · rename_i existing hfound
        split
        · rename_i htarget
          obtain ⟨-, rfl⟩ := Prod.mk.inj hrun
          obtain ⟨r, hr, hused, hlive, rfl⟩ := linkBySlug_ok hfound
          obtain ⟨hio, -, hio'⟩ := readLink_ok_iff.mp ⟨_, hfound⟩
          intro id hid
          obtain rfl := List.mem_singleton.mp hid
          refine ⟨r, hr, rfl, ?_⟩
          by_contra hnot
          dsimp only at hr
          rw [run_database] at hr
          rcases slug_visible hr (hused.trans (createLinkInput_slug hslug).symm) with
            hview | ⟨-, hold⟩
          · exact hnot hview
          · exact hno ⟨link, hash, hlink, hdomain, hslug, hio, hio', r, hold, hused, hlive,
              htarget, hnot⟩
        · exact inView_nil rfl
      · exact inView_nil rfl
    · exact inView_nil rfl
  · rename_i links w' hrun
    split
    · exact inView_nil rfl
    rename_i created hsingle
    intro id hid
    obtain rfl := List.mem_singleton.mp hid
    have hvisible := @visible_created w c calls calls.random link hash created
      (by rw [hrun]; exact hsingle)
    rw [hrun] at hvisible
    exact hvisible

theorem inView_handle (server : Server) (w : World) (c : Caller) (calls : Calls) (q : LinkRequest)
    (h : ¬ ∃ p, q = .shortioCreate p ∧ Conflict server w c calls p) :
    InView c.user (handle server w c calls q) := by
  cases q with
  | list => exact inView_readLinks server w c calls .list
  | page limit cursor => exact inView_readLinks server w c calls (.page limit cursor)
  | byID id => exact inView_readLinks server w c calls (.byID id)
  | create set => exact inView_createLink server w c calls set
  | edit id set => exact inView_editLinks server w c calls _ _ rfl (editOne_ids id)
  | delete id => exact inView_deleteLinks w c calls _ _ _ fun id hid => by cases hid
  | bulkEdit list set => exact inView_editLinks server w c calls _ editMany rfl fun _ _ hid => hid
  | bulkDelete list set => exact inView_bulkDelete w c calls list set
  | importRows rows errorsByRow dryRun =>
    exact inView_importLinks server w c calls rows errorsByRow dryRun
  | shortioCreate p => exact inView_shortioLinks fun hconflict => h ⟨p, rfl, hconflict⟩
  | shortioDelete path => exact inView_shortioLinkByID w c calls path
  | shortioDeleteBulk linkIds => exact inView_shortioDeleteBulk w c calls linkIds

/-- Every link a response shows is in the view of its user, unless the request is a Short.io
creation that meets a conflict. -/
theorem responses_in_view (server : Server) (w : World) (c : Caller) (calls : Calls)
    (q : LinkRequest) :
    (∀ id ∈ ids (serve server w c calls q).1.body,
      ∃ r ∈ (serve server w c calls q).2.db.links.rows, r.id = id ∧ View c.user r) ↔
      ¬ ∃ p, q = .shortioCreate p ∧ Conflict server w c calls p := by
  constructor
  · rintro hview ⟨p, rfl, hconflict⟩
    obtain ⟨r, w', id, hout, hid, hnot⟩ := conflict_shown hconflict
    rw [serve, handle, hout] at hview
    exact hnot (hview id hid)
  · intro hno
    exact inView_conclude (inView_handle server w c calls q hno)

/-! A colleague of the owner asks for the owner's slug and target. -/

def deployed : Server := ⟨ascii, lit "https://s.example"⟩

/-- The sample link in a tenant with one active domain. -/
def colleagues : World where
  db := Database.single sampleLink
  domains := ⟨⟨[⟨1, 1, lit "go.example.com", true, [], [], some GoTime.zero⟩],
    List.pairwise_singleton _ _⟩, 2, [1]⟩
  accounts := ⟨.empty, 1, .empty, 1⟩
  audits := []

def request : HttpRequest.Request where
  method := lit "POST"
  host := lit "s.example"
  peer := ⟨lit "192.0.2.1", lit "40000", by decide, by decide, by decide⟩
  connectingIP := []
  ipCountry := []
  userAgent := []
  referer := []
  rawQuery := []
  token := by decide
  headers := by decide

def colleague : Caller where
  principal := effectivePrincipal ⟨2, some 1, .customer⟩ (lit "user") (lit "session")
  email := lit "b@example.com"
  deletionAccess := false
  request := request
  stored := by decide
  auth := by decide

def healthy : Calls where
  before := {}
  io := {}
  after := {}
  lookup := {}
  audit := {}
  revoke := {}
  hash _ := ⟨fun _ => .error (lit "no hash"), fun _ _ h => nomatch h⟩
  random := []
  randoms _ := []
  passwordHash := none
  key := .error []
  token := []
  texts := []

def duplicate : ShortioPayload where
  originalUrl := lit "https://example.com/"
  domain := lit "go.example.com"
  path := some (lit "docs")

/-- The answer to the colleague shows the owner's private link. -/
theorem conflict_shows_link :
    (serve deployed colleagues colleague healthy (.shortioCreate duplicate)).1.status = 200 ∧
      ¬ ∀ id ∈ ids (serve deployed colleagues colleague healthy (.shortioCreate duplicate)).1.body,
        ∃ r ∈ (serve deployed colleagues colleague healthy
          (.shortioCreate duplicate)).2.db.links.rows,
          r.id = id ∧ View colleague.user r := by
  have hstatus : (serve deployed colleagues colleague healthy
      (.shortioCreate duplicate)).1.status = 200 := by decide +kernel
  have hids : ids (serve deployed colleagues colleague healthy
      (.shortioCreate duplicate)).1.body = [1] := by decide +kernel
  have hrows : (serve deployed colleagues colleague healthy
      (.shortioCreate duplicate)).2.db.links.rows = [sampleLink] := by decide +kernel
  refine ⟨hstatus, fun h => ?_⟩
  rw [hids, hrows] at h
  obtain ⟨r, hr, -, hview⟩ := h 1 (List.mem_singleton_self 1)
  obtain rfl := List.mem_singleton.mp hr
  rcases hview with howner | ⟨-, -, hdepartment, -⟩
  · revert howner
    decide
  · revert hdepartment
    decide

end LinkResponses
