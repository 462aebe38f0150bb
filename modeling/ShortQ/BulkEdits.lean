import ShortQ.LinkResponses
import ShortQ.WriteSuccess

/-! # Editing links in bulk and one by one

`bulkLinks` on PATCH against `linkByID` on PATCH for each of its links, on connections that never
fail and without other writers. -/
namespace BulkEdits

open AuditedHandlers
open AuditLog
open GoText
open GoTime (Time)
open Hosts
open LinkCalls
open LinkEdits
open LinkHandlers
open LinkPayload
open LinkScopes
open LinkStore
open LinkValidation
open LinkWrites
open Models
open RowTable
open Schema
open Transaction
open WriteSuccess

/-! ## The parts of a request -/

/-- What a read of one link shows. -/
def Seen (db : Database) (u : User) (id : ℤ) (link : Link) : Prop :=
  ∃ r, db.link id = some r ∧ r.deletedAt = none ∧ View u r ∧ link = readBack db r

/-- The update that the payload makes of the link it reads. -/
structure Merges (hash : SecretHash) (db : Database) (u : User) (set : Payload) (id : ℤ)
    (update : LinkUpdate) : Prop where
  names : update.id = id
  merged : ∃ link, Seen db u id link ∧ applyLinkPayload hash link set false =
    .ok (update.link, update.passwordHash, update.passwordChanged)

theorem Seen.unique {db : Database} {u : User} {id : ℤ} {a b : Link} (ha : Seen db u id a)
    (hb : Seen db u id b) : a = b := by
  obtain ⟨r, hr, -, -, rfl⟩ := ha
  obtain ⟨q, hq, -, -, rfl⟩ := hb
  obtain rfl : r = q := Option.some.inj (hr.symm.trans hq)
  rfl

theorem seen_of_shown {db : Database} {u : User} {link : Link} (h : Shown db u link) :
    Seen db u link.id link := by
  obtain ⟨r, hr, hlive, hview, rfl⟩ := h
  exact ⟨r, link_mem hr, hlive, hview, rfl⟩

theorem forall_seen {db : Database} {u : User} {links : List Link}
    (h : ∀ link ∈ links, Shown db u link) :
    List.Forall₂ (Seen db u) (links.map Link.id) links := by
  rw [List.forall₂_map_left_iff, List.forall₂_same]
  exact fun link hlink => seen_of_shown (h link hlink)

theorem seen_unique {db : Database} {u : User} {ids : List ℤ} {as bs : List Link}
    (ha : List.Forall₂ (Seen db u) ids as) (hb : List.Forall₂ (Seen db u) ids bs) : as = bs := by
  induction ha generalizing bs with
  | nil => exact (List.forall₂_nil_left_iff.mp hb).symm
  | cons hseen _ ih =>
    obtain ⟨b, rest, hfirst, hrest, rfl⟩ := List.forall₂_cons_left_iff.mp hb
    rw [hseen.unique hfirst, ih hrest]

theorem exists_of_forall₂ {α β : Type} {R : α → β → Prop} {as : List α} {bs : List β}
    (h : List.Forall₂ R as bs) {a : α} (ha : a ∈ as) : ∃ b ∈ bs, R a b := by
  induction h with
  | nil => cases ha
  | cons hfirst _ ih =>
    rcases List.mem_cons.mp ha with rfl | hrest
    · exact ⟨_, List.mem_cons_self, hfirst⟩
    · obtain ⟨b, hb, hab⟩ := ih hrest
      exact ⟨b, List.mem_cons_of_mem _ hb, hab⟩

theorem forall₂_of_exists {α β : Type} {R : α → β → Prop} {P : β → Prop} {as : List α}
    (h : ∀ a ∈ as, ∃ b, R a b ∧ P b) : ∃ bs, List.Forall₂ R as bs ∧ ∀ b ∈ bs, P b := by
  induction as with
  | nil => exact ⟨[], .nil, by simp⟩
  | cons a rest ih =>
    rw [List.forall_mem_cons] at h
    obtain ⟨b, hab, hb⟩ := h.1
    obtain ⟨bs, hrest, hall⟩ := ih h.2
    exact ⟨b :: bs, .cons hab hrest, List.forall_mem_cons.mpr ⟨hb, hall⟩⟩

theorem rows_of_seen {db : Database} {u : User} {ids : List ℤ} {current : List Link}
    (h : List.Forall₂ (Seen db u) ids current) :
    ∀ id ∈ ids, ∃ r ∈ db.links.rows, r.id = id ∧ r.deletedAt = none ∧ View u r := by
  intro id hid
  obtain ⟨link, -, r, hr, hlive, hview, -⟩ := exists_of_forall₂ h hid
  exact ⟨r, (mem_link hr).1, (mem_link hr).2, hlive, hview⟩

theorem seen_of_read {io : Script} {db : Database} {p : Patch} {current : List Link}
    (h : p.read io db = .ok current) :
    List.Forall₂ (Seen db p.user) p.route.ids current := by
  rw [← read_ids h]
  apply forall_seen
  intro link hlink
  unfold Patch.read at h
  split at h
  · rename_i id _
    cases hread : linkByID io db p.user id with
    | error e =>
      rw [hread] at h
      cases h
    | ok found =>
      rw [hread] at h
      cases h
      obtain rfl := List.mem_singleton.mp hlink
      exact (shown_of_linkByID hread).1
  · exact (shown_of_linksByIDs h).1 link hlink

theorem read_of_rows {io : Script} (hio : io.Healthy) {db : Database} {p : Patch}
    (hu : Placed p.user)
    (hrows : ∀ id ∈ p.route.ids, ∃ r ∈ db.links.rows,
      r.id = id ∧ r.deletedAt = none ∧ View p.user r) :
    ∃ current, p.read io db = .ok current := by
  unfold Patch.read
  split
  · rename_i id hroute
    rw [hroute] at hrows
    obtain ⟨link, hlink⟩ := linkByID_ok_iff.mpr
      ⟨hu, hio.2.1 0, hio.2.1 1, hrows id (List.mem_singleton_self id)⟩
    rw [hlink]
    exact ⟨[link], rfl⟩
  · rename_i ids hroute
    rw [hroute] at hrows
    exact linksByIDs_ok_iff.mpr
      (Or.inr ⟨hu, firstFailure_healthy hio _ _, firstFailure_healthy hio _ _, hrows⟩)

theorem placed_of_read {io : Script} {db : Database} {p : Patch} (hids : p.route.ids ≠ [])
    {current : List Link} (h : p.read io db = .ok current) : Placed p.user := by
  unfold Patch.read at h
  split at h
  · rename_i id _
    cases hread : linkByID io db p.user id with
    | error e =>
      rw [hread] at h
      cases h
    | ok link => exact (linkByID_ok_iff.mp ⟨link, hread⟩).1
  · rename_i ids hroute
    rw [hroute] at hids
    exact ((linksByIDs_ok_iff.mp ⟨current, h⟩).resolve_left hids).1

/-- A healthy read finds exactly the live links in view. -/
theorem read_iff {io : Script} (hio : io.Healthy) {db : Database} {p : Patch}
    (hids : p.route.ids ≠ []) {current : List Link} : p.read io db = .ok current ↔
      Placed p.user ∧ List.Forall₂ (Seen db p.user) p.route.ids current := by
  constructor
  · intro h
    exact ⟨placed_of_read hids h, seen_of_read h⟩
  · rintro ⟨hu, hseen⟩
    obtain ⟨found, hfound⟩ := read_of_rows hio hu (rows_of_seen hseen)
    rw [hfound, seen_unique (seen_of_read hfound) hseen]

/-- The merge of the links that were read, each with a hash of its own. -/
theorem mergeEach_iff {hash : ℕ → SecretHash} {db : Database} {u : User} {set : Payload}
    {label : ℤ → Str} {ids : List ℤ} {current : List Link}
    (h : List.Forall₂ (Seen db u) ids current) {n : ℕ} {updates : List LinkUpdate} :
    mergeEach hash set label n ids current = .ok updates ↔
      List.Forall₂ (fun q update => Merges (hash q.2) db u set q.1 update) (ids.zipIdx n)
        updates := by
  induction h generalizing n updates with
  | nil =>
    rw [List.zipIdx_nil, List.forall₂_nil_left_iff, mergeEach, Except.ok.injEq, eq_comm]
    simp
  | @cons id link ids rest hseen _ ih =>
    rw [List.zipIdx_cons, mergeEach, List.forall₂_cons_left_iff]
    cases happly : applyLinkPayload (hash n) link set false with
    | error text =>
      constructor
      · intro hmerge
        cases hmerge
      · rintro ⟨update, -, ⟨-, found, hfound, happly'⟩, -⟩
        rw [hseen.unique hfound, happly'] at happly
        cases happly
    | ok result =>
      obtain ⟨merged, passwordHash, changed⟩ := result
      dsimp only
      constructor
      · intro hmerge
        cases hrest : mergeEach hash set label (n + 1) ids rest with
        | error text =>
          rw [hrest] at hmerge
          cases hmerge
        | ok others =>
          rw [hrest] at hmerge
          cases hmerge
          exact ⟨_, others, ⟨rfl, link, hseen, happly⟩, ih.mp hrest, rfl⟩
      · rintro ⟨update, others, ⟨hnames, found, hfound, happly'⟩, hothers, rfl⟩
        rw [ih.mpr hothers]
        obtain rfl := hseen.unique hfound
        rw [happly, Except.ok.injEq, Prod.mk.injEq, Prod.mk.injEq] at happly'
        obtain ⟨rfl, rfl, rfl⟩ := happly'
        rw [← hnames]

theorem merge_iff {hash : ℕ → SecretHash} {db : Database} {p : Patch} {current : List Link}
    (h : List.Forall₂ (Seen db p.user) p.route.ids current) {updates : List LinkUpdate} :
    p.merge hash current = .ok updates ↔
      List.Forall₂ (fun q update => Merges (hash q.2) db p.user p.set q.1 update) p.route.ids.zipIdx
        updates := by
  unfold Patch.merge
  split
  · rename_i id hroute
    rw [hroute] at h ⊢
    exact mergeEach_iff h
  · rename_i ids hroute
    rw [hroute] at h ⊢
    exact mergeEach_iff h

theorem names_of_merges {hash : ℕ → SecretHash} {db : Database} {u : User} {set : Payload}
    {ids : List ℤ} {n : ℕ} {updates : List LinkUpdate}
    (h : List.Forall₂ (fun q update => Merges (hash q.2) db u set q.1 update) (ids.zipIdx n)
      updates) : updates.map LinkUpdate.id = ids := by
  induction ids generalizing n updates with
  | nil =>
    rw [List.zipIdx_nil, List.forall₂_nil_left_iff] at h
    rw [h]
    rfl
  | cons id rest ih =>
    rw [List.zipIdx_cons] at h
    obtain ⟨update, others, hmerges, hothers, rfl⟩ := List.forall₂_cons_left_iff.mp h
    rw [List.map_cons, hmerges.names, ih hothers]

theorem managed_of_stores {before after : Database} {u : User} {id : ℤ} {link : Link}
    {password : Option Str} (h : Stores before after id link password)
    (hmanaged : Managed before u id) : Managed after u id := by
  obtain ⟨r, columns, updatedAt, hr, -, hafter⟩ := h.row
  obtain ⟨q, hq, hlive, hmanage⟩ := link_of_managed hmanaged
  obtain rfl : q = r := Option.some.inj (hq.symm.trans hr)
  exact ⟨_, (mem_link hafter).1, (mem_link hafter).2, hlive, hmanage⟩

/-! ## When an edit is performed -/

/-- The links are written and read back; the audit follows. -/
def Performed : Ending → Prop
  | .respond _ => False
  | .record .. => True

/-- The links that a request writes. -/
def written (p : Patch) (update : LinkUpdate) : Link :=
  match p.route with
  | .one _ => updateLinkInput update.link update.passwordHash update.passwordChanged
  | .many _ => update.link

/-- What a committed write has stored. -/
theorem stores_of_write {io : Script} {db : Database} {p : Patch} {updates : List LinkUpdate}
    (hnames : updates.map LinkUpdate.id = p.route.ids)
    (h : (p.write io db updates).1 = none) :
    ∀ update ∈ updates, Stores db (p.write io db updates).2 update.id (written p update)
      (if update.passwordChanged then some update.passwordHash else none) := by
  cases hroute : p.route with
  | one id =>
    rw [hroute] at hnames
    obtain ⟨update, rfl⟩ : ∃ update, updates = [update] := by
      have hlength := congrArg List.length hnames
      rw [List.length_map] at hlength
      exact List.length_eq_one_iff.mp hlength
    have hid : update.id = id := by simpa [Route.ids] using hnames
    subst hid
    intro next hnext
    obtain rfl := List.mem_singleton.mp hnext
    simp only [Patch.write, hroute, updateLinkWrite, written] at h ⊢
    split
    · rename_i hinvalid
      rw [hinvalid] at h
      cases h
    · rename_i hvalid
      rw [hvalid] at h
      exact stores_updateLinkTx (inTx_none h)
  | many ids =>
    intro update hupdate
    simp only [Patch.write, hroute, updateLinksBulkWrite, written] at h ⊢
    split
    · rename_i hnil
      rw [hnil] at hupdate
      cases hupdate
    rename_i hne
    rw [if_neg hne] at h
    split
    · rename_i hinvalid
      rw [hinvalid] at h
      cases h
    · rename_i hvalid
      rw [hvalid] at h
      exact (stores_updateLinksBulkTx (inTx_none h)).2 update hupdate

theorem write_iff {io : Script} (hio : io.Healthy) {db : Database} {p : Patch}
    {updates : List LinkUpdate} (hnames : updates.map LinkUpdate.id = p.route.ids)
    (hids : p.route.ids ≠ []) (hnodup : p.route.ids.Nodup) :
    (p.write io db updates).1 = none ↔ Placed p.user ∧
      ∀ update ∈ updates, Managed db p.user update.id ∧ Fits update.id (written p update) := by
  cases hroute : p.route with
  | one id =>
    rw [hroute] at hnames
    obtain ⟨update, rfl⟩ : ∃ update, updates = [update] := by
      have hlength := congrArg List.length hnames
      rw [List.length_map] at hlength
      exact List.length_eq_one_iff.mp hlength
    have hid : update.id = id := by simpa [Route.ids] using hnames
    subst hid
    simp only [Patch.write, hroute, written, List.mem_singleton, forall_eq]
    exact updateLinkWrite_ok_iff hio
  | many ids =>
    rw [hroute] at hnames hids hnodup
    have hne : updates ≠ [] := by
      rintro rfl
      exact hids hnames.symm
    simp only [Patch.write, hroute, written]
    rw [updateLinksBulkWrite_ok_iff hio hne, hnames]
    exact ⟨fun h => ⟨h.1, h.2.2⟩, fun h => ⟨h.1, hnodup, h.2⟩⟩

theorem write_unchanged {io : Script} (hio : io.Healthy) {db : Database} {p : Patch}
    {updates : List LinkUpdate} (h : (p.write io db updates).1 ≠ none) :
    (p.write io db updates).2 = db := by
  unfold Patch.write at h ⊢
  split
  · rename_i hroute
    rw [hroute] at h
    exact updateLinkWrite_unchanged hio h
  · rfl
  · rename_i hroute
    rw [hroute] at h
    exact updateLinksBulkWrite_unchanged hio h

/-- After a committed write its links are found again. -/
theorem read_after_write {io after : Script} (hafter : after.Healthy) {db : Database} {p : Patch}
    {updates : List LinkUpdate} (hnames : updates.map LinkUpdate.id = p.route.ids)
    (hu : Placed p.user) (hmanaged : ∀ update ∈ updates, Managed db p.user update.id)
    (h : (p.write io db updates).1 = none) :
    ∃ links, p.read after (p.write io db updates).2 = .ok links := by
  apply read_of_rows hafter hu
  intro id hid
  rw [← hnames] at hid
  obtain ⟨update, hupdate, rfl⟩ := List.mem_map.mp hid
  have hstores := stores_of_write hnames h update hupdate
  obtain ⟨r, hr, hrid, hlive, hmanage⟩ := managed_of_stores hstores (hmanaged update hupdate)
  exact ⟨r, hr, hrid, hlive, manage_view hmanage⟩

/-- The script of each call of a request that touches links never fails. -/
structure Works (calls : Calls) : Prop where
  before : calls.before.Healthy
  io : calls.io.Healthy
  after : calls.after.Healthy

/-- An edit that writes the updates. -/
structure Edits (calls : Calls) (db : Database) (p : Patch) (updates : List LinkUpdate) : Prop where
  formed : p.malformed = none
  placed : Placed p.user
  merges : List.Forall₂ (fun q update => Merges (calls.hash q.2) db p.user p.set q.1 update)
    p.route.ids.zipIdx updates
  fits : ∀ update ∈ updates, Managed db p.user update.id ∧ Fits update.id (written p update)

theorem editLinks_cases (server : Server) (w : World) (c : Caller) {calls : Calls} (p : Patch)
    (texts : EditTexts) (hworks : Works calls) (hids : p.route.ids ≠ [])
    (hnodup : p.route.ids.Nodup) :
    (∃ updates, Edits calls w.db p updates ∧ Performed (editLinks server w c calls p texts).1 ∧
        (p.write calls.io w.db updates).1 = none ∧
        (editLinks server w c calls p texts).2 =
          { w with db := (p.write calls.io w.db updates).2 }) ∨
      ((¬ ∃ updates, Edits calls w.db p updates) ∧
        ¬ Performed (editLinks server w c calls p texts).1 ∧
        (editLinks server w c calls p texts).2 = w) := by
  unfold editLinks
  cases hformed : p.malformed with
  | some text =>
    refine Or.inr ⟨?_, id, rfl⟩
    rintro ⟨updates, h⟩
    rw [h.formed] at hformed
    cases hformed
  | none =>
    dsimp only
    cases hread : p.read calls.before w.db with
    | error e =>
      refine Or.inr ⟨?_, id, rfl⟩
      rintro ⟨updates, h⟩
      have hrows : ∀ id ∈ p.route.ids, ∃ r ∈ w.db.links.rows,
          r.id = id ∧ r.deletedAt = none ∧ View p.user r := by
        intro id hid
        rw [← names_of_merges h.merges] at hid
        obtain ⟨update, hupdate, rfl⟩ := List.mem_map.mp hid
        obtain ⟨r, hr, hrid, hlive, hmanage⟩ := (h.fits update hupdate).1
        exact ⟨r, hr, hrid, hlive, manage_view hmanage⟩
      obtain ⟨current, hcurrent⟩ := read_of_rows hworks.before h.placed hrows
      rw [hcurrent] at hread
      cases hread
    | ok current =>
      dsimp only
      obtain ⟨hplaced, hseen⟩ := (read_iff hworks.before hids).mp hread
      cases hmerge : p.merge calls.hash current with
      | error text =>
        refine Or.inr ⟨?_, id, rfl⟩
        rintro ⟨updates, h⟩
        rw [(merge_iff hseen).mpr h.merges] at hmerge
        cases hmerge
      | ok updates =>
        dsimp only
        have hmerges := (merge_iff hseen).mp hmerge
        have hnames := names_of_merges hmerges
        cases hwrite : p.write calls.io w.db updates with
        | mk failure db =>
          cases failure with
          | some e =>
            have hfailed : (p.write calls.io w.db updates).1 ≠ none := by simp [hwrite]
            have hsame := write_unchanged hworks.io hfailed
            rw [hwrite] at hsame
            dsimp only at hsame
            refine Or.inr ⟨?_, id, ?_⟩
            · rintro ⟨others, h⟩
              have heq := (merge_iff hseen).mpr h.merges
              rw [hmerge, Except.ok.injEq] at heq
              subst heq
              exact hfailed ((write_iff hworks.io hnames hids hnodup).mpr ⟨hplaced, h.fits⟩)
            · dsimp only
              rw [hsame]
          | none =>
            have hdone : (p.write calls.io w.db updates).1 = none := by rw [hwrite]
            obtain ⟨-, hfits⟩ := (write_iff hworks.io hnames hids hnodup).mp hdone
            obtain ⟨links, hlinks⟩ := read_after_write hworks.after hnames hplaced
              (fun update hupdate => (hfits update hupdate).1) hdone
            rw [hwrite] at hlinks
            dsimp only at hlinks ⊢
            rw [hlinks]
            exact Or.inl ⟨updates, ⟨hformed, hplaced, hmerges, hfits⟩, trivial, by rw [hwrite],
              by rw [hwrite]⟩

/-! ## The edit of one link -/

theorem edits_one_iff {calls : Calls} {db : Database} {u : User} {id : ℤ} {set : Payload}
    {update : LinkUpdate} : Edits calls db ⟨u, .one id, set⟩ [update] ↔
      set.slug = none ∧ Placed u ∧ Merges (calls.hash 0) db u set id update ∧ Managed db u id ∧
        Fits id (updateLinkInput update.link update.passwordHash update.passwordChanged) := by
  have hformed : (Patch.mk u (.one id) set).malformed = none ↔ set.slug = none := by
    unfold Patch.malformed
    cases set.slug <;> simp
  constructor
  · intro hedits
    obtain ⟨next, rest, hmerges, -, heq⟩ := List.forall₂_cons_left_iff.mp hedits.merges
    rw [List.cons.injEq] at heq
    obtain ⟨rfl, -⟩ := heq
    obtain ⟨hmanaged, hfits⟩ := hedits.fits update (List.mem_singleton_self update)
    have hid : update.id = id := hmerges.names
    rw [hid] at hmanaged hfits
    exact ⟨hformed.mp hedits.formed, hedits.placed, hmerges, hmanaged, hfits⟩
  · rintro ⟨hslug, hplaced, hmerges, hmanaged, hfits⟩
    refine ⟨hformed.mpr hslug, hplaced, .cons hmerges .nil, fun next hnext => ?_⟩
    obtain rfl := List.mem_singleton.mp hnext
    rw [hmerges.names]
    exact ⟨hmanaged, hfits⟩

theorem edit_cases (server : Server) (w : World) (c : Caller) {calls : Calls} (set : Payload)
    (hworks : Works calls) (id : ℤ) :
    (∃ update, Edits calls w.db ⟨c.user, .one id, set⟩ [update] ∧
        Performed (handle server w c calls (.edit id set)).1 ∧
        Stores w.db (handle server w c calls (.edit id set)).2.db id
          (updateLinkInput update.link update.passwordHash update.passwordChanged)
          (if update.passwordChanged then some update.passwordHash else none)) ∨
      ((¬ ∃ update, Edits calls w.db ⟨c.user, .one id, set⟩ [update]) ∧
        ¬ Performed (handle server w c calls (.edit id set)).1) := by
  rcases editLinks_cases server w c ⟨c.user, .one id, set⟩ (editOne id) hworks
      (List.cons_ne_nil _ _) (List.nodup_singleton _) with
    ⟨updates, hedits, hperformed, hwrite, hdb⟩ | ⟨hno, hperformed, -⟩
  · have hnames : updates.map LinkUpdate.id = [id] := names_of_merges hedits.merges
    obtain ⟨update, rfl⟩ : ∃ update, updates = [update] := by
      have hlength := congrArg List.length hnames
      rw [List.length_map] at hlength
      exact List.length_eq_one_iff.mp hlength
    have hid : update.id = id := by simpa using hnames
    have hstores := stores_of_write hnames hwrite update (List.mem_singleton_self update)
    rw [hid] at hstores
    refine Or.inl ⟨update, hedits, hperformed, ?_⟩
    unfold handle
    dsimp only
    rw [hdb]
    exact hstores
  · exact Or.inr ⟨fun ⟨update, hupdate⟩ => hno ⟨[update], hupdate⟩, hperformed⟩

/-! ## One link of a bulk edit, edited alone -/

/-- The calls of the request for the link at a position: its hash is drawn as in the bulk edit. -/
def callsAt (calls : Calls) (position : ℕ) : Calls :=
  { calls with hash := fun _ => calls.hash position }

def alone (server : Server) (w : World) (c : Caller) (calls : Calls) (set : Payload)
    (q : ℤ × ℕ) : Ending × World :=
  handle server w c (callsAt calls q.2) (.edit q.1 set)

/-- The checks of `linkByID` and of the store accept the edit of one link. -/
def Acceptable (db : Database) (c : Caller) (calls : Calls) (set : Payload) (q : ℤ × ℕ) : Prop :=
  ∃ update, Edits (callsAt calls q.2) db ⟨c.user, .one q.1, set⟩ [update]

/-- With the payload merged in, the link has no redirect code. -/
def LacksCode (db : Database) (set : Payload) (id : ℤ) : Prop :=
  ∃ r, db.link id = some r ∧ set.redirectCode.getD r.redirectCode = 0

/-- The link has the same settings, tags, password and geo targets in both. -/
def SameLink (a b : Database) (id : ℤ) : Prop :=
  (a.link id).map (fun r => { r with updatedAt := GoTime.zero }) =
      (b.link id).map (fun r => { r with updatedAt := GoTime.zero }) ∧
    geoRows a id = geoRows b id

theorem alone_cases (server : Server) (w : World) (c : Caller) {calls : Calls} (set : Payload)
    (hworks : Works calls) (q : ℤ × ℕ) :
    (∃ update, Edits (callsAt calls q.2) w.db ⟨c.user, .one q.1, set⟩ [update] ∧
        Performed (alone server w c calls set q).1 ∧
        Stores w.db (alone server w c calls set q).2.db q.1
          (updateLinkInput update.link update.passwordHash update.passwordChanged)
          (if update.passwordChanged then some update.passwordHash else none)) ∨
      (¬ Acceptable w.db c calls set q ∧ ¬ Performed (alone server w c calls set q).1) := by
  have hdrawn : Works (callsAt calls q.2) := ⟨hworks.before, hworks.io, hworks.after⟩
  exact edit_cases server w c set hdrawn q.1

theorem performed_alone {server : Server} {w : World} {c : Caller} {calls : Calls} {set : Payload}
    (hworks : Works calls) (q : ℤ × ℕ) :
    Performed (alone server w c calls set q).1 ↔ Acceptable w.db c calls set q := by
  rcases alone_cases server w c set hworks q with
    ⟨update, hedits, hperformed, -⟩ | ⟨hno, hperformed⟩
  · exact iff_of_true hperformed ⟨update, hedits⟩
  · exact iff_of_false hperformed hno

theorem acceptable_iff {db : Database} {c : Caller} {calls : Calls} {set : Payload} {q : ℤ × ℕ} :
    Acceptable db c calls set q ↔ set.slug = none ∧ Placed c.user ∧
      ∃ update, Merges (calls.hash q.2) db c.user set q.1 update ∧ Managed db c.user q.1 ∧
        Fits q.1 (updateLinkInput update.link update.passwordHash update.passwordChanged) := by
  unfold Acceptable
  simp only [edits_one_iff, exists_and_left]
  rfl

theorem code_of_merges {hash : SecretHash} {db : Database} {u : User} {set : Payload} {id : ℤ}
    {update : LinkUpdate} (h : Merges hash db u set id update) :
    ∃ r, db.link id = some r ∧ update.link.redirectCode = set.redirectCode.getD r.redirectCode := by
  obtain ⟨link, ⟨r, hr, -, -, rfl⟩, happly⟩ := h.merged
  refine ⟨r, hr, ?_⟩
  rw [(applyLinkPayload_ok happly).1]
  rfl

theorem merges_unique {hash : SecretHash} {db : Database} {u : User} {set : Payload} {id : ℤ}
    {a b : LinkUpdate} (ha : Merges hash db u set id a) (hb : Merges hash db u set id b) :
    a = b := by
  obtain ⟨link, hlink, happly⟩ := ha.merged
  obtain ⟨link', hlink', happly'⟩ := hb.merged
  obtain rfl := hlink.unique hlink'
  rw [happly, Except.ok.injEq, Prod.mk.injEq, Prod.mk.injEq] at happly'
  have hnames : a.id = b.id := ha.names.trans hb.names.symm
  cases a
  cases b
  simp_all

/-- With a redirect code both routes write the same link. -/
theorem input_of_merges {hash : SecretHash} {db : Database} {u : User} {set : Payload} {id : ℤ}
    {update : LinkUpdate} (h : Merges hash db u set id update)
    (hcode : update.link.redirectCode ≠ 0) :
    updateLinkInput update.link update.passwordHash update.passwordChanged = update.link := by
  obtain ⟨link, -, happly⟩ := h.merged
  obtain ⟨hlink, hsecret, hchanged⟩ := applyLinkPayload_ok happly
  have hwritten := secret_written hsecret
  have hprotected : (if update.passwordChanged then decide (0 < update.passwordHash.length)
      else update.link.passwordProtected) = update.link.passwordProtected := by
    rw [hchanged, hlink, Payload.passwordChanged]
    simp only [Payload.assign, List.length_pos_iff, hwritten]
    by_cases hpassword : set.password.isSome = true
    · simp [hpassword]
    · by_cases hclear : set.clearPassword = true <;> simp [hpassword, hclear]
  unfold updateLinkInput
  rw [hprotected, if_neg hcode]

theorem fits_iff {hash : SecretHash} {db : Database} {u : User} {set : Payload} {id : ℤ}
    {update : LinkUpdate} (h : Merges hash db u set id update) : Fits id update.link ↔
      Fits id (updateLinkInput update.link update.passwordHash update.passwordChanged) ∧
        update.link.redirectCode ≠ 0 := by
  constructor
  · intro hfits
    have hcode := redirectCode_of_valid hfits.valid
    rw [input_of_merges h hcode]
    exact ⟨hfits, hcode⟩
  · rintro ⟨hfits, hcode⟩
    rwa [input_of_merges h hcode] at hfits

/-! ## The bulk edit -/

/-- The bulk edit is acceptable exactly when it names a link, every edit alone is acceptable and
no link lacks a redirect code. -/
theorem edits_many_iff (db : Database) (c : Caller) (calls : Calls) (set : Payload) {ids : List ℤ}
    (hpositive : ∀ id ∈ ids, 1 ≤ id) (hnodup : ids.Nodup) (hlength : ids.length ≤ 500) :
    (∃ updates, Edits calls db ⟨c.user, .many ids, set⟩ updates) ↔ ids ≠ [] ∧
      (∀ q ∈ ids.zipIdx, Acceptable db c calls set q) ∧ ∀ id ∈ ids, ¬ LacksCode db set id := by
  have hformed : (Patch.mk c.user (.many ids) set).malformed = none ↔
      ids ≠ [] ∧ set.slug = none := by
    have hsmall : ids.any (· < 1) = false := by
      rw [List.any_eq_false]
      intro id hid
      simpa using hpositive id hid
    unfold Patch.malformed
    cases ids with
    | nil => simp
    | cons id rest =>
      have hcount : (decide ((id :: rest).length < 1) || decide (500 < (id :: rest).length)) =
          false := by
        rw [Bool.or_eq_false_iff, decide_eq_false_iff_not, decide_eq_false_iff_not,
          List.length_cons]
        rw [List.length_cons] at hlength
        omega
      dsimp only
      rw [hcount, if_neg Bool.false_ne_true]
      cases set.slug <;> simp [hsmall, hnodup]
  have hindex : ids.zipIdx.map Prod.fst = ids := List.zipIdx_map_fst 0 ids
  constructor
  · rintro ⟨updates, hedits⟩
    obtain ⟨hne, hslug⟩ := hformed.mp hedits.formed
    have hown : ∀ q ∈ ids.zipIdx, ∃ update, Merges (calls.hash q.2) db c.user set q.1 update ∧
        Managed db c.user q.1 ∧ Fits q.1 update.link := by
      intro q hq
      obtain ⟨update, hupdate, hmerges⟩ := exists_of_forall₂ hedits.merges hq
      obtain ⟨hmanaged, hfits⟩ := hedits.fits update hupdate
      have hid : update.id = q.1 := hmerges.names
      rw [hid] at hmanaged hfits
      exact ⟨update, hmerges, hmanaged, hfits⟩
    refine ⟨hne, fun q hq => ?_, fun id hid => ?_⟩
    · obtain ⟨update, hmerges, hmanaged, hfits⟩ := hown q hq
      exact acceptable_iff.mpr
        ⟨hslug, hedits.placed, update, hmerges, hmanaged, ((fits_iff hmerges).mp hfits).1⟩
    · rintro ⟨r, hr, hzero⟩
      rw [← hindex] at hid
      obtain ⟨q, hq, rfl⟩ := List.mem_map.mp hid
      obtain ⟨update, hmerges, -, hfits⟩ := hown q hq
      obtain ⟨r', hr', hcode⟩ := code_of_merges hmerges
      obtain rfl : r = r' := Option.some.inj (hr.symm.trans hr')
      exact ((fits_iff hmerges).mp hfits).2 (hcode.trans hzero)
  · rintro ⟨hne, hall, hcodes⟩
    obtain ⟨id, hid⟩ := List.exists_mem_of_ne_nil ids hne
    obtain ⟨q₀, hq₀, -⟩ := List.mem_map.mp (hindex.symm ▸ hid)
    obtain ⟨hslug, hplaced, -⟩ := acceptable_iff.mp (hall q₀ hq₀)
    have hown : ∀ q ∈ ids.zipIdx, ∃ update, Merges (calls.hash q.2) db c.user set q.1 update ∧
        (Managed db c.user update.id ∧ Fits update.id update.link) := by
      intro q hq
      obtain ⟨-, -, update, hmerges, hmanaged, hfits⟩ := acceptable_iff.mp (hall q hq)
      have hid : update.id = q.1 := hmerges.names
      obtain ⟨r, hr, hcode⟩ := code_of_merges hmerges
      have hmem : q.1 ∈ ids := hindex ▸ List.mem_map_of_mem hq
      have hne : update.link.redirectCode ≠ 0 := fun hzero =>
        hcodes q.1 hmem ⟨r, hr, hcode.symm.trans hzero⟩
      refine ⟨update, hmerges, ?_⟩
      rw [hid]
      exact ⟨hmanaged, (fits_iff hmerges).mpr ⟨hfits, hne⟩⟩
    obtain ⟨updates, hmerges, hfits⟩ := forall₂_of_exists hown
    exact ⟨updates, hformed.mpr ⟨hne, hslug⟩, hplaced, hmerges, hfits⟩

theorem sameLink_of_stores {before a b : Database} {id : ℤ} {link : Link} {password : Option Str}
    (ha : Stores before a id link password) (hb : Stores before b id link password) :
    SameLink a b id := by
  obtain ⟨r, columns, updatedAt, hr, hcolumns, hafter⟩ := ha.row
  obtain ⟨r', columns', updatedAt', hr', hcolumns', hafter'⟩ := hb.row
  obtain rfl : r = r' := Option.some.inj (hr.symm.trans hr')
  obtain rfl : columns = columns' := Option.some.inj (hcolumns.symm.trans hcolumns')
  constructor
  · rw [hafter, hafter']
    rfl
  · exact Option.some.inj (ha.geo.symm.trans hb.geo)

theorem bulk_cases (server : Server) (w : World) (c : Caller) {calls : Calls} (set : Payload)
    {ids : List ℤ} (hworks : Works calls) (hnodup : ids.Nodup) :
    (∃ updates, Edits calls w.db ⟨c.user, .many ids, set⟩ updates ∧
        Performed (handle server w c calls (.bulkEdit ids set)).1 ∧
        ∀ update ∈ updates, Stores w.db (handle server w c calls (.bulkEdit ids set)).2.db update.id
          update.link (if update.passwordChanged then some update.passwordHash else none)) ∨
      ((¬ ∃ updates, Edits calls w.db ⟨c.user, .many ids, set⟩ updates) ∧
        ¬ Performed (handle server w c calls (.bulkEdit ids set)).1 ∧
        (handle server w c calls (.bulkEdit ids set)).2 = w) := by
  by_cases hids : ids = []
  · subst hids
    refine Or.inr ⟨?_, id, rfl⟩
    rintro ⟨updates, hedits⟩
    cases hedits.formed
  · rcases editLinks_cases server w c ⟨c.user, .many ids, set⟩ editMany hworks hids hnodup with
      ⟨updates, hedits, hperformed, hwrite, hdb⟩ | hno
    · refine Or.inl ⟨updates, hedits, hperformed, ?_⟩
      unfold handle
      dsimp only
      rw [hdb]
      exact stores_of_write (names_of_merges hedits.merges) hwrite
    · exact Or.inr hno

/-- A bulk edit succeeds exactly when every edit alone does, and then leaves each link as the edit
alone does; and where one of these fails it changes nothing. This holds exactly when there are
links to edit and, if one of them would get no redirect code, an edit fails anyhow. -/
theorem bulk_agrees_iff (server : Server) (w : World) (c : Caller) (calls : Calls) (set : Payload)
    (ids : List ℤ) (hworks : Works calls) (hpositive : ∀ id ∈ ids, 1 ≤ id) (hnodup : ids.Nodup)
    (hlength : ids.length ≤ 500) :
    ((Performed (handle server w c calls (.bulkEdit ids set)).1 ↔
        ∀ q ∈ ids.zipIdx, Performed (alone server w c calls set q).1) ∧
      (Performed (handle server w c calls (.bulkEdit ids set)).1 → ∀ q ∈ ids.zipIdx,
        SameLink (handle server w c calls (.bulkEdit ids set)).2.db
          (alone server w c calls set q).2.db q.1) ∧
      ((∃ q ∈ ids.zipIdx, ¬ Performed (alone server w c calls set q).1) →
        (handle server w c calls (.bulkEdit ids set)).2 = w)) ↔
      ids ≠ [] ∧ ((∃ id ∈ ids, LacksCode w.db set id) →
        ∃ q ∈ ids.zipIdx, ¬ Acceptable w.db c calls set q) := by
  have hbulk := edits_many_iff w.db c calls set hpositive hnodup hlength
  simp only [performed_alone hworks]
  rcases bulk_cases server w c set hworks hnodup with
    ⟨updates, hedits, hperformed, hstores⟩ | ⟨hno, hperformed, hsame⟩
  · obtain ⟨hne, hall, hcodes⟩ := hbulk.mp ⟨updates, hedits⟩
    apply iff_of_true
    · refine ⟨iff_of_true hperformed hall, fun _ q hq => ?_, ?_⟩
      · obtain ⟨update, hupdate, hmerges⟩ := exists_of_forall₂ hedits.merges hq
        have hstored := hstores update hupdate
        have hfits := (hedits.fits update hupdate).2
        have hid : update.id = q.1 := hmerges.names
        rw [hid] at hstored
        rcases alone_cases server w c set hworks q with
          ⟨single, hsingle, -, halone⟩ | ⟨hnot, -⟩
        · obtain ⟨next, rest, hmerges', -, heq⟩ := List.forall₂_cons_left_iff.mp hsingle.merges
          rw [List.cons.injEq] at heq
          obtain ⟨rfl, -⟩ := heq
          have hupdates := merges_unique hmerges hmerges'
          subst hupdates
          rw [input_of_merges hmerges (redirectCode_of_valid hfits.valid)] at halone
          exact sameLink_of_stores hstored halone
        · exact absurd (hall q hq) hnot
      · rintro ⟨q, hq, hnot⟩
        exact absurd (hall q hq) hnot
    · refine ⟨hne, ?_⟩
      rintro ⟨id, hid, hlacks⟩
      exact absurd hlacks (hcodes id hid)
  · constructor
    · rintro ⟨hiff, -, -⟩
      have hnot : ¬ ∀ q ∈ ids.zipIdx, Acceptable w.db c calls set q := fun hall =>
        hperformed (hiff.mpr hall)
      push Not at hnot
      refine ⟨?_, fun _ => hnot⟩
      rintro rfl
      obtain ⟨q, hq, -⟩ := hnot
      cases hq
    · rintro ⟨hne, hcondition⟩
      refine ⟨iff_of_false hperformed fun hall => ?_, fun h => absurd h hperformed, fun _ => hsame⟩
      refine hno (hbulk.mpr ⟨hne, hall, fun id hid hlacks => ?_⟩)
      obtain ⟨q, hq, hnot⟩ := hcondition ⟨id, hid, hlacks⟩
      exact hnot (hall q hq)

instance : DecidablePred Performed
  | .respond _ => .isFalse id
  | .record .. => .isTrue trivial

/-! An administrator edits the links of a store. -/

theorem administrator_stored :
    varchar 190 (lit "a@example.com") = some (lit "a@example.com") := by decide

theorem administrator_auth :
    lit "session" ∈ [lit "session", lit "bearer", lit "api_key"] := by decide

def administrator : Caller where
  principal := effectivePrincipal ⟨1, none, .superadmin⟩ (lit "admin") (lit "session")
  email := lit "a@example.com"
  deletionAccess := true
  request := LinkResponses.request
  stored := administrator_stored
  auth := administrator_auth

theorem works_healthy : Works LinkResponses.healthy :=
  ⟨⟨rfl, fun _ => rfl, rfl, rfl⟩, ⟨rfl, fun _ => rfl, rfl, rfl⟩, ⟨rfl, fun _ => rfl, rfl, rfl⟩⟩

def titled : Payload where
  title := some (lit "Docs")

/-- The one link has no title, the other one has that title, tags and a limit. -/
def pair : World :=
  { LinkResponses.colleagues with
    db :=
      { Database.single sampleLink with
        links := ⟨[sampleLink,
          { sampleLink with
            id := 2
            slug := lit "docs2"
            title := lit "Docs"
            tags := [lit "a"]
            maxClicks := some 5 }], by decide⟩
        nextLinkId := 3 } }

theorem titled_code : ¬ ∃ id ∈ [(1 : ℤ), 2], LacksCode pair.db titled id := by
  have hcodes : ∀ id ∈ [(1 : ℤ), 2], (pair.db.link id).map LinkRow.redirectCode = some 302 := by
    decide
  rintro ⟨id, hid, r, hr, hzero⟩
  have hcode := hcodes id hid
  rw [hr, Option.map_some, Option.some.injEq] at hcode
  change r.redirectCode = 0 at hzero
  rw [hcode] at hzero
  cases hzero

/-- A title is set alike on both routes, on a link that has it and on one that has not. -/
theorem bulk_agrees_iff_title :
    Performed (handle LinkResponses.deployed pair administrator LinkResponses.healthy
      (.bulkEdit [1, 2] titled)).1 ∧
    ∀ q ∈ [((1 : ℤ), 0), (2, 1)],
      Performed (alone LinkResponses.deployed pair administrator LinkResponses.healthy titled q).1 ∧
        SameLink (handle LinkResponses.deployed pair administrator LinkResponses.healthy
            (.bulkEdit [1, 2] titled)).2.db
          (alone LinkResponses.deployed pair administrator LinkResponses.healthy titled q).2.db
          q.1 := by
  obtain ⟨halike, hsame, -⟩ := (bulk_agrees_iff LinkResponses.deployed pair administrator
    LinkResponses.healthy titled [1, 2] works_healthy (by simp) (by decide) (by simp)).mpr
      ⟨List.cons_ne_nil 1 [2], fun h => absurd h titled_code⟩
  have hperformed : Performed (handle LinkResponses.deployed pair administrator
      LinkResponses.healthy (.bulkEdit [1, 2] titled)).1 := by decide +kernel
  exact ⟨hperformed, fun q hq => ⟨halike.mp hperformed q hq, hsame hperformed q hq⟩⟩

/-- Redirect code 0: the edit alone stores 302, the bulk edit is refused. -/
theorem code_zero_refused :
    ¬ (Performed (handle LinkResponses.deployed LinkResponses.colleagues administrator
          LinkResponses.healthy (.bulkEdit [1] { redirectCode := some 0 })).1 ↔
        ∀ q ∈ [(1 : ℤ)].zipIdx, Performed (alone LinkResponses.deployed LinkResponses.colleagues
          administrator LinkResponses.healthy { redirectCode := some 0 } q).1) ∧
      (handle LinkResponses.deployed LinkResponses.colleagues administrator LinkResponses.healthy
        (.edit 1 { redirectCode := some 0 })).2.db.links.rows.map LinkRow.redirectCode = [302] := by
  have hbulk : ¬ Performed (handle LinkResponses.deployed LinkResponses.colleagues administrator
      LinkResponses.healthy (.bulkEdit [1] { redirectCode := some 0 })).1 := by decide
  have halone : ∀ q ∈ [(1 : ℤ)].zipIdx, Performed (alone LinkResponses.deployed
      LinkResponses.colleagues administrator LinkResponses.healthy { redirectCode := some 0 }
        q).1 := by
    decide +kernel
  exact ⟨fun h => hbulk (h.mpr halone), by decide +kernel⟩

end BulkEdits
