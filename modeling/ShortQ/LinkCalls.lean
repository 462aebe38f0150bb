import ShortQ.LinkScopes

/-! # The store calls that write links

A call is one transaction; the calls that return links read them back afterwards, in queries
of their own. What a transaction may write is said once here, for every call. -/
namespace LinkCalls

open GoText (Str lit)
open GoTime (Time)
open LinkScopes
open LinkStore
open LinkValidation
open Models
open RowTable
open Schema
open Transaction

/-! The import. -/

/-- A link as the loop of `CreateLinksBulk` leaves it. -/
def importInput (random : Str) (link : Link) : Link :=
  { link with
    slug := if link.slug = [] then random else link.slug
    redirectCode := if link.redirectCode = 0 then 302 else link.redirectCode
    visibility := if link.visibility = [] then lit "private" else link.visibility }

/-- Rows are numbered as in the file, whose first line names the columns. -/
def rowError (index : ℕ) (text : Str) : Str :=
  lit "row " ++ lit (toString (index + 2)) ++ lit ": " ++ text

def checkImport (randoms : ℕ → Str) (seen : List Str) : ℕ → List Link → Except Str (List Link)
  | _, [] => .ok []
  | index, link :: rest =>
    let link := importInput (randoms index) link
    if !slugRe link.slug then
      .error (rowError index (lit "slug must be 3-80 letters, numbers, _ or -"))
    else if seen.contains link.slug then
      .error (rowError index (lit "duplicate slug in CSV"))
    else
      match validateLink link with
      | some text => .error (rowError index text)
      | none =>
        match checkImport randoms (link.slug :: seen) (index + 1) rest with
        | .error text => .error text
        | .ok rest => .ok (link :: rest)

/-- One row of an import: the insert, which leaves the password NULL, in slot `n`. -/
def importLink (io : Script) (n : ℕ) (tx : Database) (id : ℤ) (u : User) (link : Link) :
    Except Err Database :=
  match linkColumns link, varchar 80 link.slug with
  | some columns, some slug =>
    let now := (timestamptz (io.now 0)).getD (io.now 0)
    match io.call n (match tx.links.insert
        (columns.assign none none (blankRow id u slug now)) with
      | none => .error .schema
      | some links => .ok { tx with links := links }) with
    | .error e => .error e
    | .ok tx => insertGeos io id (n + 1) tx link.geoTargets
  | _, _ => .error .schema

def importEach (io : Script) (u : User) : ℕ → ℤ → Database → List Link → Except Err Database
  | _, _, tx, [] => .ok tx
  | n, id, tx, link :: rest =>
    match importLink io n tx id u link with
    | .error e => .error e
    | .ok tx => importEach io u (n + 1 + link.geoTargets.length) (id + 1) tx rest

/-- Slots 0 and 1 prepare the statements. -/
def createLinksBulkTx (io : Script) (tx : Database) (id : ℤ) (u : User) (links : List Link) :
    Except Err Database :=
  match firstFailure io 0 2 with
  | some text => .error (.database text)
  | none => importEach io u 2 id tx links

/-- `CreateLinksBulk` up to its commit. A failed import leaves a gap in the sequence. -/
def createLinksBulkWrite (io : Script) (db : Database) (randoms : ℕ → Str) (u : User)
    (links : List Link) : Option Err × Database :=
  if links = [] then (none, db)
  else
    match checkImport randoms [] 0 links with
    | .error text => (some (.rejected text), db)
    | .ok links =>
      let drawn := { db with nextLinkId := db.nextLinkId + links.length }
      inTx io drawn (createLinksBulkTx io drawn db.nextLinkId u links)

/-- The ids an import of this many links draws. -/
def importedIDs (db : Database) (links : List Link) : List ℤ :=
  (List.range links.length).map fun i => db.nextLinkId + (i : ℤ)

def createLinksBulk (io after : Script) (db : Database) (randoms : ℕ → Str) (u : User)
    (links : List Link) : Except Err (List Link) × Database :=
  match createLinksBulkWrite io db randoms u links with
  | (some e, db') => (.error e, db')
  | (none, db') => (linksByIDs after db' u (importedIDs db links), db')

/-- The rows a scoped statement on several live links names. -/
def liveAmong (ids : List ℤ) (scope : LinkRow → Bool) (r : LinkRow) : Bool :=
  r.deletedAt.isNone && (ids.contains r.id && scope r)

def deleteLinksBulk (io : Script) (db : Database) (u : User) (ids : List ℤ) :
    Option Err × Database :=
  if ids = [] then (none, db)
  else
    match addLinkManageScope u with
    | .error e => (some e, db)
    | .ok scope =>
      let now := (timestamptz (io.now 0)).getD (io.now 0)
      inTx io db (io.call 0 (if db.links.affected (liveAmong ids scope) = ids.length then
        .ok (deleteWhere db (liveAmong ids scope) now) else .error .noRows))

/-- The state after a bulk deletion. -/
theorem deleteLinksBulk_state (io : Script) (db : Database) (u : User) (ids : List ℤ) :
    (deleteLinksBulk io db u ids).2 = db ∨
      ∃ p now, (deleteLinksBulk io db u ids).2 = deleteWhere db p now := by
  unfold deleteLinksBulk
  split
  · exact Or.inl rfl
  split
  · exact Or.inl rfl
  · rename_i scope hscope
    dsimp only
    rcases inTx_state io db (io.call 0 (if db.links.affected (liveAmong ids scope) = ids.length
        then .ok (deleteWhere db (liveAmong ids scope)
          ((timestamptz (io.now 0)).getD (io.now 0))) else .error .noRows)) with
      heq | ⟨tx, hbody, heq⟩
    · exact Or.inl heq
    · have hok := call_ok hbody
      split at hok
      · cases hok
        exact Or.inr ⟨_, _, heq⟩
      · cases hok

/-! The calls as one type. -/

inductive Call where
  | createLink (random : Str) (link : Link) (passwordHash : Str)
  | createLinksBulk (randoms : ℕ → Str) (links : List Link)
  | updateLink (id : ℤ) (link : Link) (passwordHash : Str) (passwordChanged : Bool)
  | updateLinksBulk (updates : List LinkUpdate)
  | deleteLink (id : ℤ)
  | deleteLinksBulk (ids : List ℤ)

/-- The call up to the end of its transaction. -/
def Call.write (io : Script) (db : Database) (u : User) : Call → Option Err × Database
  | .createLink random link hash => createLinkWrite io db random u link hash
  | .createLinksBulk randoms links => createLinksBulkWrite io db randoms u links
  | .updateLink id link hash changed => updateLinkWrite io db u id link hash changed
  | .updateLinksBulk updates => updateLinksBulkWrite io db u updates
  | .deleteLink id => LinkStore.deleteLink io db u id
  | .deleteLinksBulk ids => LinkCalls.deleteLinksBulk io db u ids

/-- The query that reads the result of a call back. -/
inductive ReadBack where
  | bySlug (slug : Str)
  | byID (id : ℤ)
  | byIDs (ids : List ℤ)
  deriving DecidableEq, Repr

def ReadBack.read (io : Script) (db : Database) (u : User) : ReadBack → Except Err (List Link)
  | .bySlug slug => (linkBySlug io db slug).map fun link => [link]
  | .byID id => (linkByID io db u id).map fun link => [link]
  | .byIDs ids => linksByIDs io db u ids

/-- What the call reads after its commit; `db` is the database it started on. -/
def Call.readBack (db : Database) : Call → Option ReadBack
  | .createLink random link hash => some (.bySlug (createLinkInput random link hash).slug)
  | .createLinksBulk _ links => some (.byIDs (importedIDs db links))
  | .updateLink id .. => some (.byID id)
  | .updateLinksBulk updates => some (.byIDs (updates.map LinkUpdate.id))
  | .deleteLink _ => none
  | .deleteLinksBulk _ => none

/-- The whole call, when nothing happens between its commit and its read. -/
def Call.run (io after : Script) (db : Database) (u : User) (c : Call) :
    Except Err (List Link) × Database :=
  match c.write io db u with
  | (some e, db') => (.error e, db')
  | (none, db') =>
    match c.readBack db with
    | none => (.ok [], db')
    | some readBack => (readBack.read after db' u, db')

theorem run_createLink (io after : Script) (db : Database) (u : User) (random : Str)
    (link : Link) (hash : Str) :
    (Call.createLink random link hash).run io after db u =
      ((createLink io after db random u link hash).1.map fun link => [link],
        (createLink io after db random u link hash).2) := by
  simp only [Call.run, Call.write, createLink]
  cases createLinkWrite io db random u link hash with
  | mk e db' => cases e <;> rfl

theorem run_createLinksBulk (io after : Script) (db : Database) (u : User) (randoms : ℕ → Str)
    (links : List Link) : (Call.createLinksBulk randoms links).run io after db u =
      createLinksBulk io after db randoms u links := by
  simp only [Call.run, Call.write, createLinksBulk]
  split <;> rfl

theorem run_updateLink (io after : Script) (db : Database) (u : User) (id : ℤ) (link : Link)
    (hash : Str) (changed : Bool) :
    (Call.updateLink id link hash changed).run io after db u =
      ((updateLink io after db u id link hash changed).1.map fun link => [link],
        (updateLink io after db u id link hash changed).2) := by
  simp only [Call.run, Call.write, updateLink]
  cases updateLinkWrite io db u id link hash changed with
  | mk e db' => cases e <;> rfl

theorem run_updateLinksBulk (io after : Script) (db : Database) (u : User)
    (updates : List LinkUpdate) : (Call.updateLinksBulk updates).run io after db u =
      updateLinksBulk io after db u updates := by
  simp only [Call.run, Call.write, updateLinksBulk]
  cases updateLinksBulkWrite io db u updates with
  | mk e db' => cases e <;> rfl

/-- The existing links the call names. -/
def Call.targets : Call → List ℤ
  | .createLink .. => []
  | .createLinksBulk .. => []
  | .updateLink id .. => [id]
  | .updateLinksBulk updates => updates.map LinkUpdate.id
  | .deleteLink id => [id]
  | .deleteLinksBulk ids => ids

theorem run_database (c : Call) (io after : Script) (db : Database) (u : User) :
    (c.run io after db u).2 = (c.write io db u).2 := by
  unfold Call.run
  split
  · rename_i hwrite
    rw [hwrite]
  · rename_i hwrite
    rw [hwrite]
    split <;> rfl

/-! What a call may write. -/

/-- The geo targets of one link in the order of their insertion. -/
def geoRows (db : Database) (linkId : ℤ) : List GeoRow :=
  db.geoTargets.rows.filter fun g => g.linkId = linkId

/-- The row and its geo targets are as before. -/
def Untouched (before after : Database) (r : LinkRow) : Prop :=
  r ∈ after.links.rows ∧ geoRows after r.id = geoRows before r.id

theorem Untouched.trans {a b c : Database} {r : LinkRow} (h : Untouched a b r)
    (k : Untouched b c r) : Untouched a c r := ⟨k.1, k.2.trans h.2⟩

theorem geoRows_congr {before after : Database} (h : after.geoTargets = before.geoTargets)
    (linkId : ℤ) : geoRows after linkId = geoRows before linkId := by
  rw [geoRows, h, geoRows]

theorem Untouched.of_same {before after : Database} {r : LinkRow}
    (hlinks : after.links = before.links) (hgeo : after.geoTargets = before.geoTargets)
    (hr : r ∈ before.links.rows) : Untouched before after r :=
  ⟨by rw [hlinks]; exact hr, geoRows_congr hgeo r.id⟩

/-- An update of the links leaves every row outside it alone. -/
theorem untouched_update {db : Database} {p : LinkRow → Bool} {f : LinkRow → LinkRow}
    (hf : Table.Keeps linkClash f) {r : LinkRow} (hr : r ∈ db.links.rows) (hp : ¬ p r = true) :
    Untouched db { db with links := db.links.update p f hf } r := by
  refine ⟨?_, rfl⟩
  rw [Table.rows_update]
  exact List.mem_map.mpr ⟨r, hr, by rw [if_neg hp]⟩

theorem untouched_assignWhere {db : Database} {p : LinkRow → Bool} {c : LinkColumns}
    {password : Option Str} {updatedAt : Option Time} {r : LinkRow} (hr : r ∈ db.links.rows)
    (hp : ¬ p r = true) : Untouched db (assignWhere db p c password updatedAt) r :=
  untouched_update (keeps_assign c password updatedAt) hr hp

theorem untouched_deleteWhere {db : Database} {p : LinkRow → Bool} {now : Time} {r : LinkRow}
    (hr : r ∈ db.links.rows) (hp : ¬ p r = true) : Untouched db (deleteWhere db p now) r :=
  untouched_update (keeps_markDeleted now) hr hp

theorem insertGeo_other {tx tx' : Database} {linkId id : ℤ} {target : GeoTarget}
    (h : insertGeo tx linkId target = .ok tx') (hid : id ≠ linkId) :
    geoRows tx' id = geoRows tx id := by
  unfold insertGeo at h
  split at h
  · split at h
    · rename_i geo hinsert
      split at h
      · cases h
        simp [geoRows, (Table.insert_eq_some.mp hinsert).2, List.filter_append, hid.symm]
      · cases h
    · cases h
  · cases h

theorem insertGeos_other {io : Script} {linkId id : ℤ} {n : ℕ} {tx tx' : Database}
    {targets : List GeoTarget} (h : insertGeos io linkId n tx targets = .ok tx')
    (hid : id ≠ linkId) : geoRows tx' id = geoRows tx id := by
  induction targets generalizing n tx with
  | nil =>
    cases h
    rfl
  | cons target rest ih =>
    unfold insertGeos at h
    split at h
    · cases h
    · rename_i tx₁ hone
      exact (ih h).trans (insertGeo_other (call_ok hone) hid)

theorem replaceGeoTargets_other {io : Script} {linkId id : ℤ} {n : ℕ} {tx tx' : Database}
    {targets : List GeoTarget} (h : replaceGeoTargets io n tx linkId targets = .ok tx')
    (hid : id ≠ linkId) : geoRows tx' id = geoRows tx id := by
  unfold replaceGeoTargets at h
  split at h
  · cases h
  · rename_i tx₁ hdelete
    have hok := call_ok hdelete
    cases hok
    rw [insertGeos_other h hid]
    simp only [geoRows, deleteGeos, Table.restrict, List.filter_filter]
    refine List.filter_congr fun g _ => ?_
    by_cases hg : g.linkId = id <;> simp [hg, hid]

/-- Replacing the geo targets of one link leaves every other row alone. -/
theorem untouched_replaceGeoTargets {io : Script} {linkId : ℤ} {n : ℕ} {tx tx' : Database}
    {targets : List GeoTarget} (h : replaceGeoTargets io n tx linkId targets = .ok tx')
    {r : LinkRow} (hr : r ∈ tx.links.rows) (hne : r.id ≠ linkId) : Untouched tx tx' r := by
  exact ⟨by rw [(replaceGeoTargets_frame h).1]; exact hr, replaceGeoTargets_other h hne⟩

/-- A transaction names live links that the user manages and leaves the others alone. -/
structure Writes (u : User) (ids : List ℤ) (before after : Database) : Prop where
  targets : ∀ id ∈ ids, ∃ r ∈ before.links.rows, r.id = id ∧ r.deletedAt = none ∧ Manage u r
  frame : ∀ r ∈ before.links.rows, r.id ∉ ids → Untouched before after r

theorem writes_createLinkTx {io : Script} {tx tx' : Database} {id : ℤ} {u : User} {link : Link}
    {hash : Str} (h : createLinkTx io tx id u link hash = .ok tx') : Writes u [] tx tx' := by
  refine ⟨by simp, fun r hr _ => ?_⟩
  unfold createLinkTx at h
  split at h
  · dsimp only at h
    split at h
    · cases h
    · rename_i tx₁ hcall
      have hinsert := call_ok hcall
      split at hinsert
      · cases hinsert
      · rename_i links hins
        cases hinsert
        obtain ⟨hfresh, hrows⟩ := Table.insert_eq_some.mp hins
        have hone : Untouched tx { tx with links := links } r :=
          ⟨by rw [hrows]; exact List.mem_append_left _ hr, rfl⟩
        exact hone.trans (untouched_replaceGeoTargets h hone.1 fun heq => hfresh r hr (Or.inl heq))
  · cases h

theorem untouched_importLink {io : Script} {n : ℕ} {tx tx' : Database} {id : ℤ} {u : User}
    {link : Link} (h : importLink io n tx id u link = .ok tx') {r : LinkRow}
    (hr : r ∈ tx.links.rows) : Untouched tx tx' r := by
  unfold importLink at h
  split at h
  · dsimp only at h
    split at h
    · cases h
    · rename_i tx₁ hcall
      have hinsert := call_ok hcall
      split at hinsert
      · cases hinsert
      · rename_i links hins
        cases hinsert
        obtain ⟨hfresh, hrows⟩ := Table.insert_eq_some.mp hins
        have hother := insertGeos_other h fun heq => hfresh r hr (Or.inl heq)
        refine ⟨?_, hother⟩
        rw [(insertGeos_frame h).1, hrows]
        exact List.mem_append_left _ hr
  · cases h

theorem untouched_importEach {io : Script} {u : User} {n : ℕ} {id : ℤ} {tx tx' : Database}
    {links : List Link} (h : importEach io u n id tx links = .ok tx') {r : LinkRow}
    (hr : r ∈ tx.links.rows) : Untouched tx tx' r := by
  induction links generalizing n id tx with
  | nil =>
    cases h
    exact .of_same rfl rfl hr
  | cons link rest ih =>
    unfold importEach at h
    split at h
    · cases h
    · rename_i tx₁ hone
      have hfirst := untouched_importLink hone hr
      exact hfirst.trans (ih h hfirst.1)

theorem writes_createLinksBulkTx {io : Script} {tx tx' : Database} {id : ℤ} {u : User}
    {links : List Link} (h : createLinksBulkTx io tx id u links = .ok tx') :
    Writes u [] tx tx' := by
  refine ⟨by simp, fun r hr _ => ?_⟩
  unfold createLinksBulkTx at h
  split at h
  · cases h
  · exact untouched_importEach h hr

theorem mem_affected {db : Database} {p : LinkRow → Bool} (h : 0 < db.links.affected p) :
    ∃ r ∈ db.links.rows, p r = true := List.countP_pos_iff.mp h

theorem liveInScope_manage {u : User} {scope : LinkRow → Bool} {id : ℤ} {r : LinkRow}
    (h : addLinkManageScope u = .ok scope) :
    liveInScope id scope r = true ↔ r.id = id ∧ r.deletedAt = none ∧ Manage u r := by
  simp only [liveInScope, Bool.and_eq_true, decide_eq_true_eq, Option.isNone_iff_eq_none,
    manage_of_scope h]

theorem liveAmong_manage {u : User} {scope : LinkRow → Bool} {ids : List ℤ} {r : LinkRow}
    (h : addLinkManageScope u = .ok scope) :
    liveAmong ids scope r = true ↔ r.deletedAt = none ∧ r.id ∈ ids ∧ Manage u r := by
  simp only [liveAmong, Bool.and_eq_true, Option.isNone_iff_eq_none, manage_of_scope h,
    List.contains_iff_mem]

theorem writes_updateLinkTx {io : Script} {tx tx' : Database} {u : User} {id : ℤ} {link : Link}
    {password : Option Str} (h : updateLinkTx io tx u id link password = .ok tx') :
    Writes u [id] tx tx' := by
  unfold updateLinkTx at h
  split at h
  · cases h
  rename_i scope hscope
  split at h
  · cases h
  rename_i hlock
  have hfound := call_ok hlock
  split at hfound
  · cases hfound
  rename_i hne
  split at h
  · cases h
  rename_i columns hcolumns
  split at h
  · cases h
  rename_i tx₁ hwrite
  have hassign := call_ok hwrite
  cases hassign
  constructor
  · intro i hi
    obtain rfl := List.mem_singleton.mp hi
    obtain ⟨r, hr, hp⟩ := mem_affected (Nat.pos_of_ne_zero hne)
    exact ⟨r, hr, (liveInScope_manage hscope).mp hp⟩
  · intro r hr hother
    have hid : r.id ≠ id := by simpa using hother
    have hone : Untouched tx (assignWhere tx (liveInScope id scope) columns password none) r :=
      untouched_assignWhere hr fun hp => hid ((liveInScope_manage hscope).mp hp).1
    exact hone.trans (untouched_replaceGeoTargets h hone.1 hid)

theorem untouched_updateEach {io : Script} {n : ℕ} {tx tx' : Database}
    {updates : List LinkUpdate} (h : updateEach io n tx updates = .ok tx') {r : LinkRow}
    (hr : r ∈ tx.links.rows) (hother : r.id ∉ updates.map LinkUpdate.id) :
    Untouched tx tx' r := by
  induction updates generalizing n tx with
  | nil =>
    cases h
    exact .of_same rfl rfl hr
  | cons update rest ih =>
    rw [List.map_cons, List.mem_cons, not_or] at hother
    unfold updateEach at h
    split at h
    · cases h
    dsimp only at h
    split at h
    · cases h
    rename_i tx₁ hwrite
    have hassign := call_ok hwrite
    split at h
    · cases h
    rename_i tx₂ hgeo
    have hone : Untouched tx tx₁ r := by
      cases hassign
      exact untouched_assignWhere hr (by simpa using hother.1)
    have htwo := hone.trans (untouched_replaceGeoTargets hgeo hone.1 hother.1)
    exact htwo.trans (ih h htwo.1 hother.2)

/-- A statement that affects as many rows as it names ids has found every one of them. -/
theorem all_among {db : Database} {u : User} {scope : LinkRow → Bool} {ids : List ℤ}
    (hscope : addLinkManageScope u = .ok scope)
    (h : db.links.affected (liveAmong ids scope) = ids.length) :
    ids.Nodup ∧
      ∀ id ∈ ids, ∃ r ∈ db.links.rows, r.id = id ∧ r.deletedAt = none ∧ Manage u r := by
  have hperm := Table.perm_of_affected LinkRow.id (fun a b => Or.inl)
    (fun r hp => ((liveAmong_manage hscope).mp hp).2.1) h
  constructor
  · refine hperm.nodup_iff.mp ?_
    rw [List.Nodup, List.pairwise_map]
    exact (db.links.distinct.filter _).imp fun hab heq => hab (Or.inl heq)
  · intro id hid
    obtain ⟨r, hr, rfl⟩ := List.mem_map.mp (hperm.mem_iff.mpr hid)
    obtain ⟨hrow, hp⟩ := List.mem_filter.mp hr
    obtain ⟨hlive, -, hmanage⟩ := (liveAmong_manage hscope).mp hp
    exact ⟨r, hrow, rfl, hlive, hmanage⟩

theorem writes_updateLinksBulkTx {io : Script} {tx tx' : Database} {u : User}
    {updates : List LinkUpdate} (h : updateLinksBulkTx io tx u updates = .ok tx') :
    Writes u (updates.map LinkUpdate.id) tx tx' := by
  unfold updateLinksBulkTx at h
  split at h
  · cases h
  rename_i scope hscope
  split at h
  · cases h
  rename_i hlock
  have hfound := call_ok hlock
  split at hfound
  · rename_i hcount
    split at h
    · cases h
    · have hcount' : tx.links.affected (liveAmong (updates.map LinkUpdate.id) scope) =
          (updates.map LinkUpdate.id).length := by
        rw [List.length_map]
        exact hcount
      exact ⟨(all_among hscope hcount').2, fun r hr hother => untouched_updateEach h hr hother⟩
  · cases hfound

/-- The links and geo targets of two databases are the same. -/
def SameLinks (before after : Database) : Prop :=
  after.links = before.links ∧ after.geoTargets = before.geoTargets

theorem Writes.of_drawn {u : User} {ids : List ℤ} {db after : Database} {next : ℤ}
    (h : Writes u ids { db with nextLinkId := next } after) : Writes u ids db after :=
  ⟨h.targets, h.frame⟩

theorem sameLinks_deleteWhere {db : Database} {p : LinkRow → Bool} {now : Time}
    (h : db.links.affected p = 0) : SameLinks db (deleteWhere db p now) :=
  ⟨@Table.update_of_none _ _ _ p _ (keeps_markDeleted now) h, rfl⟩

theorem writes_deleteLink {io : Script} {db : Database} {u : User} {id : ℤ} :
    (SameLinks db (LinkStore.deleteLink io db u id).2 ∨
        Writes u [id] db (LinkStore.deleteLink io db u id).2) ∧
      ((LinkStore.deleteLink io db u id).1 = none →
        Writes u [id] db (LinkStore.deleteLink io db u id).2) := by
  unfold LinkStore.deleteLink
  split
  · exact ⟨Or.inl ⟨rfl, rfl⟩, fun h => by cases h⟩
  rename_i scope hscope
  split
  · exact ⟨Or.inl ⟨rfl, rfl⟩, fun h => by cases h⟩
  dsimp only
  generalize (timestamptz (io.now 0)).getD (io.now 0) = now
  have hwrites (hpos : db.links.affected (liveInScope id scope) ≠ 0) :
      Writes u [id] db (deleteWhere db (liveInScope id scope) now) := by
    constructor
    · intro i hi
      obtain rfl := List.mem_singleton.mp hi
      obtain ⟨r, hr, hp⟩ := mem_affected (Nat.pos_of_ne_zero hpos)
      exact ⟨r, hr, (liveInScope_manage hscope).mp hp⟩
    · intro r hr hother
      refine untouched_deleteWhere hr fun hp => hother ?_
      exact List.mem_singleton.mpr ((liveInScope_manage hscope).mp hp).1
  have hall : SameLinks db (deleteWhere db (liveInScope id scope) now) ∨
      Writes u [id] db (deleteWhere db (liveInScope id scope) now) := by
    by_cases hzero : db.links.affected (liveInScope id scope) = 0
    · exact Or.inl (sameLinks_deleteWhere hzero)
    · exact Or.inr (hwrites hzero)
  have hstate := commitTx_state io db (deleteWhere db (liveInScope id scope) now)
  split <;> rename_i hcommit <;> rw [hcommit] at hstate
  · refine ⟨?_, fun h => by cases h⟩
    rcases hstate with heq | heq <;> dsimp only at heq ⊢ <;> rw [heq]
    · exact hall
    · exact Or.inl ⟨rfl, rfl⟩
  · have hafter := (commitTx_none (congrArg Prod.fst hcommit)).1
    rw [hcommit] at hafter
    dsimp only at hafter ⊢
    rw [hafter]
    refine ⟨hall, fun h => hwrites fun hzero => ?_⟩
    rw [if_pos hzero] at h
    cases h

theorem Writes.refl (u : User) (db : Database) : Writes u [] db db :=
  ⟨by simp, fun _ hr _ => .of_same rfl rfl hr⟩

/-- A call answers at once, without writing, or runs one transaction. -/
inductive Shape (io : Script) (db : Database) (u : User) (ids : List ℤ) :
    Option Err × Database → Prop where
  | refused (e : Err) : Shape io db u ids (some e, db)
  | idle (h : ids = []) : Shape io db u ids (none, db)
  | transaction (drawn : Database) (body : Except Err Database) (same : SameLinks db drawn)
      (writes : ∀ tx, body = .ok tx → Writes u ids db tx) : Shape io db u ids (inTx io drawn body)

theorem shape_deleteLinksBulk (io : Script) (db : Database) (u : User) (ids : List ℤ) :
    Shape io db u ids (deleteLinksBulk io db u ids) := by
  unfold deleteLinksBulk
  split
  · rename_i hids
    exact .idle hids
  split
  · exact .refused _
  rename_i scope hscope
  refine .transaction _ _ ⟨rfl, rfl⟩ fun tx hbody => ?_
  have hok := call_ok hbody
  split at hok
  · rename_i hcount
    cases hok
    refine ⟨(all_among hscope hcount).2, fun r hr hother => untouched_deleteWhere hr fun hp => ?_⟩
    exact hother ((liveAmong_manage hscope).mp hp).2.1
  · cases hok

theorem Call.shape (c : Call) (io : Script) (db : Database) (u : User)
    (hc : ∀ id, c ≠ .deleteLink id) : Shape io db u c.targets (c.write io db u) := by
  cases c with
  | createLink random link hash =>
    simp only [Call.write, Call.targets, createLinkWrite]
    split
    · exact .refused _
    split
    · exact .refused _
    · exact .transaction _ _ ⟨rfl, rfl⟩ fun tx hbody => (writes_createLinkTx hbody).of_drawn
  | createLinksBulk randoms links =>
    simp only [Call.write, Call.targets, createLinksBulkWrite]
    split
    · exact .idle rfl
    split
    · exact .refused _
    · exact .transaction _ _ ⟨rfl, rfl⟩ fun tx hbody => (writes_createLinksBulkTx hbody).of_drawn
  | updateLink id link hash changed =>
    simp only [Call.write, Call.targets, updateLinkWrite]
    split
    · exact .refused _
    · exact .transaction _ _ ⟨rfl, rfl⟩ fun tx hbody => writes_updateLinkTx hbody
  | updateLinksBulk updates =>
    simp only [Call.write, Call.targets, updateLinksBulkWrite]
    split
    · rename_i hnil
      exact .idle (by rw [hnil, List.map_nil])
    split
    · exact .refused _
    · exact .transaction _ _ ⟨rfl, rfl⟩ fun tx hbody => writes_updateLinksBulkTx hbody
  | deleteLink id => exact absurd rfl (hc id)
  | deleteLinksBulk ids => exact shape_deleteLinksBulk io db u ids

/-- A call either leaves links and geo targets as they were or names live links of the
user's and leaves all others alone; the latter whenever it succeeds. -/
theorem Call.writes (c : Call) (io : Script) (db : Database) (u : User) :
    (SameLinks db (c.write io db u).2 ∨ Writes u c.targets db (c.write io db u).2) ∧
      ((c.write io db u).1 = none → Writes u c.targets db (c.write io db u).2) := by
  by_cases hc : ∃ id, c = .deleteLink id
  · obtain ⟨id, rfl⟩ := hc
    exact writes_deleteLink
  · have hshape := c.shape io db u fun id h => hc ⟨id, h⟩
    generalize c.write io db u = out at hshape
    cases hshape with
    | refused e => exact ⟨Or.inl ⟨rfl, rfl⟩, fun h => by cases h⟩
    | idle hids =>
      rw [hids]
      exact ⟨Or.inl ⟨rfl, rfl⟩, fun _ => .refl u db⟩
    | transaction drawn body same writes =>
      constructor
      · rcases inTx_state io drawn body with heq | ⟨tx, hbody, heq⟩
        · exact Or.inl (by rw [heq]; exact same)
        · exact Or.inr (by rw [heq]; exact writes tx hbody)
      · intro hnone
        exact writes _ (inTx_none hnone)

theorem write_of_run {c : Call} {io after : Script} {db : Database} {u : User}
    {links : List Link} (h : (c.run io after db u).1 = .ok links) :
    (c.write io db u).1 = none := by
  unfold Call.run at h
  split at h
  · cases h
  · rename_i hwrite
    rw [hwrite]

/-- The whole scope of a call: a row its user does not manage stays as it is. -/
theorem Call.untouched (c : Call) (io : Script) (db : Database) (u : User) {r : LinkRow}
    (hr : r ∈ db.links.rows) (h : ¬ Manage u r) : Untouched db (c.write io db u).2 r := by
  rcases (c.writes io db u).1 with hsame | hwrites
  · exact .of_same hsame.1 hsame.2 hr
  · refine hwrites.frame r hr fun hid => h ?_
    obtain ⟨r', hr', hid', -, hmanage⟩ := hwrites.targets r.id hid
    obtain rfl := db.links.eq_of_clash linkClash_symm hr' hr (Or.inl hid')
    exact hmanage

/-- What each read finds, what each write needs and what no write touches, for the effective
user of any request. -/
theorem link_scoping_exact (actual : User) (requestedMode authType : Str)
    (hplaced : Placed actual) (db : Database) :
    let u := (effectivePrincipal actual requestedMode authType).effective
    (∀ io : Script, io.Healthy → ∀ cursor : ℤ, ∃ found : List LinkRow,
      (∀ r, r ∈ found ↔ r ∈ db.links.rows ∧ r.deletedAt = none ∧ View u r ∧
        (0 < cursor → r.id < cursor)) ∧
      (found.Pairwise fun a b => b.id < a.id) ∧
      ∀ limit, listLinks io db u limit cursor =
        .ok ((limited limit found).map fun r => hydrateLink db (scanLink r))) ∧
    (∀ io : Script, io.Healthy → ∀ id, (∃ link, linkByID io db u id = .ok link) ↔
      ∃ r ∈ db.links.rows, r.id = id ∧ r.deletedAt = none ∧ View u r) ∧
    (∀ io : Script, io.Healthy → ∀ ids, (∃ links, linksByIDs io db u ids = .ok links) ↔
      ∀ id ∈ ids, ∃ r ∈ db.links.rows, r.id = id ∧ r.deletedAt = none ∧ View u r) ∧
    (∀ (io after : Script) (c : Call) links, (c.run io after db u).1 = .ok links →
      ∀ id ∈ c.targets, ∃ r ∈ db.links.rows, r.id = id ∧ r.deletedAt = none ∧ Manage u r) ∧
    (∀ (io after : Script) (c : Call), ∀ r ∈ db.links.rows, ¬ Manage u r →
      Untouched db (c.run io after db u).2 r) ∧
    (∀ r : LinkRow, Manage u r → View u r) := by
  intro u
  have hu : Placed u := placed_effective requestedMode authType hplaced
  refine ⟨fun io hio cursor => ?_, fun io hio id => ?_, fun io hio ids => ?_,
    fun io after c links hrun id hid => ?_, fun io after c r hr hmanage => ?_,
    fun r => manage_view⟩
  · obtain ⟨scope, hscope, -⟩ := viewScope_eq hu
    exact ⟨listed db scope cursor, fun r => mem_listed hscope, listed_descending db scope cursor,
      fun limit => listLinks_healthy hio hscope limit cursor⟩
  · rw [linkByID_ok_iff]
    exact ⟨fun h => h.2.2.2, fun h => ⟨hu, hio.2.1 0, hio.2.1 1, h⟩⟩
  · rw [linksByIDs_ok_iff]
    constructor
    · rintro (rfl | h)
      · simp
      · exact h.2.2.2
    · intro h
      exact Or.inr ⟨hu, firstFailure_healthy hio _ _, firstFailure_healthy hio _ _, h⟩
  · exact ((c.writes io db u).2 (write_of_run hrun)).targets id hid
  · rw [run_database]
    exact c.untouched io db u hr hmanage

/-- A colleague neither reads nor deletes a private link. -/
theorem link_scoping_exact_colleague :
    let db := Database.single sampleLink
    let u := (effectivePrincipal ⟨2, some 1, .tenant⟩ (lit "user") (lit "session")).effective
    (¬ ∃ link, linkByID {} db u 1 = .ok link) ∧
      Untouched db ((Call.deleteLink 1).run {} {} db u).2 sampleLink := by
  have h := link_scoping_exact ⟨2, some 1, .tenant⟩ (lit "user") (lit "session") (fun _ => rfl)
    (Database.single sampleLink)
  obtain ⟨-, hread, -, -, hwrite, -⟩ := h
  have hrole : (effectivePrincipal ⟨2, some 1, .tenant⟩ (lit "user") (lit "session")).effective =
      ⟨2, some 1, .customer⟩ := by decide
  rw [hrole] at hread hwrite ⊢
  constructor
  · rw [hread {} ⟨rfl, fun _ => rfl, rfl, rfl⟩ 1]
    rintro ⟨r, hr, -, -, hview⟩
    obtain rfl := List.mem_singleton.mp hr
    revert hview
    simp [View, sampleLink]
    decide
  · refine hwrite {} {} (.deleteLink 1) sampleLink (List.mem_singleton_self _) ?_
    simp [Manage, sampleLink]

end LinkCalls
