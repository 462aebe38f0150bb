import ShortQ.LabelledRuns
import ShortQ.LinkWrites
import ShortQ.SlugHistory

/-! # Reads of links among commits

A read queries the rows first and the geo targets of 500 links at a time afterwards. Every
query sees what is committed at its own moment, and transactions commit in between. -/
namespace LinkReads

open GoText (Str lit)
open LabelledRuns
open Models
open RowTable
open Schema
open Transaction
open LinkStore
open LinkScopes
open LinkCalls
open LinkWrites
open SlugHistory

inductive Read where
  | linkBySlug (slug : Str)
  | linkByID (u : User) (id : ℤ)
  | listLinks (u : User) (limit cursor : ℤ)

def oneRow : Option LinkRow → Except Err (List LinkRow)
  | none => .error .noRows
  | some r => .ok [r]

/-- The row query. -/
def Read.rows (db : Database) : Read → Except Err (List LinkRow)
  | .linkBySlug slug => oneRow (db.links.find fun r => r.slug = slug && r.deletedAt.isNone)
  | .linkByID u id =>
    match addLinkViewScope u false with
    | .error e => .error e
    | .ok scope =>
      oneRow (db.links.find fun r => r.id = id && (r.deletedAt.isNone && scope r))
  | .listLinks u limit cursor =>
    match addLinkViewScope u false with
    | .error e => .error e
    | .ok scope => .ok (limited limit (listed db scope cursor))

/-- A list for these roles names the creators at the end. -/
def Read.creators : Read → Bool
  | .listLinks u _ _ => u.role = .superadmin || u.role = .tenant
  | _ => false

/-- `hydrating` holds the links that have their geo targets and those that wait for theirs. -/
inductive Phase where
  | idle
  | hydrating (read : Read) (hydrated waiting : List Link)
  | naming (links : List Link)
  | returned (result : Except Err (List Link))

structure System where
  db : Database
  phase : ℕ → Phase

inductive Event where
  | rows (r : ℕ) (read : Read) (failure : Option Str)
  | geoTargets (r : ℕ) (failure : Option Str)
  | creators (r : ℕ) (failure : Option Str)
  | write (io : Script) (u : User) (c : Call)

/-- What follows once these links have their geo targets. -/
def settle (read : Read) (hydrated : List Link) : List Link → Phase
  | [] => if read.creators then .naming hydrated else .returned (.ok hydrated)
  | waiting => .hydrating read hydrated waiting

def Phase.afterRows (read : Read) : Except Err (List LinkRow) → Phase
  | .error e => .returned (.error e)
  | .ok rows => settle read [] (rows.map scanLink)

def next (s : System) : Event → Option System
  | .rows r read failure =>
    match s.phase r with
    | .idle => some { s with phase := Function.update s.phase r (match failure with
        | some text => .returned (.error (.database text))
        | none => .afterRows read (read.rows s.db)) }
    | _ => none
  | .geoTargets r failure =>
    match s.phase r with
    | .hydrating read hydrated waiting =>
      some { s with phase := Function.update s.phase r (match failure with
        | some text => .returned (.error (.database text))
        | none => settle read (hydrated ++ (waiting.take 500).map (hydrateLink s.db))
            (waiting.drop 500)) }
    | _ => none
  | .creators r failure =>
    match s.phase r with
    | .naming links => some { s with phase := Function.update s.phase r (match failure with
        | some text => .returned (.error (.database text))
        | none => .returned (.ok links)) }
    | _ => none
  | .write io u c => some { s with db := (c.write io s.db u).2 }

/-- The call is an update that names the link. -/
def edits (id : ℤ) : Call → Bool
  | .updateLink target .. => target = id
  | .updateLinksBulk updates => (updates.map LinkUpdate.id).contains id
  | _ => false

def Event.edits (id : ℤ) : Event → Bool
  | .write _ _ c => LinkReads.edits id c
  | _ => false

/-! ## The row query -/

/-- With nothing in between the queries give what the calls return. -/
theorem rows_linkBySlug (db : Database) (slug : Str) :
    (linkBySlug {} db slug).map (fun link => [link]) =
      ((Read.linkBySlug slug).rows db).map fun rows =>
        rows.map fun r => hydrateLink db (scanLink r) := by
  simp only [linkBySlug, readLink, Script.call, Read.rows]
  cases db.links.find fun r => r.slug = slug && r.deletedAt.isNone <;> rfl

theorem rows_linkByID (db : Database) (u : User) (id : ℤ) :
    (linkByID {} db u id).map (fun link => [link]) =
      ((Read.linkByID u id).rows db).map fun rows =>
        rows.map fun r => hydrateLink db (scanLink r) := by
  simp only [linkByID, readLink, Script.call, Read.rows]
  cases addLinkViewScope u false with
  | error e => rfl
  | ok scope =>
    dsimp only
    cases db.links.find fun r => r.id = id && (r.deletedAt.isNone && scope r) <;> rfl

theorem rows_listLinks (db : Database) (u : User) (limit cursor : ℤ) :
    listLinks {} db u limit cursor =
      ((Read.listLinks u limit cursor).rows db).map fun rows =>
        rows.map fun r => hydrateLink db (scanLink r) := by
  cases hscope : addLinkViewScope u false with
  | error e => simp [listLinks, Read.rows, hscope, Except.map]
  | ok scope =>
    have hhealthy : Script.Healthy {} := ⟨rfl, fun _ => rfl, rfl, rfl⟩
    rw [listLinks_healthy hhealthy hscope]
    simp [Read.rows, hscope, Except.map]

theorem mem_of_oneRow {found : Option LinkRow} {rows : List LinkRow} {row : LinkRow}
    (h : oneRow found = .ok rows) (hrow : row ∈ rows) : found = some row := by
  cases found with
  | none => cases h
  | some r =>
    cases h
    rw [List.mem_singleton.mp hrow]

theorem mem_of_rows {read : Read} {db : Database} {rows : List LinkRow} {row : LinkRow}
    (h : read.rows db = .ok rows) (hrow : row ∈ rows) : row ∈ db.links.rows := by
  cases read with
  | linkBySlug slug => exact List.mem_of_find?_eq_some (mem_of_oneRow h hrow)
  | linkByID u id =>
    simp only [Read.rows] at h
    split at h
    · cases h
    · exact List.mem_of_find?_eq_some (mem_of_oneRow h hrow)
  | listLinks u limit cursor =>
    simp only [Read.rows] at h
    split at h
    · cases h
    · rename_i scope _
      cases h
      have hlisted : row ∈ listed db scope cursor := by
        unfold limited at hrow
        split at hrow
        · exact List.mem_of_mem_take hrow
        · exact hrow
      exact List.mem_of_mem_filter ((List.mem_mergeSort).mp hlisted)

/-! ## Commits that leave the geo targets of a link alone -/

theorem geoRows_untargeted {io : Script} {db : Database} {u : User} {c : Call} {row : LinkRow}
    (hrow : row ∈ db.links.rows) (hc : row.id ∉ c.targets) :
    geoRows (c.write io db u).2 row.id = geoRows db row.id := by
  rcases (c.writes io db u).1 with hsame | hwrites
  · exact geoRows_congr hsame.2 row.id
  · exact (hwrites.frame row hrow hc).2

theorem geoRows_write {io : Script} {db : Database} {u : User} {c : Call} {row : LinkRow}
    (hrow : row ∈ db.links.rows) (hc : edits row.id c = false) :
    geoRows (c.write io db u).2 row.id = geoRows db row.id := by
  cases c with
  | createLink random link hash => exact geoRows_untargeted hrow (by simp [Call.targets])
  | createLinksBulk randoms links => exact geoRows_untargeted hrow (by simp [Call.targets])
  | updateLink id link hash changed =>
    refine geoRows_untargeted hrow ?_
    simpa [Call.targets, edits, eq_comm] using hc
  | updateLinksBulk updates =>
    refine geoRows_untargeted hrow ?_
    simpa [Call.targets, edits] using hc
  | deleteLink id =>
    rcases deleteLink_state io db u id with heq | ⟨p, now, heq⟩
    · rw [Call.write, heq]
    · rw [Call.write, heq]
      rfl
  | deleteLinksBulk ids =>
    rcases deleteLinksBulk_state io db u ids with heq | ⟨p, now, heq⟩
    · rw [Call.write, heq]
    · rw [Call.write, heq]
      rfl

/-- The link is still there and its geo targets are what they were. -/
def Kept (before after : Database) (id : ℤ) : Prop :=
  (∃ r ∈ after.links.rows, r.id = id) ∧ geoTargetsOf after id = geoTargetsOf before id

theorem kept_step {before : Database} {s t : System} {e : Event} {id : ℤ}
    (h : Kept before s.db id) (he : e.edits id = false) (hnext : next s e = some t) :
    Kept before t.db id := by
  cases e with
  | rows r read failure =>
    simp only [next] at hnext
    split at hnext
    · cases hnext
      exact h
    · cases hnext
  | geoTargets r failure =>
    simp only [next] at hnext
    split at hnext
    · cases hnext
      exact h
    · cases hnext
  | creators r failure =>
    simp only [next] at hnext
    split at hnext
    · cases hnext
      exact h
    · cases hnext
  | write io u c =>
    cases hnext
    obtain ⟨⟨row, hrow, rfl⟩, hgeo⟩ := h
    constructor
    · obtain ⟨row', hrow', hid, -⟩ := evolves_write io s.db u c row hrow
      exact ⟨row', hrow', hid⟩
    · rw [← hgeo, geoTargetsOf_eq, geoTargetsOf_eq, geoRows_write hrow he]

/-- Between the queries of a read no commit names the link. -/
theorem geoTargets_kept {s t : System} {es : List Event} {row : LinkRow}
    (h : Execution next s es t) (hrow : row ∈ s.db.links.rows)
    (hes : ∀ e ∈ es, e.edits row.id = false) :
    geoTargetsOf t.db row.id = geoTargetsOf s.db row.id := by
  have hkept : Kept s.db t.db row.id := by
    refine h.invariant_of (I := fun u => Kept s.db u.db row.id)
      (P := fun _ e => e.edits row.id = false) ⟨⟨row, hrow, rfl⟩, rfl⟩ ?_ ?_
    · intro u e v hu he hstep
      exact kept_step hu he hstep
    · intro xs e ys u heq _
      exact hes e (by simp [heq])
  exact hkept.2

/-! ## What a read returns -/

/-- The settings are those of the database that the row query saw. -/
def Queried (start : System) (r : ℕ) (es : List Event) (s : System) (link : Link) : Prop :=
  ∃ xs read ys u v row, es = xs ++ Event.rows r read none :: ys ∧ Execution next start xs u ∧
    next u (.rows r read none) = some v ∧ Execution next v ys s ∧ row ∈ u.db.links.rows ∧
      link = scanLink row

/-- The geo targets are those of the database that a later query saw. -/
def Hydrated (start : System) (r : ℕ) (es : List Event) (link : Link) : Prop :=
  ∃ xs read ys zs u v w row, es = xs ++ Event.rows r read none :: ys ++ .geoTargets r none :: zs ∧
    Execution next start xs u ∧ next u (.rows r read none) = some v ∧ Execution next v ys w ∧
      row ∈ u.db.links.rows ∧ link = hydrateLink w.db (scanLink row)

/-- What is known of a read in each phase. -/
inductive Traced (start : System) (r : ℕ) (es : List Event) (s : System) : Phase → Prop where
  | idle : Traced start r es s .idle
  | failed (e) : Traced start r es s (.returned (.error e))
  | hydrating {read hydrated waiting} : (∀ link ∈ hydrated, Hydrated start r es link) →
      (∀ link ∈ waiting, Queried start r es s link) →
      Traced start r es s (.hydrating read hydrated waiting)
  | naming {links} : (∀ link ∈ links, Hydrated start r es link) →
      Traced start r es s (.naming links)
  | returned {links} : (∀ link ∈ links, Hydrated start r es link) →
      Traced start r es s (.returned (.ok links))

theorem Queried.step {start s t : System} {r : ℕ} {es : List Event} {e : Event} {link : Link}
    (h : Queried start r es s link) (hnext : next s e = some t) :
    Queried start r (es ++ [e]) t link := by
  obtain ⟨xs, read, ys, u, v, row, rfl, hxs, hrows, hys, hrow, hlink⟩ := h
  exact ⟨xs, read, ys ++ [e], u, v, row, by simp, hxs, hrows, .tail hys hnext, hrow, hlink⟩

theorem Hydrated.step {start : System} {r : ℕ} {es : List Event} {link : Link}
    (h : Hydrated start r es link) (e : Event) : Hydrated start r (es ++ [e]) link := by
  obtain ⟨xs, read, ys, zs, u, v, w, row, rfl, hsteps⟩ := h
  exact ⟨xs, read, ys, zs ++ [e], u, v, w, row, by simp, hsteps⟩

theorem Queried.hydrate {start s : System} {r : ℕ} {es : List Event} {link : Link}
    (h : Queried start r es s link) :
    Hydrated start r (es ++ [.geoTargets r none]) (hydrateLink s.db link) := by
  obtain ⟨xs, read, ys, u, v, row, rfl, hxs, hrows, hys, hrow, rfl⟩ := h
  exact ⟨xs, read, ys, [], u, v, s, row, by simp, hxs, hrows, hys, hrow, rfl⟩

theorem Traced.step {start s t : System} {r : ℕ} {es : List Event} {e : Event} {p : Phase}
    (h : Traced start r es s p) (hnext : next s e = some t) :
    Traced start r (es ++ [e]) t p := by
  cases h with
  | idle => exact .idle
  | failed err => exact .failed err
  | hydrating hdone hwaiting =>
    exact .hydrating (fun link hl => (hdone link hl).step e)
      fun link hl => (hwaiting link hl).step hnext
  | naming hlinks => exact .naming fun link hl => (hlinks link hl).step e
  | returned hlinks => exact .returned fun link hl => (hlinks link hl).step e

theorem traced_settle {start s : System} {r : ℕ} {es : List Event} {read : Read}
    {hydrated waiting : List Link} (hdone : ∀ link ∈ hydrated, Hydrated start r es link)
    (hwaiting : ∀ link ∈ waiting, Queried start r es s link) :
    Traced start r es s (settle read hydrated waiting) := by
  unfold settle
  split
  · split
    · exact .naming hdone
    · exact .returned hdone
  · exact .hydrating hdone hwaiting

/-- One step traces every read. -/
theorem traced_next {start s t : System} {es : List Event} {e : Event}
    (hrun : Execution next start es s) (h : ∀ r, Traced start r es s (s.phase r))
    (hnext : next s e = some t) (r : ℕ) : Traced start r (es ++ [e]) t (t.phase r) := by
  have hother := (h r).step hnext
  cases e with
  | rows r' read failure =>
    have hstep := hnext
    simp only [next] at hnext
    split at hnext
    case h_2 => cases hnext
    cases hnext
    by_cases hr : r = r'
    case neg => simpa only [Function.update_of_ne hr] using hother
    subst hr
    simp only [Function.update_self]
    cases failure with
    | some text => exact .failed _
    | none =>
      dsimp only
      cases hread : read.rows s.db with
      | error err => exact .failed err
      | ok rows =>
        refine traced_settle (by simp) fun link hlink => ?_
        obtain ⟨row, hrow, rfl⟩ := List.mem_map.mp hlink
        refine ⟨es, read, [], s, _, row, rfl, hrun, hstep, ?_, mem_of_rows hread hrow, rfl⟩
        simp only [hread]
        exact .refl _
  | geoTargets r' failure =>
    have hstep := hnext
    simp only [next] at hnext
    split at hnext
    case h_2 => cases hnext
    rename_i read hydrated waiting hphase
    cases hnext
    by_cases hr : r = r'
    case neg => simpa only [Function.update_of_ne hr] using hother
    subst hr
    simp only [Function.update_self]
    cases failure with
    | some text => exact .failed _
    | none =>
      have htraced := h r
      rw [hphase] at htraced
      cases htraced with
      | hydrating hdone hwaiting =>
        refine traced_settle (fun link hlink => ?_) fun link hlink => ?_
        · rcases List.mem_append.mp hlink with hold | hnew
          · exact (hdone link hold).step _
          · obtain ⟨queried, hqueried, rfl⟩ := List.mem_map.mp hnew
            exact (hwaiting queried (List.mem_of_mem_take hqueried)).hydrate
        · exact (hwaiting link (List.mem_of_mem_drop hlink)).step hstep
  | creators r' failure =>
    simp only [next] at hnext
    split at hnext
    case h_2 => cases hnext
    rename_i links hphase
    cases hnext
    by_cases hr : r = r'
    case neg => simpa only [Function.update_of_ne hr] using hother
    subst hr
    simp only [Function.update_self]
    cases failure with
    | some text => exact .failed _
    | none =>
      have htraced := h r
      rw [hphase] at htraced
      cases htraced with
      | naming hlinks => exact .returned fun link hlink => (hlinks link hlink).step _
  | write io u c =>
    cases hnext
    exact hother

/-- A returned link has the settings of one committed state of the link and the geo targets of
the same or a later one, and it is one committed state when no update in between names it. -/
theorem reads_settings_before_geoTargets {start s : System} {es : List Event}
    (h : Execution next start es s) (hidle : ∀ r, start.phase r = .idle) {r : ℕ}
    {links : List Link} (hreturned : s.phase r = .returned (.ok links)) {link : Link}
    (hlink : link ∈ links) :
    ∃ xs read ys zs u v w row, es = xs ++ Event.rows r read none :: ys ++ .geoTargets r none :: zs ∧
      Execution next start xs u ∧ next u (.rows r read none) = some v ∧ Execution next v ys w ∧
        row ∈ u.db.links.rows ∧ link = hydrateLink w.db (scanLink row) ∧
          ((∀ e ∈ ys, e.edits link.id = false) → link = hydrateLink u.db (scanLink row)) := by
  have htraced : Execution next start es s ∧ ∀ r, Traced start r es s (s.phase r) := by
    refine h.induct (I := fun es s => Execution next start es s ∧
      ∀ r, Traced start r es s (s.phase r)) ⟨.refl start, fun r => ?_⟩ ?_
    · rw [hidle r]
      exact .idle
    · intro es u e v hu hstep
      exact ⟨.tail hu.1 hstep, traced_next hu.1 hu.2 hstep⟩
  have hphase := htraced.2 r
  rw [hreturned] at hphase
  cases hphase with
  | returned hlinks =>
    obtain ⟨xs, read, ys, zs, u, v, w, row, hes, hxs, hrows, hys, hrow, rfl⟩ := hlinks link hlink
    refine ⟨xs, read, ys, zs, u, v, w, row, hes, hxs, hrows, hys, hrow, rfl, fun hquiet => ?_⟩
    have hsame : v.db = u.db := by
      simp only [next] at hrows
      split at hrows
      · cases hrows
        rfl
      · cases hrows
    have hgeo := geoTargets_kept hys (hsame ▸ hrow) hquiet
    rw [hsame] at hgeo
    simp only [hydrateLink, scanLink, hgeo]

/-! A list among two versions of a link. -/

def admin : User := ⟨7, none, .superadmin⟩

/-- Moves the link 1 and takes its geo target away. -/
def moving : Call :=
  .updateLink 1
    { slug := lit "docs"
      targetUrl := lit "https://example.org/"
      visibility := lit "private" } [] false

def targeted : Database :=
  { Database.single sampleLink with
    geoTargets := ⟨[⟨1, lit "US", lit "https://us.example.com/"⟩], List.pairwise_singleton _ _⟩ }

def begun : System := ⟨targeted, fun _ => .idle⟩

def tornRun : List Event :=
  [.rows 0 (.linkBySlug (lit "docs")) none, .write {} admin moving, .geoTargets 0 none]

/-- The link has its first target exactly while it has a geo target. -/
def twoVersions (s : System) : Bool :=
  s.db.links.rows.all fun r => r.id = 1 &&
    decide (r.targetUrl = sampleLink.targetUrl) == !(geoRows s.db 1).isEmpty

def waiting (s : System) : Option (List Link) :=
  match s.phase 0 with
  | .hydrating (.linkBySlug _) [] waiting => some waiting
  | _ => none

theorem phase_of_waiting {s : System} {links : List Link} (h : waiting s = some links) :
    ∃ slug, s.phase 0 = .hydrating (.linkBySlug slug) [] links := by
  unfold waiting at h
  split at h
  · rename_i slug waiting hphase
    cases h
    exact ⟨slug, hphase⟩
  · cases h

/-- The only link that waits is answered by the next query. -/
theorem geoTargets_answers {s : System} {link : Link} (h : waiting s = some [link]) :
    next s (.geoTargets 0 none) = some { s with
      phase := Function.update s.phase 0 (.returned (.ok [hydrateLink s.db link])) } := by
  obtain ⟨slug, hphase⟩ := phase_of_waiting h
  simp only [next, hphase]
  rfl

theorem geoTargetsOf_eq_nil {db : Database} {id : ℤ} :
    geoTargetsOf db id = [] ↔ geoRows db id = [] := by
  rw [geoTargetsOf_eq, LinkPayload.byCountry, List.map_eq_nil_iff, ← List.length_eq_zero_iff,
    List.length_mergeSort, List.length_eq_zero_iff]

def quietRun : List Event := [.rows 0 (.linkBySlug (lit "docs")) none, .geoTargets 0 none]

/-- With no commit in between the link is read as it is stored. -/
theorem reads_settings_before_geoTargets_quiet : ∃ s link, Execution next begun quietRun s ∧
    s.phase 0 = .returned (.ok [link]) ∧
      ∃ u : System, ∃ row ∈ u.db.links.rows, link = hydrateLink u.db (scanLink row) := by
  have hrows : (replay next begun (quietRun.take 1)).map waiting =
      some (some [scanLink sampleLink]) := by decide
  obtain ⟨w, hw, hwaiting⟩ := Option.map_eq_some_iff.mp hrows
  have hrun : Execution next begun quietRun _ :=
    .tail (execution_of_replay hw) (geoTargets_answers hwaiting)
  have hreturned := @reads_settings_before_geoTargets _ _ _ hrun (fun _ => rfl) 0
    [hydrateLink w.db (scanLink sampleLink)] (by simp only [Function.update_self]) _
    List.mem_cons_self
  obtain ⟨xs, read, ys, zs, u, v, w', row, heq, hxs, hv, hw', hrow, hlink, hquiet⟩ := hreturned
  refine ⟨_, hydrateLink w.db (scanLink sampleLink), hrun, by simp only [Function.update_self],
    u, row, hrow, hquiet fun e he => ?_⟩
  have hmem : e ∈ quietRun := by
    rw [heq]
    simp [he]
  simp only [quietRun, List.mem_cons, List.not_mem_nil, or_false] at hmem
  rcases hmem with rfl | rfl
  · rfl
  · rfl

/-- The link is returned with its first target and no geo target; no state of it was so. -/
theorem torn_link_returned : ∃ s link, Execution next begun tornRun s ∧
    s.phase 0 = .returned (.ok [link]) ∧
      ∀ xs ys u, tornRun = xs ++ ys → Execution next begun xs u → ∀ row ∈ u.db.links.rows,
        ¬ (row.id = link.id ∧ row.targetUrl = link.targetUrl ∧
          geoTargetsOf u.db row.id = link.geoTargets) := by
  have hfigures : (replay next begun (tornRun.take 2)).map (fun w =>
      (waiting w, (geoRows w.db 1).isEmpty, twoVersions w)) =
        some (some [scanLink sampleLink], true, true) := by decide +kernel
  have hchecks : checks next (fun s _ => twoVersions s) begun tornRun = true := by decide +kernel
  obtain ⟨w, hw, hfigures⟩ := Option.map_eq_some_iff.mp hfigures
  obtain ⟨hwaiting, hfigures⟩ := Prod.mk.inj hfigures
  obtain ⟨hgeo, htwo⟩ := Prod.mk.inj hfigures
  have hrun : Execution next begun tornRun _ :=
    .tail (execution_of_replay hw) (geoTargets_answers hwaiting)
  refine ⟨_, hydrateLink w.db (scanLink sampleLink), hrun, by simp only [Function.update_self],
    ?_⟩
  rintro xs ys u heq hu row hrow ⟨hid, htarget, htargets⟩
  have hversions : twoVersions u = true := by
    cases ys with
    | nil =>
      rw [List.append_nil] at heq
      subst heq
      obtain rfl := Option.some.inj (hu.replay_eq.symm.trans hrun.replay_eq)
      exact htwo
    | cons e ys =>
      rw [heq] at hchecks
      have hlabel := checked_label hchecks hu
      exact hlabel
  have hboth := List.all_eq_true.mp hversions row hrow
  simp only [Bool.and_eq_true, decide_eq_true_eq, beq_iff_eq] at hboth
  have hnone : geoTargetsOf w.db 1 = [] := geoTargetsOf_eq_nil.mpr (List.isEmpty_iff.mp hgeo)
  have hsome : geoRows u.db 1 ≠ [] := by simpa [htarget, hydrateLink, scanLink] using hboth.2
  rw [hboth.1] at htargets
  exact hsome (geoTargetsOf_eq_nil.mp (htargets.trans hnone))

end LinkReads
