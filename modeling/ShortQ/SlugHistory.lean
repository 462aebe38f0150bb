import Mathlib.Data.PEquiv
import ShortQ.LabelledRuns
import ShortQ.LinkWrites

/-! # The links that slugs lead to

No call gives a slug to another link, also when its link is deleted, and a deleted link is
never live again. -/
namespace SlugHistory

open GoText (Str lit)
open LabelledRuns
open Models
open RowTable
open Schema
open Transaction
open LinkStore
open LinkCalls
open LinkWrites

/-- A call of some user, with the failures of its connection. -/
structure Event where
  io : Script
  user : User
  call : Call

def next (db : Database) (e : Event) : Option Database :=
  some (e.call.write e.io db e.user).2

/-- The link that a slug is assigned to, deleted or not. -/
def slugID (db : Database) (slug : Str) : Option ℤ :=
  (db.links.find fun r => r.slug = slug).map LinkRow.id

def slugOf (db : Database) (id : ℤ) : Option Str := (db.link id).map LinkRow.slug

theorem slugID_eq_some {db : Database} {slug : Str} {id : ℤ} :
    slugID db slug = some id ↔ ∃ r ∈ db.links.rows, r.slug = slug ∧ r.id = id := by
  rw [slugID, Option.map_eq_some_iff]
  constructor
  · rintro ⟨r, hr, hid⟩
    exact ⟨r, List.mem_of_find?_eq_some hr, by simpa using List.find?_some hr, hid⟩
  · rintro ⟨r, hr, hslug, hid⟩
    have hsome : (db.links.find fun r => r.slug = slug).isSome :=
      List.find?_isSome.mpr ⟨r, hr, by simpa using hslug⟩
    obtain ⟨r', hr'⟩ := Option.isSome_iff_exists.mp hsome
    have hslug' : r'.slug = slug := by simpa using List.find?_some hr'
    have hclash : linkClash r' r := Or.inr (hslug'.trans hslug.symm)
    rw [db.links.eq_of_clash linkClash_symm (List.mem_of_find?_eq_some hr') hr hclash] at hr'
    exact ⟨r, hr', hid⟩

theorem slugOf_eq_some {db : Database} {slug : Str} {id : ℤ} :
    slugOf db id = some slug ↔ ∃ r ∈ db.links.rows, r.slug = slug ∧ r.id = id := by
  rw [slugOf, Option.map_eq_some_iff]
  constructor
  · rintro ⟨r, hr, hslug⟩
    exact ⟨r, (mem_link hr).1, hslug, (mem_link hr).2⟩
  · rintro ⟨r, hr, hslug, rfl⟩
    exact ⟨r, link_mem hr, hslug⟩

/-- The unique columns make the assignment a partial injection. -/
def slugIDs (db : Database) : Str ≃. ℤ where
  toFun := slugID db
  invFun := slugOf db
  inv _ _ := slugOf_eq_some.trans slugID_eq_some.symm

theorem mem_slugIDs {db : Database} {slug : Str} {id : ℤ} :
    id ∈ slugIDs db slug ↔ ∃ r ∈ db.links.rows, r.slug = slug ∧ r.id = id := slugID_eq_some

def deletedIDs (db : Database) : Set ℤ :=
  {id | ∃ r ∈ db.links.rows, r.id = id ∧ r.deletedAt.isSome}

/-! ## What a call does to the rows -/

/-- A call that names no link keeps every row as it is. -/
theorem evolves_creating {io : Script} {db : Database} {u : User} {c : Call}
    (hc : c.targets = []) : Evolves db (c.write io db u).2 := by
  rcases (c.writes io db u).1 with hsame | hwrites
  · exact .of_links hsame.1
  · intro r hr
    exact ⟨r, (hwrites.frame r hr (by simp [hc])).1, rfl, rfl, id⟩

theorem evolves_deleteWhere (db : Database) (p : LinkRow → Bool) (now : GoTime.Time) :
    Evolves db (deleteWhere db p now) :=
  .of_update (keeps_markDeleted now) rfl fun _ => ⟨rfl, rfl, fun _ => rfl⟩

theorem evolves_deleteLinksBulk (io : Script) (db : Database) (u : User) (ids : List ℤ) :
    Evolves db (LinkCalls.deleteLinksBulk io db u ids).2 := by
  rcases deleteLinksBulk_state io db u ids with heq | ⟨p, now, heq⟩
  · exact .of_links (by rw [heq])
  · rw [heq]
    exact evolves_deleteWhere db p now

theorem evolves_write (io : Script) (db : Database) (u : User) (c : Call) :
    Evolves db (c.write io db u).2 := by
  cases c with
  | createLink random link hash => exact evolves_createLinkWrite io db random u link hash
  | createLinksBulk randoms links => exact evolves_creating rfl
  | updateLink id link hash changed => exact evolves_updateLinkWrite io db u id link hash changed
  | updateLinksBulk updates => exact evolves_updateLinksBulkWrite io db u updates
  | deleteLink id => exact evolves_deleteLink io db u id
  | deleteLinksBulk ids => exact evolves_deleteLinksBulk io db u ids

theorem slugIDs_le {before after : Database} (h : Evolves before after) :
    slugIDs before ≤ slugIDs after := by
  intro slug id hid
  obtain ⟨r, hr, hslug, hid⟩ := mem_slugIDs.mp hid
  obtain ⟨r', hr', hid', hslug', -⟩ := h r hr
  exact mem_slugIDs.mpr ⟨r', hr', hslug'.trans hslug, hid'.trans hid⟩

theorem deletedIDs_subset {before after : Database} (h : Evolves before after) :
    deletedIDs before ⊆ deletedIDs after := by
  rintro id ⟨r, hr, hid, hdeleted⟩
  obtain ⟨r', hr', hid', -, hkept⟩ := h r hr
  exact ⟨r', hr', hid'.trans hid, hkept hdeleted⟩

theorem evolves_run {s t : Database} {es : List Event} (h : Execution next s es t) :
    Evolves s t := by
  refine h.invariant (I := Evolves s) (.of_links rfl) ?_
  intro u e v hu hstep
  cases hstep
  exact hu.trans (evolves_write e.io u e.user e.call)

/-! ## What a slug leads to -/

theorem linkBySlug_live {io : Script} {db : Database} {slug : Str} {link : Link}
    (h : linkBySlug io db slug = .ok link) :
    slugIDs db slug = some link.id ∧ link.id ∉ deletedIDs db := by
  unfold linkBySlug readLink at h
  have hok := call_ok h
  split at hok
  · cases hok
  · rename_i row hfind
    have hread := call_ok hok
    cases hread
    have hrow := List.mem_of_find?_eq_some hfind
    have hlive := List.find?_some hfind
    simp only [Bool.and_eq_true, decide_eq_true_eq, Option.isNone_iff_eq_none] at hlive
    refine ⟨mem_slugIDs.mpr ⟨row, hrow, hlive.1, rfl⟩, ?_⟩
    rintro ⟨other, hother, hid, hdeleted⟩
    rw [db.links.eq_of_clash linkClash_symm hother hrow (Or.inl hid), hlive.2] at hdeleted
    cases hdeleted

/-- Between any two states of a run, every assignment of a slug to a link stays as it was, no
deleted link comes back, and a slug leads to the live link it is assigned to or to none. -/
theorem slugs_permanent {s t : Database} {es : List Event} (h : Execution next s es t) :
    slugIDs s ≤ slugIDs t ∧ deletedIDs s ⊆ deletedIDs t ∧
      ∀ io slug link, linkBySlug io t slug = .ok link →
        slugIDs t slug = some link.id ∧ link.id ∉ deletedIDs t :=
  ⟨slugIDs_le (evolves_run h), deletedIDs_subset (evolves_run h), fun _ _ _ => linkBySlug_live⟩

/-! The slug of a deleted link, asked for again. -/

def owner : User := ⟨1, some 1, .customer⟩

def create (random slug : Str) : Event :=
  ⟨{}, owner, .createLink random { slug := slug, targetUrl := lit "https://example.com/" } []⟩

/-- The link 1 is deleted, its slug asked for again, and one is generated. -/
def history : List Event :=
  [create [] (lit "docs"), ⟨{}, owner, .deleteLink 1⟩, create [] (lit "docs"),
    create (lit "Xy3_aaa") []]

structure Standing where
  links : List (ℤ × Bool)
  docs : Option ℤ
  generated : Option ℤ
  deriving DecidableEq

def standing (db : Database) : Standing where
  links := db.links.rows.map fun r => (r.id, r.deletedAt.isSome)
  docs := slugID db (lit "docs")
  generated := slugID db (lit "Xy3_aaa")

theorem mem_deletedIDs {db : Database} {id : ℤ} :
    id ∈ deletedIDs db ↔ (id, true) ∈ db.links.rows.map fun r => (r.id, r.deletedAt.isSome) := by
  simp [deletedIDs]

theorem slugs_permanent_deleted : ∃ s t, Execution next Database.empty (history.take 1) s ∧
    Execution next s (history.drop 1) t ∧ slugIDs s (lit "docs") = some 1 ∧
      1 ∉ deletedIDs s ∧ 1 ∈ deletedIDs t ∧ slugIDs t (lit "docs") = some 1 ∧
        slugIDs t (lit "Xy3_aaa") = some 3 ∧
          ∀ io link, linkBySlug io t (lit "docs") ≠ .ok link := by
  have hfirst : (replay next Database.empty (history.take 1)).map standing =
      some ⟨[(1, false)], some 1, none⟩ := by decide +kernel
  have hwhole : (replay next Database.empty history).map standing =
      some ⟨[(1, true), (3, false)], some 1, some 3⟩ := by decide +kernel
  obtain ⟨s, hs, hstanding⟩ := Option.map_eq_some_iff.mp hfirst
  obtain ⟨t, ht, hfinal⟩ := Option.map_eq_some_iff.mp hwhole
  simp only [standing, Standing.mk.injEq] at hstanding hfinal
  obtain ⟨hlinks, hdocs, -⟩ := hstanding
  obtain ⟨hlinks', -, hgenerated⟩ := hfinal
  have hrun := execution_of_replay ht
  rw [← List.take_append_drop 1 history] at hrun
  obtain ⟨u, hu, hrest⟩ := hrun.split
  obtain rfl : u = s := Option.some.inj (hu.replay_eq.symm.trans hs)
  obtain ⟨hslugs, -, hlookup⟩ := slugs_permanent hrest
  have hkept := hslugs (lit "docs") 1 hdocs
  have hdeleted : (1 : ℤ) ∈ deletedIDs t := by
    rw [mem_deletedIDs, hlinks']
    exact List.mem_cons_self
  refine ⟨u, t, hu, hrest, hdocs, ?_, hdeleted, hkept, hgenerated, ?_⟩
  · rw [mem_deletedIDs, hlinks]
    decide
  · intro io link hread
    obtain ⟨hslug, hlive⟩ := hlookup io _ link hread
    obtain hid : (1 : ℤ) = link.id := Option.some.inj (Eq.trans (Eq.symm hkept) hslug)
    rw [← hid] at hlive
    exact hlive hdeleted

end SlugHistory
