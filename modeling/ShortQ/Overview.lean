import Mathlib.Algebra.BigOperators.Group.List.Basic
import ShortQ.AuditedHandlers

/-! # The overview

`Store.Analytics` and the links its figures are promised to cover. -/
namespace Overview

open AuditedHandlers (World)
open GoText
open GoTime (Time)
open LinkStore
open Models
open Schema
open Transaction

structure Analytics where
  totalLinks : ℤ := 0
  totalClicks : ℤ := 0
  todayClicks : ℤ := 0
  totalTenants : ℤ := 0
  totalUsers : ℤ := 0
  deriving DecidableEq, Repr

/-- `CURRENT_DATE` in the zone of the session, and the day after it. -/
structure Today where
  start : Time
  stop : Time

def Today.has (today : Today) (c : ClickRow) : Bool :=
  today.start.nanos ≤ c.createdAt.nanos && c.createdAt.nanos < today.stop.nanos

/-- The rows of `FROM links WHERE deleted_at IS NULL` in a scope. -/
def live (db : Database) (scope : LinkRow → Bool) : List LinkRow :=
  db.links.rows.filter fun r => r.deletedAt.isNone && scope r

/-- The rows of `FROM clicks c JOIN links l ON l.id=c.link_id`, of today and in a scope. -/
def clicksToday (db : Database) (today : Today) (scope : LinkRow → Bool) :
    List (ClickRow × LinkRow) :=
  (db.clicks.rows.flatMap fun c =>
    (db.links.rows.filter fun l => l.id = c.linkId).map fun l => (c, l)).filter fun row =>
      row.2.deletedAt.isNone && today.has row.1 && scope row.2

/-- A count that is left at zero where its statement fails. -/
def counted (io : Script) (n : ℕ) (count : ℕ) : ℤ := if io.exec n = none then count else 0

/-- `Store.Analytics`. Only the failure of the first statement is reported. -/
def analytics (io : Script) (w : World) (today : Today) (u : User) : Except Err Analytics :=
  match addLinkViewScope u false with
  | .error e => .error e
  | .ok scope =>
    io.call 0 <| .ok
      { totalLinks := (live w.db scope).length
        totalClicks := ((live w.db scope).map LinkRow.clicks).sum
        todayClicks := counted io 1 (clicksToday w.db today scope).length
        totalTenants := if u.role = .superadmin then counted io 2 w.domains.tenants.length else 0
        totalUsers :=
          if u.role = .superadmin then counted io 3 w.accounts.users.rows.length else 0 }

/-! ## What the overview is promised to cover -/

/-- The links of a role: everything, those of the tenant, or those of the user. -/
def owned (u : User) (r : LinkRow) : Bool :=
  match u.role, u.tenantId with
  | .superadmin, _ => true
  | .tenant, some t => r.tenantId = some t
  | .tenant, none => false
  | .customer, _ => r.userId = u.id

/-- The clicks of a day on any of these links. -/
def clicksOn (db : Database) (today : Today) (links : List LinkRow) : List ClickRow :=
  db.clicks.rows.filter fun c => today.has c && links.any (·.id = c.linkId)

/-- The three figures count the live links of the role. -/
structure CoversOwned (db : Database) (today : Today) (u : User) (a : Analytics) : Prop where
  links : a.totalLinks = (live db (owned u)).length
  clicks : a.totalClicks = ((live db (owned u)).map LinkRow.clicks).sum
  today : a.todayClicks = (clicksOn db today (live db (owned u))).length

/-- A colleague's live link that the tenant shares with the user. -/
def SharedWith (u : User) (r : LinkRow) : Prop :=
  r.deletedAt = none ∧ r.userId ≠ u.id ∧ r.visibility = lit "department" ∧
    ∃ t, u.tenantId = some t ∧ r.tenantId = some t

/-! ## The scope of the statements -/

theorem mem_live {db : Database} {scope : LinkRow → Bool} {r : LinkRow} :
    r ∈ live db scope ↔ r ∈ db.links.rows ∧ r.deletedAt = none ∧ scope r = true := by
  rw [live, List.mem_filter, Bool.and_eq_true, Option.isNone_iff_eq_none]

theorem live_mono {db : Database} {p q : LinkRow → Bool}
    (h : ∀ r ∈ db.links.rows, p r = true → q r = true) : (live db p).Sublist (live db q) := by
  have hp : live db p = (live db q).filter p := by
    rw [live, live, List.filter_filter]
    apply List.filter_congr
    intro r hr
    cases hpr : p r with
    | false => simp
    | true => simp [h r hr hpr]
  rw [hp]
  exact List.filter_sublist

/-- A wider scope counts as many links only where it finds the same ones. -/
theorem live_eq_iff {db : Database} {p q : LinkRow → Bool}
    (h : ∀ r ∈ db.links.rows, p r = true → q r = true) :
    (live db q).length = (live db p).length ↔
      ∀ r ∈ db.links.rows, r.deletedAt = none → q r = true → p r = true := by
  constructor
  · intro hlength r hr hdeleted hq
    have heq : live db p = live db q := (live_mono h).eq_of_length hlength.symm
    have hmem : r ∈ live db p := heq ▸ mem_live.mpr ⟨hr, hdeleted, hq⟩
    exact (mem_live.mp hmem).2.2
  · intro hback
    have heq : (live db q).Sublist (live db p) := by
      have hq : live db q = (live db p).filter q := by
        rw [live, live, List.filter_filter]
        apply List.filter_congr
        intro r hr
        cases hqr : q r with
        | false => simp
        | true =>
          cases hdeleted : r.deletedAt with
          | some _ => simp
          | none => simp [hback r hr hdeleted hqr]
      rw [hq]
      exact List.filter_sublist
    exact Nat.le_antisymm heq.length_le (live_mono h).length_le

/-- A click has one link at most. -/
theorem link_iff {db : Database} {id : ℤ} {p : LinkRow → Bool} :
    (db.link id).any p = true ↔ ∃ l ∈ db.links.rows, l.id = id ∧ p l = true := by
  rw [Option.any_eq_true]
  constructor
  · rintro ⟨l, hfind, hp⟩
    obtain ⟨hl, hid⟩ := LinkWrites.mem_link hfind
    exact ⟨l, hl, hid, hp⟩
  · rintro ⟨l, hl, rfl, hp⟩
    exact ⟨l, LinkWrites.link_mem hl, hp⟩

/-- What the join holds of one click. -/
theorem join_length (db : Database) (today : Today) (scope : LinkRow → Bool) (c : ClickRow) :
    (((db.links.rows.filter fun l => l.id = c.linkId).map fun l => (c, l)).filter fun row =>
      row.2.deletedAt.isNone && today.has row.1 && scope row.2).length
    = (today.has c && (live db scope).any (·.id = c.linkId)).toNat := by
  have hcount : (((db.links.rows.filter fun l => l.id = c.linkId).map fun l => (c, l)).filter
      fun row => row.2.deletedAt.isNone && today.has row.1 && scope row.2).length
      = db.links.affected fun l =>
        decide (l.id = c.linkId) && (l.deletedAt.isNone && today.has c && scope l) := by
    rw [RowTable.Table.affected, List.filter_map, List.length_map, List.filter_filter,
      List.countP_eq_length_filter]
    congr 1
    apply List.filter_congr
    intro l _
    rw [Bool.and_comm]
    rfl
  rw [hcount, RowTable.Table.affected_of_find]
  · congr 1
    rw [Bool.eq_iff_iff]
    change (db.link c.linkId).any _ = true ↔ _
    rw [link_iff, Bool.and_eq_true, List.any_eq_true]
    constructor
    · rintro ⟨l, hl, hid, hp⟩
      rw [Bool.and_eq_true, Bool.and_eq_true, Option.isNone_iff_eq_none] at hp
      exact ⟨hp.1.2, l, mem_live.mpr ⟨hl, hp.1.1, hp.2⟩, by simpa using hid⟩
    · rintro ⟨htoday, l, hl, hid⟩
      obtain ⟨hmem, hdeleted, hscope⟩ := mem_live.mp hl
      refine ⟨l, hmem, by simpa using hid, ?_⟩
      rw [hdeleted, htoday, hscope]
      rfl
  · intro a b ha hb
    exact Or.inl ((of_decide_eq_true ha).trans (of_decide_eq_true hb).symm)

/-- The join meets the link of a click once, or not at all. -/
theorem clicksToday_length (db : Database) (today : Today) (scope : LinkRow → Bool) :
    (clicksToday db today scope).length = (clicksOn db today (live db scope)).length := by
  unfold clicksToday clicksOn
  induction db.clicks.rows with
  | nil => rfl
  | cons c rest ih =>
    rw [List.flatMap_cons, List.filter_append, List.length_append, join_length, ih,
      List.filter_cons]
    cases today.has c && (live db scope).any (·.id = c.linkId) with
    | false => simp
    | true => simp [Nat.add_comm]

/-! ## When the overview keeps its promise -/

/-- The scope the statements use. -/
def viewed (u : User) (r : LinkRow) : Bool :=
  match addLinkViewScope u false with
  | .error _ => false
  | .ok scope => scope r

theorem owned_viewed {u : User} (r : LinkRow) (h : owned u r = true) : viewed u r = true := by
  unfold viewed addLinkViewScope
  unfold owned at h
  cases hrole : u.role <;> cases htenant : u.tenantId <;> simp_all

/-- A live link in the scope is the user's own, or shared with the user. -/
theorem viewed_iff {u : User} {r : LinkRow} (hlive : r.deletedAt = none) :
    viewed u r = true ↔ owned u r = true ∨ u.role = .customer ∧ SharedWith u r := by
  unfold viewed addLinkViewScope owned SharedWith
  cases hrole : u.role <;> cases htenant : u.tenantId <;> simp [hlive]
  rename_i t
  by_cases hown : r.userId = u.id
  · simp [hown]
  · simp [hown, and_comm]

/-- The answer the database gives when every statement succeeds. -/
theorem analytics_eq (w : World) (today : Today) (u : User) :
    analytics {} w today u
      = if u.role = .tenant ∧ u.tenantId = none then .error .panic
        else .ok
          { totalLinks := (live w.db (viewed u)).length
            totalClicks := ((live w.db (viewed u)).map LinkRow.clicks).sum
            todayClicks := (clicksOn w.db today (live w.db (viewed u))).length
            totalTenants := if u.role = .superadmin then w.domains.tenants.length else 0
            totalUsers := if u.role = .superadmin then w.accounts.users.rows.length else 0 } := by
  unfold analytics
  cases hscope : addLinkViewScope u false with
  | error e =>
    unfold addLinkViewScope at hscope
    cases hrole : u.role <;> cases htenant : u.tenantId <;> simp_all
  | ok scope =>
    have hviewed : viewed u = scope := by
      funext r
      rw [viewed, hscope]
    have htenant : ¬ (u.role = .tenant ∧ u.tenantId = none) := by
      rintro ⟨hrole, htenant⟩
      rw [addLinkViewScope, hrole, htenant] at hscope
      cases hscope
    rw [if_neg htenant, hviewed, ← clicksToday_length]
    rfl

theorem covers_iff {w : World} {today : Today} {u : User}
    (hpanic : ¬ (u.role = .tenant ∧ u.tenantId = none)) :
    (∃ a, analytics {} w today u = .ok a ∧ CoversOwned w.db today u a) ↔
      ∀ r ∈ w.db.links.rows, r.deletedAt = none → viewed u r = true → owned u r = true := by
  have hlength := @live_eq_iff w.db (owned u) (viewed u) fun r _ => owned_viewed r
  rw [analytics_eq, if_neg hpanic]
  constructor
  · rintro ⟨a, ha, hlinks, -, -⟩
    cases ha
    exact hlength.mp (Int.ofNat.inj hlinks)
  · intro hback
    have heq : live w.db (owned u) = live w.db (viewed u) :=
      (live_mono fun r _ => owned_viewed r).eq_of_length (hlength.mpr hback).symm
    exact ⟨_, rfl, by rw [heq], by rw [heq], by rw [heq]⟩

theorem viewed_owned_iff {db : Database} {u : User} :
    (∀ r ∈ db.links.rows, r.deletedAt = none → viewed u r = true → owned u r = true) ↔
      (u.role = .customer → ∀ r ∈ db.links.rows, ¬ SharedWith u r) := by
  constructor
  · intro hback hrole r hr hshared
    have hown := hback r hr hshared.1 ((viewed_iff hshared.1).mpr (Or.inr ⟨hrole, hshared⟩))
    rw [owned, hrole] at hown
    exact hshared.2.1 (of_decide_eq_true hown)
  · intro hnone r hr hlive hview
    rcases (viewed_iff hlive).mp hview with hown | ⟨hrole, hshared⟩
    · exact hown
    · exact absurd hshared (hnone hrole r hr)

/-- The overview covers what the role owns, for a customer unless a colleague shares a live link
with the tenant. -/
theorem overview_owned_iff (w : World) (today : Today) (u : User) :
    (∃ a, analytics {} w today u = .ok a ∧ CoversOwned w.db today u a) ↔
      match u.role with
      | .superadmin => True
      | .tenant => u.tenantId ≠ none
      | .customer => ∀ r ∈ w.db.links.rows, ¬ SharedWith u r := by
  by_cases hpanic : u.role = .tenant ∧ u.tenantId = none
  · rw [analytics_eq, if_pos hpanic, hpanic.1]
    constructor
    · rintro ⟨a, ha, _⟩
      cases ha
    · intro hsome
      exact absurd hpanic.2 hsome
  · rw [covers_iff hpanic, viewed_owned_iff]
    cases hrole : u.role with
    | superadmin => simp
    | tenant =>
      have hsome : u.tenantId ≠ none := fun hnone => hpanic ⟨hrole, hnone⟩
      simpa using hsome
    | customer => simp

/-- The link of a colleague, shared with tenant 1. -/
def sharedWorld : World where
  db := .single { sampleLink with
    visibility := lit "department"
    clicks := 7 }
  domains := ⟨.empty, 1, [1]⟩
  accounts := ⟨.empty, 3, .empty, 1⟩
  audits := []

/-- A customer without a link of their own is shown one link and seven clicks. -/
theorem shared_counted : analytics {} sharedWorld ⟨GoTime.zero, GoTime.zero⟩
      ⟨2, some 1, .customer⟩ = .ok { totalLinks := 1, totalClicks := 7 } ∧
    ¬ ∃ a, analytics {} sharedWorld ⟨GoTime.zero, GoTime.zero⟩ ⟨2, some 1, .customer⟩ = .ok a ∧
      CoversOwned sharedWorld.db ⟨GoTime.zero, GoTime.zero⟩ ⟨2, some 1, .customer⟩ a := by
  have hanswer : analytics {} sharedWorld ⟨GoTime.zero, GoTime.zero⟩ ⟨2, some 1, .customer⟩
      = .ok { totalLinks := 1, totalClicks := 7 } := by
    decide
  refine ⟨hanswer, ?_⟩
  rintro ⟨a, ha, hlinks, -, -⟩
  rw [hanswer] at ha
  cases ha
  exact absurd hlinks (by decide)

end Overview
