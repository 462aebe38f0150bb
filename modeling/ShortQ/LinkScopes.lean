import Mathlib.Data.List.Dedup
import ShortQ.LinkStore

/-! # Who may see and who may change a link

`View` and `Manage` say what the scopes are for. The queries build their scope by appending
conditions to a statement; each read is compared with `View` here. -/
namespace LinkScopes

open GoText (Str lit)
open LinkStore
open Models
open RowTable
open Schema
open Transaction

structure Principal where
  actual : User
  effective : User
  mode : Str
  authType : Str
  deriving DecidableEq, Repr

def canSwitchMode (u : User) : Bool := u.role = .superadmin || u.role = .tenant

def defaultDashboardMode (u : User) : Str := if canSwitchMode u then lit "admin" else lit "user"

def effectivePrincipal (actual : User) (requestedMode authType : Str) : Principal :=
  let mode := if requestedMode ≠ lit "admin" && requestedMode ≠ lit "user" then
    defaultDashboardMode actual else requestedMode
  let mode := if mode = lit "admin" && !canSwitchMode actual then lit "user" else mode
  { actual := actual
    effective := if mode = lit "user" then { actual with role := .customer } else actual
    mode := mode
    authType := authType }

/-- A tenant admin has a tenant. -/
def Placed (u : User) : Prop := u.role = .tenant → u.tenantId.isSome

/-- Which links a user may see. -/
def View (u : User) (r : LinkRow) : Prop :=
  match u.role with
  | .superadmin => True
  | .tenant => r.tenantId = u.tenantId
  | .customer => r.userId = u.id ∨
      (u.tenantId.isSome ∧ r.tenantId = u.tenantId ∧ r.visibility = lit "department" ∧
        r.deletedAt = none)

/-- Which links a user may change. -/
def Manage (u : User) (r : LinkRow) : Prop :=
  match u.role with
  | .superadmin => True
  | .tenant => r.tenantId = u.tenantId
  | .customer => r.userId = u.id

theorem manage_view {u : User} {r : LinkRow} (h : Manage u r) : View u r := by
  unfold Manage at h
  unfold View
  cases hrole : u.role with
  | superadmin => trivial
  | tenant =>
    rw [hrole] at h
    exact h
  | customer =>
    rw [hrole] at h
    exact Or.inl h

theorem effective_eq (actual : User) (requestedMode authType : Str) :
    (effectivePrincipal actual requestedMode authType).effective = actual ∨
      (effectivePrincipal actual requestedMode authType).effective =
        { actual with role := .customer } := by
  rw [or_comm]
  exact ite_eq_or_eq _ _ _

theorem placed_effective {actual : User} (requestedMode authType : Str) (h : Placed actual) :
    Placed (effectivePrincipal actual requestedMode authType).effective := by
  rcases effective_eq actual requestedMode authType with heq | heq <;> rw [heq]
  · exact h
  · intro hrole
    cases hrole

theorem viewScope_eq {u : User} (h : Placed u) :
    ∃ scope, addLinkViewScope u false = .ok scope ∧ ∀ r, scope r = true ↔ View u r := by
  obtain ⟨id, tenant, role⟩ := u
  cases role with
  | superadmin => exact ⟨fun _ => true, rfl, fun r => by simp [View]⟩
  | tenant =>
    obtain ⟨t, ht⟩ := Option.isSome_iff_exists.mp (h rfl)
    cases ht
    exact ⟨fun r => r.tenantId = some t, rfl, fun r => by simp [View]⟩
  | customer =>
    cases tenant with
    | none => exact ⟨fun r => r.userId = id, rfl, fun r => by simp [View]⟩
    | some t =>
      refine ⟨_, rfl, fun r => ?_⟩
      simp [View, and_assoc]

theorem manageScope_eq {u : User} (h : Placed u) :
    ∃ scope, addLinkManageScope u = .ok scope ∧ ∀ r, scope r = true ↔ Manage u r := by
  obtain ⟨id, tenant, role⟩ := u
  cases role with
  | superadmin => exact ⟨fun _ => true, rfl, fun r => by simp [Manage]⟩
  | tenant =>
    obtain ⟨t, ht⟩ := Option.isSome_iff_exists.mp (h rfl)
    cases ht
    exact ⟨fun r => r.tenantId = some t, rfl, fun r => by simp [Manage]⟩
  | customer =>
    cases tenant <;> exact ⟨fun r => r.userId = id, rfl, fun r => by simp [Manage]⟩

/-- A scope that can be built belongs to a placed user. -/
theorem placed_of_viewScope {u : User} {scope : LinkRow → Bool}
    (h : addLinkViewScope u false = .ok scope) : Placed u := by
  intro hrole
  obtain ⟨id, tenant, role⟩ := u
  cases hrole
  cases tenant with
  | none => cases h
  | some t => rfl

theorem placed_of_manageScope {u : User} {scope : LinkRow → Bool}
    (h : addLinkManageScope u = .ok scope) : Placed u := by
  intro hrole
  obtain ⟨id, tenant, role⟩ := u
  cases hrole
  cases tenant with
  | none => cases h
  | some t => rfl

theorem manage_of_scope {u : User} {scope : LinkRow → Bool} {r : LinkRow}
    (h : addLinkManageScope u = .ok scope) : scope r = true ↔ Manage u r := by
  obtain ⟨scope', hscope, hspec⟩ := manageScope_eq (placed_of_manageScope h)
  obtain rfl : scope' = scope := Except.ok.inj (hscope.symm.trans h)
  exact hspec r

theorem view_of_scope {u : User} {scope : LinkRow → Bool} {r : LinkRow}
    (h : addLinkViewScope u false = .ok scope) : scope r = true ↔ View u r := by
  obtain ⟨scope', hscope, hspec⟩ := viewScope_eq (placed_of_viewScope h)
  obtain rfl : scope' = scope := Except.ok.inj (hscope.symm.trans h)
  exact hspec r

/-- The rows a scoped query over all links reads. -/
def inView (scope : LinkRow → Bool) (cursor : ℤ) (r : LinkRow) : Bool :=
  r.deletedAt.isNone && (scope r && (!(0 < cursor) || r.id < cursor))

/-- How many queries name the creators of the rows. -/
def creatorChunks (rows : List LinkRow) : ℕ := chunks (rows.map LinkRow.userId).dedup.length

/-- `ORDER BY id DESC`. -/
def listed (db : Database) (scope : LinkRow → Bool) (cursor : ℤ) : List LinkRow :=
  (db.links.rows.filter (inView scope cursor)).mergeSort fun a b => decide (b.id ≤ a.id)

/-- `LIMIT`, which is left out when it is not positive. -/
def limited (limit : ℤ) (rows : List LinkRow) : List LinkRow :=
  if 0 < limit then rows.take limit.toNat else rows

def hydrateLinks (io : Script) (n : ℕ) (db : Database) (rows : List LinkRow) :
    Except Err (List Link) :=
  match firstFailure io n (chunks rows.length) with
  | some text => .error (.database text)
  | none => .ok (rows.map fun r => hydrateLink db (scanLink r))

/-- The creators' names it adds are read by no modelled function. -/
def hydrateLinkCreators (io : Script) (n : ℕ) (rows : List LinkRow) (links : List Link) :
    Except Err (List Link) :=
  match firstFailure io n (creatorChunks rows) with
  | some text => .error (.database text)
  | none => .ok links

def listLinks (io : Script) (db : Database) (u : User) (limit cursor : ℤ) :
    Except Err (List Link) :=
  match addLinkViewScope u false with
  | .error e => .error e
  | .ok scope =>
    let rows := limited limit (listed db scope cursor)
    match io.call 0 (hydrateLinks io 1 db rows) with
    | .error e => .error e
    | .ok links =>
      if u.role = .superadmin || u.role = .tenant then
        hydrateLinkCreators io (1 + chunks rows.length) rows links
      else .ok links

def ListLinks (io : Script) (db : Database) (u : User) : Except Err (List Link) :=
  listLinks io db u 0 0

structure LinkPage where
  items : List Link
  nextCursor : ℤ
  deriving DecidableEq, Repr

def ListLinksPage (io : Script) (db : Database) (u : User) (limit cursor : ℤ) :
    Except Err LinkPage :=
  let limit := if limit < 1 || 500 < limit then 100 else limit
  match listLinks io db u (limit + 1) cursor with
  | .error e => .error e
  | .ok links =>
    if limit < links.length then
      let items := links.take limit.toNat
      .ok ⟨items, (items.getLast?.map Link.id).getD 0⟩
    else .ok ⟨links, 0⟩

/-! What the reads return. -/

/-- A live row that the user may see, as a link with its geo targets. -/
def Shown (db : Database) (u : User) (link : Link) : Prop :=
  ∃ r ∈ db.links.rows, r.deletedAt = none ∧ View u r ∧ link = hydrateLink db (scanLink r)

theorem firstFailure_healthy {io : Script} (h : io.Healthy) (first count : ℕ) :
    firstFailure io first count = none := by
  simp [firstFailure, h.2.1]

theorem call_healthy {α : Type} {io : Script} (h : io.Healthy) (n : ℕ) (result : Except Err α) :
    io.call n result = result := by
  simp [Script.call, h.2.1]

theorem call_ok_iff {α : Type} {io : Script} {n : ℕ} {result : Except Err α} :
    (∃ a, io.call n result = .ok a) ↔ io.exec n = none ∧ ∃ a, result = .ok a := by
  unfold Script.call
  cases io.exec n <;> simp

theorem inView_iff {u : User} {scope : LinkRow → Bool} {cursor : ℤ} {r : LinkRow}
    (h : addLinkViewScope u false = .ok scope) :
    inView scope cursor r = true ↔
      r.deletedAt = none ∧ View u r ∧ (0 < cursor → r.id < cursor) := by
  simp only [inView, Bool.and_eq_true, Option.isNone_iff_eq_none, view_of_scope h]
  by_cases hc : 0 < cursor <;> simp [hc]

theorem mem_listed {db : Database} {u : User} {scope : LinkRow → Bool} {cursor : ℤ}
    {r : LinkRow} (h : addLinkViewScope u false = .ok scope) :
    r ∈ listed db scope cursor ↔
      r ∈ db.links.rows ∧ r.deletedAt = none ∧ View u r ∧ (0 < cursor → r.id < cursor) := by
  rw [listed, List.mem_mergeSort, List.mem_filter, inView_iff h]

theorem listed_descending (db : Database) (scope : LinkRow → Bool) (cursor : ℤ) :
    (listed db scope cursor).Pairwise fun a b => b.id < a.id := by
  have hsorted : (listed db scope cursor).Pairwise fun a b => decide (b.id ≤ a.id) = true := by
    refine List.pairwise_mergeSort (fun a b c hab hbc => ?_) (fun a b => ?_) _
    · simp only [decide_eq_true_eq] at hab hbc ⊢
      omega
    · simp only [Bool.or_eq_true, decide_eq_true_eq]
      omega
  have hdistinct : (listed db scope cursor).Pairwise fun a b => a.id ≠ b.id := by
    have hrows : (db.links.rows.filter (inView scope cursor)).Pairwise
        fun a b => a.id ≠ b.id :=
      (db.links.distinct.filter _).imp fun h heq => h (Or.inl heq)
    exact ((List.mergeSort_perm _ _).pairwise_iff fun {a b} h => Ne.symm h).mpr hrows
  refine (hsorted.and hdistinct).imp ?_
  intro a b ⟨hle, hne⟩
  simp only [decide_eq_true_eq] at hle
  omega

theorem mem_limited {limit : ℤ} {rows : List LinkRow} {r : LinkRow}
    (h : r ∈ limited limit rows) : r ∈ rows := by
  unfold limited at h
  split at h
  · exact List.mem_of_mem_take h
  · exact h

theorem hydrateLinks_ok {io : Script} {n : ℕ} {db : Database} {rows : List LinkRow}
    {links : List Link} (h : hydrateLinks io n db rows = .ok links) :
    links = rows.map fun r => hydrateLink db (scanLink r) := by
  unfold hydrateLinks at h
  split at h
  · cases h
  · exact (Except.ok.inj h).symm

theorem hydrateLinkCreators_ok {io : Script} {n : ℕ} {rows : List LinkRow}
    {links links' : List Link} (h : hydrateLinkCreators io n rows links = .ok links') :
    links' = links := by
  unfold hydrateLinkCreators at h
  split at h
  · cases h
  · exact (Except.ok.inj h).symm

theorem listLinks_healthy {io : Script} (hio : io.Healthy) {db : Database} {u : User}
    {scope : LinkRow → Bool} (h : addLinkViewScope u false = .ok scope) (limit cursor : ℤ) :
    listLinks io db u limit cursor = .ok ((limited limit (listed db scope cursor)).map
      fun r => hydrateLink db (scanLink r)) := by
  simp only [listLinks, h, call_healthy hio, hydrateLinks, hydrateLinkCreators,
    firstFailure_healthy hio, ite_self]

theorem listLinks_ok {io : Script} {db : Database} {u : User} {limit cursor : ℤ}
    {links : List Link} (h : listLinks io db u limit cursor = .ok links) :
    ∃ scope, addLinkViewScope u false = .ok scope ∧
      links = (limited limit (listed db scope cursor)).map
        fun r => hydrateLink db (scanLink r) := by
  unfold listLinks at h
  split at h
  · cases h
  · rename_i scope hscope
    dsimp only at h
    split at h
    · cases h
    · rename_i found hfound
      have hlinks := hydrateLinks_ok (call_ok hfound)
      split at h
      · exact ⟨scope, hscope, (hydrateLinkCreators_ok h).trans hlinks⟩
      · exact ⟨scope, hscope, (Except.ok.inj h).symm.trans hlinks⟩

/-- Whatever a listing shows is live and in view. -/
theorem shown_of_listLinks {io : Script} {db : Database} {u : User} {limit cursor : ℤ}
    {links : List Link} (h : listLinks io db u limit cursor = .ok links) :
    ∀ link ∈ links, Shown db u link := by
  obtain ⟨scope, hscope, rfl⟩ := listLinks_ok h
  intro link hlink
  obtain ⟨r, hr, rfl⟩ := List.mem_map.mp hlink
  obtain ⟨hrow, hlive, hview, -⟩ := (mem_listed hscope).mp (mem_limited hr)
  exact ⟨r, hrow, hlive, hview, rfl⟩

theorem shown_of_listLinksPage {io : Script} {db : Database} {u : User} {limit cursor : ℤ}
    {page : LinkPage} (h : ListLinksPage io db u limit cursor = .ok page) :
    ∀ link ∈ page.items, Shown db u link := by
  unfold ListLinksPage at h
  generalize (if limit < 1 || 500 < limit then 100 else limit : ℤ) = limit at h
  dsimp only at h
  split at h
  · cases h
  · rename_i links hlinks
    intro link hlink
    split at h
    · cases h
      exact shown_of_listLinks hlinks link (List.mem_of_mem_take hlink)
    · cases h
      exact shown_of_listLinks hlinks link hlink

theorem find_spec {db : Database} {p : LinkRow → Bool} {r : LinkRow}
    (h : db.links.find p = some r) : r ∈ db.links.rows ∧ p r = true :=
  ⟨List.mem_of_find?_eq_some h, List.find?_some h⟩

theorem find_some_iff {db : Database} {p : LinkRow → Bool} :
    (∃ r, db.links.find p = some r) ↔ ∃ r ∈ db.links.rows, p r = true := by
  constructor
  · rintro ⟨r, hr⟩
    exact ⟨r, find_spec hr⟩
  · rintro ⟨r, hr, hp⟩
    exact Option.isSome_iff_exists.mp (List.find?_isSome.mpr ⟨r, hr, hp⟩)

/-- A read of one row finds it when it is there and both queries work. -/
theorem readLink_ok_iff {io : Script} {db : Database} {p : LinkRow → Bool} :
    (∃ link, readLink io db p = .ok link) ↔
      io.exec 0 = none ∧ (∃ r ∈ db.links.rows, p r = true) ∧ io.exec 1 = none := by
  rw [readLink, call_ok_iff, ← find_some_iff]
  refine and_congr_right fun _ => ?_
  cases hfind : db.links.find p with
  | none => simp
  | some r => simp [call_ok_iff]

theorem readLink_ok {io : Script} {db : Database} {p : LinkRow → Bool} {link : Link}
    (h : readLink io db p = .ok link) :
    ∃ r ∈ db.links.rows, p r = true ∧ link = hydrateLink db (scanLink r) := by
  have hcall := call_ok h
  split at hcall
  · cases hcall
  · rename_i r hr
    have hlink := call_ok hcall
    cases hlink
    exact ⟨r, (find_spec hr).1, (find_spec hr).2, rfl⟩

theorem liveInScope_iff {u : User} {scope : LinkRow → Bool} {id : ℤ} {r : LinkRow}
    (h : addLinkViewScope u false = .ok scope) :
    (r.id = id && (r.deletedAt.isNone && scope r)) = true ↔
      r.id = id ∧ r.deletedAt = none ∧ View u r := by
  simp only [Bool.and_eq_true, decide_eq_true_eq, Option.isNone_iff_eq_none, view_of_scope h]

theorem linkByID_ok_iff {io : Script} {db : Database} {u : User} {id : ℤ} :
    (∃ link, linkByID io db u id = .ok link) ↔
      Placed u ∧ io.exec 0 = none ∧ io.exec 1 = none ∧
        ∃ r ∈ db.links.rows, r.id = id ∧ r.deletedAt = none ∧ View u r := by
  unfold linkByID
  split
  · rename_i e herr
    constructor
    · rintro ⟨link, h⟩
      cases h
    rintro ⟨hplaced, -⟩
    obtain ⟨scope, hscope, -⟩ := viewScope_eq hplaced
    rw [herr] at hscope
    cases hscope
  · rename_i scope hscope
    have hplaced := placed_of_viewScope hscope
    rw [readLink_ok_iff]
    simp only [liveInScope_iff hscope]
    tauto

theorem shown_of_linkByID {io : Script} {db : Database} {u : User} {id : ℤ} {link : Link}
    (h : linkByID io db u id = .ok link) : Shown db u link ∧ link.id = id := by
  unfold linkByID at h
  split at h
  · cases h
  · rename_i scope hscope
    obtain ⟨r, hr, hp, rfl⟩ := readLink_ok h
    obtain ⟨hid, hlive, hview⟩ := (liveInScope_iff hscope).mp hp
    exact ⟨⟨r, hr, hlive, hview, rfl⟩, hid⟩

theorem mapM_ok_iff {α β : Type} {f : α → Option β} {l : List α} :
    (∃ bs, l.mapM f = some bs) ↔ ∀ a ∈ l, ∃ b, f a = some b := by
  induction l with
  | nil => simp
  | cons a l ih =>
    rw [List.forall_mem_cons, ← ih]
    simp only [List.mapM_cons, Option.bind_eq_bind, Option.pure_def]
    cases f a <;> cases l.mapM f <;> simp

theorem mem_mapM {α β : Type} {f : α → Option β} {l : List α} {bs : List β}
    (h : l.mapM f = some bs) : ∀ b ∈ bs, ∃ a ∈ l, f a = some b := by
  induction l generalizing bs with
  | nil =>
    cases h
    simp
  | cons a l ih =>
    simp only [List.mapM_cons, Option.bind_eq_bind, Option.pure_def] at h
    obtain ⟨b, hb, h⟩ := Option.bind_eq_some_iff.mp h
    obtain ⟨rest, hrest, h⟩ := Option.bind_eq_some_iff.mp h
    cases h
    intro c hc
    rcases List.mem_cons.mp hc with rfl | hc
    · exact ⟨a, List.mem_cons_self, hb⟩
    · obtain ⟨a', ha', hc⟩ := ih hrest c hc
      exact ⟨a', List.mem_cons_of_mem _ ha', hc⟩

theorem map_mapM {α β : Type} {f : α → Option β} {g : β → α}
    (hg : ∀ a b, f a = some b → g b = a) {l : List α} {bs : List β} (h : l.mapM f = some bs) :
    bs.map g = l := by
  induction l generalizing bs with
  | nil =>
    cases h
    rfl
  | cons a l ih =>
    simp only [List.mapM_cons, Option.bind_eq_bind, Option.pure_def] at h
    obtain ⟨b, hb, h⟩ := Option.bind_eq_some_iff.mp h
    obtain ⟨rest, hrest, h⟩ := Option.bind_eq_some_iff.mp h
    cases h
    rw [List.map_cons, hg a b hb, ih hrest]

theorem linksByIDs_ok_iff {io : Script} {db : Database} {u : User} {ids : List ℤ} :
    (∃ links, linksByIDs io db u ids = .ok links) ↔ ids = [] ∨
      (Placed u ∧ firstFailure io 0 (chunks ids.length) = none ∧
        firstFailure io (chunks ids.length) (chunks ids.length) = none ∧
        ∀ id ∈ ids, ∃ r ∈ db.links.rows, r.id = id ∧ r.deletedAt = none ∧ View u r) := by
  unfold linksByIDs
  by_cases hids : ids = []
  · simp [hids]
  rw [if_neg hids, or_iff_right hids]
  split
  · rename_i e herr
    constructor
    · rintro ⟨link, h⟩
      cases h
    rintro ⟨hplaced, -⟩
    obtain ⟨scope, hscope, -⟩ := viewScope_eq hplaced
    rw [herr] at hscope
    cases hscope
  · rename_i scope hscope
    have hplaced := placed_of_viewScope hscope
    have hfound : (∃ rows, (ids.mapM fun id =>
        db.links.find fun r => r.id = id && (r.deletedAt.isNone && scope r)) = some rows) ↔
        ∀ id ∈ ids, ∃ r ∈ db.links.rows, r.id = id ∧ r.deletedAt = none ∧ View u r := by
      rw [mapM_ok_iff]
      simp only [find_some_iff, liveInScope_iff hscope]
    rw [← hfound]
    cases firstFailure io 0 (chunks ids.length) with
    | some text => simp
    | none =>
      cases ids.mapM fun id =>
          db.links.find fun r => r.id = id && (r.deletedAt.isNone && scope r) with
      | none => simp
      | some rows =>
        cases firstFailure io (chunks ids.length) (chunks ids.length) <;> simp [hplaced]

/-- The links come in the order of the ids. -/
theorem shown_of_linksByIDs {io : Script} {db : Database} {u : User} {ids : List ℤ}
    {links : List Link} (h : linksByIDs io db u ids = .ok links) :
    (∀ link ∈ links, Shown db u link) ∧ links.map Link.id = ids := by
  unfold linksByIDs at h
  split at h
  · rename_i hnil
    cases h
    simp [hnil]
  split at h
  · cases h
  rename_i scope hscope
  split at h
  · cases h
  split at h
  · cases h
  rename_i rows hrows
  split at h
  · cases h
  cases h
  constructor
  · intro link hlink
    obtain ⟨r, hr, rfl⟩ := List.mem_map.mp hlink
    obtain ⟨id, -, hfind⟩ := mem_mapM hrows r hr
    obtain ⟨hrow, hp⟩ := find_spec hfind
    obtain ⟨-, hlive, hview⟩ := (liveInScope_iff hscope).mp hp
    exact ⟨r, hrow, hlive, hview, rfl⟩
  · rw [List.map_map]
    refine map_mapM (fun id r hfind => ?_) hrows
    exact ((liveInScope_iff hscope).mp (find_spec hfind).2).1

end LinkScopes
