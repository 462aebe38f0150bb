import ShortQ.DashboardViews
import ShortQ.PagedLists

/-! # The list of links, page by page

The pager of `web/app.js` against `linksPage`. Each click sends a query; answers come back in any
order, late or not at all, and other clients change the links in between. -/
namespace LinkPager

open CursorPages
open DashboardViews (numberText)
open GoText (Str lit)
open LabelledRuns
open LinkScopes
open LinkStore
open Models
open PagedLists
open Schema
open Transaction

/-! ## The server -/

/-- The query of one load. -/
structure Load where
  pageSize : Str
  cursor : Str
  deriving DecidableEq, Repr

def Load.query (l : Load) : Query := fun key =>
  if key = lit "limit" then l.pageSize else if key = lit "cursor" then l.cursor else []

def linksPage (io : Script) (db : Database) (u : User) (values : Query) : Except Err LinkPage :=
  (queryLimit values 500 "limit must be 1 to 500").bind fun limit =>
    (queryCursor values "cursor must be a positive link id").bind fun cursor =>
      ListLinksPage io db u limit cursor

/-! ## The browser -/

/-- `nextDisabled` and `pageNumber` are what `loadLinks` wrote last. `served` says whether it wrote
a page of the server, and `seen` are the ids of all links that were shown. -/
structure Pager where
  pageSize : Str
  linkCursor : Str := []
  linkCursorHistory : List Str := []
  linkNextCursor : ℤ := 0
  linkCache : List Link := []
  nextDisabled : Option Bool := none
  pageNumber : Option ℕ := none
  inFlight : List Load := []
  served : Bool := false
  seen : List ℤ := []

/-- `loadLinks` up to its query. -/
def Pager.send (p : Pager) : Pager :=
  { p with inFlight := p.inFlight ++ [⟨p.pageSize, p.linkCursor⟩] }

def resetLinkPagination (p : Pager) : Pager :=
  { p with linkCursor := [], linkCursorHistory := [], linkNextCursor := 0 }

def changeLinkPageSize (p : Pager) (size : Str) : Pager :=
  (resetLinkPagination { p with pageSize := size }).send

def nextLinkPage (p : Pager) : Pager :=
  if p.linkNextCursor = 0 then p
  else
    { p with
      linkCursorHistory := p.linkCursorHistory ++ [p.linkCursor]
      linkCursor := numberText p.linkNextCursor }.send

def previousLinkPage (p : Pager) : Pager :=
  match p.linkCursorHistory.getLast? with
  | none => p
  | some cursor =>
    { p with linkCursorHistory := p.linkCursorHistory.dropLast, linkCursor := cursor }.send

/-- `loadLinks` from its answer on. -/
def Pager.show (p : Pager) (page : LinkPage) : Pager :=
  { p with
    linkNextCursor := page.nextCursor
    linkCache := page.items
    pageNumber := some (p.linkCursorHistory.length + 1)
    nextDisabled := some (page.nextCursor = 0)
    served := true
    seen := p.seen ++ page.items.map Link.id }

/-- The same where `api` returns no page: undefined once it has set out for the login, or an object
without items for a body that it cannot read. The list says that there are no links. -/
def Pager.showNone (p : Pager) : Pager := { p.show ⟨[], 0⟩ with served := false }

/-- What happens to the page: a click, a load for another reason, a reset without a load, and the
end of a load: an answer from the links of that moment, one that `api` throws or that never comes,
or one without a page. -/
inductive Event where
  | next
  | previous
  | resize (size : Str)
  | load
  | reset
  | answer (i : ℕ) (db : Database)
  | fail (i : ℕ)
  | noPage (i : ℕ)

def Pager.drop (p : Pager) (i : ℕ) : Pager := { p with inFlight := p.inFlight.eraseIdx i }

def next (u : User) (p : Pager) : Event → Option Pager
  | .next => some (nextLinkPage p)
  | .previous => some (previousLinkPage p)
  | .resize size => some (changeLinkPageSize p size)
  | .load => some p.send
  | .reset => some (resetLinkPagination p)
  | .answer i db =>
    p.inFlight[i]?.map fun l =>
      match linksPage {} db u l.query with
      | .ok page => (p.drop i).show page
      | .error _ => p.drop i
  | .fail i => p.inFlight[i]?.map fun _ => p.drop i
  | .noPage i => p.inFlight[i]?.map fun _ => (p.drop i).showNone

def initial (size : Str) : Pager := { pageSize := size }

/-! ## Cursors -/

/-- The text that the browser sends for a cursor that its numbers hold exactly. -/
def Names (cursor : Str) (n : ℤ) : Prop :=
  (cursor = [] ∧ n = 0) ∨ (cursor = numberText n ∧ 0 < n ∧ n < 2 ^ 53)

theorem numberText_eq {n : ℤ} (hpos : 0 < n) (hlt : n < 2 ^ 53) :
    numberText n = lit (Nat.repr n.toNat) := by
  obtain ⟨k, rfl⟩ := Int.eq_ofNat_of_zero_le (le_of_lt hpos)
  have hk : k < 2 ^ 53 := by exact_mod_cast hlt
  have hsign : (k : ℤ).sign = 1 := Int.sign_eq_one_of_pos hpos
  rw [numberText, hsign, Int.one_mul, Int.natAbs_natCast, BrowserNumbers.printed_small hk,
    JsonText.integerText, Int.toNat_natCast]
  have hnot : ¬ (k : ℤ) < 0 := by omega
  rw [if_neg hnot]
  rfl

theorem queryCursor_names {l : Load} {n : ℤ} (h : Names l.cursor n) (text : String) :
    queryCursor l.query text = .ok n := by
  have hcursor : l.query (lit "cursor") = l.cursor := by
    rw [Load.query, if_neg (by decide), if_pos rfl]
  rw [queryCursor, hcursor]
  rcases h with ⟨hnil, rfl⟩ | ⟨htext, hpos, hlt⟩
  · rw [if_pos hnil]
  · have hrepr := numberText_eq hpos hlt
    have hsmall : n.toNat < 2 ^ 63 := by omega
    have hback : ((n.toNat : ℕ) : ℤ) = n := Int.toNat_of_nonneg (le_of_lt hpos)
    rw [htext, hrepr, if_neg (DecimalText.repr_ne_nil _), CsvCells.parseInt_repr hsmall, hback]
    have hnot : ¬ n < 1 := by omega
    dsimp only
    rw [if_neg hnot]

/-- With a page size that the server takes, a load is answered as its cursor says. -/
theorem linksPage_ok {u : User} (hu : Placed u) {db : Database}
    (hids : ∀ r ∈ db.links.rows, 0 < r.id) {l : Load} {n : ℤ} (hn : Names l.cursor n) {limit : ℕ}
    (hlimit : queryLimit l.query 500 "limit must be 1 to 500" = .ok limit) :
    ∃ page, linksPage {} db u l.query = .ok page ∧
      Serves (linkLimit limit) (Visible db u) n (page.items.map Link.id) page.nextCursor := by
  obtain ⟨items, cursor, hfetch, hserves⟩ := @fetchLinks_serves (fun _ => {})
    (fun _ => ⟨rfl, fun _ => rfl, rfl, rfl⟩) (fun _ => db) u hu (fun _ => hids) limit 0 n
  have hpage : linksPage {} db u l.query = ListLinksPage {} db u limit n := by
    rw [linksPage, queryCursor_names hn, hlimit]
    rfl
  unfold fetchLinks at hfetch
  cases hlist : ListLinksPage {} db u limit n with
  | error e =>
    rw [hlist] at hfetch
    cases hfetch
  | ok page =>
    rw [hlist] at hfetch
    cases hfetch
    exact ⟨page, hpage.trans hlist, hserves⟩

theorem linksPage_serves {u : User} (hu : Placed u) {db : Database}
    (hids : ∀ r ∈ db.links.rows, 0 < r.id) {l : Load} {n : ℤ} (hn : Names l.cursor n)
    {page : LinkPage} (h : linksPage {} db u l.query = .ok page) :
    ∃ limit, Serves limit (Visible db u) n (page.items.map Link.id) page.nextCursor := by
  cases hlimit : queryLimit l.query 500 "limit must be 1 to 500" with
  | error e =>
    rw [linksPage, hlimit] at h
    cases h
  | ok limit =>
    obtain ⟨page', hpage', hserves⟩ := linksPage_ok hu hids hn hlimit
    rw [h] at hpage'
    cases hpage'
    exact ⟨_, hserves⟩

/-! ## No link is skipped -/

section

variable {matched : ℤ → Prop} {u : User}

/-- What is not below the cursor was shown. -/
def Covered (matched : ℤ → Prop) (seen : List ℤ) (cursor : Str) : Prop :=
  ∃ n, Names cursor n ∧ ∀ i, matched i → ¬ Below n i → i ∈ seen

structure Covers (matched : ℤ → Prop) (p : Pager) : Prop where
  cursor : Covered matched p.seen p.linkCursor
  history : ∀ c ∈ p.linkCursorHistory, Covered matched p.seen c
  inFlight : ∀ l ∈ p.inFlight, Covered matched p.seen l.cursor
  next : p.linkNextCursor ≠ 0 → 0 < p.linkNextCursor ∧ p.linkNextCursor < 2 ^ 53 ∧
    ∀ i, matched i → ¬ Below p.linkNextCursor i → i ∈ p.seen
  finished : p.nextDisabled = some true → p.served = true → ∀ i, matched i → i ∈ p.seen

theorem covered_start (seen : List ℤ) : Covered matched seen [] :=
  ⟨0, Or.inl ⟨rfl, rfl⟩, fun _ _ hnot => absurd (fun hpos => absurd hpos (lt_irrefl 0)) hnot⟩

theorem Covered.mono {seen more : List ℤ} {c : Str} (h : Covered matched seen c) :
    Covered matched (seen ++ more) c := by
  obtain ⟨n, hn, hall⟩ := h
  exact ⟨n, hn, fun i hi hnot => List.mem_append_left _ (hall i hi hnot)⟩

theorem covers_initial (size : Str) : Covers matched (initial size) := by
  constructor
  · exact covered_start []
  · intro c hc
    cases hc
  · intro l hl
    cases hl
  · intro hne
    exact absurd rfl hne
  · intro hdisabled
    cases hdisabled

theorem Covers.send {p : Pager} (h : Covers matched p) : Covers matched p.send := by
  refine ⟨h.cursor, h.history, ?_, h.next, h.finished⟩
  intro l hl
  rcases List.mem_append.mp hl with hl | hl
  · exact h.inFlight l hl
  · rw [List.mem_singleton.mp hl]
    exact h.cursor

theorem Covers.reset {p : Pager} (h : Covers matched p) :
    Covers matched (resetLinkPagination p) := by
  refine ⟨covered_start _, ?_, h.inFlight, ?_, h.finished⟩
  · intro c hc
    cases hc
  · intro hne
    exact absurd rfl hne

theorem Covers.next_page {p : Pager} (h : Covers matched p) : Covers matched (nextLinkPage p) := by
  unfold nextLinkPage
  split
  · exact h
  · rename_i hne
    obtain ⟨hpos, hlt, hall⟩ := h.next hne
    apply Covers.send
    refine ⟨⟨_, Or.inr ⟨rfl, hpos, hlt⟩, hall⟩, ?_, h.inFlight, h.next, h.finished⟩
    intro c hc
    rcases List.mem_append.mp hc with hc | hc
    · exact h.history c hc
    · rw [List.mem_singleton.mp hc]
      exact h.cursor

theorem Covers.previous_page {p : Pager} (h : Covers matched p) :
    Covers matched (previousLinkPage p) := by
  unfold previousLinkPage
  split
  · exact h
  · rename_i cursor hlast
    apply Covers.send
    refine ⟨h.history cursor (List.mem_of_getLast? hlast), ?_, h.inFlight, h.next, h.finished⟩
    intro c hc
    exact h.history c ((List.dropLast_sublist _).subset hc)

theorem Covers.drop {p : Pager} (h : Covers matched p) (i : ℕ) : Covers matched (p.drop i) :=
  ⟨h.cursor, h.history, fun l hl => h.inFlight l (List.mem_of_mem_eraseIdx hl), h.next,
    h.finished⟩

/-- An answer extends what was shown from its cursor down to the cursor it names. -/
theorem Covers.show {p : Pager} (h : Covers matched p) {l : Load}
    (hl : Covered matched p.seen l.cursor) (hu : Placed u) {db : Database}
    (hids : ∀ r ∈ db.links.rows, 0 < r.id ∧ r.id < 2 ^ 53)
    (hmatched : ∀ i, matched i → Visible db u i) {page : LinkPage}
    (hpage : linksPage {} db u l.query = .ok page) : Covers matched (p.show page) := by
  obtain ⟨n, hn, hcovered⟩ := hl
  obtain ⟨limit, hserves⟩ := linksPage_serves hu (fun r hr => (hids r hr).1) hn hpage
  refine ⟨h.cursor.mono, fun c hc => (h.history c hc).mono, fun l hl => (h.inFlight l hl).mono,
    ?_, ?_⟩
  · intro hne
    obtain ⟨hmem, -, hall⟩ := hserves.more hne
    obtain ⟨r, hr, hid, -, -⟩ := (hserves.sound _ hmem).1
    obtain ⟨hpos, hlt⟩ := hids r hr
    rw [hid] at hpos hlt
    refine ⟨hpos, hlt, fun i hi hnot => ?_⟩
    have hle : page.nextCursor ≤ i := by
      by_contra hgt
      exact hnot fun _ => not_le.mp hgt
    by_cases hbelow : Below n i
    · exact List.mem_append_right _ (hall i (hmatched i hi) hbelow hle)
    · exact List.mem_append_left _ (hcovered i hi hbelow)
  · intro hdisabled _ i hi
    have hlast : page.nextCursor = 0 := of_decide_eq_true (Option.some.inj hdisabled)
    by_cases hbelow : Below n i
    · exact List.mem_append_right _ (hserves.last hlast i (hmatched i hi) hbelow)
    · exact List.mem_append_left _ (hcovered i hi hbelow)

/-- An answer without a page shows nothing and names no cursor. -/
theorem Covers.showNone {p : Pager} (h : Covers matched p) : Covers matched p.showNone := by
  refine ⟨h.cursor.mono, fun c hc => (h.history c hc).mono, fun l hl => (h.inFlight l hl).mono,
    ?_, ?_⟩
  · intro hne
    exact absurd rfl hne
  · intro _ hserved
    cases hserved

/-- The links that an answer is read from have ids that a browser holds exactly. -/
def Exact : Event → Prop
  | .answer _ db => ∀ r ∈ db.links.rows, 0 < r.id ∧ r.id < 2 ^ 53
  | _ => True

def Event.shows (u : User) (i : ℤ) : Event → Prop
  | .answer _ db => Visible db u i
  | _ => True

theorem Covers.step (hu : Placed u) {p q : Pager} {e : Event} (h : Covers matched p)
    (hexact : Exact e) (hmatched : ∀ i, matched i → e.shows u i)
    (hstep : LinkPager.next u p e = some q) :
    Covers matched q := by
  cases e with
  | next =>
    cases hstep
    exact h.next_page
  | previous =>
    cases hstep
    exact h.previous_page
  | resize size =>
    cases hstep
    have hsized : Covers matched { p with pageSize := size } :=
      ⟨h.cursor, h.history, h.inFlight, h.next, h.finished⟩
    exact hsized.reset.send
  | load =>
    cases hstep
    exact h.send
  | reset =>
    cases hstep
    exact h.reset
  | answer i db =>
    obtain ⟨l, hl, rfl⟩ := Option.map_eq_some_iff.mp hstep
    have hcovered := h.inFlight l (List.mem_of_getElem? hl)
    cases hpage : linksPage {} db u l.query with
    | ok page => exact (h.drop i).show hcovered hu hexact hmatched hpage
    | error e => exact h.drop i
  | fail i =>
    obtain ⟨l, -, rfl⟩ := Option.map_eq_some_iff.mp hstep
    exact h.drop i
  | noPage i =>
    obtain ⟨l, -, rfl⟩ := Option.map_eq_some_iff.mp hstep
    exact (h.drop i).showNone

theorem covers_run (hu : Placed u) {size : Str} {es : List Event} {p : Pager}
    (run : Execution (next u) (initial size) es p) (hexact : ∀ e ∈ es, Exact e) :
    Covers (fun i => ∀ e ∈ es, e.shows u i) p := by
  refine run.invariant_of (P := fun _ e => e ∈ es) (covers_initial size) ?_ ?_
  · intro q e r hq he hstep
    exact hq.step hu (hexact e he) (fun i hi => hi e he) hstep
  · rintro xs e ys - rfl -
    exact List.mem_append_right xs List.mem_cons_self

/-! ## What is shown -/

/-- The links on the page, and those shown before, were the user's to see when they were read. -/
structure Sound (u : User) (answered : Database → Prop) (p : Pager) : Prop where
  seen : ∀ i ∈ p.seen, ∃ db, answered db ∧ Visible db u i
  descending : (p.linkCache.map Link.id).Pairwise (· > ·)
  cache : ∀ x ∈ p.linkCache, x.id ∈ p.seen
  served : p.linkCache ≠ [] → p.served = true

theorem Sound.of_same {answered : Database → Prop} {p q : Pager} (h : Sound u answered p)
    (hseen : q.seen = p.seen) (hcache : q.linkCache = p.linkCache) (hserved : q.served = p.served) :
    Sound u answered q := by
  constructor
  · rw [hseen]
    exact h.seen
  · rw [hcache]
    exact h.descending
  · rw [hseen, hcache]
    exact h.cache
  · rw [hcache, hserved]
    exact h.served

theorem Sound.step {answered : Database → Prop} (hu : Placed u) {p q : Pager} {e : Event}
    (h : Sound u answered p) (hcovers : Covers matched p) (hexact : Exact e)
    (hanswered : ∀ i db, e = .answer i db → answered db) (hstep : next u p e = some q) :
    Sound u answered q := by
  cases e with
  | next =>
    cases hstep
    unfold nextLinkPage
    split
    · exact h
    · exact h.of_same rfl rfl rfl
  | previous =>
    cases hstep
    unfold previousLinkPage
    split
    · exact h
    · exact h.of_same rfl rfl rfl
  | resize size =>
    cases hstep
    exact h.of_same rfl rfl rfl
  | load =>
    cases hstep
    exact h.of_same rfl rfl rfl
  | reset =>
    cases hstep
    exact h.of_same rfl rfl rfl
  | answer i db =>
    obtain ⟨l, hl, rfl⟩ := Option.map_eq_some_iff.mp hstep
    obtain ⟨n, hn, -⟩ := hcovers.inFlight l (List.mem_of_getElem? hl)
    cases hpage : linksPage {} db u l.query with
    | ok page =>
      obtain ⟨limit, hserves⟩ := linksPage_serves hu (fun r hr => (hexact r hr).1) hn hpage
      refine ⟨?_, hserves.descending, ?_, fun _ => rfl⟩
      · intro i hi
        rcases List.mem_append.mp hi with hold | hnew
        · exact h.seen i hold
        · exact ⟨db, hanswered _ db rfl, (hserves.sound i hnew).1⟩
      · intro x hx
        exact List.mem_append_right _ (List.mem_map_of_mem hx)
    | error e => exact h.of_same rfl rfl rfl
  | fail i =>
    obtain ⟨l, -, rfl⟩ := Option.map_eq_some_iff.mp hstep
    exact h.of_same rfl rfl rfl
  | noPage i =>
    obtain ⟨l, -, rfl⟩ := Option.map_eq_some_iff.mp hstep
    refine ⟨?_, List.Pairwise.nil, ?_, fun hne => absurd rfl hne⟩
    · intro i hi
      exact h.seen i ((List.mem_append.mp hi).resolve_right List.not_mem_nil)
    · intro x hx
      cases hx

theorem sound_run (hu : Placed u) {size : Str} {es : List Event} {p : Pager}
    (run : Execution (next u) (initial size) es p) (hexact : ∀ e ∈ es, Exact e) :
    Sound u (fun db => ∃ i, .answer i db ∈ es) p := by
  have hboth : Sound u (fun db => ∃ i, .answer i db ∈ es) p ∧
      Covers (fun i => ∀ e ∈ es, e.shows u i) p := by
    refine run.invariant_of (P := fun _ e => e ∈ es)
      (I := fun q => Sound u (fun db => ∃ i, .answer i db ∈ es) q ∧
        Covers (fun i => ∀ e ∈ es, e.shows u i) q) ?_ ?_ ?_
    · refine ⟨⟨?_, List.Pairwise.nil, ?_, fun hne => absurd rfl hne⟩, covers_initial size⟩
      · intro i hi
        cases hi
      · intro x hx
        cases hx
    · rintro q e r ⟨hsound, hcovers⟩ he hstep
      refine ⟨hsound.step hu hcovers (hexact e he) ?_ hstep,
        hcovers.step hu (hexact e he) (fun i hi => hi e he) hstep⟩
      rintro i db rfl
      exact ⟨i, he⟩
    · rintro xs e ys - rfl -
      exact List.mem_append_right xs List.mem_cons_self
  exact hboth.1

/-! ## The last page is reached -/

/-- `Next` clicked again and again, each time answered, with so many other loads unanswered. -/
def walk (others : ℕ) (db : Database) : ℕ → List Event
  | 0 => []
  | k + 1 => .next :: .answer others db :: walk others db k

theorem answered_next (hu : Placed u) {db : Database}
    (hids : ∀ r ∈ db.links.rows, 0 < r.id ∧ r.id < 2 ^ 53) {p : Pager} {l : Load} {n : ℤ}
    (hn : Names l.cursor n) {limit : ℕ}
    (hlimit : queryLimit l.query 500 "limit must be 1 to 500" = .ok limit)
    {others : List Load} (hflight : p.inFlight = others ++ [l]) :
    ∃ page, next u p (.answer others.length db) = some (({ p with inFlight := others }).show page) ∧
      Serves (linkLimit limit) (Visible db u) n (page.items.map Link.id) page.nextCursor := by
  obtain ⟨page, hpage, hserves⟩ := linksPage_ok hu (fun r hr => (hids r hr).1) hn hlimit
  refine ⟨page, ?_, hserves⟩
  have hget : p.inFlight[others.length]? = some l := by
    rw [hflight, List.getElem?_append_right (le_refl _), Nat.sub_self]
    rfl
  have hdrop : p.drop others.length = { p with inFlight := others } := by
    rw [Pager.drop, hflight, List.eraseIdx_append_of_length_le (le_refl _), Nat.sub_self]
    simp
  simp only [next, hget, Option.map_some, hpage, hdrop]

theorem walk_ends (hu : Placed u) {db : Database}
    (hids : ∀ r ∈ db.links.rows, 0 < r.id ∧ r.id < 2 ^ 53) {limit : ℕ} (k : ℕ) {p : Pager}
    {n : ℤ} (hnext : p.linkNextCursor = n) (hpos : 0 < n)
    (hlt : n < 2 ^ 53) (hk : n ≤ k)
    (hlimit : ∀ c, queryLimit (Load.query ⟨p.pageSize, c⟩) 500 "limit must be 1 to 500" =
      .ok limit) :
    ∃ (rounds : ℕ) (q : Pager), rounds ≤ k ∧
      Execution (next u) p (walk p.inFlight.length db rounds) q ∧ q.nextDisabled = some true ∧
      q.served = true ∧ q.inFlight = p.inFlight := by
  induction k generalizing p n with
  | zero => omega
  | succ k ih =>
    let clicked := nextLinkPage p
    have hclicked : clicked = { p with
        linkCursorHistory := p.linkCursorHistory ++ [p.linkCursor]
        linkCursor := numberText n
        inFlight := p.inFlight ++ [⟨p.pageSize, numberText n⟩] } := by
      change nextLinkPage p = _
      rw [nextLinkPage, if_neg (by omega), hnext]
      rfl
    have hfirst : next u p .next = some clicked := rfl
    obtain ⟨page, hanswer, hserves⟩ := @answered_next u hu db hids clicked
      ⟨p.pageSize, numberText n⟩ n (Or.inr ⟨rfl, hpos, hlt⟩) limit (hlimit _)
      p.inFlight (by rw [hclicked])
    have htwo := (Execution.single hfirst).append (Execution.single hanswer)
    by_cases hlast : page.nextCursor = 0
    · refine ⟨1, _, by omega, htwo, ?_, rfl, rfl⟩
      exact congrArg some (decide_eq_true hlast)
    · obtain ⟨hmem, -, -⟩ := hserves.more hlast
      obtain ⟨⟨r, hr, hid, -, -⟩, hbelow⟩ := hserves.sound _ hmem
      have hnextPos : 0 < page.nextCursor := hid ▸ (hids r hr).1
      have hless := hbelow hpos
      obtain ⟨rounds, q, hrounds, hrun, hend, hserved, hflight⟩ := @ih
        (({ clicked with inFlight := p.inFlight }).show page) page.nextCursor rfl hnextPos
          (by omega) (by omega)
        (by rw [hclicked]; exact hlimit)
      exact ⟨rounds + 1, q, by omega, htwo.append hrun, hend, hserved, hflight⟩

end

/-- In every run, whatever the clicks, the order of the answers and the changes between them: where
the browser has been told by the server that it shows the last page, every link that the user could
see all along was shown, and what was shown was the user's to see. Only an empty list can be one
that the server did not send. And wherever a next page is announced and the links no longer change,
clicking `Next` leads to the last page. -/
theorem no_link_skipped {u : User} (hu : Placed u) {size : Str} {es : List Event} {p : Pager}
    (run : Execution (next u) (initial size) es p) (hexact : ∀ e ∈ es, Exact e) :
    (p.nextDisabled = some true → p.served = true →
      ∀ i, (∀ e ∈ es, e.shows u i) → i ∈ p.seen) ∧
    (p.linkCache ≠ [] → p.served = true) ∧
    (∀ i ∈ p.seen, ∃ k db, .answer k db ∈ es ∧ Visible db u i) ∧
    (∀ x ∈ p.linkCache, x.id ∈ p.seen) ∧ (p.linkCache.map Link.id).Pairwise (· > ·) ∧
    (p.linkNextCursor ≠ 0 → ∀ db limit,
      (∀ r ∈ db.links.rows, 0 < r.id ∧ r.id < 2 ^ 53) →
      (∀ c, queryLimit (Load.query ⟨p.pageSize, c⟩) 500 "limit must be 1 to 500" = .ok limit) →
      ∃ (rounds : ℕ) (q : Pager),
        Execution (next u) p (walk p.inFlight.length db rounds) q ∧
          q.nextDisabled = some true ∧ q.served = true) := by
  have hcovers := covers_run hu run hexact
  have hsound := sound_run hu run hexact
  refine ⟨hcovers.finished, hsound.served, ?_, hsound.cache, hsound.descending, ?_⟩
  · intro i hi
    obtain ⟨db, ⟨k, hmem⟩, hvisible⟩ := hsound.seen i hi
    exact ⟨k, db, hmem, hvisible⟩
  · intro hne db limit hids hlimit
    obtain ⟨hpos, hlt, -⟩ := hcovers.next hne
    obtain ⟨rounds, q, -, hrun, hend, hserved, -⟩ := walk_ends hu hids p.linkNextCursor.toNat rfl
      hpos hlt (by omega) hlimit
    exact ⟨rounds, q, hrun, hend, hserved⟩

/-! Three pages of two links each, of tables that change between the answers. -/

/-- What the administrator's query reads of the links at one page. -/
def found (n : ℕ) (cursor : ℤ) : List Link :=
  (((changingLinks n).links.rows.filter
    (inView (fun r => r.tenantId = some 1) cursor)).reverse.take 3).map
      fun r => hydrateLink (changingLinks n) (scanLink r)

def foundPage (n : ℕ) (cursor : ℤ) : LinkPage :=
  if 2 < (found n cursor).length then
    ⟨(found n cursor).take 2, (((found n cursor).take 2).getLast?.map Link.id).getD 0⟩
  else ⟨found n cursor, 0⟩

/-- Rows in the order of their ids are listed the other way round. -/
theorem mergeSort_of_ascending {rows : List LinkRow} (h : rows.Pairwise fun a b => a.id < b.id) :
    (rows.mergeSort fun a b => decide (b.id ≤ a.id)) = rows.reverse := by
  have hnodup : (rows.map LinkRow.id).Nodup := List.pairwise_map.mpr (h.imp ne_of_lt)
  have hdescending : rows.reverse.Pairwise fun a b => decide (b.id ≤ a.id) = true :=
    List.pairwise_reverse.mpr (h.imp fun hlt => decide_eq_true (le_of_lt hlt))
  have hsorted := @List.pairwise_mergeSort _ (fun a b : LinkRow => decide (b.id ≤ a.id))
    (fun a b c hab hbc => by
      simp only [decide_eq_true_eq] at hab hbc ⊢
      omega)
    (fun a b => by
      simp only [Bool.or_eq_true, decide_eq_true_eq]
      omega) rows
  refine List.Perm.eq_of_pairwise (fun a b ha hb hab hba => ?_) hsorted hdescending
    ((List.mergeSort_perm rows _).trans (List.reverse_perm rows).symm)
  exact List.inj_on_of_nodup_map hnodup (List.mem_mergeSort.mp ha) (List.mem_reverse.mp hb)
    (le_antisymm (of_decide_eq_true hba) (of_decide_eq_true hab))

theorem changingLinks_ascending (n : ℕ) :
    (changingLinks n).links.rows.Pairwise fun a b => a.id < b.id := by
  have hlater : (changingLinks 2).links.rows.Pairwise fun a b => a.id < b.id := by decide
  match n with
  | 0 => decide
  | 1 => decide
  | _ + 2 => exact hlater

theorem linksPage_changing {n : ℕ} {l : Load} {cursor : ℤ} (hlimit : l.pageSize = lit "2")
    (hcursor : queryCursor l.query "cursor must be a positive link id" = .ok cursor) :
    linksPage {} (changingLinks n) tenantAdmin l.query = .ok (foundPage n cursor) := by
  have hsize : l.query (lit "limit") = lit "2" := hlimit
  have hquery : queryLimit l.query 500 "limit must be 1 to 500" = .ok 2 := by
    rw [queryLimit, hsize]
    rfl
  have hlist : listLinks {} (changingLinks n) tenantAdmin 3 cursor = .ok (found n cursor) := by
    rw [@listLinks_healthy {} ⟨rfl, fun _ => rfl, rfl, rfl⟩ (changingLinks n) tenantAdmin
      (fun r => r.tenantId = some 1) rfl, listed,
      mergeSort_of_ascending ((changingLinks_ascending n).filter _)]
    rfl
  have hpage : linksPage {} (changingLinks n) tenantAdmin l.query =
      ListLinksPage {} (changingLinks n) tenantAdmin 2 cursor := by
    rw [linksPage, hquery, hcursor]
    rfl
  rw [hpage]
  simp only [ListLinksPage, foundPage]
  rw [if_neg (by decide), show (2 : ℤ) + 1 = 3 from rfl, hlist]
  dsimp only
  by_cases hmore : 2 < (found n cursor).length
  · rw [if_pos hmore, if_pos (by exact_mod_cast hmore)]
    rfl
  · rw [if_neg hmore, if_neg (by exact_mod_cast hmore)]

def asked : Pager := (initial (lit "2")).send

def firstPage : Pager := (asked.drop 0).show (foundPage 0 0)

/-- The answer to `Next` cannot be read. -/
def unread : Pager := ((nextLinkPage firstPage).drop 0).showNone

def secondPage : Pager := (unread.send.drop 0).show (foundPage 1 6)

def lastPage : Pager := ((nextLinkPage secondPage).drop 0).show (foundPage 2 3)

/-- The page is loaded again after the answer that could not be read. -/
def browsing : List Event :=
  [.load, .answer 0 (changingLinks 0), .next, .noPage 0, .load, .answer 0 (changingLinks 1), .next,
    .answer 0 (changingLinks 2)]

theorem answer_changing {p q : Pager} {l : Load} {n : ℕ} {cursor : ℤ}
    (hflight : p.inFlight = [l]) (hlimit : l.pageSize = lit "2")
    (hcursor : queryCursor l.query "cursor must be a positive link id" = .ok cursor)
    (hq : q = (p.drop 0).show (foundPage n cursor)) :
    next tenantAdmin p (.answer 0 (changingLinks n)) = some q := by
  have hget : p.inFlight[0]? = some l := by
    rw [hflight]
    rfl
  simp only [next, hget, Option.map_some, linksPage_changing hlimit hcursor, hq]

theorem loaded : Execution (next tenantAdmin) (initial (lit "2"))
    [.load, .answer 0 (changingLinks 0)] firstPage := by
  have hanswer : next tenantAdmin asked (.answer 0 (changingLinks 0)) = some firstPage :=
    answer_changing rfl rfl rfl rfl
  exact .tail (.tail (.refl _) rfl) hanswer

theorem browsed : Execution (next tenantAdmin) (initial (lit "2")) browsing lastPage := by
  have hsecond : next tenantAdmin unread.send (.answer 0 (changingLinks 1)) = some secondPage :=
    answer_changing rfl rfl rfl rfl
  have hlast : next tenantAdmin (nextLinkPage secondPage) (.answer 0 (changingLinks 2)) =
    some lastPage := answer_changing rfl rfl rfl rfl
  have hunread : Execution (next tenantAdmin) (initial (lit "2"))
      [.load, .answer 0 (changingLinks 0), .next, .noPage 0] unread :=
    .tail (.tail loaded rfl) rfl
  exact .tail (.tail (.tail (.tail hunread rfl) hsecond) rfl) hlast

/-- Every link that stays is shown on one of the three pages, and from the first page on `Next`
would have led to the last one too. -/
theorem no_link_skipped_changing :
    ∃ p, Execution (next tenantAdmin) (initial (lit "2")) browsing p ∧
      p.nextDisabled = some true ∧ p.pageNumber = some 3 ∧
      (∀ i ∈ kept, (rowId i).val ∈ p.seen) ∧ p.seen = [7, 6, 4, 3, 1] ∧
      (p.linkCache.map Link.id).Pairwise (· > ·) ∧
      ∃ (rounds : ℕ) (q : Pager),
        Execution (next tenantAdmin) firstPage (walk 0 (changingLinks 1) rounds) q ∧
          q.nextDisabled = some true ∧ q.served = true := by
  have hexact : ∀ e ∈ browsing, Exact e := by
    simp only [browsing, List.forall_mem_cons, Exact, true_and]
    exact ⟨changingLinks_ids 0, changingLinks_ids 1, changingLinks_ids 2, by simp⟩
  have hshown : ∀ i ∈ kept, ∀ e ∈ browsing, e.shows tenantAdmin (rowId i).val := by
    intro i hi
    simp only [browsing, List.forall_mem_cons, Event.shows, true_and]
    exact ⟨changingLinks_visible hi 0, changingLinks_visible hi 1, changingLinks_visible hi 2,
      by simp⟩
  obtain ⟨hall, -, -, -, hdescending, -⟩ := no_link_skipped (fun _ => rfl) browsed hexact
  obtain ⟨-, -, -, -, -, hwalk⟩ := no_link_skipped (fun _ => rfl) loaded
    fun e he => hexact e (List.mem_append_left (browsing.drop 2) he)
  refine ⟨lastPage, browsed, by decide +kernel, by decide +kernel,
    fun i hi => hall (by decide +kernel) rfl _ (hshown i hi), by decide +kernel, hdescending, ?_⟩
  exact hwalk (by decide +kernel) (changingLinks 1) 2 (changingLinks_ids 1) fun _ => rfl

end LinkPager
