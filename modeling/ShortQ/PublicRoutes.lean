import ShortQ.RedirectEvents

/-! # The routes of the server

The table `Routes` fills, the choice the mux makes among its patterns, and the handlers a visitor
of a short link can meet. -/
namespace PublicRoutes

open GoText
open Hosts
open LinkValidation
open Models
open RedirectEvents
open Schema
open Transaction

/-- The handlers other than the three that look for a slug. -/
inductive Endpoint where
  | health | swagger | register | login | forgot | changePassword
  | microsoftLogin | microsoftCallback | microsoftLogout | me | sessionMode
  | analytics | analyticsTimeseries | analyticsBreakdown | linkReports | userReports | clicks
  | tenants | domains | domainByID | customers | customerByID | auditEvents | adminRuntime
  | links | linksPage | importLinks | exportLinks | bulkLinks | linkByID | qr
  | apiKeys | apiKeyByID | shortioLinks | shortioDeleteBulk | shortioLinkByID
  deriving DecidableEq, Repr

inductive Handler where
  | plain (endpoint : Endpoint)
  | withAuth (endpoint : Endpoint)
  | withDocsAuth (endpoint : Endpoint)
  | redirectShort
  | redirectLegacy
  | web
  deriving DecidableEq, Repr

def Routes : List (Str × Handler) :=
  [(lit "/healthz", .plain .health),
    (lit "/docs", .withDocsAuth .swagger),
    (lit "/docs/", .withDocsAuth .swagger),
    (lit "/docs.html", .withDocsAuth .swagger),
    (lit "/api/v1/auth/register", .plain .register),
    (lit "/api/v1/auth/login", .plain .login),
    (lit "/api/v1/auth/forgot-password", .plain .forgot),
    (lit "/api/v1/auth/change-password", .withAuth .changePassword),
    (lit "/auth/microsoft/login", .plain .microsoftLogin),
    (lit "/auth/microsoft/callback", .plain .microsoftCallback),
    (lit "/auth/logout", .plain .microsoftLogout),
    (lit "/api/v1/me", .withAuth .me),
    (lit "/api/v1/session/mode", .plain .sessionMode),
    (lit "/api/v1/analytics", .withAuth .analytics),
    (lit "/api/v1/analytics/timeseries", .withAuth .analyticsTimeseries),
    (lit "/api/v1/analytics/breakdown", .withAuth .analyticsBreakdown),
    (lit "/api/v1/reports/links/", .withAuth .linkReports),
    (lit "/api/v1/reports/users/", .withAuth .userReports),
    (lit "/api/v1/clicks", .withAuth .clicks),
    (lit "/api/v1/tenants", .withAuth .tenants),
    (lit "/api/v1/domains", .withAuth .domains),
    (lit "/api/v1/domains/", .withAuth .domainByID),
    (lit "/api/v1/customers", .withAuth .customers),
    (lit "/api/v1/customers/", .withAuth .customerByID),
    (lit "/api/v1/audit-events", .withAuth .auditEvents),
    (lit "/api/v1/admin/runtime", .withAuth .adminRuntime),
    (lit "/api/v1/links", .withAuth .links),
    (lit "/api/v1/links/page", .withAuth .linksPage),
    (lit "/api/v1/links/import", .withAuth .importLinks),
    (lit "/api/v1/links/export.csv", .withAuth .exportLinks),
    (lit "/api/v1/links/bulk", .withAuth .bulkLinks),
    (lit "/api/v1/links/", .withAuth .linkByID),
    (lit "/api/v1/qr", .plain .qr),
    (lit "/api/v1/api-keys", .withAuth .apiKeys),
    (lit "/api/v1/api-keys/", .withAuth .apiKeyByID),
    (lit "/links", .withAuth .shortioLinks),
    (lit "/links/delete_bulk", .withAuth .shortioDeleteBulk),
    (lit "/links/", .withAuth .shortioLinkByID),
    (lit "/s/", .redirectShort),
    (lit "/r/", .redirectLegacy),
    (lit "/", .web)]

/-- A pattern that ends in a slash stands for every path below it. -/
def subtree (pattern path : Str) : Bool := pattern.getLast? = some 47 && pattern.isPrefixOf path

/-- The longer of two entries; of equal ones the first. -/
def longer (best : Option (Str × Handler)) (entry : Str × Handler) : Option (Str × Handler) :=
  match best with
  | none => some entry
  | some b => if b.1.length < entry.1.length then some entry else some b

/-- The choice of `ServeMux`: the pattern that is the path itself, then the longest one the path
lies below. Paths that the mux would clean first are not slugs and are left out. -/
def dispatch (routes : List (Str × Handler)) (path : Str) : Option Handler :=
  match routes.find? (·.1 = path) with
  | some entry => some entry.2
  | none => ((routes.filter fun entry => subtree entry.1 path).foldl longer none).map Prod.snd

/-- Who answers a request in the end, and with what it was asked. -/
inductive Served where
  | endpoint (handler : Handler) (path : Str)
  | signIn
  | file (path : Str)
  /-- The call `redirectSlug(w, r, slug)`. -/
  | redirectSlug (slug : Str)
  deriving DecidableEq, Repr

/-- The headers set before the answer, with the answer. -/
structure Answer where
  headers : List (Str × Str)
  served : Served
  deriving DecidableEq, Repr

/-- What `web` tells every cache on the way. -/
def uncached : List (Str × Str) :=
  [(lit "Cache-Control", lit "no-store"), (lit "Pragma", lit "no-cache"), (lit "Expires", lit "0")]

/-- The handler of `/`. `session` tells whether the request carries one. -/
def web (session : Bool) (path : Str) : Answer :=
  ⟨uncached,
    if path = lit "/" || path = lit "/index.html" then if session then .file path else .signIn
    else if isReservedRootPath path then .file path
    else .redirectSlug (trim 47 path)⟩

def handle (session : Bool) (path : Str) : Handler → Answer
  | .redirectShort => ⟨[], .redirectSlug (trimPrefix (lit "/s/") path)⟩
  | .redirectLegacy => ⟨[], .redirectSlug (trimPrefix (lit "/r/") path)⟩
  | .web => web session path
  | handler => ⟨[], .endpoint handler path⟩

/-- A request through the mux of `Routes`; the pattern `/` takes what no other does. -/
def serve (session : Bool) (path : Str) : Answer :=
  match dispatch Routes path with
  | some handler => handle session path handler
  | none => ⟨[], .file path⟩

/-- `redirectSlug`, given the site, the request on its host and the lookup of slugs. -/
def redirect (site : Site) (v : Visit) (lookup : Str → Except Err Link) (slug : Str) : Handled :=
  if acceptedSlug slug then redirectSlug site v (lookup slug) else .replied .notFound

/-- The answer to a request that comes to the redirect handler. -/
def Served.handled (site : Site) (v : Visit) (lookup : Str → Except Err Link) :
    Served → Option Handled
  | .redirectSlug slug => some (redirect site v lookup slug)
  | _ => none

/-! The choice of the mux. -/

theorem slash_slug {slug : Str} (h : slugRe slug = true) : 47 ∉ slug ∧ 46 ∉ slug := by
  simp only [slugRe, Bool.and_eq_true, List.all_eq_true] at h
  constructor
  · intro hmem
    exact absurd (h.2 47 hmem) (by decide)
  · intro hmem
    exact absurd (h.2 46 hmem) (by decide)

/-- A pattern that ends in a slash reaches no further than the last slash of the path. -/
theorem subtree_append (pattern : Str) {base slug : Str} (hslug : 47 ∉ slug) :
    subtree pattern (base ++ slug) = subtree pattern base := by
  unfold subtree
  by_cases hlast : pattern.getLast? = some 47
  · rw [decide_eq_true hlast, Bool.true_and, Bool.true_and, Bool.eq_iff_iff,
      List.isPrefixOf_iff_prefix, List.isPrefixOf_iff_prefix]
    constructor
    · intro hprefix
      by_cases hlength : pattern.length ≤ base.length
      · exact List.prefix_of_prefix_length_le hprefix (List.prefix_append base slug) hlength
      · have hbase : base <+: pattern :=
          List.prefix_of_prefix_length_le (List.prefix_append base slug) hprefix (by omega)
        obtain ⟨rest, rfl⟩ := hbase
        have hrest : rest <+: slug := (List.prefix_append_right_inj base).mp hprefix
        have hne : rest ≠ [] := by
          intro hnil
          rw [hnil, List.append_nil] at hlength
          exact hlength (Nat.le_refl _)
        rw [List.getLast?_append_of_ne_nil _ hne] at hlast
        exact absurd (hrest.subset (List.mem_of_getLast? hlast)) hslug
    · intro hprefix
      exact hprefix.trans (List.prefix_append base slug)
  · rw [decide_eq_false hlast, Bool.false_and, Bool.false_and]

/-- Where no pattern is the path itself, a last segment does not change the choice among the
subtrees. -/
theorem dispatch_below {routes : List (Str × Handler)} {base slug : Str} (hslug : 47 ∉ slug)
    (hnone : ∀ entry ∈ routes, entry.1 ≠ base ++ slug) :
    dispatch routes (base ++ slug)
      = ((routes.filter fun entry => subtree entry.1 base).foldl longer none).map Prod.snd := by
  have hfind : routes.find? (·.1 = base ++ slug) = none := by
    rw [List.find?_eq_none]
    intro entry hentry
    simpa using hnone entry hentry
  have hfilter : (routes.filter fun entry => subtree entry.1 (base ++ slug))
      = routes.filter fun entry => subtree entry.1 base :=
    List.filter_congr fun entry _ => subtree_append entry.1 hslug
  rw [dispatch, hfind, hfilter]

/-- The application's own pages that have the form of a slug. -/
def appPages : List Str := [lit "healthz", lit "docs", lit "links"]

theorem route_prefixed : ∀ base ∈ [lit "/s/", lit "/r/"], ∀ entry ∈ Routes,
    base.isPrefixOf entry.1 = true → slugRe (entry.1.drop base.length) = false := by
  decide

theorem route_root : ∀ entry ∈ Routes, slugRe (entry.1.drop 1) = true →
    entry.1.drop 1 ∈ appPages := by
  decide

theorem no_pattern {base slug : Str} (hbase : base ∈ [lit "/s/", lit "/r/"])
    (h : slugRe slug = true) : ∀ entry ∈ Routes, entry.1 ≠ base ++ slug := by
  intro entry hentry heq
  have hprefix : base.isPrefixOf entry.1 = true := by
    rw [heq]
    exact List.isPrefixOf_iff_prefix.mpr (List.prefix_append base slug)
  have hno := route_prefixed base hbase entry hentry hprefix
  rw [heq, List.drop_left, h] at hno
  cases hno

theorem dispatch_short {slug : Str} (h : slugRe slug = true) :
    dispatch Routes (lit "/s/" ++ slug) = some .redirectShort := by
  rw [dispatch_below (slash_slug h).1 (no_pattern (by decide) h)]
  decide

theorem dispatch_legacy {slug : Str} (h : slugRe slug = true) :
    dispatch Routes (lit "/r/" ++ slug) = some .redirectLegacy := by
  rw [dispatch_below (slash_slug h).1 (no_pattern (by decide) h)]
  decide

theorem dispatch_root {slug : Str} (h : slugRe slug = true) (hpage : slug ∉ appPages) :
    dispatch Routes (lit "/" ++ slug) = some .web := by
  rw [dispatch_below (slash_slug h).1]
  · decide
  · intro entry hentry heq
    have hpages := route_root entry hentry (by rw [heq]; exact h)
    rw [heq] at hpages
    exact hpage hpages

theorem dispatch_page {slug : Str} (h : slug ∈ appPages) :
    ∃ handler, dispatch Routes (lit "/" ++ slug) = some handler ∧
      ∀ session, handle session (lit "/" ++ slug) handler
        = ⟨[], .endpoint handler (lit "/" ++ slug)⟩ := by
  have hall : ∀ page ∈ appPages, dispatch Routes (lit "/" ++ page) = some (.plain .health) ∨
      dispatch Routes (lit "/" ++ page) = some (.withDocsAuth .swagger) ∨
      dispatch Routes (lit "/" ++ page) = some (.withAuth .shortioLinks) := by
    decide
  rcases hall slug h with h | h | h
  · exact ⟨_, h, fun _ => rfl⟩
  · exact ⟨_, h, fun _ => rfl⟩
  · exact ⟨_, h, fun _ => rfl⟩

/-! A slug at the root. -/

theorem trim_plain {slug : Str} (h : 47 ∉ slug) : trim 47 slug = slug := by
  unfold trim
  rw [List.dropWhile_eq_self_iff.mpr, List.rdropWhile_eq_self_iff.mpr]
  · intro hne hlast
    exact h (of_decide_eq_true hlast ▸ List.getLast_mem hne)
  · intro hpos hhead
    exact h (of_decide_eq_true hhead ▸ List.getElem_mem hpos)

theorem trim_root {slug : Str} (h : 47 ∉ slug) : trim 47 (lit "/" ++ slug) = slug := by
  have hdrop : trim 47 (lit "/" ++ slug) = trim 47 slug := by
    unfold trim
    rw [show lit "/" ++ slug = 47 :: slug from rfl, List.dropWhile_cons_of_pos (by decide)]
  rw [hdrop, trim_plain h]

theorem not_reserved {slug : Str} (h : slugRe slug = true) :
    isReservedRootPath (lit "/" ++ slug) = false := by
  obtain ⟨hslash, hdot⟩ := slash_slug h
  have hfiles : ∀ name ∈ [lit "app.js", lit "style.css", lit "docs.html", lit "favicon.ico",
      lit "robots.txt"], (46 : UInt8) ∈ name := by
    decide
  have hnone : [lit "app.js", lit "style.css", lit "docs.html", lit "favicon.ico",
      lit "robots.txt"].contains slug = false := by
    rw [← Bool.not_eq_true, List.contains_iff_mem]
    intro hmem
    exact hdot (hfiles slug hmem)
  have hempty : slug ≠ [] := by
    intro hnil
    rw [hnil] at h
    exact absurd h (by decide)
  rw [isReservedRootPath, trim_root hslash, hnone]
  simp [hempty, hslash, hdot]

theorem acceptedSlug_of_slugRe {slug : Str} (h : slugRe slug = true) :
    acceptedSlug slug = true := by
  have hempty : slug ≠ [] := by
    intro hnil
    rw [hnil] at h
    exact absurd h (by decide)
  have hreserved : isReservedRootPath (47 :: slug) = false := not_reserved h
  simp [acceptedSlug, hempty, hreserved, (slash_slug h).1]

/-! The three routes of a slug. -/

/-- The three requests come to `redirectSlug` with the slug, its filter lets the slug pass, and
they are answered alike. -/
structure OnEveryRoute (session : Bool) (slug : Str) : Prop where
  short : (serve session (lit "/s/" ++ slug)).served = .redirectSlug slug
  legacy : (serve session (lit "/r/" ++ slug)).served = .redirectSlug slug
  root : (serve session (lit "/" ++ slug)).served = .redirectSlug slug
  passes : isReservedRootPath (lit "/" ++ slug) = false ∧ acceptedSlug slug = true
  alike : ∀ site v lookup,
    (serve session (lit "/r/" ++ slug)).served.handled site v lookup
      = (serve session (lit "/s/" ++ slug)).served.handled site v lookup ∧
    (serve session (lit "/" ++ slug)).served.handled site v lookup
      = (serve session (lit "/s/" ++ slug)).served.handled site v lookup

theorem serve_short (session : Bool) {slug : Str} (h : slugRe slug = true) :
    serve session (lit "/s/" ++ slug) = ⟨[], .redirectSlug slug⟩ := by
  rw [serve, dispatch_short h]
  rfl

theorem serve_legacy (session : Bool) {slug : Str} (h : slugRe slug = true) :
    serve session (lit "/r/" ++ slug) = ⟨[], .redirectSlug slug⟩ := by
  rw [serve, dispatch_legacy h]
  rfl

theorem serve_root (session : Bool) {slug : Str} (h : slugRe slug = true)
    (hpage : slug ∉ appPages) :
    serve session (lit "/" ++ slug) = ⟨uncached, .redirectSlug slug⟩ := by
  have hindex : lit "/" ++ slug ≠ lit "/index.html" := by
    intro heq
    have htail : slug = lit "index.html" := (List.cons.inj heq).2
    exact (slash_slug h).2 (htail ▸ by decide)
  have hroot : lit "/" ++ slug ≠ lit "/" := by
    intro heq
    have htail : slug = [] := (List.cons.inj heq).2
    rw [htail] at h
    exact absurd h (by decide)
  rw [serve, dispatch_root h hpage]
  simp only [handle, web, not_reserved h, trim_root (slash_slug h).1, hroot, hindex]
  rfl

/-- A slug works on the three routes unless it is the name of a page of the application. -/
theorem onEveryRoute_iff (session : Bool) {slug : Str} (h : slugRe slug = true) :
    OnEveryRoute session slug ↔ slug ∉ appPages := by
  constructor
  · intro hroutes hpage
    obtain ⟨handler, hdispatch, hhandle⟩ := dispatch_page hpage
    have hroot := hroutes.root
    simp only [serve, hdispatch, hhandle] at hroot
    cases hroot
  · intro hpage
    constructor
    · rw [serve_short session h]
    · rw [serve_legacy session h]
    · rw [serve_root session h hpage]
    · exact ⟨not_reserved h, acceptedSlug_of_slugRe h⟩
    · intro site v lookup
      rw [serve_short session h, serve_legacy session h, serve_root session h hpage]
      exact ⟨rfl, rfl⟩

theorem onEveryRoute_promo : slugRe (lit "promo-alva") = true ∧
    (OnEveryRoute false (lit "promo-alva") ↔ lit "promo-alva" ∉ appPages) :=
  ⟨by decide, onEveryRoute_iff false (by decide)⟩

/-- A link with the slug `docs` is stored, and its root address shows the API documentation. -/
theorem docs_at_root : slugRe (lit "docs") = true ∧ ¬ OnEveryRoute false (lit "docs") ∧
    (serve false (lit "/docs")).served = .endpoint (.withDocsAuth .swagger) (lit "/docs") := by
  refine ⟨by decide, ?_, by decide⟩
  intro h
  have hroot := h.root
  exact absurd hroot (by decide)

end PublicRoutes
